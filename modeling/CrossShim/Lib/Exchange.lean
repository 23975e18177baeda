import Mathlib

/-!
# Sorting by exchanges

Bubble sort over the places `0, …, n - 1`: a pass compares neighbours from the left to the right and exchanges those
that are out of order, and there are `n - 1` passes, each one place shorter than the one before.

`bubble_stablySorts`: where the order is total and transitive, the result is the input sorted, and elements of which
neither is greater keep their order.
-/

namespace CrossShim.Lib

open Equiv

theorem foldl_range_rule {β : Type*} {step : β → ℕ → β} {n : ℕ} {b : β} (P : ℕ → β → Prop) (h0 : P 0 b)
    (hstep : ∀ i b, i < n → P i b → P (i + 1) (step b i)) : P n ((List.range n).foldl step b) := by
  induction n with
  | zero => exact h0
  | succ n ih =>
    rw [List.range_succ, List.foldl_append]
    exact hstep n _ (Nat.lt_succ_self n) (ih fun i b hi => hstep i b (Nat.lt_succ_of_lt hi))

theorem foldl_range_rel {β γ : Type*} {step : β → ℕ → β} {step' : γ → ℕ → γ} {n : ℕ} {b : β} {c : γ} (R : β → γ → Prop)
    (h0 : R b c) (hstep : ∀ i b c, i < n → R b c → R (step b i) (step' c i)) :
    R ((List.range n).foldl step b) ((List.range n).foldl step' c) := by
  induction n with
  | zero => exact h0
  | succ n ih =>
    rw [List.range_succ, List.foldl_append, List.foldl_append]
    exact hstep n _ _ (Nat.lt_succ_self n) (ih fun i b c hi => hstep i b c (Nat.lt_succ_of_lt hi))

section

variable {α : Type*} (gt : α → α → Prop) [DecidableRel gt]

/-- The elements at `j` and `j + 1` change places if the first is greater. -/
def exchange (g : ℕ → α) (j : ℕ) : ℕ → α := if gt (g j) (g (j + 1)) then g ∘ swap j (j + 1) else g

def bubblePass (m : ℕ) (g : ℕ → α) : ℕ → α := (List.range m).foldl (exchange gt) g

def bubble (n : ℕ) (g : ℕ → α) : ℕ → α := (List.range (n - 1)).foldl (fun g i => bubblePass gt (n - i - 1) g) g

end

/-- `g` has the first `n` elements of `f` in the order of `le`, and equal ones in the order of `f`. -/
def StablySorts {α : Type*} (le : α → α → Prop) (n : ℕ) (f g : ℕ → α) : Prop :=
  ∃ σ : Perm ℕ, (∀ i, n ≤ i → σ i = i) ∧ (∀ i, i < n → g i = f (σ i)) ∧
    ∀ i j, i < j → j < n → le (g i) (g j) ∧ (le (g j) (g i) → σ i < σ j)

section

variable {α : Type*} {le : α → α → Prop} {n : ℕ} {f g : ℕ → α}

lemma lt_of_fixes {σ : Perm ℕ} (hfix : ∀ i, n ≤ i → σ i = i) {i : ℕ} (hi : i < n) : σ i < n := by
  by_contra hno
  have h := σ.injective (hfix (σ i) (not_lt.1 hno))
  omega

lemma StablySorts.congr {f' g' : ℕ → α} (h : StablySorts le n f g) (hf : ∀ i, i < n → f i = f' i)
    (hg : ∀ i, i < n → g i = g' i) : StablySorts le n f' g' := by
  obtain ⟨σ, hfix, heq, hord⟩ := h
  refine ⟨σ, hfix, ?_, ?_⟩
  · intro i hi
    rw [← hg i hi, heq i hi, hf _ (lt_of_fixes hfix hi)]
  · intro i j hij hj
    rw [← hg i (hij.trans hj), ← hg j hj]
    exact hord i j hij hj

lemma stablySorts_self (h : ∀ i j, i < j → j < n → le (f i) (f j)) : StablySorts le n f f :=
  ⟨Equiv.refl ℕ, fun _ _ => rfl, fun _ _ => rfl, fun i j hij hj => ⟨h i j hij hj, fun _ => hij⟩⟩

lemma StablySorts.map (le : α → α → Prop) {β : Type*} (φ : β → α) {f g : ℕ → β}
    (h : StablySorts (fun a b => le (φ a) (φ b)) n f g) :
    StablySorts le n (φ ∘ f) (φ ∘ g) := by
  obtain ⟨σ, hfix, heq, hord⟩ := h
  exact ⟨σ, hfix, fun i hi => congrArg φ (heq i hi), hord⟩

end

/-! ### One exchange -/

section

/-- A swap of neighbours keeps the order of two places, unless they are the two neighbours. -/
lemma swap_lt_swap {j p q : ℕ} (h : p < q) :
    swap j (j + 1) p < swap j (j + 1) q ∨ p = j ∧ q = j + 1 := by
  simp only [swap_apply_def]
  split_ifs <;> omega

lemma swap_lt_iff {j e p : ℕ} (he : j + 1 < e) : swap j (j + 1) p < e ↔ p < e := by
  simp only [swap_apply_def]
  split_ifs <;> omega

lemma swap_of_le {j e p : ℕ} (he : j + 1 < e) (hp : e ≤ p) : swap j (j + 1) p = p :=
  swap_apply_of_ne_of_ne (by omega) (by omega)

variable {α : Type*} {le gt : α → α → Prop} [DecidableRel gt]

/-- `g` is a rearrangement of the first `n` elements of `f` that keeps the order of equals. -/
def KeepsTies (le : α → α → Prop) (n : ℕ) (f g : ℕ → α) : Prop :=
  ∃ σ : Perm ℕ, (∀ i, n ≤ i → σ i = i) ∧ (∀ i, g i = f (σ i)) ∧
    ∀ i j, i < j → j < n → le (g i) (g j) → le (g j) (g i) → σ i < σ j

lemma keepsTies_refl (n : ℕ) (f : ℕ → α) : KeepsTies le n f f :=
  ⟨Equiv.refl ℕ, fun _ _ => rfl, fun _ => rfl, fun _ _ h _ _ _ => h⟩

/-- **An exchange keeps the order of equals.** -/
theorem KeepsTies.exchange {n : ℕ} {f g : ℕ → α} (hgt : ∀ a b, gt a b ↔ ¬ le a b) (h : KeepsTies le n f g) {j : ℕ}
    (hj : j + 1 < n) : KeepsTies le n f (exchange gt g j) := by
  unfold Lib.exchange
  by_cases hc : gt (g j) (g (j + 1))
  · rw [if_pos hc]
    obtain ⟨σ, hfix, hg, hties⟩ := h
    refine ⟨σ * swap j (j + 1), ?_, fun i => hg _, ?_⟩
    · intro i hi
      rw [Perm.mul_apply, swap_of_le hj hi, hfix i hi]
    · intro p q hpq hq h1 h2
      rcases swap_lt_swap (j := j) hpq with hlt | ⟨rfl, rfl⟩
      · exact hties _ _ hlt ((swap_lt_iff hj).2 hq) h1 h2
      · -- the two were exchanged because they are no equals
        have h2' : le (g p) (g (p + 1)) := by simpa using h2
        exact absurd h2' ((hgt _ _).1 hc)
  · rw [if_neg hc]
    exact h

/-- The places from `e` on hold what is to stay there. -/
def Settled (le : α → α → Prop) (n e : ℕ) (g : ℕ → α) : Prop := ∀ i j, i < j → e ≤ j → j < n → le (g i) (g j)

/-- **An exchange before `e` leaves what is settled.** -/
theorem Settled.exchange {n e j : ℕ} {g : ℕ → α} (h : Settled le n e g) (hj : j + 1 < e) :
    Settled le n e (exchange gt g j) := by
  unfold Lib.exchange
  by_cases hc : gt (g j) (g (j + 1))
  · rw [if_pos hc]
    intro p q hpq hq hn
    have hlt : swap j (j + 1) p < q := by
      rcases Nat.lt_or_ge p e with hp | hp
      · exact ((swap_lt_iff hj).2 hp).trans_le hq
      · rwa [swap_of_le hj hp]
    show le (g _) (g _)
    rw [swap_of_le hj hq]
    exact h _ _ hlt hq hn
  · rw [if_neg hc]
    exact h

/-- **The greatest so far moves on.** -/
theorem exchange_top {g : ℕ → α} [IsTrans α le] [Std.Total le] (hgt : ∀ a b, gt a b ↔ ¬ le a b) {j : ℕ}
    (h : ∀ t, t ≤ j → le (g t) (g j)) : ∀ t, t ≤ j + 1 → le (exchange gt g j t) (exchange gt g j (j + 1)) := by
  intro t ht
  unfold Lib.exchange
  by_cases hc : gt (g j) (g (j + 1))
  · rw [if_pos hc]
    simp only [Function.comp_apply, swap_apply_right]
    have hle : le (g (j + 1)) (g j) := ((Std.Total.total _ _).resolve_left ((hgt _ _).1 hc))
    rcases eq_or_ne t j with rfl | htj
    · rwa [swap_apply_left]
    · rcases eq_or_ne t (j + 1) with rfl | htj'
      · rw [swap_apply_right]
        exact h j le_rfl
      · rw [swap_apply_of_ne_of_ne htj htj']
        exact h t (by omega)
  · rw [if_neg hc]
    have hle : le (g j) (g (j + 1)) := by
      by_contra hno
      exact hc ((hgt _ _).2 hno)
    rcases Nat.lt_or_ge j t with hjt | hjt
    · obtain rfl : t = j + 1 := by omega
      exact (Std.Total.total (r := le) _ _).elim id id
    · exact IsTrans.trans _ _ _ (h t hjt) hle

lemma exchange_comp {β : Type*} (φ : β → α) (g : ℕ → β) (j : ℕ) :
    exchange gt (φ ∘ g) j = φ ∘ exchange (fun a b => gt (φ a) (φ b)) g j := by
  unfold Lib.exchange
  by_cases hc : gt (φ (g j)) (φ (g (j + 1)))
  · rw [if_pos hc]
    exact if_pos hc
  · rw [if_neg hc]
    exact if_neg hc

lemma bubble_comp {β : Type*} (φ : β → α) (n : ℕ) (g : ℕ → β) :
    bubble gt n (φ ∘ g) = φ ∘ bubble (fun a b => gt (φ a) (φ b)) n g := by
  refine foldl_range_rel (fun f g => f = φ ∘ g) rfl ?_
  rintro i _ g _ rfl
  refine foldl_range_rel (fun f g => f = φ ∘ g) rfl ?_
  rintro j _ g _ rfl
  exact exchange_comp φ g j

/-! ### Passes -/

section

variable [IsTrans α le] [Std.Total le] {n : ℕ} {f g : ℕ → α}

/-- What holds between two passes: the places from `e` on are done. -/
structure Bubbling (le : α → α → Prop) (n : ℕ) (f : ℕ → α) (e : ℕ) (g : ℕ → α) : Prop where
  ties : KeepsTies le n f g
  settled : Settled le n e g

/-- **A pass** settles one more place. -/
theorem Bubbling.pass (hgt : ∀ a b, gt a b ↔ ¬ le a b) {m : ℕ} (hm : m < n) (h : Bubbling le n f (m + 1) g) :
    Bubbling le n f m (bubblePass gt m g) := by
  have hrun : Bubbling le n f (m + 1) (bubblePass gt m g) ∧
      ∀ t, t ≤ m → le (bubblePass gt m g t) (bubblePass gt m g m) := by
    refine foldl_range_rule (fun j g => Bubbling le n f (m + 1) g ∧ ∀ t, t ≤ j → le (g t) (g j)) ⟨h, ?_⟩ ?_
    · intro t ht
      obtain rfl : t = 0 := by omega
      exact (Std.Total.total (r := le) _ _).elim id id
    · rintro j g hj ⟨hb, htop⟩
      exact ⟨⟨hb.ties.exchange hgt (by omega), hb.settled.exchange (by omega)⟩, exchange_top hgt htop⟩
  refine ⟨hrun.1.ties, ?_⟩
  intro i j hij hmj hjn
  rcases Nat.eq_or_lt_of_le hmj with rfl | hlt
  · exact hrun.2 i hij.le
  · exact hrun.1.settled i j hij hlt hjn

/-- **Bubble sort sorts, and is stable.** -/
theorem bubble_stablySorts (hgt : ∀ a b, gt a b ↔ ¬ le a b) (n : ℕ) (f : ℕ → α) :
    StablySorts le n f (bubble gt n f) := by
  have hrun : Bubbling le n f (n - (n - 1)) (bubble gt n f) := by
    refine foldl_range_rule (fun i g => Bubbling le n f (n - i) g) ⟨keepsTies_refl n f, ?_⟩ ?_
    · intro i j _ hj hjn
      omega
    · intro i g hi hb
      have he : n - i = n - i - 1 + 1 := by omega
      rw [he] at hb
      have := hb.pass hgt (by omega)
      rwa [Nat.sub_sub] at this ⊢
  obtain ⟨σ, hfix, hg, hties⟩ := hrun.ties
  refine ⟨σ, hfix, fun i _ => hg i, ?_⟩
  intro i j hij hjn
  have hle := hrun.settled i j hij (by omega) hjn
  exact ⟨hle, hties i j hij hjn hle⟩

end

end

end CrossShim.Lib
