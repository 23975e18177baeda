import Mathlib

/-!
# Ordered maps and multimaps

The containers of systems code, as lists that carry the proof that they are sorted:

* `OrdMap κ ν` — a finite map, its pairs sorted by strictly increasing key (`std::map`; also the model of an
  unordered map wherever nothing reads its iteration order);
* `OrdMultimap κ ν` — pairs sorted by key, equal keys in order of insertion (`std::multimap`).

Everything is stated by membership of pairs, so that proofs about a client never look at the lists.
-/

namespace CrossShim.Lib

open List

variable {κ ν : Type*} [LinearOrder κ]

/-- The element that is found in a list in order comes before the others of its kind. -/
lemma rel_of_find? {α : Type*} {r : α → α → Prop} {p : α → Bool} {l : List α} {e x : α} (hs : l.Pairwise r)
    (h : l.find? p = some e) (hx : x ∈ l) (hp : p x = true) : x = e ∨ r e x := by
  obtain ⟨-, as, bs, rfl, has⟩ := find?_eq_some_iff_append.1 h
  rcases mem_append.1 hx with hx | hx
  · exact absurd hp (by simpa using has x hx)
  · exact (mem_cons.1 hx).imp_right ((pairwise_cons.1 (pairwise_append.1 hs).2.1).1 x)

/-- An element is put between those of a list in order that come before it and those that come after it. -/
lemma pairwise_split {α : Type*} {r : α → α → Prop} {p q : α → Bool} {l : List α} {e : α} (hs : l.Pairwise r)
    (hp : ∀ a, p a → r a e) (hq : ∀ b, q b → r e b) (ht : ∀ a b, r a e → r e b → r a b) :
    (l.filter p ++ e :: l.filter q).Pairwise r := by
  rw [pairwise_append, pairwise_cons]
  refine ⟨hs.filter _, ⟨fun b hb => hq b (mem_filter.1 hb).2, hs.filter _⟩, fun a ha b hb => ?_⟩
  have ha' := hp a (mem_filter.1 ha).2
  rcases mem_cons.1 hb with rfl | hb
  · exact ha'
  · exact ht a b ha' (hq b (mem_filter.1 hb).2)

/-! ### Maps -/

/-- A finite map, as the list of its pairs in increasing order of the keys. -/
structure OrdMap (κ ν : Type*) [LinearOrder κ] where
  entries : List (κ × ν)
  sorted : entries.Pairwise (fun a b => a.1 < b.1)

namespace OrdMap

variable {m : OrdMap κ ν} {k k' : κ} {v v' : ν}

def empty : OrdMap κ ν := ⟨[], List.Pairwise.nil⟩

def find? (m : OrdMap κ ν) (k : κ) : Option ν := (m.entries.find? (fun e => e.1 = k)).map Prod.snd

def insert (m : OrdMap κ ν) (k : κ) (v : ν) : OrdMap κ ν where
  entries := m.entries.filter (fun e => e.1 < k) ++ (k, v) :: m.entries.filter (fun e => k < e.1)
  sorted := pairwise_split m.sorted (by simp) (by simp) fun _ _ => lt_trans

def erase (m : OrdMap κ ν) (k : κ) : OrdMap κ ν where
  entries := m.entries.filter (fun e => e.1 ≠ k)
  sorted := m.sorted.filter _

/-- The first pair whose key is not below `k` (`lower_bound`). -/
def lowerBound (m : OrdMap κ ν) (k : κ) : Option (κ × ν) := m.entries.find? (fun e => k ≤ e.1)

/-- The last pair whose key is below `k` (`std::prev` of `lower_bound`). -/
def before (m : OrdMap κ ν) (k : κ) : Option (κ × ν) := m.entries.reverse.find? (fun e => e.1 < k)

lemma key_unique (h : (k, v) ∈ m.entries) (h' : (k, v') ∈ m.entries) : v = v' := by
  have hkeys : (m.entries.map Prod.fst).Nodup := pairwise_map.2 (m.sorted.imp ne_of_lt)
  exact (Prod.mk.inj (inj_on_of_nodup_map hkeys h h' rfl)).2

lemma nodup (m : OrdMap κ ν) : m.entries.Nodup :=
  m.sorted.imp fun h heq => by subst heq; exact lt_irrefl _ h

@[simp] lemma mem_empty : (k, v) ∉ (empty : OrdMap κ ν).entries := by simp [empty]

@[simp] lemma mem_insert :
    (k', v') ∈ (m.insert k v).entries ↔ (k' = k ∧ v' = v) ∨ (k' ≠ k ∧ (k', v') ∈ m.entries) := by
  simp only [insert, mem_append, mem_cons, mem_filter, Prod.mk.injEq, decide_eq_true_eq]
  constructor
  · rintro (⟨h, hlt⟩ | h | ⟨h, hlt⟩)
    · exact .inr ⟨hlt.ne, h⟩
    · exact .inl h
    · exact .inr ⟨hlt.ne', h⟩
  · rintro (h | ⟨hne, h⟩)
    · exact .inr (.inl h)
    · rcases lt_or_gt_of_ne hne with hlt | hlt
      · exact .inl ⟨h, hlt⟩
      · exact .inr (.inr ⟨h, hlt⟩)

lemma forall_insert {P : κ → ν → Prop} (hk : P k v) (h : ∀ a n, (a, n) ∈ m.entries → P a n) :
    ∀ a n, (a, n) ∈ (m.insert k v).entries → P a n := by
  intro a n han
  rcases mem_insert.1 han with ⟨rfl, rfl⟩ | ⟨-, han⟩
  · exact hk
  · exact h a n han

lemma pairwise_insert {R : κ → ν → κ → ν → Prop} (hR : ∀ {a n b l}, R a n b l → R b l a n)
    (hk : ∀ a n, (a, n) ∈ m.entries → R k v a n)
    (h : ∀ a n b l, (a, n) ∈ m.entries → (b, l) ∈ m.entries → a ≠ b → R a n b l) :
    ∀ a n b l, (a, n) ∈ (m.insert k v).entries → (b, l) ∈ (m.insert k v).entries → a ≠ b → R a n b l := by
  intro a n b l han hbl hne
  rcases mem_insert.1 han with ⟨rfl, rfl⟩ | ⟨-, ha⟩ <;> rcases mem_insert.1 hbl with ⟨rfl, rfl⟩ | ⟨-, hb⟩
  · exact absurd rfl hne
  · exact hk _ _ hb
  · exact hR (hk _ _ ha)
  · exact h a n b l ha hb hne

@[simp] lemma mem_erase : (k', v') ∈ (m.erase k).entries ↔ k' ≠ k ∧ (k', v') ∈ m.entries := by
  simp [erase, and_comm]

lemma find?_eq_some : m.find? k = some v ↔ (k, v) ∈ m.entries := by
  unfold find?
  constructor
  · intro h
    obtain ⟨e, he, rfl⟩ := Option.map_eq_some_iff.1 h
    have h1 := find?_some he
    simp only [decide_eq_true_eq] at h1
    subst h1
    exact mem_of_find?_eq_some he
  · intro h
    cases hf : m.entries.find? (fun e => e.1 = k) with
    | none => exact absurd (find?_eq_none.1 hf _ h) (by simp)
    | some e =>
      obtain ⟨a, b⟩ := e
      have h1 := find?_some hf
      simp only [decide_eq_true_eq] at h1
      subst h1
      rw [Option.map_some, key_unique (mem_of_find?_eq_some hf) h]

instance (priority := 2000) decidableForall (P : κ → ν → Prop) [∀ k v, Decidable (P k v)] :
    Decidable (∀ k v, m.find? k = some v → P k v) :=
  decidable_of_iff (∀ e ∈ m.entries, P e.1 e.2) (by simp [find?_eq_some])

lemma find?_eq_none : m.find? k = none ↔ ∀ v, (k, v) ∉ m.entries := by
  rw [Option.eq_none_iff_forall_ne_some]
  simp only [ne_eq, find?_eq_some]

@[simp] lemma find?_insert_self : (m.insert k v).find? k = some v := by
  simp [find?_eq_some]

lemma find?_insert_of_ne (h : k' ≠ k) : (m.insert k v).find? k' = m.find? k' := by
  apply Option.ext
  intro x
  simp [find?_eq_some, h]

lemma find?_insert_eq_some :
    (m.insert k v).find? k' = some v' ↔ (k' = k ∧ v' = v) ∨ (k' ≠ k ∧ m.find? k' = some v') := by
  rw [find?_eq_some, mem_insert, find?_eq_some]

@[simp] lemma find?_erase_self : (m.erase k).find? k = none := by
  simp [find?_eq_none]

lemma find?_erase_eq_some : (m.erase k).find? k' = some v' ↔ k' ≠ k ∧ m.find? k' = some v' := by
  rw [find?_eq_some, mem_erase, find?_eq_some]

lemma find?_erase_of_ne (h : k' ≠ k) : (m.erase k).find? k' = m.find? k' := by
  apply Option.ext
  intro x
  simp [find?_eq_some, h]

lemma lowerBound_eq_some (h : m.lowerBound k = some (k', v')) :
    (k', v') ∈ m.entries ∧ k ≤ k' ∧ ∀ a b, (a, b) ∈ m.entries → k ≤ a → k' ≤ a := by
  have hmem := mem_of_find?_eq_some h
  have hle : k ≤ k' := by simpa using find?_some h
  refine ⟨hmem, hle, ?_⟩
  intro a b hab hka
  rcases rel_of_find? m.sorted h hab (by simpa using hka) with heq | hlt
  · exact (Prod.mk.inj heq).1.ge
  · exact hlt.le

lemma lowerBound_eq_none (h : m.lowerBound k = none) : ∀ a b, (a, b) ∈ m.entries → a < k := by
  intro a b hab
  have := List.find?_eq_none.1 h _ hab
  simpa using this

lemma before_eq_some (h : m.before k = some (k', v')) :
    (k', v') ∈ m.entries ∧ k' < k ∧ ∀ a b, (a, b) ∈ m.entries → a < k → a ≤ k' := by
  have hmem := mem_of_find?_eq_some h
  have hlt : k' < k := by simpa using find?_some h
  refine ⟨mem_reverse.1 hmem, hlt, ?_⟩
  intro a b hab hak
  rcases rel_of_find? (pairwise_reverse.2 m.sorted) h (mem_reverse.2 hab) (by simpa using hak) with heq | hlt
  · exact (Prod.mk.inj heq).1.le
  · exact hlt.le

lemma before_eq_none (h : m.before k = none) : ∀ a b, (a, b) ∈ m.entries → k ≤ a := by
  intro a b hab
  have := List.find?_eq_none.1 h _ (List.mem_reverse.2 hab)
  simpa using this

/-! ### The sum of the values -/

section Sum

variable {ν : Type*} [AddCommMonoid ν] {m : OrdMap κ ν} {v : ν}

def sum (m : OrdMap κ ν) : ν := (m.entries.map Prod.snd).sum

omit [LinearOrder κ] in
lemma sum_filter_add (l : List (κ × ν)) (p : κ × ν → Bool) :
    (l.map Prod.snd).sum = ((l.filter p).map Prod.snd).sum + ((l.filter fun e => !p e).map Prod.snd).sum := by
  rw [← sum_append, ← map_append]
  exact ((filter_append_perm p l).map Prod.snd).sum_eq.symm

lemma sum_filter_key {l : List (κ × ν)} (h : l.Pairwise (fun a b => a.1 < b.1)) :
    ((l.filter fun e => e.1 = k).map Prod.snd).sum = ((l.find? fun e => e.1 = k).map Prod.snd).getD 0 := by
  induction l with
  | nil => rfl
  | cons e l ih =>
    obtain ⟨hlt, hl⟩ := pairwise_cons.1 h
    by_cases he : e.1 = k
    · have hnone : l.filter (fun e => decide (e.1 = k)) = [] := by
        rw [filter_eq_nil_iff]
        intro e' he'
        have := hlt e' he'
        simp only [decide_eq_true_eq]
        rintro rfl
        exact absurd this (he ▸ lt_irrefl _)
      simp [he, hnone]
    · simp only [filter_cons, find?_cons, he, decide_false, Bool.false_eq_true, if_false]
      exact ih hl

lemma sum_erase_add : (m.erase k).sum + (m.find? k).getD 0 = m.sum := by
  have hsum := sum_filter_add m.entries fun e => decide (e.1 ≠ k)
  have hkey : ((m.entries.filter fun e => !decide (e.1 ≠ k)).map Prod.snd).sum = (m.find? k).getD 0 := by
    rw [find?, ← sum_filter_key m.sorted]
    simp
  rw [hkey] at hsum
  exact hsum.symm

lemma sum_insert_eq : (m.insert k v).sum = (m.erase k).sum + v := by
  have hsum := sum_filter_add (m.erase k).entries fun e => decide (e.1 < k)
  have hlt : (m.erase k).entries.filter (fun e => decide (e.1 < k)) = m.entries.filter fun e => decide (e.1 < k) := by
    rw [erase, filter_filter]
    refine filter_congr fun e _ => ?_
    simp only [Bool.and_eq_left_iff_imp, decide_eq_true_eq]
    exact fun h => ne_of_lt h
  have hgt : (m.erase k).entries.filter (fun e => !decide (e.1 < k)) =
      m.entries.filter fun e => decide (k < e.1) := by
    rw [erase, filter_filter]
    refine filter_congr fun e _ => ?_
    rcases lt_trichotomy e.1 k with h | h | h
    · simp [h, not_lt_of_gt h]
    · simp [h]
    · simp [h, h.ne', not_lt_of_gt h]
  rw [hlt, hgt] at hsum
  unfold sum insert
  rw [hsum, map_append, sum_append, map_cons, sum_cons]
  dsimp only
  abel

lemma sum_insert_add : (m.insert k v).sum + (m.find? k).getD 0 = m.sum + v := by
  have herase : (m.erase k).sum + (m.find? k).getD 0 = m.sum := sum_erase_add
  rw [sum_insert_eq, ← herase]
  abel

end Sum

section SumGroup

variable {ν : Type*} [AddCommGroup ν] {m : OrdMap κ ν} {v : ν}

lemma sum_erase : (m.erase k).sum = m.sum - (m.find? k).getD 0 := eq_sub_of_add_eq sum_erase_add

lemma sum_insert : (m.insert k v).sum = m.sum - (m.find? k).getD 0 + v := by
  rw [sum_insert_eq, sum_erase]

end SumGroup

end OrdMap

/-! ### Multimaps -/

/-- Pairs in increasing order of the keys; equal keys stand in order of insertion. -/
structure OrdMultimap (κ ν : Type*) [LinearOrder κ] where
  entries : List (κ × ν)
  sorted : entries.Pairwise (fun a b => a.1 ≤ b.1)

namespace OrdMultimap

variable {m : OrdMultimap κ ν} {k k' : κ} {v v' : ν}

def empty : OrdMultimap κ ν := ⟨[], List.Pairwise.nil⟩

def insert (m : OrdMultimap κ ν) (k : κ) (v : ν) : OrdMultimap κ ν where
  entries := m.entries.filter (fun e => e.1 ≤ k) ++ (k, v) :: m.entries.filter (fun e => k < e.1)
  sorted := pairwise_split m.sorted (by simp) (fun b hb => (of_decide_eq_true hb).le) fun _ _ => le_trans

/-- Remove the first pair of key `k` and value `v`. -/
def eraseOne [DecidableEq ν] (m : OrdMultimap κ ν) (k : κ) (v : ν) : OrdMultimap κ ν where
  entries := m.entries.erase (k, v)
  sorted := m.sorted.sublist List.erase_sublist

/-- The pairs an iterator visits from `lower_bound k` to the end. -/
def fromKey (m : OrdMultimap κ ν) (k : κ) : List (κ × ν) := m.entries.filter (fun e => k ≤ e.1)

@[simp] lemma mem_empty : (k, v) ∉ (empty : OrdMultimap κ ν).entries := by simp [empty]

@[simp] lemma mem_insert :
    (k', v') ∈ (m.insert k v).entries ↔ (k' = k ∧ v' = v) ∨ (k', v') ∈ m.entries := by
  simp only [insert, mem_append, mem_cons, mem_filter, Prod.mk.injEq, decide_eq_true_eq]
  constructor
  · rintro (⟨h, -⟩ | h | ⟨h, -⟩)
    · exact .inr h
    · exact .inl h
    · exact .inr h
  · rintro (h | h)
    · exact .inr (.inl h)
    · rcases le_or_gt k' k with hle | hlt
      · exact .inl ⟨h, hle⟩
      · exact .inr (.inr ⟨h, hlt⟩)

lemma nodup_insert (h : m.entries.Nodup) (hnew : (k, v) ∉ m.entries) : (m.insert k v).entries.Nodup := by
  simp only [insert]
  rw [nodup_append, nodup_cons]
  refine ⟨h.filter _, ⟨fun hm => hnew (mem_filter.1 hm).1, h.filter _⟩, ?_⟩
  intro a ha b hb hab
  subst hab
  obtain ⟨ham, hak⟩ := mem_filter.1 ha
  rcases mem_cons.1 hb with rfl | hb
  · exact hnew ham
  · simp only [decide_eq_true_eq] at hak
    have : k < a.1 := by simpa using (mem_filter.1 hb).2
    exact absurd hak (not_le.2 this)

lemma mem_eraseOne [DecidableEq ν] (h : m.entries.Nodup) :
    (k', v') ∈ (m.eraseOne k v).entries ↔ (k', v') ≠ (k, v) ∧ (k', v') ∈ m.entries :=
  h.mem_erase_iff

lemma nodup_eraseOne [DecidableEq ν] (h : m.entries.Nodup) : (m.eraseOne k v).entries.Nodup :=
  h.erase _

@[simp] lemma mem_fromKey : (k', v') ∈ m.fromKey k ↔ (k', v') ∈ m.entries ∧ k ≤ k' := by
  simp [fromKey]

end OrdMultimap

end CrossShim.Lib
