import CrossShim.Lib.Word

/-!
# Chunk loops

The loop that walks over `total` bytes in pieces of at most `step` bytes and stops at the first piece that
fails:

`offset = 0; while (offset < total) { chunk = min(total - offset, step); if (!body(…)) return false; offset += chunk; }`

`chunks_rule` is its proof rule.
-/

namespace CrossShim.Lib

section

variable {σ : Type*} (step total : Word) (body : ℕ → Word → Word → σ → σ × Bool)

/-- The loop from its `i`-th piece on; `body` is given the number, the offset and the length of the piece. -/
def chunksFrom : ℕ → ℕ → Word → σ → σ × Bool
  | 0, _, _, s => (s, true)
  | fuel + 1, i, offset, s =>
    if offset < total then
      match body i offset (min (total - offset) step) s with
      | (s', true) => chunksFrom fuel (i + 1) (offset + min (total - offset) step) s'
      | (s', false) => (s', false)
    else (s, true)

/-- The whole loop.  It makes at most `total / step + 1` rounds. -/
def chunks (s : σ) : σ × Bool := chunksFrom step total body (total.toNat / step.toNat + 1) 0 0 s

end

/-- Where a computation that reports success or failure ends up: in `I`, or in `F`. -/
def Ends {σ : Type*} (I F : σ → Prop) : σ × Bool → Prop
  | (s, true) => I s
  | (s, false) => F s

variable {σ : Type*}

lemma ends_self {I : σ → Prop} {r : σ × Bool} : Ends I I r ↔ I r.1 := by
  obtain ⟨s, b⟩ := r
  cases b <;> rfl

lemma Ends.of_false {I : σ → Prop} {r : σ × Bool} (h : Ends I (fun _ => False) r) : r.2 = true ∧ I r.1 := by
  obtain ⟨s, b⟩ := r
  cases b with
  | false => exact h.elim
  | true => exact ⟨rfl, h⟩

section

variable {σ : Type*} {step total : Word} {body : ℕ → Word → Word → σ → σ × Bool} {I : Word → σ → Prop} {F : σ → Prop}

lemma toNat_chunk (step : Word) {offset : Word} (h : offset < total) :
    (min (total - offset) step).toNat = min (total.toNat - offset.toNat) step.toNat ∧
      (offset + min (total - offset) step).toNat =
        offset.toNat + min (total.toNat - offset.toNat) step.toNat := by
  have hlt : offset.toNat < total.toNat := h
  have hmin : (min (total - offset) step).toNat = min (total.toNat - offset.toNat) step.toNat := by
    rcases le_total (total - offset) step with h | h
    · rw [min_eq_left h]
      bv_omega
    · rw [min_eq_right h]
      bv_omega
  refine ⟨hmin, ?_⟩
  rw [BitVec.toNat_add, hmin, Nat.mod_eq_of_lt]
  omega

lemma chunksFrom_rule (hbody : ∀ i offset s, offset < total → I offset s →
      Ends (I (offset + min (total - offset) step)) F (body i offset (min (total - offset) step) s)) :
    ∀ fuel i (offset : Word) (s : σ), offset ≤ total → total.toNat - offset.toNat ≤ fuel * step.toNat →
      I offset s → Ends (I total) F (chunksFrom step total body fuel i offset s) := by
  intro fuel
  induction fuel with
  | zero =>
    intro i offset s hle hfuel hI
    have he : offset = total := by
      rw [BitVec.le_def] at hle
      bv_omega
    exact he ▸ hI
  | succ fuel ih =>
    intro i offset s hle hfuel hI
    unfold chunksFrom
    by_cases hlt : offset < total
    · rw [if_pos hlt]
      have hlt' : offset.toNat < total.toNat := hlt
      have hnext := (toNat_chunk step hlt).2
      have hend := hbody i offset s hlt hI
      cases hb : body i offset (min (total - offset) step) s with
      | mk s' b =>
        rw [hb] at hend
        cases b with
        | false => exact hend
        | true =>
          refine ih (i + 1) _ s' ?_ ?_ hend
          · rw [BitVec.le_def, hnext]
            omega
          · rw [hnext]
            rw [Nat.succ_mul] at hfuel
            omega
    · rw [if_neg hlt]
      have he : offset = total := le_antisymm hle (not_lt.1 hlt)
      exact he ▸ hI

/-- **The rule of chunk loops.**  `I offset` holds when the first `offset` bytes are done; a piece that fails
leaves `F`. -/
theorem chunks_rule {s : σ} (hs : 0 < step.toNat) (h0 : I 0 s) (hbody : ∀ i offset s, offset < total → I offset s →
      Ends (I (offset + min (total - offset) step)) F (body i offset (min (total - offset) step) s)) :
    Ends (I total) F (chunks step total body s) := by
  refine chunksFrom_rule hbody _ 0 0 s (by bv_omega) ?_ h0
  rw [Nat.add_mul, Nat.one_mul]
  have := (Nat.lt_div_mul_add (a := total.toNat) hs).le
  simpa using this

end

end CrossShim.Lib
