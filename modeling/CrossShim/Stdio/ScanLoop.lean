import CrossShim.Stdio.ScanStrings

/-!
# The loop of `scanf`

A scan goes through the tokens of the format.  `Step` says what a token that is done does: a literal text and a
suppressed conversion move on in the input, any other conversion also takes the next pointer, stores its value at that
pointer and counts as an assignment, unless it is `%n`.  `Run` is a sequence of such steps.  `scanWithInput_loop`: every
scan is a run over the tokens before the one that it fails at, which stores nothing.
-/

namespace CrossShim.Stdio.Scan

open Lib Memory Option List
open Format (ascii)

/-! ### What a scan does -/

/-- What is stored stands where the pointer points, or in a new block whose address is stored there. -/
def StoresAt (argPtr : Word) (g g' : GuestHeap) : Prop :=
  (∃ bytes, g' = put g argPtr bytes) ∨ ∃ bytes size, g' = putAlloc g argPtr bytes size

section

variable {α σ : Type} (ct : CharType α) (host : ScanHost α) (nextPtr : PtrSource σ) (wideInput : Bool) (input : List α)

def startPos (spec : ScanDirective) (pos : ℕ) : ℕ := if spec.skipsLeadingSpace then skipInputSpace ct input pos else pos

/-- A token that is done, with the directive and the pointer that it has taken. -/
inductive Step (s : ScanState σ) : ScanToken → List (ScanDirective × Word) → ScanState σ → Prop
  | literal {text pos} (hmatch : matchLiteral ct input s.pos text = .matched pos) :
    Step s (.literal text) [] { s with pos }
  | passed {spec} (hn : spec.conv = ascii 'n') (hsuppress : spec.suppress) :
    Step s (.directive spec) [] { s with pos := startPos ct input spec s.pos }
  | counted {spec argPtr source} (hn : spec.conv = ascii 'n') (hsuppress : spec.suppress = false)
    (hptr : nextPtr s.g.mem s.source = (argPtr, source)) : Step s (.directive spec) [(spec, argPtr)]
      { s with
        pos := startPos ct input spec s.pos, source
        g := writeIntegerBits s.g argPtr (BitVec.ofNat 64 (startPos ct input spec s.pos)) (storageSizeForInteger spec) }
  | suppressed {spec consumed} (hn : spec.conv ≠ ascii 'n') (hsuppress : spec.suppress)
    (hconv : handleConversion ct host input (startPos ct input spec s.pos) spec 0 wideInput s.g = some (consumed, s.g)) :
    Step s (.directive spec) [] { s with pos := startPos ct input spec s.pos + consumed }
  | assigned {spec argPtr source consumed g} (hn : spec.conv ≠ ascii 'n') (hsuppress : spec.suppress = false)
    (hptr : nextPtr s.g.mem s.source = (argPtr, source))
    (hconv : handleConversion ct host input (startPos ct input spec s.pos) spec argPtr wideInput s.g = some (consumed, g))
    (hstores : StoresAt argPtr s.g g) : Step s (.directive spec) [(spec, argPtr)]
      { pos := startPos ct input spec s.pos + consumed, source, g, assigned := s.assigned + 1 }

/-- The tokens that are done, one after the other, with all the pointers that they have taken. -/
inductive Run : ScanState σ → List ScanToken → List (ScanDirective × Word) → ScanState σ → Prop
  | nil {s} (hpos : s.pos ≤ input.length) : Run s [] [] s
  | cons {s s₁ s' t ts log log'} (hpos : s.pos ≤ input.length)
    (hstep : Step ct host nextPtr wideInput input s t log s₁) (hrun : Run s₁ ts log' s') :
    Run s (t :: ts) (log ++ log') s'

def pointerDirectives (ts : List ScanToken) : List ScanDirective :=
  ts.filterMap fun
    | .directive spec => if spec.suppress then none else some spec
    | .literal _ => none

def assignments (specs : List ScanDirective) : ℕ := specs.countP fun spec => spec.conv ≠ ascii 'n'

variable {ct host nextPtr wideInput input} {s s' : ScanState σ} {t : ScanToken} {ts : List ScanToken}
  {log : List (ScanDirective × Word)}

lemma Step.directives (h : Step ct host nextPtr wideInput input s t log s') :
    log.map Prod.fst = pointerDirectives [t] := by
  cases h with
  | literal => rfl
  | passed _ hsuppress | counted _ hsuppress | suppressed _ hsuppress | assigned _ hsuppress =>
    simp [pointerDirectives, hsuppress]

lemma Step.count (h : Step ct host nextPtr wideInput input s t log s') :
    s'.assigned = s.assigned + assignments (log.map Prod.fst) := by
  cases h with
  | literal | passed | suppressed => rfl
  | counted hn | assigned hn => simp [assignments, hn]

lemma Run.pos_le (h : Run ct host nextPtr wideInput input s ts log s') : s'.pos ≤ input.length := by
  induction h with
  | nil hpos => exact hpos
  | cons _ _ _ ih => exact ih

lemma assignments_append {a b : List ScanDirective} : assignments (a ++ b) = assignments a + assignments b :=
  countP_append

lemma Run.directives (h : Run ct host nextPtr wideInput input s ts log s') :
    log.map Prod.fst = pointerDirectives ts := by
  induction h with
  | nil => rfl
  | @cons s s₁ s' t ts log log' _ hstep _ ih =>
    rw [map_append, hstep.directives, ih]
    exact (filterMap_append (l := [t])).symm

lemma Run.count (h : Run ct host nextPtr wideInput input s ts log s') :
    s'.assigned = s.assigned + assignments (log.map Prod.fst) := by
  induction h with
  | nil => rfl
  | cons _ hstep _ ih => rw [ih, hstep.count, map_append, assignments_append, Nat.add_assoc]

end

/-! ### The conversions -/

section

variable {α : Type} {ct : CharType α} {host : ScanHost α} {input : List α} {pos : ℕ} {spec : ScanDirective}
  {argPtr : Word} {wideInput : Bool} {g g' : GuestHeap} {consumed : ℕ}

/-- The scanning functions of the host report at most the remaining length. -/
def ScanHost.Bounded (host : ScanHost α) : Prop := ∀ spec rest, (host.scan spec rest).count ≤ rest.length

lemma ScanHost.Bounded.toNat_le (hhost : host.Bounded) :
    (host.scan spec (input.drop pos)).count.toNat ≤ input.length - pos := by
  have h := hhost spec (input.drop pos)
  rw [length_drop] at h
  exact Int.toNat_le.2 h

lemma fieldLimit_le : fieldLimit input pos spec ≤ input.length - pos := by
  unfold fieldLimit
  cases spec.width with
  | none => exact le_rfl
  | some width => exact Nat.min_le_left ..

lemma parseIntegerValue_le {bits : Word} (hconv : isIntegerConv spec.conv)
    (h : parseIntegerValue ct input pos spec = some (consumed, bits)) : consumed ≤ input.length - pos := by
  obtain ⟨rule, hrule⟩ := exists_conversionBase hconv
  rw [parseIntegerValue_eq hrule] at h
  obtain ⟨n, hread, heq⟩ := map_eq_some_iff.1 h
  cases heq
  have hle := (readNumeral_fits hrule hread).2.length_le
  rw [length_map, length_field] at hle
  exact hle.trans fieldLimit_le

/-- A conversion that succeeds stays within the input, and stores at its pointer if it is not suppressed. -/
structure Converts (input : List α) (pos : ℕ) (spec : ScanDirective) (argPtr : Word) (g g' : GuestHeap) (consumed : ℕ) :
    Prop where
  consumed_le : consumed ≤ input.length - pos
  suppressed : spec.suppress → g' = g
  stores : spec.suppress = false → StoresAt argPtr g g'

lemma converts_suppressed (hle : consumed ≤ input.length - pos) (hs : spec.suppress) :
    Converts input pos spec argPtr g g consumed :=
  ⟨hle, fun _ => rfl, fun h => absurd hs (by rw [h]; decide)⟩

lemma converts_stores (hle : consumed ≤ input.length - pos) (hs : ¬spec.suppress) (hstores : StoresAt argPtr g g') :
    Converts input pos spec argPtr g g' consumed :=
  ⟨hle, fun h => absurd h hs, fun _ => hstores⟩

lemma converts_integer (hconv : isIntegerConv spec.conv)
    (h : (parseIntegerValue ct input pos spec).map (fun (consumed, bits) =>
      (consumed, if spec.suppress then g else writeIntegerBits g argPtr bits (storageSizeForInteger spec))) =
        some (consumed, g')) : Converts input pos spec argPtr g g' consumed := by
  obtain ⟨⟨n, bits⟩, hparse, heq⟩ := map_eq_some_iff.1 h
  cases heq
  have hle := parseIntegerValue_le hconv hparse
  by_cases hs : spec.suppress
  · rw [if_pos hs]
    exact converts_suppressed hle hs
  · rw [if_neg hs]
    exact converts_stores hle hs (.inl ⟨_, rfl⟩)

lemma converts_float (hhost : host.Bounded) (h : handleHostFloatScan host input pos spec argPtr g = some (consumed, g')) :
    Converts input pos spec argPtr g g' consumed := by
  have hle : (host.scan spec (input.drop pos)).count.toNat ≤ input.length - pos := hhost.toNat_le
  unfold handleHostFloatScan at h
  by_cases hs : spec.suppress
  · rw [if_pos hs] at h
    split_ifs at h
    cases h
    exact converts_suppressed hle hs
  · rw [if_neg hs] at h
    split at h
    · cases h
    · cases h
      exact converts_stores hle hs (.inl ⟨_, rfl⟩)

lemma converts_scanset (h : handleManualScansetScan ct input pos spec argPtr g = some (consumed, g')) :
    Converts input pos spec argPtr g g' consumed := by
  unfold handleManualScansetScan at h
  dsimp only at h
  rw [take_fieldLimit] at h
  generalize htext : (field spec.width (input.drop pos)).takeWhile
    (fun c => (parseScanset spec).matches (ct.codepoint c)) = text at h
  have hle : text.length ≤ input.length - pos := by
    have h1 : text.length ≤ (field spec.width (input.drop pos)).length := htext ▸ ( takeWhile_prefix _).length_le
    rw [length_field] at h1
    exact h1.trans fieldLimit_le
  generalize textBytes ct _ text ++ _ = bytes at h
  split_ifs at h with hnil hs halloc
  · cases h
    exact converts_suppressed hle hs
  · cases h
    exact converts_stores hle hs (.inr ⟨_, _, rfl⟩)
  · cases h
    exact converts_stores hle hs (.inl ⟨_, rfl⟩)

lemma converts_allocChar (h : handleAllocCharScan ct input pos spec argPtr g = some (consumed, g')) :
    Converts input pos spec argPtr g g' consumed := by
  have hle : min spec.widthOrOne (input.length - pos) ≤ input.length - pos := Nat.min_le_right ..
  unfold handleAllocCharScan at h
  dsimp only at h
  split_ifs at h with hs hpos
  · cases h
    exact converts_suppressed hle hs
  · obtain ⟨⟨n, copy⟩, hcopy, heq⟩ := map_eq_some_iff.1 h
    cases heq
    unfold manualAllocChars at hcopy
    dsimp only at hcopy
    split_ifs at hcopy
    cases hcopy
    exact converts_stores hle hs (.inr ⟨_, _, rfl⟩)

lemma converts_string (hhost : host.Bounded)
    (h : handleHostStringScan host input pos spec argPtr wideInput g = some (consumed, g')) :
    Converts input pos spec argPtr g g' consumed := by
  have hle : (host.scan spec (input.drop pos)).count.toNat ≤ input.length - pos := hhost.toNat_le
  unfold handleHostStringScan at h
  by_cases hs : spec.suppress
  · rw [if_pos hs] at h
    dsimp only at h
    split_ifs at h
    cases h
    exact converts_suppressed hle hs
  · rw [if_neg hs] at h
    obtain ⟨⟨n, copy⟩, hcopy, heq⟩ := map_eq_some_iff.1 h
    have hn : n ≤ input.length - pos := by
      unfold hostStringCopy at hcopy
      dsimp only at hcopy
      split at hcopy
      · cases hcopy
      · split at hcopy
        · obtain ⟨block, -, heq'⟩ := map_eq_some_iff.1 hcopy
          cases heq'
          exact hle
        · cases hcopy
          exact hle
    dsimp only at heq
    split at heq
    · cases heq
      exact converts_stores hn hs (.inr ⟨_, _, rfl⟩)
    · cases heq
      exact converts_stores hn hs (.inl ⟨_, rfl⟩)

lemma converts_of_handleConversion (hhost : host.Bounded)
    (h : handleConversion ct host input pos spec argPtr wideInput g = some (consumed, g')) :
    Converts input pos spec argPtr g g' consumed := by
  unfold handleConversion at h
  split at h
  · exact converts_integer ‹_› h
  split at h
  · exact converts_float hhost h
  split at h
  · split at h
    · exact converts_scanset h
    · split at h
      · exact converts_allocChar h
      · exact converts_string hhost h
  · cases h

end

/-! ### Positions -/

/-- The position that the matching of a literal text comes to. -/
def LiteralEnd.pos : LiteralEnd → ℕ
  | .matched pos => pos
  | .exhausted pos => pos
  | .mismatch pos => pos

section

variable {α : Type} {ct : CharType α} {input : List α} {pos : ℕ}

lemma skipInputSpace_le (h : pos ≤ input.length) : skipInputSpace ct input pos ≤ input.length := by
  have hle := ( takeWhile_prefix ct.isSpace (l := input.drop pos)).length_le
  rw [length_drop] at hle
  unfold skipInputSpace
  omega

lemma matchLiteral_pos_le {text : List Byte} (h : pos ≤ input.length) :
    (matchLiteral ct input pos text).pos ≤ input.length := by
  induction text generalizing pos with
  | nil => exact h
  | cons fc text ih =>
    rw [matchLiteral]
    split_ifs
    · exact ih (skipInputSpace_le h)
    · cases hget : input[pos]? with
      | none => exact h
      | some ch =>
        dsimp only
        have hlt : pos < input.length := (List.getElem?_eq_some_iff.1 hget).1
        split_ifs
        · exact ih hlt
        · exact h

/-- **A literal text runs out of input** at a character that is not white space, after all before it. -/
lemma matchLiteral_exhausted_iff {text : List Byte} : (∃ p, matchLiteral ct input pos text = .exhausted p) ↔
    ∃ front fc more p, text = front ++ fc :: more ∧ ¬isspace fc ∧ matchLiteral ct input pos front = .matched p ∧
      input.length ≤ p := by
  induction text generalizing pos with
  | nil =>
    constructor
    · rintro ⟨p, h⟩
      cases h
    · rintro ⟨front, fc, more, p, h, -⟩
      simp at h
  | cons fc text ih =>
    rw [matchLiteral]
    by_cases hs : isspace fc
    · rw [if_pos hs, ih]
      constructor
      · rintro ⟨front, fc', more, p, rfl, hfc', hfront, hp⟩
        refine ⟨fc :: front, fc', more, p, rfl, hfc', ?_, hp⟩
        rwa [matchLiteral, if_pos hs]
      · rintro ⟨_ | ⟨fc₀, front⟩, fc', more, p, heq, hfc', hfront, hp⟩
        · cases heq
          exact absurd hs hfc'
        · cases heq
          rw [matchLiteral, if_pos hs] at hfront
          exact ⟨front, fc', more, p, rfl, hfc', hfront, hp⟩
    · rw [if_neg hs]
      cases hget : input[pos]? with
      | none =>
        exact iff_of_true ⟨pos, rfl⟩ ⟨[], fc, text, pos, rfl, hs, rfl, getElem?_eq_none_iff.1 hget⟩
      | some ch =>
        have hlt : pos < input.length := (List.getElem?_eq_some_iff.1 hget).1
        have hcons (front : List Byte) : matchLiteral ct input pos (fc :: front) =
            if asciiEquals (ct.code ch) fc then matchLiteral ct input (pos + 1) front else .mismatch pos := by
          rw [matchLiteral, if_neg hs, hget]
        dsimp only
        constructor
        · rintro ⟨p, h⟩
          split_ifs at h with heq
          obtain ⟨front, fc', more, p, rfl, hfc', hfront, hp⟩ := ih.1 ⟨p, h⟩
          refine ⟨fc :: front, fc', more, p, rfl, hfc', ?_, hp⟩
          rwa [hcons, if_pos heq]
        · rintro ⟨_ | ⟨fc₀, front⟩, fc', more, p, heq, hfc', hfront, hp⟩
          · cases hfront
            omega
          · cases heq
            rw [hcons] at hfront
            split_ifs at hfront with heq
            rw [if_pos heq]
            exact ih.2 ⟨front, fc', more, p, rfl, hfc', hfront, hp⟩

end

/-! ### One token -/

section

variable {α σ : Type} (ct : CharType α) (host : ScanHost α) (nextPtr : PtrSource σ) (wideInput : Bool) (input : List α)
  {pos : ℕ}

/-- **The input has run out** for a token: a character is wanted, or a conversion starts, at its end. -/
def RanOut (pos : ℕ) : ScanToken → Prop
  | .literal text => ∃ front fc more p, text = front ++ fc :: more ∧ ¬isspace fc ∧
    matchLiteral ct input pos front = .matched p ∧ input.length ≤ p
  | .directive spec => spec.conv ≠ ascii 'n' ∧ input.length ≤ startPos ct input spec pos

/-- A token that fails takes a pointer if it is a conversion that is not suppressed and has started. -/
def TakesPtr (pos : ℕ) : ScanToken → Prop
  | .literal _ => False
  | .directive spec => spec.suppress = false ∧ ¬RanOut ct input pos (.directive spec)

/-- Why a token fails, with the position that it comes to. -/
def Cause (s : ScanState σ) (pos : ℕ) : ScanToken → Prop
  | .literal text => matchLiteral ct input s.pos text = .exhausted pos ∨ matchLiteral ct input s.pos text = .mismatch pos
  | .directive spec => spec.conv ≠ ascii 'n' ∧ pos = startPos ct input spec s.pos ∧ (input.length ≤ pos ∨
    handleConversion ct host input pos spec (takePtr nextPtr spec s).1 wideInput s.g = none)

variable {ct host nextPtr wideInput input} {s s' : ScanState σ} {t : ScanToken} {spec : ScanDirective} {result : ℤ}

lemma startPos_le (h : pos ≤ input.length) : startPos ct input spec pos ≤ input.length := by
  unfold startPos
  split_ifs
  · exact skipInputSpace_le h
  · exact h

lemma scanToken_directive : scanToken ct host nextPtr wideInput input s (.directive spec) =
    if spec.conv = ascii 'n' then .continues (scanCount nextPtr spec { s with pos := startPos ct input spec s.pos })
    else scanConversion ct host nextPtr wideInput input spec { s with pos := startPos ct input spec s.pos } := by
  unfold scanToken startPos
  dsimp only
  cases spec.skipsLeadingSpace <;> rfl

lemma scanCount_pos : (scanCount nextPtr spec s).pos = s.pos := by
  unfold scanCount takePtr
  split_ifs <;> rfl

lemma step_scanCount (hn : spec.conv = ascii 'n') :
    ∃ log, Step ct host nextPtr wideInput input s (.directive spec) log
      (scanCount nextPtr spec { s with pos := startPos ct input spec s.pos }) := by
  unfold scanCount takePtr
  by_cases hs : spec.suppress
  · rw [if_pos hs]
    exact ⟨[], .passed hn hs⟩
  · rw [if_neg hs, if_neg hs]
    exact ⟨_, .counted hn (Bool.eq_false_iff.2 hs) rfl⟩

lemma step_scanConversion (hhost : host.Bounded) (hpos : s.pos ≤ input.length) (hn : spec.conv ≠ ascii 'n')
    (h : scanConversion ct host nextPtr wideInput input spec { s with pos := startPos ct input spec s.pos } =
      .continues s') :
    (∃ log, Step ct host nextPtr wideInput input s (.directive spec) log s') ∧ s'.pos ≤ input.length := by
  have hstart : startPos ct input spec s.pos ≤ input.length := startPos_le hpos
  unfold scanConversion takePtr at h
  split at h
  · cases h
  dsimp only at h
  split at h
  · cases h
  next consumed g hconv =>
  cases h
  have hc := converts_of_handleConversion hhost hconv
  have hle := hc.consumed_le
  by_cases hs : spec.suppress
  · simp only [if_pos hs] at hconv hc hle ⊢
    cases hc.suppressed hs
    exact ⟨⟨[], .suppressed hn hs hconv⟩, by omega⟩
  · have hs' := Bool.eq_false_iff.2 hs
    simp only [if_neg hs] at hconv hc hle ⊢
    exact ⟨⟨_, .assigned hn hs' rfl hconv (hc.stores hs')⟩, by omega⟩

lemma step_of_scanToken (hhost : host.Bounded) (hpos : s.pos ≤ input.length)
    (h : scanToken ct host nextPtr wideInput input s t = .continues s') :
    (∃ log, Step ct host nextPtr wideInput input s t log s') ∧ s'.pos ≤ input.length := by
  cases t with
  | literal text =>
    rw [scanToken] at h
    have hle : (matchLiteral ct input s.pos text).pos ≤ input.length := matchLiteral_pos_le hpos
    cases hend : matchLiteral ct input s.pos text with
    | matched pos =>
      rw [hend] at h hle
      cases h
      exact ⟨⟨[], .literal hend⟩, hle⟩
    | exhausted pos | mismatch pos =>
      rw [hend] at h
      cases h
  | directive spec =>
    rw [scanToken_directive] at h
    by_cases hn : spec.conv = ascii 'n'
    · rw [if_pos hn] at h
      cases h
      refine ⟨step_scanCount hn, ?_⟩
      rw [scanCount_pos]
      exact startPos_le hpos
    · rw [if_neg hn] at h
      exact step_scanConversion hhost hpos hn h

variable (ct host nextPtr wideInput input) in
/-- **A token that the scan fails at**: why it does, and that nothing is stored; what is returned, and what becomes of
the pointers. -/
structure Fails (s : ScanState σ) (t : ScanToken) (result : ℤ) (s' : ScanState σ) : Prop where
  pos_le : s'.pos ≤ input.length
  cause : Cause ct host nextPtr wideInput input s s'.pos t
  guest : s'.g = s.g
  eof : RanOut ct input s.pos t → s.assigned = 0 → result = EOF
  count : ¬(RanOut ct input s.pos t ∧ s.assigned = 0) → result = s.assigned
  taken : TakesPtr ct input s.pos t → s'.source = (nextPtr s.g.mem s.source).2
  kept : ¬TakesPtr ct input s.pos t → s'.source = s.source

lemma exhausted_of_ranOut (h : s.assigned = 0) : s.exhausted = EOF := if_pos h

lemma exhausted_of_assigned (h : s.assigned ≠ 0) : s.exhausted = s.assigned := if_neg h

lemma fails_literal {text : List Byte} (hpos : s.pos ≤ input.length)
    (h : scanToken ct host nextPtr wideInput input s (.literal text) = .returns result s') :
    Fails ct host nextPtr wideInput input s (.literal text) result s' := by
  rw [scanToken] at h
  have hle : (matchLiteral ct input s.pos text).pos ≤ input.length := matchLiteral_pos_le hpos
  have hout : (∃ p, matchLiteral ct input s.pos text = .exhausted p) ↔ RanOut ct input s.pos (.literal text) :=
    matchLiteral_exhausted_iff
  cases hend : matchLiteral ct input s.pos text with
  | matched pos =>
    rw [hend] at h
    cases h
  | exhausted pos =>
    rw [hend] at h hle hout
    cases h
    have hran : RanOut ct input s.pos (.literal text) := hout.1 ⟨pos, rfl⟩
    exact ⟨hle, .inl hend, rfl, fun _ => exhausted_of_ranOut,
      fun hno => exhausted_of_assigned fun h0 => hno ⟨hran, h0⟩, fun htakes => htakes.elim, fun _ => rfl⟩
  | mismatch pos =>
    rw [hend] at h hle hout
    cases h
    have hran : ¬RanOut ct input s.pos (.literal text) := by
      rw [← hout]
      rintro ⟨p, hp⟩
      cases hp
    exact ⟨hle, .inr hend, rfl, fun h => absurd h hran, fun _ => rfl, fun htakes => htakes.elim, fun _ => rfl⟩

lemma fails_directive (hpos : s.pos ≤ input.length)
    (h : scanToken ct host nextPtr wideInput input s (.directive spec) = .returns result s') :
    Fails ct host nextPtr wideInput input s (.directive spec) result s' := by
  rw [scanToken_directive] at h
  have hstart : startPos ct input spec s.pos ≤ input.length := startPos_le hpos
  by_cases hn : spec.conv = ascii 'n'
  · rw [if_pos hn] at h
    cases h
  rw [if_neg hn] at h
  unfold scanConversion at h
  by_cases hend : input.length ≤ startPos ct input spec s.pos
  · have hran : RanOut ct input s.pos (.directive spec) := ⟨hn, hend⟩
    rw [if_pos hend] at h
    cases h
    exact ⟨hstart, ⟨hn, rfl, .inl hend⟩, rfl, fun _ => exhausted_of_ranOut,
      fun hno => exhausted_of_assigned fun h0 => hno ⟨hran, h0⟩, fun htakes => absurd hran htakes.2, fun _ => rfl⟩
  · have hran : ¬RanOut ct input s.pos (.directive spec) := fun h => hend h.2
    rw [if_neg hend] at h
    unfold takePtr at h
    by_cases hs : spec.suppress
    · rw [if_pos hs] at h
      dsimp only at h
      split at h
      · next hconv =>
        cases h
        exact ⟨hstart, ⟨hn, rfl, .inr (by rw [takePtr, if_pos hs]; exact hconv)⟩, rfl, fun h => absurd h hran,
          fun _ => rfl, fun htakes => absurd hs (by rw [htakes.1]; decide), fun _ => rfl⟩
      · cases h
    · rw [if_neg hs] at h
      dsimp only at h
      split at h
      · next hconv =>
        cases h
        exact ⟨hstart, ⟨hn, rfl, .inr (by rw [takePtr, if_neg hs]; exact hconv)⟩, rfl, fun h => absurd h hran,
          fun _ => rfl, fun _ => rfl, fun hno => absurd ⟨Bool.eq_false_iff.2 hs, hran⟩ hno⟩
      · cases h

lemma fails_of_scanToken (hpos : s.pos ≤ input.length)
    (h : scanToken ct host nextPtr wideInput input s t = .returns result s') :
    Fails ct host nextPtr wideInput input s t result s' := by
  cases t with
  | literal text => exact fails_literal hpos h
  | directive spec => exact fails_directive hpos h

/-! ### All tokens -/

/-- **A scan** goes through tokens until it is done with all, or fails at one; those after it make no difference. -/
theorem run_scanWithInput (hhost : host.Bounded) : ∀ {tokens : List ScanToken} {s : ScanState σ}, s.pos ≤ input.length →
    ∀ {result s'}, scanWithInput ct host nextPtr wideInput input s tokens = (result, s') →
    (∃ log, Run ct host nextPtr wideInput input s tokens log s' ∧ result = s'.assigned) ∨
    ∃ done t post log mid, tokens = done ++ t :: post ∧ Run ct host nextPtr wideInput input s done log mid ∧
      Fails ct host nextPtr wideInput input mid t result s' ∧
      ∀ post', scanWithInput ct host nextPtr wideInput input s (done ++ t :: post') = (result, s') := by
  intro tokens
  induction tokens with
  | nil =>
    intro s hpos result s' h
    cases h
    exact .inl ⟨[], .nil hpos, rfl⟩
  | cons t tokens ih =>
    intro s hpos result s' h
    rw [scanWithInput] at h
    cases htoken : scanToken ct host nextPtr wideInput input s t with
    | returns result₁ s₁ =>
      rw [htoken] at h
      cases h
      refine .inr ⟨[], t, tokens, [], s, rfl, .nil hpos, fails_of_scanToken hpos htoken, fun post' => ?_⟩
      rw [nil_append, scanWithInput, htoken]
    | continues s₁ =>
      rw [htoken] at h
      obtain ⟨⟨log₁, hstep⟩, hpos₁⟩ := step_of_scanToken hhost hpos htoken
      rcases ih hpos₁ h with ⟨log, hrun, hresult⟩ | ⟨done, t', post, log, mid, rfl, hrun, hfails, hpost⟩
      · exact .inl ⟨log₁ ++ log, .cons hpos hstep hrun, hresult⟩
      · refine .inr ⟨t :: done, t', post, log₁ ++ log, mid, rfl, .cons hpos hstep hrun, hfails, fun post' => ?_⟩
        rw [cons_append, scanWithInput, htoken]
        exact hpost post'

end

variable {w : ℕ}

lemma hostMatch_le {t : Transcoding w} {isSpace : BitVec w → Bool} {spec : ScanDirective} {rest : List (BitVec w)}
    {count : ℕ} {text : List Byte} (h : hostMatch t isSpace spec rest = some (count, text)) : count ≤ rest.length := by
  cases hchar : spec.isChar with
  | true =>
    rw [hostMatch, if_pos hchar] at h
    exact (takeChars_le h).2.1
  | false =>
    obtain ⟨lead, n, word, -, hlt, hword, -⟩ := hostMatch_word hchar h
    have := (takeChars_le hword).2.1
    rw [length_drop] at this
    omega

lemma bounded_specifiedHost {trans : Bool → Transcoding w} {isSpace : BitVec w → Bool} {mbCurMax : ℕ} {addr : Word} :
    (specifiedHost trans isSpace mbCurMax addr).Bounded := by
  intro spec rest
  unfold specifiedHost
  dsimp only
  cases hmatch : hostMatch (trans spec.wideDest) isSpace spec rest with
  | none => exact Int.natCast_nonneg _
  | some m =>
    have hle : (m.1 : ℤ) ≤ rest.length := Int.ofNat_le.2 (hostMatch_le hmatch)
    cases spec.assignAlloc <;> exact hle

/-- The tokens of `%d,%s`. -/
def pairTokens : List ScanToken :=
  [.directive ⟨Format.chars ['%', 'd'], false, false, none, .none, ascii 'd'⟩, .literal (Format.chars [',']),
    .directive ⟨Format.chars ['%', 's'], false, false, none, .none, ascii 's'⟩]

def hundreds : PtrSource ℕ := fun _ k => (BitVec.ofNat 64 (0x100 * k), k + 1)

end CrossShim.Stdio.Scan
