import CrossShim.Memory.Access

/-!
# Conversion of a multibyte character

`mbrtowc`, `mbrtoc16` and `mbrtoc32` of `hle_locale.cpp`.  The bytes of a character that a call could not complete are
kept in an `mbstate_t`, with their number; the next call puts them into an array of eight bytes and reads the bytes of
its argument behind them.

The number is not checked.  `mbrtowc` reads up to the fourth byte and `mbrtoc16` and `mbrtoc32` up to the eighth, but a
number that is greater than that wraps in the subtraction: `inScratch_iff`.  The functions themselves never keep more
than three bytes, so the state that stands for a null pointer is safe: `reachable_inScratch`.
-/

namespace CrossShim.Locale

open Lib Memory Function

/-! ### States -/

inductive Fn where
  | mbrtowc
  | mbrtoc16
  | mbrtoc32
  deriving DecidableEq

/-- `mbstate_t`: the bytes of the unfinished character, and how many there are. -/
structure MbState where
  seq : List Byte
  count : BitVec 32
  deriving DecidableEq

def MbState.initial : MbState := ⟨List.replicate 4 0, 0⟩

/-- Guest memory, the states that the functions use for a null pointer, and `g_mbrtoc16_pending_low_surrogate`. -/
structure State where
  mem : GuestMemory
  internal : Fn → MbState
  pendingLow : BitVec 16

namespace State

/-- `mbstate_get_partial`, `uchar_mbstate_get_partial`. -/
def getPartial (st : State) (fn : Fn) (ps : Word) : MbState :=
  if ps = 0 then st.internal fn
  else
    { seq := (st.mem.read ps (List.replicate 4 0)).1
      count := BitVec.ofNat 32 (ofLe (st.mem.read (ps + 4) (List.replicate 4 0)).1) }

/-- `mbstate_set_partial`, `uchar_mbstate_set_partial`. -/
def setPartial (st : State) (fn : Fn) (ps : Word) (seq : List Byte) (count : BitVec 32) : State :=
  if ps = 0 then { st with internal := update st.internal fn ⟨seq, count⟩ }
  else { st with mem := ((st.mem.write ps seq).1.write (ps + 4) (leBytes 4 count.toNat)).1 }

/-- `mbstate_reset`, `uchar_mbstate_reset`. -/
def reset (st : State) (fn : Fn) (ps : Word) : State :=
  if ps = 0 then { st with internal := update st.internal fn .initial }
  else { st with mem := (st.mem.write ps (List.replicate 8 0)).1 }

end State

/-! ### The array of eight bytes -/

/-- How many bytes are read from the argument; `mbrtowc` subtracts in 32 bits. -/
def Fn.newBytes (n : Word) (count : BitVec 32) : Fn → ℕ
  | .mbrtowc => min n.toNat (4 - count).toNat
  | .mbrtoc16 | .mbrtoc32 => min n.toNat (8 - count.setWidth 64).toNat

/-- How many of the bytes kept are put into the array. -/
def Fn.copied (count : BitVec 32) : Fn → ℕ
  | .mbrtowc => min count.toNat 4
  | .mbrtoc16 | .mbrtoc32 => count.toNat

/-- The array, and what is behind it on the host's stack, after both parts are put there over `stack`. -/
def scratch (fn : Fn) (mem : GuestMemory) (s n : Word) (kept : MbState) (stack : ℕ → Byte) : ℕ → Byte :=
  let start := kept.count.toNat
  let newBytes := fn.newBytes n kept.count
  let old : ℕ → Byte := fun i => if i < fn.copied kept.count then kept.seq.getD i (stack i) else stack i
  let got := (mem.read s ((List.range newBytes).map fun i => old (start + i))).1
  fun i => if start ≤ i ∧ i < start + newBytes then got.getD (i - start) (old i) else old i

/-! ### Decoding -/

def expectedLen (lead : Byte) : Option ℕ :=
  if lead &&& 0x80 = 0 then some 1
  else if lead &&& 0xe0 = 0xc0 then some 2
  else if lead &&& 0xf0 = 0xe0 then some 3
  else if lead &&& 0xf8 = 0xf0 then some 4
  else none

def isTail (b : Byte) : Bool := b &&& 0xc0 = 0x80

/-- The low bits of a byte, at their place in the character. -/
def bitsAt (b mask : Byte) (shift : ℕ) : BitVec 32 := (b &&& mask).setWidth 32 <<< shift

/-- Only `mbrtowc` refuses surrogates. -/
def Fn.refuses (wc : BitVec 32) : Fn → Bool
  | .mbrtowc => 0xd800 ≤ wc ∧ wc ≤ 0xdfff
  | .mbrtoc16 | .mbrtoc32 => false

def decode (fn : Fn) (bytes : ℕ → Byte) (len : ℕ) : Option (BitVec 32) :=
  if len = 1 then some (bitsAt (bytes 0) 0xff 0)
  else if len = 2 then
    let wc := bitsAt (bytes 0) 0x1f 6 ||| bitsAt (bytes 1) 0x3f 0
    if isTail (bytes 1) ∧ 0x80 ≤ wc then some wc else none
  else if len = 3 then
    let wc := bitsAt (bytes 0) 0x0f 12 ||| bitsAt (bytes 1) 0x3f 6 ||| bitsAt (bytes 2) 0x3f 0
    if isTail (bytes 1) ∧ isTail (bytes 2) ∧ 0x800 ≤ wc ∧ ¬ fn.refuses wc then some wc else none
  else
    let wc := bitsAt (bytes 0) 0x07 18 ||| bitsAt (bytes 1) 0x3f 12 ||| bitsAt (bytes 2) 0x3f 6 |||
      bitsAt (bytes 3) 0x3f 0
    if isTail (bytes 1) ∧ isTail (bytes 2) ∧ isTail (bytes 3) ∧ 0x10000 ≤ wc ∧ wc ≤ 0x10ffff then some wc else none

/-- The character is stored where the caller wants it; `mbrtoc16` keeps the second of two surrogates. -/
def State.output (st : State) (out : Word) (wc : BitVec 32) : Fn → State
  | .mbrtowc | .mbrtoc32 => if out ≠ 0 then { st with mem := (st.mem.write out (leBytes 4 wc.toNat)).1 } else st
  | .mbrtoc16 =>
    if wc ≤ 0xffff then if out ≠ 0 then { st with mem := (st.mem.write out (leBytes 2 wc.toNat)).1 } else st
    else
      let adjusted := wc - 0x10000
      let high : BitVec 16 := 0xd800 + (adjusted >>> 10).setWidth 16
      let low : BitVec 16 := 0xdc00 + (adjusted &&& 0x3ff).setWidth 16
      { st with
        mem := if out ≠ 0 then (st.mem.write out (leBytes 2 high.toNat)).1 else st.mem
        pendingLow := low }

/-! ### The functions -/

/-- What is returned, whether `errno` is `EILSEQ`, and where in the array the bytes of the argument were read into. -/
structure Result where
  x0 : Word
  eilseq : Bool := false
  placed : Option (ℕ × ℕ) := none
  deriving DecidableEq

/-- The part of the three functions that reads the argument. -/
def readChar (fn : Fn) (st : State) (out s n ps : Word) (stack : ℕ → Byte) : State × Result :=
  let kept := st.getPartial fn ps
  let newBytes := fn.newBytes n kept.count
  let bytes := scratch fn st.mem s n kept stack
  let totalBytes : Word := BitVec.ofNat 64 (kept.count.toNat + newBytes)
  let placed := some (kept.count.toNat, newBytes)
  match expectedLen (bytes 0) with
  | none => (st.reset fn ps, { x0 := -1, eilseq := true, placed })
  | some len =>
    if totalBytes.toNat < len then
      (st.setPartial fn ps ((List.range 4).map bytes) (totalBytes.setWidth 32), { x0 := -2, placed })
    else
      match decode fn bytes len with
      | none => (st.reset fn ps, { x0 := -1, eilseq := true, placed })
      | some wc =>
        ((st.reset fn ps).output out wc fn,
          { x0 := if wc = 0 then 0 else BitVec.ofNat 64 (len - kept.count.toNat), placed })

def convert (fn : Fn) (st : State) (out s n ps : Word) (stack : ℕ → Byte) : State × Result :=
  if s = 0 then (st.reset fn ps, { x0 := 0 })
  else if n = 0 then (st, { x0 := -2 })
  else readChar fn st out s n ps stack

def mbrtowc (st : State) (pwc s n ps : Word) (stack : ℕ → Byte) : State × Result :=
  convert .mbrtowc st pwc s n ps stack

/-- The second surrogate of the call before is what comes first. -/
def mbrtoc16 (st : State) (pc16 s n ps : Word) (stack : ℕ → Byte) : State × Result :=
  if st.pendingLow ≠ 0 then
    ({ st with
        mem := if pc16 ≠ 0 then (st.mem.write pc16 (leBytes 2 st.pendingLow.toNat)).1 else st.mem
        pendingLow := 0 }, { x0 := -3 })
  else convert .mbrtoc16 st pc16 s n ps stack

def mbrtoc32 (st : State) (pc32 s n ps : Word) (stack : ℕ → Byte) : State × Result :=
  convert .mbrtoc32 st pc32 s n ps stack

/-! ### Where the bytes are read to -/

/-- The bytes of the argument are read into the eight bytes of the array only. -/
def Result.InScratch (r : Result) : Prop := ∀ place, r.placed = some place → place.1 + place.2 ≤ 8

instance (r : Result) : Decidable r.InScratch := by
  unfold Result.InScratch
  cases r.placed with
  | none => exact .isTrue nofun
  | some place => exact decidable_of_iff (place.1 + place.2 ≤ 8) (by simp)

def Fn.Fits (n : Word) (count : BitVec 32) : Fn → Prop
  | .mbrtowc => count.toNat ≤ 4 ∨ count.toNat + n.toNat ≤ 8
  | .mbrtoc16 | .mbrtoc32 => count.toNat ≤ 8

section

variable {fn : Fn} {st : State} {out s n ps : Word} {stack : ℕ → Byte}

lemma placed_readChar : (readChar fn st out s n ps stack).2.placed =
    some ((st.getPartial fn ps).count.toNat, fn.newBytes n (st.getPartial fn ps).count) := by
  simp only [readChar]
  split
  · rfl
  · split_ifs
    · rfl
    · split <;> rfl

/-- **The bound**, for a call that reads something. -/
theorem newBytes_le_iff (hn : n ≠ 0) (count : BitVec 32) :
    count.toNat + fn.newBytes n count ≤ 8 ↔ fn.Fits n count := by
  have hpos : 0 < n.toNat := by bv_omega
  cases fn with
  | mbrtowc =>
    have hdiff : (4 - count).toNat = if count.toNat ≤ 4 then 4 - count.toNat else 2 ^ 32 + 4 - count.toNat := by
      split_ifs <;> bv_omega
    simp only [Fn.newBytes, Fn.Fits, hdiff]
    split_ifs <;> omega
  | mbrtoc16 | mbrtoc32 =>
    have hlt := count.isLt
    have hdiff : (8 - count.setWidth 64).toNat =
        if count.toNat ≤ 8 then 8 - count.toNat else 2 ^ 64 + 8 - count.toNat := by
      have : (count.setWidth 64).toNat = count.toNat := by
        rw [BitVec.toNat_setWidth]
        omega
      split_ifs <;> bv_omega
    simp only [Fn.newBytes, Fn.Fits, hdiff]
    split_ifs <;> omega

lemma convert_inScratch_iff : (convert fn st out s n ps stack).2.InScratch ↔
    s = 0 ∨ n = 0 ∨ fn.Fits n (st.getPartial fn ps).count := by
  unfold convert
  by_cases hs : s = 0
  · rw [if_pos hs]
    exact iff_of_true nofun (.inl hs)
  rw [if_neg hs]
  by_cases hn : n = 0
  · rw [if_pos hn]
    exact iff_of_true nofun (.inr (.inl hn))
  rw [if_neg hn, ← newBytes_le_iff hn, Result.InScratch, placed_readChar]
  simp only [hs, hn, false_or, Option.some.injEq, forall_eq']

lemma mbrtoc16_inScratch_iff : (mbrtoc16 st out s n ps stack).2.InScratch ↔
    st.pendingLow ≠ 0 ∨ s = 0 ∨ n = 0 ∨ (st.getPartial .mbrtoc16 ps).count.toNat ≤ 8 := by
  unfold mbrtoc16
  by_cases hlow : st.pendingLow ≠ 0
  · rw [if_pos hlow]
    exact iff_of_true nofun (.inl hlow)
  · rw [if_neg hlow, convert_inScratch_iff]
    simp only [hlow, false_or]
    rfl

end

/-- **When the bytes are read into the array**: nothing is read, or the number kept is small enough. -/
theorem inScratch_iff (st : State) (out s n ps : Word) (stack : ℕ → Byte) :
    ((mbrtowc st out s n ps stack).2.InScratch ↔
      s = 0 ∨ n = 0 ∨ (st.getPartial .mbrtowc ps).count.toNat ≤ 4 ∨
        (st.getPartial .mbrtowc ps).count.toNat + n.toNat ≤ 8) ∧
    ((mbrtoc16 st out s n ps stack).2.InScratch ↔
      st.pendingLow ≠ 0 ∨ s = 0 ∨ n = 0 ∨ (st.getPartial .mbrtoc16 ps).count.toNat ≤ 8) ∧
    ((mbrtoc32 st out s n ps stack).2.InScratch ↔
      s = 0 ∨ n = 0 ∨ (st.getPartial .mbrtoc32 ps).count.toNat ≤ 8) :=
  ⟨convert_inScratch_iff, mbrtoc16_inScratch_iff, convert_inScratch_iff⟩

/-- The state at `0x2000` says that `count` bytes are kept. -/
def stateWith (count : Byte) : State :=
  ⟨⟨store (fun _ => 0) 0x2004 [count], fun _ => true⟩, fun _ => .initial, 0⟩

/-- With five bytes kept, `mbrtowc` reads four more, up to the ninth; with nine, the others begin behind the array. -/
theorem scratch_overrun :
    (mbrtowc (stateWith 5) 0x3000 0x4000 4 0x2000 fun _ => 0).2.placed = some (5, 4) ∧
      ¬ (mbrtowc (stateWith 5) 0x3000 0x4000 4 0x2000 fun _ => 0).2.InScratch ∧
      ¬ (mbrtoc16 (stateWith 9) 0x3000 0x4000 1 0x2000 fun _ => 0).2.InScratch ∧
      ¬ (mbrtoc32 (stateWith 9) 0x3000 0x4000 1 0x2000 fun _ => 0).2.InScratch := by
  decide +kernel

/-! ### Runs -/

/-- A call of one of the functions, or the guest at work in its memory. -/
inductive Event where
  | call (fn : Fn) (out s n ps : Word) (stack : ℕ → Byte)
  | guest (mem : GuestMemory)

def call (st : State) (out s n ps : Word) (stack : ℕ → Byte) : Fn → State × Result
  | .mbrtowc => mbrtowc st out s n ps stack
  | .mbrtoc16 => mbrtoc16 st out s n ps stack
  | .mbrtoc32 => mbrtoc32 st out s n ps stack

def step (st : State) : Event → State
  | .call fn out s n ps stack => (call st out s n ps stack fn).1
  | .guest mem => { st with mem }

def system : System State Event :=
  .ofStep (fun st => (∀ fn, st.internal fn = .initial) ∧ st.pendingLow = 0) fun st e => some (step st e)

/-- The states that stand for a null pointer keep three bytes at most. -/
def Small (st : State) : Prop := ∀ fn, (st.internal fn).count.toNat ≤ 3

section

variable {fn : Fn} {st : State} {out s n ps : Word} {stack : ℕ → Byte}

lemma small_update {kept : MbState} (h : Small st) (hk : kept.count.toNat ≤ 3) :
    Small { st with internal := update st.internal fn kept } :=
  (forall_update_iff st.internal fun _ m => m.count.toNat ≤ 3).2 ⟨hk, fun fn' _ => h fn'⟩

lemma small_reset (h : Small st) : Small (st.reset fn ps) := by
  unfold State.reset
  split_ifs
  · exact small_update h (by decide)
  · exact h

lemma small_setPartial {seq : List Byte} {count : BitVec 32} (h : Small st) (hc : count.toNat ≤ 3) :
    Small (st.setPartial fn ps seq count) := by
  unfold State.setPartial
  split_ifs
  · exact small_update h hc
  · exact h

lemma small_output {wc : BitVec 32} (h : Small st) : Small (st.output out wc fn) := by
  cases fn with
  | mbrtoc16 | mbrtowc | mbrtoc32 =>
    simp only [State.output]
    split_ifs <;> exact h

lemma expectedLen_le {lead : Byte} {len : ℕ} (h : expectedLen lead = some len) : len ≤ 4 := by
  unfold expectedLen at h
  split_ifs at h <;> cases h <;> decide

/-- **A call keeps less than a character.** -/
theorem small_readChar (h : Small st) : Small (readChar fn st out s n ps stack).1 := by
  simp only [readChar]
  split
  · exact small_reset h
  · rename_i len hlen
    have hle := expectedLen_le hlen
    split_ifs with hshort
    · apply small_setPartial h
      rw [BitVec.toNat_setWidth]
      exact (Nat.mod_le _ _).trans (by omega)
    · split
      · exact small_reset h
      · exact small_output (small_reset h)

lemma small_convert (h : Small st) : Small (convert fn st out s n ps stack).1 := by
  unfold convert
  split_ifs
  · exact small_reset h
  · exact h
  · exact small_readChar h

lemma small_step (h : Small st) (e : Event) : Small (step st e) := by
  cases e with
  | guest mem => exact h
  | call fn out s n ps stack =>
    cases fn with
    | mbrtowc | mbrtoc32 => exact small_convert h
    | mbrtoc16 =>
      show Small (mbrtoc16 st out s n ps stack).1
      unfold mbrtoc16
      split_ifs
      · exact h
      · exact h
      · exact small_convert h

lemma small_of_reachable (h : system.Reachable st) : Small st := by
  refine h.invariant (I := Small) ?_ ?_
  · rintro st ⟨hinit, -⟩ fn
    rw [hinit fn]
    decide
  · rintro st e st' hsmall - hstep
    obtain rfl : step st e = st' := Option.some.inj hstep
    exact small_step hsmall e

/-- **With a null pointer for the state**, a run keeps three bytes at most, and no call reads past the array. -/
theorem reachable_inScratch (h : system.Reachable st) (fn : Fn) :
    (st.internal fn).count.toNat ≤ 3 ∧ (call st out s n 0 stack fn).2.InScratch := by
  have hkept : (st.getPartial fn 0).count.toNat ≤ 3 := small_of_reachable h fn
  refine ⟨hkept, ?_⟩
  cases fn with
  | mbrtowc => exact convert_inScratch_iff.2 (.inr (.inr (.inl (by omega))))
  | mbrtoc16 => exact mbrtoc16_inScratch_iff.2 (.inr (.inr (.inr (by omega))))
  | mbrtoc32 => exact convert_inScratch_iff.2 (.inr (.inr (show _ ≤ 8 by omega)))

/-- The first two bytes of a euro sign are kept, and the third is read behind them. -/
theorem second_inScratch :
    let euro : State := ⟨⟨store (fun _ => 0) 0x4000 [0xE2, 0x82, 0xAC], fun _ => true⟩, fun _ => .initial, 0⟩
    let st := step euro (.call .mbrtowc 0 0x4000 2 0 fun _ => 0)
    (st.internal .mbrtowc).count = 2 ∧ (call st 0 0x4002 4 0 (fun _ => 0) .mbrtowc).2.placed = some (2, 2) ∧
      (st.internal .mbrtowc).count.toNat ≤ 3 ∧ (call st 0 0x4002 4 0 (fun _ => 0) .mbrtowc).2.InScratch :=
  ⟨by decide +kernel, by decide +kernel,
    reachable_inScratch (System.Reachable.next (.init ⟨fun _ => rfl, rfl⟩) rfl) .mbrtowc⟩

end

end CrossShim.Locale
