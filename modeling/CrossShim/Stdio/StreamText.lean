import CrossShim.Memory.Access
import CrossShim.Stdio.Format
import CrossShim.Stdio.Streams

/-!
# Text to and from a host stream

`fprintf` and `vfprintf` of `hle_io.cpp` and `fgets` of `hle_file.cpp`.  Both directions go through C strings: the
formatted output is put to the host with `fputs`, and of the line that the host read `strlen` bytes are given to the
guest.  So a NUL byte ends the text in either of them: `text_iff`.
-/

namespace CrossShim.Stdio

open Lib List Format
open Memory (MemoryManager Outcome)

/-! ### Host streams -/

/-- A stream of the host: what is left to be read, whether a read error comes behind it and was met, what was written,
and how much more can be. -/
structure HostStream where
  unread : List Byte
  fails : Bool := false
  ferror : Bool := false
  written : List Byte := []
  room : Option ℕ := none
  deriving DecidableEq

def cString (bytes : List Byte) : List Byte := bytes.takeWhile (· ≠ 0)

def HostStream.Takes (h : HostStream) (n : ℕ) : Prop := ∀ room, h.room = some room → n ≤ room

instance (h : HostStream) (n : ℕ) : Decidable (h.Takes n) := by
  unfold HostStream.Takes
  cases h.room with
  | none => exact .isTrue nofun
  | some room => exact decidable_of_iff (n ≤ room) (by simp)

/-- `fputs` of the host; `false` is `EOF`. -/
def HostStream.fputs (h : HostStream) (text : List Byte) : HostStream × Bool :=
  if h.Takes text.length then
    ({ h with written := h.written ++ text, room := h.room.map (· - text.length) }, true)
  else ({ h with written := h.written ++ text.take (h.room.getD 0), room := some 0 }, false)

/-- A line of at most `n` bytes, with its newline. -/
def lineOf : ℕ → List Byte → List Byte
  | 0, _ => []
  | _, [] => []
  | n + 1, b :: bs => if b = 0x0a then [b] else b :: lineOf n bs

/-- The line ends where the stream does, before the newline and with room left. -/
def HostStream.hitsEnd (h : HostStream) (n : ℕ) : Bool :=
  let line := lineOf n h.unread
  line = h.unread ∧ line.length < n ∧ line.getLast? ≠ some 0x0a

def HostStream.afterLine (h : HostStream) (n : ℕ) : HostStream :=
  { h with unread := h.unread.drop (lineOf n h.unread).length, ferror := h.ferror || (h.hitsEnd n && h.fails) }

/-- `fgets` of the host: the bytes before its NUL, or `none` for a null pointer. -/
def HostStream.fgets (h : HostStream) (size : ℕ) : HostStream × Option (List Byte) :=
  if size = 0 then (h, none)
  else
    (h.afterLine (size - 1),
      if size = 1 then some []
      else if lineOf (size - 1) h.unread = [] ∨ (h.hitsEnd (size - 1) ∧ h.fails) then none
      else some (lineOf (size - 1) h.unread))

/-! ### The handlers -/

/-- The tables of streams, and the streams of the host. -/
structure TextState where
  streams : State
  files : HostFile → HostStream

inductive TextFault where
  | format (f : Fault)
  | lengthError
  deriving DecidableEq

namespace TextState

variable (s : TextState)

def withFile (f : HostFile) (h : HostStream) : TextState := { s with files := Function.update s.files f h }

/-- What `fprintf` and `vfprintf` do with what was formatted; `hostErrno` is that of a failing `fputs`. -/
def putFormatted (outcome : Outcome) (stream : Word) (hostErrno : ℕ) (formatted : HleFormatResult) : TextState × Ret :=
  if ¬ formatted.ok then (s, ⟨-1, some (.host formatted.error)⟩)
  else
    match s.streams.resolveGuestFile outcome stream with
    | none => (s, .badf (-1))
    | some f =>
      match (s.files f).fputs (cString formatted.output) with
      | (h, true) => (s.withFile f h, ⟨BitVec.ofInt 64 formatted.result, none⟩)
      | (h, false) => (s.withFile f h, ⟨-1, some (.host hostErrno)⟩)

def fprintf (outcome : Outcome) (hostErrno : ℕ) (host : Host) (guest : Guest) (regs : Registers) :
    Except TextFault (TextState × Ret) :=
  match hleFormatFromRegs host guest regs (regs.x 1) 2 false with
  | .ok formatted => .ok (s.putFormatted outcome (regs.x 0) hostErrno formatted)
  | .error f => .error (.format f)

def vfprintf (outcome : Outcome) (hostErrno : ℕ) (host : Host) (guest : Guest) (regs : Registers) :
    Except TextFault (TextState × Ret) :=
  match hleFormatFromVaList host guest (regs.x 1) (regs.x 2) false with
  | .ok formatted => .ok (s.putFormatted outcome (regs.x 0) hostErrno formatted)
  | .error f => .error (.format f)

/-- What `fgets` comes to; `stored` are the bytes it writes to the buffer of the guest, if any. -/
structure LineAnswer where
  state : TextState
  ret : Ret
  stored : Option (List Byte) := none

def storeText (outcome : Outcome) (bufAddr : Word) (bytes : List Byte) : TextState :=
  { s with streams := { s.streams with
      mm := (s.streams.mm.write outcome bufAddr (ofList bytes) (BitVec.ofNat 64 bytes.length)).1 } }

/-- `fgets`; the buffer of the host is as long as the `int` of the guest, if that is not negative. -/
def fgets (outcome outcome' : Outcome) (hostErrno : ℕ) (bufAddr x1 stream : Word) : Except TextFault LineAnswer :=
  let size : ℤ := (x1.setWidth 32).toInt
  match s.streams.resolveGuestFile outcome stream with
  | none => .ok { state := s, ret := .badf 0 }
  | some f =>
    if size < 0 then .error .lengthError
    else
      match (s.files f).fgets size.toNat with
      | (h, some line) =>
        let bytes := cString line ++ [0]
        .ok { state := (s.withFile f h).storeText outcome' bufAddr bytes, ret := ⟨bufAddr, none⟩, stored := some bytes }
      | (h, none) =>
        .ok { state := s.withFile f h, ret := ⟨0, if h.ferror then some (.host hostErrno) else none⟩ }

end TextState

/-! ### Texts with a NUL byte -/

section

variable {bytes : List Byte}

lemma cString_eq_self_iff : cString bytes = bytes ↔ 0 ∉ bytes := by
  rw [cString, takeWhile_eq_self_iff]
  constructor
  · intro h h0
    simpa using h 0 h0
  · intro h b hb
    simpa using fun h0 : b = 0 => h (h0 ▸ hb)

lemma lineOf_append (n : ℕ) (l : List Byte) : lineOf n l ++ l.drop (lineOf n l).length = l := by
  induction n generalizing l with
  | zero => rfl
  | succ n ih =>
    cases l with
    | nil => rfl
    | cons b l =>
      rw [lineOf]
      split_ifs
      · rfl
      · rw [cons_append, length_cons, drop_succ_cons, ih]

end

/-! ### Writing -/

/-- The call appends the output to the stream, and returns how long it is. -/
def Appends (s : TextState) (f : HostFile) (output : List Byte) (r : Except TextFault (TextState × Ret)) : Prop :=
  ∃ s' ret, r = .ok (s', ret) ∧ (s'.files f).written = (s.files f).written ++ output ∧
    (ret.x0.setWidth 32).toInt = output.length

/-- The output has no NUL byte, its length is an `int`, and the host takes it. -/
def PutWhole (h : HostStream) (output : List Byte) : Prop :=
  0 ∉ output ∧ output.length < 2 ^ 31 ∧ h.Takes output.length

lemma castInt_eq_iff {n : ℕ} : castInt n = n ↔ n < 2 ^ 31 := by
  unfold castInt
  rw [BitVec.toInt_ofInt]
  constructor
  · intro h
    have := Int.bmod_lt (x := (n : ℤ)) (m := 2 ^ 32) (by decide)
    omega
  · intro h
    apply Int.bmod_eq_of_le <;> omega

lemma toInt_castInt (v : ℤ) : ((BitVec.ofInt 64 (castInt v)).setWidth 32).toInt = castInt v := by
  have hlow : (BitVec.ofInt 64 (castInt v)).setWidth 32 = BitVec.ofInt 32 (castInt v) := by
    apply BitVec.eq_of_toNat_eq
    simp only [BitVec.toNat_setWidth, BitVec.toNat_ofInt]
    omega
  rw [hlow, castInt, BitVec.ofInt_toInt]

section

variable {s : TextState} {outcome : Outcome} {stream : Word} {f : HostFile} {hostErrno : ℕ} {output : List Byte}

/-- **`fputs` of the host** appends a whole output, or returns `EOF`, or has appended less. -/
lemma written_fputs (h : HostStream) : ((h.fputs (cString output)).1.written = h.written ++ output ∧
    (h.fputs (cString output)).2 = true) ↔ 0 ∉ output ∧ h.Takes output.length := by
  unfold HostStream.fputs
  constructor
  · rintro ⟨hwritten, hok⟩
    split_ifs at hwritten hok with htakes
    have heq : cString output = output := append_cancel_left hwritten
    exact ⟨cString_eq_self_iff.1 heq, heq ▸ htakes⟩
  · rintro ⟨h0, htakes⟩
    rw [cString_eq_self_iff.2 h0, if_pos htakes]
    exact ⟨rfl, rfl⟩

/-- **What was formatted is put to the stream**: when it arrives as it is. -/
theorem appends_putFormatted_iff (hf : s.streams.resolveGuestFile outcome stream = some f) {error : ℕ} :
    Appends s f output (.ok (s.putFormatted outcome stream hostErrno ⟨true, castInt output.length, error, output⟩)) ↔
      PutWhole (s.files f) output := by
  have hput : s.putFormatted outcome stream hostErrno ⟨true, castInt output.length, error, output⟩ =
      (s.withFile f ((s.files f).fputs (cString output)).1,
        if ((s.files f).fputs (cString output)).2 then ⟨BitVec.ofInt 64 (castInt output.length), none⟩
        else ⟨-1, some (.host hostErrno)⟩) := by
    simp only [TextState.putFormatted, hf]
    cases ((s.files f).fputs (cString output)) with
    | mk h ok => cases ok <;> rfl
  have hfile : ((s.withFile f ((s.files f).fputs (cString output)).1).files f) =
      ((s.files f).fputs (cString output)).1 := Function.update_self ..
  rw [hput]
  constructor
  · rintro ⟨s', ret, heq, hwritten, hret⟩
    obtain ⟨rfl, rfl⟩ := Prod.ext_iff.1 (Except.ok.inj heq)
    rw [hfile] at hwritten
    cases hok : ((s.files f).fputs (cString output)).2 with
    | false =>
      rw [hok] at hret
      have : ((-1 : Word).setWidth 32).toInt = -1 := by decide
      simp only [Bool.false_eq_true, if_false] at hret
      omega
    | true =>
      obtain ⟨h0, htakes⟩ := (written_fputs (s.files f)).1 ⟨hwritten, hok⟩
      rw [hok, if_pos rfl, toInt_castInt] at hret
      exact ⟨h0, castInt_eq_iff.1 hret, htakes⟩
  · rintro ⟨h0, hlen, htakes⟩
    obtain ⟨hwritten, hok⟩ := (written_fputs (s.files f)).2 ⟨h0, htakes⟩
    refine ⟨_, _, rfl, ?_, ?_⟩
    · rw [hfile, hwritten]
    · rw [hok, if_pos rfl, toInt_castInt]
      exact castInt_eq_iff.2 hlen

end

lemma result_formatWithSource {σ : Type} {host : Host} {guest : Guest} {fmtAddr : Word} {wide : Bool}
    {source : ArgSource σ} {st : σ} {r : HleFormatResult} (hok : r.ok = true)
    (h : formatWithSource host guest fmtAddr wide source st = .ok r) :
    r = ⟨true, castInt r.output.length, 0, r.output⟩ := by
  unfold formatWithSource at h
  match hr : formatText host guest (guest.readFormat fmtAddr wide) source st with
  | .ok output =>
    rw [hr] at h
    cases h
    rfl
  | .error (.code errno) =>
    rw [hr] at h
    cases h
    cases hok
  | .error (.fault f) =>
    rw [hr] at h
    cases h

/-! ### Reading -/

/-- The bytes that the call took from the stream are stored with a NUL behind them; without any, nothing is. -/
def StoresLine (s : TextState) (f : HostFile) (r : Except TextFault TextState.LineAnswer) : Prop :=
  ∃ a consumed, r = .ok a ∧ (s.files f).unread = consumed ++ (a.state.files f).unread ∧
    (a.stored = some (consumed ++ [0]) ∨ a.stored = none ∧ consumed = [])

/-- The size is not negative, the line has no NUL byte, and no read error takes it back. -/
def LineWhole (h : HostStream) (size : ℤ) : Prop :=
  0 ≤ size ∧ 0 ∉ lineOf (size.toNat - 1) h.unread ∧
    (lineOf (size.toNat - 1) h.unread = [] ∨ ¬ (h.hitsEnd (size.toNat - 1) ∧ h.fails))

lemma unread_fgets (h : HostStream) (size : ℕ) :
    h.unread = lineOf (size - 1) h.unread ++ (h.fgets size).1.unread := by
  unfold HostStream.fgets
  by_cases h0 : size = 0
  · subst h0
    rfl
  · rw [if_neg h0]
    exact (lineOf_append _ _).symm

variable {h : HostStream} {size : ℕ} {s : TextState} {outcome : Outcome} {x1 stream : Word} {f : HostFile}

/-- **What `fgets` of the host returns**, where the line comes back whole. -/
lemma fgets_of_lineWhole (hline : lineOf (size - 1) h.unread = [] ∨ ¬ (h.hitsEnd (size - 1) ∧ h.fails)) :
    (h.fgets size).2 = some (lineOf (size - 1) h.unread) ∨
      (h.fgets size).2 = none ∧ lineOf (size - 1) h.unread = [] := by
  unfold HostStream.fgets
  by_cases h0 : size = 0
  · subst h0
    exact .inr ⟨rfl, rfl⟩
  rw [if_neg h0]
  by_cases h1 : size = 1
  · subst h1
    exact .inl rfl
  simp only [if_neg h1]
  by_cases hnil : lineOf (size - 1) h.unread = []
  · rw [if_pos (.inl hnil)]
    exact .inr ⟨rfl, hnil⟩
  · rw [if_neg (not_or.2 ⟨hnil, hline.resolve_left hnil⟩)]
    exact .inl rfl

lemma fgets_of_failed (hnil : lineOf (size - 1) h.unread ≠ []) (hfail : h.hitsEnd (size - 1) ∧ h.fails) :
    (h.fgets size).2 = none := by
  unfold HostStream.fgets
  by_cases h0 : size = 0
  · rw [if_pos h0]
  · rw [if_neg h0]
    by_cases h1 : size = 1
    · subst h1
      exact absurd rfl hnil
    · simp only [if_neg h1]
      rw [if_pos (.inr hfail)]

lemma fgets_of_nonneg (outcome' : Outcome) (hostErrno : ℕ) (bufAddr : Word)
    (hf : s.streams.resolveGuestFile outcome stream = some f) (hsize : 0 ≤ (x1.setWidth 32).toInt) :
    ∃ a, s.fgets outcome outcome' hostErrno bufAddr x1 stream = .ok a ∧
      a.state.files f = ((s.files f).fgets (x1.setWidth 32).toInt.toNat).1 ∧
      a.stored = ((s.files f).fgets (x1.setWidth 32).toInt.toNat).2.map fun line => cString line ++ [0] := by
  simp only [TextState.fgets, hf, if_neg (not_lt.2 hsize)]
  cases (s.files f).fgets (x1.setWidth 32).toInt.toNat with
  | mk h line => cases line <;> exact ⟨_, rfl, Function.update_self .., rfl⟩

/-- **A line for the guest**: when it arrives as it is. -/
theorem storesLine_fgets_iff {outcome' : Outcome} {hostErrno : ℕ} {bufAddr : Word}
    (hf : s.streams.resolveGuestFile outcome stream = some f) :
    StoresLine s f (s.fgets outcome outcome' hostErrno bufAddr x1 stream) ↔
      LineWhole (s.files f) (x1.setWidth 32).toInt := by
  unfold LineWhole
  by_cases hneg : (x1.setWidth 32).toInt < 0
  · have hrun : s.fgets outcome outcome' hostErrno bufAddr x1 stream = .error .lengthError := by
      simp only [TextState.fgets, hf, if_pos hneg]
    rw [hrun]
    refine iff_of_false ?_ fun h => absurd h.1 (not_le.2 hneg)
    rintro ⟨a, consumed, h, -⟩
    cases h
  obtain ⟨a, ha, hfile, hstored⟩ := fgets_of_nonneg outcome' hostErrno bufAddr hf (not_lt.1 hneg)
  generalize (x1.setWidth 32).toInt = size at *
  have hunread := unread_fgets (s.files f) size.toNat
  constructor
  · rintro ⟨a', consumed, ha', hcons, hline⟩
    cases ha.symm.trans ha'
    rw [hfile] at hcons
    have heq : consumed = lineOf (size.toNat - 1) (s.files f).unread :=
      append_cancel_right (hcons.symm.trans hunread)
    subst heq
    have hwhole : lineOf (size.toNat - 1) (s.files f).unread = [] ∨
        ¬ ((s.files f).hitsEnd (size.toNat - 1) ∧ (s.files f).fails) := by
      by_contra hno
      obtain ⟨hnil, hfail⟩ := not_or.1 hno
      rw [fgets_of_failed hnil (not_not.1 hfail)] at hstored
      rcases hline with h | ⟨-, h⟩
      · rw [hstored] at h
        cases h
      · exact hnil h
    refine ⟨not_lt.1 hneg, ?_, hwhole⟩
    rcases fgets_of_lineWhole hwhole with h | ⟨-, h⟩
    · rw [h] at hstored
      rcases hline with h' | ⟨h', -⟩
      · rw [hstored] at h'
        exact cString_eq_self_iff.1 (append_cancel_right (Option.some.inj h'))
      · rw [hstored] at h'
        cases h'
    · rw [h]
      exact not_mem_nil
  · rintro ⟨-, h0, hwhole⟩
    refine ⟨a, _, ha, hfile ▸ hunread, ?_⟩
    rcases fgets_of_lineWhole hwhole with h | ⟨h, hnil⟩
    · left
      rw [hstored, h, Option.map_some, cString_eq_self_iff.2 h0]
    · right
      rw [hstored, h]
      exact ⟨rfl, hnil⟩

/-! ### Both directions -/

/-- **When texts arrive as they are**: the output of `fprintf` and `vfprintf` in the stream, and a line in the buffer of
the guest. -/
theorem text_iff (s : TextState) (outcome outcome' : Outcome) (hostErrno : ℕ) (host : Host) (guest : Guest)
    (regs : Registers) (f : HostFile) (hf : s.streams.resolveGuestFile outcome (regs.x 0) = some f) :
    (∀ r : HleFormatResult, r.ok = true → hleFormatFromRegs host guest regs (regs.x 1) 2 false = .ok r →
      (Appends s f r.output (s.fprintf outcome hostErrno host guest regs) ↔ PutWhole (s.files f) r.output)) ∧
    (∀ r : HleFormatResult, r.ok = true → hleFormatFromVaList host guest (regs.x 1) (regs.x 2) false = .ok r →
      (Appends s f r.output (s.vfprintf outcome hostErrno host guest regs) ↔ PutWhole (s.files f) r.output)) ∧
    ∀ bufAddr x1, StoresLine s f (s.fgets outcome outcome' hostErrno bufAddr x1 (regs.x 0)) ↔
      LineWhole (s.files f) (x1.setWidth 32).toInt := by
  refine ⟨?_, ?_, fun _ _ => storesLine_fgets_iff hf⟩
  · intro r hok h
    rw [TextState.fprintf, h, result_formatWithSource hok h]
    exact appends_putFormatted_iff hf
  · intro r hok h
    rw [TextState.vfprintf, h, result_formatWithSource hok h]
    exact appends_putFormatted_iff hf

/-- A stream with handle 100 in which this is to be read. -/
def oneStream (unread : List Byte) : TextState where
  streams := ((State.init ⟨0, 0, 0, 0⟩ (.init [])).openFile none).1
  files _ := { unread }

/-- The format `a%cb` at `0x1000`. -/
def charGuest : Guest where
  read size a :=
    (true, if size = 1 then (chars ['a', '%', 'c', 'b']).getD (a - 0x1000).toNat 0 |>.setWidth _ else 0)
  errno := 0

/-- The registers of `fprintf(stream, "a%cb", c)`. -/
def charRegs (c : Word) : Registers :=
  ⟨fun i => if i = 0 then 100 else if i = 1 then 0x1000 else c, fun _ => 0, fun _ => 0, 0⟩

lemma one_le_eight : 1 ≤ 8 := by decide

def charHost : Host where
  kindRoom := 8
  argRoom := 8
  textRoom := 8
  snprintf call :=
    match call.value with
    | some (.signed _ v) => .ok [BitVec.ofInt 8 v]
    | _ => .ok []
  one_le_kindRoom := one_le_eight

theorem text_iff_oneStream :
    Appends (oneStream [0x61, 0x0a]) (.opened 0) (chars ['a', 'x', 'b'])
        ((oneStream [0x61, 0x0a]).fprintf .ok 0 charHost charGuest (charRegs 0x78)) ∧
      StoresLine (oneStream [0x61, 0x0a]) (.opened 0) ((oneStream [0x61, 0x0a]).fgets .ok .ok 0 0x2000 16 100) := by
  have h := text_iff (oneStream [0x61, 0x0a]) .ok .ok 0 charHost charGuest (charRegs 0x78) (.opened 0) (by decide)
  refine ⟨(h.1 ⟨true, 3, 0, chars ['a', 'x', 'b']⟩ rfl (by decide +kernel)).2 ⟨by decide, by decide, ?_⟩,
    (h.2.2 0x2000 16).2 ⟨by decide, by decide, .inr (by decide)⟩⟩
  rintro room h
  cases h

/-- A NUL byte is printed, and one is read: of `a\0b` the stream gets `a`, and the guest what is before the NUL. -/
theorem nul_ends_text :
    (hleFormatFromRegs charHost charGuest (charRegs 0) 0x1000 2 false = .ok ⟨true, 3, 0, [0x61, 0, 0x62]⟩ ∧
      ((oneStream []).fprintf .ok 0 charHost charGuest (charRegs 0)).map
        (fun r => ((r.1.files (.opened 0)).written, r.2.x0)) = .ok ([0x61], 3)) ∧
    ((oneStream [0x61, 0, 0x62, 0x0a]).fgets .ok .ok 0 0x2000 16 100).map
      (fun a => (a.stored, (a.state.files (.opened 0)).unread)) = .ok (some [0x61, 0], []) := by
  decide +kernel

end CrossShim.Stdio
