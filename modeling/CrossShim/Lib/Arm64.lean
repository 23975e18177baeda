import CrossShim.Lib.Words

/-!
# A fragment of A64

The general registers, the stack pointer and the program counter, and the instructions that load registers from
memory, add an immediate and branch to a register: their encodings (`decode`) and what they do (`exec`).  None
of them stores to memory, so a step is a function of the CPU over a fixed image.
-/

namespace CrossShim.Lib.Arm64

open Lib BitVec

/-- The CPU; `x 31` stands for no register. -/
structure Cpu where
  x : BitVec 5 → Word
  sp : Word
  pc : Word

/-- The instructions, with register numbers and scaled offsets. -/
inductive Instr where
  | addImm (rd rn : BitVec 5) (imm : Word)
  | ldr (rt rn : BitVec 5) (offset : Word)
  | ldp (rt rt2 rn : BitVec 5) (offset : Word)
  | br (rn : BitVec 5)
  deriving DecidableEq

/-- ADD (immediate), LDR (immediate, unsigned offset), LDP (signed offset), all 64-bit, and BR. -/
def decode (w : BitVec 32) : Option Instr :=
  let rt := w.extractLsb' 0 5
  let rn := w.extractLsb' 5 5
  if w.extractLsb' 22 10 = 0x244 then some (.addImm rt rn ((w.extractLsb' 10 12).setWidth 64))
  else if w.extractLsb' 22 10 = 0x3E5 then some (.ldr rt rn ((w.extractLsb' 10 12).setWidth 64 * 8))
  else if w.extractLsb' 22 10 = 0x2A5 then
    some (.ldp rt (w.extractLsb' 10 5) rn ((w.extractLsb' 15 7).signExtend 64 * 8))
  else if w.extractLsb' 10 22 = 0x3587C0 ∧ rt = 0 then some (.br rn)
  else none

namespace Cpu

def get (c : Cpu) (r : BitVec 5) : Word := if r = 31 then 0 else c.x r

def getSp (c : Cpu) (r : BitVec 5) : Word := if r = 31 then c.sp else c.x r

def set (c : Cpu) (r : BitVec 5) (v : Word) : Cpu :=
  if r = 31 then c else { c with x := Function.update c.x r v }

def setSp (c : Cpu) (r : BitVec 5) (v : Word) : Cpu :=
  if r = 31 then { c with sp := v } else { c with x := Function.update c.x r v }

def exec (m : Bytes) (c : Cpu) : Instr → Cpu
  | .addImm rd rn imm => { c.setSp rd (c.getSp rn + imm) with pc := c.pc + 4 }
  | .ldr rt rn offset => { c.set rt (readWord m (c.getSp rn + offset)) with pc := c.pc + 4 }
  | .ldp rt rt2 rn offset =>
    { (c.set rt (readWord m (c.getSp rn + offset))).set rt2 (readWord m (c.getSp rn + offset + 8)) with
      pc := c.pc + 4 }
  | .br rn => { c with pc := c.get rn }

def step (m : Bytes) (c : Cpu) : Option Cpu := (decode (readHalf m c.pc)).map (c.exec m)

def run (m : Bytes) : ℕ → Cpu → Option Cpu
  | 0, c => some c
  | n + 1, c => (c.step m).bind (run m n)

end Cpu

/-- The instruction words lie in memory from `a` on. -/
def CodeAt (m : Bytes) (a : Word) : List (BitVec 32) → Prop
  | [] => True
  | w :: ws => readHalf m a = w ∧ CodeAt m (a + 4) ws

lemma run_cons {m : Bytes} {c : Cpu} {w : BitVec 32} {ws : List (BitVec 32)} {i : Instr} {n : ℕ}
    (hc : CodeAt m c.pc (w :: ws)) (hd : decode w = some i) : c.run m (n + 1) = (c.exec m i).run m n := by
  simp only [Cpu.run, Cpu.step, hc.1, hd, Option.map_some, Option.bind_some]

lemma CodeAt.congr {m m' : Bytes} : ∀ {ws : List (BitVec 32)} {a : Word}, CodeAt m a ws →
    a.toNat + 4 * ws.length < 2 ^ 64 →
    (∀ x : Word, x.toNat ∈ span a.toNat (4 * ws.length) → m' x = m x) → CodeAt m' a ws
  | [], _, _, _, _ => trivial
  | w :: ws, a, hc, hw, h => by
    rw [List.length_cons] at hw h
    have ha : (a + 4).toNat = a.toNat + 4 := by bv_omega
    refine ⟨?_, hc.2.congr (by omega) fun x hx => h x ?_⟩
    · rw [← hc.1]
      refine readHalf_congr fun j hj => h _ ?_
      rw [mem_span, toNat_add, toNat_ofNat]
      omega
    · rw [mem_span] at *
      omega

lemma codeAt_of_get {m : Bytes} : ∀ {ws : List (BitVec 32)} {a : Word},
    (∀ i w, ws[i]? = some w → readHalf m (a + BitVec.ofNat 64 (4 * i)) = w) → CodeAt m a ws
  | [], _, _ => trivial
  | w :: ws, a, h => by
    refine ⟨?_, codeAt_of_get fun i v hv => ?_⟩
    · have h0 := h 0 w rfl
      rwa [show BitVec.ofNat 64 (4 * 0) = 0 from rfl, show a + 0 = a by bv_omega] at h0
    · have hadd : a + 4 + BitVec.ofNat 64 (4 * i) = a + BitVec.ofNat 64 (4 * (i + 1)) := by
        rw [show 4 * (i + 1) = 4 + 4 * i by omega, ofNat_add, ← add_assoc]
        rfl
      rw [hadd]
      exact h (i + 1) v hv

/-- **Code that was stored** is there. -/
theorem codeAt_splice {m : Bytes} {a : Word} {ws : List (BitVec 32)} (hlen : 4 * ws.length < 2 ^ 64) :
    CodeAt (splice m a (ofHalves ws) (BitVec.ofNat 64 (4 * ws.length))) a ws :=
  codeAt_of_get fun _ _ hw => readHalf_splice_ofHalves hlen hw

/-! ### Stubs of system calls -/

inductive StubInstr where
  | movz (rd : BitVec 5) (imm : BitVec 16)
  | svc (imm : BitVec 16)
  | ret (rn : BitVec 5)
  deriving DecidableEq

def decodeStub (w : BitVec 32) : Option StubInstr :=
  if w.extractLsb' 21 11 = 0x694 then some (.movz (w.extractLsb' 0 5) (w.extractLsb' 5 16))
  else if w.extractLsb' 21 11 = 0x6A0 ∧ w.extractLsb' 0 5 = 1 then some (.svc (w.extractLsb' 5 16))
  else if w.extractLsb' 10 22 = 0x3597C0 ∧ w.extractLsb' 0 5 = 0 then some (.ret (w.extractLsb' 5 5))
  else none

lemma movz_word (n : BitVec 16) :
    0xD2800008#32 ||| (n.setWidth 32 <<< 5) = BitVec.ofNat 32 (0xD2800008 + 32 * n.toNat) := by
  have hn := n.isLt
  have hbits : ∀ i < 32, 5 ≤ i → i < 21 → (0xD2800008#32).getLsbD i = false := by decide
  have hand : 0xD2800008#32 &&& (n.setWidth 32 <<< 5) = 0#32 := by
    apply eq_of_getLsbD_eq
    intro i hi
    rw [getLsbD_and, getLsbD_shiftLeft, getLsbD_setWidth, getLsbD_zero]
    by_cases h5 : i < 5
    · simp [h5]
    · by_cases h21 : i < 21
      · rw [hbits i hi (by omega) h21, Bool.false_and]
      · rw [getLsbD_of_ge n (i - 5) (by omega)]
        simp
  rw [← add_eq_or_of_and_eq_zero _ _ hand]
  apply eq_of_toNat_eq
  rw [toNat_add, toNat_shiftLeft, toNat_setWidth, toNat_ofNat, toNat_ofNat,
    Nat.shiftLeft_eq]
  omega

/-- **`MOVZ X8, #n`** decodes to itself. -/
theorem decode_movz (n : BitVec 16) : decodeStub (0xD2800008#32 ||| (n.setWidth 32 <<< 5)) = some (.movz 8 n) := by
  have hn := n.isLt
  rw [movz_word]
  have hfield : ∀ s l, ((BitVec.ofNat 32 (0xD2800008 + 32 * n.toNat)).extractLsb' s l).toNat =
      (0xD2800008 + 32 * n.toNat) / 2 ^ s % 2 ^ l := by
    intro s l
    rw [extractLsb'_toNat, toNat_ofNat, Nat.shiftRight_eq_div_pow, Nat.mod_eq_of_lt (a := _ + _)]
    omega
  have hop : (BitVec.ofNat 32 (0xD2800008 + 32 * n.toNat)).extractLsb' 21 11 = 0x694 := by
    apply eq_of_toNat_eq
    rw [hfield]
    show _ = 0x694
    omega
  have hrd : (BitVec.ofNat 32 (0xD2800008 + 32 * n.toNat)).extractLsb' 0 5 = 8 := by
    apply eq_of_toNat_eq
    rw [hfield]
    show _ = 8
    omega
  have himm : (BitVec.ofNat 32 (0xD2800008 + 32 * n.toNat)).extractLsb' 5 16 = n := by
    apply eq_of_toNat_eq
    rw [hfield]
    omega
  unfold decodeStub
  rw [if_pos hop, hrd, himm]

/-! ### Code around a system call -/

/-- The instructions of code that makes a system call and branches on its result. -/
inductive CallInstr where
  | stub (i : StubInstr)
  | cbnz (rt : BitVec 5) (offset : Word)
  | b (offset : Word)
  deriving DecidableEq

def decodeCall (w : BitVec 32) : Option CallInstr :=
  match decodeStub w with
  | some i => some (.stub i)
  | none =>
    if w.extractLsb' 24 8 = 0xB5 then some (.cbnz (w.extractLsb' 0 5) ((w.extractLsb' 5 19).signExtend 64 * 4))
    else if w.extractLsb' 26 6 = 5 then some (.b ((w.extractLsb' 0 26).signExtend 64 * 4))
    else none

/-- The words of a piece of code that lies from `base` on. -/
def image (base : Word) (code : List (BitVec 32)) (a : Word) : Option (BitVec 32) := code[(a - base).toNat / 4]?

/-- How a piece of code was left: by a return, or by a branch elsewhere. -/
inductive Left where
  | returned (c : Cpu)
  | elsewhere (c : Cpu)
  | within (c : Cpu)

namespace Cpu

/-- What an instruction does, where a system call answers in `X0`; nothing after a return. -/
def execCall (svc : Cpu → Word) (c : Cpu) : CallInstr → Cpu × Bool
  | .stub (.movz rd imm) => ({ c.set rd (imm.setWidth 64) with pc := c.pc + 4 }, false)
  | .stub (.svc _) => ({ c.set 0 (svc c) with pc := c.pc + 4 }, false)
  | .stub (.ret rn) => ({ c with pc := c.get rn }, true)
  | .cbnz rt offset => ({ c with pc := if c.get rt ≠ 0 then c.pc + offset else c.pc + 4 }, false)
  | .b offset => ({ c with pc := c.pc + offset }, false)

def runCall (code : Word → Option (BitVec 32)) (svc : Cpu → Word) : ℕ → Cpu → Left
  | 0, c => .within c
  | n + 1, c =>
    match (code c.pc).bind decodeCall with
    | none => .elsewhere c
    | some i =>
      match c.execCall svc i with
      | (c', true) => .returned c'
      | (c', false) => runCall code svc n c'

end Cpu

section RunCall

variable {code : Word → Option (BitVec 32)} {svc : Cpu → Word} {c : Cpu} {n : ℕ}

lemma runCall_next (a : Word) (i : CallInstr) (c' : Cpu) (ha : c.pc = a) (hi : (code a).bind decodeCall = some i)
    (hc : c.execCall svc i = (c', false)) : c.runCall code svc (n + 1) = c'.runCall code svc n := by
  subst ha
  simp only [Cpu.runCall, hi, hc]

lemma runCall_ret (a : Word) (i : CallInstr) (c' : Cpu) (ha : c.pc = a) (hi : (code a).bind decodeCall = some i)
    (hc : c.execCall svc i = (c', true)) : c.runCall code svc (n + 1) = .returned c' := by
  subst ha
  simp only [Cpu.runCall, hi, hc]

lemma runCall_elsewhere (a : Word) (ha : c.pc = a) (hi : (code a).bind decodeCall = none) :
    c.runCall code svc (n + 1) = .elsewhere c := by
  subst ha
  simp only [Cpu.runCall, hi]

end RunCall

end CrossShim.Lib.Arm64
