import CrossShim.Stdio.Format

/-!
# Arguments in registers and arguments in a `va_list`

The `printf` functions take their arguments from the registers and the stack, the `vprintf` functions from a `va_list`.
Where the `va_list` was started for the call that the registers belong to, the two sources give the same arguments,
whatever is asked of them: `SameArg` is kept by every request.  So the two ways of formatting agree.
-/

namespace CrossShim.Stdio.Format

open Lib

/-! ### Sources that agree -/

section Agree

variable {σ τ : Type}

/-- The sources give the same to every request, as long as their states are related. -/
structure ArgSource.Agree (A : ArgSource σ) (B : ArgSource τ) (R : σ → τ → Prop) : Prop where
  gpRaw : ∀ s t, R s t → (A.nextGpRaw s).1 = (B.nextGpRaw t).1 ∧ R (A.nextGpRaw s).2 (B.nextGpRaw t).2
  fp64 : ∀ s t, R s t → (A.nextFp64 s).1 = (B.nextFp64 t).1 ∧ R (A.nextFp64 s).2 (B.nextFp64 t).2
  fp128 : ∀ s t, R s t → (A.nextFp128 s).1 = (B.nextFp128 t).1 ∧ R (A.nextFp128 s).2 (B.nextFp128 t).2

variable {A : ArgSource σ} {B : ArgSource τ} {R : σ → τ → Prop} {s : σ} {t : τ}

/-- **One argument**, of any kind. -/
theorem ArgSource.Agree.readArg (h : A.Agree B R) (hR : R s t) (kind : ArgKind) :
    (readArg A s kind).1 = (readArg B t kind).1 ∧ R (readArg A s kind).2 (readArg B t kind).2 := by
  have hgp := h.gpRaw s t hR
  have hfp := h.fp64 s t hR
  have hq := h.fp128 s t hR
  cases kind with
  | none => exact ⟨rfl, hR⟩
  | double => exact ⟨by simp only [Format.readArg, hfp.1], hfp.2⟩
  | quad => exact ⟨by simp only [Format.readArg, hq.1], hq.2⟩
  | _ => exact ⟨by simp only [Format.readArg, hgp.1], hgp.2⟩

/-- **All arguments.** -/
theorem ArgSource.Agree.readArgs (h : A.Agree B R) (kinds : List ArgKind) :
    ∀ {s : σ} {t : τ}, R s t → readArgs A s kinds = readArgs B t kinds := by
  induction kinds with
  | nil =>
    intro s t _
    rfl
  | cons kind kinds ih =>
    intro s t hR
    obtain ⟨harg, hnext⟩ := h.readArg hR kind
    show (Format.readArg A s kind).1 :: Format.readArgs A (Format.readArg A s kind).2 kinds =
      (Format.readArg B t kind).1 :: Format.readArgs B (Format.readArg B t kind).2 kinds
    rw [harg, ih hnext]

theorem ArgSource.Agree.formatWithSource (h : A.Agree B R) (hR : R s t) (host : Host) (guest : Guest) (fmtAddr : Word)
    (wideFormat : Bool) :
    formatWithSource host guest fmtAddr wideFormat A s = formatWithSource host guest fmtAddr wideFormat B t := by
  have hargs : ∀ kinds, materializeArgs host.argRoom A s kinds = materializeArgs host.argRoom B t kinds := by
    intro kinds
    unfold materializeArgs
    rw [h.readArgs _ hR]
  simp only [Format.formatWithSource, formatText, hargs]

end Agree

/-! ### A `va_list` for the call -/

/-- Where the register save areas keep general register `i` and vector register `i`. -/
def grSlot (grTop : Word) (i : ℕ) : Word := grTop + BitVec.ofInt 64 (8 * i - 64)

def vrSlot (vrTop : Word) (i : ℕ) : Word := vrTop + BitVec.ofInt 64 (16 * i - 128)

/-- The save areas hold the registers from `firstArgReg` on: the general ones below `grTop`, the vector ones, in slots
of 16 bytes, below `vrTop`. -/
structure Saved (guest : Guest) (regs : Registers) (firstArgReg : ℕ) (grTop vrTop : Word) : Prop where
  gr : ∀ i, firstArgReg ≤ i → i ≤ 7 → guest.read 8 (grSlot grTop i) = (true, regs.x i)
  vrLow : ∀ i, i ≤ 7 → guest.read 8 (vrSlot vrTop i) = (true, regs.d i)
  vr : ∀ i, i ≤ 7 → guest.read 16 (vrSlot vrTop i) = (true, regs.q i)

/-- What `va_start` makes of a call whose variadic arguments begin at register `firstArgReg`. -/
structure VaStart (guest : Guest) (regs : Registers) (firstArgReg : ℕ) (va : VaList) : Prop where
  stack : va.stack = regs.sp
  grOffs : va.grOffs = -(8 * (8 - firstArgReg : ℕ))
  vrOffs : va.vrOffs = -(16 * 8)
  saved : Saved guest regs firstArgReg va.grTop va.vrTop

structure SameArg (firstArgReg : ℕ) (grTop vrTop : Word) (s : RegisterArgs) (va : VaList) : Prop where
  stack : va.stack = s.stackAddr
  grTop : va.grTop = grTop
  vrTop : va.vrTop = vrTop
  first : firstArgReg ≤ s.nextGpReg
  grOffs : va.grOffs = -(8 * (8 - s.nextGpReg : ℕ))
  vrOffs : va.vrOffs = 16 * s.nextFpReg - 128
  fpLe : s.nextFpReg ≤ 8

section

variable {guest : Guest} {regs : Registers} {firstArgReg : ℕ} {grTop vrTop : Word} {s : RegisterArgs} {va : VaList}

lemma SameArg.stacked (h : SameArg firstArgReg grTop vrTop s va) (addr : Word) :
    SameArg firstArgReg grTop vrTop { s with stackAddr := addr } { va with stack := addr } :=
  { h with stack := rfl }

section

variable (h : SameArg firstArgReg grTop vrTop s va)
include h

lemma SameArg.nextGp (hle : s.nextGpReg ≤ 7) :
    SameArg firstArgReg grTop vrTop { s with nextGpReg := s.nextGpReg + 1 } { va with grOffs := va.grOffs + 8 } := by
  have hoffs := h.grOffs
  exact { h with first := Nat.le_succ_of_le h.first, grOffs := by simp only; omega }

lemma SameArg.nextFp (hle : s.nextFpReg ≤ 7) :
    SameArg firstArgReg grTop vrTop { s with nextFpReg := s.nextFpReg + 1 } { va with vrOffs := va.vrOffs + 16 } := by
  have hoffs := h.vrOffs
  exact { h with vrOffs := by simp only; omega, fpLe := by simp only; omega }

/-- The general registers run out in both at once, and until then the slot is that of the register. -/
lemma SameArg.grOffs_neg_iff : va.grOffs < 0 ↔ s.nextGpReg ≤ 7 := by
  have hoffs := h.grOffs
  omega

lemma SameArg.vrOffs_neg_iff : va.vrOffs < 0 ↔ s.nextFpReg ≤ 7 := by
  have hoffs := h.vrOffs
  omega

lemma SameArg.grSlot (hle : s.nextGpReg ≤ 7) : va.grTop + BitVec.ofInt 64 va.grOffs = grSlot grTop s.nextGpReg := by
  have hoffs : va.grOffs = 8 * s.nextGpReg - 64 := by
    have := h.grOffs
    omega
  rw [Format.grSlot, h.grTop, hoffs]

lemma SameArg.vrSlot : va.vrTop + BitVec.ofInt 64 va.vrOffs = vrSlot vrTop s.nextFpReg := by
  rw [Format.vrSlot, h.vrTop, h.vrOffs]

end

/-- **The two sources agree** where the save areas hold the registers. -/
theorem Saved.agree (hsaved : Saved guest regs firstArgReg grTop vrTop) :
    (registerArgSource guest regs).Agree (vaListArgSource guest) (SameArg firstArgReg grTop vrTop) where
  gpRaw s va h := by
    simp only [registerArgSource, vaListArgSource, h.grOffs_neg_iff]
    by_cases hle : s.nextGpReg ≤ 7
    · rw [if_pos hle, if_pos hle, h.grSlot hle]
      exact ⟨(congrArg Prod.snd (hsaved.gr _ h.first hle)).symm, h.nextGp hle⟩
    · rw [if_neg hle, if_neg hle, h.stack]
      exact ⟨rfl, h.stacked _⟩
  fp64 s va h := by
    simp only [registerArgSource, vaListArgSource, h.vrOffs_neg_iff]
    by_cases hle : s.nextFpReg ≤ 7
    · rw [if_pos hle, if_pos hle, h.vrSlot]
      exact ⟨(congrArg Prod.snd (hsaved.vrLow _ hle)).symm, h.nextFp hle⟩
    · rw [if_neg hle, if_neg hle, h.stack]
      exact ⟨rfl, h.stacked _⟩
  fp128 s va h := by
    simp only [registerArgSource, vaListArgSource, h.vrOffs_neg_iff]
    by_cases hle : s.nextFpReg ≤ 7
    · rw [if_pos hle, if_pos hle, h.vrSlot]
      exact ⟨(congrArg Prod.snd (hsaved.vr _ hle)).symm, h.nextFp hle⟩
    · rw [if_neg hle, if_neg hle, h.stack]
      exact ⟨rfl, h.stacked _⟩

lemma VaStart.sameArg (h : VaStart guest regs firstArgReg va) :
    SameArg firstArgReg va.grTop va.vrTop { nextGpReg := firstArgReg, stackAddr := regs.sp } va where
  stack := h.stack
  grTop := rfl
  vrTop := rfl
  first := le_rfl
  grOffs := h.grOffs
  vrOffs := h.vrOffs
  fpLe := Nat.zero_le 8

end

/-- **Formatting from the registers is formatting from the `va_list`** that `va_start` made for the call. -/
theorem formatFromRegs_eq_formatFromVaList (host : Host) (guest : Guest) (regs : Registers) (fmtAddr vaListAddr : Word)
    (firstArgReg : ℕ) (wideFormat : Bool) (h : VaStart guest regs firstArgReg (guest.readVaList vaListAddr)) :
    hleFormatFromRegs host guest regs fmtAddr firstArgReg wideFormat =
      hleFormatFromVaList host guest fmtAddr vaListAddr wideFormat :=
  h.saved.agree.formatWithSource h.sameArg host guest fmtAddr wideFormat

/-! ### A call -/

/-- The guest whose memory is the image `m`. -/
def Guest.ofImage (m : ℕ → Byte) : Guest where
  read size addr := (true, (List.range size).foldr (fun i bits => bits <<< 8 ||| (m (addr.toNat + i)).setWidth _) 0)
  errno := 0

/-- A frame: the format `%d%d` at `0x4000`, the `va_list` at `0x1000`, the registers below `0x2040` and `0x2180`, the
stack at `0x3000`. -/
def callFrame : Guest :=
  .ofImage fun a =>
    if 0x2000 ≤ a ∧ a < 0x2040 then if a % 8 = 0 then BitVec.ofNat 8 (1 + (a - 0x2000) / 8) else 0
    else if 0x2100 ≤ a ∧ a < 0x2180 then if a % 8 = 0 then BitVec.ofNat 8 (a / 8) else 0
    else (([(0x4000, '%'.toNat), (0x4001, 'd'.toNat), (0x4002, '%'.toNat), (0x4003, 'd'.toNat), (0x1001, 0x30),
      (0x1008, 0x40), (0x1009, 0x20), (0x1010, 0x80), (0x1011, 0x21), (0x101c, 0x80), (0x101d, 0xff), (0x101e, 0xff),
      (0x101f, 0xff), (0x1018, 0xf8), (0x1019, 0xff), (0x101a, 0xff), (0x101b, 0xff), (0x3000, 9)].lookup a).getD 0 :
        BitVec 8)

/-- The registers of a call whose variadic arguments begin at register 7. -/
def callRegisters : Registers where
  x i := BitVec.ofNat 64 (i + 1)
  d i := BitVec.ofNat 64 (0x20 + 2 * i)
  q i := BitVec.ofNat 128 (0x20 + 2 * i + (0x21 + 2 * i) * 2 ^ 64)
  sp := 0x3000

def digitHost : Host where
  kindRoom := 8
  argRoom := 8
  textRoom := 8
  snprintf call :=
    match call.value with
    | some (.signed _ v) => .ok (chars (Nat.toDigits 10 v.toNat))
    | _ => .ok []
  one_le_kindRoom := by decide

/-- The first argument is in the last register, the second on the stack. -/
theorem formatFromRegs_eq_formatFromVaList_callFrame :
    hleFormatFromRegs digitHost callFrame callRegisters 0x4000 7 false = .ok ⟨true, 2, 0, chars ['8', '9']⟩ ∧
      hleFormatFromVaList digitHost callFrame 0x4000 0x1000 false = .ok ⟨true, 2, 0, chars ['8', '9']⟩ := by
  have hregs : hleFormatFromRegs digitHost callFrame callRegisters 0x4000 7 false =
      .ok ⟨true, 2, 0, chars ['8', '9']⟩ := by decide +kernel
  refine ⟨hregs, ?_⟩
  rw [← formatFromRegs_eq_formatFromVaList digitHost callFrame callRegisters 0x4000 0x1000 7 false, hregs]
  refine ⟨by decide +kernel, by decide +kernel, by decide +kernel, ?_, ?_, ?_⟩
  · intro i h1 h2
    interval_cases i
    decide +kernel
  · intro i h
    interval_cases i <;> decide +kernel
  · intro i h
    interval_cases i <;> decide +kernel

end CrossShim.Stdio.Format
