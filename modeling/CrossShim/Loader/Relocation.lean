import CrossShim.Lib.Words
import CrossShim.Loader.Elf

/-!
# Relocations

`RelocationHandler` of `relocation_handler.cpp`.  One handler serves every load of the emulator.

It keeps its count of failures from load to load, and so its report: `reports_own_iff` says for which sequences
of loads every report is about the module it is given for.  It adds the load address to link-time addresses as
they stand; `relocations_biased_iff` says when that is where the loader put them.
-/

namespace CrossShim.Loader

open Lib Memory List

/-! ### The handler -/

inductive RelocType where
  | none
  | abs64
  | globDat
  | jumpSlot
  | relative
  | irelative
  | other
  deriving DecidableEq

/-- The type without the marker the parser puts in its upper bits. -/
def relocType (type : Word) : RelocType :=
  match (type &&& 0xFFFF).toNat with
  | 0 => .none
  | 257 => .abs64
  | 1025 => .globDat
  | 1026 => .jumpSlot
  | 1027 => .relative
  | 1032 => .irelative
  | _ => .other

def stripVersionSuffix (symbolName : String) : String :=
  String.ofList (symbolName.toList.takeWhile (· ≠ '@'))

/-- `SymbolResolver`, which may be empty. -/
abbrev SymbolResolver : Type := Option (String → Word)

/-- The lookup of a name, then of the name without its version. -/
def lookup (resolver : SymbolResolver) (symbolName : String) : Word :=
  match resolver with
  | none => 0
  | some resolve =>
    if resolve symbolName = 0 then resolve (stripVersionSuffix symbolName) else resolve symbolName

/-- The `value` of the branches for symbols. -/
def symbolAddress (base : Word) (reloc : RelocationInfo) (resolver : SymbolResolver) : Word :=
  if reloc.symbolValue = 0 ∧ reloc.symbolName ≠ "" ∧ resolver.isSome then lookup resolver reloc.symbolName
  else if reloc.symbolValue ≠ 0 then reloc.symbolValue + base
  else reloc.symbolValue

inductive Action where
  | skip
  | fail
  | store (address value : Word)
  deriving DecidableEq

/-- The outcomes of the two accesses of a relocation. -/
structure RelocationEnv where
  read : Outcome
  write : Outcome

variable (memory : MemoryManager)

def readMemory (outcome : Outcome) (address : Word) : Option Word :=
  (memory.read outcome address 8).map fun bytes => readWord bytes 0

def applyRelative (outcome : Outcome) (address base addend : Word) : Action :=
  if addend = 0 then
    match readMemory memory outcome address with
    | none => .fail
    | some existing => .store address (base + existing)
  else .store address (base + addend)

/-- What the other `apply_` functions do. -/
def applySymbol (address value addend : Word) : Action := .store address (value + addend)

def applyAbs64 : Word → Word → Word → Action := applySymbol

def applyGlobDat : Word → Word → Word → Action := applySymbol

def applyJumpSlot : Word → Word → Word → Action := applySymbol

/-- The switch of `process_relocation`: what it does to memory, and the name it adds to `unresolved_`. -/
def relocationAction (outcome : Outcome) (base : Word) (reloc : RelocationInfo)
    (resolver : SymbolResolver) : Action × List String :=
  let address := base + reloc.offset
  let value := symbolAddress base reloc resolver
  let unresolved := value = 0 ∧ reloc.symbolName ≠ ""
  match relocType reloc.type with
  | .none => (.skip, [])
  | .relative => (applyRelative memory outcome address base reloc.addend, [])
  | .abs64 =>
    if unresolved then (.fail, [reloc.symbolName]) else (applyAbs64 address value reloc.addend, [])
  -- an unresolved symbol is noted here, and its slot filled all the same
  | .globDat => (applyGlobDat address value reloc.addend, if unresolved then [reloc.symbolName] else [])
  | .jumpSlot => (applyJumpSlot address value reloc.addend, if unresolved then [reloc.symbolName] else [])
  | .irelative => (applyRelative memory outcome address base reloc.addend, [])
  | .other => (.skip, [])

/-- What the action does to memory, and whether it succeeds. -/
def Action.run (outcome : Outcome) : Action → MemoryManager × Bool
  | .skip => (memory, true)
  | .fail => (memory, false)
  | .store address value => memory.write outcome address (ofWords [value]) 8

/-- `RelocationHandler`, without the memory it works on. -/
structure RelocationHandler where
  processedCount : ℕ
  failedCount : ℕ
  unresolved : List String

def RelocationHandler.init : RelocationHandler := ⟨0, 0, []⟩

/-- What a load gives to `process_relocations`. -/
structure Attempt where
  binary : Binary
  base : Word
  resolver : SymbolResolver
  memory : MemoryManager
  env : ℕ → RelocationEnv

structure Round where
  memory : MemoryManager
  env : RelocationEnv
  reloc : Relocation

namespace Attempt

variable (a : Attempt)

/-- What a relocation asks of memory, in its turn. -/
def action (r : Round) : Action := (relocationAction r.memory r.env.read a.base r.reloc.info a.resolver).1

def processRelocation (r : Round) (h : RelocationHandler) : RelocationHandler × MemoryManager × Bool :=
  let (action, unresolved) := relocationAction r.memory r.env.read a.base r.reloc.info a.resolver
  ({ h with unresolved := h.unresolved ++ unresolved }, action.run r.memory r.env.write)

/-- The loop of `process_relocations`, from its `i`-th round on. -/
def processFrom : ℕ → List Relocation → RelocationHandler → MemoryManager → RelocationHandler × MemoryManager
  | _, [], h, memory => (h, memory)
  | i, reloc :: rest, h, memory =>
    match a.processRelocation ⟨memory, a.env i, reloc⟩ h with
    | (h, memory, true) => processFrom (i + 1) rest { h with processedCount := h.processedCount + 1 } memory
    | (h, memory, false) => processFrom (i + 1) rest { h with failedCount := h.failedCount + 1 } memory

def processRelocations (h : RelocationHandler) : RelocationHandler × MemoryManager × Bool :=
  let (h, memory) := a.processFrom 0 a.binary.relocations h a.memory
  (h, memory, h.failedCount = 0)

end Attempt

/-! ### Reports -/

namespace Attempt

variable (a : Attempt)

/-- The rounds of the loop, each with the memory it finds. -/
def roundsFrom : ℕ → List Relocation → MemoryManager → List Round
  | _, [], _ => []
  | i, reloc :: rest, memory =>
    ⟨memory, a.env i, reloc⟩ ::
      roundsFrom (i + 1) rest ((a.action ⟨memory, a.env i, reloc⟩).run memory (a.env i).write).1

def rounds : List Round := a.roundsFrom 0 a.binary.relocations a.memory

def Fails (r : Round) : Prop := ((a.action r).run r.memory r.env.write).2 = false

instance : DecidablePred a.Fails := fun _ => inferInstanceAs (Decidable (_ = false))

def HasFailure : Prop := ∃ r ∈ a.rounds, a.Fails r

/-- The report of a handler that has seen no other module. -/
def ownReport : Bool := (a.processRelocations .init).2.2

lemma processRelocation_eq (r : Round) (h : RelocationHandler) : ∃ unresolved,
    a.processRelocation r h =
      ({ h with unresolved := unresolved }, (a.action r).run r.memory r.env.write) := ⟨_, rfl⟩

/-- **The count of failures** after the loop. -/
theorem processFrom_failedCount (i : ℕ) (relocs : List Relocation) (h : RelocationHandler) (memory : MemoryManager) :
    (a.processFrom i relocs h memory).1.failedCount =
      h.failedCount + (a.roundsFrom i relocs memory).countP fun r => a.Fails r := by
  induction relocs generalizing i h memory with
  | nil => rfl
  | cons reloc rest ih =>
    obtain ⟨unresolved, hp⟩ := a.processRelocation_eq ⟨memory, a.env i, reloc⟩ h
    unfold processFrom roundsFrom
    rw [hp, countP_cons]
    cases hrun : (a.action ⟨memory, a.env i, reloc⟩).run memory (a.env i).write with
    | mk memory₁ b =>
      cases b with
      | false =>
        simp only [Fails, hrun, ih, decide_true, if_true]
        omega
      | true => simp only [Fails, hrun, ih, Bool.true_eq_false, decide_false, Bool.false_eq_true, if_false, add_zero]

/-- **The report** of a handler. -/
theorem report_iff (h : RelocationHandler) :
    (a.processRelocations h).2.2 = true ↔ h.failedCount = 0 ∧ ¬ a.HasFailure := by
  have hcount := a.processFrom_failedCount 0 a.binary.relocations h a.memory
  have hzero : (a.roundsFrom 0 a.binary.relocations a.memory).countP (fun r => a.Fails r) = 0 ↔ ¬ a.HasFailure := by
    rw [countP_eq_zero]
    simp [HasFailure, rounds]
  simp only [processRelocations, decide_eq_true_eq, hcount, Nat.add_eq_zero_iff, hzero]

lemma failedCount_eq_zero_iff (h : RelocationHandler) :
    (a.processRelocations h).1.failedCount = 0 ↔ h.failedCount = 0 ∧ ¬ a.HasFailure := by
  rw [← a.report_iff h]
  simp [processRelocations]

lemma ownReport_iff : a.ownReport = true ↔ ¬ a.HasFailure := by
  rw [ownReport, report_iff]
  simp [RelocationHandler.init]

end Attempt

/-- The reports of one handler on the loads that come to it. -/
def reports : RelocationHandler → List Attempt → List Bool
  | _, [] => []
  | h, a :: rest => (a.processRelocations h).2.2 :: reports (a.processRelocations h).1 rest

lemma reports_own_iff_of_count {attempts : List Attempt} (h : RelocationHandler) :
    reports h attempts = attempts.map Attempt.ownReport ↔
      (h.failedCount ≠ 0 → ∀ a ∈ attempts, a.HasFailure) ∧
        attempts.Pairwise fun a b => a.HasFailure → b.HasFailure := by
  induction attempts generalizing h with
  | nil => simp [reports]
  | cons a rest ih =>
    have hhead : (a.processRelocations h).2.2 = a.ownReport ↔ (h.failedCount ≠ 0 → a.HasFailure) := by
      rw [Bool.eq_iff_iff, a.report_iff, a.ownReport_iff]
      tauto
    have hnext : (a.processRelocations h).1.failedCount ≠ 0 ↔ h.failedCount ≠ 0 ∨ a.HasFailure := by
      rw [ne_eq, a.failedCount_eq_zero_iff]
      tauto
    rw [reports, map_cons, List.cons.injEq, hhead, ih, hnext, pairwise_cons, forall_mem_cons]
    constructor
    · rintro ⟨h1, h2, h3⟩
      exact ⟨fun hc => ⟨h1 hc, h2 (.inl hc)⟩, fun b hb ha => h2 (.inr ha) b hb, h3⟩
    · rintro ⟨h1, h2, h3⟩
      exact ⟨fun hc => (h1 hc).1, fun hor b hb => hor.elim (fun hc => (h1 hc).2 b hb) (h2 b hb), h3⟩

/-- **Reports of a shared handler.** Every report is the one of a handler of its own just when no module with a failed
relocation is followed by one without. -/
theorem reports_own_iff (attempts : List Attempt) :
    reports .init attempts = attempts.map Attempt.ownReport ↔
      attempts.Pairwise fun a b => a.HasFailure → b.HasFailure := by
  rw [reports_own_iff_of_count]
  simp [RelocationHandler.init]

def onlyRelocations (relocations : List Relocation) : Binary := ⟨[], [], [], relocations, (0, 0)⟩

/-- **A failure is reported again**, for a module without relocations. -/
theorem failure_reported_again :
    ¬ ∀ attempts : List Attempt, reports .init attempts = attempts.map Attempt.ownReport := by
  intro h
  let attempt (relocations : List Relocation) : Attempt :=
    ⟨onlyRelocations relocations, codeBase, some fun _ => 0, runningMemory, fun _ => ⟨.ok, .ok⟩⟩
  have heq := h [attempt [⟨0, 257, 0, some ⟨"missing", 0, true⟩, false, 0, by decide⟩], attempt []]
  revert heq
  decide

/-! ### The load bias -/

/-- A relocation of one of the types for addresses of the module itself. -/
def Relocation.Inner (reloc : Relocation) : Prop :=
  relocType reloc.type = .relative ∨
    ((relocType reloc.type = .abs64 ∨ relocType reloc.type = .globDat ∨ relocType reloc.type = .jumpSlot) ∧
      ∃ sym, reloc.symbol = some sym ∧ sym.isImported = false)

namespace Attempt

variable (a : Attempt) {base : Word} {info : RelocationInfo} {resolver : SymbolResolver} {memory : MemoryManager}

/-- The link-time address a relocation refers to, and what is added; a packed one has the address in its slot. -/
def reference (r : Round) : Word × Word :=
  if relocType r.reloc.type = .relative then
    (if r.reloc.packed then readWord r.memory.guest (a.binary.loadAddress a.base r.reloc.address)
      else r.reloc.addend, 0)
  else (r.reloc.info.symbolValue, r.reloc.addend)

/-- The slot is written where the loader put it, with the address of what it refers to. -/
def Biased (r : Round) : Prop :=
  a.action r = .store (a.binary.loadAddress a.base r.reloc.address)
    (a.binary.loadAddress a.base (a.reference r).1 + (a.reference r).2)

def AllBiased : Prop := ∀ r ∈ a.rounds, a.Biased r

/-- A relocation that the handler gets right: the module is linked at zero; the addend is zero, or the slot is; and a
symbol is not taken for an import, or is found as one. -/
structure Plain (r : Round) : Prop where
  linkedAtZero : a.binary.getMinVaddr = 0
  addend : relocType r.reloc.type = .relative →
    r.reloc.packed ∨ r.reloc.addend ≠ 0 ∨ readWord r.memory.guest (a.base + r.reloc.address) = 0
  symbol : relocType r.reloc.type ≠ .relative → r.reloc.info.symbolValue ≠ 0 ∨
    (if r.reloc.info.symbolName = "" then 0 else lookup a.resolver r.reloc.info.symbolName) = a.base
  abs64 : relocType r.reloc.type = .abs64 →
    r.reloc.info.symbolName = "" ∨ a.base + r.reloc.info.symbolValue ≠ 0

variable {a} {r : Round}

lemma symbolAddress_of_ne (h : info.symbolValue ≠ 0) : symbolAddress base info resolver = base + info.symbolValue := by
  rw [symbolAddress, if_neg (fun hc => h hc.1), if_pos h, BitVec.add_comm]

lemma symbolAddress_of_zero (h : info.symbolValue = 0) :
    symbolAddress base info resolver = if info.symbolName = "" then 0 else lookup resolver info.symbolName := by
  by_cases hn : info.symbolName = ""
  · rw [symbolAddress, if_neg (fun hc => hc.2.1 hn), if_neg (not_not.2 h), if_pos hn, h]
  · cases resolver with
    | none => rw [symbolAddress, if_neg (by simp), if_neg (not_not.2 h), if_neg hn, h, lookup]
    | some f => rw [symbolAddress, if_pos ⟨h, hn, rfl⟩, if_neg hn]

/-- A symbol gets its address just when it is not taken for an import, or is found as one. -/
lemma symbolAddress_iff :
    symbolAddress base info resolver = base + info.symbolValue ↔ info.symbolValue ≠ 0 ∨
      (if info.symbolName = "" then 0 else lookup resolver info.symbolName) = base := by
  by_cases h : info.symbolValue = 0
  · have h0 : base + 0 = base := by bv_omega
    rw [symbolAddress_of_zero h, h, h0]
    exact ⟨.inr, fun hor => hor.resolve_left (not_not.2 rfl)⟩
  · exact iff_of_true (symbolAddress_of_ne h) (.inl h)

lemma loadAddress_eq_iff {binary : Binary} {v : Word} :
    base + v = binary.loadAddress base v ↔ binary.getMinVaddr = 0 := by
  unfold Binary.loadAddress
  bv_omega

lemma action_relative (hq : r.memory.qemuReady = true) (hread : r.env.read = .ok)
    (ht : relocType r.reloc.type = .relative) : a.action r = .store (a.base + r.reloc.address)
      (a.base + if r.reloc.addend = 0 then readWord r.memory.guest (a.base + r.reloc.address)
        else r.reloc.addend) := by
  have hword : readMemory r.memory r.env.read (a.base + r.reloc.address) =
      some (readWord r.memory.guest (a.base + r.reloc.address)) := by
    simp only [readMemory, MemoryManager.read, hq, hread, and_self, if_true, Option.map_some, readWord_window]
  have hact : a.action r = applyRelative r.memory r.env.read (a.base + r.reloc.address) a.base r.reloc.addend := by
    simp only [action, relocationAction, Relocation.info, ht]
  rw [hact, applyRelative, hword]
  split_ifs <;> rfl

lemma action_abs64 (ht : relocType r.reloc.type = .abs64) : a.action r =
    if symbolAddress a.base r.reloc.info a.resolver = 0 ∧ r.reloc.info.symbolName ≠ "" then .fail
    else .store (a.base + r.reloc.address) (symbolAddress a.base r.reloc.info a.resolver + r.reloc.addend) := by
  have ht' : relocType r.reloc.info.type = .abs64 := ht
  simp only [action, relocationAction, ht']
  split_ifs <;> rfl

lemma action_slot (ht : relocType r.reloc.type = .globDat ∨ relocType r.reloc.type = .jumpSlot) : a.action r =
    .store (a.base + r.reloc.address) (symbolAddress a.base r.reloc.info a.resolver + r.reloc.addend) := by
  have ht' : relocType r.reloc.info.type = .globDat ∨ relocType r.reloc.info.type = .jumpSlot := ht
  rcases ht' with ht' | ht' <;> simp only [action, relocationAction, ht'] <;> rfl

/-- A store in the slot is biased just when the module is linked at zero and the value is the right one. -/
lemma biased_iff_of_store {value : Word} (hact : a.action r = .store (a.base + r.reloc.address) value) :
    a.Biased r ↔ a.binary.getMinVaddr = 0 ∧ value = a.base + (a.reference r).1 + (a.reference r).2 := by
  rw [Biased, hact, Action.store.injEq, loadAddress_eq_iff]
  refine and_congr_right fun h0 => ?_
  rw [← loadAddress_eq_iff.2 h0]

lemma biased_relative (hq : r.memory.qemuReady = true) (hread : r.env.read = .ok)
    (ht : relocType r.reloc.type = .relative) : a.Biased r ↔ a.Plain r := by
  have hval : a.binary.getMinVaddr = 0 →
      (a.base + (if r.reloc.addend = 0 then readWord r.memory.guest (a.base + r.reloc.address) else r.reloc.addend) =
        a.base + (a.reference r).1 + (a.reference r).2 ↔
      r.reloc.packed ∨ r.reloc.addend ≠ 0 ∨ readWord r.memory.guest (a.base + r.reloc.address) = 0) := by
    intro h0
    rw [reference, if_pos ht, ← loadAddress_eq_iff.2 h0]
    cases hp : r.reloc.packed with
    | true =>
      rw [if_pos (r.reloc.packed_addend hp)]
      simp
    | false =>
      by_cases hadd : r.reloc.addend = 0
      · rw [if_pos hadd, hadd]
        simp only [Bool.false_eq_true, if_false, false_or, not_true_eq_false, ne_eq]
        bv_omega
      · rw [if_neg hadd]
        refine iff_of_true ?_ (.inr (.inl hadd))
        simp only [Bool.false_eq_true, if_false]
        bv_omega
  rw [biased_iff_of_store (action_relative hq hread ht)]
  constructor
  · rintro ⟨h0, hv⟩
    refine ⟨h0, fun _ => (hval h0).1 hv, fun hne => absurd ht hne, fun h64 => ?_⟩
    rw [ht] at h64
    cases h64
  · exact fun h => ⟨h.linkedAtZero, (hval h.linkedAtZero).2 (h.addend ht)⟩

lemma biased_symbol (ht : relocType r.reloc.type = .abs64 ∨ relocType r.reloc.type = .globDat ∨
    relocType r.reloc.type = .jumpSlot) : a.Biased r ↔ a.Plain r := by
  have hrel : relocType r.reloc.type ≠ .relative := by
    intro h
    simp [h] at ht
  have hval : symbolAddress a.base r.reloc.info a.resolver + r.reloc.addend =
      a.base + (a.reference r).1 + (a.reference r).2 ↔
      symbolAddress a.base r.reloc.info a.resolver = a.base + r.reloc.info.symbolValue := by
    rw [reference, if_neg hrel]
    bv_omega
  by_cases h64 : relocType r.reloc.type = .abs64
  · by_cases hun : symbolAddress a.base r.reloc.info a.resolver = 0 ∧ r.reloc.info.symbolName ≠ ""
    · have hno : ¬ a.Biased r := by
        rw [Biased, action_abs64 h64, if_pos hun]
        exact Action.noConfusion
      refine iff_of_false hno fun hp => ?_
      have haddr := symbolAddress_iff.2 (hp.symbol hrel)
      exact (hp.abs64 h64).elim hun.2 fun hne => hne (haddr ▸ hun.1)
    · rw [biased_iff_of_store ((action_abs64 h64).trans (if_neg hun)), hval, symbolAddress_iff]
      refine ⟨fun ⟨h0, hs⟩ => ⟨h0, fun h => absurd h hrel, fun _ => hs, fun _ => ?_⟩,
        fun hp => ⟨hp.linkedAtZero, hp.symbol hrel⟩⟩
      rw [← symbolAddress_iff.2 hs]
      exact or_iff_not_imp_left.2 fun hn h0 => hun ⟨h0, hn⟩
  · rw [biased_iff_of_store (action_slot (ht.resolve_left h64)), hval, symbolAddress_iff]
    exact ⟨fun ⟨h0, hs⟩ => ⟨h0, fun h => absurd h hrel, fun _ => hs, fun h => absurd h h64⟩,
      fun hp => ⟨hp.linkedAtZero, hp.symbol hrel⟩⟩

/-- **One relocation.** -/
theorem biased_iff (hq : r.memory.qemuReady = true) (hread : r.env.read = .ok) (hin : r.reloc.Inner) :
    a.Biased r ↔ a.Plain r := by
  rcases hin with ht | ⟨ht, -⟩
  · exact biased_relative hq hread ht
  · exact biased_symbol ht

lemma run_qemuReady {outcome : Outcome} {action : Action} (hq : memory.qemuReady = true) :
    (action.run memory outcome).1.qemuReady = true := by
  cases action with
  | skip | fail => exact hq
  | store address value => exact MemoryManager.write_sameShape.ready.trans hq

lemma roundsFrom_spec {i : ℕ} {relocs : List Relocation} (hq : memory.qemuReady = true)
    (hr : r ∈ a.roundsFrom i relocs memory) :
    r.memory.qemuReady = true ∧ (∃ j, r.env = a.env j) ∧ r.reloc ∈ relocs := by
  induction relocs generalizing i memory with
  | nil => cases hr
  | cons reloc rest ih =>
    rcases mem_cons.1 hr with rfl | hr
    · exact ⟨hq, ⟨i, rfl⟩, mem_cons_self⟩
    · obtain ⟨h1, h2, h3⟩ := ih (run_qemuReady hq) hr
      exact ⟨h1, h2, mem_cons_of_mem _ h3⟩

end Attempt

/-- **Relocations and the load bias.** QEMU runs, and every slot can be read. The relocations for addresses of the
module itself follow what the loader maps just when each is plain. -/
theorem relocations_biased_iff (a : Attempt) (hq : a.memory.qemuReady = true) (hread : ∀ i, (a.env i).read = .ok)
    (hin : ∀ reloc ∈ a.binary.relocations, reloc.Inner) : a.AllBiased ↔ ∀ r ∈ a.rounds, a.Plain r := by
  refine forall₂_congr fun r hr => ?_
  obtain ⟨hqr, ⟨j, hj⟩, hmem⟩ := Attempt.roundsFrom_spec hq hr
  exact Attempt.biased_iff hqr (hj ▸ hread j) (hin _ hmem)

/-- A module linked at `start`, with a relative relocation and one for a symbol. -/
def linkedAt (start : Word) : Attempt where
  binary := ⟨[⟨true, start, 0x1000, 0, []⟩], [], [],
    [⟨start, 1027, start + 0x10, none, false, 0, Bool.noConfusion⟩,
      ⟨start + 8, 1025, 0, some ⟨"f", start + 0x20, false⟩, false, 0, Bool.noConfusion⟩], (0, 0)⟩
  base := codeBase
  resolver := none
  memory := runningMemory
  env _ := ⟨.ok, .ok⟩

lemma inner_linkedAt (start : Word) : ∀ reloc ∈ (linkedAt start).binary.relocations, reloc.Inner := by
  intro reloc hr
  rcases mem_cons.1 hr with rfl | hr
  · have ht : relocType 1027 = .relative := by decide
    exact .inl ht
  · obtain rfl := mem_singleton.1 hr
    have ht : relocType 1025 = .globDat := by decide
    exact .inr ⟨.inr (.inl ht), _, rfl, rfl⟩

theorem relocations_biased_iff_at_zero : (linkedAt 0).AllBiased := by
  refine (relocations_biased_iff (linkedAt 0) rfl (fun _ => rfl) (inner_linkedAt 0)).2 ?_
  intro r hr
  rcases mem_cons.1 hr with rfl | hr
  · exact ⟨by decide, fun _ => .inr (.inl (by decide)), fun h => absurd rfl h, nofun⟩
  · obtain rfl := mem_singleton.1 hr
    exact ⟨by decide, nofun, fun _ => .inl (by decide), nofun⟩

/-- **The load bias is ignored.** A module linked at `0x1000` gets its slots written a page too high. -/
theorem bias_ignored : ¬ ∀ a : Attempt, a.memory.qemuReady = true → (∀ i, (a.env i).read = .ok) →
    (∀ reloc ∈ a.binary.relocations, reloc.Inner) → a.AllBiased := by
  intro h
  have hb := h (linkedAt 0x1000) rfl (fun _ => rfl) (inner_linkedAt 0x1000) _ mem_cons_self
  revert hb
  unfold Attempt.Biased
  decide

end CrossShim.Loader
