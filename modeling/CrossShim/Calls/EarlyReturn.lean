import CrossShim.Calls.RunLoop
import CrossShim.Loader.Modules

/-!
# Early returns in loaded modules

`libafl_qemu_run` may return early, without a crash.  The loop of `Emulator::start` runs on if the PC is in the code
region, which ends at `codeBase + codeSize`; `load_module_locked` puts modules anywhere up to the heap.
-/

namespace CrossShim.Calls

open Lib Loader ModuleState

/-! ### Where modules are -/

/-- The modules lie between the start of the code region and the heap, and so will the next one. -/
structure Between (s : ModuleState) : Prop where
  next : codeBase.toNat ≤ s.nextLoadAddr.toNat
  modules : ∀ m ∈ s.modules, codeBase.toNat ≤ m.baseAddress.toNat ∧
    m.baseAddress.toNat + m.size.toNat < heapBase.toNat

/-- The loads of an emulator, after those of its start. -/
def loads : System ModuleState LoadCall := .ofStep Between fun s c => some (s.loadModuleLocked c).state

/-- With variables for the fields, so that no check of a state computes the next address. -/
lemma between_mk {modules : List LoadedModule} {capacity : ℕ} {next : Word} {relocator : RelocationHandler}
    (hnext : codeBase.toNat ≤ next.toNat)
    (hm : ∀ m ∈ modules, codeBase.toNat ≤ m.baseAddress.toNat ∧ m.baseAddress.toNat + m.size.toNat < heapBase.toNat) :
    Between ⟨modules, capacity, next, relocator⟩ := ⟨hnext, hm⟩

lemma Between.load {s : ModuleState} (h : Between s) (c : LoadCall) : Between (s.loadModuleLocked c).state := by
  apply loadModuleLocked_cases (P := fun r => Between r.state)
  · exact h
  · exact fun _ _ _ _ _ => h
  · intro binary l module _ hrej _ _ hbase hsize
    rw [← hsize] at hrej
    have hspan := (not_rejects hrej).2
    have hnext := h.next.trans ((Nat.le_add_right _ _).trans (next_spec hrej hbase).2.1)
    unfold finishLoad
    simp only
    split_ifs
    · refine between_mk hnext (List.forall_mem_append.2 ⟨h.modules, List.forall_mem_singleton.2 ?_⟩)
      rw [hbase]
      exact ⟨h.next, hspan⟩
    · exact between_mk hnext h.modules

lemma reachable_between {s : ModuleState} (hs : loads.Reachable s) : Between s := by
  refine hs.invariant (fun _ h => h) ?_
  rintro s c _ h - ⟨⟩
  exact h.load c

/-! ### The turn of the loop -/

/-- The loop goes on: with the next run, or with the handler at the PC. -/
def Continues (base : Word) (st : Stop) (t : ThreadState) : Prop :=
  ∀ rest, ∃ p, (Trace.returned st rest).loop base .running t = rest.loop base p t

lemma continues_iff {base : Word} {st : Stop} {t : ThreadState} (hrun : t.running = true)
    (hhit : t.callReturnHit = .no) : Continues base st t ↔ ∀ ending, st.verdict callReturnStub ≠ .leave ending := by
  unfold Continues
  simp only [Trace.loop, hhit, Hit.ending, hrun, if_true]
  cases st.verdict callReturnStub with
  | leave ending =>
    refine iff_of_false (fun h => ?_) fun h => h ending rfl
    obtain ⟨p, hp⟩ := h .throws
    cases hp
  | again | handle => exact iff_of_true (fun _ => ⟨_, rfl⟩) (by rintro _ ⟨⟩)

/-- **An early return in a module** that is no crash: the call goes on exactly if the vCPU is another one, if a handler
is registered at the PC, or if the PC is in the code region. -/
theorem early_return_continues_iff {s : ModuleState} (hs : loads.Reachable s) {m : LoadedModule} (hm : m ∈ s.modules)
    {base : Word} {st : Stop} {t : ThreadState} (hrun : t.running = true) (hhit : t.callReturnHit = .no)
    (hfailed : st.failed = true) (hcrash : st.crash = false) (hlow : m.baseAddress ≤ st.pc)
    (hhigh : st.pc < m.baseAddress + m.size) :
    Continues base st t ↔ (st.sameCpu = true → st.registered = false → st.pc < codeBase + codeSize) := by
  obtain ⟨hcode, hheap⟩ := (reachable_between hs).modules m hm
  have hlo : codeBase.toNat ≤ st.pc.toNat := hcode.trans (BitVec.le_def.1 hlow)
  have hhi : st.pc.toNat < heapBase.toNat := by
    have hend : (m.baseAddress + m.size).toNat ≤ m.baseAddress.toNat + m.size.toNat := by
      rw [BitVec.toNat_add]
      exact Nat.mod_le _ _
    exact (BitVec.lt_def.1 hhigh).trans_le hend |>.trans hheap
  have h0 : st.pc ≠ 0 := by bv_omega
  have hstub : st.pc ≠ callReturnStub := by bv_omega
  have hhle : ¬ (st.pc ≥ hleBase ∧ st.pc < hleBase + hleSize) := by bv_omega
  have hbase : st.pc ≥ codeBase := by bv_omega
  have hstack : ¬ (st.pc ≥ 0x7F800000 ∧ st.pc < 0x80000000) := by bv_omega
  rw [continues_iff hrun hhit]
  simp only [Stop.verdict, h0, hstub, hhle, hstack, hfailed, hcrash, hbase, and_false, true_and, if_true, if_false,
    Bool.false_eq_true]
  split_ifs with hcpu hreg hpc
  · exact iff_of_true nofun fun h => by simp [h] at hcpu
  · exact iff_of_true nofun fun _ h => by simp [h] at hreg
  · exact iff_of_true nofun fun _ _ => hpc
  · exact iff_of_false (fun h => h _ rfl) fun h => hpc (h (by simpa using hcpu) (by simpa using hreg))

/-- A library whose last page begins 256 MB behind its start. -/
def large : Binary := ⟨[⟨true, 0, 0x1000, 0, []⟩, ⟨true, 0x10000000, 0x1000, 0, []⟩], [], [], [], (0, 0)⟩

lemma reachable_large : loads.Reachable (Arena.empty.state.loadModuleLocked (Arena.goodCall large)).state :=
  .step (.init ⟨le_rfl, fun _ hm => absurd hm List.not_mem_nil⟩) trivial rfl

lemma modules_large : ∃ m ∈ (Arena.empty.state.loadModuleLocked (Arena.goodCall large)).state.modules,
    m.baseAddress = codeBase ∧ m.size = 0x10001000 := by
  decide

theorem early_return_continues_at_start : Continues 0 { pc := codeBase, failed := true } { running := true } := by
  obtain ⟨m, hm, hbase, hsize⟩ := modules_large
  refine (early_return_continues_iff reachable_large hm rfl rfl rfl rfl ?_ ?_).2 fun _ _ => by decide
  · rw [hbase]
  · rw [hbase, hsize]
    decide

/-- The return at the last page of the library ends the call. -/
theorem early_return_ends_call : ∃ s, loads.Reachable s ∧ ∃ m ∈ s.modules, m.baseAddress ≤ 0x50000000 ∧
    0x50000000 < m.baseAddress + m.size ∧ ¬ Continues 0 { pc := 0x50000000, failed := true } { running := true } := by
  obtain ⟨m, hm, hbase, hsize⟩ := modules_large
  refine ⟨_, reachable_large, m, hm, ?_, ?_, fun h => ?_⟩
  · rw [hbase]
    decide
  · rw [hbase, hsize]
    decide
  · exact (continues_iff rfl rfl).1 h .incomplete (by decide)

end CrossShim.Calls
