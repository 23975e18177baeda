import CrossShim.Threads.RegistryInv

/-!
# The stack a thread is told it has

A created thread can ask for the address and the size of its stack.  It is told the size it was created for, which
by default is eight times the region of the arena it runs on, so that the ranges of two threads overlap
(`default_stacks_overlap`), and reach below the regions that are mapped.

The ranges are mapped and disjoint in every orderly run in which no thread asks for more than a region, and in which
new regions are mapped (`reach_stackOk`): a region that could not be mapped goes to the free list like the others.
-/

namespace CrossShim.Threads

open Lib State List Arena Kind OrdMap

def QemuThread.Told (t : QemuThread) (x : Word) : Prop := x - t.guestStackAddr < t.reportedStackSize

/-- The registry, and the stack regions that have been mapped so far. -/
structure Mapping where
  state : State
  mapped : List Word

/-- What a step maps: a new region, once it is reserved. -/
def State.newlyMapped (s : State) : Event → List Word
  | .commitStack n mapOk =>
    match s.phase n with
    | .tookStack _ region false =>
      if mapOk ∧ (s.vmas.tryReserve (region + stack.offset) stack.vmas).isSome then [region] else []
    | _ => []
  | _ => []

def Mapping.step (m : Mapping) (e : Event) : Option Mapping :=
  (Threads.step m.state e).map fun s => ⟨s, m.state.newlyMapped e ++ m.mapped⟩

def mappingSystem : System Mapping Event := .ofStep (· = ⟨.init, []⟩) Mapping.step

/-- The range of a live thread is mapped, and disjoint from that of every other one. -/
def StackOk (m : Mapping) : Prop :=
  ∀ n t stackTop stackSize, (m.state.phase n).Live stackTop stackSize → m.state.threads.find? (tid n) = some t →
    (∀ x, t.Told x → ∃ region ∈ m.mapped, x - region < stack.size) ∧
    ∀ n' t' stackTop' stackSize', n' ≠ n → (m.state.phase n').Live stackTop' stackSize' →
      m.state.threads.find? (tid n') = some t' → ∀ x, t.Told x → ¬ t'.Told x

/-- Two threads with the default attributes. -/
theorem default_stacks_overlap : ∃ m, mappingSystem.Reachable m ∧ (m.state.phase 0x1000).Live 0x900FFF00 0x100000 ∧
    (m.state.phase 0x1001).Live 0x901FFF00 0x100000 ∧ ¬ StackOk m := by
  have hrun : (created 0x1000 ++ created 0x1001).foldlM Mapping.step ⟨.init, []⟩ = some _ := rfl
  refine ⟨_, System.Reachable.foldlM (.init rfl) hrun, .inr rfl, .inr rfl, fun hok => ?_⟩
  have hboth := (hok 0x1000 _ _ _ (.inr rfl) rfl).2 0x1001 _ _ _ (by decide) (.inr rfl) rfl
  exact hboth 0x90000000 (show (0x90000000 - 0x8f900000 : Word) < 0x800000 by decide)
    (show (0x90000000 - 0x8fa00000 : Word) < 0x800000 by decide)

/-! ### What a step does to the stacks -/

/-- The region of a creation under way that has been mapped: not a new one that is not committed yet. -/
def Phase.mappedStack : Phase → Option Word
  | .tookStack _ region true => some region
  | .stacked _ stackTop => some (stackTop - stack.offset)
  | .tookTls _ stackTop _ _ => some (stackTop - stack.offset)
  | .ready _ stackTop _ => some (stackTop - stack.offset)
  | _ => none

structure QemuThread.SameStack (t t' : QemuThread) : Prop where
  stackBase : t'.stackBase = t.stackBase
  reportedStackSize : t'.reportedStackSize = t.reportedStackSize
  guestStackAddr : t'.guestStackAddr = t.guestStackAddr

/-- Where an entry comes from: it was there, is of a thread never started, or was just registered. -/
def State.EntryFrom (s : State) (id : Word) (t' : QemuThread) : Prop :=
  (∃ t, s.threads.find? id = some t ∧ t.SameStack t') ∨ t'.stackBase = 0 ∨
    ∃ n attr stackTop tlsBase, s.phase n = .ready attr stackTop tlsBase ∧ t' = State.entry attr stackTop tlsBase

/-- Where a free region comes from: it was free, a creation gives it back, or an entry is removed. -/
def State.FreeFrom (s : State) (r : Word) : Prop :=
  r ∈ (s.arena .stack).free ∨ (∃ n, (s.phase n).mappedStack = some r) ∨
    ∃ id t, s.threads.find? id = some t ∧ t.stackBase ≠ 0 ∧ r = t.stackBase - stack.offset

/-- The entries and the free regions of `s'` come from `s`. -/
structure State.From (s s' : State) : Prop where
  entries : ∀ id u, s'.threads.find? id = some u → s.EntryFrom id u
  free : ∀ r ∈ (s'.arena .stack).free, s.FreeFrom r

section Steps

variable {s s' s₁ : State} {n : ℕ} {id r address region : Word} {t t' : QemuThread} {k : Kind} {a : Arena} {v : Vmas}
  {recycled mapOk : Bool}

lemma QemuThread.SameStack.refl (t : QemuThread) : t.SameStack t := ⟨rfl, rfl, rfl⟩

lemma reported_sameStack (t : QemuThread) (retval : Word) : t.SameStack (t.reported retval) := by
  unfold QemuThread.reported
  split
  · exact .refl t
  · exact ⟨rfl, rfl, rfl⟩

lemma mem_recycle (h : r ∈ (a.recycle k address).free) : r ∈ a.free ∨ (address ≠ 0 ∧ r = address - k.offset) := by
  simp only [Arena.recycle] at h
  split at h
  case isTrue hc =>
    obtain rfl | h := mem_cons.1 h
    · exact .inr ⟨hc.1, rfl⟩
    · exact .inl h
  case isFalse => exact .inl h

lemma State.EntryFrom.old (h : s.threads.find? id = some t) : s.EntryFrom id t := .inl ⟨t, h, .refl t⟩

lemma State.From.keep (ht : s'.threads = s.threads) (ha : s'.arena .stack = s.arena .stack) : s.From s' := by
  refine ⟨fun id u hu => ?_, fun r hr => ?_⟩
  · rw [ht] at hu
    exact .old hu
  · rw [ha] at hr
    exact .inl hr

lemma State.From.insert {u : QemuThread} (hthreads : s'.threads = s.threads.insert id u)
    (ha : s'.arena .stack = s.arena .stack) (hu : s.EntryFrom id u) : s.From s' := by
  refine ⟨fun id' u' hu' => ?_, fun r hr => .inl (ha ▸ hr)⟩
  rw [hthreads] at hu'
  obtain ⟨rfl, rfl⟩ | ⟨-, hu'⟩ := find?_insert_eq_some.1 hu'
  · exact hu
  · exact .old hu'

lemma reclaim_from (ht : s.threads.find? id = some t) : s.From ({ s with vmas := v }.reclaim id t) := by
  refine ⟨fun id' u hu => .old (find?_erase_eq_some.1 hu).2, fun r hr => ?_⟩
  obtain hr | ⟨h0, rfl⟩ := mem_recycle hr
  · exact .inl hr
  · exact .inr (.inr ⟨id, t, ht, h0, rfl⟩)

lemma notify_from (order : List Word) (sp retval : Word) (finalize : Bool) :
    s.From (s.notifyThreadExit order sp retval finalize) := by
  obtain h | ⟨id, t, ht, -, ⟨-, h⟩ | ⟨-, -, v, h⟩ | ⟨-, -, v, h⟩⟩ := s.notifyThreadExit_cases order sp retval finalize
  · rw [h]
    exact .keep rfl rfl
  · rw [h]
    exact .insert rfl rfl (.inl ⟨t, ht, reported_sameStack t retval⟩)
  · rw [h]
    exact reclaim_from ht
  · rw [h]
    have hsame : t.SameStack { t.reported retval with completed := true } :=
      ⟨(reported_sameStack t retval).stackBase, (reported_sameStack t retval).reportedStackSize,
        (reported_sameStack t retval).guestStackAddr⟩
    exact .insert rfl rfl (.inl ⟨t, ht, hsame⟩)

lemma failTls_from {attr : Attr} {stackTop : Word} (ht : s'.threads = s.threads)
    (ha : s'.arena .stack = s.arena .stack) (hp : (s.phase n).mappedStack = some (stackTop - stack.offset)) :
    s.From (s'.failTls n attr stackTop) := by
  refine ⟨fun id u hu => ?_, fun r hr => ?_⟩
  · rw [failTls_threads, ht] at hu
    exact .old hu
  · unfold State.failTls at hr
    split at hr
    case isTrue =>
      obtain hr | ⟨-, rfl⟩ := mem_recycle hr
      · exact .inl (ha ▸ hr)
      · exact .inr (.inl ⟨n, hp⟩)
    case isFalse => exact .inl (ha ▸ hr)

/-- A new region that could not be mapped is put on the free list. -/
def State.Unmapped (s : State) (e : Event) (r : Word) : Prop :=
  ∃ n attr, e = .commitStack n false ∧ s.phase n = .tookStack attr r false ∧
    (s.vmas.tryReserve (r + stack.offset) stack.vmas).isSome

/-- What `commit` leaves of a region: it is free again if it was recycled, or if it is new and reserved, but not mapped.
-/
lemma commit_free (hr : r ∈ (a.commit k v region recycled mapOk).1.free) :
    r ∈ a.free ∨ (r = region ∧ (recycled = true ∨
      (recycled = false ∧ mapOk = false ∧ (v.tryReserve (region + k.offset) k.vmas).isSome))) := by
  simp only [Arena.commit] at hr
  cases hv : v.tryReserve (region + k.offset) k.vmas with
  | none =>
    rw [hv] at hr
    cases recycled with
    | false => exact .inl hr
    | true =>
      obtain rfl | hr := mem_cons.1 hr
      · exact .inr ⟨rfl, .inl rfl⟩
      · exact .inl hr
  | some v' =>
    rw [hv] at hr
    cases recycled with
    | true => exact .inl hr
    | false =>
      cases mapOk with
      | true => exact .inl hr
      | false =>
        obtain rfl | hr := mem_cons.1 hr
        · exact .inr ⟨rfl, .inr ⟨rfl, rfl, rfl⟩⟩
        · exact .inl hr

lemma commit_mapped (h : (a.commit k v region recycled mapOk).2.2 = some address) :
    address = region + k.offset ∧ (v.tryReserve (region + k.offset) k.vmas).isSome ∧
      (recycled = true ∨ mapOk = true) := by
  simp only [Arena.commit] at h
  cases hv : v.tryReserve (region + k.offset) k.vmas with
  | none =>
    rw [hv] at h
    cases h
  | some v' =>
    rw [hv] at h
    cases recycled with
    | true =>
      cases h
      exact ⟨rfl, rfl, .inl rfl⟩
    | false =>
      cases mapOk with
      | true =>
        cases h
        exact ⟨rfl, rfl, .inr rfl⟩
      | false => cases h

lemma take_from {p : Phase} (ht : (s.arena .stack).take .stack = some ((region, recycled), a)) :
    s.From ((s.setArena .stack a).goto n p) := by
  refine ⟨fun id u hu => .old hu, fun r hr => .inl ?_⟩
  obtain ⟨-, hfree, -⟩ | ⟨-, -, -, -, rfl⟩ := take_cases ht
  · rw [hfree]
    exact mem_cons_of_mem _ hr
  · cases hr

/-- **Where the entries and the free regions come from**, in every step. -/
theorem step_from {e : Event} (h : step s e = some s') :
    (∀ id u, s'.threads.find? id = some u → s.EntryFrom id u) ∧
      ∀ r ∈ (s'.arena .stack).free, s.FreeFrom r ∨ s.Unmapped e r := by
  have hfrom {s' : State} (hs : s.From s') : (∀ id u, s'.threads.find? id = some u → s.EntryFrom id u) ∧
      ∀ r ∈ (s'.arena .stack).free, s.FreeFrom r ∨ s.Unmapped e r :=
    ⟨hs.entries, fun r hr => .inl (hs.free r hr)⟩
  cases steps_of_step h with
  | unstarted => exact hfrom (.insert rfl rfl (.inr (.inl rfl)))
  | tookStack hp h0 ht => exact hfrom (take_from ht)
  | @unstacked n _ attr _ _ _ _ hp hr =>
    refine ⟨fun id u hu => .old hu, fun r hmem => ?_⟩
    obtain hmem | ⟨rfl, rfl | ⟨rfl, rfl, hv⟩⟩ := commit_free (by rw [hr]; exact hmem)
    · exact .inl (.inl hmem)
    · exact .inl (.inr (.inl ⟨n, by rw [hp]; rfl⟩))
    · exact .inr ⟨n, attr, rfl, hp, hv⟩
  | noTls hp | unready hp => exact hfrom (failTls_from rfl rfl (by rw [hp]; rfl))
  | registered hp => exact hfrom (.insert rfl rfl (.inr (.inr ⟨_, _, _, _, hp, rfl⟩)))
  | reported => exact hfrom (notify_from ..)
  | @exited n order sp _ _ retval =>
    obtain ⟨hentries, hfree⟩ := notify_from (s := s) order sp retval true
    exact hfrom ⟨hentries, hfree⟩
  | joining _ ht | detached ht => exact hfrom (.insert rfl rfl (.inl ⟨_, ht, rfl, rfl, rfl⟩))
  | joined ht | reclaimed ht => exact hfrom (reclaim_from ht (v := s.vmas))
  | _ => exact hfrom (.keep rfl rfl)

end Steps

/-! ### Runs -/

/-- The condition on a step, besides that it is orderly: a thread asks for no more than a region, and a new region
that is reserved can be mapped. -/
def Fitting (m : Mapping) (e : Event) : Prop :=
  Orderly m.state e ∧ match e with
    | .takeStack n => ∀ attr, m.state.phase n = .begun attr → attr.stackSize ≤ stack.size
    | .commitStack n mapOk => ∀ attr region, m.state.phase n = .tookStack attr region false →
        (m.state.vmas.tryReserve (region + stack.offset) stack.vmas).isSome → mapOk = true
    | _ => True

instance (p : Phase) (P : Attr → Word → Prop) [∀ attr region, Decidable (P attr region)] :
    Decidable (∀ attr region, p = .tookStack attr region false → P attr region) := by
  rcases p
  case tookStack attr region recycled =>
    rcases recycled
    · exact decidable_of_iff (P attr region) ⟨fun h _ _ he => by cases he; exact h, fun h => h _ _ rfl⟩
    · exact isTrue fun _ _ he => by cases he
  all_goals exact isTrue fun _ _ he => by cases he

instance : DecidableRel Fitting := fun m e => by
  rcases e <;> dsimp only [Fitting] <;> infer_instance

structure MappingInv (m : Mapping) : Prop where
  reg : RegInv True m.state
  free : ∀ r ∈ (m.state.arena .stack).free, r ∈ m.mapped
  under : ∀ n r, (m.state.phase n).mappedStack = some r → r ∈ m.mapped
  size : ∀ n attr, (m.state.phase n).attr? = some attr → attr.stackSize ≤ stack.size
  entry : ∀ id t, m.state.threads.find? id = some t → t.stackBase ≠ 0 →
    t.stackBase - stack.offset ∈ m.mapped ∧ t.reportedStackSize ≤ stack.size ∧
      t.guestStackAddr = t.stackBase + 0x100 - t.reportedStackSize

section Runs

variable {m m' : Mapping} {e : Event}

lemma mappingInv_init : MappingInv ⟨.init, []⟩ := by
  refine ⟨regInv_init, ?_, ?_, ?_, ?_⟩
  · nofun
  · nofun
  · nofun
  · nofun

/-- The thread that a step moves has a mapped stack, and asks for no more than a region. -/
lemma MappingInv.moves {s' : State} {n : ℕ} {p : Phase} (hi : MappingInv m) (hc : Fitting m e)
    (h : step m.state e = some s') (hself : s'.phase n = p) (hm : Moves m.state e n p) :
    (∀ r, p.mappedStack = some r → r ∈ m.state.newlyMapped e ++ m.mapped) ∧
      ∀ attr, p.attr? = some attr → attr.stackSize ≤ stack.size := by
  have hold {r : Word} (hr : r ∈ m.mapped) : r ∈ m.state.newlyMapped e ++ m.mapped := mem_append_right _ hr
  cases hm with
  | callerStack hp hne => exact absurd (hc.1 _ hp) hne
  | tookStack hp h0 ht =>
    refine ⟨fun r hr => ?_, fun attr hattr => ?_⟩
    · obtain ⟨rfl, hfree, -⟩ | ⟨rfl, -⟩ := take_cases ht
      · cases hr
        refine hold (hi.free _ ?_)
        rw [hfree]
        exact mem_cons_self
      · cases hr
    · cases hattr
      exact hc.2 _ hp
  | @stacked _ attr region recycled mapOk hp =>
    refine ⟨fun r hr => ?_, fun attr hattr => hi.size n attr ?_⟩
    · have hsub : region + stack.offset - stack.offset = region := by bv_omega
      have hr : region = r := hsub.symm.trans (Option.some.inj hr)
      subst hr
      cases steps_of_step h with
      | unstacked => cases (Function.update_self ..).symm.trans hself
      | stacked hp' hcommit =>
        cases hp.symm.trans hp'
        -- the region was handed out, so it is recycled or has just been mapped
        obtain ⟨-, hv, hmap⟩ := commit_mapped (congrArg (·.2.2) hcommit)
        cases recycled with
        | true => exact hold (hi.under n region (by rw [hp]; rfl))
        | false =>
          obtain hmap | hmap := hmap
          · cases hmap
          · refine mem_append_left _ ?_
            simp only [State.newlyMapped, hp, hmap, hv, and_self, if_true, mem_singleton]
    · rw [hp]
      exact hattr
  | tookTls hp | ready hp =>
    refine ⟨fun r hr => hold (hi.under n r ?_), fun attr hattr => hi.size n attr ?_⟩
    · rw [hp]
      exact hr
    · rw [hp]
      exact hattr
  | _ => exact ⟨nofun, nofun⟩

theorem mappingInv_step (hi : MappingInv m) (hc : Fitting m e) (h : m.step e = some m') : MappingInv m' := by
  obtain ⟨s', hs, rfl⟩ := Option.map_eq_some_iff.1 h
  obtain ⟨hentry, hfree⟩ := step_from hs
  have hold {r : Word} (hr : r ∈ m.mapped) : r ∈ m.state.newlyMapped e ++ m.mapped := mem_append_right _ hr
  refine ⟨regInv_step hi.reg hc.1.separate (fun _ => hc.1) hs, fun r hr => ?_, fun n r hr => ?_,
    fun n attr hattr => ?_, fun id u hu h0 => ?_⟩
  · obtain (hr | ⟨n, hn⟩ | ⟨id, t, ht, h0, rfl⟩) | ⟨n, attr, rfl, hp, hv⟩ := hfree r hr
    · exact hold (hi.free r hr)
    · exact hold (hi.under n r hn)
    · exact hold (hi.entry id t ht h0).1
    · exact absurd (hc.2 attr r hp hv) nofun
  · obtain hn | ⟨p, hself, hm⟩ := step_phase hs n
    · exact hold (hi.under n r (hn ▸ hr))
    · exact (hi.moves hc hs hself hm).1 r (hself ▸ hr)
  · obtain hn | ⟨p, hself, hm⟩ := step_phase hs n
    · exact hi.size n attr (hn ▸ hattr)
    · exact (hi.moves hc hs hself hm).2 attr (hself ▸ hattr)
  · obtain ⟨t, ht, hsame⟩ | hz | ⟨n, attr, stackTop, tlsBase, hp, rfl⟩ := hentry id u hu
    · rw [hsame.stackBase, hsame.reportedStackSize, hsame.guestStackAddr]
      obtain ⟨hmem, hsize, haddr⟩ := hi.entry id t ht (hsame.stackBase ▸ h0)
      exact ⟨hold hmem, hsize, haddr⟩
    · exact absurd hz h0
    · have hcaller : attr.stackAddr = 0 := (hi.reg.attr trivial n attr (by rw [hp]; rfl)).1
      refine ⟨hold (hi.under n _ (by rw [hp]; rfl)), hi.size n attr (by rw [hp]; rfl), ?_⟩
      exact if_neg (not_not.2 hcaller)

lemma MappingInv.told_subset (hi : MappingInv m) {n : ℕ} {t : QemuThread} {stackTop stackSize x : Word}
    (hl : (m.state.phase n).Live stackTop stackSize) (ht : m.state.threads.find? (tid n) = some t) (hx : t.Told x) :
    m.state.Holds .stack n (t.stackBase - stack.offset) ∧ t.stackBase - stack.offset ∈ m.mapped ∧
      x - (t.stackBase - stack.offset) < stack.size := by
  obtain ⟨u, hu, -, -, hcomp⟩ := hi.reg.live trivial n stackTop stackSize hl
  cases ht.symm.trans hu
  obtain ⟨-, -, hc⟩ | ⟨hregion, -⟩ := hi.reg.shaped trivial _ _ ht
  · exact absurd (hc.symm.trans hcomp) nofun
  obtain ⟨r, hr⟩ := Option.ne_none_iff_exists'.1 hregion
  have hn := hi.reg.small n hl.ne_idle
  obtain ⟨hmem, hsize, haddr⟩ := hi.entry _ t ht (Option.ite_none_right_eq_some.1 hr).1.1
  refine ⟨⟨hn, .inr ⟨t, ht, Arena.eq_of_regionOf hr ▸ hr⟩⟩, hmem, ?_⟩
  unfold QemuThread.Told at hx
  rw [haddr] at hx
  simp only [Kind.size, Kind.offset] at *
  bv_omega

/-- **The ranges that threads are told** are mapped and disjoint, in every fitting run. -/
theorem reach_stackOk (h : mappingSystem.Reach Fitting m) : StackOk m := by
  have hi : MappingInv m := by
    refine h.invariant ?_ fun m e m' hi hc hs => mappingInv_step hi hc hs
    rintro m rfl
    exact mappingInv_init
  intro n t stackTop stackSize hl ht
  refine ⟨fun x hx => ?_, fun n' t' stackTop' stackSize' hne hl' ht' x hx hx' => ?_⟩
  · obtain ⟨-, hmem, hin⟩ := hi.told_subset hl ht hx
    exact ⟨_, hmem, hin⟩
  · obtain ⟨hholds, -, hin⟩ := hi.told_subset hl ht hx
    obtain ⟨hholds', -, hin'⟩ := hi.told_subset hl' ht' hx'
    obtain ⟨⟨i, hi1, hi2⟩, -⟩ := (hi.reg.arena .stack).held n _ hholds
    obtain ⟨⟨j, hj1, hj2⟩, -⟩ := (hi.reg.arena .stack).held n' _ hholds'
    -- one byte is in one region only
    have hsame : t'.stackBase - stack.offset = t.stackBase - stack.offset := by
      apply BitVec.eq_of_toNat_eq
      simp only [base, size, ceiling] at *
      have hij : i = j := by bv_omega
      rw [hi1, hj1, hij]
    rw [hsame] at hholds'
    exact hne ((hi.reg.arena .stack).unique n' n _ hholds' hholds)

end Runs

/-- Two threads with stacks of 64 KB. -/
theorem stackOk_two_threads : ∃ m, mappingSystem.Reach Fitting m ∧ (m.state.phase 0x1000).Live 0x900FFF00 0x100000 ∧
    (m.state.phase 0x1001).Live 0x901FFF00 0x100000 ∧ StackOk m := by
  have hrun : (((created 0x1000 ++ created 0x1001).map fun
      | .create _ => .create { startRoutine := 0x1000, stackSize := 0x10000 }
      | e => e).foldlM (System.checked Fitting Mapping.step) ⟨.init, []⟩).map
      (fun m => (m.state.phase 0x1000, m.state.phase 0x1001)) =
      some (.running 0x900FFF00 0x100000, .running 0x901FFF00 0x100000) := by
    decide +kernel
  obtain ⟨m, hs, heq⟩ := Option.map_eq_some_iff.1 hrun
  simp only [Prod.mk.injEq] at heq
  have hreach : mappingSystem.Reach Fitting m := System.Reach.foldlM _ (.init rfl) hs
  exact ⟨m, hreach, .inr heq.1, .inr heq.2, reach_stackOk hreach⟩

/-! ### Whose exit an address is -/

/-- Threads on stacks of the arena, each on a region of its own. -/
structure State.OnArena (s : State) : Prop where
  slot : ∀ e ∈ s.threads.entries,
    e.2.stackSize = stack.size ∧ ∃ i, Slot .stack (e.2.stackBase - stack.offset) i
  own : (s.threads.entries.map (·.2.stackBase)).Nodup

/-- An exit at `sp` is that of the thread on whose stack `sp` is, in every order of the registry. -/
structure State.Credits (s : State) (sp : Word) : Prop where
  one : ∀ id t id' t', s.threads.find? id = some t → s.threads.find? id' = some t' → t.exitRange sp = true →
    t'.exitRange sp = true → id = id'
  credited : ∀ id t order, s.threads.find? id = some t → InStack t.stackBase t.stackSize sp → s.Visits order →
    (order.find? fun id => (s.threads.find? id).any (·.exitRange sp)) = some id

/-- The stack of one thread ends at `sp`, and that of another one starts there. -/
def State.Border (s : State) (sp : Word) : Prop :=
  ∃ e ∈ s.threads.entries, ∃ e' ∈ s.threads.entries, sp = e.2.stackBase + 0x100 ∧
    sp = e'.2.stackBase - e'.2.stackSize + 0x100

section Credits

variable {s : State} {sp id id' : Word} {t t' : QemuThread}

lemma State.OnArena.index (ha : s.OnArena) (ht : (id, t) ∈ s.threads.entries) :
    t.stackSize = 0x100000 ∧ ∃ i, t.stackBase.toNat = 0x900FFF00 + i * 0x100000 ∧ i < 256 := by
  obtain ⟨hsize, i, h1, h2⟩ := ha.slot _ ht
  simp only [base, size, ceiling, offset] at *
  exact ⟨hsize, i, by bv_omega, by bv_omega⟩

/-- A stack pointer in two ranges is where one stack ends and the next one starts. -/
lemma State.OnArena.one (ha : s.OnArena) (hb : ¬ s.Border sp) (ht : (id, t) ∈ s.threads.entries)
    (ht' : (id', t') ∈ s.threads.entries) (hr : t.exitRange sp = true) (hr' : t'.exitRange sp = true) : id = id' := by
  obtain ⟨hsize, i, hi, hlt⟩ := ha.index ht
  obtain ⟨hsize', j, hj, hlt'⟩ := ha.index ht'
  have hborder : ¬ (sp = t.stackBase + 0x100 ∧ sp = t'.stackBase - t'.stackSize + 0x100) :=
    fun h => hb ⟨_, ht, _, ht', h⟩
  have hborder' : ¬ (sp = t'.stackBase + 0x100 ∧ sp = t.stackBase - t.stackSize + 0x100) :=
    fun h => hb ⟨_, ht', _, ht, h⟩
  rw [QemuThread.exitRange_iff] at hr hr'
  rw [hsize] at hr hborder'
  rw [hsize'] at hr' hborder
  have hij : i = j := by bv_omega
  have hbase : t.stackBase = t'.stackBase := by bv_omega
  exact congrArg Prod.fst (inj_on_of_nodup_map ha.own ht ht' hbase)

/-- **An exit is credited to the thread on whose stack it is reported**, in every registry of threads on the arena,
exactly if the stack pointer is not the border of two stacks. -/
theorem credits_iff (ha : s.OnArena) (sp : Word) : s.Credits sp ↔ ¬ s.Border sp := by
  constructor
  · rintro hc ⟨⟨id, t⟩, ht, ⟨id', t'⟩, ht', h, h'⟩
    obtain ⟨hsize, i, hi, hlt⟩ := ha.index ht
    obtain ⟨hsize', j, hj, hlt'⟩ := ha.index ht'
    have hr : t.exitRange sp = true := by
      rw [QemuThread.exitRange_iff, hsize]
      bv_omega
    have hr' : t'.exitRange sp = true := by
      rw [QemuThread.exitRange_iff, hsize']
      bv_omega
    obtain rfl := hc.one id t id' t' (find?_eq_some.2 ht) (find?_eq_some.2 ht') hr hr'
    cases key_unique ht ht'
    bv_omega
  · intro hb
    have hone {id t id' t'} (ht : s.threads.find? id = some t) (ht' : s.threads.find? id' = some t') :=
      ha.one hb (find?_eq_some.1 ht) (find?_eq_some.1 ht')
    refine ⟨fun _ _ _ _ => hone, fun id t order ht hin hv => ?_⟩
    have hr : t.exitRange sp = true := by
      obtain ⟨hsize, i, hi, hlt⟩ := ha.index (find?_eq_some.1 ht)
      rw [QemuThread.exitRange_iff, hsize]
      unfold InStack at hin
      bv_omega
    exact hv.credited ht hr fun id' t' ht' hr' => hone ht' ht hr' hr

end Credits

/-- Two threads, on the first two regions of the arena. -/
def twoThreads : State :=
  let t := State.entry ⟨false, 0, 0x800000⟩
  { State.init with threads := (empty.insert 0x1000 (t 0x900FFF00 0)).insert 0x1001 (t 0x901FFF00 0) }

lemma twoThreads_onArena : twoThreads.OnArena := by
  refine ⟨forall_mem_cons.2 ⟨⟨rfl, 0, ?_⟩, forall_mem_singleton.2 ⟨rfl, 1, ?_⟩⟩, by decide⟩
  · exact ⟨by decide, by decide⟩
  · exact ⟨by decide, by decide⟩

theorem credits_inside : twoThreads.Credits 0x90100010 :=
  (credits_iff twoThreads_onArena _).2 (by unfold State.Border; decide)

/-- The address is in the exit ranges of both threads. -/
theorem border_twice : twoThreads.OnArena ∧ ¬ twoThreads.Credits 0x90100000 := by
  refine ⟨twoThreads_onArena, fun h => ?_⟩
  exact absurd (h.one 0x1000 _ 0x1001 _ rfl rfl (by decide) (by decide)) (by decide)

end CrossShim.Threads
