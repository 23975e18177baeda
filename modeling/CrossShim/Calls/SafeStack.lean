import CrossShim.Layout
import CrossShim.Lib.Runs
import CrossShim.Lib.Span

/-!
# The stacks of safe calls

A nested call from an HLE handler (`call_function_safe`) runs on a chunk of the safe-call stack of its host
thread.  The chunk is chosen by the thread-local call depth in the region at the thread-local
`tl_safe_stack_base`: pool workers have a region each, all other threads share the one at
`SAFE_CALL_STACK_BASE`.

`safeLayout` is where `call_function_internal_impl` puts the frame of a call.  The host threads are a transition
system (`system`), and the chunks of calls that are active at the same time are disjoint in every run in which
no two threads of one region have a safe call at one depth (`reach_chunksDisjoint`).  Nothing in the code
prevents that for the threads that share a region (`guests_share_chunk`).
-/

namespace CrossShim.Calls

open Lib Function List BitVec

/-! ### The layout of one call -/

/-- The bytes of the arguments that go on the stack, rounded up to a multiple of 16. -/
def stackArgBytes (count : ℕ) : Word :=
  let raw : Word := if count > 8 then BitVec.ofNat 64 (count - 8) * 8 else 0
  if raw = 0 then 0 else alignUp raw 16

structure SafeLayout where
  targetSp : Word
  frameBase : Word
  chunkBase : Word
  deriving DecidableEq

/-- The layout of a safe call without a stack of its own, unless the stack or the chunk is exhausted. -/
def safeLayout (base : Word) (depth count : ℕ) : Option SafeLayout :=
  let stackOffset : Word := BitVec.ofNat 64 depth * safeCallStackChunk
  if stackOffset ≥ safeCallStackSize then none
  else
    let targetSp := base + safeCallStackSize - stackOffset - 0x100 - stackArgBytes count
    let frameBase := targetSp - safeCallContextSize
    let chunkBase := base + safeCallStackSize - stackOffset - safeCallStackChunk
    if frameBase < chunkBase + 0x100 then none else some ⟨targetSp, frameBase, chunkBase⟩

variable {depth workers : ℕ} {base : Word} {c c' : ThreadCalls} {t : HostThread} {s : HostThread → ThreadCalls}

lemma stackOffset_toNat (hd : depth < 2 ^ 31) :
    (BitVec.ofNat 64 depth * safeCallStackChunk).toNat = depth * 0x100000 := by
  have hc : safeCallStackChunk.toNat = 0x100000 := rfl
  rw [toNat_mul, toNat_ofNat, hc]
  omega

/-- Where the chunk of a depth starts, when the region of the thread ends inside the address space. -/
lemma safeLayout_chunkBase {count : ℕ} {l : SafeLayout} (hd : depth < 2 ^ 31) (hb : base.toNat + 0x800000 ≤ 2 ^ 64)
    (h : safeLayout base depth count = some l) :
    depth < 8 ∧ l.chunkBase.toNat + (depth + 1) * 0x100000 = base.toNat + 0x800000 := by
  have hoff := stackOffset_toNat hd
  simp only [safeLayout] at h
  generalize BitVec.ofNat 64 depth * safeCallStackChunk = off at *
  split at h
  · cases h
  · rename_i hlt
    have h8 : depth < 8 := by bv_omega
    split at h
    · cases h
    · obtain rfl := Option.some.inj h
      refine ⟨h8, ?_⟩
      bv_omega

/-! ### The host threads -/

/-- The host threads that run guest code. -/
inductive HostThread where
  | emulator
  | worker (id : ℕ)
  | guest (id : ℕ)
  deriving DecidableEq

/-- `tl_safe_stack_base`: set by `worker_vcpu_loop`, and the default on every other thread. -/
def safeStackBase : HostThread → Word
  | .worker id => safeCallStackBase + BitVec.ofNat 64 id * safeCallStackSize
  | .emulator => safeCallStackBase
  | .guest _ => safeCallStackBase

/-- The loop of `spawn_vcpu_workers`, with the number of workers spawned so far; `clones i` tells whether the
`i`-th clone made a vCPU. -/
def spawnFrom (clones : ℕ → Bool) : ℕ → ℕ → ℕ
  | 0, spawned => spawned
  | rest + 1, spawned =>
    let region := safeStackBase (.worker (spawned + 1))
    if region + safeCallStackSize > globalDataBase then spawned
    else if clones (spawned + 1) then spawnFrom clones rest (spawned + 1) else spawned

/-- How many workers `spawn_vcpu_workers` brings up when asked for `n`. -/
def spawnVcpuWorkers (clones : ℕ → Bool) (n : ℕ) : ℕ := spawnFrom clones n 0

lemma spawnFrom_le (clones : ℕ → Bool) : ∀ rest spawned, spawned ≤ 31 → spawnFrom clones rest spawned ≤ 31 := by
  intro rest
  induction rest with
  | zero => exact fun _ h => h
  | succ rest ih =>
    intro spawned h
    unfold spawnFrom
    by_cases hr : safeStackBase (.worker (spawned + 1)) + safeCallStackSize > globalDataBase
    · simp only [if_pos hr]
      exact h
    · simp only [if_neg hr]
      split
      · refine ih _ ?_
        by_contra hlt
        obtain rfl : spawned = 31 := by omega
        exact hr (by decide)
      · exact h

lemma spawnVcpuWorkers_le (clones : ℕ → Bool) (n : ℕ) : spawnVcpuWorkers clones n ≤ 31 :=
  spawnFrom_le clones n 0 (by omega)

/-! ### Calls as a system -/

/-- A guest call a thread is in, with its chunk if it is a safe call without a stack of its own. -/
structure ActiveCall where
  depth : ℕ
  chunk : Option Word
  deriving DecidableEq

/-- The calls of one thread: its `call_depth` and the calls it is in, innermost first. -/
structure ThreadCalls where
  callDepth : ℕ
  active : List ActiveCall
  deriving DecidableEq

inductive Event where
  | startSafe (count : ℕ)
  | startSafeOnStack
  | startPlain
  | finish
  | throw
  deriving DecidableEq

/-- A safe call with this layout; without one it returns at once. -/
def ThreadCalls.enterSafe (c : ThreadCalls) : Option SafeLayout → ThreadCalls
  | none => c
  | some l => ⟨c.callDepth + 1, ⟨c.callDepth + 1, some l.chunkBase⟩ :: c.active⟩

/-- One event on a thread.  A call that ends by an exception does not restore the depth. -/
def ThreadCalls.step (base : Word) (c : ThreadCalls) : Event → Option ThreadCalls
  | .startSafe count => some (c.enterSafe (safeLayout base (c.callDepth + 1) count))
  | .startSafeOnStack => some ⟨c.callDepth + 1, ⟨c.callDepth + 1, none⟩ :: c.active⟩
  | .startPlain => some ⟨c.callDepth + 1, ⟨c.callDepth + 1, none⟩ :: c.active⟩
  | .finish =>
    match c.active with
    | [] => none
    | _ :: rest => some ⟨c.callDepth - 1, rest⟩
  | .throw =>
    match c.active with
    | [] => none
    | _ :: rest => some ⟨c.callDepth, rest⟩

def Runs (workers : ℕ) : HostThread → Prop
  | .worker id => 1 ≤ id ∧ id ≤ workers
  | _ => True

/-- All interleavings of the events of all threads; `call_depth` is an `int`. -/
def system (workers : ℕ) : System (HostThread → ThreadCalls) (HostThread × Event) where
  init s := ∀ t, s t = ⟨0, []⟩
  step s e s' := Runs workers e.1 ∧ (s e.1).callDepth + 1 < 2 ^ 31 ∧
    ∃ c, (s e.1).step (safeStackBase e.1) e.2 = some c ∧ s' = update s e.1 c

/-! ### One thread -/

lemma ThreadCalls.step_cases {e : Event} (h : c.step base e = some c') :
    c' = c ∨
      c' = ⟨c.callDepth + 1, ⟨c.callDepth + 1, none⟩ :: c.active⟩ ∨
      (∃ count l, e = .startSafe count ∧ safeLayout base (c.callDepth + 1) count = some l ∧
        c' = ⟨c.callDepth + 1, ⟨c.callDepth + 1, some l.chunkBase⟩ :: c.active⟩) ∨
      ∃ x, c.active = x :: c'.active ∧ c.callDepth ≤ c'.callDepth + 1 := by
  cases e with
  | startSafe count =>
    cases h
    cases hl : safeLayout base (c.callDepth + 1) count with
    | none => exact .inl rfl
    | some l => exact .inr (.inr (.inl ⟨count, l, rfl, hl, rfl⟩))
  | startSafeOnStack | startPlain => exact .inr (.inl (Option.some.inj h).symm)
  | finish | throw =>
    unfold step at h
    cases ha : c.active with
    | nil =>
      rw [ha] at h
      cases h
    | cons x rest =>
      rw [ha] at h
      cases h
      exact .inr (.inr (.inr ⟨x, rfl, by simp only; omega⟩))

/-- The depths of the calls a thread is in fall from the innermost to the outermost, and a chunk is where its
depth says. -/
structure ThreadCalls.Inv (base : Word) (c : ThreadCalls) : Prop where
  sorted : c.active.Pairwise fun a b => b.depth < a.depth
  le : ∀ a ∈ c.active, a.depth ≤ c.callDepth
  chunk : ∀ a ∈ c.active, ∀ x, a.chunk = some x →
    a.depth < 8 ∧ x.toNat + (a.depth + 1) * 0x100000 = base.toNat + 0x800000

lemma ThreadCalls.Inv.push (hi : c.Inv base) {chunk : Option Word} (hc : ∀ x, chunk = some x →
      c.callDepth + 1 < 8 ∧ x.toNat + (c.callDepth + 1 + 1) * 0x100000 = base.toNat + 0x800000) :
    Inv base ⟨c.callDepth + 1, ⟨c.callDepth + 1, chunk⟩ :: c.active⟩ where
  sorted := pairwise_cons.2 ⟨fun a ha => Nat.lt_succ_of_le (hi.le a ha), hi.sorted⟩
  le := by
    rintro a (_ | ⟨_, ha⟩)
    · exact le_rfl
    · exact (hi.le a ha).trans (Nat.le_succ _)
  chunk := by
    rintro a (_ | ⟨_, ha⟩) x hx
    · exact hc x hx
    · exact hi.chunk a ha x hx

lemma ThreadCalls.Inv.pop (hi : c.Inv base) {x : ActiveCall} (ha : c.active = x :: c'.active)
    (hd : c.callDepth ≤ c'.callDepth + 1) : c'.Inv base := by
  have hs := hi.sorted
  rw [ha, pairwise_cons] at hs
  have hsub : ∀ a ∈ c'.active, a ∈ c.active := fun a h => by
    rw [ha]
    exact mem_cons_of_mem x h
  refine ⟨hs.2, fun a h => ?_, fun a h => hi.chunk a (hsub a h)⟩
  have h1 := hs.1 a h
  have h2 := hi.le x (by rw [ha]; exact mem_cons_self ..)
  omega

/-! ### All threads -/

/-- Which region of the safe-call stacks a thread has. -/
def HostThread.region : HostThread → ℕ
  | .worker id => id
  | _ => 0

lemma safeStackBase_toNat (h : t.region ≤ 31) : (safeStackBase t).toNat = 0xA0000000 + t.region * 0x800000 := by
  cases t with
  | worker id =>
    change id ≤ 31 at h
    show (safeCallStackBase + BitVec.ofNat 64 id * safeCallStackSize).toNat = 0xA0000000 + id * 0x800000
    have hb : safeCallStackBase.toNat = 0xA0000000 := rfl
    have hs : safeCallStackSize.toNat = 0x800000 := rfl
    rw [toNat_add, toNat_mul, toNat_ofNat, hb, hs]
    omega
  | emulator | guest id => simp [safeStackBase, HostThread.region]

lemma region_le (hw : workers ≤ 31) (h : Runs workers t) : t.region ≤ 31 := by
  cases t with
  | worker id => exact h.2.trans hw
  | emulator | guest id => exact Nat.zero_le _

/-- Every thread is in order, and two threads of one region have no safe calls at one depth. -/
structure Inv (workers : ℕ) (s : HostThread → ThreadCalls) : Prop where
  thread : ∀ t, (s t).Inv (safeStackBase t)
  runs : ∀ t, (s t).active ≠ [] → Runs workers t
  depths : ∀ t t', t ≠ t' → t.region = t'.region → ∀ a ∈ (s t).active, ∀ b ∈ (s t').active,
    a.chunk.isSome → b.chunk.isSome → a.depth ≠ b.depth

/-- The condition on a start: no other thread of the region is in a safe call at this depth. -/
def Alone (s : HostThread → ThreadCalls) (e : HostThread × Event) : Prop :=
  ∀ count, e.2 = .startSafe count → ∀ t, t ≠ e.1 → t.region = e.1.region → ∀ a ∈ (s t).active,
    a.chunk.isSome → a.depth ≠ (s e.1).callDepth + 1

lemma inv_init (h : ∀ t, s t = ⟨0, []⟩) : Inv workers s := by
  refine ⟨fun t => ?_, fun t ht => ?_, fun t t' _ _ a ha => ?_⟩
  · rw [h t]
    exact ⟨.nil, nofun, nofun⟩
  · rw [h t] at ht
    exact absurd rfl ht
  · rw [h t] at ha
    cases ha

lemma Inv.update (hi : Inv workers s) (hr : Runs workers t) (hc : c.Inv (safeStackBase t))
    (hd : ∀ t', t' ≠ t → t'.region = t.region → ∀ b ∈ (s t').active, ∀ a ∈ c.active,
      b.chunk.isSome → a.chunk.isSome → b.depth ≠ a.depth) : Inv workers (update s t c) := by
  refine ⟨?_, ?_, fun u u' hne hreg a ha b hb has hbs => ?_⟩
  · exact (forall_update_iff s fun u c => c.Inv (safeStackBase u)).2 ⟨hc, fun u _ => hi.thread u⟩
  · exact (forall_update_iff s fun u c => c.active ≠ [] → Runs workers u).2 ⟨fun _ => hr, fun u _ => hi.runs u⟩
  · by_cases h : u = t
    · subst h
      rw [update_self] at ha
      rw [update_of_ne (Ne.symm hne)] at hb
      exact (hd u' (Ne.symm hne) hreg.symm b hb a ha hbs has).symm
    · rw [update_of_ne h] at ha
      by_cases h' : u' = t
      · subst h'
        rw [update_self] at hb
        exact hd u h hreg a ha b hb has hbs
      · rw [update_of_ne h'] at hb
        exact hi.depths u u' hne hreg a ha b hb has hbs

theorem inv_step (hw : workers ≤ 31) {s' : HostThread → ThreadCalls} {e : HostThread × Event} (hi : Inv workers s)
    (ha : Alone s e) (h : (system workers).step s e s') : Inv workers s' := by
  obtain ⟨t, ev⟩ := e
  obtain ⟨hr, hdepth, c, hstep, rfl⟩ := h
  have hold : ∀ t', t' ≠ t → t'.region = t.region → ∀ b ∈ (s t').active, ∀ a ∈ (s t).active,
      b.chunk.isSome → a.chunk.isSome → b.depth ≠ a.depth :=
    fun t' hne hreg b hb a ha => hi.depths t' t hne hreg b hb a ha
  rcases ThreadCalls.step_cases hstep with rfl | rfl | ⟨count, l, rfl, hl, rfl⟩ | ⟨x, hact, hd⟩
  · exact hi.update hr (hi.thread t) hold
  · refine hi.update hr ((hi.thread t).push nofun) fun t' hne hreg b hb a ha hbs has => ?_
    rcases mem_cons.1 ha with rfl | ha
    · cases has
    · exact hold t' hne hreg b hb a ha hbs has
  · have hbase := safeStackBase_toNat (region_le hw hr)
    have hreg := region_le hw hr
    have hchunk := safeLayout_chunkBase hdepth (by simp only at *; omega) hl
    refine hi.update hr ((hi.thread t).push fun x hx => ?_) fun t' hne hreg b hb a ha' hbs has => ?_
    · cases hx
      exact hchunk
    · rcases mem_cons.1 ha' with rfl | ha'
      · exact ha count rfl t' hne hreg b hb hbs
      · exact hold t' hne hreg b hb a ha' hbs has
  · refine hi.update hr ((hi.thread t).pop hact hd) fun t' hne hreg b hb a ha' => ?_
    exact hold t' hne hreg b hb a (by rw [hact]; exact mem_cons_of_mem x ha')

/-! ### The chunks of active calls -/

/-- The chunks of two calls, if both have one, are disjoint. -/
def Separate (a b : ActiveCall) : Prop :=
  ∀ x y, a.chunk = some x → b.chunk = some y → Disjoint (span x.toNat 0x100000) (span y.toNat 0x100000)

/-- The chunks of any two active safe calls are disjoint. -/
def ChunksDisjoint (s : HostThread → ThreadCalls) : Prop :=
  (∀ t, (s t).active.Pairwise Separate) ∧
    ∀ t t', t ≠ t' → ∀ a ∈ (s t).active, ∀ b ∈ (s t').active, Separate a b

lemma Inv.separate {workers : ℕ} (hw : workers ≤ 31) {s : HostThread → ThreadCalls} (hi : Inv workers s)
    {t t' : HostThread} {a b : ActiveCall} (ha : a ∈ (s t).active) (hb : b ∈ (s t').active)
    (hd : t.region = t'.region → a.chunk.isSome → b.chunk.isSome → a.depth ≠ b.depth) : Separate a b := by
  intro x y hx hy
  have hreg := region_le hw (hi.runs t (ne_nil_of_mem ha))
  have hreg' := region_le hw (hi.runs t' (ne_nil_of_mem hb))
  have h1 := (hi.thread t).chunk a ha x hx
  have h2 := (hi.thread t').chunk b hb y hy
  rw [safeStackBase_toNat hreg] at h1
  rw [safeStackBase_toNat hreg'] at h2
  rw [← apart_iff_disjoint (by omega) (by omega)]
  by_cases h : t.region = t'.region
  · have h3 := hd h (by rw [hx]; rfl) (by rw [hy]; rfl)
    unfold Apart
    omega
  · unfold Apart
    omega

/-- **Chunks of active calls are disjoint** in every run in which a safe call starts only when no other thread of
its region is in one at the same depth. -/
theorem reach_chunksDisjoint {clones : ℕ → Bool} {n : ℕ} {s : HostThread → ThreadCalls}
    (hr : (system (spawnVcpuWorkers clones n)).Reach Alone s) : ChunksDisjoint s := by
  have hw := spawnVcpuWorkers_le clones n
  have hi : Inv (spawnVcpuWorkers clones n) s :=
    hr.invariant (fun _ h => inv_init h) fun _ _ _ hi ha h => inv_step hw hi ha h
  refine ⟨fun t => ?_, fun t t' hne a ha b hb => hi.separate hw ha hb fun h => hi.depths t t' hne h a ha b hb⟩
  refine (hi.thread t).sorted.imp_of_mem fun ha hb h => hi.separate hw ha hb fun _ _ _ => ?_
  omega

def idle : HostThread → ThreadCalls := fun _ => ⟨0, []⟩

theorem reach_chunksDisjoint_emulator_and_worker :
    ChunksDisjoint (update (update idle .emulator ⟨1, [⟨1, some 0xA0600000⟩]⟩)
      (.worker 1) ⟨1, [⟨1, some 0xA0E00000⟩]⟩) := by
  have h₁ : (system (spawnVcpuWorkers (fun _ => true) 1)).Reach Alone
      (update idle .emulator ⟨1, [⟨1, some 0xA0600000⟩]⟩) := by
    refine .step (a := (HostThread.emulator, Event.startSafe 2)) (.init fun _ => rfl) ?_
      ⟨trivial, by decide, _, rfl, rfl⟩
    exact nofun
  refine reach_chunksDisjoint (.step (a := (HostThread.worker 1, Event.startSafe 2)) h₁ ?_
    ⟨⟨le_rfl, by decide⟩, by decide, _, rfl, rfl⟩)
  intro _ _ t hne hreg
  cases t with
  | worker id => exact absurd (congrArg HostThread.worker hreg) hne
  | emulator | guest id => cases hreg

/-- **Threads that share a region collide**: the first safe calls of two guest threads run on one chunk. -/
theorem guests_share_chunk : ¬ ∀ clones n s, (system (spawnVcpuWorkers clones n)).Reachable s →
    ChunksDisjoint s := by
  intro h
  have hr : (system (spawnVcpuWorkers (fun _ => true) 0)).Reachable
      (update (update idle (.guest 0) ⟨1, [⟨1, some 0xA0600000⟩]⟩)
        (.guest 1) ⟨1, [⟨1, some 0xA0600000⟩]⟩) :=
    System.Reachable.next (a := (.guest 1, .startSafe 0))
      (System.Reachable.next (a := (.guest 0, .startSafe 0)) (.init fun _ => rfl)
        ⟨trivial, by decide, _, rfl, rfl⟩) ⟨trivial, by decide, _, rfl, rfl⟩
  have hd := (h _ _ _ hr).2 (.guest 0) (.guest 1) (by decide) ⟨1, some 0xA0600000⟩ (by decide)
    ⟨1, some 0xA0600000⟩ (by decide) 0xA0600000 0xA0600000 rfl rfl
  rw [← apart_iff_disjoint (by decide) (by decide)] at hd
  exact absurd hd (by decide)

end CrossShim.Calls
