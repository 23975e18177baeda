import CrossShim.Lib.Monitor
import CrossShim.Lib.Tally
import CrossShim.Sync.Time

/-!
# Barriers

The barriers of one address, one after the other: `pthread_barrier_init` makes a barrier unless the table has one for
the address, `pthread_barrier_destroy` takes it out of the table and frees it.  A waiter looks up the barrier, and
works on it under the lock of the barrier alone, so a `destroy` can come in between.

`BarrierOk` says what a barrier is for: the waiters go through it in rounds, and a round lets its threads go only
when as many have arrived as the barrier was initialised for.
-/

namespace CrossShim.Sync

open Lib

/-! ### The barrier -/

/-- The fields of `HostBarrier`. -/
structure HostBarrier where
  count : BitVec 32 := 0
  waiting : BitVec 32 := 0
  generation : BitVec 32 := 0
  initialized : Bool := false

/-- A barrier and its history: the count of the last successful `pthread_barrier_init`, and the rounds finished. -/
structure Barrier extends HostBarrier where
  freed : Bool := false
  declared : BitVec 32 := 0
  round : ℕ := 0

/-- All barriers of the address, in their order, and the entry of `g_host_barriers`. A `destroy` keeps the lock of the
table from its check to the end (`held`). -/
structure BarrierData where
  barriers : ℕ → Barrier := fun _ => {}
  fresh : ℕ := 0
  entry : Option ℕ := none
  held : Bool := false

namespace BarrierData

def set (d : BarrierData) (o : ℕ) (b : Barrier) : BarrierData :=
  { d with barriers := Function.update d.barriers o b }

end BarrierData

/-! ### The calls -/

/-- The calls; the attributes given to `init` may be unreadable. -/
inductive BarrierCall where
  | init (count : BitVec 32) (attrOk : Bool)
  | wait
  | destroy
  deriving DecidableEq

inductive BarrierResult where
  | ok
  | serial
  | err (e : Errno)
  deriving DecidableEq

/-- What a call returns, and the barrier and the round it has waited in. -/
structure BarrierReturn where
  result : BarrierResult
  round : Option (ℕ × ℕ)
  deriving DecidableEq

/-- Where a call is: before its look-up, at the lock of a barrier, waiting there, or about to erase a barrier. -/
inductive BarrierPlace where
  | enter
  | locked (o : ℕ)
  | waiting (o : ℕ) (generation : BitVec 32) (round : ℕ)
  | erase (o : ℕ)
  deriving DecidableEq

abbrev BarrierOutcome := Outcome BarrierData BarrierPlace BarrierReturn

namespace BarrierData

variable (d : BarrierData)

def fails (e : Errno) : BarrierOutcome := ⟨d, .nobody, .ret ⟨.err e, none⟩⟩

/-- A thread that finds the table locked tries again. -/
def spin : BarrierOutcome := ⟨d, .nobody, .go .enter⟩

def getOrCreateBarrier (count : BitVec 32) : BarrierData :=
  match d.entry with
  | none =>
    { d.set d.fresh { count := count, initialized := decide (count ≠ 0), declared := count } with
      fresh := d.fresh + 1, entry := some d.fresh }
  | some o => d.set o { d.barriers o with declared := count }

/-- `pthread_barrier_init`. -/
def init (count : BitVec 32) (attrOk : Bool) : BarrierOutcome :=
  if count = 0 then d.fails .EINVAL
  else if attrOk = false then d.fails .EINVAL
  else if d.held then d.spin
  else ⟨d.getOrCreateBarrier count, .nobody, .ret ⟨.ok, none⟩⟩

/-- The look-up of `pthread_barrier_wait`. -/
def lookup : BarrierOutcome :=
  if d.held then d.spin
  else
    match d.entry with
    | none => d.fails .EINVAL
    | some o => ⟨d, .nobody, .go (.locked o)⟩

/-- `wait_on_barrier`, up to its wait.  What an access to freed memory gives is up to `wild`. -/
def arrive (o : ℕ) (wild : BarrierResult) : BarrierOutcome :=
  let b := d.barriers o
  if b.freed then ⟨d, .nobody, .ret ⟨wild, none⟩⟩
  else if b.initialized = false ∨ b.count = 0 then d.fails .EINVAL
  else if b.waiting + 1 = b.count then
    ⟨d.set o { b with waiting := 0, generation := b.generation + 1, round := b.round + 1 }, .all,
      .ret ⟨.serial, some (o, b.round)⟩⟩
  else ⟨d.set o { b with waiting := b.waiting + 1 }, .nobody, .sleep (.waiting o b.generation b.round)⟩

/-- `wait_on_barrier`, woken. -/
def woken (o : ℕ) (generation : BitVec 32) (round : ℕ) (wild : BarrierResult) : BarrierOutcome :=
  let b := d.barriers o
  if b.freed then ⟨d, .nobody, .ret ⟨wild, some (o, round)⟩⟩
  else if b.initialized = false then ⟨d, .nobody, .ret ⟨.err .EINVAL, some (o, round)⟩⟩
  else if b.generation = generation then ⟨d, .nobody, .sleep (.waiting o generation round)⟩
  else ⟨d, .nobody, .ret ⟨.ok, some (o, round)⟩⟩

/-- `destroy_barrier`, up to the end of its inner lock. -/
def mark : BarrierOutcome :=
  if d.held then d.spin
  else
    match d.entry with
    | none => d.fails .EINVAL
    | some o =>
      let b := d.barriers o
      if b.initialized = false then d.fails .EINVAL
      else if b.waiting ≠ 0 then d.fails .EBUSY
      else ⟨{ d.set o { b with initialized := false } with held := true }, .nobody, .go (.erase o)⟩

/-- The end of `destroy_barrier`. -/
def erase (o : ℕ) : BarrierOutcome :=
  ⟨{ d.set o { d.barriers o with freed := true } with entry := none, held := false }, .nobody, .ret ⟨.ok, none⟩⟩

def runSection (c : BarrierCall) (k : BarrierPlace) (wild : BarrierResult) (d : BarrierData) : BarrierOutcome :=
  match k with
  | .enter =>
    match c with
    | .init count attrOk => d.init count attrOk
    | .wait => d.lookup
    | .destroy => d.mark
  | .locked o => d.arrive o wild
  | .waiting o generation round => d.woken o generation round wild
  | .erase o => d.erase o

end BarrierData

variable {ι : Type*} [DecidableEq ι]

def barrierMonitor : Monitor ι BarrierCall BarrierPlace BarrierResult BarrierData BarrierReturn :=
  ⟨fun _ => .enter, fun _ => BarrierData.runSection⟩

abbrev BarrierState (ι : Type*) := Monitor.State ι BarrierCall BarrierPlace BarrierData BarrierReturn

/-- All runs from an address that has had no barrier yet. -/
def barrierSystem : System (BarrierState ι) (Monitor.Event ι BarrierCall BarrierResult) :=
  barrierMonitor.system fun d => d = {}

/-! ### Rounds -/

/-- A thread waits in the round `r` of the barrier `o`. -/
def WaitsIn (o r : ℕ) (p : Option (BarrierCall × BarrierPlace)) : Prop := ∃ c g, p = some (c, .waiting o g r)

def told (o r : ℕ) (log : List (ι × BarrierCall × BarrierReturn)) : List BarrierResult :=
  log.filterMap fun x => if x.2.2.round = some (o, r) then some x.2.2.result else none

structure BarrierOk (s : BarrierState ι) (o : ℕ) : Prop where
  /-- A round that is over had as many threads as the barrier is for: one was told that it is the serial one, the others
  that have returned 0. -/
  finished : ∀ r < (s.data.barriers o).round, ∃ m, Tally (WaitsIn o r) s.place m ∧
    m + (told o r s.log).length = (s.data.barriers o).declared.toNat ∧ (told o r s.log).count .serial = 1 ∧
      ∀ x ∈ told o r s.log, x = .serial ∨ x = .ok
  /-- Those that have not returned yet are awake, and will be told 0. -/
  released : ∀ r < (s.data.barriers o).round, ∀ i x, s.active i = some x → WaitsIn o r (some (x.call, x.place)) →
    x.asleep = false ∧ ∀ t, (barrierMonitor.run i x.call x.place t s.data).next = .ret ⟨.ok, some (o, r)⟩
  /-- The round that is not over has let nobody go, and waits for more. -/
  current : told o (s.data.barriers o).round s.log = [] ∧
    ∃ m < (s.data.barriers o).declared.toNat, Tally (WaitsIn o (s.data.barriers o).round) s.place m

/-- The serial thread destroys the barrier as soon as its wait returns, and the other one is told `EINVAL`. -/
theorem serial_destroys : ∃ s : BarrierState ℕ, barrierSystem.Reachable s ∧
    s.log = [(0, .wait, ⟨.err .EINVAL, some (0, 0)⟩), (1, .wait, ⟨.serial, some (0, 0)⟩),
      (0, .init 2 true, ⟨.ok, none⟩)] ∧
    0 < s.data.fresh ∧ ¬ BarrierOk s 0 := by
  have h0 : barrierSystem.Reachable (Monitor.State.init {} : BarrierState ℕ) := .init ⟨{}, rfl, rfl⟩
  obtain ⟨s, hrun, hlog, hround, hfresh⟩ : ∃ s : BarrierState ℕ,
      [.call 0 (.init 2 true), .run 0 .ok 0, .call 0 .wait, .run 0 .ok 0, .call 1 .wait, .run 1 .ok 0, .run 0 .ok 0,
        .run 1 .ok 0, .call 1 .destroy, .run 1 .ok 0, .run 0 .ok 0].foldlM barrierMonitor.step
        (Monitor.State.init {}) = some s ∧
      s.log = [(0, .wait, ⟨.err .EINVAL, some (0, 0)⟩), (1, .wait, ⟨.serial, some (0, 0)⟩),
        (0, .init 2 true, ⟨.ok, none⟩)] ∧ (s.data.barriers 0).round = 1 ∧ s.data.fresh = 1 := ⟨_, rfl, rfl, rfl, rfl⟩
  refine ⟨s, h0.foldlM hrun, hlog, by omega, fun hok => ?_⟩
  obtain ⟨m, -, -, -, htold⟩ := hok.finished 0 (by omega)
  have hmem : BarrierResult.err .EINVAL ∈ told 0 0 s.log := by
    rw [hlog]
    exact List.mem_cons_self
  exact absurd (htold _ hmem) (by decide)

end CrossShim.Sync
