import CrossShim.Lib.OrdMap
import CrossShim.Lib.Word
import CrossShim.Sync.Time

/-!
# Mutexes

A guest mutex is a recursive host mutex with an owner, a count and a type beside it (`HostMutex`), found by the
address of the guest's words in a table.  The host knows the threads `ι` by the id of the host thread they run on.

The table makes a mutex of type normal for an address it does not know, whatever the guest's words say, so a mutex
that the guest initialises statically answers as a normal one does: `returns_static_eq_iff` gives the calls by which
it is told from one that `pthread_mutex_init` has made.
-/

namespace CrossShim.Sync

open Lib Option

/-! ### The host mutex -/

/-- A `std::recursive_timed_mutex`; `held i n` is held by `i` at `n + 1` levels. -/
inductive RecMutex (ι : Type*) where
  | free
  | held (owner : ι) (more : ℕ)

namespace RecMutex

variable {ι : Type*} [DecidableEq ι]

/-- Take the mutex; nothing if the thread has to wait. -/
def lock? (i : ι) : RecMutex ι → Option (RecMutex ι)
  | free => some (held i 0)
  | held j n => if j = i then some (held j (n + 1)) else none

def unlock : RecMutex ι → RecMutex ι
  | free => free
  | held _ 0 => free
  | held j (n + 1) => held j n

def Available (i : ι) (m : RecMutex ι) : Prop := ∀ j n, m = held j n → j = i

lemma lock?_eq_none {i : ι} {m : RecMutex ι} : m.lock? i = none ↔ ¬ m.Available i := by
  cases m with
  | free | held j n => simp [lock?, Available]

end RecMutex

inductive MutexType where
  | normal
  | recursive
  | errorcheck
  deriving DecidableEq

inductive Protocol where
  | none
  | inherit
  deriving DecidableEq

/-- The owner is `none` where the source has the thread id 0. -/
structure HostMutex (ι : Type*) where
  mtx : RecMutex ι := .free
  ownerThread : Option ι := none
  lockCount : ℕ := 0
  type : MutexType := .normal
  protocol : Protocol := .none

namespace HostMutex

variable {ι : Type*} [DecidableEq ι] (m : HostMutex ι) (i : ι)

/-- The check by which a thread finds that it has the mutex. -/
def Owns : Prop := m.ownerThread = some i ∧ 0 < m.lockCount

instance : Decidable (m.Owns i) := inferInstanceAs (Decidable (_ ∧ _))

def take : Option (HostMutex ι) :=
  (m.mtx.lock? i).map fun mtx => { m with mtx := mtx, ownerThread := some i, lockCount := m.lockCount + 1 }

def again : Option (HostMutex ι) :=
  (m.mtx.lock? i).map fun mtx => { m with mtx := mtx, lockCount := m.lockCount + 1 }

/-- `pthread_mutex_lock`; nothing while the thread has to wait for the host mutex.  The owner of a normal mutex takes
it once more. -/
def lock : Option (Ret × HostMutex ι) :=
  if m.Owns i then
    match m.type with
    | .recursive => (m.again i).map (.ok, ·)
    | .errorcheck => some (.err .EDEADLK, m)
    | .normal => (m.take i).map (.ok, ·)
  else (m.take i).map (.ok, ·)

/-- `pthread_mutex_trylock`. -/
def trylock : Ret × HostMutex ι :=
  if m.Owns i then
    match m.type with
    | .recursive =>
      match m.again i with
      | some m' => (.ok, m')
      | none => (.err .EBUSY, m)
    | .errorcheck => if m.protocol = .inherit then (.err .EDEADLK, m) else (.err .EBUSY, m)
    | .normal => (.err .EBUSY, m)
  else
    match m.take i with
    | some m' => (.ok, m')
    | none => (.err .EBUSY, m)

/-- `pthread_mutex_unlock`. -/
def unlock : Ret × HostMutex ι :=
  if ¬ m.Owns i then (.err .EPERM, m)
  else
    let count := m.lockCount - 1
    (.ok, { m with mtx := m.mtx.unlock, ownerThread := if count = 0 then none else m.ownerThread, lockCount := count })

/-- `lock_mutex_with_timeout`; nothing while the thread has to wait for the host mutex. The owner of a normal mutex
sleeps until the deadline. -/
def lockWithTimeout (clockid : ClockId) (abstime : Option Timespec) (now : Now) : Option (Ret × HostMutex ι) :=
  if m.Owns i then
    match m.type with
    | .recursive => (m.again i).map (.ok, ·)
    | .errorcheck => some (.err .EDEADLK, m)
    | .normal =>
      if abstime = none then some (.err .EDEADLK, m)
      else
        match prepareRwlockDeadline abstime clockid now with
        | .err e => some (.err e, m)
        | .ok => some (.err .ETIMEDOUT, m)
  else
    match prepareRwlockDeadline abstime clockid now with
    | .err e => some (.err e, m)
    | .ok => (m.take i).map (.ok, ·)

def Idle : Prop := m.mtx = .free ∧ m.ownerThread = none ∧ m.lockCount = 0

end HostMutex

/-! ### The table -/

inductive MutexOp where
  | lock
  | trylock
  | unlock
  deriving DecidableEq

/-- What a call on a mutex returns, nothing if it does not return, and the mutex after it. -/
def HostMutex.call {ι : Type*} [DecidableEq ι] (m : HostMutex ι) (c : ι × MutexOp) : Option Ret × HostMutex ι :=
  match c.2 with
  | .lock =>
    match m.lock c.1 with
    | some (r, m') => (some r, m')
    | none => (none, m)
  | .trylock => (some (m.trylock c.1).1, (m.trylock c.1).2)
  | .unlock => (some (m.unlock c.1).1, (m.unlock c.1).2)

def HostMutex.returns {ι : Type*} [DecidableEq ι] (m : HostMutex ι) : List (ι × MutexOp) → List (Option Ret)
  | [] => []
  | c :: cs => (m.call c).1 :: (m.call c).2.returns cs

/-- The first word of each guest mutex, `g_host_mutexes`, and the mutex all low addresses share. -/
structure Mutexes (ι : Type*) where
  words : Word → BitVec 32
  table : OrdMap Word (HostMutex ι)
  dummy : HostMutex ι

def encodeGuestMutexWord : MutexType → BitVec 32
  | .normal => 0 <<< 14
  | .recursive => 1 <<< 14
  | .errorcheck => 2 <<< 14

def MutexType.toByte : MutexType → Word
  | .normal => 0
  | .recursive => 1
  | .errorcheck => 2

def MutexType.ofByte (w : Word) : Option MutexType :=
  if w = 0 then some .normal else if w = 1 then some .recursive else if w = 2 then some .errorcheck else none

def Protocol.ofByte (w : Word) : Option Protocol :=
  if w = 0 then some .none else if w = 1 then some .inherit else none

/-- `encode_guest_mutexattr_value`, of an attribute that has only a type. -/
def encodeGuestMutexattrValue (type : MutexType) : Word := type.toByte <<< 0 ||| 0 <<< 8 ||| 0 <<< 16

def decodeGuestMutexattrValue (raw : Word) : Option (MutexType × Protocol) := do
  let type ← MutexType.ofByte ((raw >>> 0) &&& 0xff)
  let pshared := (raw >>> 8) &&& 0xff
  let protocol ← Protocol.ofByte ((raw >>> 16) &&& 0xff)
  if pshared = 0 ∨ pshared = 1 then some (type, protocol) else none

/-- The attribute argument of `pthread_mutex_init`: a null pointer, memory that cannot be read, or a value. -/
inductive AttrArg where
  | null
  | unreadable
  | value (raw : Word)

namespace Mutexes

variable {ι : Type*} [DecidableEq ι] (s : Mutexes ι) (addr : Word)

/-- `get_or_create_mutex`: a mutex that is not there yet is one of type normal. -/
def getOrCreateMutex : HostMutex ι := if addr < 0x1000 then s.dummy else (s.table.find? addr).getD {}

def put (m : HostMutex ι) : Mutexes ι :=
  if addr < 0x1000 then { s with dummy := m } else { s with table := s.table.insert addr m }

def initializeMutex (type : MutexType) (protocol : Protocol) : Mutexes ι :=
  if addr < 0x1000 then s else { s with table := s.table.insert addr { type := type, protocol := protocol } }

def pthreadMutexInit (attr : AttrArg) : Ret × Mutexes ι :=
  let make (type : MutexType) (protocol : Protocol) :=
    (.ok, { s with words := Function.update s.words addr (encodeGuestMutexWord type) }.initializeMutex addr type
      protocol)
  match attr with
  | .null => make .normal .none
  | .unreadable => (.err .EINVAL, s)
  | .value raw =>
    match decodeGuestMutexattrValue raw with
    | none => (.err .EINVAL, s)
    | some (type, protocol) => make type protocol

/-- The guest stores the initial word of a mutex itself. -/
def staticInit (type : MutexType) : Mutexes ι :=
  { s with words := Function.update s.words addr (encodeGuestMutexWord type) }

def call (c : ι × MutexOp) : Option Ret × Mutexes ι :=
  if addr = 0 then (some (.err .EINVAL), s)
  else
    let r := (s.getOrCreateMutex addr).call c
    (r.1, s.put addr r.2)

def returns (s : Mutexes ι) (addr : Word) : List (ι × MutexOp) → List (Option Ret)
  | [] => []
  | c :: cs => (s.call addr c).1 :: (s.call addr c).2.returns addr cs

end Mutexes

/-! ### Telling two mutexes apart -/

namespace HostMutex

variable {ι : Type*} [DecidableEq ι] {m m' : HostMutex ι} {i : ι} {c : ι × MutexOp} {type : MutexType}

def afterCalls (m : HostMutex ι) (cs : List (ι × MutexOp)) : HostMutex ι := cs.foldl (fun m c => (m.call c).2) m

def retype (m : HostMutex ι) (type : MutexType) : HostMutex ι := { m with type := type, protocol := .none }

/-- The owner makes a call to which a mutex of the other type answers differently: a lock, if exactly one of the two
checks for errors; a trylock, if exactly one is recursive, or if the mutex checks for errors and inherits priorities. -/
def Telling (m : HostMutex ι) (type : MutexType) (c : ι × MutexOp) : Prop :=
  m.Owns c.1 ∧
    match c.2 with
    | .lock => ¬ (m.type = .errorcheck ↔ type = .errorcheck)
    | .trylock => ¬ (m.type = .recursive ↔ type = .recursive) ∨ (m.type = .errorcheck ∧ m.protocol = .inherit)
    | .unlock => False

/-- Nothing in the sequence tells the mutex from one of the other type. -/
def NeverTold (m : HostMutex ι) (type : MutexType) (cs : List (ι × MutexOp)) : Prop :=
  ∀ pre c post, cs = pre ++ c :: post → ¬ (m.afterCalls pre).Telling type c

/-- The host mutex is there for the owner to take again. -/
def Wf (m : HostMutex ι) : Prop := ∀ i, m.ownerThread = some i → m.mtx.Available i

omit [DecidableEq ι] in
lemma Idle.wf (h : m.Idle) : m.Wf := by
  intro i hi
  rw [h.2.1] at hi
  cases hi

lemma again_eq_take (h : m.Owns i) : m.again i = m.take i := by
  simp only [again, take, h.1]

lemma take_retype : (m.retype type).take i = (m.take i).map (·.retype type) := by
  simp only [take, retype, map_map, Function.comp_def]

lemma Wf.take (hw : m.Wf) (h : m.Owns i) : ∃ m', m.take i = some m' := by
  cases hl : m.mtx.lock? i with
  | none => exact absurd (hw i h.1) (RecMutex.lock?_eq_none.1 hl)
  | some mtx => exact ⟨_, by simp only [HostMutex.take, hl, map_some]; rfl⟩

lemma wf_take (h : m.take i = some m') : m'.Wf := by
  obtain ⟨mtx, hl, rfl⟩ := map_eq_some_iff.1 h
  intro j hj
  cases hj
  cases hm : m.mtx with
  | free =>
    rw [hm] at hl
    cases hl
    rintro _ _ ⟨⟩
    rfl
  | held k n =>
    rw [hm, RecMutex.lock?] at hl
    split at hl
    case isTrue hk =>
      cases hl
      rintro _ _ ⟨⟩
      exact hk
    case isFalse => cases hl

lemma wf_unlock (hw : m.Wf) : (m.unlock i).2.Wf := by
  unfold unlock
  split
  · exact hw
  · intro j hj
    have hj' : m.ownerThread = some j := by
      dsimp only at hj
      split at hj
      · cases hj
      · exact hj
    have hav := hw j hj'
    intro k n hk
    cases hm : m.mtx with
    | free =>
      rw [hm] at hk
      cases hk
    | held l n' =>
      have hl := hav l n' hm
      rw [hm] at hk
      cases n' with
      | zero => cases hk
      | succ n' =>
        cases hk
        exact hl

lemma call_cases (m : HostMutex ι) (c : ι × MutexOp) :
    (m.call c).2 = m ∨ m.take c.1 = some (m.call c).2 ∨ (c.2 = .unlock ∧ (m.call c).2 = (m.unlock c.1).2) := by
  obtain ⟨i, op⟩ := c
  cases op with
  | unlock => exact .inr (.inr ⟨rfl, rfl⟩)
  | lock =>
    by_cases ho : m.Owns i
    · cases ht : m.type <;> cases hm : m.take i <;> simp [call, lock, ho, ht, again_eq_take, hm]
    · cases hm : m.take i <;> simp [call, lock, ho, hm]
  | trylock =>
    by_cases ho : m.Owns i
    · cases ht : m.type <;> cases hm : m.take i <;> cases hp : m.protocol <;>
        simp [call, trylock, ho, ht, again_eq_take, hm, hp]
    · cases hm : m.take i <;> simp [call, trylock, ho, hm]

lemma wf_call (hw : m.Wf) : (m.call c).2.Wf := by
  obtain h | h | ⟨-, h⟩ := call_cases m c
  · rwa [h]
  · exact wf_take h
  · rw [h]
    exact wf_unlock hw

/-- A call by the owner. -/
lemma call_retype_owned (hw : m.Wf) (ho : m.Owns c.1) :
    (m.Telling type c → ((m.retype type).call c).1 ≠ (m.call c).1) ∧
      (¬ m.Telling type c → (m.retype type).call c = ((m.call c).1, (m.call c).2.retype type)) := by
  obtain ⟨i, op⟩ := c
  have howns : (m.retype type).Owns i ↔ m.Owns i := Iff.rfl
  have htype : (m.retype type).type = type := rfl
  have hprot : (m.retype type).protocol = .none := rfl
  obtain ⟨m', hm⟩ := hw.take ho
  cases op with
  | unlock =>
    simp only [Telling, call, unlock, howns, ho, not_true_eq_false, if_false, and_false]
    exact ⟨False.elim, fun _ => rfl⟩
  | lock =>
    cases ht : m.type <;> cases type <;>
      simp_all [Telling, call, lock, again_eq_take, take_retype]
  | trylock =>
    cases ht : m.type <;> cases type <;> cases hp : m.protocol <;>
      simp_all [Telling, call, trylock, again_eq_take, take_retype]

lemma call_retype (hw : m.Wf) (h : ¬ m.Telling type c) :
    (m.retype type).call c = ((m.call c).1, (m.call c).2.retype type) := by
  by_cases ho : m.Owns c.1
  · exact (call_retype_owned hw ho).2 h
  · obtain ⟨i, op⟩ := c
    have howns : (m.retype type).Owns i ↔ m.Owns i := Iff.rfl
    cases op with
    | unlock => simp [call, unlock, howns, ho]
    | lock => cases hm : m.take i <;> simp [call, lock, howns, ho, take_retype, hm]
    | trylock => cases hm : m.take i <;> simp [call, trylock, howns, ho, take_retype, hm]

lemma call_ne_of_telling (hw : m.Wf) (h : m.Telling type c) : ((m.retype type).call c).1 ≠ (m.call c).1 :=
  (call_retype_owned hw h.1).1 h

lemma neverTold_cons {cs : List (ι × MutexOp)} :
    m.NeverTold type (c :: cs) ↔ ¬ m.Telling type c ∧ (m.call c).2.NeverTold type cs := by
  constructor
  · intro h
    refine ⟨h [] c cs rfl, fun pre d post hcs => ?_⟩
    exact h (c :: pre) d post (by rw [hcs, List.cons_append])
  · rintro ⟨hc, hcs⟩ pre d post h
    cases pre with
    | nil =>
      cases h
      exact hc
    | cons e pre =>
      cases h
      exact hcs pre d post rfl

/-- Two mutexes that differ in their type answer alike exactly to the sequences that do not tell them apart. -/
theorem returns_retype_iff {cs : List (ι × MutexOp)} (hw : m.Wf) :
    m.returns cs = (m.retype type).returns cs ↔ m.NeverTold type cs := by
  induction cs generalizing m with
  | nil => exact iff_of_true rfl fun pre c post h => absurd h (by cases pre <;> nofun)
  | cons c cs ih =>
    rw [neverTold_cons, returns, returns, List.cons.injEq]
    by_cases hc : m.Telling type c
    · exact iff_of_false (fun h => call_ne_of_telling hw hc h.1.symm) fun h => h.1 hc
    · rw [call_retype hw hc, ← ih (wf_call hw)]
      exact and_congr (iff_of_true rfl hc) Iff.rfl

end HostMutex

/-! ### Static and explicit initialisation -/

namespace Mutexes

variable {ι : Type*} [DecidableEq ι] {s : Mutexes ι} {addr : Word} {type : MutexType}

omit [DecidableEq ι] in
lemma getOrCreateMutex_put {m : HostMutex ι} : (s.put addr m).getOrCreateMutex addr = m := by
  unfold put getOrCreateMutex
  split
  · rfl
  · rw [OrdMap.find?_insert_self, getD_some]

lemma returns_eq (h0 : addr ≠ 0) {cs : List (ι × MutexOp)} :
    s.returns addr cs = (s.getOrCreateMutex addr).returns cs := by
  induction cs generalizing s with
  | nil => rfl
  | cons c cs ih =>
    rw [returns, HostMutex.returns, ih]
    simp only [call, if_neg h0, getOrCreateMutex_put]

lemma decode_encode (type : MutexType) :
    decodeGuestMutexattrValue (encodeGuestMutexattrValue type) = some (type, .none) := by
  cases type <;> decide

omit [DecidableEq ι] in
lemma pthreadMutexInit_value :
    s.pthreadMutexInit addr (.value (encodeGuestMutexattrValue type)) =
      (.ok, (s.staticInit addr type).initializeMutex addr type .none) := by
  simp only [pthreadMutexInit, decode_encode, staticInit]

/-- **Static initialisation.** Where nobody has the mutex of the address, a mutex initialised statically and one that
`pthread_mutex_init` makes give the same answers exactly if the address is below `0x1000`, where the guest has no
mutexes, or the sequence never tells the mutex the table has or makes for the address from one of the type. -/
theorem returns_static_eq_iff (s : Mutexes ι) (addr : Word) (type : MutexType) (calls : List (ι × MutexOp))
    (hidle : 0x1000 ≤ addr → (s.getOrCreateMutex addr).Idle) :
    (s.staticInit addr type).returns addr calls =
        (s.pthreadMutexInit addr (.value (encodeGuestMutexattrValue type))).2.returns addr calls ↔
      addr < 0x1000 ∨ (s.getOrCreateMutex addr).NeverTold type calls := by
  rw [pthreadMutexInit_value]
  by_cases hlow : addr < 0x1000
  · have hinit : (s.staticInit addr type).initializeMutex addr type .none = s.staticInit addr type := by
      rw [initializeMutex, if_pos hlow]
    rw [hinit]
    exact iff_of_true rfl (.inl hlow)
  · have h0 : addr ≠ 0 := by
      rintro rfl
      exact hlow (by decide)
    have hi := hidle (BitVec.not_lt.1 hlow)
    rw [returns_eq h0, returns_eq h0]
    have hstatic : (s.staticInit addr type).getOrCreateMutex addr = s.getOrCreateMutex addr := rfl
    have hinit : ((s.staticInit addr type).initializeMutex addr type .none).getOrCreateMutex addr =
        (s.getOrCreateMutex addr).retype type := by
      rw [initializeMutex, if_neg hlow, getOrCreateMutex, if_neg hlow, OrdMap.find?_insert_self, getD_some]
      obtain ⟨h1, h2, h3⟩ := hi
      rw [HostMutex.retype, h1, h2, h3]
    rw [hstatic, hinit, HostMutex.returns_retype_iff hi.wf]
    exact (or_iff_right hlow).symm

def fresh : Mutexes ℕ := ⟨fun _ => 0, .empty, {}⟩

theorem returns_static_fresh_iff :
    (fresh.getOrCreateMutex 0x2000).Idle ∧
      ((fresh.staticInit 0x2000 .recursive).returns 0x2000 [(0, .lock), (0, .unlock)] =
          (fresh.pthreadMutexInit 0x2000 (.value (encodeGuestMutexattrValue .recursive))).2.returns 0x2000
            [(0, .lock), (0, .unlock)] ↔
        (0x2000 : Word) < 0x1000 ∨
          (fresh.getOrCreateMutex 0x2000).NeverTold .recursive [(0, .lock), (0, .unlock)]) :=
  ⟨⟨rfl, rfl, rfl⟩, returns_static_eq_iff fresh 0x2000 .recursive _ fun _ => ⟨rfl, rfl, rfl⟩⟩

/-- The owner of a statically initialised recursive mutex cannot take it again with trylock. -/
theorem static_mutex_not_recursive :
    ¬ ∀ (s : Mutexes ℕ) (addr : Word) (type : MutexType) (calls : List (ℕ × MutexOp)),
      (s.getOrCreateMutex addr).Idle →
        (s.staticInit addr type).returns addr calls =
          (s.pthreadMutexInit addr (.value (encodeGuestMutexattrValue type))).2.returns addr calls := by
  intro h
  have hret := h fresh 0x2000 .recursive [(0, .lock), (0, .trylock)] ⟨rfl, rfl, rfl⟩
  have hstatic : (fresh.staticInit 0x2000 .recursive).returns 0x2000 [(0, .lock), (0, .trylock)] =
      [some .ok, some (.err .EBUSY)] := rfl
  have hinit : (fresh.pthreadMutexInit 0x2000 (.value (encodeGuestMutexattrValue .recursive))).2.returns 0x2000
      [(0, .lock), (0, .trylock)] = [some .ok, some .ok] := rfl
  rw [hstatic, hinit] at hret
  exact absurd hret (by decide)

end Mutexes

end CrossShim.Sync
