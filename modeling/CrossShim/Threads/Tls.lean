import CrossShim.Threads.RegistryInv
import CrossShim.Threads.Self

/-!
# Thread-specific data

`pthread_setspecific` stores a value under the key and the identity of the caller, which comes from its stack
pointer.  Beside the tables of the handlers, the state records for each thread what it has set itself; a thread sees
exactly that, and setting a value changes nothing for the others, in every run in which a new thread gets no stack
region that values are stored under (`reach_tlsOk`).  Thread exit leaves the values where they are, so the next thread
on the same region finds them (`tls_of_recycled`).
-/

namespace CrossShim.Threads

open Lib Function Option

abbrev guestPthreadDynamicKeyLimit : Word := 128 - 16

structure TlsState where
  reg : State
  nextKey : Word
  freeKeys : List Word
  liveKeys : Finset Word
  destructors : Word → Option Word
  /-- `g_tls_values`, by identity and key. -/
  values : Word → Word → Option Word
  /-- `tl_current_thread_id` of the host thread of each guest thread. -/
  tlCurrent : Guest → Word
  /-- How many nested calls each thread is in. -/
  nested : Guest → ℕ
  /-- What each thread has set itself since the key was created. -/
  own : Guest → Word → Word

namespace TlsState

variable (s : TlsState) (g : Guest) (sp key : Word)

def init : TlsState := ⟨.init, 1, [], ∅, fun _ => none, fun _ _ => none, fun _ => 0, fun _ => 0, fun _ _ => 0⟩

/-- `is_valid_tls_key_locked`. -/
def isValidTlsKey : Bool := key ≠ 0 && key ∈ s.liveKeys

def context : Context := ⟨0, s.tlCurrent g, sp⟩

/-- The value a handler of `g` leaves in `tl_current_thread_id`. -/
def seen (tlCurrent : Word) : TlsState := { s with tlCurrent := update s.tlCurrent g tlCurrent }

/-- The key `pthread_key_create` picks, with the free keys and the counter after it. -/
def pickKey : Option (Word × List Word × Word) :=
  match s.freeKeys with
  | key :: freeKeys => some (key, freeKeys, s.nextKey)
  | [] =>
    if s.nextKey = 0 ∨ s.nextKey > guestPthreadDynamicKeyLimit ∨
        s.liveKeys.card ≥ guestPthreadDynamicKeyLimit.toNat then none
    else some (s.nextKey, [], s.nextKey + 1)

def keyCreate (keyPtr destructor : Word) : Except Word TlsState :=
  if keyPtr < 0x1000 then .error einval
  else
    match s.pickKey with
    | none => .error eagain
    | some (key, freeKeys, nextKey) =>
      .ok { s with
        nextKey := nextKey
        freeKeys := freeKeys
        liveKeys := insert key s.liveKeys
        destructors := update s.destructors key (if destructor ≠ 0 then some destructor else none) }

def keyDelete : Except Word TlsState :=
  if s.isValidTlsKey key then
    .ok { s with
      liveKeys := s.liveKeys.erase key
      freeKeys := key :: s.freeKeys
      destructors := update s.destructors key none
      values := fun id => update (s.values id) key none
      own := fun g => update (s.own g) key 0 }
  else .error einval

/-- What `pthread_getspecific` returns. -/
def getspecific : Word :=
  if s.isValidTlsKey key then (s.values (getCurrentTlsThreadId (s.context g sp)).1 key).getD 0 else 0

/-- The store of `pthread_setspecific`, under an identity. -/
def store (id value : Word) : TlsState :=
  { s with
    values := update s.values id (update (s.values id) key (some value))
    own := update s.own g (update (s.own g) key value) }

/-- `pthread_setspecific`, with its error and the state it leaves. -/
def setspecific (value : Word) : Word × TlsState :=
  let (id, tlCurrent) := getCurrentTlsThreadId (s.context g sp)
  if s.isValidTlsKey key then (0, (s.store g key id value).seen g tlCurrent) else (einval, s.seen g tlCurrent)

end TlsState

open TlsState

/-- The thread runs guest code, and can make nested calls on the first safe-call stack; a worker is always on its own.
-/
def Nests (s : State) : Guest → Prop
  | .main => True
  | .worker _ => False
  | .created n => ∃ stackTop stackSize, s.phase n = .running stackTop stackSize

/-- Where a live thread calls a handler from: its own stack, or the first safe-call stack in a nested call. -/
def Calls (s : TlsState) (sp : Word) (g : Guest) : Prop :=
  (s.nested g = 0 ∧ OnStack s.reg sp g) ∨
    (s.nested g ≠ 0 ∧ Nests s.reg g ∧ sp - safeCallStackBase < safeCallStackSize)

/-- A property of the stack of a running thread can be decided where it can for each stack. -/
@[reducible] def decidableRunning (s : State) (n : ℕ) (p : Word → Word → Prop) [∀ a b, Decidable (p a b)] :
    Decidable (∃ stackTop stackSize, s.phase n = .running stackTop stackSize ∧ p stackTop stackSize) :=
  match h : s.phase n with
  | .running stackTop stackSize =>
    decidable_of_iff (p stackTop stackSize)
      ⟨fun hp => ⟨_, _, rfl, hp⟩, by rintro ⟨_, _, heq, hp⟩; cases heq; exact hp⟩
  | .idle | .begun _ | .tookStack .. | .stacked .. | .tookTls .. | .ready .. | .registered .. | .ended | .failed _ =>
    isFalse (by rintro ⟨_, _, heq, -⟩; cases heq)

instance (s : State) (sp : Word) : ∀ g, Decidable (OnStack s sp g)
  | .main => inferInstanceAs (Decidable (_ ∧ _))
  | .worker _ => inferInstanceAs (Decidable (_ ∧ _ ∧ _))
  | .created n => decidableRunning s n fun stackTop stackSize => InStack stackTop stackSize sp

instance (s : State) : ∀ g, Decidable (Nests s g)
  | .main => inferInstanceAs (Decidable True)
  | .worker _ => inferInstanceAs (Decidable False)
  | .created n => @decidable_of_iff _ _ (by simp only [and_true]; exact Iff.rfl) (decidableRunning s n fun _ _ => True)

instance (s : TlsState) (sp : Word) (g : Guest) : Decidable (Calls s sp g) :=
  inferInstanceAs (Decidable ((_ ∧ _) ∨ (_ ∧ _ ∧ _)))

inductive TlsEvent where
  | thread (e : Event)
  | keyCreate (keyPtr destructor : Word)
  | keyDelete (key : Word)
  | self (g : Guest) (sp : Word)
  | callSafe (g : Guest)
  | returnSafe (g : Guest)
  | getspecific (g : Guest) (sp key : Word)
  | setspecific (g : Guest) (sp key value : Word)

namespace TlsState

/-- A handler that fails leaves the state as it is. -/
def orSame (s : TlsState) : Except Word TlsState → TlsState
  | .ok s' => s'
  | .error _ => s

def step (s : TlsState) : TlsEvent → Option TlsState
  | .thread e => (Threads.step s.reg e).map fun reg => { s with reg := reg }
  | .keyCreate keyPtr destructor => some (s.orSame (s.keyCreate keyPtr destructor))
  | .keyDelete key => some (s.orSame (s.keyDelete key))
  | .self g sp =>
    if Calls s sp g then some (s.seen g (getCurrentGuestPthreadId (s.context g sp)).2) else none
  | .callSafe g =>
    if Nests s.reg g then some { s with nested := update s.nested g (s.nested g + 1) } else none
  | .returnSafe g => some { s with nested := update s.nested g (s.nested g - 1) }
  | .getspecific g sp _ =>
    if Calls s sp g then some (s.seen g (getCurrentTlsThreadId (s.context g sp)).2) else none
  | .setspecific g sp key value => if Calls s sp g then some (s.setspecific g sp key value).2 else none

def system : System TlsState TlsEvent := .ofStep (· = init) step

end TlsState

/-- Each thread sees what it has set itself, and setting a value changes nothing for the other threads. -/
structure TlsOk (s : TlsState) : Prop where
  own : ∀ g sp key, Calls s sp g → s.isValidTlsKey key → s.getspecific g sp key = s.own g key
  apart : ∀ g g' sp sp' key key' value, g ≠ g' → Calls s sp g → Calls s sp' g' →
    (s.setspecific g sp key value).2.getspecific g' sp' key' = s.getspecific g' sp' key'

/-- The condition on a step: the thread registry is used in order; a new thread gets no stack region with values under
its identity; and a thread is seen on its own stack before its first nested call. -/
def Isolated (s : TlsState) : TlsEvent → Prop
  | .thread e => Orderly s.reg e ∧ ∀ n, e = .takeStack n →
      ∀ region recycled a, (s.reg.arena .stack).take .stack = some ((region, recycled), a) →
        ∀ key, s.isValidTlsKey key → (s.values (getThreadIdFromSp region) key).getD 0 = 0
  | .callSafe (.created n) => s.tlCurrent (.created n) ≠ 0
  | _ => True

/-! ### The identity of each thread -/

def Phase.stackRegion : Phase → Option Word
  | .registered stackTop _ => Arena.regionOf .stack stackTop
  | .running stackTop _ => Arena.regionOf .stack stackTop
  | p => p.region .stack

/-- The identity that the values of a thread are stored under. -/
def Ident (s : State) : Guest → Word → Prop
  | .main, id => id = 0
  | .worker k, id => 1 ≤ k ∧ k ≤ 31 ∧ id = BitVec.ofNat 64 (0x40000000 + k)
  | .created n, id => ∃ region i, (s.phase n).stackRegion = some region ∧ Arena.Slot .stack region i ∧ id = slotTid i

/-- What `tl_current_thread_id` is once the thread was seen. -/
def seenId (id : Word) : Word := if id = 0 then 1 else id

section Ident

variable {s s' : State} {g g' : Guest} {id id' region : Word} {n : ℕ}

lemma RegInv.holds_stackRegion (hi : RegInv True s) (h : (s.phase n).stackRegion = some region) :
    s.Holds .stack n region := by
  have hsmall : n < 2 ^ 64 := hi.small n fun hidle => by
    rw [hidle] at h
    cases h
  have hlive : ∀ {stackTop stackSize}, (s.phase n).Live stackTop stackSize →
      Arena.regionOf .stack stackTop = some region → s.Holds .stack n region := by
    intro stackTop stackSize hl hr
    obtain ⟨t, ht, rfl, -⟩ := hi.live trivial n _ _ hl
    exact ⟨hsmall, .inr ⟨t, ht, hr⟩⟩
  cases hp : s.phase n with
  | registered stackTop stackSize =>
    rw [hp] at h
    exact hlive (.inl hp) h
  | running stackTop stackSize =>
    rw [hp] at h
    exact hlive (.inr hp) h
  | _ =>
    refine ⟨hsmall, .inl ?_⟩
    rw [hp] at h ⊢
    exact h

lemma RegInv.running_ident (hi : RegInv True s) {stackTop stackSize : Word} (hp : s.phase n = .running stackTop stackSize) :
    stackSize = Kind.stack.size ∧
      ∃ i, Arena.Slot .stack (stackTop - Kind.stack.offset) i ∧ Ident s (.created n) (slotTid i) := by
  obtain ⟨t, ht, rfl, rfl, hc⟩ := hi.live trivial n _ _ (.inr hp)
  rcases hi.shaped trivial _ _ ht with ⟨-, -, hc'⟩ | ⟨hne, hsize⟩
  · rw [hc] at hc'
    cases hc'
  obtain ⟨region, hregion⟩ := Option.ne_none_iff_exists'.1 hne
  have hr : (s.phase n).stackRegion = some region := by
    rw [hp]
    exact hregion
  obtain ⟨⟨i, hslot⟩, -⟩ := (hi.arena .stack).held n _ (hi.holds_stackRegion hr)
  exact ⟨hsize, i, Arena.eq_of_regionOf hregion ▸ hslot, _, i, hr, hslot, rfl⟩

lemma slot_unique {i j : ℕ} (h : Arena.Slot .stack region i) (h' : Arena.Slot .stack region j) : i = j := by
  have := h.eq.symm.trans h'.eq
  simp only [Kind.base, Kind.size] at this
  bv_omega

lemma Ident.unique (h : Ident s g id) (h' : Ident s g id') : id = id' := by
  cases g with
  | main => exact Eq.trans h h'.symm
  | worker k => exact h.2.2.trans h'.2.2.symm
  | created n =>
    obtain ⟨region, i, hr, hslot, rfl⟩ := h
    obtain ⟨region', j, hr', hslot', rfl⟩ := h'
    cases hr.symm.trans hr'
    rw [slot_unique hslot hslot']

/-- The numbers that the identities of each kind of thread are among. -/
lemma Ident.toNat (h : Ident s g id) : match g with
    | .main => id.toNat = 0
    | .worker k => id.toNat = 0x40000000 + k
    | .created _ => 0x1000 ≤ id.toNat ∧ id.toNat < 0x1100 := by
  cases g with
  | main =>
    obtain rfl : id = 0 := h
    rfl
  | worker k =>
    obtain ⟨h1, h31, rfl⟩ := h
    bv_omega
  | created n =>
    obtain ⟨region, i, -, hs, rfl⟩ := h
    have := slot_lt hs
    unfold slotTid
    bv_omega

/-- **No two threads have the same identity.** -/
theorem RegInv.ident_injective (hi : RegInv True s) (h : Ident s g id) (h' : Ident s g' id) : g = g' := by
  have hid := h.toNat
  have hid' := h'.toNat
  rcases g with _ | k | n <;> rcases g' with _ | k' | n' <;> simp only at hid hid'
  case main.main => rfl
  case worker.worker => exact congrArg Guest.worker (by omega)
  case created.created =>
    obtain ⟨region, i, hr, hs, rfl⟩ := h
    obtain ⟨region', i', hr', hs', heq⟩ := h'
    have h1 := slot_lt hs
    have h2 := slot_lt hs'
    obtain rfl : i = i' := by
      unfold slotTid at heq
      bv_omega
    obtain rfl : region = region' := BitVec.eq_of_toNat_eq (hs.eq.trans hs'.eq.symm)
    rw [(hi.arena .stack).unique n n' region (hi.holds_stackRegion hr) (hi.holds_stackRegion hr')]
  all_goals omega

lemma ident_step {e : Event} (hc : Orderly s e) (h : step s e = some s') (hid : Ident s' g id) :
    Ident s g id ∨ ∃ n region recycled a attr i, g = .created n ∧ e = .takeStack n ∧ s.phase n = .begun attr ∧
      (s.arena .stack).take .stack = some ((region, recycled), a) ∧ Arena.Slot .stack region i ∧ id = slotTid i := by
  rcases g with _ | k | m
  · exact .inl hid
  · exact .inl hid
  obtain ⟨region, i, hr, hs, rfl⟩ := hid
  obtain heq | ⟨p, heq, hm⟩ := step_phase h m
  · rw [heq] at hr
    exact .inl ⟨region, i, hr, hs, rfl⟩
  · rw [heq] at hr
    have hsame : (s.phase m).stackRegion = some region → Ident s (.created m) (slotTid i) :=
      fun h => ⟨region, i, h, hs, rfl⟩
    cases hm with
    | tookStack hp h0 ht =>
      cases hr
      exact .inr ⟨m, _, _, _, _, i, rfl, rfl, hp, ht, hs, rfl⟩
    | callerStack hp hne => exact absurd (hc _ hp) hne
    | stacked hp =>
      refine .inl (hsame ?_)
      rw [hp]
      simp only [Phase.stackRegion, Phase.region] at hr ⊢
      rw [Arena.eq_of_regionOf hr, BitVec.add_sub_cancel]
    | tookTls hp | ready hp | registered hp | running hp => exact .inl (hsame (by rw [hp]; exact hr))
    | _ => cases hr

end Ident

/-! ### The values of each thread -/

/-- Nothing has been done by or for the thread yet. -/
def Phase.Unborn : Phase → Prop
  | .idle => True
  | .begun _ => True
  | _ => False

structure TlsInv (s : TlsState) : Prop where
  reg : RegInv True s.reg
  dead : ∀ id key, s.isValidTlsKey key = false → (s.values id key).getD 0 = 0
  deadOwn : ∀ g key, s.isValidTlsKey key = false → s.own g key = 0
  values : ∀ g id key, Ident s.reg g id → (s.values id key).getD 0 = s.own g key
  seen : ∀ g id, Ident s.reg g id → s.tlCurrent g = 0 ∨ s.tlCurrent g = seenId id
  unborn : ∀ n, (s.reg.phase n).Unborn → s.tlCurrent (.created n) = 0 ∧ ∀ key, s.own (.created n) key = 0
  nested : ∀ n, s.nested (.created n) ≠ 0 → s.tlCurrent (.created n) ≠ 0

section Inv

variable {s s' : TlsState} {g : Guest} {sp id key value : Word}

lemma tlsInv_init : TlsInv .init :=
  ⟨regInv_init, fun _ _ _ => rfl, fun _ _ _ => rfl, fun _ _ _ _ => rfl, fun _ _ _ => .inl rfl,
    fun _ _ => ⟨rfl, fun _ => rfl⟩, fun _ h => absurd rfl h⟩

lemma TlsState.seen_self (tlCurrent : Word) : (s.seen g tlCurrent).tlCurrent g = tlCurrent := update_self ..

lemma TlsState.seen_of_ne {g' : Guest} (h : g' ≠ g) (tlCurrent : Word) :
    (s.seen g tlCurrent).tlCurrent g' = s.tlCurrent g' :=
  update_of_ne h ..

lemma seenId_ne_zero (id : Word) : seenId id ≠ 0 := by
  unfold seenId
  split_ifs with h
  · decide
  · exact h

lemma TlsInv.ident (hi : TlsInv s) (h : Calls s sp g) : ∃ id tlCurrent, Ident s.reg g id ∧
    getCurrentTlsThreadId (s.context g sp) = (id, tlCurrent) ∧ (tlCurrent = s.tlCurrent g ∨ tlCurrent = seenId id) := by
  rcases h with ⟨-, h⟩ | ⟨hn, h, hsp⟩
  · cases g with
    | main => exact ⟨0, 1, rfl, getCurrentTlsThreadId_main h _, .inr rfl⟩
    | worker k =>
      obtain ⟨h1, h31, hsp⟩ := h
      exact ⟨_, _, ⟨h1, h31, rfl⟩, getCurrentTlsThreadId_worker h1 h31 hsp _, .inl rfl⟩
    | created n =>
      obtain ⟨stackTop, stackSize, hp, hsp⟩ := h
      obtain ⟨rfl, i, hslot, hid⟩ := hi.reg.running_ident hp
      rw [← BitVec.sub_add_cancel stackTop Kind.stack.offset] at hsp
      refine ⟨_, _, hid, getCurrentTlsThreadId_of_slot hslot (inStack_of_slot hsp) _, .inr ?_⟩
      exact (if_neg (slotTid_ne_zero hslot)).symm
  · refine ⟨_, _, ?_, getCurrentTlsThreadId_nested hsp _, .inl rfl⟩
    cases g with
    | main =>
      have := hi.seen .main 0 rfl
      exact if_pos this
    | worker k => exact h.elim
    | created n =>
      obtain ⟨stackTop, stackSize, hp⟩ := h
      obtain ⟨-, i, hslot, hid⟩ := hi.reg.running_ident hp
      have heq : s.tlCurrent (.created n) = slotTid i := by
        rcases hi.seen _ _ hid with h0 | h1
        · exact absurd h0 (hi.nested n hn)
        · exact h1.trans (if_neg (slotTid_ne_zero hslot))
      rw [heq, if_neg (by rw [not_or]; exact ⟨slotTid_ne_zero hslot, slotTid_ne_one hslot⟩)]
      exact hid

lemma TlsInv.noted (hi : TlsInv s) {id' tlCurrent : Word} (hid : Ident s.reg g id')
    (h : tlCurrent = s.tlCurrent g ∨ tlCurrent = seenId id') (hrun : ∀ n, g = .created n → ¬ (s.reg.phase n).Unborn) :
    TlsInv (s.seen g tlCurrent) := by
  refine ⟨hi.reg, hi.dead, hi.deadOwn, hi.values, fun g' id hid' => ?_, fun n hn => ?_, fun n hn => ?_⟩
  · by_cases hg : g' = g
    · subst hg
      obtain rfl := hid.unique hid'
      rw [seen_self]
      rcases h with rfl | h
      · exact hi.seen g' _ hid
      · exact .inr h
    · rw [seen_of_ne hg]
      exact hi.seen g' id hid'
  · have hg : Guest.created n ≠ g := fun h => hrun n h.symm hn
    rw [seen_of_ne hg]
    exact hi.unborn n hn
  · by_cases hg : Guest.created n = g
    · subst hg
      rw [seen_self]
      rcases h with rfl | rfl
      · exact hi.nested n hn
      · exact seenId_ne_zero id'
    · rw [seen_of_ne hg]
      exact hi.nested n hn

lemma Calls.not_unborn (h : Calls s sp g) (n : ℕ) (hg : g = .created n) : ¬ (s.reg.phase n).Unborn := by
  subst hg
  have hrun : ∃ stackTop stackSize, s.reg.phase n = .running stackTop stackSize := by
    rcases h with ⟨-, stackTop, stackSize, hp, -⟩ | ⟨-, h, -⟩
    · exact ⟨stackTop, stackSize, hp⟩
    · exact h
  obtain ⟨stackTop, stackSize, hp⟩ := hrun
  rw [hp]
  exact id

lemma TlsInv.store (hi : TlsInv s) (hid : Ident s.reg g id) (hkey : s.isValidTlsKey key = true)
    (hrun : ∀ n, g = .created n → ¬ (s.reg.phase n).Unborn) : TlsInv (s.store g key id value) := by
  have hne : ∀ {key'}, s.isValidTlsKey key' = false → key' ≠ key := by
    rintro key' h rfl
    rw [hkey] at h
    cases h
  refine ⟨hi.reg, fun id' key' h => ?_, fun g' key' h => ?_, fun g' id' key' hid' => ?_, hi.seen, fun n hn => ?_,
    hi.nested⟩
  · have hd := hi.dead id' key' h
    simp only [TlsState.store]
    by_cases hid' : id' = id
    · subst hid'
      rwa [update_self, update_of_ne (hne h)]
    · rwa [update_of_ne hid']
  · have hd := hi.deadOwn g' key' h
    simp only [TlsState.store]
    by_cases hg : g' = g
    · subst hg
      rwa [update_self, update_of_ne (hne h)]
    · rwa [update_of_ne hg]
  · have hv := hi.values g' id' key' hid'
    simp only [TlsState.store]
    by_cases hg : g' = g
    · subst hg
      obtain rfl := hid.unique hid'
      rw [update_self, update_self]
      by_cases hk : key' = key
      · subst hk
        rw [update_self, update_self]
        rfl
      · rwa [update_of_ne hk, update_of_ne hk]
    · have hne' : id' ≠ id := by
        rintro rfl
        exact hg (hi.reg.ident_injective hid' hid)
      rwa [update_of_ne hg, update_of_ne hne']
  · have hg : Guest.created n ≠ g := fun h => hrun n h.symm hn
    simp only [TlsState.store]
    rw [update_of_ne hg]
    exact hi.unborn n hn

lemma TlsInv.thread (hi : TlsInv s) {e : Event} (hc : Isolated s (.thread e)) {r : State}
    (h : step s.reg e = some r) : TlsInv { s with reg := r } := by
  obtain ⟨horder, hclean⟩ := hc
  have hnew : ∀ {g id}, Ident r g id → Ident s.reg g id ∨
      ((s.tlCurrent g = 0 ∧ ∀ key, s.own g key = 0) ∧ ∀ key, (s.values id key).getD 0 = 0) := by
    intro g id hid
    rcases ident_step horder h hid with hid | ⟨n, region, recycled, a, attr, i, rfl, rfl, hp, ht, hslot, rfl⟩
    · exact .inl hid
    · refine .inr ⟨hi.unborn n (by rw [hp]; trivial), fun key => ?_⟩
      cases hk : s.isValidTlsKey key with
      | true =>
        have hsame : region - region < Kind.stack.size := by
          rw [BitVec.sub_self]
          decide
        rw [← getThreadIdFromSp_of_slot hslot hsame]
        exact hclean n rfl region recycled a ht key hk
      | false => exact hi.dead _ key hk
  refine ⟨regInv_step hi.reg horder.separate (fun _ => horder) h, hi.dead, hi.deadOwn,
    fun g id key hid => ?_, fun g id hid => ?_, fun n hn => ?_, hi.nested⟩
  · rcases hnew hid with hid | ⟨⟨-, hown⟩, hv⟩
    · exact hi.values g id key hid
    · exact (hv key).trans (hown key).symm
  · rcases hnew hid with hid | ⟨⟨hcur, -⟩, -⟩
    · exact hi.seen g id hid
    · exact .inl hcur
  · refine hi.unborn n ?_
    obtain heq | ⟨p, heq, hm⟩ := step_phase h n
    · rwa [← heq]
    · simp only [heq] at hn
      cases hm with
      | begun =>
        rw [hi.reg.unused _ le_rfl]
        trivial
      | _ => exact hn.elim

section

variable (hi : TlsInv s)
include hi

lemma TlsInv.keyCreate {keyPtr destructor : Word} (h : s.keyCreate keyPtr destructor = .ok s') : TlsInv s' := by
  unfold TlsState.keyCreate at h
  by_cases hptr : keyPtr < 0x1000
  · rw [if_pos hptr] at h
    cases h
  rw [if_neg hptr] at h
  cases hk : s.pickKey with
  | none =>
    rw [hk] at h
    cases h
  | some picked =>
    rw [hk] at h
    cases h
    have hvalid : ∀ key', isValidTlsKey { s with liveKeys := insert picked.1 s.liveKeys } key' = false →
        s.isValidTlsKey key' = false := by
      intro key' h
      simp only [isValidTlsKey, Finset.mem_insert, Bool.and_eq_false_iff, decide_eq_false_iff_not,
        not_or] at h ⊢
      exact h.imp_right And.right
    exact ⟨hi.reg, fun id key' h => hi.dead id key' (hvalid key' h), fun g key' h => hi.deadOwn g key' (hvalid key' h),
      hi.values, hi.seen, hi.unborn, hi.nested⟩

lemma TlsInv.keyDelete (h : s.keyDelete key = .ok s') : TlsInv s' := by
  unfold TlsState.keyDelete at h
  split_ifs at h
  cases h
  have hvalid : ∀ key', key' ≠ key → isValidTlsKey { s with liveKeys := s.liveKeys.erase key } key' = false →
      s.isValidTlsKey key' = false := by
    intro key' hne h
    simp only [isValidTlsKey, Finset.mem_erase, Bool.and_eq_false_iff, decide_eq_false_iff_not,
      not_and] at h ⊢
    exact h.imp_right fun h => h hne
  refine ⟨hi.reg, fun id key' h => ?_, fun g key' h => ?_, fun g id key' hid => ?_, hi.seen, fun n hn => ?_, hi.nested⟩
  · by_cases hk : key' = key
    · subst hk
      simp
    · simp only [update_of_ne hk]
      exact hi.dead id key' (hvalid key' hk h)
  · by_cases hk : key' = key
    · subst hk
      simp
    · simp only [update_of_ne hk]
      exact hi.deadOwn g key' (hvalid key' hk h)
  · by_cases hk : key' = key
    · subst hk
      simp
    · simp only [update_of_ne hk]
      exact hi.values g id key' hid
  · obtain ⟨hcur, hown⟩ := hi.unborn n hn
    refine ⟨hcur, fun key' => ?_⟩
    by_cases hk : key' = key
    · subst hk
      simp
    · simp only [update_of_ne hk]
      exact hown key'

lemma TlsInv.nest {depth : ℕ} (h : ∀ n, g = .created n → depth ≠ 0 → s.tlCurrent (.created n) ≠ 0) :
    TlsInv { s with nested := update s.nested g depth } := by
  refine ⟨hi.reg, hi.dead, hi.deadOwn, hi.values, hi.seen, hi.unborn, fun n hn => ?_⟩
  by_cases hg : Guest.created n = g
  · subst hg
    refine h n rfl ?_
    simpa using hn
  · simp only [update_of_ne hg] at hn
    exact hi.nested n hn

theorem tlsInv_step {e : TlsEvent} (hc : Isolated s e) (h : s.step e = some s') : TlsInv s' := by
  cases e with
  | thread e =>
    obtain ⟨r, hr, rfl⟩ := map_eq_some_iff.1 h
    exact hi.thread hc hr
  | keyCreate keyPtr destructor =>
    cases h
    cases hk : s.keyCreate keyPtr destructor with
    | error error => exact hi
    | ok s₁ => exact hi.keyCreate hk
  | keyDelete key =>
    cases h
    cases hk : s.keyDelete key with
    | error error => exact hi
    | ok s₁ => exact hi.keyDelete hk
  | self g sp | getspecific g sp =>
    obtain ⟨hcall, h⟩ := ite_none_right_eq_some.1 h
    cases h
    obtain ⟨id, tlCurrent, hid, heq, hcur⟩ := hi.ident hcall
    simp only [getCurrentGuestPthreadId_snd, heq]
    exact hi.noted hid hcur hcall.not_unborn
  | callSafe g =>
    obtain ⟨-, h⟩ := ite_none_right_eq_some.1 h
    cases h
    refine hi.nest fun n hg _ => ?_
    subst hg
    exact hc
  | returnSafe g =>
    cases h
    refine hi.nest fun n hg hd => ?_
    subst hg
    exact hi.nested n (by omega)
  | setspecific g sp key value =>
    obtain ⟨hcall, h⟩ := ite_none_right_eq_some.1 h
    cases h
    obtain ⟨id, tlCurrent, hid, heq, hcur⟩ := hi.ident hcall
    unfold setspecific
    rw [heq]
    cases hk : s.isValidTlsKey key with
    | false => exact hi.noted hid hcur hcall.not_unborn
    | true => exact (hi.store hid hk hcall.not_unborn).noted (g := g) hid hcur hcall.not_unborn

lemma TlsInv.getspecific (h : Calls s sp g) (hk : s.isValidTlsKey key = true) :
    s.getspecific g sp key = s.own g key := by
  obtain ⟨id, tlCurrent, hid, heq, -⟩ := hi.ident h
  unfold TlsState.getspecific
  rw [if_pos hk, heq]
  exact hi.values g id key hid

lemma TlsInv.getspecific_setspecific {g' : Guest} {sp' : Word} (hne : g ≠ g') (h : Calls s sp g) (h' : Calls s sp' g')
    (key' : Word) : (s.setspecific g sp key value).2.getspecific g' sp' key' = s.getspecific g' sp' key' := by
  obtain ⟨id, tlCurrent, hid, heq, -⟩ := hi.ident h
  obtain ⟨id', tlCurrent', hid', heq', -⟩ := hi.ident h'
  have hids : id' ≠ id := by
    rintro rfl
    exact hne (hi.reg.ident_injective hid hid')
  have hctx : ∀ s₁ : TlsState, s₁.tlCurrent = s.tlCurrent → (s₁.seen g tlCurrent).context g' sp' = s.context g' sp' := by
    intro s₁ h
    unfold context
    rw [seen_of_ne hne.symm, h]
  unfold setspecific
  rw [heq]
  cases hk : s.isValidTlsKey key with
  | false =>
    unfold TlsState.getspecific
    simp only [Bool.false_eq_true, if_false]
    rw [hctx s rfl]
    rfl
  | true =>
    unfold TlsState.getspecific
    simp only [if_true]
    rw [hctx (s.store g key id value) rfl, heq']
    have hv : ((s.store g key id value).seen g tlCurrent).values id' = s.values id' := update_of_ne hids ..
    rw [hv]
    rfl

end

end Inv

/-- **Thread-specific values are private**, in every run in which a new thread gets no stack region that values are
stored under, and threads are seen on their own stack before their first nested call. -/
theorem reach_tlsOk {s : TlsState} (hr : TlsState.system.Reach Isolated s) : TlsOk s := by
  have hinit : ∀ s, TlsState.system.init s → TlsInv s := by
    rintro s rfl
    exact tlsInv_init
  have hi : TlsInv s := hr.invariant hinit fun _ _ _ hi hc h => tlsInv_step hi hc h
  exact ⟨fun g sp key h hk => hi.getspecific h hk,
    fun g g' sp sp' key key' value hne h h' => hi.getspecific_setspecific hne h h' key'⟩

/-- No key is live when a stack is taken, and no call is nested. -/
def Keyless (s : TlsState) : TlsEvent → Prop
  | .thread e => Orderly s.reg e ∧ (e matches .takeStack _ → s.liveKeys = ∅)
  | .callSafe _ => False
  | _ => True

instance : DecidableRel Keyless := fun s e => by
  unfold Keyless
  split <;> infer_instance

lemma Keyless.isolated {s : TlsState} {e : TlsEvent} (h : Keyless s e) : Isolated s e := by
  cases e with
  | thread e =>
    refine ⟨h.1, ?_⟩
    rintro n rfl region recycled a - key hkey
    simp [isValidTlsKey, h.2 rfl] at hkey
  | callSafe => exact h.elim
  | _ => trivial

theorem reach_tlsOk_first_thread : ∃ s, TlsState.system.Reach Isolated s ∧ Calls s 0x900FFF00 (.created 0x1000) ∧
    s.own (.created 0x1000) 1 = 7 ∧ s.own .main 1 = 0 ∧ TlsOk s := by
  have hrun : (((created 0x1000 ++ created 0x1001).map TlsEvent.thread ++
      [TlsEvent.keyCreate 0x2000 0, .setspecific (.created 0x1000) 0x900FFF00 1 7]).foldlM
      (System.checked Keyless TlsState.step) .init).map
      (fun s => (decide (Calls s 0x900FFF00 (.created 0x1000)), s.own (.created 0x1000) 1, s.own .main 1)) =
      some (true, (7 : Word), (0 : Word)) := by
    decide +kernel
  obtain ⟨s, hs, heq⟩ := Option.map_eq_some_iff.1 hrun
  simp only [Prod.mk.injEq, decide_eq_true_eq] at heq
  have hkeyless : TlsState.system.Reach Keyless s := System.Reach.foldlM _ (.init rfl) hs
  have hreach := hkeyless.mono fun _ _ => Keyless.isolated
  exact ⟨s, hreach, heq.1, heq.2.1, heq.2.2, reach_tlsOk hreach⟩

/-- A thread sets a value, ends and is joined, and another one is created. -/
def recycledTlsRun : List TlsEvent :=
  (created 0x1000).map .thread ++ [.keyCreate 0x2000 0, .setspecific (.created 0x1000) 0x900FFF00 1 7] ++
    (recycledRun.drop 7).map .thread

/-- **Thread exit leaves the values behind**: the next thread on the same stack finds them. -/
theorem tls_of_recycled : ¬ ∀ s, TlsState.system.Reachable s → TlsOk s := by
  intro h
  have hrun : recycledTlsRun.foldlM TlsState.step TlsState.init = some _ := rfl
  have hok := (h _ (System.Reachable.foldlM (.init rfl) hrun)).own (.created 0x1001) 0x900FFF00 1
    (.inl ⟨rfl, 0x900FFF00, 0x100000, rfl, by decide⟩) (by decide)
  exact absurd hok (by decide)

end CrossShim.Threads
