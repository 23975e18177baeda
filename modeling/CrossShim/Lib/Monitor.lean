import CrossShim.Lib.Runs

/-!
# Monitors

Data behind a lock, and threads that make calls on it.  A call is run section by section: a section is what a
thread does between taking the lock and giving it back, and ends with the call's return, with another section, or
with a sleep until the thread is woken.  Sections are atomic, so a run of the monitor is an interleaving of the
sections of all threads (`Monitor.system`).  A thread may be woken at any time, as condition variables allow.

The state keeps the calls that have returned (`log`).  `step_cases` says what a step can do to the data, the log
and the places of the threads; `attentive_step` is the rule that no wake-up is lost: if a thread sleeps only while
its condition is false, and a section that makes the condition of another thread true wakes everybody, then nobody
sleeps whose condition is true.
-/

namespace CrossShim.Lib

open Function Option

inductive Wake where
  | nobody
  | one
  | all
  deriving DecidableEq

structure Active (α κ : Type*) where
  call : α
  place : κ
  asleep : Bool

def Active.rouse {α κ : Type*} (x : Active α κ) : Active α κ := { x with asleep := false }

inductive Next (κ ρ : Type*) where
  | ret (result : ρ)
  | go (k : κ)
  | sleep (k : κ)

namespace Next

variable {α ι κ ρ : Type*}

def active (a : α) : Next κ ρ → Option (Active α κ)
  | .ret _ => none
  | .go k => some ⟨a, k, false⟩
  | .sleep k => some ⟨a, k, true⟩

def place (a : α) : Next κ ρ → Option (α × κ)
  | .ret _ => none
  | .go k => some (a, k)
  | .sleep k => some (a, k)

def log (i : ι) (a : α) (log : List (ι × α × ρ)) : Next κ ρ → List (ι × α × ρ)
  | .ret r => (i, a, r) :: log
  | .go _ => log
  | .sleep _ => log

end Next

structure Outcome (σ κ ρ : Type*) where
  data : σ
  wake : Wake
  next : Next κ ρ

/-- The calls `α`, run in sections `κ` over the data `σ`.  A section sees `τ` of the outside. -/
structure Monitor (ι α κ τ σ ρ : Type*) where
  start : α → κ
  run : ι → α → κ → τ → σ → Outcome σ κ ρ

namespace Monitor

structure State (ι α κ σ ρ : Type*) where
  data : σ
  active : ι → Option (Active α κ)
  /-- The calls that have returned, newest first. -/
  log : List (ι × α × ρ)

/-- A call begins, a thread runs its next section, a thread is woken.  A section that wakes one thread wakes
`pick`. -/
inductive Event (ι α τ : Type*) where
  | call (i : ι) (a : α)
  | run (i : ι) (t : τ) (pick : ι)
  | wake (i : ι)

variable {ι α κ τ σ ρ : Type*} [DecidableEq ι]

def State.init (d : σ) : State ι α κ σ ρ := ⟨d, fun _ => none, []⟩

/-- Where a thread is: its call, and the section it runs next. -/
def State.place (s : State ι α κ σ ρ) (i : ι) : Option (α × κ) := (s.active i).map fun x => (x.call, x.place)

def rouse (pick : ι) (active : ι → Option (Active α κ)) : Wake → ι → Option (Active α κ)
  | .nobody => active
  | .one => update active pick ((active pick).map Active.rouse)
  | .all => fun j => (active j).map Active.rouse

/-- The state after a section of the thread `i`, in the call `a`. -/
def State.after (s : State ι α κ σ ρ) (i : ι) (a : α) (pick : ι) (o : Outcome σ κ ρ) : State ι α κ σ ρ where
  data := o.data
  active := update (rouse pick s.active o.wake) i (o.next.active a)
  log := o.next.log i a s.log

def step (M : Monitor ι α κ τ σ ρ) (s : State ι α κ σ ρ) : Event ι α τ → Option (State ι α κ σ ρ)
  | .call i a =>
    match s.active i with
    | none => some { s with active := update s.active i (some ⟨a, M.start a, false⟩) }
    | some _ => none
  | .run i t pick =>
    match s.active i with
    | some ⟨a, k, false⟩ => some (s.after i a pick (M.run i a k t s.data))
    | _ => none
  | .wake i =>
    match s.active i with
    | some ⟨a, k, true⟩ => some { s with active := update s.active i (some ⟨a, k, false⟩) }
    | _ => none

/-- The runs of a monitor, from data that meet `init`. -/
def system (M : Monitor ι α κ τ σ ρ) (init : σ → Prop) : System (State ι α κ σ ρ) (Event ι α τ) :=
  .ofStep (fun s => ∃ d, init d ∧ s = .init d) M.step

/-! ### What a step does -/

lemma of_update {β : Type*} {f : ι → Option β} {i j : ι} {v : Option β} {x : β}
    (h : update f i v j = some x) : (j = i ∧ v = some x) ∨ (j ≠ i ∧ f j = some x) := by
  by_cases hj : j = i
  · subst hj
    rw [update_self] at h
    exact .inl ⟨rfl, h⟩
  · rw [update_of_ne hj] at h
    exact .inr ⟨hj, h⟩

section Steps

variable {M : Monitor ι α κ τ σ ρ} {s s' : State ι α κ σ ρ} {e : Event ι α τ} {i j pick : ι} {a : α} {k : κ}
  {w : Wake} {o : Outcome σ κ ρ} {active : ι → Option (Active α κ)}

@[simp] lemma place_next (n : Next κ ρ) : (n.active a).map (fun x => (x.call, x.place)) = n.place a := by
  cases n <;> rfl

lemma place_rouse (j : ι) :
    (rouse pick active w j).map (fun x => (x.call, x.place)) = (active j).map fun x => (x.call, x.place) := by
  have hmap (j : ι) : ((active j).map Active.rouse).map (fun x => (x.call, x.place)) =
      (active j).map fun x => (x.call, x.place) := by
    cases active j <;> rfl
  cases w with
  | nobody => rfl
  | one =>
    refine (forall_update_iff active fun j y =>
      y.map (fun x => (x.call, x.place)) = (active j).map fun x => (x.call, x.place)).2 ⟨hmap pick, fun j _ => rfl⟩ j
  | all => exact hmap j

lemma place_update (x : Option (Active α κ)) : State.place { s with active := update s.active i x } =
    update s.place i (x.map fun x => (x.call, x.place)) :=
  comp_update (Option.map fun x : Active α κ => (x.call, x.place)) s.active i x

lemma place_after : (s.after i a pick o).place = update s.place i (o.next.place a) := by
  have hrouse : State.place { s with active := rouse pick s.active o.wake } = s.place := funext place_rouse
  rw [← hrouse, ← place_next]
  exact place_update (s := { s with active := rouse pick s.active o.wake }) _

omit [DecidableEq ι] in
lemma place_of_active {x : Active α κ} (h : s.active i = some x) : s.place i = some (x.call, x.place) := by
  simp only [State.place, h, map_some]

omit [DecidableEq ι] in
lemma asleep_of_next {n : Next κ ρ} {x : Active α κ} (h : n.active a = some x) (hx : x.asleep = true) :
    x.call = a ∧ n = .sleep x.place := by
  cases n with
  | ret r => cases h
  | go k =>
    cases h
    cases hx
  | sleep k =>
    cases h
    exact ⟨rfl, rfl⟩

lemma asleep_of_rouse {x : Active α κ} (h : rouse pick active w j = some x) (hx : x.asleep = true) :
    active j = some x ∧ w ≠ .all := by
  have hmap (j : ι) : (active j).map Active.rouse ≠ some x := by
    intro h
    obtain ⟨y, -, rfl⟩ := map_eq_some_iff.1 h
    cases hx
  cases w with
  | nobody => exact ⟨h, nofun⟩
  | one =>
    obtain ⟨-, h⟩ | ⟨-, h⟩ := of_update h
    · exact absurd h (hmap pick)
    · exact ⟨h, nofun⟩
  | all => exact absurd h (hmap j)

lemma step_cases (h : M.step s e = some s') :
    (∃ i a, e = .call i a ∧ s.place i = none ∧ s'.data = s.data ∧ s'.log = s.log ∧
        s'.place = update s.place i (some (a, M.start a))) ∨
      (∃ i, e = .wake i ∧ s'.data = s.data ∧ s'.log = s.log ∧ s'.place = s.place) ∨
      ∃ i t pick a k, e = .run i t pick ∧ s.active i = some ⟨a, k, false⟩ ∧
        s' = s.after i a pick (M.run i a k t s.data) := by
  cases e with
  | call i a =>
    simp only [step] at h
    split at h
    case h_1 hi =>
      cases h
      exact .inl ⟨i, a, rfl, by simp only [State.place, hi, map_none], rfl, rfl, place_update _⟩
    case h_2 => cases h
  | run i t pick =>
    simp only [step] at h
    split at h
    case h_1 a k hi =>
      cases h
      exact .inr (.inr ⟨i, t, pick, a, k, rfl, hi, rfl⟩)
    case h_2 => cases h
  | wake i =>
    simp only [step] at h
    split at h
    case h_1 a k hi =>
      cases h
      refine .inr (.inl ⟨i, rfl, rfl, rfl, (place_update _).trans ?_⟩)
      rw [update_eq_self_iff]
      exact (place_of_active hi).symm
    case h_2 => cases h

end Steps

/-! ### No wake-up is lost -/

section Attentive

variable {M : Monitor ι α κ τ σ ρ} {J : σ → Prop} {ready : ι → α → κ → σ → Prop} {s s' : State ι α κ σ ρ}
  {e : Event ι α τ} {i pick : ι} {a : α} {o : Outcome σ κ ρ}

def Attentive (ready : ι → α → κ → σ → Prop) (s : State ι α κ σ ρ) : Prop :=
  ∀ i x, s.active i = some x → x.asleep = true → ¬ ready i x.call x.place s.data

/-- A section that makes the condition of another thread true wakes everybody. -/
def Notifies (M : Monitor ι α κ τ σ ρ) (J : σ → Prop) (ready : ι → α → κ → σ → Prop) : Prop :=
  ∀ i a k t d j b l, J d → i ≠ j → ¬ ready j b l d → ready j b l (M.run i a k t d).data →
    (M.run i a k t d).wake = .all

/-- A thread goes to sleep only while its condition is false. -/
def SleepsUnready (M : Monitor ι α κ τ σ ρ) (ready : ι → α → κ → σ → Prop) : Prop :=
  ∀ i a k t d l, (M.run i a k t d).next = .sleep l → ¬ ready i a l (M.run i a k t d).data

omit [DecidableEq ι] in
lemma attentive_init (d : σ) : Attentive ready (State.init d : State ι α κ σ ρ) := nofun

/-- A section sleeps only while its condition is false, and wakes the others when theirs becomes true. -/
lemma attentive_after (ha : Attentive ready s)
    (hown : ∀ k, o.next = .sleep k → ¬ ready i a k o.data)
    (hothers : ∀ j b l, i ≠ j → ¬ ready j b l s.data → ready j b l o.data → o.wake = .all) :
    Attentive ready (s.after i a pick o) := by
  intro j x hj hx
  obtain ⟨rfl, hnew⟩ | ⟨hji, hold⟩ := of_update hj
  · obtain ⟨rfl, hnext⟩ := asleep_of_next hnew hx
    exact hown x.place hnext
  · obtain ⟨hj, hw⟩ := asleep_of_rouse hold hx
    intro hready
    exact hw (hothers j x.call x.place (Ne.symm hji) (ha j x hj hx) hready)

lemma attentive_update {y : Active α κ} (ha : Attentive ready s) (hy : y.asleep = false) :
    Attentive ready { s with active := update s.active i (some y) } := by
  intro j x hj hx
  obtain ⟨rfl, hnew⟩ | ⟨-, hold⟩ := of_update hj
  · cases hnew
    exact absurd (hy.symm.trans hx) nofun
  · exact ha j x hold hx

/-- **No lost wake-ups.** -/
theorem attentive_step (hn : M.Notifies J ready) (hs : M.SleepsUnready ready) (hJ : J s.data)
    (ha : Attentive ready s) (h : M.step s e = some s') : Attentive ready s' := by
  cases e with
  | call i a | wake i =>
    simp only [step] at h
    split at h
    case h_1 =>
      cases h
      exact attentive_update ha rfl
    case h_2 => cases h
  | run i t pick =>
    simp only [step] at h
    split at h
    case h_1 a k hi =>
      cases h
      exact attentive_after ha (fun l => hs i a k t s.data l) (fun j b l => hn i a k t s.data j b l hJ)
    case h_2 => cases h

end Attentive

/-! ### Everybody is awake -/

section AllAwake

variable {M : Monitor ι α κ τ σ ρ} {s s' : State ι α κ σ ρ} {e : Event ι α τ} {i pick : ι} {a : α} {o : Outcome σ κ ρ}

def AllAwake (s : State ι α κ σ ρ) : Prop := ∀ i x, s.active i = some x → x.asleep = false

lemma allAwake_after (h : AllAwake s ∨ o.wake = .all) (hnext : ∀ k, o.next ≠ .sleep k) :
    AllAwake (s.after i a pick o) := by
  intro j x hj
  refine Bool.eq_false_iff.2 fun hx => ?_
  obtain ⟨-, hnew⟩ | ⟨-, hold⟩ := of_update hj
  · exact hnext _ (asleep_of_next hnew hx).2
  · obtain ⟨hact, hw⟩ := asleep_of_rouse hold hx
    obtain h | h := h
    · exact Bool.eq_false_iff.1 (h j x hact) hx
    · exact hw h

lemma allAwake_step (h : AllAwake s) (hs : M.step s e = some s')
    (hrun : ∀ i t pick a k, e = .run i t pick → s.active i = some ⟨a, k, false⟩ →
      ∀ l, (M.run i a k t s.data).next ≠ .sleep l) : AllAwake s' := by
  cases e with
  | call i a =>
    simp only [step] at hs
    split at hs
    case h_1 =>
      cases hs
      intro j x hj
      obtain ⟨rfl, hnew⟩ | ⟨-, hold⟩ := of_update hj
      · cases hnew
        rfl
      · exact h j x hold
    case h_2 => cases hs
  | run i t pick =>
    simp only [step] at hs
    split at hs
    case h_1 a k hi =>
      cases hs
      exact allAwake_after (.inl h) (hrun i t pick a k rfl hi)
    case h_2 => cases hs
  | wake i =>
    simp only [step] at hs
    split at hs
    case h_1 a k hi => exact absurd (h i _ hi) (by simp)
    case h_2 => cases hs

end AllAwake

end Monitor

end CrossShim.Lib
