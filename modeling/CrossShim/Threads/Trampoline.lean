import CrossShim.Threads.CreateCall

/-!
# The code that new threads start with

`write_thread_wrapper` of `hle_pthread.cpp`, which every `pthread_create` calls on its way to the clone trampoline.  The
flag is set before anything is written: a thread that finds it set goes on to a trampoline that may not be there yet.
-/

namespace CrossShim.Threads.Trampoline

open Lib Function

/-- The words `write_thread_wrapper` writes at `THREAD_WRAPPER_ADDR`. -/
def wrapperCode : List (BitVec 32) :=
  [0xF9400BE4, 0xD51BD044, 0xD28246A8, 0xD4000001, 0xA9400FE2, 0xAA0303E0, 0xD63F0040, 0xD2824688, 0xD4000001,
    0xD2800BA8, 0xD4000001]

/-- The words of both codes, in the order in which they are written. -/
def code : List (BitVec 32) := wrapperCode ++ trampolineCode

/-- Where a thread is: before the test of the flag, before it sets the flag, at a word that it writes, back in
`pthread_create`, or sent to the trampoline. -/
inductive Place where
  | called
  | unwritten
  | writing (k : ℕ)
  | ready
  | sent
  deriving DecidableEq

/-- `mem` has the words at the places of `code`. -/
structure State (ι : Type*) where
  trampolineWritten : Bool := false
  mem : ℕ → BitVec 32 := fun _ => 0
  place : ι → Place := fun _ => .called

variable {ι : Type*} [DecidableEq ι] {s s' : State ι} {i : ι}

def State.goto (s : State ι) (i : ι) (p : Place) : State ι := { s with place := update s.place i p }

/-- A thread takes a step; one that `pthread_create` fails for takes no more. -/
def step (s : State ι) (i : ι) : Option (State ι) :=
  match s.place i with
  | .called => some (s.goto i (if s.trampolineWritten then .ready else .unwritten))
  | .unwritten => some ({ s with trampolineWritten := true }.goto i (.writing 0))
  | .writing k =>
    some ({ s with mem := update s.mem k (code.getD k 0) }.goto i
      (if k + 1 < code.length then .writing (k + 1) else .ready))
  | .ready => some (s.goto i .sent)
  | .sent => none

def system (ι : Type*) [DecidableEq ι] : System (State ι) ι := .ofStep (· = {}) step

/-- The first words are in memory. -/
def State.Has (s : State ι) (n : ℕ) : Prop := ∀ k < n, s.mem k = code.getD k 0

/-- **No thread is sent before both codes are written.** -/
def State.Safe (s : State ι) : Prop := ∀ i, s.place i = .sent → s.Has code.length

def Place.writes : Place → Bool
  | .writing _ => true
  | _ => false

/-- The condition on a step: no thread finds the flag set while one is writing. -/
def Careful (s : State ι) (i : ι) : Prop :=
  s.place i = .called → s.trampolineWritten = true → ∀ j, (s.place j).writes = false

instance [Fintype ι] (s : State ι) (i : ι) : Decidable (Careful s i) := inferInstanceAs (Decidable (_ → _ → _))

/-- How many words are in memory when a thread is at a place. -/
def Place.words : Place → ℕ
  | .called | .unwritten => 0
  | .writing k => k
  | .ready | .sent => code.length

/-- The words are there that the threads rely on, and once the flag is set, all of them or a thread that writes. -/
structure Inv (s : State ι) : Prop where
  words : ∀ i, s.Has (s.place i).words
  flag : s.trampolineWritten = true → s.Has code.length ∨ ∃ i, (s.place i).writes = true

lemma has_goto (hi : ∀ j, s.Has (s.place j).words) {p : Place} (hp : s.Has p.words) (j : ι) :
    s.Has ((s.goto i p).place j).words :=
  (forall_update_iff s.place fun _ (q : Place) => s.Has q.words).2 ⟨hp, fun k _ => hi k⟩ j

lemma Inv.goto (hi : Inv s) {p : Place} (hp : s.Has p.words)
    (hw : (s.place i).writes = true → s.Has code.length ∨ p.writes = true) : Inv (s.goto i p) := by
  refine ⟨has_goto hi.words hp, fun hf => ?_⟩
  obtain hall | ⟨j, hj⟩ := hi.flag hf
  · exact .inl hall
  by_cases hji : j = i
  · subst hji
    exact (hw hj).imp_right fun hp => ⟨j, by simpa [State.goto] using hp⟩
  · exact .inr ⟨j, by simpa [State.goto, hji] using hj⟩

lemma inv_step (hi : Inv s) (hc : Careful s i) (hs : step s i = some s') : Inv s' := by
  have hwords := hi.words i
  unfold step at hs
  split at hs <;> rename_i hp <;> cases hs <;> rw [hp] at hwords
  · have hw : (s.place i).writes ≠ true := by simp [hp, Place.writes]
    split_ifs with hf
    · refine hi.goto ((hi.flag hf).resolve_right ?_) fun h => absurd h hw
      rintro ⟨j, hj⟩
      cases (hc hp hf j).symm.trans hj
    · exact hi.goto nofun fun h => absurd h hw
  · have hnone : s.Has (Place.writing 0).words := nofun
    exact ⟨has_goto hi.words hnone, fun _ => .inr ⟨i, by simp [State.goto, Place.writes]⟩⟩
  · rename_i k
    have hwrite {n} (h : s.Has n) (j) (hj : j < n ∨ j = k) : update s.mem k (code.getD k 0) j = code.getD j 0 := by
      by_cases hjk : j = k
      · rw [hjk, update_self]
      · rw [update_of_ne hjk]
        exact h j (hj.resolve_right hjk)
    have hinv : Inv { s with mem := update s.mem k (code.getD k 0) } :=
      ⟨fun m j hj => hwrite (hi.words m) j (.inl hj), fun hf => (hi.flag hf).imp_left fun h j hj => hwrite h j (.inl hj)⟩
    split_ifs with hk
    · refine hinv.goto (fun j hj => hwrite hwords j ?_) fun _ => .inr rfl
      simp only [Place.words] at hj ⊢
      omega
    · have hall (j : ℕ) (hj : j < code.length) : update s.mem k (code.getD k 0) j = code.getD j 0 := by
        refine hwrite hwords j ?_
        simp only [Place.words]
        omega
      exact hinv.goto hall fun _ => .inl hall
  · exact hi.goto hwords fun h => by simp [hp, Place.writes] at h

/-- **The trampoline is there** for every thread that is sent, in every run whose steps are careful. -/
theorem safe_of_careful (hr : (system ι).Reach Careful s) : s.Safe := by
  have hinv : Inv s := by
    refine System.Reach.invariant ?_ (fun _ _ _ => inv_step) hr
    rintro s rfl
    exact ⟨nofun, nofun⟩
  intro i hsent
  have h := hinv.words i
  rwa [hsent] at h

/-- One thread writes and is sent, and another one that finds the flag set then. -/
theorem second_sent : ∃ s : State (Fin 2), (system (Fin 2)).Reach Careful s ∧ s.place 1 = .sent ∧ s.Has code.length := by
  have hrun : ((List.replicate 21 (0 : Fin 2) ++ [1, 0, 1]).foldlM (System.checked Careful step) {}).map
      (State.place · 1) = some .sent := by
    decide +kernel
  obtain ⟨s, hs, hsent⟩ := Option.map_eq_some_iff.1 hrun
  have hreach : (system (Fin 2)).Reach Careful s := System.Reach.foldlM _ (.init rfl) hs
  exact ⟨s, hreach, hsent, safe_of_careful hreach 1 hsent⟩

/-- One thread has set the flag, and another one is sent before anything is written. -/
theorem sent_unwritten : ∃ s, (system ℕ).Reachable s ∧ ¬s.Safe := by
  refine ⟨_, System.Reachable.foldlM (.init rfl) (show [0, 0, 1, 1].foldlM step {} = some _ from rfl), fun h => ?_⟩
  exact absurd (h 1 rfl 0 (by decide)) (by decide)

end CrossShim.Threads.Trampoline
