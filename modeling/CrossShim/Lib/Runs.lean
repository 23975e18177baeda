import Mathlib

/-!
# Runs of a transition system

A system has initial states and labelled steps.  `Reach S C` are the states of the runs all of whose steps
meet the condition `C` on the state before the step and its label; `Reachable S` are the states of all runs.

`Reach.invariant` is the rule behind every safety result: what holds initially and is kept by each step that
meets the condition holds in every state of such a run.
-/

namespace CrossShim.Lib

structure System (σ ι : Type*) where
  init : σ → Prop
  step : σ → ι → σ → Prop

namespace System

variable {σ ι : Type*} {S : System σ ι} {C C' : σ → ι → Prop} {s s' : σ} {a : ι}

/-- The states of the runs whose steps all meet `C`. -/
inductive Reach (S : System σ ι) (C : σ → ι → Prop) : σ → Prop
  | init {s : σ} : S.init s → Reach S C s
  | step {s : σ} {a : ι} {s' : σ} : Reach S C s → C s a → S.step s a s' → Reach S C s'

abbrev Reachable (S : System σ ι) : σ → Prop := S.Reach fun _ _ => True

/-- **Invariants.** -/
theorem Reach.invariant {I : σ → Prop} (h0 : ∀ s, S.init s → I s)
    (hstep : ∀ s a s', I s → C s a → S.step s a s' → I s') (h : S.Reach C s) : I s := by
  induction h with
  | init hs => exact h0 _ hs
  | step _ hc hs ih => exact hstep _ _ _ ih hc hs

lemma Reach.mono (hC : ∀ s a, C s a → C' s a) (h : S.Reach C s) : S.Reach C' s := by
  induction h with
  | init hs => exact .init hs
  | step _ hc hs ih => exact .step ih (hC _ _ hc) hs

lemma Reachable.next (h : S.Reachable s) (hs : S.step s a s') : S.Reachable s' :=
  .step h trivial hs

def ofStep (init : σ → Prop) (f : σ → ι → Option σ) : System σ ι := ⟨init, fun s a s' => f s a = some s'⟩

section

variable {init : σ → Prop} {f : σ → ι → Option σ}

/-- A step that is only taken where it meets the condition. -/
def checked (C : σ → ι → Prop) [∀ s a, Decidable (C s a)] (f : σ → ι → Option σ) (s : σ) (a : ι) : Option σ :=
  if C s a then f s a else none

/-- **A list of steps**, each of which meets the condition. -/
lemma Reach.foldlM [∀ s a, Decidable (C s a)] : ∀ (as : List ι) {s s' : σ}, (ofStep init f).Reach C s →
    as.foldlM (checked C f) s = some s' → (ofStep init f).Reach C s'
  | [], _, _, h, hrun => by
    cases hrun
    exact h
  | a :: as, s, s', h, hrun => by
    rw [List.foldlM_cons] at hrun
    obtain ⟨s₁, h₁, h₂⟩ := Option.bind_eq_some_iff.1 hrun
    obtain ⟨hC, h₁⟩ := Option.ite_none_right_eq_some.1 h₁
    exact Reach.foldlM as (.step h hC h₁) h₂

lemma Reachable.foldlM {as : List ι} (h : (ofStep init f).Reachable s) (hrun : as.foldlM f s = some s') :
    (ofStep init f).Reachable s' :=
  Reach.foldlM as h hrun

end

end System

end CrossShim.Lib
