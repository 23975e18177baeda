import CrossShim.Calls.SafeStack

/-!
# The worker pool

A call from a thread that is no worker is queued in the mailbox of the worker that `pick_affinity_worker` chooses:
round-robin over the configured number of workers on the first call, and the same one from then on.
`spawn_vcpu_workers` may bring up fewer workers than configured, but the pool is published all the same.

Every request is queued for a worker that runs, in every run in which the round-robin number of each first call is
one of the workers that came up (`reach_served`).
-/

namespace CrossShim.Calls

open Lib Function

/-- The pool, and the mailboxes that requests were queued in. -/
structure Pool where
  count : ℕ
  pinned : ℤ
  spawned : ℕ
  published : Bool
  next : BitVec 32
  affinity : ℕ → ℤ
  queued : List ℤ

namespace Pool

/-- `vcpu_worker_count_`, from the value of `CROSSSHIM_VCPU_WORKERS` if it is set. -/
def workerCount : Option ℤ → ℕ
  | none => 8
  | some v => v.toNat

/-- `pinned` is the value of `CROSSSHIM_PIN_WORKER`, or -1. -/
def init (workers : Option ℤ) (pinned : ℤ) : Pool := ⟨workerCount workers, pinned, 0, false, 0, fun _ => -1, []⟩

/-- `spawn_vcpu_workers`: whether the clone stub could be written, and which clones made a vCPU. -/
def spawn (p : Pool) (written : Bool) (clones : ℕ → Bool) : Pool :=
  { p with
    spawned := if written then spawnVcpuWorkers clones p.count else 0
    published := true }

/-- `pick_affinity_worker` on the thread `t`. -/
def pickAffinityWorker (p : Pool) (t : ℕ) : ℤ × Pool :=
  if p.published = true ∧ p.count > 0 then
    if p.pinned ≥ 0 then (if p.pinned > p.count then p.count else p.pinned, p)
    else if p.affinity t < 1 then
      let worker := 1 + p.next.toInt.tmod p.count
      (worker, { p with next := p.next + 1, affinity := update p.affinity t worker })
    else (p.affinity t, p)
  else (0, p)

def call (p : Pool) (t : ℕ) : Pool :=
  let (worker, p') := p.pickAffinityWorker t
  { p' with queued := worker :: p'.queued }

/-- The worker of this mailbox runs `run_request_loop`: the emulator thread or a worker that came up. -/
def Served (p : Pool) (worker : ℤ) : Prop := 0 ≤ worker ∧ worker ≤ p.count ∧ worker ≤ p.spawned

end Pool

inductive PoolEvent where
  | spawn (written : Bool) (clones : ℕ → Bool)
  | call (t : ℕ)

def Pool.step (p : Pool) : PoolEvent → Option Pool
  | .spawn written clones => if p.published then none else some (p.spawn written clones)
  | .call t => some (p.call t)

def poolSystem (workers : Option ℤ) (pinned : ℤ) : System Pool PoolEvent := .ofStep (· = .init workers pinned) Pool.step

/-- The condition on a call: once the pool is up, the pinned worker came up, or the round-robin number of a thread's
first call is that of one that came up. -/
def Routed (p : Pool) : PoolEvent → Prop
  | .spawn _ _ => True
  | .call t => p.published = true → 0 < p.count →
      if p.pinned ≥ 0 then min p.pinned p.count ≤ p.spawned
      else p.affinity t < 1 → -1 ≤ p.next.toInt.tmod p.count ∧ p.next.toInt.tmod p.count < p.spawned

/-- Workers that came up are among those configured, and a thread with a worker has one that came up. -/
structure Pool.Inv (p : Pool) : Prop where
  spawned : p.spawned ≤ p.count
  fresh : p.published = false → p.spawned = 0
  affinity : ∀ t, 1 ≤ p.affinity t → p.affinity t ≤ p.spawned
  queued : ∀ worker ∈ p.queued, p.Served worker

lemma spawnFrom_le_add (clones : ℕ → Bool) : ∀ rest spawned, spawnFrom clones rest spawned ≤ spawned + rest := by
  intro rest
  induction rest with
  | zero => exact fun _ => le_rfl
  | succ rest ih =>
    intro spawned
    unfold spawnFrom
    dsimp only
    split_ifs
    · omega
    · exact (ih _).trans (by omega)
    · omega

section Inv

variable {p p' : Pool} {t : ℕ}

lemma Pool.inv_init (workers : Option ℤ) (pinned : ℤ) : (Pool.init workers pinned).Inv :=
  ⟨Nat.zero_le _, fun _ => rfl, fun _ h => absurd h (by simp [Pool.init]), nofun⟩

/-- **Which calls are served.** -/
theorem Pool.Inv.served_iff (hi : p.Inv) : p.Served (p.pickAffinityWorker t).1 ↔ Routed p (.call t) := by
  have hle := hi.spawned
  unfold pickAffinityWorker Routed Served
  by_cases hup : p.published = true ∧ p.count > 0
  · rw [if_pos hup]
    simp only [hup.1, hup.2, forall_const]
    by_cases hpin : p.pinned ≥ 0
    · rw [if_pos hpin, if_pos hpin]
      simp only
      split_ifs <;> omega
    · rw [if_neg hpin, if_neg hpin]
      by_cases ha : p.affinity t < 1
      · rw [if_pos ha]
        simp only [ha, true_imp_iff]
        omega
      · rw [if_neg ha]
        have := hi.affinity t (by omega)
        simp only [ha, false_imp_iff, iff_true]
        omega
  · rw [if_neg hup]
    refine iff_of_true ⟨le_rfl, by simp, by simp⟩ fun h1 h2 => absurd ⟨h1, h2⟩ hup

/-- Everything a choice can do: a thread without a worker gets the one that is returned. -/
lemma Pool.pickAffinityWorker_cases (p : Pool) (t : ℕ) : (p.pickAffinityWorker t).2 = p ∨
    (p.pickAffinityWorker t).2 =
      { p with next := p.next + 1, affinity := update p.affinity t (p.pickAffinityWorker t).1 } := by
  unfold pickAffinityWorker
  dsimp only
  split_ifs
  · exact .inl rfl
  · exact .inl rfl
  · exact .inr rfl
  · exact .inl rfl
  · exact .inl rfl

lemma Pool.Inv.call (hi : p.Inv) (h : Routed p (.call t)) : (p.call t).Inv := by
  have hserved := hi.served_iff.2 h
  unfold Pool.call
  generalize hw : p.pickAffinityWorker t = r at hserved
  obtain ⟨worker, p'⟩ := r
  have hcases := p.pickAffinityWorker_cases t
  simp only [hw] at hcases
  have hqueued : ∀ w ∈ worker :: p.queued, p.Served w := List.forall_mem_cons.2 ⟨hserved, hi.queued⟩
  rcases hcases with rfl | rfl
  · exact ⟨hi.spawned, hi.fresh, hi.affinity, hqueued⟩
  · refine ⟨hi.spawned, hi.fresh, fun u hu => ?_, hqueued⟩
    by_cases hut : u = t
    · subst hut
      simp only [update_self]
      exact hserved.2.2
    · simp only [update_of_ne hut] at hu ⊢
      exact hi.affinity u hu

lemma Pool.Inv.spawn (hi : p.Inv) (hp : p.published = false) (written : Bool) (clones : ℕ → Bool) :
    (p.spawn written clones).Inv := by
  have h0 := hi.fresh hp
  refine ⟨?_, nofun, fun t ht => ?_, fun w hw => ?_⟩
  · unfold Pool.spawn
    dsimp only
    split_ifs
    · exact (spawnFrom_le_add clones p.count 0).trans (by omega)
    · exact Nat.zero_le _
  · have := hi.affinity t ht
    change 1 ≤ p.affinity t at ht
    omega
  · obtain ⟨h1, -, h3⟩ := hi.queued w hw
    rw [h0] at h3
    exact ⟨h1, h3.trans (by simp), h3.trans (by simp)⟩

theorem Pool.inv_step {e : PoolEvent} (hi : p.Inv) (hc : Routed p e) (h : p.step e = some p') : p'.Inv := by
  cases e with
  | spawn written clones =>
    obtain ⟨hp, h⟩ := Option.ite_none_left_eq_some.1 h
    cases h
    exact hi.spawn (by simpa using hp) written clones
  | call t =>
    cases h
    exact hi.call hc

end Inv

/-- **Requests are queued for workers that run**, in every run in which the round-robin number of each first call is
that of a worker that came up; there the next call is served exactly when it meets the condition. -/
theorem reach_served {workers : Option ℤ} {pinned : ℤ} {p : Pool} (hr : (poolSystem workers pinned).Reach Routed p) :
    (∀ worker ∈ p.queued, p.Served worker) ∧ ∀ t, p.Served (p.pickAffinityWorker t).1 ↔ Routed p (.call t) := by
  have hinit : ∀ p, (poolSystem workers pinned).init p → p.Inv := by
    rintro p rfl
    exact Pool.inv_init workers pinned
  have hi : p.Inv := hr.invariant hinit fun _ _ _ hi hc h => Pool.inv_step hi hc h
  exact ⟨hi.queued, fun t => hi.served_iff⟩

theorem reach_served_two_threads : ∃ p, (poolSystem (some 2) (-1)).Reach Routed p ∧ p.queued = [2, 1] ∧
    ∀ worker ∈ p.queued, p.Served worker := by
  have h₁ := System.Reach.step (S := poolSystem (some 2) (-1)) (C := Routed) (a := .spawn true fun _ => true)
    (.init rfl) trivial rfl
  have h₂ := System.Reach.step (a := PoolEvent.call 0) h₁ (fun _ _ => by decide) rfl
  have h₃ := System.Reach.step (a := PoolEvent.call 1) h₂ (fun _ _ => by decide) rfl
  exact ⟨_, h₃, rfl, (reach_served h₃).1⟩

/-- **A worker that did not come up is chosen**: the second of two clones makes no vCPU, and the second thread's
request is queued where nobody looks. -/
theorem queued_unserved : ¬ ∀ workers pinned p, (poolSystem workers pinned).Reachable p →
    ∀ worker ∈ p.queued, p.Served worker := by
  intro h
  have hrun : [PoolEvent.spawn true (fun i => i == 1), .call 0, .call 1].foldlM Pool.step (.init (some 2) (-1)) =
    some _ := rfl
  have hserved := h _ _ _ (System.Reachable.foldlM (.init rfl) hrun) 2 (by decide)
  exact absurd hserved.2.2 (by decide)

end CrossShim.Calls
