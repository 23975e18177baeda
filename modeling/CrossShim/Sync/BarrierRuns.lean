import CrossShim.Sync.Barrier

/-!
# Runs on a barrier

The rounds of a barrier come out right in every run in which a barrier is destroyed only while no thread is inside a
wait on it, is not initialised anew with another count, and goes through fewer than `2 ^ 32` rounds while a thread
that was let go has not left (`Careful`).

The generation of a barrier is the number of its rounds modulo `2 ^ 32`.  The invariant `BarrierInv` counts, for each
round, the threads that wait in it and what the others have been told (`RoundOk`).
-/

namespace CrossShim.Sync

open Lib Monitor Function BitVec Next BarrierData

variable {ι : Type*} [DecidableEq ι]

/-- A thread is inside a wait on the barrier `o`. -/
def Inside (o : ℕ) (p : Option (BarrierCall × BarrierPlace)) : Prop :=
  ∃ c k, p = some (c, k) ∧ (k = .locked o ∨ ∃ g r, k = .waiting o g r)

/-- What is asked of the next section of a thread. `init` finds no barrier, or one with its own count; `destroy` finds
no thread inside a wait, unless threads still have to arrive; and when a round ends, nobody is inside whose generation
comes again. -/
def CarefulAt (s : BarrierState ι) : Option (BarrierCall × BarrierPlace) → Prop
  | some (.init count attrOk, .enter) => count ≠ 0 → attrOk = true → s.data.held = false →
    ∀ o, s.data.entry = some o → (s.data.barriers o).count = count
  | some (.destroy, .enter) => s.data.held = false →
    ∀ o, s.data.entry = some o → (s.data.barriers o).waiting = 0 → ∀ j, ¬ Inside o (s.place j)
  | some (_, .locked o) => (s.data.barriers o).waiting + 1 = (s.data.barriers o).count →
    ∀ j c g r, s.place j = some (c, .waiting o g r) → g ≠ (s.data.barriers o).generation + 1
  | _ => True

def Careful (s : BarrierState ι) : Monitor.Event ι BarrierCall BarrierResult → Prop
  | .run i _ _ => CarefulAt s (s.place i)
  | _ => True

/-! ### The effect of one section -/

structure Barrier.Usable (b : Barrier) : Prop where
  freed : b.freed = false
  initialized : b.initialized = true
  count : b.count ≠ 0

/-- All that a section can do.  In the case `lost` the barrier of a waiter has been destroyed. -/
inductive BarrierDoes (c : BarrierCall) (k : BarrierPlace) (d : BarrierData) : BarrierOutcome → Prop where
  | spin (hk : k = .enter) : BarrierDoes c k d d.spin
  | fails (e : Errno) (hk : k = .enter) : BarrierDoes c k d (d.fails e)
  | create (count : BitVec 32) (hk : k = .enter) (hcount : count ≠ 0) (he : d.entry = none) (hh : d.held = false) :
      BarrierDoes c k d ⟨{ d.set d.fresh { count := count, initialized := true, declared := count } with
        fresh := d.fresh + 1, entry := some d.fresh }, .nobody, .ret ⟨.ok, none⟩⟩
  | rejoin (count : BitVec 32) (o : ℕ) (hc : c = .init count true) (hk : k = .enter) (hcount : count ≠ 0)
      (he : d.entry = some o) (hh : d.held = false) :
      BarrierDoes c k d ⟨d.set o { d.barriers o with declared := count }, .nobody, .ret ⟨.ok, none⟩⟩
  | found (o : ℕ) (hk : k = .enter) (he : d.entry = some o) (hh : d.held = false) :
      BarrierDoes c k d ⟨d, .nobody, .go (.locked o)⟩
  | lost (o : ℕ) (x : BarrierReturn) (hin : Inside o (some (c, k))) (hu : ¬ (d.barriers o).Usable) :
      BarrierDoes c k d ⟨d, .nobody, .ret x⟩
  | arrive (o : ℕ) (hk : k = .locked o) (hw : (d.barriers o).waiting + 1 ≠ (d.barriers o).count) :
      BarrierDoes c k d ⟨d.set o { d.barriers o with waiting := (d.barriers o).waiting + 1 }, .nobody,
        .sleep (.waiting o (d.barriers o).generation (d.barriers o).round)⟩
  | release (o : ℕ) (hk : k = .locked o) (hw : (d.barriers o).waiting + 1 = (d.barriers o).count) :
      BarrierDoes c k d ⟨d.set o { d.barriers o with
        waiting := 0, generation := (d.barriers o).generation + 1, round := (d.barriers o).round + 1 }, .all,
        .ret ⟨.serial, some (o, (d.barriers o).round)⟩⟩
  | again (o : ℕ) (g : BitVec 32) (r : ℕ) (hk : k = .waiting o g r) (hg : (d.barriers o).generation = g) :
      BarrierDoes c k d ⟨d, .nobody, .sleep (.waiting o g r)⟩
  | leave (o : ℕ) (g : BitVec 32) (r : ℕ) (hk : k = .waiting o g r) (hg : (d.barriers o).generation ≠ g) :
      BarrierDoes c k d ⟨d, .nobody, .ret ⟨.ok, some (o, r)⟩⟩
  | mark (o : ℕ) (hc : c = .destroy) (hk : k = .enter) (he : d.entry = some o) (hh : d.held = false)
      (hw : (d.barriers o).waiting = 0) :
      BarrierDoes c k d ⟨{ d.set o { d.barriers o with initialized := false } with held := true }, .nobody,
        .go (.erase o)⟩
  | erase (o : ℕ) (hk : k = .erase o) : BarrierDoes c k d (d.erase o)

section Does

variable {c : BarrierCall} {k : BarrierPlace} {d : BarrierData} {t : BarrierResult} {o : ℕ}

lemma init_does {count : BitVec 32} {attrOk : Bool} :
    BarrierDoes (.init count attrOk) .enter d (d.init count attrOk) := by
  unfold init
  split
  case isTrue => exact .fails _ rfl
  case isFalse hcount =>
    split
    case isTrue => exact .fails _ rfl
    case isFalse hattr =>
      split
      case isTrue => exact .spin rfl
      case isFalse hh =>
        have hheld : d.held = false := by simpa using hh
        unfold getOrCreateBarrier
        cases he : d.entry with
        | none =>
          have hinit : decide (count ≠ 0) = true := decide_eq_true hcount
          simp only [hinit]
          exact .create count rfl hcount he hheld
        | some o =>
          have hattr : attrOk = true := by simpa using hattr
          subst hattr
          exact .rejoin count o rfl rfl hcount he hheld

lemma lookup_barrier_does : BarrierDoes c .enter d d.lookup := by
  unfold lookup
  split
  case isTrue => exact .spin rfl
  case isFalse hh =>
    cases he : d.entry with
    | none => exact .fails _ rfl
    | some o => exact .found o rfl he (by simpa using hh)

lemma mark_does : BarrierDoes .destroy .enter d d.mark := by
  unfold mark
  split
  case isTrue => exact .spin rfl
  case isFalse hh =>
    cases he : d.entry with
    | none => exact .fails _ rfl
    | some o =>
      simp only
      split
      case isTrue => exact .fails _ rfl
      case isFalse =>
        split
        case isTrue => exact .fails _ rfl
        case isFalse hw => exact .mark o rfl rfl he (by simpa using hh) (not_not.1 hw)

lemma arrive_does : BarrierDoes c (.locked o) d (d.arrive o t) := by
  have hin : Inside o (some (c, .locked o)) := ⟨c, _, rfl, .inl rfl⟩
  simp only [arrive]
  split
  case isTrue hf => exact .lost o _ hin fun hu => absurd (hu.freed.symm.trans hf) nofun
  case isFalse =>
    split
    case isTrue hn =>
      refine .lost o _ hin fun hu => ?_
      obtain hn | hn := hn
      · exact absurd (hu.initialized.symm.trans hn) nofun
      · exact hu.count hn
    case isFalse =>
      split
      case isTrue hw => exact .release o rfl hw
      case isFalse hw => exact .arrive o rfl hw

lemma woken_does {g : BitVec 32} {r : ℕ} : BarrierDoes c (.waiting o g r) d (d.woken o g r t) := by
  have hin : Inside o (some (c, .waiting o g r)) := ⟨c, _, rfl, .inr ⟨g, r, rfl⟩⟩
  simp only [woken]
  split
  case isTrue hf => exact .lost o _ hin fun hu => absurd (hu.freed.symm.trans hf) nofun
  case isFalse =>
    split
    case isTrue hn => exact .lost o _ hin fun hu => absurd (hu.initialized.symm.trans hn) nofun
    case isFalse =>
      split
      case isTrue hg => exact .again o g r rfl hg
      case isFalse hg => exact .leave o g r rfl hg

lemma barrierRun_does : BarrierDoes c k d (d.runSection c k t) := by
  cases k with
  | enter =>
    cases c with
    | init count attrOk => exact init_does
    | wait => exact lookup_barrier_does
    | destroy => exact mark_does
  | locked o => exact arrive_does
  | waiting o g r => exact woken_does
  | erase o => exact .erase o rfl

end Does

/-! ### The barriers themselves -/

structure Barrier.Wf (b : Barrier) : Prop where
  declared : b.declared = b.count
  room : b.count ≠ 0 → b.waiting < b.count
  generation : b.generation = BitVec.ofNat 32 b.round

structure BarriersOk (d : BarrierData) : Prop where
  unmade : ∀ o, d.fresh ≤ o → d.barriers o = {}
  count : ∀ o < d.fresh, (d.barriers o).count ≠ 0
  wf : ∀ o, (d.barriers o).Wf

/-- The barrier of the table is in use, unless a `destroy` is about to erase it. -/
def EntryOk (d : BarrierData) : Prop :=
  ∀ o, d.entry = some o → o < d.fresh ∧ (d.barriers o).freed = false ∧
    (d.held = false → (d.barriers o).initialized = true)

@[simp] lemma set_self (d : BarrierData) (o : ℕ) (b : Barrier) : (d.set o b).barriers o = b :=
  update_self ..

lemma set_of_ne (d : BarrierData) (o : ℕ) (b : Barrier) {p : ℕ} (h : p ≠ o) :
    (d.set o b).barriers p = d.barriers p := update_of_ne h ..

lemma set_cases {P : Barrier → Prop} {d : BarrierData} {o p : ℕ} {b : Barrier} (hne : p ≠ o → P (d.barriers p))
    (heq : p = o → P b) : P ((d.set o b).barriers p) := by
  by_cases hpo : p = o
  · rw [hpo, set_self]
    exact heq hpo
  · rw [set_of_ne d o b hpo]
    exact hne hpo

section Data

variable {c : BarrierCall} {k : BarrierPlace} {d : BarrierData} {out : BarrierOutcome} {o : ℕ} {b : Barrier}

lemma BarriersOk.set (h : BarriersOk d) (ho : o < d.fresh) (hwf : b.Wf) (hcount : b.count ≠ 0) :
    BarriersOk (d.set o b) := by
  refine ⟨fun p hp => ?_, fun p hp => ?_, fun p => ?_⟩
  · have hpo : p ≠ o := by
      rintro rfl
      exact absurd ho (not_lt.2 hp)
    rw [set_of_ne d o b hpo]
    exact h.unmade p hp
  · exact set_cases (P := fun b => b.count ≠ 0) (fun _ => h.count p hp) fun _ => hcount
  · exact set_cases (P := Barrier.Wf) (fun _ => h.wf p) fun _ => hwf

lemma BarriersOk.create {count : BitVec 32} (h : BarriersOk d) (hcount : count ≠ 0) :
    BarriersOk { d.set d.fresh { count := count, initialized := true, declared := count } with
      fresh := d.fresh + 1, entry := some d.fresh } := by
  have hwf : ({ count := count, initialized := true, declared := count } : Barrier).Wf :=
    ⟨rfl, fun _ => by bv_omega, rfl⟩
  refine ⟨fun p hp => ?_, fun p hp => ?_, fun p => ?_⟩
  · have hp : d.fresh + 1 ≤ p := hp
    exact (set_of_ne d d.fresh _ (by omega)).trans (h.unmade p (by omega))
  · have hp : p < d.fresh + 1 := hp
    exact set_cases (P := fun b => b.count ≠ 0) (d := d) (fun hpo => h.count p (by omega)) fun _ => hcount
  · exact set_cases (P := Barrier.Wf) (d := d) (fun _ => h.wf p) fun _ => hwf

/-- The barriers after a section of a thread that is inside a wait, or takes an `init` to a barrier of its count. -/
lemma BarriersOk.does (h : BarriersOk d) (hd : BarrierDoes c k d out) (he : EntryOk d)
    (hk : ∀ o, k = .locked o ∨ k = .erase o → o < d.fresh)
    (hrejoin : ∀ count o, c = .init count true → k = .enter → count ≠ 0 → d.held = false → d.entry = some o →
      (d.barriers o).count = count) :
    BarriersOk out.data := by
  cases hd with
  | create count _ hcount => exact h.create hcount
  | rejoin count o hc hk hcount hentry hh =>
    have ho := (he o hentry).1
    have hsame := hrejoin count o hc hk hcount hh hentry
    exact h.set ho ⟨hsame.symm, (h.wf o).room, (h.wf o).generation⟩ (h.count o ho)
  | arrive o hko hw =>
    have ho := hk o (.inl hko)
    refine h.set ho ⟨(h.wf o).declared, fun hcount => ?_, (h.wf o).generation⟩ (h.count o ho)
    have hroom := (h.wf o).room hcount
    bv_omega
  | release o hko hw =>
    have ho := hk o (.inl hko)
    refine h.set ho ⟨(h.wf o).declared, fun hcount => ?_, ?_⟩ (h.count o ho)
    · bv_omega
    · rw [(h.wf o).generation, ofNat_add]
      rfl
  | mark o _ _ hentry =>
    have ho := (he o hentry).1
    have hset := h.set ho ⟨(h.wf o).declared, (h.wf o).room, (h.wf o).generation⟩ (h.count o ho)
      (b := { d.barriers o with initialized := false })
    exact { hset with }
  | erase o hko =>
    have ho := hk o (.inr hko)
    have hset := h.set ho ⟨(h.wf o).declared, (h.wf o).room, (h.wf o).generation⟩ (h.count o ho)
      (b := { d.barriers o with freed := true })
    exact { hset with }
  | _ => exact h

lemma EntryOk.set (he : EntryOk d) (hfreed : b.freed = (d.barriers o).freed)
    (hinit : b.initialized = (d.barriers o).initialized) : EntryOk (d.set o b) := by
  intro p hp
  refine set_cases (P := fun b => p < d.fresh ∧ b.freed = false ∧ (d.held = false → b.initialized = true))
    (fun _ => he p hp) fun hpo => ?_
  subst hpo
  rw [hfreed, hinit]
  exact he p hp

lemma EntryOk.does (he : EntryOk d) (hd : BarrierDoes c k d out) : EntryOk out.data := by
  cases hd with
  | create count =>
    intro o ho
    cases ho
    refine ⟨Nat.lt_succ_self _, ?_, fun _ => ?_⟩
    · rw [set_self]
    · rw [set_self]
  | rejoin | arrive | release => exact he.set rfl rfl
  | mark o _ _ hentry =>
    intro p hp
    obtain rfl : o = p := Option.some.inj (hentry.symm.trans hp)
    refine ⟨(he o hentry).1, ?_, nofun⟩
    rw [set_self]
    exact (he o hentry).2.1
  | erase => nofun
  | _ => exact he

/-- A section keeps the barrier of a thread inside a wait, unless it is a `destroy` of that barrier. -/
lemma BarrierDoes.usable (hd : BarrierDoes c k d out) (hu : (d.barriers o).Usable) (ho : o < d.fresh)
    (hmark : out.next ≠ .go (.erase o)) (herase : k ≠ .erase o) : (out.data.barriers o).Usable := by
  have hset (p : ℕ) (b : Barrier) (hb : o = p → b.Usable) : ((d.set p b).barriers o).Usable :=
    set_cases (P := Barrier.Usable) (fun _ => hu) hb
  cases hd with
  | create => exact hset _ _ fun h => absurd ho (by omega)
  | rejoin | arrive | release => exact hset _ _ fun h => by subst h; exact { hu with }
  | mark p => exact hset _ _ fun h => absurd rfl (h ▸ hmark)
  | erase p hk => exact hset _ _ fun h => absurd hk (h ▸ herase)
  | _ => exact hu

lemma BarrierDoes.round (hd : BarrierDoes c k d out) (ho : o < d.fresh) :
    (out.data.barriers o).round = (d.barriers o).round ∨
      (k = .locked o ∧ (d.barriers o).waiting + 1 = (d.barriers o).count ∧
        (out.data.barriers o).round = (d.barriers o).round + 1) := by
  have hset (p : ℕ) (b : Barrier) (hb : b.round = (d.barriers p).round) :
      ((d.set p b).barriers o).round = (d.barriers o).round :=
    set_cases (P := fun b => b.round = (d.barriers o).round) (fun _ => rfl) fun hop => hop ▸ hb
  cases hd with
  | create =>
    refine .inl ?_
    rw [set_of_ne d d.fresh _ (by omega)]
  | rejoin | arrive => exact .inl (hset _ _ rfl)
  | release p hk hw =>
    by_cases hop : o = p
    · subst hop
      refine .inr ⟨hk, hw, ?_⟩
      rw [set_self]
    · refine .inl ?_
      rw [set_of_ne d p _ hop]
  | mark | erase => exact .inl (hset _ _ rfl)
  | _ => exact .inl rfl

end Data

/-! ### Rounds -/

/-- What is known of the round `r` of a barrier, if `m` threads wait in it and the others were told `results`. -/
structure RoundOk (b : Barrier) (r m : ℕ) (results : List BarrierResult) : Prop where
  finished : r < b.round → m + results.length = b.declared.toNat ∧ results.count .serial = 1 ∧
    ∀ x ∈ results, x = .serial ∨ x = .ok
  current : r = b.round → results = [] ∧ m = b.waiting.toNat
  later : b.round < r → results = [] ∧ m = 0

structure BarrierInv (s : BarrierState ι) : Prop where
  barriers : BarriersOk s.data
  entry : EntryOk s.data
  live : ∀ i o, Inside o (s.place i) → (s.data.barriers o).Usable
  /-- The generation a thread waits for belongs to its round, which is not too long ago. -/
  lag : ∀ i c o g r, s.place i = some (c, .waiting o g r) → g = BitVec.ofNat 32 r ∧
    r ≤ (s.data.barriers o).round ∧ (s.data.barriers o).round < r + 2 ^ 32
  erasing : ∀ i c o, s.place i = some (c, .erase o) → s.data.held = true ∧ s.data.entry = some o ∧
    (∀ j, ¬ Inside o (s.place j)) ∧ ∀ j c' p, s.place j = some (c', .erase p) → j = i
  rounds : ∀ o r, ∃ m, Tally (WaitsIn o r) s.place m ∧ RoundOk (s.data.barriers o) r m (told o r s.log)

section Places

variable {o r : ℕ} {c : BarrierCall} {k : BarrierPlace}

@[simp] lemma waitsIn_some : WaitsIn o r (some (c, k)) ↔ ∃ g, k = .waiting o g r := by
  constructor
  · rintro ⟨c', g, h⟩
    cases h
    exact ⟨g, rfl⟩
  · rintro ⟨g, rfl⟩
    exact ⟨c, g, rfl⟩

@[simp] lemma not_waitsIn_none : ¬ WaitsIn o r none := by
  rintro ⟨c, g, h⟩
  cases h

@[simp] lemma inside_some : Inside o (some (c, k)) ↔ k = .locked o ∨ ∃ g r, k = .waiting o g r := by
  constructor
  · rintro ⟨c', k', h, hk⟩
    cases h
    exact hk
  · exact fun hk => ⟨c, k, rfl, hk⟩

@[simp] lemma not_inside_none : ¬ Inside o none := by
  rintro ⟨c, k, h, -⟩
  cases h

end Places

section Told

variable {o r : ℕ} {i : ι} {c : BarrierCall} {x : BarrierResult} {log : List (ι × BarrierCall × BarrierReturn)}

omit [DecidableEq ι]

@[simp] lemma told_cons_none : told o r ((i, c, ⟨x, none⟩) :: log) = told o r log := by
  simp [told]

@[simp] lemma told_cons_self : told o r ((i, c, ⟨x, some (o, r)⟩) :: log) = x :: told o r log := by
  simp [told]

lemma told_cons_of_ne {p q : ℕ} (h : ¬ (p = o ∧ q = r)) :
    told o r ((i, c, ⟨x, some (p, q)⟩) :: log) = told o r log := by
  simp [told, h]

end Told

/-! ### One section -/

section After

variable {s : BarrierState ι} {i j pick : ι} {c c' : BarrierCall} {k l : BarrierPlace} {out : BarrierOutcome} {o r : ℕ}

lemma place_after_cases (h : (s.after i c pick out).place j = some (c', l)) :
    (j = i ∧ out.next.place c = some (c', l)) ∨ (j ≠ i ∧ s.place j = some (c', l)) := by
  rw [place_after] at h
  exact of_update h

omit [DecidableEq ι] in
lemma BarrierInv.lt (h : BarrierInv s) (hj : Inside o (s.place j)) : o < s.data.fresh := by
  by_contra hn
  exact (h.live j o hj).count (by rw [h.barriers.unmade o (not_lt.1 hn)])

/-- A thread that is inside a wait after its section was so before, or has just looked the barrier up. -/
lemma BarrierDoes.inside {d : BarrierData} (hd : BarrierDoes c k d out) (h : Inside o (out.next.place c)) :
    Inside o (some (c, k)) ∨ (k = .enter ∧ d.entry = some o ∧ d.held = false) := by
  cases hd with
  | found p hk he hh =>
    have hp : p = o := by simpa [place] using h
    subst hp
    exact .inr ⟨hk, he, hh⟩
  | arrive p hk =>
    have hp : p = o := by simpa [place] using h
    subst hp
    exact .inl (inside_some.2 (.inl hk))
  | again p g r hk =>
    have hp : p = o := by simpa [place] using h
    subst hp
    exact .inl (inside_some.2 (.inr ⟨g, r, hk⟩))
  | _ => simp [place, BarrierData.spin, BarrierData.fails, BarrierData.erase] at h

/-- Whoever is inside a wait after a section was so before, or has just looked the barrier up. -/
lemma inside_after (hat : s.place i = some (c, k)) (hd : BarrierDoes c k s.data out)
    (h : Inside o ((s.after i c pick out).place j)) :
    Inside o (s.place j) ∨ (j = i ∧ k = .enter ∧ s.data.entry = some o ∧ s.data.held = false) := by
  rw [place_after] at h
  by_cases hj : j = i
  · subst hj
    rw [update_self] at h
    rw [hat]
    exact (hd.inside h).imp_right fun h => ⟨rfl, h⟩
  · rw [update_of_ne hj] at h
    exact .inl h

section

variable (h : BarrierInv s) (hat : s.place i = some (c, k)) (hd : BarrierDoes c k s.data out)
include h hat hd

lemma BarrierInv.live_after (hmark : ∀ p, out.next = .go (.erase p) → ∀ j, ¬ Inside p (s.place j)) :
    ∀ j o, Inside o ((s.after i c pick out).place j) → ((s.after i c pick out).data.barriers o).Usable := by
  intro j o hj
  obtain hold | ⟨rfl, hk, he, hh⟩ := inside_after hat hd hj
  · refine hd.usable (h.live j o hold) (h.lt hold) (fun hp => hmark o hp j hold) ?_
    rintro rfl
    exact (h.erasing i c o hat).2.2.1 j hold
  · obtain ⟨ho, hfreed, hinit⟩ := h.entry o he
    refine hd.usable ⟨hfreed, hinit hh, h.barriers.count o ho⟩ ho (fun hp => ?_) (by rw [hk]; nofun)
    rw [place_after, update_self, hp] at hj
    simp [place] at hj

lemma BarrierInv.lag_after (hc : CarefulAt s (some (c, k))) {g : BitVec 32}
    (hj : (s.after i c pick out).place j = some (c', .waiting o g r)) :
    g = BitVec.ofNat 32 r ∧ r ≤ (out.data.barriers o).round ∧ (out.data.barriers o).round < r + 2 ^ 32 := by
  obtain ⟨rfl, hnext⟩ | ⟨-, hold⟩ := place_after_cases hj
  · cases hd with
    | arrive p hk hw =>
      cases hnext
      refine ⟨(h.barriers.wf o).generation, ?_⟩
      rw [set_self]
      exact ⟨le_rfl, Nat.lt_add_of_pos_right (by decide)⟩
    | again p g r hk =>
      cases hnext
      exact h.lag j c o g r (hk ▸ hat)
    | _ => cases hnext
  · obtain ⟨hg, hle, hlt⟩ := h.lag j c' o g r hold
    have ho : o < s.data.fresh := h.lt (j := j) (by rw [hold]; simp)
    obtain hround | ⟨hk, hw, hround⟩ := hd.round ho
    · rw [hround]
      exact ⟨hg, hle, hlt⟩
    · refine ⟨hg, by omega, ?_⟩
      -- otherwise the generation after the round would be the one the thread waits for
      by_contra hn
      subst hk
      refine absurd ?_ (by cases c <;> exact hc hw j c' g r hold)
      rw [hg, (h.barriers.wf o).generation]
      apply eq_of_toNat_eq
      have hone : (1 : BitVec 32).toNat = 1 := rfl
      simp only [toNat_add, toNat_ofNat, hone]
      omega

lemma BarrierInv.erasing_after (hmark : ∀ p, out.next = .go (.erase p) → ∀ j, ¬ Inside p (s.place j))
    (hj : (s.after i c pick out).place j = some (c', .erase o)) :
    out.data.held = true ∧ out.data.entry = some o ∧ (∀ j, ¬ Inside o ((s.after i c pick out).place j)) ∧
      ∀ l c' p, (s.after i c pick out).place l = some (c', .erase p) → l = j := by
  obtain ⟨rfl, hnext⟩ | ⟨hji, hold⟩ := place_after_cases hj
  · -- the thread has just locked the table, so nobody else has
    cases hd with
    | mark p hc hk he hh hw =>
      cases hnext
      refine ⟨rfl, he, fun l hl => ?_, fun l c' q hl => ?_⟩
      · obtain hin | ⟨rfl, -⟩ := inside_after hat (.mark o hc hk he hh hw) hl
        · exact hmark o rfl l hin
        · rw [hj] at hl
          simp at hl
      · obtain ⟨rfl, -⟩ | ⟨-, hl⟩ := place_after_cases hl
        · rfl
        · exact absurd ((h.erasing l c' q hl).1.symm.trans hh) nofun
    | _ => cases hnext
  · obtain ⟨hheld, hentry, hnone, halone⟩ := h.erasing j c' o hold
    have hlocked : s.data.held ≠ false := by simp [hheld]
    have hi (p : ℕ) : k ≠ .erase p := by
      rintro rfl
      exact hji (halone i c p hat).symm
    have hdata : out.data.held = true ∧ out.data.entry = some o := by
      cases hd with
      | create _ _ _ _ hh | rejoin _ _ _ _ _ _ hh | found _ _ _ hh | mark _ _ _ _ hh => exact absurd hh hlocked
      | erase p hk => exact absurd hk (hi p)
      | _ => exact ⟨hheld, hentry⟩
    refine ⟨hdata.1, hdata.2, fun l hl => ?_, fun l c'' p hl => ?_⟩
    · obtain hin | ⟨-, -, -, hh⟩ := inside_after hat hd hl
      · exact hnone l hin
      · exact absurd hh hlocked
    · obtain ⟨-, hnext⟩ | ⟨-, hl⟩ := place_after_cases hl
      · cases hd with
        | mark _ _ _ _ hh => exact absurd hh hlocked
        | _ => cases hnext
      · exact halone l c'' p hl

end

/-! ### A section and the rounds -/

section RoundOk

variable {b b' : Barrier} {m : ℕ} {results : List BarrierResult}

lemma RoundOk.congr (h : RoundOk b r m results) (hround : b'.round = b.round)
    (hdeclared : r < b.round → b'.declared = b.declared) (hwaiting : r = b.round → b'.waiting = b.waiting) :
    RoundOk b' r m results := by
  refine ⟨fun hr => ?_, fun hr => ?_, fun hr => h.later (hround ▸ hr)⟩
  · rw [hround] at hr
    rw [hdeclared hr]
    exact h.finished hr
  · rw [hround] at hr
    rw [hwaiting hr]
    exact h.current hr

lemma RoundOk.arrive (h : RoundOk b b.round m results) (hroom : b.waiting < b.count) :
    RoundOk { b with waiting := b.waiting + 1 } b.round (m + 1) results := by
  obtain ⟨hnil, hm⟩ := h.current rfl
  refine ⟨fun hr => absurd hr (lt_irrefl _), fun _ => ⟨hnil, ?_⟩, fun hr => absurd hr (lt_irrefl _)⟩
  bv_omega

lemma RoundOk.release (h : RoundOk b b.round m results) (hwf : b.Wf) (hcount : b.count ≠ 0)
    (hw : b.waiting + 1 = b.count) :
    RoundOk { b with waiting := 0, generation := b.generation + 1, round := b.round + 1 } b.round m
      (.serial :: results) := by
  obtain ⟨rfl, hm⟩ := h.current rfl
  refine ⟨fun _ => ⟨?_, rfl, ?_⟩, fun hr => ?_, fun hr => ?_⟩
  · show m + 1 = b.declared.toNat
    rw [hwf.declared]
    bv_omega
  · intro x hx
    exact .inl (List.mem_singleton.1 hx)
  · exact absurd hr (by simp)
  · exact absurd hr (by simp)

lemma RoundOk.release_of_ne (h : RoundOk b r m results) (hr : r ≠ b.round) :
    RoundOk { b with waiting := 0, generation := b.generation + 1, round := b.round + 1 } r m results := by
  refine ⟨fun hlt => h.finished ?_, fun heq => h.later ?_, fun hlt => h.later ?_⟩
  · have hlt : r < b.round + 1 := hlt
    omega
  · have heq : r = b.round + 1 := heq
    omega
  · have hlt : b.round + 1 < r := hlt
    omega

lemma RoundOk.leave (h : RoundOk b r m results) (hr : r < b.round) (hm : 0 < m) :
    RoundOk b r (m - 1) (.ok :: results) := by
  obtain ⟨hsum, hserial, hall⟩ := h.finished hr
  refine ⟨fun _ => ⟨?_, ?_, ?_⟩, fun heq => absurd heq (by omega), fun hlt => absurd hlt (by omega)⟩
  · rw [List.length_cons]
    omega
  · rw [List.count_cons_of_ne (by decide), hserial]
  · exact List.forall_mem_cons.2 ⟨.inr rfl, hall⟩

end RoundOk

/-- What is known of the rounds of one barrier, after a section of `i`. -/
def RoundsAfter (s : BarrierState ι) (i : ι) (c : BarrierCall) (pick : ι) (out : BarrierOutcome) (o r : ℕ) : Prop :=
  ∃ m, Tally (WaitsIn o r) (s.after i c pick out).place m ∧
    RoundOk (out.data.barriers o) r m (told o r (s.after i c pick out).log)

lemma BarrierInv.rounds_keep (h : BarrierInv s) (hat : s.place i = some (c, k))
    (hp : WaitsIn o r (some (c, k)) ↔ WaitsIn o r (out.next.place c))
    (hlog : told o r (s.after i c pick out).log = told o r s.log)
    (hround : ∀ m, RoundOk (s.data.barriers o) r m (told o r s.log) →
      RoundOk (out.data.barriers o) r m (told o r s.log)) : RoundsAfter s i c pick out o r := by
  obtain ⟨m, htally, hm⟩ := h.rounds o r
  refine ⟨m, ?_, ?_⟩
  · rw [place_after]
    exact htally.keep (by rw [hat]; exact hp)
  · rw [hlog]
    exact hround m hm

lemma RoundOk.set {d : BarrierData} {p m : ℕ} {b : Barrier} {results : List BarrierResult}
    (h : RoundOk (d.barriers o) r m results) (hb : o = p → RoundOk b r m results) :
    RoundOk ((d.set p b).barriers o) r m results :=
  set_cases (P := fun b => RoundOk b r m results) (fun _ => h) hb

lemma BarrierInv.rounds_arrive (h : BarrierInv s) {p : ℕ} (hat : s.place i = some (c, .locked p)) :
    RoundsAfter s i c pick ⟨s.data.set p { s.data.barriers p with waiting := (s.data.barriers p).waiting + 1 }, .nobody,
      .sleep (.waiting p (s.data.barriers p).generation (s.data.barriers p).round)⟩ o r := by
  by_cases hpr : o = p ∧ r = (s.data.barriers p).round
  · obtain ⟨rfl, rfl⟩ := hpr
    obtain ⟨m, htally, hround⟩ := h.rounds o (s.data.barriers o).round
    have hu : (s.data.barriers o).Usable := h.live i o (by rw [hat]; simp)
    refine ⟨m + 1, ?_, ?_⟩
    · rw [place_after]
      exact htally.gain (by rw [hat]; simp) (by simp [place])
    · rw [set_self]
      exact hround.arrive ((h.barriers.wf o).room hu.count)
  · refine h.rounds_keep hat ?_ rfl fun m hround => hround.set fun ho => ?_
    · simp only [place, waitsIn_some]
      constructor
      · rintro ⟨g, hg⟩
        cases hg
      · rintro ⟨g, hg⟩
        cases hg
        exact absurd ⟨rfl, rfl⟩ hpr
    · subst ho
      exact hround.congr rfl (fun _ => rfl) fun hr => absurd ⟨rfl, hr⟩ hpr

lemma BarrierInv.rounds_release (h : BarrierInv s) {p : ℕ} (hat : s.place i = some (c, .locked p))
    (hw : (s.data.barriers p).waiting + 1 = (s.data.barriers p).count) :
    RoundsAfter s i c pick ⟨s.data.set p { s.data.barriers p with
      waiting := 0, generation := (s.data.barriers p).generation + 1, round := (s.data.barriers p).round + 1 }, .all,
      .ret ⟨.serial, some (p, (s.data.barriers p).round)⟩⟩ o r := by
  have hu : (s.data.barriers p).Usable := h.live i p (by rw [hat]; simp)
  obtain ⟨m, htally, hround⟩ := h.rounds o r
  refine ⟨m, ?_, ?_⟩
  · rw [place_after]
    exact htally.keep (by rw [hat]; simp [place])
  · show RoundOk ((s.data.set p _).barriers o) r m (told o r (_ :: s.log))
    by_cases hop : o = p
    · subst hop
      rw [set_self]
      by_cases hr : r = (s.data.barriers o).round
      · subst hr
        rw [told_cons_self]
        exact hround.release (h.barriers.wf o) hu.count hw
      · rw [told_cons_of_ne fun hn => hr hn.2.symm]
        exact hround.release_of_ne hr
    · rwa [set_of_ne _ p _ hop, told_cons_of_ne fun hn => hop hn.1.symm]

lemma BarrierInv.rounds_leave (h : BarrierInv s) {p q : ℕ} {g : BitVec 32}
    (hat : s.place i = some (c, .waiting p g q)) (hg : (s.data.barriers p).generation ≠ g) :
    RoundsAfter s i c pick ⟨s.data, .nobody, .ret ⟨.ok, some (p, q)⟩⟩ o r := by
  by_cases hpr : p = o ∧ q = r
  · obtain ⟨rfl, rfl⟩ := hpr
    obtain ⟨m, htally, hround⟩ := h.rounds p q
    have hwaits : WaitsIn p q (s.place i) := by rw [hat]; simp
    obtain ⟨hgen, hle, -⟩ := h.lag i c p g q hat
    refine ⟨m - 1, ?_, ?_⟩
    · rw [place_after]
      exact htally.loss hwaits not_waitsIn_none
    · show RoundOk _ q (m - 1) (told p q (_ :: s.log))
      rw [told_cons_self]
      refine hround.leave (lt_of_le_of_ne hle ?_) (htally.pos hwaits)
      rintro rfl
      exact hg ((h.barriers.wf p).generation.trans hgen.symm)
  · refine h.rounds_keep hat (iff_of_false ?_ not_waitsIn_none) (told_cons_of_ne hpr) fun _ hround => hround
    rw [waitsIn_some]
    rintro ⟨g', hg'⟩
    cases hg'
    exact hpr ⟨rfl, rfl⟩

lemma BarrierInv.rounds_after (h : BarrierInv s) (hat : s.place i = some (c, k)) (hd : BarrierDoes c k s.data out)
    (hrejoin : ∀ count o, c = .init count true → k = .enter → count ≠ 0 → s.data.held = false →
      s.data.entry = some o → (s.data.barriers o).count = count) (o r : ℕ) : RoundsAfter s i c pick out o r := by
  cases hd with
  | spin hk => exact h.rounds_keep hat (by simp [hk, spin, place]) rfl fun _ hround => hround
  | fails e hk =>
    exact h.rounds_keep hat (by simp [hk, fails, place]) told_cons_none fun _ hround => hround
  | create count hk =>
    refine h.rounds_keep hat (by simp [hk, place]) told_cons_none fun m hround => hround.set fun ho => ?_
    subst ho
    rw [h.barriers.unmade _ le_rfl] at hround
    exact hround.congr rfl (fun hr => absurd hr (Nat.not_lt_zero r)) fun _ => rfl
  | rejoin count p hc hk hcount he hh =>
    refine h.rounds_keep hat (by simp [hk, place]) told_cons_none fun m hround => hround.set fun ho => ?_
    subst ho
    refine hround.congr rfl (fun _ => ?_) fun _ => rfl
    rw [(h.barriers.wf o).declared]
    exact (hrejoin count o hc hk hcount hh he).symm
  | found p hk => exact h.rounds_keep hat (by simp [hk, place]) rfl fun _ hround => hround
  | lost p x hin hu => exact absurd (h.live i p (hat ▸ hin)) hu
  | arrive p hk hw => exact h.rounds_arrive (hk ▸ hat)
  | release p hk hw => exact h.rounds_release (hk ▸ hat) hw
  | again p g q hk => exact h.rounds_keep hat (by rw [hk]; rfl) rfl fun _ hround => hround
  | leave p g q hk hg => exact h.rounds_leave (hk ▸ hat) hg
  | mark p hc hk =>
    refine h.rounds_keep hat (by simp [hk, place]) rfl fun m hround => hround.set fun ho => ?_
    subst ho
    exact hround.congr rfl (fun _ => rfl) fun _ => rfl
  | erase p hk =>
    refine h.rounds_keep hat (by simp [hk, erase, place]) told_cons_none fun m hround =>
      hround.set fun ho => ?_
    subst ho
    exact hround.congr rfl (fun _ => rfl) fun _ => rfl

end After

/-! ### Runs -/

def BarrierReady (_ : ι) (_ : BarrierCall) (k : BarrierPlace) (d : BarrierData) : Prop :=
  ∃ o g r, k = .waiting o g r ∧ (d.barriers o).generation ≠ g

section Runs

variable {s s' : BarrierState ι} {e : Monitor.Event ι BarrierCall BarrierResult}

lemma BarrierDoes.generation {c : BarrierCall} {k : BarrierPlace} {d : BarrierData} {out : BarrierOutcome}
    (hd : BarrierDoes c k d out) (hunmade : ∀ o, d.fresh ≤ o → d.barriers o = {}) :
    out.wake = .all ∨ ∀ o, (out.data.barriers o).generation = (d.barriers o).generation := by
  have hset (p : ℕ) (b : Barrier) (hb : b.generation = (d.barriers p).generation) (o : ℕ) :
      ((d.set p b).barriers o).generation = (d.barriers o).generation :=
    set_cases (P := fun b => b.generation = (d.barriers o).generation) (fun _ => rfl) fun hop => hop ▸ hb
  cases hd with
  | create => exact .inr (hset _ _ (by rw [hunmade _ le_rfl]))
  | rejoin | arrive | mark | erase => exact .inr (hset _ _ rfl)
  | release => exact .inl rfl
  | _ => exact .inr fun _ => rfl

omit [DecidableEq ι] in
lemma barrierMonitor_notifies :
    (barrierMonitor (ι := ι)).Notifies (fun d => ∀ o, d.fresh ≤ o → d.barriers o = {}) BarrierReady := by
  rintro i c k t d j b l hunmade - hnot ⟨o, g, r, rfl, hg⟩
  have hd : BarrierDoes c k d (barrierMonitor.run i c k t d) := barrierRun_does
  refine (hd.generation hunmade).resolve_right fun hsame => ?_
  rw [hsame o] at hg
  exact hnot ⟨o, g, r, rfl, hg⟩

omit [DecidableEq ι] in
lemma barrierMonitor_sleepsUnready : (barrierMonitor (ι := ι)).SleepsUnready BarrierReady := by
  intro i c k t d l hl
  have hd : BarrierDoes c k d (barrierMonitor.run i c k t d) := barrierRun_does
  revert hl hd
  generalize barrierMonitor.run i c k t d = out
  rintro hl hd ⟨o, g, r, rfl, hg⟩
  cases hd with
  | arrive p =>
    cases hl
    refine hg ?_
    rw [set_self]
  | again p g r _ hsame =>
    cases hl
    exact hg hsame
  | _ => cases hl

omit [DecidableEq ι] in
lemma barrierInv_init : BarrierInv (Monitor.State.init {} : BarrierState ι) := by
  refine ⟨⟨fun _ _ => rfl, fun o ho => absurd ho (Nat.not_lt_zero o), fun o => ⟨rfl, fun h => absurd rfl h, rfl⟩⟩,
    nofun, fun i o hi => absurd hi not_inside_none, nofun, nofun, fun o r => ⟨0, .zero fun i => not_waitsIn_none, ?_⟩⟩
  exact ⟨fun hr => absurd hr (Nat.not_lt_zero r), fun _ => ⟨rfl, rfl⟩, fun _ => ⟨rfl, rfl⟩⟩

lemma barrierInv_run {i pick : ι} {t : BarrierResult} {c : BarrierCall} {k : BarrierPlace} (h : BarrierInv s)
    (hc : Careful s (.run i t pick)) (hact : s.active i = some ⟨c, k, false⟩) :
    BarrierInv (s.after i c pick (barrierMonitor.run i c k t s.data)) := by
  have hat : s.place i = some (c, k) := place_of_active hact
  have hd : BarrierDoes c k s.data (barrierMonitor.run i c k t s.data) := barrierRun_does
  have hc : CarefulAt s (some (c, k)) := hat ▸ hc
  -- the condition, for each of the sections it is about
  have hrejoin (count : BitVec 32) (o : ℕ) (hinit : c = .init count true) (hk : k = .enter) (hcount : count ≠ 0)
      (hh : s.data.held = false) (he : s.data.entry = some o) : (s.data.barriers o).count = count := by
    subst hinit hk
    exact hc hcount rfl hh o he
  revert hd
  generalize barrierMonitor.run i c k t s.data = out
  intro hd
  have hmark (p : ℕ) (hp : out.next = .go (.erase p)) : ∀ j, ¬ Inside p (s.place j) := by
    cases hd with
    | mark o hdestroy hk he hh hw =>
      cases hp
      subst hdestroy hk
      exact hc hh p he hw
    | _ => cases hp
  have hlt (o : ℕ) (hk : k = .locked o ∨ k = .erase o) : o < s.data.fresh := by
    obtain hk | hk := hk
    · exact h.lt (j := i) (by rw [hat]; simp [hk])
    · exact (h.entry o (h.erasing i c o (hk ▸ hat)).2.1).1
  exact ⟨h.barriers.does hd h.entry hlt hrejoin, h.entry.does hd, h.live_after hat hd hmark,
    fun _ _ _ _ _ => h.lag_after hat hd hc, fun _ _ _ => h.erasing_after hat hd hmark, h.rounds_after hat hd hrejoin⟩

omit [DecidableEq ι] in
lemma BarrierInv.quiet (h : BarrierInv s) (hdata : s'.data = s.data) (hlog : s'.log = s.log)
    (hplace : ∀ i c k, k ≠ .enter → (s'.place i = some (c, k) ↔ s.place i = some (c, k))) : BarrierInv s' := by
  have hinside (o : ℕ) (i : ι) (h : Inside o (s'.place i)) : Inside o (s.place i) := by
    obtain ⟨c, k, hi, hk⟩ := h
    have hne : k ≠ .enter := by
      rintro rfl
      simp at hk
    exact ⟨c, k, (hplace i c k hne).1 hi, hk⟩
  refine ⟨hdata ▸ h.barriers, hdata ▸ h.entry, fun i o hi => ?_, fun i c o g r hi => ?_, fun i c o hi => ?_,
    fun o r => ?_⟩
  · rw [hdata]
    exact h.live i o (hinside o i hi)
  · rw [hdata]
    exact h.lag i c o g r ((hplace i c (.waiting o g r) nofun).1 hi)
  · rw [hdata]
    obtain ⟨hheld, hentry, hnone, halone⟩ := h.erasing i c o ((hplace i c (.erase o) nofun).1 hi)
    exact ⟨hheld, hentry, fun j hj => hnone j (hinside o j hj),
      fun j c' p hj => halone j c' p ((hplace j c' (.erase p) nofun).1 hj)⟩
  · obtain ⟨m, ⟨W, hW, hcard⟩, hround⟩ := h.rounds o r
    rw [hdata, hlog]
    refine ⟨m, ⟨W, fun i => ?_, hcard⟩, hround⟩
    rw [hW i]
    exact exists_congr fun c => exists_congr fun g => (hplace i c (.waiting o g r) nofun).symm

theorem barrierInv_step (h : BarrierInv s) (hc : Careful s e) (hs : barrierMonitor.step s e = some s') :
    BarrierInv s' := by
  obtain ⟨i, c, rfl, hnone, hdata, hlog, hplace⟩ | ⟨i, rfl, hdata, hlog, hplace⟩ | ⟨i, t, pick, c, k, rfl, hact, rfl⟩ :=
    step_cases hs
  · refine h.quiet hdata hlog fun j c' k' hk => ?_
    rw [hplace]
    by_cases hj : j = i
    · subst hj
      rw [update_self, hnone]
      refine iff_of_false ?_ nofun
      intro hx
      cases hx
      exact hk rfl
    · rw [update_of_ne hj]
  · exact h.quiet hdata hlog fun j c' k' _ => by rw [hplace]
  · exact barrierInv_run h hc hact

/-- **Barriers.**  In every run whose sections are careful, the rounds of all barriers come out right. -/
theorem reach_barrierOk (h : barrierSystem.Reach Careful s) : ∀ o < s.data.fresh, BarrierOk s o := by
  have hinv : BarrierInv s ∧ Monitor.Attentive BarrierReady s := by
    refine h.invariant (I := fun s => BarrierInv s ∧ Monitor.Attentive BarrierReady s) ?_ fun s e s' hi hc hs => ?_
    · rintro _ ⟨d, rfl, rfl⟩
      exact ⟨barrierInv_init, attentive_init _⟩
    · exact ⟨barrierInv_step hi.1 hc hs,
        attentive_step barrierMonitor_notifies barrierMonitor_sleepsUnready hi.1.barriers.unmade hi.2 hs⟩
  obtain ⟨hi, hawake⟩ := hinv
  intro o ho
  refine ⟨fun r hr => ?_, fun r hr i x hact hwaits => ?_, ?_⟩
  · obtain ⟨m, htally, hround⟩ := hi.rounds o r
    exact ⟨m, htally, hround.finished hr⟩
  · obtain ⟨c, k, asleep⟩ := x
    obtain ⟨g, rfl⟩ := waitsIn_some.1 hwaits
    have hat : s.place i = some (c, .waiting o g r) := place_of_active hact
    have hu : (s.data.barriers o).Usable := hi.live i o (by rw [hat]; simp)
    -- the generation has moved on since the round of the thread
    have hg : (s.data.barriers o).generation ≠ g := by
      obtain ⟨rfl, hle, hlt⟩ := hi.lag i c o g r hat
      rw [(hi.barriers.wf o).generation]
      intro heq
      have hmod := congrArg BitVec.toNat heq
      simp only [toNat_ofNat] at hmod
      omega
    refine ⟨?_, fun t => ?_⟩
    · by_contra hx
      exact hawake i _ hact (by simpa using hx) ⟨o, g, r, rfl, hg⟩
    · show (s.data.woken o g r t).next = _
      simp only [woken, hu.freed, hu.initialized, Bool.false_eq_true, Bool.true_eq_false, if_false,
        if_neg hg]
  · obtain ⟨m, htally, hround⟩ := hi.rounds o (s.data.barriers o).round
    obtain ⟨hnil, rfl⟩ := hround.current rfl
    refine ⟨hnil, _, ?_, htally⟩
    rw [(hi.barriers.wf o).declared]
    exact (hi.barriers.wf o).room (hi.barriers.count o ho)

end Runs

/-- Two threads meet at a barrier.  The first to come is still inside when the round is over. -/
theorem barrierOk_round_over : ∃ s : BarrierState ℕ, barrierSystem.Reach Careful s ∧
    (s.data.barriers 0).round = 1 ∧ s.place 0 = some (.wait, .waiting 0 0 0) ∧ ∀ o < s.data.fresh, BarrierOk s o := by
  have h0 : barrierSystem.Reach Careful (Monitor.State.init {} : BarrierState ℕ) := .init ⟨{}, rfl, rfl⟩
  have h1 := h0.step (show Careful _ (.call 0 (.init 2 true)) from trivial) rfl
  have h2 := h1.step (show Careful _ (.run 0 .ok 0) from nofun) rfl
  have h3 := h2.step (show Careful _ (.call 0 .wait) from trivial) rfl
  have h4 := h3.step (show Careful _ (.run 0 .ok 0) from trivial) rfl
  have h5 := h4.step (show Careful _ (.call 1 .wait) from trivial) rfl
  have h6 := h5.step (show Careful _ (.run 1 .ok 0) from trivial) rfl
  have h7 := h6.step (show Careful _ (.run 0 .ok 0) from fun hw => absurd hw (by decide)) rfl
  have h8 := h7.step (show Careful _ (.run 1 .ok 0) from fun _ j c g r hj => by
    match j with
    | 0 =>
      cases hj
      decide
    | 1 => cases hj
    | j + 2 => cases hj) rfl
  exact ⟨_, h8, rfl, rfl, reach_barrierOk h8⟩

end CrossShim.Sync
