import CrossShim.Loader.Modules

/-!
# `dl_open`

`dl_open` of `emulator.cpp` for one library, called by any number of threads.  The part under the lock finds the
module or loads and publishes it; the call that loaded it then runs its init functions one after the other,
without the lock.  Init functions may call `dl_open` themselves.

The lock does not cover the init functions, so another thread can be given the module while they run
(`handle_before_constructors`).  `reach_dlOpenOk` is what holds in the runs in which no other thread asks for it
then, and in which every init function is entered and comes to its end.
-/

namespace CrossShim.Loader.DlOpen

open Lib Function List Option

/-! ### The calls -/

def baseName (path : String) : String :=
  String.ofList (path.toList.reverse.takeWhile fun c => c ≠ '/' ∧ c ≠ '\\').reverse

/-- The search of `dl_open` among the modules. -/
def findLoaded (modules : List LoadedModule) (hostPath : String) : Option LoadedModule :=
  modules.find? fun mod => (mod.path ≠ "" ∧ mod.path = hostPath) ∨ (mod.path = "" ∧ mod.name = baseName hostPath)

/-- An unfinished call: before the lock, or past it with its module, the init functions, how many are done, and whether
the next one is running. -/
inductive Frame where
  | entered (noload : Bool)
  | running (handle : Word) (funcs : List Word) (next : ℕ) (inside : Bool)
  deriving DecidableEq

/-- What a thread does: it calls `dl_open`; does not find the file; goes through the part under the lock; calls the next
init function, which `call_function_safe` may refuse to enter; comes to its end, or to a crash; or returns. `other` is
the load of another library. -/
inductive Event where
  | call (noload : Bool)
  | lost
  | lock (file : Option LoadCall)
  | start (entered : Bool)
  | finish (crash : Bool)
  | ret
  | other (c : LoadCall)

/-- The modules, the counts of `dl_refcounts_`, and the unfinished calls of each thread, the innermost first. `runs` and
`finished` tell which of the init functions `funcs` were started how often, and which have ended. -/
structure State where
  emu : ModuleState
  dlRefcounts : Word → ℕ
  frames : ℕ → List Frame
  funcs : List Word
  runs : ℕ → ℕ
  finished : ℕ → Bool

namespace State

def setFrames (s : State) (t : ℕ) (frames : List Frame) : State :=
  { s with frames := update s.frames t frames }

/-- What `dl_open` makes of a load: the state, and the value if the call returns. -/
def publish (s : State) (t : ℕ) (rest : List Frame) (r : LoadResult) : State × Option Word :=
  match r.handle with
  | none => ({ s.setFrames t rest with emu := r.state }, some 0)
  | some (handle, funcs) =>
    ({ s.setFrames t (.running handle funcs 0 false :: rest) with
        emu := r.state
        dlRefcounts := update s.dlRefcounts handle 1
        funcs := funcs }, none)

/-- The part of `dl_open` under the lock. -/
def lock (s : State) (hostPath : String) (t : ℕ) (noload : Bool) (rest : List Frame) (file : Option LoadCall) :
    State × Option Word :=
  match findLoaded s.emu.modules hostPath with
  | some mod =>
    ({ s.setFrames t rest with
        dlRefcounts := update s.dlRefcounts mod.baseAddress (s.dlRefcounts mod.baseAddress + 1) },
      some mod.baseAddress)
  | none =>
    match noload, file with
    | true, _ => (s.setFrames t rest, some 0)
    | false, none => (s.setFrames t rest, some 0)
    | false, some c =>
      s.publish t rest (s.emu.loadModuleLocked { c with hostPath := hostPath, name := baseName hostPath })

end State

open State

/-- One step of thread `a.1`: the state, and the value its innermost call returns, if it does. -/
def step (hostPath : String) (s : State) (a : ℕ × Event) : Option (State × Option Word) :=
  let t := a.1
  match a.2, s.frames t with
  | .call noload, [] => some (s.setFrames t [.entered noload], none)
  | .call noload, .running handle funcs k true :: rest =>
    some (s.setFrames t (.entered noload :: .running handle funcs k true :: rest), none)
  | .lost, .entered _ :: rest => some (s.setFrames t rest, some 0)
  | .lock file, .entered noload :: rest =>
    if hostPath = "" then none else some (s.lock hostPath t noload rest file)
  | .start entered, .running handle funcs k false :: rest =>
    if k < funcs.length then
      if entered then
        some ({ s.setFrames t (.running handle funcs k true :: rest) with
          runs := update s.runs k (s.runs k + 1) }, none)
      else some (s.setFrames t (.running handle funcs (k + 1) false :: rest), none)
    else none
  | .finish crash, .running handle funcs k true :: rest =>
    some ({ s.setFrames t (.running handle funcs (k + 1) false :: rest) with
      finished := update s.finished k (s.finished k || !crash) }, none)
  | .ret, .running handle funcs k false :: rest =>
    if k < funcs.length then none else some (s.setFrames t rest, some handle)
  | .other c, _ =>
    if c.hostPath ≠ "" ∧ c.hostPath ≠ hostPath then some ({ s with emu := (s.emu.loadModuleLocked c).state }, none)
    else none
  | _, _ => none

/-- All interleavings of all calls for a library that is not loaded yet. -/
def system (hostPath : String) : System State (ℕ × Event) :=
  .ofStep (fun s => findLoaded s.emu.modules hostPath = none ∧ (∀ t, s.frames t = []) ∧ s.funcs = [] ∧
    (∀ i, s.runs i = 0) ∧ ∀ i, s.finished i = false) fun s a => (step hostPath s a).map Prod.fst

/-! ### The promise -/

def Frame.isRunning : Frame → Bool
  | .entered _ => false
  | .running .. => true

/-- The thread is inside an init function of the library. -/
def State.Nested (s : State) (t : ℕ) : Prop := ∃ handle funcs k, Frame.running handle funcs k true ∈ s.frames t

/-- A call may return the handle: every init function was started once and has ended, or the call is from inside one. -/
def State.ReturnOk (s : State) (t : ℕ) : Prop :=
  (∀ i < s.funcs.length, s.runs i = 1 ∧ s.finished i = true) ∨ s.Nested t

/-- The condition on a step: a thread asks for the module only when no other thread runs its init functions, and these
are entered and end. -/
def Quiet (s : State) (a : ℕ × Event) : Prop :=
  match a.2 with
  | .lock _ => ∀ t ≠ a.1, ∀ f ∈ s.frames t, f.isRunning = false
  | .start entered => entered = true
  | .finish crash => crash = false
  | _ => True

/-! ### The stages of a library -/

/-- The frames of a thread that is not running init functions. -/
def Light (frames : List Frame) : Prop := frames = [] ∨ ∃ noload, frames = [.entered noload]

def Busy (handle : Word) (funcs : List Word) (k : ℕ) (inside : Bool) (frames : List Frame) : Prop :=
  frames = [.running handle funcs k inside] ∨
    (inside = true ∧ ∃ noload, frames = [.entered noload, .running handle funcs k inside])

/-- The first `k` init functions have run once, and the next one has been started if `inside`. -/
structure Progress (s : State) (k : ℕ) (inside : Bool) : Prop where
  runs : ∀ i, s.runs i = if i < k ∨ (inside = true ∧ i = k) then 1 else 0
  finished : ∀ i, s.finished i = decide (i < k)

/-- The library is not loaded, one thread is running its init functions, or they have all run. -/
inductive Inv (hostPath : String) (s : State) : Prop
  | fresh : findLoaded s.emu.modules hostPath = none → (∀ t, Light (s.frames t)) → Progress s 0 false →
      Inv hostPath s
  | busy (t : ℕ) (handle : Word) (k : ℕ) (inside : Bool) : findLoaded s.emu.modules hostPath ≠ none →
      (∀ t' ≠ t, Light (s.frames t')) → Busy handle s.funcs k inside (s.frames t) → k ≤ s.funcs.length →
      (inside = true → k < s.funcs.length) → Progress s k inside → Inv hostPath s
  | done : findLoaded s.emu.modules hostPath ≠ none → (∀ t, Light (s.frames t)) →
      Progress s s.funcs.length false → Inv hostPath s

section Steps

variable {hostPath : String} {s s' : State} {t k : ℕ} {noload inside : Bool} {rest frames : List Frame} {handle : Word}
  {funcs : List Word} {a : ℕ × Event} {v : Option Word}

lemma Light.of_entered (h : Light (.entered noload :: rest)) : rest = [] := by
  obtain h | ⟨n, h⟩ := h
  · cases h
  · exact (List.cons.inj h).2

lemma Light.not_running : ¬ Light (.running handle funcs k inside :: rest) := by
  rintro (h | ⟨n, h⟩) <;> cases h

@[simp] lemma setFrames_self (frames : List Frame) : (s.setFrames t frames).frames t = frames :=
  update_self ..

lemma setFrames_of_ne (frames : List Frame) {t' : ℕ} (h : t' ≠ t) : (s.setFrames t frames).frames t' = s.frames t' :=
  update_of_ne h ..

lemma light_setFrames (h : ∀ t' ≠ t, Light (s.frames t')) (hf : Light frames) :
    ∀ t', Light ((s.setFrames t frames).frames t') :=
  (forall_update_iff s.frames fun _ l => Light l).2 ⟨hf, h⟩

lemma light_setFrames_of_ne {u : ℕ} (h : ∀ t' ≠ u, Light (s.frames t')) (hf : Light frames) :
    ∀ t' ≠ u, Light ((s.setFrames t frames).frames t') :=
  (forall_update_iff s.frames fun t' l => t' ≠ u → Light l).2 ⟨fun _ => hf, fun t' _ => h t'⟩

lemma Progress.congr (h : Progress s k inside) (hr : s'.runs = s.runs) (hf : s'.finished = s.finished) :
    Progress s' k inside :=
  ⟨fun i => by rw [hr, h.runs], fun i => by rw [hf, h.finished]⟩

lemma findLoaded_append {modules : List LoadedModule} {module : LoadedModule} :
    findLoaded (modules ++ [module]) hostPath = none ↔ findLoaded modules hostPath = none ∧
      ¬ ((module.path ≠ "" ∧ module.path = hostPath) ∨ (module.path = "" ∧ module.name = baseName hostPath)) := by
  simp only [findLoaded, find?_append, or_eq_none_iff]
  refine and_congr_right fun _ => ?_
  rw [find?_eq_none]
  simp

section

variable (h : Inv hostPath s)
include h

lemma Inv.congr
    (hmod : findLoaded s'.emu.modules hostPath = none ↔ findLoaded s.emu.modules hostPath = none)
    (hframes : s'.frames = s.frames) (hfuncs : s'.funcs = s.funcs) (hr : s'.runs = s.runs)
    (hf : s'.finished = s.finished) : Inv hostPath s' := by
  obtain ⟨h1, h2, h3⟩ | ⟨t, handle, k, inside, h1, h2, h3, h4, h5, h6⟩ | ⟨h1, h2, h3⟩ := h
  · exact .fresh (hmod.2 h1) (hframes ▸ h2) (h3.congr hr hf)
  · exact .busy t handle k inside (mt hmod.1 h1) (hframes ▸ h2) (hframes ▸ hfuncs ▸ h3) (hfuncs ▸ h4) (hfuncs ▸ h5)
      (h6.congr hr hf)
  · exact .done (mt hmod.1 h1) (hframes ▸ h2) (hfuncs ▸ h3.congr hr hf)

lemma Inv.setFrames (hlight : Light (s.frames t) → Light frames)
    (hbusy : ∀ {handle k inside}, Busy handle s.funcs k inside (s.frames t) → Busy handle s.funcs k inside frames) :
    Inv hostPath (s.setFrames t frames) := by
  obtain ⟨h1, h2, h3⟩ | ⟨u, handle, k, inside, h1, h2, h3, h4, h5, h6⟩ | ⟨h1, h2, h3⟩ := h
  · exact .fresh h1 (light_setFrames (fun t' _ => h2 t') (hlight (h2 t))) (h3.congr rfl rfl)
  · by_cases hu : u = t
    · subst hu
      refine .busy u handle k inside h1 (fun t' ht' => ?_) ?_ h4 h5 (h6.congr rfl rfl)
      · rw [setFrames_of_ne _ ht']
        exact h2 t' ht'
      · rw [setFrames_self]
        exact hbusy h3
    · refine .busy u handle k inside h1 (light_setFrames_of_ne h2 (hlight (h2 t (Ne.symm hu)))) ?_ h4 h5
        (h6.congr rfl rfl)
      rw [setFrames_of_ne _ hu]
      exact h3
  · exact .done h1 (light_setFrames (fun t' _ => h2 t') (hlight (h2 t))) (h3.congr rfl rfl)

lemma Inv.pop (hf : s.frames t = .entered noload :: rest) : Inv hostPath (s.setFrames t rest) := by
  refine h.setFrames (fun hl => ?_) (fun hb => ?_)
  · rw [hf] at hl
    exact .inl hl.of_entered
  · rw [hf] at hb
    obtain hb | ⟨-, n, hb⟩ := hb
    · cases hb
    · exact .inl (List.cons.inj hb).2

lemma Inv.call (noload : Bool)
    (hf : s.frames t = [] ∨ ∃ handle funcs k rest, s.frames t = .running handle funcs k true :: rest) :
    Inv hostPath (s.setFrames t (.entered noload :: s.frames t)) := by
  refine h.setFrames (fun hl => ?_) (fun hb => ?_)
  · obtain hf | ⟨_, _, _, _, hf⟩ := hf
    · rw [hf]
      exact .inr ⟨noload, rfl⟩
    · rw [hf] at hl
      exact absurd hl Light.not_running
  · obtain hb | ⟨-, n, hb⟩ := hb <;> rw [hb] at hf ⊢ <;> obtain hf | ⟨_, _, _, _, hf⟩ := hf <;> cases hf
    exact .inr ⟨rfl, noload, rfl⟩

lemma Inv.busy_of_running (hf : s.frames t = .running handle funcs k inside :: rest) :
    findLoaded s.emu.modules hostPath ≠ none ∧ (∀ t' ≠ t, Light (s.frames t')) ∧ rest = [] ∧ funcs = s.funcs ∧
      k ≤ s.funcs.length ∧ (inside = true → k < s.funcs.length) ∧ Progress s k inside := by
  obtain ⟨-, h2, -⟩ | ⟨u, handle', k', inside', h1, h2, h3, h4, h5, h6⟩ | ⟨-, h2, -⟩ := h
  · exact absurd (hf ▸ h2 t) Light.not_running
  · by_cases hu : u = t
    · subst hu
      rw [hf] at h3
      obtain h3 | ⟨-, n, h3⟩ := h3
      · cases h3
        exact ⟨h1, h2, rfl, rfl, h4, h5, h6⟩
      · cases h3
    · exact absurd (hf ▸ h2 t (Ne.symm hu)) Light.not_running
  · exact absurd (hf ▸ h2 t) Light.not_running

lemma Inv.start (hf : s.frames t = .running handle funcs k false :: rest) (hk : k < funcs.length) :
    Inv hostPath { s.setFrames t (.running handle funcs k true :: rest) with
      runs := update s.runs k (s.runs k + 1) } := by
  obtain ⟨h1, h2, rfl, rfl, h4, -, h6⟩ := h.busy_of_running hf
  refine .busy t handle k true h1 (fun t' ht' => ?_) (.inl (setFrames_self _)) h4 (fun _ => hk) ⟨fun i => ?_, h6.finished⟩
  · exact (setFrames_of_ne _ ht').symm ▸ h2 t' ht'
  · have hr := h6.runs i
    by_cases hi : i = k
    · subst hi
      simpa using hr
    · simpa [update_of_ne hi, hi] using hr

lemma Inv.finish (hf : s.frames t = .running handle funcs k true :: rest) :
    Inv hostPath { s.setFrames t (.running handle funcs (k + 1) false :: rest) with
      finished := update s.finished k (s.finished k || !false) } := by
  obtain ⟨h1, h2, rfl, rfl, -, h5, h6⟩ := h.busy_of_running hf
  refine .busy t handle (k + 1) false h1 (fun t' ht' => ?_) (.inl (setFrames_self _)) (h5 rfl) nofun
    ⟨fun i => ?_, fun i => ?_⟩
  · exact (setFrames_of_ne _ ht').symm ▸ h2 t' ht'
  · have hiff : (i < k ∨ (true = true ∧ i = k)) ↔ (i < k + 1 ∨ (false = true ∧ i = k + 1)) := by
      simp only [true_and, Bool.false_eq_true, false_and, or_false]
      omega
    exact (h6.runs i).trans (if_congr hiff rfl rfl)
  · by_cases hi : i = k
    · subst hi
      simp
    · have hlt : i < k ↔ i < k + 1 := by omega
      simpa [update_of_ne hi, hlt] using h6.finished i

lemma Inv.ret (hf : s.frames t = .running handle funcs k false :: rest) (hk : ¬ k < funcs.length) :
    Inv hostPath (s.setFrames t rest) := by
  obtain ⟨h1, h2, rfl, rfl, h4, -, h6⟩ := h.busy_of_running hf
  have hlen : k = s.funcs.length := by omega
  subst hlen
  exact .done h1 (light_setFrames h2 (.inl rfl)) (h6.congr rfl rfl)

/-! ### The part under the lock -/

lemma Inv.other {c : LoadCall} (hne : c.hostPath ≠ "") (hp : c.hostPath ≠ hostPath) :
    Inv hostPath { s with emu := (s.emu.loadModuleLocked c).state } := by
  refine h.congr ?_ rfl rfl rfl rfl
  obtain ⟨-, module, hm, hpath⟩ | ⟨-, hm⟩ := s.emu.loadModuleLocked_published c
  · rw [hm, findLoaded_append]
    simp [hpath, hp, hne]
  · rw [hm]

lemma Inv.publish (hne : hostPath ≠ "") (hf : s.frames t = .entered noload :: rest)
    (hfind : findLoaded s.emu.modules hostPath = none) {r : LoadResult} (hr : s.emu.Published hostPath r) :
    Inv hostPath (s.publish t rest r).1 := by
  obtain ⟨hsome, module, hm, hpath⟩ | ⟨hnone, hm⟩ := hr
  · obtain ⟨⟨handle, funcs⟩, hh⟩ := isSome_iff_exists.1 hsome
    obtain ⟨-, h2, h3⟩ | ⟨u, _, _, _, h1, -⟩ | ⟨h1, -⟩ := h
    · obtain rfl : rest = [] := (hf ▸ h2 t : Light _).of_entered
      simp only [publish, hh]
      refine .busy t handle 0 false ?_ (fun t' ht' => ?_) (.inl (setFrames_self _)) (Nat.zero_le _)
        nofun (h3.congr rfl rfl)
      · rw [hm, ne_eq, findLoaded_append]
        simp [hpath, hne]
      · exact (setFrames_of_ne _ ht').symm ▸ h2 t'
    · exact absurd hfind h1
    · exact absurd hfind h1
  · simp only [State.publish, hnone]
    refine (h.pop hf).congr ?_ rfl rfl rfl rfl
    rw [hm]
    exact Iff.rfl

lemma Inv.lock (hne : hostPath ≠ "") (hf : s.frames t = .entered noload :: rest)
    (file : Option LoadCall) : Inv hostPath (s.lock hostPath t noload rest file).1 := by
  have hpop := h.pop hf
  unfold State.lock
  cases hfind : findLoaded s.emu.modules hostPath with
  | some mod => exact hpop.congr Iff.rfl rfl rfl rfl rfl
  | none =>
    cases noload with
    | true => exact hpop
    | false =>
      cases file with
      | none => exact hpop
      | some c => exact h.publish hne hf hfind (s.emu.loadModuleLocked_published _)

end

/-! ### Runs -/

lemma inv_init (h : (system hostPath).init s) : Inv hostPath s := by
  obtain ⟨hfind, hframes, -, hr, hf⟩ := h
  exact .fresh hfind (fun t => .inl (hframes t)) ⟨fun i => by simp [hr i], fun i => by simp [hf i]⟩

inductive Moves (hostPath : String) (s : State) (t : ℕ) : Event → State → Option Word → Prop
  | call {noload : _} :
      (s.frames t = [] ∨ ∃ handle funcs k rest, s.frames t = .running handle funcs k true :: rest) →
      Moves hostPath s t (.call noload) (s.setFrames t (.entered noload :: s.frames t)) none
  | lost {noload rest : _} : s.frames t = .entered noload :: rest →
      Moves hostPath s t .lost (s.setFrames t rest) (some 0)
  | lock {noload rest file : _} : hostPath ≠ "" →
      s.frames t = .entered noload :: rest →
      Moves hostPath s t (.lock file) (s.lock hostPath t noload rest file).1 (s.lock hostPath t noload rest file).2
  | start {handle funcs k rest : _} : s.frames t = .running handle funcs k false :: rest → k < funcs.length →
      Moves hostPath s t (.start true) { s.setFrames t (.running handle funcs k true :: rest) with
        runs := update s.runs k (s.runs k + 1) } none
  | refuse {handle funcs k rest : _} : s.frames t = .running handle funcs k false :: rest → k < funcs.length →
      Moves hostPath s t (.start false) (s.setFrames t (.running handle funcs (k + 1) false :: rest)) none
  | finish {handle funcs k rest crash : _} : s.frames t = .running handle funcs k true :: rest →
      Moves hostPath s t (.finish crash) { s.setFrames t (.running handle funcs (k + 1) false :: rest) with
        finished := update s.finished k (s.finished k || !crash) } none
  | ret {handle funcs k rest : _} : s.frames t = .running handle funcs k false :: rest → ¬ k < funcs.length →
      Moves hostPath s t .ret (s.setFrames t rest) (some handle)
  | other {c : _} : c.hostPath ≠ "" → c.hostPath ≠ hostPath →
      Moves hostPath s t (.other c) { s with emu := (s.emu.loadModuleLocked c).state } none

lemma step_moves (hs : step hostPath s a = some (s', v)) : Moves hostPath s a.1 a.2 s' v := by
  obtain ⟨t, e⟩ := a
  unfold step at hs
  simp only at hs
  split at hs
  · rename_i hf
    cases hs
    simpa only [hf] using Moves.call (.inl hf)
  · rename_i hf
    cases hs
    simpa only [hf] using Moves.call (.inr ⟨_, _, _, _, hf⟩)
  · rename_i hf
    cases hs
    exact .lost hf
  · rename_i file noload rest hf
    split_ifs at hs with hne
    have hs' : (s.lock hostPath t noload rest file).1 = s' := congrArg Prod.fst (some.inj hs)
    have hv : (s.lock hostPath t noload rest file).2 = v := congrArg Prod.snd (some.inj hs)
    exact hs' ▸ hv ▸ .lock hne hf
  · rename_i entered handle funcs k rest hf
    split_ifs at hs with hk he
    · cases hs
      subst he
      exact .start hf hk
    · cases hs
      obtain rfl : entered = false := by simpa using he
      exact .refuse hf hk
  · rename_i hf
    cases hs
    exact .finish hf
  · rename_i hf
    split_ifs at hs with hk
    cases hs
    exact .ret hf hk
  · split_ifs at hs with hp
    cases hs
    exact .other hp.1 hp.2
  · cases hs

theorem inv_step (h : Inv hostPath s) (hc : Quiet s a) (hs : step hostPath s a = some (s', v)) : Inv hostPath s' := by
  obtain ⟨t, e⟩ := a
  cases step_moves hs with
  | call hf => exact h.call _ hf
  | lost hf => exact h.pop hf
  | lock hne hf => exact h.lock hne hf _
  | start hf hk => exact h.start hf hk
  | refuse => cases hc
  | finish hf =>
    cases hc
    exact h.finish hf
  | ret hf hk => exact h.ret hf hk
  | other hne hp => exact h.other hne hp

lemma Progress.all (h : Progress s k false) {i : ℕ} (hi : i < k) : s.runs i = 1 ∧ s.finished i = true := by
  simp [h.runs i, h.finished i, hi]

lemma Progress.runs_le (h : Progress s k inside) (i : ℕ) : s.runs i ≤ 1 := by
  rw [h.runs i]
  split_ifs <;> omega

lemma Busy.nested (hb : Busy handle funcs k inside (s.frames t)) (hf : s.frames t = .entered noload :: rest) :
    s.Nested t := by
  obtain h | ⟨rfl, n, h⟩ := hb
  · rw [h] at hf
    cases hf
  · exact ⟨handle, funcs, k, h ▸ mem_cons_of_mem _ mem_cons_self⟩

lemma Busy.running (hb : Busy handle funcs k inside frames) : ∃ f ∈ frames, f.isRunning = true := by
  obtain rfl | ⟨-, n, rfl⟩ := hb
  · exact ⟨_, mem_cons_self, rfl⟩
  · exact ⟨_, mem_cons_of_mem _ mem_cons_self, rfl⟩

lemma found_of_lock {file : Option LoadCall} {v : Word} (hv : (s.lock hostPath t noload rest file).2 = some v)
    (h0 : v ≠ 0) : findLoaded s.emu.modules hostPath ≠ none := by
  intro hfind
  have hpub : ∀ r, (s.publish t rest r).2 = some v → v = 0 := by
    intro r hr
    unfold publish at hr
    split at hr
    · exact (some.inj hr).symm
    · cases hr
  unfold lock at hv
  rw [hfind] at hv
  cases noload with
  | true => exact h0 (some.inj hv).symm
  | false =>
    cases file with
    | none => exact h0 (some.inj hv).symm
    | some c => exact h0 (hpub _ hv)

lemma Inv.found (h : Inv hostPath s) (hf : s.frames t = .entered noload :: rest)
    (hfind : findLoaded s.emu.modules hostPath ≠ none)
    (hquiet : ∀ t' ≠ t, ∀ f ∈ s.frames t', f.isRunning = false) : s.ReturnOk t := by
  obtain ⟨h1, -⟩ | ⟨u, handle, k, inside, -, -, h3, -⟩ | ⟨-, -, h3⟩ := h
  · exact absurd h1 hfind
  · by_cases hu : u = t
    · subst hu
      exact .inr (h3.nested hf)
    · obtain ⟨f, hmem, hrun⟩ := h3.running
      exact absurd (hquiet u hu f hmem) (by simp [hrun])
  · exact .inl fun i hi => h3.all hi

/-- **What is returned.** -/
theorem Inv.returnOk (h : Inv hostPath s) {v : Word} (hc : Quiet s a) (hs : step hostPath s a = some (s', some v))
    (h0 : v ≠ 0) : s.ReturnOk a.1 := by
  obtain ⟨t, e⟩ := a
  generalize hv : some v = w at hs
  cases step_moves hs with
  | lost hf => exact absurd (some.inj hv) h0
  | lock hne hf => exact h.found hf (found_of_lock hv.symm h0) hc
  | ret hf hk =>
    obtain ⟨-, -, -, rfl, h4, -, h6⟩ := h.busy_of_running hf
    exact .inl fun i hi => h6.all (hi.trans_le (not_lt.1 hk))
  | call | start | refuse | finish | other => cases hv

end Steps

/-- **`dl_open` and constructors.** In every run of quiet steps every init function is started at most once, and a call
returns a handle only when every one was started once and has ended, or from inside one of them. -/
theorem reach_dlOpenOk {hostPath : String} {s : State} (h : (system hostPath).Reach Quiet s) :
    (∀ i, s.runs i ≤ 1) ∧ ∀ a s' v, Quiet s a → step hostPath s a = some (s', some v) → v ≠ 0 →
      s.ReturnOk a.1 := by
  have hi : Inv hostPath s := by
    refine h.invariant (fun s => inv_init) fun s a s' hi hc hs => ?_
    obtain ⟨⟨s₁, v⟩, hs₁, rfl⟩ := map_eq_some_iff.1 hs
    exact inv_step hi hc hs₁
  refine ⟨fun i => ?_, fun a s' v hc hs h0 => hi.returnOk hc hs h0⟩
  obtain ⟨-, -, h3⟩ | ⟨_, _, _, _, -, -, -, -, -, h6⟩ | ⟨-, -, h3⟩ := hi
  · exact h3.runs_le i
  · exact h6.runs_le i
  · exact h3.runs_le i

def oneConstructor : Binary where
  segments := [⟨true, 0, 16, 16, [0, 0, 0, 0, 0, 0, 0, 0, 0, 1, 0, 0x40, 0, 0, 0, 0]⟩]
  exportedSymbols := []
  symtabSymbols := []
  relocations := []
  initArray := (8, 8)

def State.init : State := ⟨Arena.empty.state, fun _ => 0, fun _ => [], [], fun _ => 0, fun _ => false⟩

def loadOne : LoadResult :=
  init.emu.loadModuleLocked
    { Arena.goodCall oneConstructor with hostPath := "/lib.so", name := baseName "/lib.so" }

lemma loadOne_handle : loadOne.handle = some (0x40000000, [0x40000100]) := by decide

/-- The emulator after thread 0 has loaded the file, before its init function is called. -/
def State.loaded : State := ((init.setFrames 0 [.entered false]).publish 0 [] loadOne).1

lemma loaded_frames (t : ℕ) : loaded.frames t =
    if t = 0 then [.running 0x40000000 [0x40000100] 0 false] else [] := by
  simp only [loaded, publish, loadOne_handle]
  by_cases h : t = 0
  · rw [if_pos h, h]
    exact setFrames_self _
  · rw [if_neg h]
    exact (setFrames_of_ne _ h).trans (setFrames_of_ne _ h)

lemma loaded_funcs : loaded.funcs = [0x40000100] := by
  simp only [loaded, publish, loadOne_handle]

lemma reach_loaded : (system "/lib.so").Reach Quiet loaded := by
  have h0 : (system "/lib.so").Reach Quiet init := .init ⟨rfl, fun _ => rfl, rfl, fun _ => rfl, fun _ => rfl⟩
  have hcall : Quiet init (0, .call false) := trivial
  have h1 : (system "/lib.so").Reach Quiet (init.setFrames 0 [.entered false]) := h0.step hcall rfl
  have hlock : Quiet (init.setFrames 0 [.entered false])
      (0, .lock (some (Arena.goodCall oneConstructor))) := by
    intro t ht f hf
    rw [setFrames_of_ne _ ht] at hf
    cases hf
  exact h1.step hlock rfl

/-- Thread 0 inside the init function, and after it. -/
def State.inside : State :=
  { loaded.setFrames 0 [.running 0x40000000 [0x40000100] 0 true] with
    runs := update loaded.runs 0 (loaded.runs 0 + 1) }

def State.constructed : State :=
  { inside.setFrames 0 [.running 0x40000000 [0x40000100] 1 false] with
    finished := update inside.finished 0 (inside.finished 0 || !false) }

theorem reach_dlOpenOk_one_constructor :
    constructed.runs 0 ≤ 1 ∧ constructed.funcs = [0x40000100] ∧
      step "/lib.so" constructed (0, .ret) = some (constructed.setFrames 0 [], some 0x40000000) ∧
      constructed.ReturnOk 0 := by
  have hstart : step "/lib.so" loaded (0, .start true) = some (inside, none) := by
    simp only [step, loaded_frames, if_true]
    rfl
  have hfinish : step "/lib.so" inside (0, .finish false) = some (constructed, none) := rfl
  have hret : step "/lib.so" constructed (0, .ret) =
      some (constructed.setFrames 0 [], some 0x40000000) := rfl
  have hc1 : Quiet loaded (0, .start true) := rfl
  have hc2 : Quiet inside (0, .finish false) := rfl
  have hc3 : Quiet constructed (0, .ret) := trivial
  have h1 : (system "/lib.so").Reach Quiet inside :=
    reach_loaded.step hc1 (congrArg (Option.map Prod.fst) hstart)
  have h2 : (system "/lib.so").Reach Quiet constructed :=
    h1.step hc2 (congrArg (Option.map Prod.fst) hfinish)
  obtain ⟨hruns, hok⟩ := reach_dlOpenOk h2
  exact ⟨hruns 0, loaded_funcs, hret, hok _ _ _ hc3 hret (by decide)⟩

/-- **The handle comes before the constructors.** Thread 1 is given the module that thread 0 has just published, before
the init function is called. -/
theorem handle_before_constructors : ¬ ∀ (hostPath : String) (s : State), (system hostPath).Reachable s →
    (∀ i, s.runs i ≤ 1) ∧
      ∀ a s' v, step hostPath s a = some (s', some v) → v ≠ 0 → s.ReturnOk a.1 := by
  intro h
  let s := loaded.setFrames 1 [.entered false]
  have hcall : step "/lib.so" loaded (1, .call false) = some (s, none) := by
    simp only [step, loaded_frames]
    rfl
  have hloaded : (system "/lib.so").Reachable loaded := reach_loaded.mono fun _ _ _ => trivial
  have hreach : (system "/lib.so").Reachable s := hloaded.next (congrArg (Option.map Prod.fst) hcall)
  have hlock : (step "/lib.so" s (1, .lock none)).map Prod.snd = some (some 0x40000000) := by decide
  obtain ⟨⟨s', v⟩, hs, rfl⟩ := Option.map_eq_some_iff.1 hlock
  obtain hall | ⟨handle, funcs, k, hmem⟩ := (h "/lib.so" s hreach).2 _ _ _ hs (by decide)
  · have hrun : loaded.runs 0 = 1 := (hall 0 (by simp [s, setFrames, loaded_funcs])).1
    revert hrun
    decide
  · have hmem' : Frame.running handle funcs k true ∈ [Frame.entered false] := hmem
    simp at hmem'

end CrossShim.Loader.DlOpen
