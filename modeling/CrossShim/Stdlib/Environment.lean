import CrossShim.Memory.GuestHeap
import CrossShim.Memory.Strings

/-!
# The environment

`getenv`, `setenv` and `unsetenv` of `hle_stdlib.cpp`, `putenv` and `clearenv` of `hle_process.cpp`.  A name is looked
up in three places: the strings that the guest gave to `putenv`, which stay in its memory, the table `g_env`, and the
environment of the host.  The host's environment points to the texts of `putenv` in a `std::vector<std::string>`; a
text that the string holds itself moves when the vector grows.

`setenv` without `overwrite` asks the host whether the name has a value, and `g_env` whether to keep it: a value that
only the host has, or only a string of `putenv`, is hidden by the new one.  In the runs that keep to `Meets` the calls
do what they are for: `reach_lawful`. -/

namespace CrossShim.Stdlib.Environment

open Lib Function List Memory Memory.HeapAllocator Memory.GuestHeap

abbrev Text := List Byte

/-- The `=` of an assignment. -/
def eqSign : Byte := 0x3d

/-- The limit of `read_string`. -/
def maxLen : ℕ := 4096

/-- The text before the first `=`. -/
def nameOf (t : Text) : Text := t.takeWhile (· ≠ eqSign)

/-- The value that an assignment gives to the name. -/
def assigned (n t : Text) : Option Text :=
  if (n ++ [eqSign]).isPrefixOf t then some (t.drop (n.length + 1)) else none

/-! ### The host -/

/-- Where the text of an entry is: in memory that stays, in an element of the vector of `putenv`, or in one it has left.
-/
inductive Place where
  | stable
  | inVector
  | freed
  deriving DecidableEq

structure HostEntry where
  text : Text
  place : Place
  deriving DecidableEq

inductive Fault where
  | useAfterFree
  deriving DecidableEq

inductive Errno where
  | EINVAL
  | host (n : ℕ)
  deriving DecidableEq

/-- The host's `std::string` and `std::vector`: the length up to which a string holds its text itself, and the capacity
after the vector grows. -/
structure Library where
  inlineRoom : ℕ
  grow : ℕ → ℕ
  lt_grow : ∀ c, c < grow c

def hostFind (n : Text) : List HostEntry → Except Fault (Option Text)
  | [] => .ok none
  | e :: es =>
    if e.place = .freed then .error .useAfterFree
    else
      match assigned n e.text with
      | some v => .ok (some v)
      | none => hostFind n es

/-- The first entry for the name is replaced, or there is one more entry. -/
def hostReplace (n : Text) (new : HostEntry) : List HostEntry → Except Fault (List HostEntry)
  | [] => .ok [new]
  | e :: es =>
    if e.place = .freed then .error .useAfterFree
    else
      match assigned n e.text with
      | some _ => .ok (new :: es)
      | none => (hostReplace n new es).map (e :: ·)

def hostRemove (n : Text) : List HostEntry → Except Fault (List HostEntry)
  | [] => .ok []
  | e :: es =>
    if e.place = .freed then .error .useAfterFree
    else
      match assigned n e.text with
      | some _ => hostRemove n es
      | none => (hostRemove n es).map (e :: ·)

/-- `::getenv`. -/
def hostGetenv (environ : List HostEntry) (name : Text) : Except Fault (Option Text) :=
  if name = [] then .ok none else hostFind name environ

def refused (name : Text) : Bool := name = [] ∨ eqSign ∈ name

/-- `::setenv`; `failure` is the `errno` with which it would fail to change the environment. -/
def hostSetenv (failure : Option ℕ) (environ : List HostEntry) (name value : Text) (overwrite : Bool) :
    Except Fault (Except Errno (List HostEntry)) :=
  if refused name then .ok (.error .EINVAL)
  else
    match hostFind name environ with
    | .error f => .error f
    | .ok old =>
      if old.isSome ∧ overwrite = false then .ok (.ok environ)
      else
        match failure with
        | some e => .ok (.error (.host e))
        | none => (hostReplace name ⟨name ++ eqSign :: value, .stable⟩ environ).map .ok

/-- `::unsetenv`. -/
def hostUnsetenv (environ : List HostEntry) (name : Text) : Except Fault (Except Errno (List HostEntry)) :=
  if refused name then .ok (.error .EINVAL) else (hostRemove name environ).map .ok

/-- `::putenv` of a text at this place; one without `=` is taken out. -/
def hostPutenv (failure : Option ℕ) (environ : List HostEntry) (e : HostEntry) :
    Except Fault (Except Errno (List HostEntry)) :=
  if eqSign ∈ e.text then
    match failure with
    | some n => .ok (.error (.host n))
    | none => (hostReplace (nameOf e.text) e environ).map .ok
  else if e.text = [] then .ok (.ok environ)
  else (hostRemove e.text environ).map .ok

/-! ### The handlers -/

structure State extends GuestHeap where
  gEnv : Text → Option Text
  putenvGuestStrings : Text → Option Word
  /-- the size and the capacity of `env_strings` -/
  envStrings : ℕ
  capacity : ℕ
  environ : List HostEntry

open State

structure Ret where
  x0 : Word
  errno : Option Errno := none
  deriving DecidableEq

/-- What `getenv` finds. -/
inductive Found where
  | pointer (p : Word)
  | copy (value : Text)
  | null
  deriving DecidableEq

namespace State

variable (s : State)

/-- The value in a string that was given to `putenv`, if that still assigns to the name. -/
def putenvPointer (name : Text) : Option Word :=
  match s.putenvGuestStrings name with
  | none => none
  | some string =>
    let assignment := s.mem.readString maxLen string
    match assignment.idxOf? eqSign with
    | some eq => if assignment.take eq = name then some (string + BitVec.ofNat 64 (eq + 1)) else none
    | none => none

/-- The places where `getenv` looks, in their order. -/
def find (name : Text) : Except Fault Found :=
  match s.putenvPointer name with
  | some p => .ok (.pointer p)
  | none =>
    match s.gEnv name with
    | some value => .ok (.copy value)
    | none =>
      match hostGetenv s.environ name with
      | .ok (some value) => .ok (.copy value)
      | .ok none => .ok .null
      | .error f => .error f

/-- What `getenv` returns for it. -/
def deliver : Found → State × Word
  | .pointer p => (s, p)
  | .copy value =>
    let (g, p) := s.toGuestHeap.place (value ++ [0])
    ({ s with toGuestHeap := g }, p)
  | .null => (s, 0)

def getenv (nameAddr : Word) : Except Fault (State × Ret) :=
  match s.find (s.mem.readString maxLen nameAddr) with
  | .ok found => .ok ((s.deliver found).1, ⟨(s.deliver found).2, none⟩)
  | .error f => .error f

/-- What `setenv` does to the tables when the host has set the name. -/
def assign (name value : Text) (overwrite : Bool) : State :=
  { s with
    gEnv := if overwrite ∨ s.gEnv name = none then update s.gEnv name (some value) else s.gEnv
    putenvGuestStrings := update s.putenvGuestStrings name none }

def setenv (failure : Option ℕ) (nameAddr valueAddr x2 : Word) : Except Fault (State × Ret) :=
  if nameAddr = 0 ∨ valueAddr = 0 then .ok (s, ⟨-1, some .EINVAL⟩)
  else
    let name := s.mem.readString maxLen nameAddr
    let value := s.mem.readString maxLen valueAddr
    let overwrite : Bool := x2.setWidth 32 ≠ (0 : BitVec 32)
    match hostSetenv failure s.environ name value overwrite with
    | .error f => .error f
    | .ok (.error e) => .ok (s, ⟨-1, some e⟩)
    | .ok (.ok environ) => .ok ({ s.assign name value overwrite with environ }, ⟨0, none⟩)

/-- What `unsetenv` does to the tables when the host has taken the name out. -/
def forget (name : Text) : State :=
  { s with
    gEnv := update s.gEnv name none
    putenvGuestStrings := update s.putenvGuestStrings name none }

def unsetenv (nameAddr : Word) : Except Fault (State × Ret) :=
  if nameAddr = 0 then .ok (s, ⟨-1, some .EINVAL⟩)
  else
    let name := s.mem.readString maxLen nameAddr
    match hostUnsetenv s.environ name with
    | .error f => .error f
    | .ok (.error e) => .ok (s, ⟨-1, some e⟩)
    | .ok (.ok environ) => .ok ({ s.forget name with environ }, ⟨0, none⟩)

def note (string : Word) (str : Text) : State :=
  match str.idxOf? eqSign with
  | some eq =>
    if 0 < eq then
      { s with
        putenvGuestStrings := update s.putenvGuestStrings (str.take eq) (some string)
        gEnv := update s.gEnv (str.take eq) none }
    else s
  | none => s

/-- `env_strings.push_back`: a vector that is full moves its elements. -/
def pushBack (lib : Library) : State :=
  if s.envStrings < s.capacity then { s with envStrings := s.envStrings + 1 }
  else
    { s with
      envStrings := s.envStrings + 1
      capacity := lib.grow s.capacity
      environ := s.environ.map fun e => if e.place = .inVector then { e with place := .freed } else e }

def putenv (lib : Library) (failure : Option ℕ) (string : Word) : Except Fault (State × Ret) :=
  if string = 0 then .ok (s, ⟨-1, some .EINVAL⟩)
  else
    let str := s.mem.readString maxLen string
    let s₁ := (s.note string str).pushBack lib
    let e : HostEntry := ⟨str, if str.length ≤ lib.inlineRoom then .inVector else .stable⟩
    match hostPutenv failure s₁.environ e with
    | .error f => .error f
    | .ok (.error e) => .ok (s₁, ⟨-1, some e⟩)
    | .ok (.ok environ) => .ok ({ s₁ with environ }, ⟨0, none⟩)

/-- `clearenv`; `failure` is the `errno` with which that of the host fails. -/
def clearenv (failure : Option ℕ) : State × Ret :=
  match failure with
  | some e => (s, ⟨-1, some (.host e)⟩)
  | none => ({ s with environ := [], gEnv := fun _ => none, putenvGuestStrings := fun _ => none }, ⟨0, none⟩)

end State

/-! ### Runs -/

/-- The calls, and what the guest does between them. -/
inductive Event where
  | stores (a : Word) (bytes : List Byte)
  | malloc (size : Word)
  | free (p : Word)
  | getenv (nameAddr : Word)
  | setenv (failure : Option ℕ) (nameAddr valueAddr x2 : Word)
  | unsetenv (nameAddr : Word)
  | putenv (failure : Option ℕ) (string : Word)
  | clearenv (failure : Option ℕ)

def step (lib : Library) (s : State) : Event → Except Fault State
  | .stores a bytes => .ok { s with mem := (s.mem.write a bytes).1 }
  | .malloc size => .ok { s with heap := (s.heap.allocate size 16).1 }
  | .free p => .ok { s with heap := s.heap.free p }
  | .getenv nameAddr => (s.getenv nameAddr).map Prod.fst
  | .setenv failure nameAddr valueAddr x2 => (s.setenv failure nameAddr valueAddr x2).map Prod.fst
  | .unsetenv nameAddr => (s.unsetenv nameAddr).map Prod.fst
  | .putenv failure string => (s.putenv lib failure string).map Prod.fst
  | .clearenv failure => .ok (s.clearenv failure).1

def opensslConf : Text := [0x4f, 0x50, 0x45, 0x4e, 0x53, 0x53, 0x4c, 0x5f, 0x43, 0x4f, 0x4e, 0x46]

/-- `/etc/ssl/openssl.cnf`. -/
def opensslCnf : Text :=
  [0x2f, 0x65, 0x74, 0x63, 0x2f, 0x73, 0x73, 0x6c, 0x2f, 0x6f, 0x70, 0x65, 0x6e, 0x73, 0x73, 0x6c, 0x2e, 0x63, 0x6e, 0x66]

/-- The tables at the start, over any environment of the host. -/
structure Initial (s : State) : Prop where
  ok : s.toGuestHeap.Ok
  gEnv : s.gEnv = update (fun _ => none) opensslConf (some opensslCnf)
  putenvGuestStrings : s.putenvGuestStrings = fun _ => none
  envStrings : s.envStrings = 0 ∧ s.capacity = 0
  environ : ∀ e ∈ s.environ, e.place = .stable

def system (lib : Library) : System State Event := ⟨Initial, fun s e s' => step lib s e = .ok s'⟩

/-! ### What the calls are for -/

/-- The string that `getenv` yields for a name; `none` is a null pointer. -/
def State.yields (s : State) (n : Text) : Except Fault (Option Text) :=
  (s.find (n.take maxLen)).map fun found =>
    if (s.deliver found).2 = 0 then none else some ((s.deliver found).1.mem.stringAt (s.deliver found).2)

def IsName (n : Text) : Prop := n ≠ [] ∧ eqSign ∉ n

instance (n : Text) : Decidable (IsName n) := inferInstanceAs (Decidable (_ ∧ _))

/-- What `getenv` yields is the same for every name but this one. -/
def SameBut (n : Text) (s s' : State) : Prop := ∀ m, IsName m → m ≠ n → s'.yields m = s.yields m

/-- **What a call is for.** -/
def Lawful (s : State) : Event → State → Prop
  | .getenv nameAddr, s' => SameBut (s.mem.stringAt nameAddr) s s'
  | .setenv _ nameAddr valueAddr x2, s' =>
    (x2.setWidth 32 = (0 : BitVec 32) → ∀ t, s.yields (s.mem.stringAt nameAddr) = .ok (some t) →
      s'.yields (s.mem.stringAt nameAddr) = .ok (some t)) ∧
    (x2.setWidth 32 ≠ (0 : BitVec 32) →
      s'.yields (s.mem.stringAt nameAddr) = .ok (some (s.mem.stringAt valueAddr))) ∧
    SameBut (s.mem.stringAt nameAddr) s s'
  | .unsetenv nameAddr, s' =>
    s'.yields (s.mem.stringAt nameAddr) = .ok none ∧ SameBut (s.mem.stringAt nameAddr) s s'
  | .putenv _ string, s' => SameBut (nameOf (s.mem.stringAt string)) s s'
  | .clearenv _, s' => ∀ n, s'.yields n = .ok none
  | .stores _ _, _ => True
  | .malloc _, _ => True
  | .free _, _ => True

/-- The string ends, and no byte of it is free for `allocate`. -/
def Kept (g : GuestHeap) (p : Word) : Prop :=
  (g.mem.stringAt p).length < 2 ^ 64 ∧ ∀ i ≤ (g.mem.stringAt p).length, p + BitVec.ofNat 64 i ∉ g.heap.spare

/-- **The condition on a call.** `setenv` without `overwrite` comes to a name without value, or with one in `g_env`;
names are shorter than the limit of `read_string`, and values not longer; `putenv` does not move texts that the host
points to; the host does what it is asked to; and the heap has room for the copies of `getenv`. -/
def Meets (s : State) : Event → Prop
  | .getenv nameAddr =>
    (∀ n p, s.putenvGuestStrings n = some p → Kept s.toGuestHeap p) ∧
    ∀ w, s.find (s.mem.readString maxLen nameAddr) = .ok (.copy w) →
      ∀ m v, s.find m = .ok (.copy v) → w.length + v.length + 18 ≤ s.heap.left
  | .setenv failure nameAddr valueAddr x2 =>
    IsName (s.mem.stringAt nameAddr) ∧ (s.mem.stringAt nameAddr).length < maxLen ∧
    (x2.setWidth 32 = (0 : BitVec 32) → s.yields (s.mem.stringAt nameAddr) = .ok none ∨
      s.gEnv (s.mem.stringAt nameAddr) ≠ none) ∧
    (x2.setWidth 32 ≠ (0 : BitVec 32) → nameAddr ≠ 0 ∧ valueAddr ≠ 0 ∧ failure = none ∧
      (s.mem.stringAt valueAddr).length ≤ maxLen ∧
      s.heap.HasRoom (BitVec.ofNat 64 ((s.mem.stringAt valueAddr).length + 1)) 8)
  | .unsetenv nameAddr =>
    nameAddr ≠ 0 ∧ IsName (s.mem.stringAt nameAddr) ∧ (s.mem.stringAt nameAddr).length < maxLen
  | .putenv _ string =>
    (nameOf (s.mem.stringAt string)).length < maxLen ∧
      (s.envStrings < s.capacity ∨ ∀ e ∈ s.environ, e.place ≠ .inVector)
  | .clearenv failure => failure = none
  | .stores _ _ => True
  | .malloc size => size.toNat < 2 ^ 62
  | .free _ => True

/-! ### Names and assignments -/

section

variable {m n t v : Text}

lemma assigned_eq_some_iff : assigned n t = some v ↔ t = n ++ eqSign :: v := by
  unfold assigned
  constructor
  · intro h
    split_ifs at h with hp
    obtain ⟨w, rfl⟩ := isPrefixOf_iff_prefix.1 hp
    have hdrop : (n ++ [eqSign] ++ w).drop (n.length + 1) = w := drop_left' (by simp)
    rw [hdrop] at h
    cases h
    simp
  · rintro rfl
    have hp : (n ++ [eqSign]) <+: n ++ eqSign :: v := ⟨v, by simp⟩
    rw [if_pos ( isPrefixOf_iff_prefix.2 hp)]
    simp

lemma eqSign_notMem_nameOf : eqSign ∉ nameOf t := by
  intro h
  have := mem_takeWhile_imp h
  simp at this

lemma nameOf_append (hn : eqSign ∉ n) : nameOf (n ++ eqSign :: v) = n := by
  unfold nameOf
  rw [takeWhile_append_of_pos]
  · simp
  · intro b hb
    simpa using fun h : b = eqSign => hn (h ▸ hb)

lemma nameOf_of_notMem (h : eqSign ∉ t) : nameOf t = t := by
  unfold nameOf
  rw [takeWhile_eq_self_iff]
  intro b hb
  simpa using fun h' : b = eqSign => h (h' ▸ hb)

lemma nameOf_of_assigned (hm : eqSign ∉ m) (h : assigned m t = some v) : nameOf t = m := by
  rw [assigned_eq_some_iff] at h
  rw [h, nameOf_append hm]

lemma assigned_of_ne (hm : eqSign ∉ m) (hne : m ≠ nameOf t) : assigned m t = none := by
  cases h : assigned m t with
  | none => rfl
  | some v => exact absurd (nameOf_of_assigned hm h).symm hne

lemma idxOf?_eq_some {i : ℕ} (h : t.idxOf? eqSign = some i) : t.take i = nameOf t ∧ i < t.length := by
  induction t generalizing i with
  | nil => cases h
  | cons b t ih =>
    rw [idxOf?_cons] at h
    by_cases hb : b = eqSign
    · rw [if_pos (by simpa using hb)] at h
      cases h
      simp [nameOf, hb]
    · rw [if_neg (by simpa using hb)] at h
      obtain ⟨j, hj, rfl⟩ := Option.map_eq_some_iff.1 h
      obtain ⟨h1, h2⟩ := ih hj
      refine ⟨?_, by simpa using h2⟩
      rw [take_succ_cons, h1]
      simp [nameOf, hb]

lemma nameOf_take {k : ℕ} (h : (nameOf t).length < k) : nameOf (t.take k) = nameOf t := by
  induction t generalizing k with
  | nil => simp
  | cons b t ih =>
    obtain ⟨k, rfl⟩ : ∃ j, k = j + 1 := ⟨k - 1, by omega⟩
    by_cases hb : b = eqSign
    · simp [nameOf, hb]
    · have hcons : ∀ u : Text, nameOf (b :: u) = b :: nameOf u := fun u => by simp [nameOf, hb]
      rw [hcons, length_cons] at h
      rw [take_succ_cons, hcons, hcons, ih (by omega)]

lemma take_maxLen (h : n.length < maxLen) : n.take maxLen = n := take_of_length_le h.le

lemma take_maxLen_ne (hn : n.length < maxLen) (hne : m ≠ n) : m.take maxLen ≠ n := by
  rintro rfl
  rw [length_take] at hn
  exact hne (take_of_length_le (by omega)).symm

lemma IsName.take (h : IsName m) : IsName (m.take maxLen) := by
  refine ⟨?_, fun h' => h.2 (mem_of_mem_take h')⟩
  rw [Ne, take_eq_nil_iff, not_or]
  exact ⟨by decide, h.1⟩

end

/-! ### The environment of the host -/

section

variable {m n t : Text} {es : List HostEntry}

def Sound (es : List HostEntry) : Prop := ∀ e ∈ es, e.place ≠ .freed

/-- The value of the first assignment to the name. -/
def valueIn (n : Text) (es : List HostEntry) : Option Text := es.findSome? fun e => assigned n e.text

lemma hostFind_of_sound (hs : Sound es) : hostFind n es = .ok (valueIn n es) := by
  induction es with
  | nil => rfl
  | cons e es ih =>
    obtain ⟨he, hes⟩ := forall_mem_cons.1 hs
    rw [hostFind, if_neg he, valueIn, findSome?_cons]
    cases assigned n e.text with
    | some v => rfl
    | none => exact ih hes

/-- The values of all other names are the same. -/
def SameIn (n : Text) (es es' : List HostEntry) : Prop := ∀ m, eqSign ∉ m → m ≠ n → valueIn m es' = valueIn m es

lemma SameIn.cons {es' : List HostEntry} (e : HostEntry) (h : SameIn n es es') : SameIn n (e :: es) (e :: es') := by
  intro m hm hne
  have := h m hm hne
  simp only [valueIn, findSome?_cons] at this ⊢
  rw [this]

lemma SameIn.tail {e : HostEntry} {v : Text} (hn : eqSign ∉ n) (ha : assigned n e.text = some v) :
    SameIn n (e :: es) es := by
  intro m hm hne
  have hold : assigned m e.text = none := assigned_of_ne hm (nameOf_of_assigned hn ha ▸ hne)
  simp [valueIn, hold]

lemma hostReplace_spec (new : HostEntry) (hs : Sound es) (hnew : new.place ≠ .freed) (hname : nameOf new.text = n)
    (hn : eqSign ∉ n) : ∃ es', hostReplace n new es = .ok es' ∧ Sound es' ∧ SameIn n es es' := by
  have hother (es : List HostEntry) : SameIn n es (new :: es) := by
    intro m hm hne
    simp [valueIn, assigned_of_ne hm (hname ▸ hne)]
  induction es with
  | nil => exact ⟨[new], rfl, forall_mem_singleton.2 hnew, hother []⟩
  | cons e es ih =>
    obtain ⟨he, hes⟩ := forall_mem_cons.1 hs
    rw [hostReplace, if_neg he]
    cases ha : assigned n e.text with
    | some v =>
      refine ⟨new :: es, rfl, forall_mem_cons.2 ⟨hnew, hes⟩, fun m hm hne => ?_⟩
      rw [hother es m hm hne, SameIn.tail hn ha m hm hne]
    | none =>
      obtain ⟨es', hrun, hsound, hsame⟩ := ih hes
      exact ⟨e :: es', by simp [hrun, Except.map], forall_mem_cons.2 ⟨he, hsound⟩, hsame.cons e⟩

lemma hostRemove_spec (hs : Sound es) (hn : eqSign ∉ n) :
    ∃ es', hostRemove n es = .ok es' ∧ Sound es' ∧ valueIn n es' = none ∧ SameIn n es es' := by
  induction es with
  | nil => exact ⟨[], rfl, hs, rfl, fun _ _ _ => rfl⟩
  | cons e es ih =>
    obtain ⟨he, hes⟩ := forall_mem_cons.1 hs
    obtain ⟨es', hrun, hsound, hnone, hsame⟩ := ih hes
    rw [hostRemove, if_neg he]
    cases ha : assigned n e.text with
    | some v =>
      refine ⟨es', hrun, hsound, hnone, fun m hm hne => ?_⟩
      rw [hsame m hm hne, SameIn.tail hn ha m hm hne]
    | none =>
      refine ⟨e :: es', by simp [hrun, Except.map], forall_mem_cons.2 ⟨he, hsound⟩, ?_, hsame.cons e⟩
      simpa [valueIn, ha] using hnone

lemma hostGetenv_of_sound (hs : Sound es) : hostGetenv es n = .ok (if n = [] then none else valueIn n es) := by
  unfold hostGetenv
  split_ifs
  · rfl
  · exact hostFind_of_sound hs

lemma refused_of_isName (hn : IsName n) : refused n = false := by simpa [refused] using And.intro hn.1 hn.2

lemma hostSetenv_spec (failure : Option ℕ) (v : Text) (overwrite : Bool) (hs : Sound es) (hn : IsName n) :
    (failure ≠ none ∧ ∃ e, hostSetenv failure es n v overwrite = .ok (.error e)) ∨
      ∃ es', hostSetenv failure es n v overwrite = .ok (.ok es') ∧ Sound es' ∧ SameIn n es es' := by
  unfold hostSetenv
  rw [refused_of_isName hn, hostFind_of_sound hs]
  by_cases hkeep : (valueIn n es).isSome ∧ overwrite = false
  · refine .inr ⟨es, ?_, hs, fun _ _ _ => rfl⟩
    simp [hkeep]
  · cases failure with
    | some e => exact .inl ⟨by simp, .host e, by simp [hkeep]⟩
    | none =>
      obtain ⟨es', hrun, hsound, hsame⟩ :=
        hostReplace_spec ⟨n ++ eqSign :: v, .stable⟩ hs (by simp) (nameOf_append hn.2) hn.2
      refine .inr ⟨es', ?_, hsound, hsame⟩
      simp [hkeep, hrun, Except.map]

lemma hostPutenv_spec (failure : Option ℕ) (e : HostEntry) (hs : Sound es) (he : e.place ≠ .freed) :
    (∃ err, hostPutenv failure es e = .ok (.error err)) ∨
      ∃ es', hostPutenv failure es e = .ok (.ok es') ∧ Sound es' ∧ SameIn (nameOf e.text) es es' := by
  unfold hostPutenv
  by_cases heq : eqSign ∈ e.text
  · rw [if_pos heq]
    cases failure with
    | some n => exact .inl ⟨.host n, rfl⟩
    | none =>
      obtain ⟨es', hrun, hsound, hsame⟩ := hostReplace_spec e hs he rfl eqSign_notMem_nameOf
      exact .inr ⟨es', by simp [hrun, Except.map], hsound, hsame⟩
  · rw [if_neg heq]
    by_cases hnil : e.text = []
    · rw [if_pos hnil]
      exact .inr ⟨es, rfl, hs, fun _ _ _ => rfl⟩
    · obtain ⟨es', hrun, hsound, -, hsame⟩ := hostRemove_spec hs heq
      rw [if_neg hnil, nameOf_of_notMem heq]
      exact .inr ⟨es', by simp [hrun, Except.map], hsound, hsame⟩

end

/-! ### Looking a name up -/

section

variable {s s' : State} {g g' : GuestHeap} {n v : Text} {found : Found}

/-- What the guest reads at what `getenv` returns. -/
def shows (g : GuestHeap) : Found → Option Text
  | .pointer p => if p = 0 then none else some (g.mem.stringAt p)
  | .copy value =>
    if (g.place (value ++ [0])).2 = 0 then none
    else some ((g.place (value ++ [0])).1.mem.stringAt (g.place (value ++ [0])).2)
  | .null => none

lemma yields_eq : s.yields n = (s.find (n.take maxLen)).map (shows s.toGuestHeap) := by
  unfold yields
  congr 1
  funext found
  cases found <;> rfl

lemma readString_maxLen {a : Word} : g.mem.readString maxLen a = (g.mem.stringAt a).take maxLen :=
  (GuestMemory.take_stringAt (by decide)).symm

lemma shows_copy (hok : g.Ok) (hlen : v.length + 9 ≤ 2 ^ 63)
    (hroom : g.heap.HasRoom (BitVec.ofNat 64 (v.length + 1)) 8) : shows g (.copy v) = some (v.takeWhile (· ≠ 0)) := by
  have hcount : (v ++ [0]).length = v.length + 1 := by simp
  have hp : Placed g _ _ (v ++ [0]) := placed_place hok (by omega) (hcount ▸ hroom)
  have hm := hp.mapped_block
  have hload := hp.load
  rw [hcount] at hm hload
  rw [shows, if_neg hp.grants.ne_zero]
  exact congrArg some (GuestMemory.readString_of_load hm hload (by omega))

lemma find_congr (hg : s'.toGuestHeap = s.toGuestHeap)
    (hp : s'.putenvGuestStrings n = s.putenvGuestStrings n) (hge : s'.gEnv n = s.gEnv n)
    (he : hostGetenv s'.environ n = hostGetenv s.environ n) : s'.find n = s.find n := by
  unfold find putenvPointer
  rw [hg, hp, hge, he]

lemma find_of_none (hp : s.putenvGuestStrings n = none) (hge : s.gEnv n = none)
    (he : hostGetenv s.environ n = .ok none) : s.find n = .ok .null := by
  simp [find, putenvPointer, hp, hge, he]

lemma find_of_gEnv (hp : s.putenvGuestStrings n = none) (hge : s.gEnv n = some v) : s.find n = .ok (.copy v) := by
  simp [find, putenvPointer, hp, hge]

lemma sameBut_of (hg : s'.toGuestHeap = s.toGuestHeap) (hn : n.length < maxLen) (hs : Sound s.environ)
    (hs' : Sound s'.environ) (hp : ∀ m, m ≠ n → s'.putenvGuestStrings m = s.putenvGuestStrings m)
    (hge : ∀ m, m ≠ n → s'.gEnv m = s.gEnv m) (he : SameIn n s.environ s'.environ) : SameBut n s s' := by
  intro m hm hne
  have hne' := take_maxLen_ne hn hne
  have hfind : s'.find (m.take maxLen) = s.find (m.take maxLen) := by
    refine find_congr hg (hp _ hne') (hge _ hne') ?_
    rw [hostGetenv_of_sound hs, hostGetenv_of_sound hs', he _ hm.take.2 hne']
  rw [yields_eq, yields_eq, hfind, hg]

end

/-! ### The calls -/

/-- **The invariant**: the heap is in order, the host points to no text that was freed, and a name with a string of
`putenv` is not in `g_env`. -/
structure Coherent (s : State) : Prop where
  ok : s.toGuestHeap.Ok
  sound : Sound s.environ
  hidden : ∀ n, s.putenvGuestStrings n ≠ none → s.gEnv n = none

/-- A call comes to an end, keeps the invariant and does what it is for. -/
def Keeps (lib : Library) (s : State) (e : Event) : Prop := ∃ s', step lib s e = .ok s' ∧ Coherent s' ∧ Lawful s e s'

section

variable {lib : Library} {s s₁ : State} {n : Text} {nameAddr string q : Word} {failure : Option ℕ}

lemma SameBut.refl : SameBut n s s := fun _ _ _ => rfl

lemma setenv_cases (failure : Option ℕ) (valueAddr x2 : Word) (hs : Sound s.environ) (hn : IsName n)
    (hread : s.mem.readString maxLen nameAddr = n) :
    ((nameAddr = 0 ∨ valueAddr = 0 ∨ failure ≠ none) ∧
      (s.setenv failure nameAddr valueAddr x2).map Prod.fst = .ok s) ∨
    ∃ es, (s.setenv failure nameAddr valueAddr x2).map Prod.fst =
        .ok { s.assign n (s.mem.readString maxLen valueAddr) (x2.setWidth 32 ≠ (0 : BitVec 32)) with environ := es } ∧
      Sound es ∧ SameIn n s.environ es := by
  unfold setenv
  by_cases hnull : nameAddr = 0 ∨ valueAddr = 0
  · rw [if_pos hnull]
    exact .inl ⟨hnull.imp_right .inl, rfl⟩
  rw [if_neg hnull, hread]
  rcases hostSetenv_spec failure (s.mem.readString maxLen valueAddr) (x2.setWidth 32 ≠ (0 : BitVec 32)) hs hn with
    ⟨hfail, e, hrun⟩ | ⟨es, hrun, hsound, hsame⟩
  · simp only [hrun]
    exact .inl ⟨.inr (.inr hfail), rfl⟩
  · simp only [hrun]
    exact .inr ⟨es, rfl, hsound, hsame⟩

lemma gEnv_assign_of_ne {m v : Text} {overwrite : Bool} (hne : m ≠ n) : (s.assign n v overwrite).gEnv m = s.gEnv m := by
  unfold assign
  split_ifs
  · exact update_of_ne hne ..
  · rfl

lemma gEnv_assign_of_overwrite (n v : Text) : (s.assign n v true).gEnv n = some v := by
  unfold assign
  rw [if_pos (.inl rfl)]
  exact update_self ..

lemma gEnv_assign_of_some {w : Text} (v : Text) (hw : s.gEnv n = some w) : (s.assign n v false).gEnv n = some w := by
  unfold assign
  rw [if_neg, hw]
  rintro (h | h)
  · cases h
  · rw [hw] at h
    cases h

lemma takeWhile_readString (n : ℕ) (a : Word) :
    (s.mem.readString n a).takeWhile (· ≠ 0) = s.mem.readString n a := by
  rw [takeWhile_eq_self_iff]
  intro b hb
  simpa using fun h : b = 0 => GuestMemory.zero_notMem_readString (h ▸ hb)

theorem setenv_keeps {valueAddr x2 : Word} (hs : Coherent s) (hc : Meets s (.setenv failure nameAddr valueAddr x2)) :
    Keeps lib s (.setenv failure nameAddr valueAddr x2) := by
  obtain ⟨hname, hlen, hkeep, hover⟩ := hc
  have hread : s.mem.readString maxLen nameAddr = s.mem.stringAt nameAddr := by
    rw [readString_maxLen, take_maxLen hlen]
  rcases setenv_cases failure valueAddr x2 hs.sound hname hread with ⟨hfail, hrun⟩ | ⟨es, hrun, hsound, hsame⟩
  · -- nothing changes, and nothing has to if the value is not to be overwritten
    refine ⟨s, hrun, hs, fun _ _ h => h, fun h => ?_, .refl⟩
    obtain ⟨h1, h2, h3, -⟩ := hover h
    exact absurd hfail (not_or.2 ⟨h1, not_or.2 ⟨h2, not_not.2 h3⟩⟩)
  set n := s.mem.stringAt nameAddr
  set v := s.mem.readString maxLen valueAddr with hv
  refine ⟨_, hrun, ⟨hs.ok, hsound, ?_⟩, ?_, ?_, ?_⟩
  · intro m hm
    by_cases hne : m = n
    · subst hne
      exact absurd (update_self ..) hm
    · exact (gEnv_assign_of_ne hne).trans (hs.hidden m fun h => hm ((update_of_ne hne ..).trans h))
  · intro h0 t ht
    rcases hkeep h0 with hnone | hin
    · rw [hnone] at ht
      cases ht
    -- the name is in `g_env`, and not hidden there
    obtain ⟨w, hw⟩ := Option.ne_none_iff_exists'.1 hin
    have hp : s.putenvGuestStrings n = none := not_not.1 fun h => hin (hs.hidden n h)
    rw [yields_eq, take_maxLen hlen, find_of_gEnv hp hw] at ht
    rw [yields_eq, take_maxLen hlen, find_of_gEnv (v := w) (update_self ..)]
    · exact ht
    · rw [decide_eq_false (not_not.2 h0)]
      exact gEnv_assign_of_some v hw
  · intro h1
    obtain ⟨-, -, -, hshort, hroom⟩ := hover h1
    have hval : v = s.mem.stringAt valueAddr := by rw [hv, readString_maxLen, take_of_length_le hshort]
    have hshow : shows s.toGuestHeap (.copy v) = some (s.mem.stringAt valueAddr) := by
      rw [← hval] at hshort hroom ⊢
      rw [shows_copy hs.ok (by unfold maxLen at hshort; omega) hroom, hv, takeWhile_readString]
    rw [yields_eq, take_maxLen hlen, find_of_gEnv (v := v) (update_self ..)]
    · exact congrArg Except.ok hshow
    · rw [decide_eq_true h1]
      exact gEnv_assign_of_overwrite n v
  · refine sameBut_of rfl hlen hs.sound hsound ?_ (fun m hne => gEnv_assign_of_ne hne) hsame
    intro m hne
    exact update_of_ne hne ..

theorem unsetenv_keeps (hs : Coherent s) (hc : Meets s (.unsetenv nameAddr)) : Keeps lib s (.unsetenv nameAddr) := by
  obtain ⟨hnull, hname, hlen⟩ := hc
  have hread : s.mem.readString maxLen nameAddr = s.mem.stringAt nameAddr := by
    rw [readString_maxLen, take_maxLen hlen]
  set n := s.mem.stringAt nameAddr
  obtain ⟨es, hremove, hsound, hnone, hsame⟩ := hostRemove_spec hs.sound hname.2
  have hrun : (s.unsetenv nameAddr).map Prod.fst = .ok { s.forget n with environ := es } := by
    unfold unsetenv hostUnsetenv
    rw [if_neg hnull, hread]
    simp only [refused_of_isName hname, Bool.false_eq_true, if_false, hremove]
    rfl
  refine ⟨_, hrun, ⟨hs.ok, hsound, ?_⟩, ?_, ?_⟩
  · intro m hm
    by_cases hne : m = n
    · exact hne ▸ update_self ..
    · exact (update_of_ne hne ..).trans (hs.hidden m fun h => hm ((update_of_ne hne ..).trans h))
  · rw [yields_eq, take_maxLen hlen, find_of_none (update_self ..) (update_self ..)]
    · rfl
    · rw [hostGetenv_of_sound hsound, hnone]
      simp
  · refine sameBut_of rfl hlen hs.sound hsound ?_ ?_ hsame <;>
    · intro m hne
      exact update_of_ne hne ..

theorem clearenv_keeps (hs : Coherent s) (hc : Meets s (.clearenv failure)) : Keeps lib s (.clearenv failure) := by
  obtain rfl : failure = none := hc
  refine ⟨_, rfl, ⟨hs.ok, ?_, fun _ _ => rfl⟩, ?_⟩
  · nofun
  · intro n
    rw [yields_eq, find_of_none rfl rfl]
    · rfl
    · unfold hostGetenv
      split_ifs <;> rfl

/-- **What `putenv` does before it asks the host**: the tables change for the name, and nothing else does. -/
structure Noted (s s₁ : State) (n : Text) : Prop where
  guest : s₁.toGuestHeap = s.toGuestHeap
  environ : s₁.environ = s.environ
  strings : ∀ m, m ≠ n → s₁.putenvGuestStrings m = s.putenvGuestStrings m
  gEnv : ∀ m, m ≠ n → s₁.gEnv m = s.gEnv m
  hidden : ∀ m, s₁.putenvGuestStrings m ≠ none → s₁.gEnv m = none

lemma noted_note (hs : Coherent s) (string : Word) (str : Text) :
    Noted s (s.note string str) (nameOf str) ∧ (s.note string str).envStrings = s.envStrings ∧
      (s.note string str).capacity = s.capacity := by
  have hself : Noted s s (nameOf str) := ⟨rfl, rfl, fun _ _ => rfl, fun _ _ => rfl, hs.hidden⟩
  unfold note
  cases h : str.idxOf? eqSign with
  | none => exact ⟨hself, rfl, rfl⟩
  | some i =>
    dsimp only
    by_cases hi : 0 < i
    · rw [if_pos hi, (idxOf?_eq_some h).1]
      refine ⟨⟨rfl, rfl, ?_, ?_, ?_⟩, rfl, rfl⟩
      · intro m hne
        exact update_of_ne hne ..
      · intro m hne
        exact update_of_ne hne ..
      · intro m hm
        by_cases hne : m = nameOf str
        · exact hne ▸ update_self ..
        · exact (update_of_ne hne ..).trans
            (hs.hidden m fun h' => hm ((update_of_ne hne ..).trans h'))
    · rw [if_neg hi]
      exact ⟨hself, rfl, rfl⟩

lemma Noted.pushBack (lib : Library) (h : Noted s s₁ n)
    (hmove : s₁.envStrings < s₁.capacity ∨ ∀ e ∈ s₁.environ, e.place ≠ .inVector) : Noted s (s₁.pushBack lib) n := by
  unfold State.pushBack
  by_cases hroom : s₁.envStrings < s₁.capacity
  · rw [if_pos hroom]
    exact { h with }
  · rw [if_neg hroom]
    refine { h with environ := ?_ }
    rw [map_congr_left fun e he => if_neg ((hmove.resolve_left hroom) e he), map_id', h.environ]

lemma putenv_cases (lib : Library) (failure : Option ℕ) {str : Text} (hnull : string ≠ 0)
    (hstr : s.mem.readString maxLen string = str) (hs₁ : (s.note string str).pushBack lib = s₁)
    (hs : Sound s₁.environ) :
    ∃ es, (s.putenv lib failure string).map Prod.fst = .ok { s₁ with environ := es } ∧ Sound es ∧
      SameIn (nameOf str) s₁.environ es := by
  have hplace : (if str.length ≤ lib.inlineRoom then Place.inVector else .stable) ≠ .freed := by
    split_ifs <;> simp
  unfold putenv
  rw [if_neg hnull]
  simp only [hstr, hs₁]
  rcases hostPutenv_spec failure ⟨str, if str.length ≤ lib.inlineRoom then .inVector else .stable⟩ hs hplace with
    ⟨err, hrun⟩ | ⟨es, hrun, hsound, hsame⟩
  · simp only [hrun]
    exact ⟨s₁.environ, rfl, hs, fun _ _ _ => rfl⟩
  · simp only [hrun]
    exact ⟨es, rfl, hsound, hsame⟩

theorem putenv_keeps (hs : Coherent s) (hc : Meets s (.putenv failure string)) :
    Keeps lib s (.putenv failure string) := by
  obtain ⟨hlen, hmove⟩ := hc
  by_cases hnull : string = 0
  · exact ⟨s, by simp [step, putenv, hnull, Except.map], hs, .refl⟩
  obtain ⟨str, hstr⟩ : ∃ str, s.mem.readString maxLen string = str := ⟨_, rfl⟩
  have hname : nameOf str = nameOf (s.mem.stringAt string) := by rw [← hstr, readString_maxLen, nameOf_take hlen]
  obtain ⟨hnote, hcount, hcap⟩ := noted_note hs string str
  have hnoted := hnote.pushBack lib (by rw [hcount, hcap, hnote.environ]; exact hmove)
  obtain ⟨es, hrun, hsound, hsame⟩ := putenv_cases lib failure hnull hstr rfl (hnoted.environ ▸ hs.sound)
  refine ⟨_, hrun, ⟨?_, hsound, hnoted.hidden⟩, ?_⟩
  · exact hnoted.guest ▸ hs.ok
  · show SameBut _ s _
    rw [← hname]
    exact sameBut_of hnoted.guest (hname ▸ hlen) hs.sound hsound hnoted.strings hnoted.gEnv (hnoted.environ ▸ hsame)

/-! ### `getenv` -/

lemma find_of_sound (hs : Sound s.environ) (n : Text) : ∃ found, s.find n = .ok found := by
  unfold find
  cases s.putenvPointer n with
  | some p => exact ⟨_, rfl⟩
  | none =>
    cases s.gEnv n with
    | some v => exact ⟨_, rfl⟩
    | none =>
      rw [hostGetenv_of_sound hs]
      cases (if n = [] then none else valueIn n s.environ) <;> exact ⟨_, rfl⟩

lemma putenvPointer_of_find (h : s.find n = .ok (.pointer q)) : s.putenvPointer n = some q := by
  unfold find at h
  split at h
  case h_1 p hp =>
    cases h
    exact hp
  case h_2 =>
    split at h
    · cases h
    · split at h <;> cases h

lemma pointer_of_find (h : s.find n = .ok (.pointer q)) :
    ∃ p i, s.putenvGuestStrings n = some p ∧ i ≤ (s.mem.stringAt p).length ∧ q = p + BitVec.ofNat 64 i := by
  have hq := putenvPointer_of_find h
  unfold putenvPointer at hq
  cases hp : s.putenvGuestStrings n with
  | none =>
    rw [hp] at hq
    cases hq
  | some p =>
    rw [hp] at hq
    cases hi : (s.mem.readString maxLen p).idxOf? eqSign with
    | none =>
      simp only [hi] at hq
      cases hq
    | some i =>
      simp only [hi] at hq
      split_ifs at hq
      refine ⟨p, i + 1, rfl, ?_, (Option.some.inj hq).symm⟩
      have hlt := (idxOf?_eq_some hi).2
      rw [readString_maxLen, length_take] at hlt
      omega

section

variable {g g' : GuestHeap} {p q : Word} {bs : List Byte}

lemma stringAt_of_kept (hp : Placed g g' p bs) (hk : Kept g q) : g'.mem.stringAt q = g.mem.stringAt q :=
  GuestMemory.readString_congr hp.mapped fun i hi => hp.of_notMem_spare (hk.2 i hi)

lemma stringAt_add_of_kept {i : ℕ} (hp : Placed g g' p bs) (hk : Kept g q)
    (hi : i ≤ (g.mem.stringAt q).length) :
    g'.mem.stringAt (q + BitVec.ofNat 64 i) = g.mem.stringAt (q + BitVec.ofNat 64 i) := by
  have hsame := stringAt_of_kept hp hk
  rw [GuestMemory.drop_stringAt hk.1 hi, GuestMemory.drop_stringAt (hsame ▸ hk.1) (hsame ▸ hi), hsame]

end

lemma find_placed {g' : GuestHeap} {p : Word} {bs : List Byte} (hp : Placed s.toGuestHeap g' p bs)
    (hk : ∀ n q, s.putenvGuestStrings n = some q → Kept s.toGuestHeap q) (m : Text) :
    ({ s with toGuestHeap := g' } : State).find m = s.find m := by
  have hpointer : ({ s with toGuestHeap := g' } : State).putenvPointer m = s.putenvPointer m := by
    unfold putenvPointer
    cases hq : s.putenvGuestStrings m with
    | none => rfl
    | some q =>
      show (match List.idxOf? eqSign (g'.mem.readString maxLen q) with | some _ => _ | none => _) = _
      rw [readString_maxLen, stringAt_of_kept hp (hk m q hq), ← readString_maxLen]
  unfold find
  rw [hpointer]

theorem getenv_keeps (hs : Coherent s) (hc : Meets s (.getenv nameAddr)) : Keeps lib s (.getenv nameAddr) := by
  obtain ⟨hk, hroom⟩ := hc
  obtain ⟨found, hfound⟩ := find_of_sound hs.sound (s.mem.readString maxLen nameAddr)
  have hrun : step lib s (.getenv nameAddr) = .ok (s.deliver found).1 := by
    simp only [step, getenv, hfound]
    rfl
  cases found with
  | pointer p | null => exact ⟨s, hrun, hs, .refl⟩
  | copy w =>
    -- every copy that `getenv` makes finds room, before and after this one
    have hfits : ∀ m v, s.find m = .ok (.copy v) → w.length + v.length + 18 ≤ s.heap.left := hroom w hfound
    have hcount : (w ++ [0]).length = w.length + 1 := by simp
    have hself := hfits _ _ hfound
    have hle := hs.ok.inv.left_le
    have hp : Placed s.toGuestHeap _ _ (w ++ [0]) :=
      placed_place hs.ok (by omega) (hasRoom_of_left hs.ok.inv (by omega))
    have hleft := left_allocate (n := (w ++ [0]).length) hs.ok.inv (by omega)
    refine ⟨_, hrun, ⟨hp.ok, hs.sound, hs.hidden⟩, ?_⟩
    intro m _ _
    rw [yields_eq, yields_eq]
    obtain ⟨found, hm⟩ := find_of_sound hs.sound (m.take maxLen)
    have hm' : (s.deliver (.copy w)).1.find (m.take maxLen) = .ok found := (find_placed hp hk _).trans hm
    rw [hm, hm']
    refine congrArg Except.ok ?_
    cases found with
    | null => rfl
    | pointer q =>
      obtain ⟨r, i, hr, hi, rfl⟩ := pointer_of_find hm
      have hsame := stringAt_add_of_kept hp (hk _ r hr) hi
      exact congrArg (fun t => if r + BitVec.ofNat 64 i = 0 then none else some t) hsame
    | copy v =>
      have hv := hfits _ _ hm
      rw [shows_copy hs.ok (by omega) (hasRoom_of_left hs.ok.inv (by omega))]
      refine shows_copy hp.ok (by omega) (hasRoom_of_left hp.ok.inv ?_)
      show v.length + 1 + 8 ≤ (s.heap.allocate (BitVec.ofNat 64 (w ++ [0]).length) 8).1.left
      omega

/-! ### Whole runs -/

theorem step_keeps (lib : Library) {e : Event} (hs : Coherent s) (hc : Meets s e) : Keeps lib s e := by
  cases e with
  | stores a bytes => exact ⟨_, rfl, ⟨⟨hs.ok.inv, hs.ok.mapped⟩, hs.sound, hs.hidden⟩, trivial⟩
  | malloc size =>
    obtain ⟨hk, -⟩ := retains_allocate_sixteen hs.ok.inv hc
    exact ⟨_, rfl, ⟨hs.ok.keeps rfl hk, hs.sound, hs.hidden⟩, trivial⟩
  | free p =>
    have hk := (free_spec hs.ok.inv p).1.keeps
    exact ⟨_, rfl, ⟨hs.ok.keeps rfl hk, hs.sound, hs.hidden⟩, trivial⟩
  | getenv nameAddr => exact getenv_keeps hs hc
  | setenv failure nameAddr valueAddr x2 => exact setenv_keeps hs hc
  | unsetenv nameAddr => exact unsetenv_keeps hs hc
  | putenv failure string => exact putenv_keeps hs hc
  | clearenv failure => exact clearenv_keeps hs hc

lemma Initial.coherent (h : Initial s) : Coherent s where
  ok := h.ok
  sound e he := by
    rw [h.environ e he]
    simp
  hidden n hn := absurd (congrFun h.putenvGuestStrings n) hn

theorem reach_coherent (hr : (system lib).Reach Meets s) : Coherent s := by
  refine hr.invariant (I := Coherent) (fun _ h => Initial.coherent h) ?_
  intro s e s' hs hc hstep
  obtain ⟨s₁, h₁, hs₁, -⟩ := step_keeps lib hs hc
  exact Except.ok.inj (h₁.symm.trans hstep) ▸ hs₁

end

/-- **The environment over whole runs**: in a run whose steps all meet the condition, every call that meets it ends and
does what it is for. -/
theorem reach_lawful (lib : Library) (s : State) (hr : (system lib).Reach Meets s) (e : Event) (hc : Meets s e) :
    ∃ s', step lib s e = .ok s' ∧ Lawful s e s' := by
  obtain ⟨s', hstep, -, hl⟩ := step_keeps lib (reach_coherent hr) hc
  exact ⟨s', hstep, hl⟩

def gnuLibrary : Library where
  inlineRoom := 15
  grow c := 2 * c + 1
  lt_grow c := by omega

def path : Text := [0x50, 0x41, 0x54, 0x48]

/-- A host whose `PATH` is `/bin`, and a guest with the strings `PATH`, `1`, `A=1` and `B=2`. -/
def hostPath : State where
  mem := {
    bytes := store (store (store (store (fun _ => 0) 0x1000 path) 0x1008 [0x31]) 0x1010 [0x41, eqSign, 0x31])
      0x1018 [0x42, eqSign, 0x32]
    mapped := fun _ => true }
  heap := .init 0x10000 0x10000
  gEnv := update (fun _ => none) opensslConf (some opensslCnf)
  putenvGuestStrings := fun _ => none
  envStrings := 0
  capacity := 0
  environ := [⟨path ++ eqSign :: [0x2f, 0x62, 0x69, 0x6e], .stable⟩]

lemma initial_hostPath : Initial hostPath where
  ok := ⟨inv_init (by decide) (by decide), fun _ _ => rfl⟩
  gEnv := rfl
  putenvGuestStrings := rfl
  envStrings := ⟨rfl, rfl⟩
  environ e he := by
    rw [mem_singleton.1 he]

/-- `setenv("PATH", "1", 1)`, and then `unsetenv("PATH")`. -/
theorem reach_lawful_overwrite :
    ∃ s s', step gnuLibrary hostPath (.setenv none 0x1000 0x1008 1) = .ok s ∧
      Lawful hostPath (.setenv none 0x1000 0x1008 1) s ∧
      step gnuLibrary s (.unsetenv 0x1000) = .ok s' ∧ Lawful s (.unsetenv 0x1000) s' := by
  have hset : Meets hostPath (.setenv none 0x1000 0x1008 1) := by
    refine ⟨by decide +kernel, by decide +kernel, fun h => absurd h (by decide), fun _ => ?_⟩
    refine ⟨by decide, by decide, rfl, by decide +kernel, ?_⟩
    exact hasRoom_of_left initial_hostPath.ok.inv (by decide +kernel)
  obtain ⟨s, hs, hlawful⟩ := reach_lawful gnuLibrary hostPath (.init initial_hostPath) _ hset
  have hreach : (system gnuLibrary).Reach Meets s := .step (.init initial_hostPath) hset hs
  have hname : (step gnuLibrary hostPath (.setenv none 0x1000 0x1008 1)).map (fun s => s.mem.stringAt 0x1000) =
      .ok path := by
    decide +kernel
  rw [hs] at hname
  have hunset : Meets s (.unsetenv 0x1000) := by
    refine ⟨by decide, ?_⟩
    rw [show s.mem.stringAt 0x1000 = path from Except.ok.inj hname]
    decide +kernel
  obtain ⟨s', hs', hlawful'⟩ := reach_lawful gnuLibrary s hreach _ hunset
  exact ⟨s, s', hs, hlawful, hs', hlawful'⟩

/-- `setenv("PATH", "1", 0)` changes the value that the host has; and after two short strings given to `putenv` the host
has a text that was freed. -/
theorem setenv_hides_host_value :
    hostPath.yields path = .ok (some [0x2f, 0x62, 0x69, 0x6e]) ∧
      (step gnuLibrary hostPath (.setenv none 0x1000 0x1008 0)).map (fun s => s.yields path) = .ok (.ok (some [0x31])) ∧
      ((step gnuLibrary hostPath (.putenv none 0x1010)).bind
        fun s => (step gnuLibrary s (.putenv none 0x1018)).map fun _ => ()) = .error .useAfterFree := by
  decide +kernel

end CrossShim.Stdlib.Environment
