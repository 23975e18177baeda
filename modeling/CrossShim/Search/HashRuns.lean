import CrossShim.Search.Hash

/-!
# Calls on hash tables

A guest calls `hcreate_r`, `hsearch_r` and `hdestroy_r` on any number of tables.  Beside the state, the data that was
given with each key is recorded.  When the host uses the memory of a destroyed table for a new one, the map from host
entries to guest entries gives the entries of the old table: `stale_entry`.  `reach_finds` is about the runs in which no
key is entered at an address that the map knows.
-/

namespace CrossShim.Search

open Lib Memory Function Option Set HostTable Search HeapAllocator

/-! ### Calls -/

/-- The state, with the host's table of each `struct hsearch_data`, and the data given with each key entered since. -/
structure HashSession where
  st : HashState
  active : Word → Option Word
  entered : Word → List Byte → Option Word

inductive HashEvent where
  | hcreateR (nel htabPtr : Word) (host : Word → Option (Word × BitVec 32))
  | hsearchR (c : SearchCall) (slot : ℕ)
  | hdestroyR (htabPtr : Word)
  | guest (g : GuestHeap)

namespace HashSession

variable (s : HashSession)

def keyOf (c : SearchCall) : List Byte := s.st.g.mem.stringAt c.keyPtr

def Enters (c : SearchCall) : Prop :=
  c.action = ENTER ∧ s.entered c.htabPtr (s.keyOf c) = none

instance (s : HashSession) (c : SearchCall) : Decidable (s.Enters c) := by unfold Enters; infer_instance

/-- What is recorded when a call has returned `x0`. -/
def record (c : SearchCall) (x0 : Word) (st : HashState) : HashSession where
  st := st
  active := s.active
  entered :=
    if x0 ≠ 0 ∧ s.Enters c then
      update s.entered c.htabPtr (update (s.entered c.htabPtr) (s.keyOf c) (some c.dataPtr))
    else s.entered

def renew (htabPtr : Word) (table : Option Word) (st : HashState) : HashSession where
  st := st
  active := update s.active htabPtr table
  entered := update s.entered htabPtr fun _ => none

def step : HashEvent → Option HashSession
  | .hcreateR nel htabPtr host => (hcreateR nel htabPtr host s.st).map fun (_, st) =>
    if htabPtr = 0 then s else s.renew htabPtr ((host nel).map Prod.fst) st
  | .hsearchR c slot => (hsearchR c slot s.st).map fun (ret, st) => s.record c ret.x0 st
  | .hdestroyR htabPtr => (hdestroyR htabPtr s.st).map fun st =>
    if htabPtr = 0 then s else s.renew htabPtr none st
  | .guest g => some { s with st := { s.st with g } }

end HashSession

/-! ### What must not be written to -/

namespace HashSession

variable (s : HashSession)

def withG (g : GuestHeap) : HashSession := { s with st := { s.st with g } }

/-- The structures of the guest that stand for tables. -/
def structs : Set Word := {x | ∃ h, s.active h ≠ none ∧ x ∈ block h 16}

def HasEntry (h : Word) (key : List Byte) (e : Word) : Prop :=
  ∃ b t i, s.active h = some b ∧ s.st.tables b = some t ∧ t.entries i = some key ∧
    s.st.hostToGuest (entryPtr b i) = some e

def entryArea : Set Word := {x | ∃ h key e, s.HasEntry h key e ∧ x ∈ footprint s.st.g e key}

structure IsVariable (s : HashSession) (a : Word) : Prop where
  mapped : s.st.g.mem.Mapped a 8
  spare : Disjoint (block a 8) s.st.g.heap.spare
  structs : Disjoint (block a 8) s.structs
  entries : Disjoint (block a 8) s.entryArea

structure CreateFits (s : HashSession) (nel htabPtr : Word) (host : Word → Option (Word × BitVec 32)) : Prop where
  mapped : s.st.g.mem.Mapped htabPtr 16
  spare : Disjoint (block htabPtr 16) s.st.g.heap.spare
  structs : ∀ h, h ≠ htabPtr → s.active h ≠ none → Disjoint (block htabPtr 16) (block h 16)
  entries : Disjoint (block htabPtr 16) s.entryArea
  host : ∀ b size, host nel = some (b, size) → s.st.tables b = none

/-- A search in a table that was created, for a key that is not cut; a new key needs a variable for its entry, room in
the heap, and a free place whose address is not in the map. -/
structure SearchFits (s : HashSession) (c : SearchCall) (slot : ℕ) : Prop where
  active : s.active c.htabPtr ≠ none
  short : (s.keyOf c).length ≤ 4096
  retval : c.retvalPtr ≠ 0 → s.IsVariable c.retvalPtr
  asks : s.Enters c → c.retvalPtr ≠ 0
  room : s.Enters c → (s.keyOf c).length + 33 ≤ s.st.g.heap.left
  place : s.Enters c → (readHtab s.st.g c.htabPtr).filled ≠ (readHtab s.st.g c.htabPtr).size →
    ∀ b t, s.active c.htabPtr = some b → s.st.tables b = some t →
      slot ≤ t.size ∧ t.entries slot = none ∧ s.st.hostToGuest (entryPtr b slot) = none

structure Leaves (s : HashSession) (g : GuestHeap) : Prop where
  ok : g.Ok
  mapped : g.mem.mapped = s.st.g.mem.mapped
  spare : Disjoint s.structs g.heap.spare
  live : s.entryArea ⊆ g.heap.live
  bytes : ∀ x, x ∈ s.structs ∪ s.entryArea → g.mem.bytes x = s.st.g.mem.bytes x

/-- **The condition on a step.** -/
def Fits : HashEvent → Prop
  | .hcreateR nel htabPtr host => htabPtr ≠ 0 → s.CreateFits nel htabPtr host
  | .hsearchR c slot => c.htabPtr ≠ 0 → s.SearchFits c slot
  | .hdestroyR htabPtr => htabPtr ≠ 0 → s.active htabPtr ≠ none
  | .guest g => s.Leaves g

/-- **What a search that succeeds gives**: `*retval` is an entry with the key and the data that was given with it. -/
def Finds (c : SearchCall) (st : HashState) : Prop :=
  st.g.mem.stringAt (st.g.wordAt (st.g.wordAt c.retvalPtr)) = s.keyOf c ∧
    s.entered c.htabPtr (s.keyOf c) = some (st.g.wordAt (st.g.wordAt c.retvalPtr + 8))

end HashSession

open HashSession

/-- Calls one after the other, from a guest without tables. -/
def hashSystem : System HashSession HashEvent :=
  .ofStep (fun s => s.st.g.Ok ∧ ∀ h, s.active h = none) step

/-! ### The invariant -/

/-- **What holds between calls.** -/
structure HashInv (s : HashSession) : Prop where
  ok : s.st.g.Ok
  mapped : ∀ h, s.active h ≠ none → s.st.g.mem.Mapped h 16
  kept : Disjoint s.structs s.st.g.heap.spare
  apart : ∀ h h', h ≠ h' → s.active h ≠ none → s.active h' ≠ none → Disjoint (block h 16) (block h' 16)
  table : ∀ h b, s.active h = some b → (readHtab s.st.g h).table = b ∧ s.st.tables b ≠ none
  unique : ∀ h h' b, s.active h = some b → s.active h' = some b → h = h'
  entry : ∀ h b t i key, s.active h = some b → s.st.tables b = some t → t.entries i = some key →
    ∃ e d, s.st.hostToGuest (entryPtr b i) = some e ∧ s.entered h key = some d ∧ HoldsEntry s.st.g e key d ∧
      Disjoint (footprint s.st.g e key) s.structs
  known : ∀ h b t key, s.active h = some b → s.st.tables b = some t → s.entered h key ≠ none → t.find key ≠ none

variable {t : HostTable} {key : List Byte} {i : ℕ} {a : Word} {s : HashSession}

lemma HostTable.entries_of_find (h : t.find key = some i) : t.entries i = some key := by
  simpa using List.find?_some h

lemma HostTable.find_of_entries (hi : i ≤ t.size) (h : t.entries i = some key) : t.find key ≠ none := by
  intro hnone
  have := List.find?_eq_none.1 hnone i (by simp; omega)
  exact this (by simpa using h)

namespace HashInv

variable {s : HashSession} {g : GuestHeap} {a b v e : Word} {d : HsearchData} {key : List Byte}

lemma block_subset_structs (hact : s.active a ≠ none) : block a 16 ⊆ s.structs := fun _ hx => ⟨a, hact, hx⟩

lemma footprint_subset {h : Word} (he : s.HasEntry h key e) : footprint s.st.g e key ⊆ s.entryArea :=
  fun _ hx => ⟨h, key, e, he, hx⟩

lemma entryArea_live (hinv : HashInv s) : s.entryArea ⊆ s.st.g.heap.live := by
  rintro x ⟨h, key, e, ⟨b, t, i, hact, ht, hi, hmap⟩, hx⟩
  obtain ⟨e', d, hmap', -, hold, -⟩ := hinv.entry h b t i key hact ht hi
  cases hmap.symm.trans hmap'
  rcases hx with hx | hx
  · exact hold.live hx
  · exact hold.liveKey hx

lemma entryArea_structs (hinv : HashInv s) : Disjoint s.entryArea s.structs := by
  rw [disjoint_left]
  rintro x ⟨h, key, e, ⟨b, t, i, hact, ht, hi, hmap⟩, hx⟩
  obtain ⟨e', d, hmap', -, -, hdis⟩ := hinv.entry h b t i key hact ht hi
  cases hmap.symm.trans hmap'
  exact disjoint_left.1 hdis hx

lemma entryArea_withG (hb : ∀ x ∈ s.entryArea, g.mem.bytes x = s.st.g.mem.bytes x) :
    (s.withG g).entryArea = s.entryArea := by
  have hfoot : ∀ h key e, s.HasEntry h key e → footprint g e key = footprint s.st.g e key := by
    intro h key e he
    unfold footprint
    rw [HoldsEntry.wordAt_eq fun x hx => hb x (footprint_subset he hx)]
  ext x
  constructor
  · rintro ⟨h, key, e, he, hx⟩
    exact ⟨h, key, e, he, by rwa [← hfoot h key e he]⟩
  · rintro ⟨h, key, e, he, hx⟩
    exact ⟨h, key, e, he, by show x ∈ footprint g e key; rwa [hfoot h key e he]⟩

lemma of_mem (hinv : HashInv s) (hok : g.Ok) (hm : g.mem.mapped = s.st.g.mem.mapped)
    (hkept : Disjoint s.structs g.heap.spare) (htab : ∀ h b, s.active h = some b → (readHtab g h).table = b)
    (hlive : s.entryArea ⊆ g.heap.live) (hb : ∀ x ∈ s.entryArea, g.mem.bytes x = s.st.g.mem.bytes x) :
    HashInv (s.withG g) where
  ok := hok
  mapped h hact := (hinv.mapped h hact).congr hm
  kept := hkept
  table h b hact := ⟨htab h b hact, (hinv.table h b hact).2⟩
  entry h b t i key hact ht hi := by
    obtain ⟨e, d, hmap, hent, hold, hdis⟩ := hinv.entry h b t i key hact ht hi
    have hsub : footprint s.st.g e key ⊆ s.entryArea := footprint_subset ⟨b, t, i, hact, ht, hi, hmap⟩
    have hsame : ∀ x ∈ footprint s.st.g e key, g.mem.bytes x = s.st.g.mem.bytes x := fun x hx => hb x (hsub hx)
    refine ⟨e, d, hmap, hent, hold.congr hsame (hsub.trans hlive), ?_⟩
    show Disjoint (footprint g e key) s.structs
    unfold footprint
    rw [HoldsEntry.wordAt_eq hsame]
    exact hdis
  __ := hinv

lemma writeStruct (hinv : HashInv s) (hact : s.active a = some b) (hd : d.table = b) :
    HashInv (s.withG (writeHtab s.st.g a d)) ∧ (s.withG (writeHtab s.st.g a d)).entryArea = s.entryArea := by
  have hne : s.active a ≠ none := by simp [hact]
  have hsub := block_subset_structs hne
  have hb : ∀ x ∈ s.entryArea, (writeHtab s.st.g a d).mem.bytes x = s.st.g.mem.bytes x := fun x hx =>
    bytes_writeHtab_of_notMem fun h => disjoint_left.1 hinv.entryArea_structs hx (hsub h)
  refine ⟨hinv.of_mem (ok_writeHtab hinv.ok) mapped_writeHtab (by rw [heap_writeHtab]; exact hinv.kept) ?_
    (by rw [heap_writeHtab]; exact hinv.entryArea_live) hb, entryArea_withG hb⟩
  intro h b' hact'
  by_cases hh : h = a
  · subst hh
    rw [readHtab_writeHtab (hinv.mapped h hne), hd]
    exact Option.some.inj (hact.symm.trans hact')
  · have hne' : s.active h ≠ none := by simp [hact']
    have heq : readHtab (writeHtab s.st.g a d) h = readHtab s.st.g h := by
      refine readHtab_congr (hinv.mapped h hne') mapped_writeHtab fun x hx => ?_
      exact bytes_writeHtab_of_notMem fun h' => disjoint_left.1 (hinv.apart h a hh hne' hne) hx h'
    rw [heq]
    exact (hinv.table h b' hact').1

lemma guest (hinv : HashInv s) (hfit : s.Leaves g) : HashInv (s.withG g) := by
  refine hinv.of_mem hfit.ok hfit.mapped hfit.spare ?_ hfit.live fun x hx => hfit.bytes x (.inr hx)
  intro h b hact
  have hne : s.active h ≠ none := by simp [hact]
  rw [readHtab_congr (hinv.mapped h hne) hfit.mapped fun x hx => hfit.bytes x (.inl (block_subset_structs hne hx))]
  exact (hinv.table h b hact).1

lemma writeVariable (hinv : HashInv s) (hvar : s.IsVariable a) : HashInv (s.withG (writeWord s.st.g a v)) := by
  refine hinv.guest ⟨ok_writeWord hinv.ok, mapped_writeWord, by rw [heap_writeWord]; exact hinv.kept,
    by rw [heap_writeWord]; exact hinv.entryArea_live, fun x hx => bytes_writeWord_of_notMem fun h => ?_⟩
  exact hx.elim (disjoint_left.1 hvar.structs h) (disjoint_left.1 hvar.entries h)

section

variable (hinv : HashInv s) {slot : ℕ} {t : HostTable} (hact : s.active a = some b) (ht : s.st.tables b = some t)
variable (hmap : s.st.hostToGuest (entryPtr b slot) = none)
include hinv ht hmap

/-- **An entry of a table after `key` was entered** is the new one, or was there before, and so in the map. -/
lemma entry_enter {h b' : Word} {t' : HostTable} {i : ℕ} {key' : List Byte} (hact' : s.active h = some b')
    (ht' : update s.st.tables b (some (t.enter slot key)) b' = some t') (hi : t'.entries i = some key') :
    b' = b ∧ i = slot ∧ key' = key ∨
      ∃ t₀, s.st.tables b' = some t₀ ∧ t₀.entries i = some key' ∧ entryPtr b' i ≠ entryPtr b slot := by
  have hother : ∀ t₀, s.st.tables b' = some t₀ → t₀.entries i = some key' → entryPtr b' i ≠ entryPtr b slot := by
    intro t₀ ht₀ hi₀ heq
    obtain ⟨e', -, hmap', -⟩ := hinv.entry h b' t₀ i key' hact' ht₀ hi₀
    rw [heq, hmap] at hmap'
    cases hmap'
  by_cases hb : b' = b
  · subst hb
    rw [update_self] at ht'
    cases ht'
    by_cases his : i = slot
    · subst his
      exact .inl ⟨rfl, rfl, by simpa [enter, eq_comm] using hi⟩
    · have hi₀ : t.entries i = some key' := by simpa [enter, his] using hi
      exact .inr ⟨t, ht, hi₀, hother t ht hi₀⟩
  · rw [update_of_ne hb] at ht'
    exact .inr ⟨t', ht', hi, hother t' ht' hi⟩

lemma entryArea_enter {ent} :
    entryArea ⟨⟨s.st.g, update s.st.tables b (some (t.enter slot key)),
      update s.st.hostToGuest (entryPtr b slot) (some e)⟩, s.active, ent⟩ ⊆
      s.entryArea ∪ footprint s.st.g e key := by
  rintro x ⟨h, key', e', ⟨b', t', i, hact, ht', hi, hmap'⟩, hx⟩
  replace hmap' : update s.st.hostToGuest (entryPtr b slot) (some e) (entryPtr b' i) = some e' := hmap'
  rcases hinv.entry_enter ht hmap hact ht' hi with ⟨rfl, rfl, rfl⟩ | ⟨t₀, ht₀, hi₀, hne⟩
  · rw [update_self] at hmap'
    cases hmap'
    exact .inr hx
  · rw [update_of_ne hne] at hmap'
    exact .inl ⟨h, key', e', ⟨b', t₀, i, hact, ht₀, hi₀, hmap'⟩, hx⟩

include hact

lemma enter {dataPtr : Word} (hslot : slot ≤ t.size) (hfree : t.entries slot = none) (hent : s.entered a key = none)
    (hold : HoldsEntry s.st.g e key dataPtr) (hdis : Disjoint (footprint s.st.g e key) s.structs) :
    HashInv ⟨⟨s.st.g, update s.st.tables b (some (t.enter slot key)),
      update s.st.hostToGuest (entryPtr b slot) (some e)⟩, s.active,
      update s.entered a (update (s.entered a) key (some dataPtr))⟩ where
  __ := hinv
  table h b' hact' := by
    refine ⟨(hinv.table h b' hact').1, ?_⟩
    show update s.st.tables b (some (t.enter slot key)) b' ≠ none
    by_cases hb : b' = b
    · rw [hb, update_self]
      simp
    · rw [update_of_ne hb]
      exact (hinv.table h b' hact').2
  entry h b' t' i key' hact' ht' hi' := by
    show ∃ e' d', update s.st.hostToGuest (entryPtr b slot) (some e) (entryPtr b' i) = some e' ∧
      update s.entered a (update (s.entered a) key (some dataPtr)) h key' = some d' ∧
      HoldsEntry s.st.g e' key' d' ∧ Disjoint (footprint s.st.g e' key') s.structs
    rcases hinv.entry_enter ht hmap hact' ht' hi' with ⟨rfl, rfl, rfl⟩ | ⟨t₀, ht₀, hi₀, hne⟩
    · cases hinv.unique h a b' hact' hact
      exact ⟨e, dataPtr, update_self .., by rw [update_self, update_self], hold, hdis⟩
    · obtain ⟨e', d', hmap', hent', hold', hdis'⟩ := hinv.entry h b' t₀ i key' hact' ht₀ hi₀
      refine ⟨e', d', by rwa [update_of_ne hne], ?_, hold', hdis'⟩
      by_cases hh : h = a
      · subst hh
        rwa [update_self, update_of_ne]
        rintro rfl
        rw [hent] at hent'
        cases hent'
      · rwa [update_of_ne hh]
  known h b' t' key' hact' ht' hent' := by
    replace ht' : update s.st.tables b (some (t.enter slot key)) b' = some t' := ht'
    replace hent' : update s.entered a (update (s.entered a) key (some dataPtr)) h key' ≠ none := hent'
    by_cases hb : b' = b
    · subst hb
      have hh : h = a := hinv.unique h a b' hact' hact
      subst hh
      rw [update_self] at ht' hent'
      cases ht'
      by_cases hkey : key' = key
      · subst hkey
        exact find_of_entries hslot (by simp [enter])
      · rw [update_of_ne hkey] at hent'
        obtain ⟨i, hi⟩ := ne_none_iff_exists'.1 (hinv.known h b' t key' hact' ht hent')
        have hsize : i ≤ t.size := by
          have := List.mem_range.1 (List.mem_of_find?_eq_some hi)
          omega
        have hentry := entries_of_find hi
        refine find_of_entries hsize ?_
        have hne : i ≠ slot := by
          rintro rfl
          rw [hfree] at hentry
          cases hentry
        simpa [enter, hne] using hentry
    · rw [update_of_ne hb] at ht'
      have hh : h ≠ a := by
        rintro rfl
        exact hb (Option.some.inj (hact'.symm.trans hact))
      rw [update_of_ne hh] at hent'
      exact hinv.known h b' t' key' hact' ht' hent'

end

end HashInv

/-! ### Searches -/

section

variable {s : HashSession} {c : SearchCall} {slot : ℕ} {x0 a result e : Word} {st : HashState} {g : GuestHeap}
  {key : List Byte}

lemma HashSession.readString_keyOf (h : (s.keyOf c).length ≤ 4096) : s.st.g.mem.readString 4096 c.keyPtr = s.keyOf c := by
  rw [← GuestMemory.take_stringAt (by decide)]
  exact List.take_of_length_le h

lemma HashSession.zero_notMem_keyOf (s : HashSession) : (0 : Byte) ∉ s.keyOf c :=
  GuestMemory.zero_notMem_readString

lemma HashSession.record_of_not (h : ¬(x0 ≠ 0 ∧ s.Enters c)) : s.record c x0 st = ⟨st, s.active, s.entered⟩ := by
  unfold record
  rw [if_neg h]

lemma HashSession.record_of_enters (hx0 : x0 ≠ 0) (h : s.Enters c) :
    s.record c x0 st = ⟨st, s.active,
      update s.entered c.htabPtr (update (s.entered c.htabPtr) (s.keyOf c) (some c.dataPtr))⟩ := by
  unfold record
  rw [if_pos ⟨hx0, h⟩]

lemma HashSession.IsVariable.withG (hvar : s.IsVariable a) (hm : g.mem.mapped = s.st.g.mem.mapped)
    (hspare : g.heap.spare ⊆ s.st.g.heap.spare) (harea : (s.withG g).entryArea = s.entryArea) :
    (s.withG g).IsVariable a where
  mapped := hvar.mapped.congr hm
  spare := hvar.spare.mono_right hspare
  structs := hvar.structs
  entries := by
    rw [harea]
    exact hvar.entries

/-- Memory, once `*retval` is written. -/
def writeRetval (g : GuestHeap) (a v : Word) : GuestHeap := if a = 0 then g else writeWord g a v

lemma HashInv.writeRetval (hinv : HashInv s) {v : Word} (hvar : a ≠ 0 → s.IsVariable a) :
    HashInv (s.withG (writeRetval s.st.g a v)) ∧ (a ≠ 0 → (writeRetval s.st.g a v).wordAt a = v) := by
  by_cases ha : a = 0
  · rw [Search.writeRetval, if_pos ha]
    exact ⟨hinv, fun h => absurd ha h⟩
  · rw [Search.writeRetval, if_neg ha]
    refine ⟨hinv.writeVariable (hvar ha), fun _ => ?_⟩
    rw [writeWord_of_mapped (hvar ha).mapped, wordAt_poke_self]

lemma deliverEntry_none : deliverEntry c none key st = { st with g := writeRetval st.g c.retvalPtr 0 } := by
  unfold deliverEntry writeRetval
  split_ifs <;> rfl

lemma deliverEntry_known (key : List Byte) (st : HashState) (h : st.hostToGuest result = some e) :
    deliverEntry c (some result) key st = { st with g := writeRetval st.g c.retvalPtr e } := by
  unfold deliverEntry writeRetval guestEntry
  simp only [h]
  split_ifs <;> rfl

lemma deliverEntry_new (st : HashState) (ha : c.retvalPtr ≠ 0) (h : st.hostToGuest result = none)
    (hnew : newEntry key c.dataPtr st.g = (g, e)) :
    deliverEntry c (some result) key st =
      ⟨writeWord g c.retvalPtr e, st.tables, update st.hostToGuest result (some e)⟩ := by
  unfold deliverEntry guestEntry
  rw [if_neg ha]
  simp only [h, hnew]

end

namespace HashInv

variable {s : HashSession} {c : SearchCall} {slot : ℕ} {b : Word} {t : HostTable} {htab : HsearchData}

lemma hsearchR_eq (hfit : s.SearchFits c slot) (hptr : c.htabPtr ≠ 0) {result : Option Word} {tables}
    (hhost : hostSearch s.st.tables (readHtab s.st.g c.htabPtr) (s.keyOf c) c.action slot = some (result, htab, tables)) :
    hsearchR c slot s.st = some (⟨if result.isSome then 1 else 0, if result = none ∧ c.action = FIND then some .ESRCH
      else none⟩, deliverEntry c result (s.keyOf c) ⟨writeHtab s.st.g c.htabPtr htab, tables, s.st.hostToGuest⟩) := by
  unfold hsearchR
  rw [if_neg hptr]
  simp only [readString_keyOf hfit.short, hhost]
  rfl

lemma of_newEntry (hinv : HashInv s) {g : GuestHeap} (hok : g.Ok) (hkeeps : Keeps s.st.g.heap g.heap)
    (hretains : Retains s.st.g.heap g.heap) (hm : g.mem.mapped = s.st.g.mem.mapped)
    (hb : ∀ x, x ∉ s.st.g.heap.spare → g.mem.bytes x = s.st.g.mem.bytes x) :
    HashInv (s.withG g) ∧ (s.withG g).entryArea = s.entryArea := by
  have hb' : ∀ x ∈ s.entryArea, g.mem.bytes x = s.st.g.mem.bytes x := fun x hx =>
    hb x fun h => h.2 (hinv.entryArea_live hx)
  refine ⟨hinv.guest ⟨hok, hm, hinv.kept.mono_right (hretains.spare hkeeps), hinv.entryArea_live.trans hretains.live, ?_⟩,
    entryArea_withG hb'⟩
  exact fun x hx => hx.elim (fun h => hb x (disjoint_left.1 hinv.kept h)) (hb' x)

section

variable (hinv : HashInv s) (hfit : s.SearchFits c slot)
include hinv hfit

lemma writeBack (hact : s.active c.htabPtr = some b) (hhtab : htab.table = b) {v : Word} :
    HashInv (s.withG (Search.writeRetval (writeHtab s.st.g c.htabPtr htab) c.retvalPtr v)) ∧
      (c.retvalPtr ≠ 0 → (Search.writeRetval (writeHtab s.st.g c.htabPtr htab) c.retvalPtr v).wordAt c.retvalPtr = v) := by
  obtain ⟨hinv₁, harea⟩ := hinv.writeStruct hact hhtab
  exact hinv₁.writeRetval fun ha => (hfit.retval ha).withG mapped_writeHtab (by rw [heap_writeHtab]) harea

variable (hptr : c.htabPtr ≠ 0) (hact : s.active c.htabPtr = some b) (ht : s.st.tables b = some t)
include hptr hact ht

lemma search_found (hfind : t.find (s.keyOf c) = some i) :
    ∃ ret st, hsearchR c slot s.st = some (ret, st) ∧ HashInv (s.record c ret.x0 st) ∧
      (c.retvalPtr ≠ 0 → s.Finds c st) := by
  have htable := (hinv.table _ _ hact).1
  obtain ⟨e, d, hmap, hent, -, -⟩ := hinv.entry _ _ t i _ hact ht (entries_of_find hfind)
  have hhost : hostSearch s.st.tables (readHtab s.st.g c.htabPtr) (s.keyOf c) c.action slot =
      some (some (entryPtr b i), readHtab s.st.g c.htabPtr, s.st.tables) := by
    simp only [hostSearch, htable, ht, bind_some, hfind]
  have hrun := hsearchR_eq hfit hptr hhost
  have hdeliver := deliverEntry_known (c := c) (s.keyOf c)
    ⟨writeHtab s.st.g c.htabPtr (readHtab s.st.g c.htabPtr), s.st.tables, s.st.hostToGuest⟩ hmap
  rw [hdeliver] at hrun
  obtain ⟨hinv', hword⟩ := hinv.writeBack hfit hact htable (v := e)
  have hnot : ∀ x0 : Word, ¬(x0 ≠ 0 ∧ s.Enters c) := by
    rintro x0 ⟨-, hE⟩
    rw [hE.2] at hent
    cases hent
  refine ⟨_, _, hrun, ?_, ?_⟩
  · rw [record_of_not (hnot _)]
    exact hinv'
  · intro ha
    obtain ⟨e', d', hmap', hent', hold, -⟩ := hinv'.entry _ _ t i _ hact ht (entries_of_find hfind)
    cases hmap.symm.trans hmap'
    unfold HashSession.Finds
    rw [show (Search.writeRetval _ _ _).wordAt c.retvalPtr = e from hword ha]
    refine ⟨hold.stringAt hinv'.ok, ?_⟩
    rw [show (Search.writeRetval _ _ _).wordAt (e + 8) = d' from hold.data]
    exact hent'

lemma search_fails (hfind : t.find (s.keyOf c) = none)
    (hno : c.action = ENTER → (readHtab s.st.g c.htabPtr).filled = (readHtab s.st.g c.htabPtr).size) :
    ∃ ret st, hsearchR c slot s.st = some (ret, st) ∧ HashInv (s.record c ret.x0 st) ∧ ret.x0 = 0 := by
  have htable := (hinv.table _ _ hact).1
  have hhost : hostSearch s.st.tables (readHtab s.st.g c.htabPtr) (s.keyOf c) c.action slot =
      some (none, readHtab s.st.g c.htabPtr, s.st.tables) := by
    simp only [hostSearch, htable, ht, bind_some, hfind]
    split_ifs with hE hfull
    · rfl
    · exact absurd (hno hE) hfull
    · exact absurd (hno hE) hfull
    · rfl
  have hrun := hsearchR_eq hfit hptr hhost
  rw [deliverEntry_none] at hrun
  refine ⟨_, _, hrun, ?_, rfl⟩
  rw [record_of_not (by simp)]
  exact (hinv.writeBack hfit hact htable).1

lemma search_enters (hfind : t.find (s.keyOf c) = none) (hE : c.action = ENTER)
    (hfull : (readHtab s.st.g c.htabPtr).filled ≠ (readHtab s.st.g c.htabPtr).size) :
    ∃ ret st, hsearchR c slot s.st = some (ret, st) ∧ HashInv (s.record c ret.x0 st) := by
  have htable := (hinv.table _ _ hact).1
  have hent : s.entered c.htabPtr (s.keyOf c) = none := by
    by_contra h
    exact hinv.known _ _ t _ hact ht h hfind
  have hEnters : s.Enters c := ⟨hE, hent⟩
  obtain ⟨hslot, hfree, hmap⟩ := hfit.place hEnters hfull b t hact ht
  obtain ⟨htab, hhtab, htable'⟩ : ∃ htab : HsearchData,
      ⟨b, (readHtab s.st.g c.htabPtr).size, (readHtab s.st.g c.htabPtr).filled + 1⟩ = htab ∧ htab.table = b :=
    ⟨_, rfl, rfl⟩
  have hhost : hostSearch s.st.tables (readHtab s.st.g c.htabPtr) (s.keyOf c) c.action slot =
      some (some (entryPtr b slot), htab, update s.st.tables b (some (t.enter slot (s.keyOf c)))) := by
    unfold hostSearch
    rw [htable, ht, bind_some, hfind]
    rw [if_pos hE, if_neg hfull, if_pos ⟨hslot, hfree⟩, ← hhtab]
  have hrun := hsearchR_eq hfit hptr hhost
  obtain ⟨hinv₁, harea₁⟩ := hinv.writeStruct hact htable'
  obtain ⟨g₂, e, hnew, hold, hok₂, hkeeps, hretains, hm, hb, hspare⟩ := newEntry_spec c.dataPtr hinv₁.ok
    s.zero_notMem_keyOf (hfit.room hEnters)
  obtain ⟨hinv₂, harea₂⟩ := hinv₁.of_newEntry hok₂ hkeeps hretains hm hb
  have hdeliver := deliverEntry_new ⟨writeHtab s.st.g c.htabPtr htab,
    update s.st.tables b (some (t.enter slot (s.keyOf c))), s.st.hostToGuest⟩ (hfit.asks hEnters) hmap hnew
  rw [hdeliver] at hrun
  have hinv₃ := hinv₂.enter hact ht hmap hslot hfree hent hold (hinv.kept.symm.mono_left hspare)
  have hvar := hfit.retval (hfit.asks hEnters)
  have hvar₂ := (hvar.withG mapped_writeHtab (by rw [heap_writeHtab]) harea₁).withG hm
    (hretains.spare hkeeps) harea₂
  refine ⟨_, _, hrun, ?_⟩
  rw [record_of_enters (by simp) hEnters]
  refine hinv₃.writeVariable ⟨hvar₂.mapped, hvar₂.spare, hvar.structs, ?_⟩
  refine Disjoint.mono_right (hinv₂.entryArea_enter ht hmap) (disjoint_union_right.2 ⟨?_, ?_⟩)
  · exact hvar₂.entries
  · exact hvar.spare.mono_right hspare

end

lemma search (hinv : HashInv s) (hfit : s.Fits (.hsearchR c slot)) :
    ∃ ret st, hsearchR c slot s.st = some (ret, st) ∧ HashInv (s.record c ret.x0 st) ∧
      (c.action = FIND → ret.x0 ≠ 0 → c.retvalPtr ≠ 0 → s.Finds c st) := by
  by_cases hptr : c.htabPtr = 0
  · refine ⟨⟨0, some .EINVAL⟩, s.st, by rw [hsearchR, if_pos hptr], ?_, fun _ h => absurd rfl h⟩
    rw [record_of_not (by simp)]
    exact hinv
  have hfit := hfit hptr
  obtain ⟨b, hact⟩ := ne_none_iff_exists'.1 hfit.active
  obtain ⟨t, ht⟩ := ne_none_iff_exists'.1 (hinv.table _ _ hact).2
  cases hfind : t.find (s.keyOf c) with
  | some i =>
    obtain ⟨ret, st, hrun, hinv', hfinds⟩ := hinv.search_found hfit hptr hact ht hfind
    exact ⟨ret, st, hrun, hinv', fun _ _ => hfinds⟩
  | none =>
    by_cases hnew : c.action = ENTER ∧ (readHtab s.st.g c.htabPtr).filled ≠ (readHtab s.st.g c.htabPtr).size
    · obtain ⟨ret, st, hrun, hinv'⟩ := hinv.search_enters hfit hptr hact ht hfind hnew.1 hnew.2
      refine ⟨ret, st, hrun, hinv', fun hF => ?_⟩
      rw [hnew.1] at hF
      cases hF
    · obtain ⟨ret, st, hrun, hinv', hx0⟩ := hinv.search_fails hfit hptr hact ht hfind fun hE => by
        by_contra h
        exact hnew ⟨hE, h⟩
      exact ⟨ret, st, hrun, hinv', fun _ h => absurd hx0 h⟩

end HashInv

/-! ### Creation and destruction -/

namespace HashInv

variable {s : HashSession} {st : HashState} {a : Word} {table : Option Word}

/-- **A table is created or destroyed** at `a`: memory and the other tables are the same but for the structure. -/
structure Renews (s : HashSession) (a : Word) (table : Option Word) (st : HashState) : Prop where
  heap : st.g.heap = s.st.g.heap
  mapped_eq : st.g.mem.mapped = s.st.g.mem.mapped
  map : st.hostToGuest = s.st.hostToGuest
  tables : ∀ h b, h ≠ a → s.active h = some b → st.tables b = s.st.tables b
  bytes : ∀ x, x ∉ block a 16 → st.g.mem.bytes x = s.st.g.mem.bytes x
  mapped : s.st.g.mem.Mapped a 16
  spare : Disjoint (block a 16) s.st.g.heap.spare
  structs : ∀ h, h ≠ a → s.active h ≠ none → Disjoint (block a 16) (block h 16)
  entries : Disjoint (block a 16) s.entryArea
  fresh : ∀ b, table = some b → (readHtab st.g a).table = b ∧ (∃ n, st.tables b = some { size := n }) ∧
    ∀ h, h ≠ a → s.active h ≠ some b

section

variable (hrn : Renews s a table st) {h : Word}

lemma active_renew (hh : h ≠ a) : (s.renew a table st).active h = s.active h := update_of_ne hh ..

lemma active_renew_self : (s.renew a table st).active a = table := update_self ..

lemma structs_renew {x : Word} (hx : x ∈ (s.renew a table st).structs) : x ∈ block a 16 ∨ x ∈ s.structs := by
  obtain ⟨h, hact, hx⟩ := hx
  by_cases hh : h = a
  · subst hh
    exact .inl hx
  · rw [active_renew hh] at hact
    exact .inr ⟨h, hact, hx⟩

include hrn

lemma Renews.readHtab_eq (hinv : HashInv s) (hh : h ≠ a) (hact : s.active h ≠ none) :
    readHtab st.g h = readHtab s.st.g h :=
  readHtab_congr (hinv.mapped h hact) hrn.mapped_eq fun x hx => hrn.bytes x fun h' =>
    disjoint_left.1 (hrn.structs h hh hact) h' hx

lemma Renews.apart (hinv : HashInv s) {h h' : Word} (hne : h ≠ h') (hact : (s.renew a table st).active h ≠ none)
    (hact' : (s.renew a table st).active h' ≠ none) : Disjoint (block h 16) (block h' 16) := by
  by_cases hh : h = a
  · subst hh
    rw [active_renew hne.symm] at hact'
    exact hrn.structs h' hne.symm hact'
  · rw [active_renew hh] at hact
    by_cases hh' : h' = a
    · subst hh'
      exact (hrn.structs h hh hact).symm
    · rw [active_renew hh'] at hact'
      exact hinv.apart h h' hne hact hact'

lemma Renews.unique (hinv : HashInv s) {h h' b : Word} (hact : (s.renew a table st).active h = some b)
    (hact' : (s.renew a table st).active h' = some b) : h = h' := by
  by_cases hh : h = a
  · subst hh
    by_contra hne
    have hfresh := hrn.fresh b (active_renew_self.symm.trans hact)
    rw [active_renew (Ne.symm hne)] at hact'
    exact hfresh.2.2 h' (Ne.symm hne) hact'
  · rw [active_renew hh] at hact
    by_cases hh' : h' = a
    · subst hh'
      exact absurd hact ((hrn.fresh b (active_renew_self.symm.trans hact')).2.2 h hh)
    · rw [active_renew hh'] at hact'
      exact hinv.unique h h' b hact hact'

lemma Renews.entry (hinv : HashInv s) {h b : Word} {t : HostTable} {i : ℕ} {key : List Byte} (hh : h ≠ a)
    (hact : s.active h = some b) (ht : st.tables b = some t) (hi : t.entries i = some key) :
    ∃ e d, st.hostToGuest (entryPtr b i) = some e ∧ s.entered h key = some d ∧ HoldsEntry st.g e key d ∧
      Disjoint (footprint st.g e key) (s.renew a table st).structs := by
  have ht' : s.st.tables b = some t := (hrn.tables h b hh hact).symm.trans ht
  obtain ⟨e, d, hmap, hent, hold, hdis⟩ := hinv.entry h b t i key hact ht' hi
  have harea : footprint s.st.g e key ⊆ s.entryArea := footprint_subset ⟨b, t, i, hact, ht', hi, hmap⟩
  have hsame : ∀ x ∈ footprint s.st.g e key, st.g.mem.bytes x = s.st.g.mem.bytes x := fun x hx =>
    hrn.bytes x fun h' => disjoint_left.1 hrn.entries h' (harea hx)
  have hlive : footprint s.st.g e key ⊆ st.g.heap.live := by
    rw [hrn.heap]
    exact harea.trans hinv.entryArea_live
  refine ⟨e, d, hrn.map ▸ hmap, hent, hold.congr hsame hlive, ?_⟩
  unfold footprint
  rw [HoldsEntry.wordAt_eq hsame, disjoint_left]
  intro x hx hs
  rcases structs_renew hs with hs | hs
  · exact disjoint_left.1 hrn.entries hs (harea hx)
  · exact disjoint_left.1 hdis hx hs

lemma renew (hinv : HashInv s) : HashInv (s.renew a table st) where
  ok := by
    refine hinv.ok.keeps hrn.mapped_eq ?_
    show Keeps s.st.g.heap st.g.heap
    rw [hrn.heap]
    exact hinv.ok.inv.keeps
  mapped h hact := by
    by_cases hh : h = a
    · subst hh
      exact hrn.mapped.congr hrn.mapped_eq
    · rw [active_renew hh] at hact
      exact (hinv.mapped h hact).congr hrn.mapped_eq
  kept := by
    show Disjoint (s.renew a table st).structs st.g.heap.spare
    rw [hrn.heap, disjoint_left]
    intro x hx
    rcases structs_renew hx with hx | hx
    · exact disjoint_left.1 hrn.spare hx
    · exact disjoint_left.1 hinv.kept hx
  apart h h' hne hact hact' := hrn.apart hinv hne hact hact'
  table h b hact := by
    show (readHtab st.g h).table = b ∧ st.tables b ≠ none
    by_cases hh : h = a
    · subst hh
      obtain ⟨hread, ⟨n, hn⟩, -⟩ := hrn.fresh b (active_renew_self.symm.trans hact)
      exact ⟨hread, by simp [hn]⟩
    · rw [active_renew hh] at hact
      rw [hrn.readHtab_eq hinv hh (by simp [hact]), hrn.tables h b hh hact]
      exact hinv.table h b hact
  unique h h' b hact hact' := hrn.unique hinv hact hact'
  entry h b t i key hact ht hi := by
    by_cases hh : h = a
    · subst hh
      -- a new table is empty
      obtain ⟨-, ⟨n, hn⟩, -⟩ := hrn.fresh b (active_renew_self.symm.trans hact)
      cases hn.symm.trans ht
      cases hi
    · rw [active_renew hh] at hact
      obtain ⟨e, d, hmap, hent, hold, hdis⟩ := hrn.entry hinv hh hact ht hi
      refine ⟨e, d, hmap, ?_, hold, hdis⟩
      show update s.entered a (fun _ => none) h key = some d
      rwa [update_of_ne hh]
  known h b t key hact ht hent := by
    replace hent : update s.entered a (fun _ => none) h key ≠ none := hent
    by_cases hh : h = a
    · subst hh
      rw [update_self] at hent
      exact absurd rfl hent
    · rw [active_renew hh] at hact
      rw [update_of_ne hh] at hent
      exact hinv.known h b t key hact ((hrn.tables h b hh hact).symm.trans ht) hent

end

lemma create (hinv : HashInv s) {nel : Word} {host : Word → Option (Word × BitVec 32)} (ha : a ≠ 0)
    (hfit : s.CreateFits nel a host) :
    ∃ x0 st, hcreateR nel a host s.st = some (x0, st) ∧ HashInv (s.renew a ((host nel).map Prod.fst) st) := by
  unfold hcreateR
  rw [if_neg ha]
  cases hhost : host nel with
  | none =>
    refine ⟨_, _, rfl, renew ⟨heap_writeHtab, mapped_writeHtab, rfl, fun _ _ _ _ => rfl, ?_, hfit.mapped, hfit.spare,
      hfit.structs, hfit.entries, ?_⟩ hinv⟩
    · exact fun x hx => bytes_writeHtab_of_notMem hx
    · nofun
  | some res =>
    obtain ⟨b, size⟩ := res
    have hfree := hfit.host b size hhost
    have hinactive : ∀ h, s.active h ≠ some b := fun h hact => (hinv.table h b hact).2 hfree
    dsimp only
    rw [if_neg (by simp [hfree])]
    refine ⟨_, _, rfl, renew ⟨heap_writeHtab, mapped_writeHtab, rfl, ?_, ?_, hfit.mapped, hfit.spare, hfit.structs,
      hfit.entries, ?_⟩ hinv⟩
    · intro h b' _ hact
      refine update_of_ne ?_ ..
      rintro rfl
      exact hinactive h hact
    · exact fun x hx => bytes_writeHtab_of_notMem hx
    · intro b' hb'
      cases hb'
      refine ⟨?_, ⟨_, update_self ..⟩, fun h _ => hinactive h⟩
      exact congrArg HsearchData.table (readHtab_writeHtab hfit.mapped)

lemma destroy (hinv : HashInv s) (ha : a ≠ 0) (hact : s.active a ≠ none) :
    ∃ st, hdestroyR a s.st = some st ∧ HashInv (s.renew a none st) := by
  obtain ⟨b, hb⟩ := ne_none_iff_exists'.1 hact
  obtain ⟨hread, htable⟩ := hinv.table a b hb
  have hsub := block_subset_structs hact
  have hrenew : ∀ st : HashState, st.g = s.st.g → st.hostToGuest = s.st.hostToGuest →
      (∀ h b, h ≠ a → s.active h = some b → st.tables b = s.st.tables b) → HashInv (s.renew a none st) := by
    intro st hg hmap htables
    refine renew ⟨by rw [hg], by rw [hg], hmap, htables, fun x _ => by rw [hg], hinv.mapped a hact,
      hinv.kept.mono_left hsub, fun h hh hact' => hinv.apart a h hh.symm hact hact',
      hinv.entryArea_structs.symm.mono_left hsub, ?_⟩ hinv
    intro b hb
    cases hb
  unfold hdestroyR
  rw [if_neg ha]
  dsimp only
  rw [hread]
  split_ifs with h0 hsome
  · exact ⟨_, rfl, hrenew _ rfl rfl fun _ _ _ _ => rfl⟩
  · refine ⟨_, rfl, hrenew _ rfl rfl fun h b' hh hact' => update_of_ne ?_ ..⟩
    rintro rfl
    exact hh (hinv.unique h a b' hact' hb)
  · exact absurd (isSome_iff_ne_none.2 htable) hsome

end HashInv

/-! ### Runs -/

section

variable {s s' : HashSession} {e : HashEvent}

/-- **A step that fits is taken**, and the invariant holds after it. -/
theorem HashInv.step (hinv : HashInv s) (hfit : s.Fits e) : ∃ s', s.step e = some s' ∧ HashInv s' := by
  cases e with
  | hcreateR nel htabPtr host =>
    by_cases h0 : htabPtr = 0
    · refine ⟨s, ?_, hinv⟩
      simp [step, hcreateR, h0]
    · obtain ⟨x0, st, hrun, hinv'⟩ := hinv.create h0 (hfit h0)
      refine ⟨_, ?_, hinv'⟩
      simp only [step, hrun, map_some, if_neg h0]
  | hsearchR c slot =>
    obtain ⟨ret, st, hrun, hinv', -⟩ := hinv.search hfit
    refine ⟨_, ?_, hinv'⟩
    simp [step, hrun]
  | hdestroyR htabPtr =>
    by_cases h0 : htabPtr = 0
    · refine ⟨s, ?_, hinv⟩
      simp [step, hdestroyR, h0]
    · obtain ⟨st, hrun, hinv'⟩ := hinv.destroy h0 (hfit h0)
      refine ⟨_, ?_, hinv'⟩
      simp only [step, hrun, map_some, if_neg h0]
  | guest g => exact ⟨_, rfl, hinv.guest hfit⟩

lemma hashInv_init (hok : s.st.g.Ok) (hact : ∀ h, s.active h = none) : HashInv s where
  ok := hok
  mapped h hne := absurd (hact h) hne
  kept := by
    rw [disjoint_left]
    rintro x ⟨h, hne, -⟩
    exact absurd (hact h) hne
  apart h _ _ hne := absurd (hact h) hne
  table h b hb := absurd hb (by simp [hact h])
  unique h _ b hb := absurd hb (by simp [hact h])
  entry h b _ _ _ hb := absurd hb (by simp [hact h])
  known h b _ _ hb := absurd hb (by simp [hact h])

/-- **The invariant holds in every run** whose steps fit. -/
theorem reach_hashInv (hr : hashSystem.Reach Fits s) : HashInv s := by
  refine System.Reach.invariant (S := hashSystem) (I := HashInv) (fun s h => hashInv_init h.1 h.2) ?_ hr
  intro s e s' hinv hfit hstep
  obtain ⟨s₁, hrun, hinv'⟩ := hinv.step hfit
  cases hrun.symm.trans hstep
  exact hinv'

/-- **`FIND` gives what was entered**: in every run whose steps fit, a search that fits returns, and when it succeeds
the guest has an entry with the key and the data given with it. -/
theorem reach_finds (hr : hashSystem.Reach Fits s) (c : SearchCall) (slot : ℕ) (hfit : s.Fits (.hsearchR c slot)) :
    ∃ ret st, hsearchR c slot s.st = some (ret, st) ∧
      (c.action = FIND → ret.x0 ≠ 0 → c.retvalPtr ≠ 0 → s.Finds c st) := by
  obtain ⟨ret, st, hrun, -, hfinds⟩ := (reach_hashInv hr).search hfit
  exact ⟨ret, st, hrun, hfinds⟩

/-- **`FIND` succeeds exactly for the keys that were entered.** -/
theorem reach_find_iff (hr : hashSystem.Reach Fits s) {c : SearchCall} {slot : ℕ}
    (hfit : s.SearchFits c slot) (hptr : c.htabPtr ≠ 0) (hE : c.action ≠ ENTER) : ∃ ret st,
    hsearchR c slot s.st = some (ret, st) ∧ (ret.x0 = 1 ↔ s.entered c.htabPtr (s.keyOf c) ≠ none) := by
  have hinv := reach_hashInv hr
  obtain ⟨b, hact⟩ := ne_none_iff_exists'.1 hfit.active
  obtain ⟨htable, hb⟩ := hinv.table _ b hact
  obtain ⟨t, ht⟩ := ne_none_iff_exists'.1 hb
  cases hfind : t.find (s.keyOf c) with
  | some i =>
    obtain ⟨_, d, -, hent, -⟩ := hinv.entry _ b t i _ hact ht (entries_of_find hfind)
    have hrun := HashInv.hsearchR_eq hfit hptr (by rw [hostSearch, htable, ht, bind_some, hfind])
    exact ⟨_, _, hrun, iff_of_true rfl (by simp [hent])⟩
  | none =>
    obtain ⟨ret, st, hrun, -, hx0⟩ := hinv.search_fails hfit hptr hact ht hfind fun h => absurd h hE
    exact ⟨ret, st, hrun, iff_of_false (by simp [hx0]) fun h => hinv.known _ b t _ hact ht h hfind⟩

end

/-! ### A guest with two tables -/

/-- A guest with the strings `a` and `b3`, a heap of 64 KiB and no tables. -/
def hashGuest : HashSession where
  st := ⟨⟨⟨fun x => if x = 0x400 then 0x61 else if x = 0x410 then 0x62 else if x = 0x411 then 0x33 else 0,
    fun _ => true⟩, .init 0x10000 0x10000⟩, fun _ => none, fun _ => none⟩
  active := fun _ => none
  entered := fun _ _ => none

/-- For 100 elements the host takes a table of 101 places, here at a given address. -/
def tableAt (table : Word) : Word → Option (Word × BitVec 32) := fun _ => some (table, 101)

def searchA (action : BitVec 32) (htabPtr : Word) : SearchCall := ⟨0x400, 1, action, 0x300, htabPtr⟩

def searchB (action : BitVec 32) (htabPtr : Word) : SearchCall := ⟨0x410, 2, action, 0x300, htabPtr⟩

/-- The key `a` in a table, and then the key `b3` in another one at the same address. Both hash values, 113 and 1426,
are 12 modulo 101, for which glibc takes place 13. -/
def reuses : List HashEvent :=
  [.hcreateR 100 0x200 (tableAt 0x7000), .hsearchR (searchA ENTER 0x200) 13, .hdestroyR 0x200,
    .hcreateR 100 0x200 (tableAt 0x7000), .hsearchR (searchB ENTER 0x200) 13]

/-- What a search returns and leaves behind `*retval`, and the key it was given. -/
def seen (c : SearchCall) (s : HashSession) : Option (Word × List Byte × List Byte) :=
  (hsearchR c 0 s.st).map fun (ret, st) =>
    (ret.x0, st.g.mem.stringAt (st.g.wordAt (st.g.wordAt c.retvalPtr)), s.keyOf c)

/-- **A stale entry**: the host gives the new table the memory of the old one, and `FIND` of `b3` gives the entry of
`a`. -/
theorem stale_entry : ∃ s, hashSystem.Reachable s ∧ ∃ ret st, hsearchR (searchB FIND 0x200) 0 s.st = some (ret, st) ∧
    ret.x0 = 1 ∧ s.keyOf (searchB FIND 0x200) = [0x62, 0x33] ∧
    st.g.mem.stringAt (st.g.wordAt (st.g.wordAt 0x300)) = [0x61] ∧ ¬s.Finds (searchB FIND 0x200) st := by
  have hrun : (reuses.foldlM step hashGuest).bind (seen (searchB FIND 0x200)) =
      some (1, [0x61], [0x62, 0x33]) := by
    decide +kernel
  obtain ⟨s, hs, hseen⟩ := bind_eq_some_iff.1 hrun
  obtain ⟨⟨ret, st⟩, hsearch, hans⟩ := map_eq_some_iff.1 hseen
  simp only [Prod.mk.injEq] at hans
  obtain ⟨hx0, hstring, hkey⟩ := hans
  have hinit : hashSystem.Reachable hashGuest :=
    .init ⟨⟨inv_init (by decide) (by decide), fun _ _ => rfl⟩, fun _ => rfl⟩
  refine ⟨s, hinit.foldlM hs, ret, st, hsearch, hx0, hkey, hstring, fun hfinds => ?_⟩
  have := hstring.symm.trans (hfinds.1.trans hkey)
  exact absurd this (by decide)

lemma low_disjoint {h : HeapAllocator} (hbase : h.base = 0x10000) {n : ℕ} (ha : a.toNat + n ≤ 0x10000) :
    Disjoint (block a n) h.range := by
  refine disjoint_left.2 fun x hx hr => ?_
  have h1 : x.toNat ∈ span a.toNat n := (mem_block_iff (by omega)).1 hx
  have h2 : h.base.toNat ≤ x.toNat := hr.1
  have h3 : x.toNat < a.toNat + n := h1.2
  rw [hbase] at h2
  have h4 : (0x10000 : Word).toNat = 0x10000 := rfl
  omega

/-- A guest with its structures at `0x200` and `0x220`, and its heap behind them. -/
structure IsLow (s : HashSession) : Prop where
  inv : HashInv s
  base : s.st.g.heap.base = 0x10000
  mapped : s.st.g.mem.mapped = fun _ => true
  active : ∀ h, s.active h ≠ none → h = 0x200 ∨ h = 0x220

namespace IsLow

lemma entries (hs : IsLow s) {n : ℕ} (ha : a.toNat + n ≤ 0x10000) : Disjoint (block a n) s.entryArea :=
  (low_disjoint hs.base ha).mono_right (hs.inv.entryArea_live.trans hs.inv.ok.inv.live_subset)

lemma isVariable (hs : IsLow s) : s.IsVariable 0x300 where
  mapped := ⟨by decide, fun x _ => by rw [hs.mapped]⟩
  spare := (low_disjoint hs.base (by decide)).mono_right sdiff_subset
  structs := by
    refine disjoint_left.2 fun x hx hx' => ?_
    obtain ⟨h, hact, hx'⟩ := hx'
    rw [mem_block] at hx hx'
    rcases hs.active h hact with rfl | rfl <;> bv_omega
  entries := hs.entries (by decide)

lemma createFits (hs : IsLow s) (ha : a = 0x200 ∨ a = 0x220) (hfree : s.active 0x220 = none) {b : Word}
    (hb : s.st.tables b = none) : s.Fits (.hcreateR 100 a (tableAt b)) := by
  have hlow : a.toNat + 16 ≤ 0x10000 := by rcases ha with rfl | rfl <;> decide
  refine fun _ => ⟨⟨by decide, fun x _ => by rw [hs.mapped]⟩, (low_disjoint hs.base hlow).mono_right sdiff_subset, ?_,
    hs.entries hlow, ?_⟩
  · intro h hne hact
    refine disjoint_left.2 fun x hx hx' => ?_
    rw [mem_block] at hx hx'
    rcases hs.active h hact with rfl | rfl
    · rcases ha with rfl | rfl
      · exact hne rfl
      · bv_omega
    · exact hact hfree
  · rintro _ _ ⟨⟩
    exact hb

/-- A search that enters no key fits. -/
lemma searchFits (hs : IsLow s) {c : SearchCall} (hFIND : c.action = FIND) (hret : c.retvalPtr = 0x300)
    (hact : s.active c.htabPtr ≠ none) (hkey : (s.keyOf c).length ≤ 4096) (slot : ℕ) : s.SearchFits c slot := by
  have hnot : ¬s.Enters c := fun h => absurd (hFIND.symm.trans h.1) (by decide)
  exact ⟨hact, hkey, fun _ => hret ▸ hs.isVariable, hnot.elim, hnot.elim, hnot.elim⟩

end IsLow

/-- The guest with two tables. -/
def tablesGuest : HashSession :=
  (hashGuest.renew 0x200 (some 0x7000) ⟨writeHtab hashGuest.st.g 0x200 ⟨0x7000, 101, 0⟩,
    update (fun _ => none) 0x7000 (some ⟨101, fun _ => none⟩), fun _ => none⟩).renew 0x220 (some 0x8000)
    ⟨writeHtab (writeHtab hashGuest.st.g 0x200 ⟨0x7000, 101, 0⟩) 0x220 ⟨0x8000, 101, 0⟩,
      update (update (fun _ => none) 0x7000 (some ⟨101, fun _ => none⟩)) 0x8000 (some ⟨101, fun _ => none⟩),
      fun _ => none⟩

lemma active_tablesGuest {h : Word} (hact : tablesGuest.active h ≠ none) : h = 0x200 ∨ h = 0x220 := by
  by_contra hne
  rw [not_or] at hne
  exact hact ((update_of_ne hne.2 ..).trans (update_of_ne hne.1 ..))

lemma isLow_tablesGuest : hashSystem.Reach Fits tablesGuest ∧ IsLow tablesGuest := by
  have hlow₀ : IsLow hashGuest :=
    ⟨hashInv_init ⟨inv_init (by decide) (by decide), fun _ _ => rfl⟩ fun _ => rfl, rfl, rfl,
      fun h hact => absurd rfl hact⟩
  have hfits₁ := hlow₀.createFits (.inl rfl) rfl (b := 0x7000) rfl
  obtain ⟨s₁, hstep₁, hinv₁⟩ := hlow₀.inv.step hfits₁
  have hreach₁ := System.Reach.step (S := hashSystem) (.init ⟨hlow₀.inv.ok, fun _ => rfl⟩) hfits₁ hstep₁
  cases hstep₁
  have hlow₁ : IsLow _ := ⟨hinv₁, rfl, rfl, fun h hact => .inl (by_contra fun hh => hact (update_of_ne hh ..))⟩
  have hfits₂ := hlow₁.createFits (.inr rfl) rfl (b := 0x8000) rfl
  obtain ⟨s₂, hstep₂, hinv₂⟩ := hinv₁.step hfits₂
  have hreach₂ := System.Reach.step (S := hashSystem) hreach₁ hfits₂ hstep₂
  cases hstep₂
  exact ⟨hreach₂, hinv₂, rfl, rfl, fun h => active_tablesGuest⟩

lemma fits_enter : tablesGuest.Fits (.hsearchR (searchA ENTER 0x200) 13) := by
  intro _
  have hkey : tablesGuest.keyOf (searchA ENTER 0x200) = [0x61] := by decide +kernel
  refine ⟨by decide, by rw [hkey]; decide, fun _ => isLow_tablesGuest.2.isVariable, fun _ => by decide, fun _ => ?_,
    fun _ _ b t hb ht => ?_⟩
  · rw [hkey]
    unfold left
    decide
  · have hb' : some 0x7000 = some b := hb
    cases hb'
    have ht' : some ⟨101, fun _ => none⟩ = some t := ht
    cases ht'
    exact ⟨by decide, rfl, rfl⟩

lemma hsearchR_enter : (hsearchR (searchA ENTER 0x200) 13 tablesGuest.st).map (fun (ret, st) =>
      (ret.x0, st.g.heap.base, st.g.mem.stringAt 0x400, st.g.mem.stringAt 0x410,
        (hsearchR (searchA FIND 0x200) 0 st).map fun (ret, _) => ret.x0)) =
    some (1, 0x10000, [0x61], [0x62, 0x33], some 1) := by decide +kernel

/-- The key `a` is entered in the first of the two tables. -/
lemma reach_entered : ∃ s, hashSystem.Reach Fits s ∧ IsLow s ∧ s.active = tablesGuest.active ∧
    s.st.g.mem.stringAt 0x400 = [0x61] ∧ s.st.g.mem.stringAt 0x410 = [0x62, 0x33] ∧
    (hsearchR (searchA FIND 0x200) 0 s.st).map (fun (ret, _) => ret.x0) = some 1 ∧ s.entered =
       update tablesGuest.entered 0x200 (update (tablesGuest.entered 0x200) [0x61] (some 1)) := by
  obtain ⟨hreach, hlow⟩ := isLow_tablesGuest
  obtain ⟨ret, st, hrun, hinv, -⟩ := hlow.inv.search fits_enter
  have hans := hsearchR_enter
  have hmapped : (hsearchR (searchA ENTER 0x200) 13 tablesGuest.st).map (fun p => p.2.g.mem.mapped) =
    some fun _ => true := rfl
  rw [hrun] at hans hmapped
  simp only [map_some, Option.some.injEq, Prod.mk.injEq] at hans hmapped
  obtain ⟨hx0, hbase, hkeyA, hkeyB, hfound⟩ := hans
  have hE : ret.x0 ≠ 0 ∧ tablesGuest.Enters (searchA ENTER 0x200) := by
    rw [hx0]
    exact ⟨by decide, rfl, rfl⟩
  have hstep : tablesGuest.step (.hsearchR (searchA ENTER 0x200) 13) =
      some (tablesGuest.record (searchA ENTER 0x200) ret.x0 st) := by
    simp only [step, hrun, map_some]
  exact ⟨_, hreach.step fits_enter hstep, ⟨hinv, hbase, hmapped, fun h => active_tablesGuest⟩, rfl, hkeyA, hkeyB,
    hfound, if_pos hE⟩

/-- The key `a` is found in the table in which it was entered. -/
theorem reach_finds_a : ∃ s, hashSystem.Reach Fits s ∧ ∃ ret st,
    hsearchR (searchA FIND 0x200) 0 s.st = some (ret, st) ∧ ret.x0 = 1 ∧ s.Finds (searchA FIND 0x200) st := by
  obtain ⟨s, hreach, hlow, hactive, hkey, -, hfound, -⟩ := reach_entered
  have hact : s.active 0x200 ≠ none := by
    rw [hactive]
    decide
  have hshort : (s.st.g.mem.stringAt 0x400).length ≤ 4096 := by
    rw [hkey]
    decide
  obtain ⟨ret, st, hrun, hfinds⟩ :=
    reach_finds hreach (searchA FIND 0x200) 0 fun _ => hlow.searchFits (c := searchA FIND 0x200) rfl rfl hact hshort 0
  rw [hrun] at hfound
  have hx0 : ret.x0 = 1 := Option.some.inj hfound
  exact ⟨s, hreach, ret, st, hrun, hx0, hfinds rfl (by rw [hx0]; decide) (by decide)⟩

/-- A key that only the other table has is not found, nor is another key. -/
theorem find_iff_two_tables : ∃ s, hashSystem.Reach Fits s ∧
    (∃ ret st, hsearchR (searchA FIND 0x200) 0 s.st = some (ret, st) ∧ ret.x0 = 1) ∧
    (∃ ret st, hsearchR (searchB FIND 0x200) 0 s.st = some (ret, st) ∧ ret.x0 ≠ 1) ∧
    ∃ ret st, hsearchR (searchA FIND 0x220) 0 s.st = some (ret, st) ∧ ret.x0 ≠ 1 := by
  obtain ⟨s, hreach, hlow, hactive, hkeyA, hkeyB, -, hentered⟩ := reach_entered
  have hfits : ∀ c : SearchCall, c.action = FIND → c.retvalPtr = 0x300 → tablesGuest.active c.htabPtr ≠ none →
      (s.keyOf c).length ≤ 4096 → s.SearchFits c 0 := fun c hF hret hact hkey =>
    hlow.searchFits hF hret (hactive ▸ hact) hkey 0
  have hA : (s.st.g.mem.stringAt 0x400).length ≤ 4096 := by rw [hkeyA]; decide
  have hB : (s.st.g.mem.stringAt 0x410).length ≤ 4096 := by rw [hkeyB]; decide
  obtain ⟨ret₁, st₁, hrun₁, hiff₁⟩ :=
    reach_find_iff hreach (hfits (searchA FIND 0x200) rfl rfl (by decide) hA) (by decide) (by decide)
  obtain ⟨ret₂, st₂, hrun₂, hiff₂⟩ :=
    reach_find_iff hreach (hfits (searchB FIND 0x200) rfl rfl (by decide) hB) (by decide) (by decide)
  obtain ⟨ret₃, st₃, hrun₃, hiff₃⟩ :=
    reach_find_iff hreach (hfits (searchA FIND 0x220) rfl rfl (by decide) hA) (by decide) (by decide)
  have hA' : s.keyOf (searchA FIND 0x220) = [0x61] := hkeyA
  have hA'' : s.keyOf (searchA FIND 0x200) = [0x61] := hkeyA
  have hB' : s.keyOf (searchB FIND 0x200) = [0x62, 0x33] := hkeyB
  rw [hentered, hA''] at hiff₁
  rw [hentered, hB'] at hiff₂
  rw [hentered, hA'] at hiff₃
  exact ⟨s, hreach, ⟨ret₁, st₁, hrun₁, hiff₁.2 (by decide)⟩, ⟨ret₂, st₂, hrun₂, fun h => hiff₂.1 h rfl⟩,
    ret₃, st₃, hrun₃, fun h => hiff₃.1 h rfl⟩

end CrossShim.Search
