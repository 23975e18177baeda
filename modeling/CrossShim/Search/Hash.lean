import CrossShim.Memory.Strings
import CrossShim.Search.Tree

/-!
# Hash tables of the guest

`hcreate_r`, `hsearch_r` and `hdestroy_r` of `hle_search.cpp`.  The tables are those of the host: the guest's
`struct hsearch_data` holds the address of the host's table.  The entries that the guest sees are copies in its own heap,
which a map from host entries to guest entries finds again.

Nothing is ever taken out of that map.
-/

namespace CrossShim.Search

open Lib Memory HeapAllocator Function List GuestMemory

/-! ### The host's tables -/

/-- `struct hsearch_data`. -/
structure HsearchData where
  table : Word := 0
  size : BitVec 32 := 0
  filled : BitVec 32 := 0
  deriving DecidableEq

def HsearchData.bytes (d : HsearchData) : List Byte :=
  leBytes 8 d.table.toNat ++ (leBytes 4 d.size.toNat ++ leBytes 4 d.filled.toNat)

def HsearchData.ofBytes (bs : List Byte) : HsearchData where
  table := BitVec.ofNat 64 (ofLe (bs.take 8))
  size := BitVec.ofNat 32 (ofLe ((bs.drop 8).take 4))
  filled := BitVec.ofNat 32 (ofLe ((bs.drop 12).take 4))

/-- A table that the host has allocated: the keys in its places. -/
structure HostTable where
  size : ℕ
  entries : ℕ → Option (List Byte) := fun _ => none

def HostTable.find (t : HostTable) (key : List Byte) : Option ℕ :=
  (List.range (t.size + 1)).find? fun i => t.entries i = some key

def HostTable.enter (t : HostTable) (slot : ℕ) (key : List Byte) : HostTable :=
  { t with entries := update t.entries slot (some key) }

/-- The address of the `ENTRY` in a place of the table: a place has 24 bytes, the `ENTRY` behind the hash value. -/
def entryPtr (table : Word) (i : ℕ) : Word := table + BitVec.ofNat 64 (24 * i + 8)

/-- `ACTION`, of which the source names two values. -/
def FIND : BitVec 32 := 0
def ENTER : BitVec 32 := 1

/-- `::hsearch_r`: the `ENTRY` for the key, if the call succeeds, the table and `*htab`. A new key is entered in the
place `slot`, which the host chooses. `none` when there is no such table, or no such place. -/
def hostSearch (tables : Word → Option HostTable) (htab : HsearchData) (key : List Byte) (action : BitVec 32)
    (slot : ℕ) : Option (Option Word × HsearchData × (Word → Option HostTable)) :=
  (tables htab.table).bind fun t =>
    match t.find key with
    | some i => some (some (entryPtr htab.table i), htab, tables)
    | none =>
      if action = ENTER then
        if htab.filled = htab.size then some (none, htab, tables)
        else if slot ≤ t.size ∧ t.entries slot = none then
          some (some (entryPtr htab.table slot), { htab with filled := htab.filled + 1 },
            update tables htab.table (some (t.enter slot key)))
        else none
      else some (none, htab, tables)

/-! ### The handlers -/

/-- The guest, the tables of the host, and `host_to_guest_entry_r`. -/
structure HashState where
  g : GuestHeap
  tables : Word → Option HostTable
  hostToGuest : Word → Option Word

inductive HashErrno where
  | EINVAL
  | ESRCH
  deriving DecidableEq

structure HashRet where
  x0 : Word
  errno : Option HashErrno := none
  deriving DecidableEq

def readHtab (g : GuestHeap) (htabPtr : Word) : HsearchData :=
  .ofBytes (g.mem.read htabPtr (List.replicate 16 0)).1

def writeHtab (g : GuestHeap) (htabPtr : Word) (htab : HsearchData) : GuestHeap :=
  { g with mem := (g.mem.write htabPtr htab.bytes).1 }

/-- `hcreate_r`; `host` is the table that the host allocates, and its size. `none` when that is in use. -/
def hcreateR (nel htabPtr : Word) (host : Word → Option (Word × BitVec 32)) (s : HashState) :
    Option (Word × HashState) :=
  if htabPtr = 0 then some (0, s)
  else
    match host nel with
    | none => some (0, { s with g := writeHtab s.g htabPtr {} })
    | some (table, size) =>
      if (s.tables table).isSome then none
      else some (1, { s with
        g := writeHtab s.g htabPtr { table, size }
        tables := update s.tables table (some { size := size.toNat }) })

/-- The registers of `hsearch_r`. -/
structure SearchCall where
  keyPtr : Word
  dataPtr : Word
  action : BitVec 32
  retvalPtr : Word
  htabPtr : Word

/-- A new entry for the guest, with a copy of the key. -/
def newEntry (key : List Byte) (dataPtr : Word) (g : GuestHeap) : GuestHeap × Word :=
  let (heap, entryBuf) := g.heap.allocate 16 8
  let (heap, keyAddr) := heap.allocate (BitVec.ofNat 64 (key.length + 1)) 1
  let g : GuestHeap := ⟨(g.mem.write keyAddr (key ++ [0])).1, heap⟩
  let g := writeWord g entryBuf keyAddr
  (writeWord g (entryBuf + 8) dataPtr, entryBuf)

def guestEntry (result : Word) (key : List Byte) (dataPtr : Word) (s : HashState) : HashState × Word :=
  match s.hostToGuest result with
  | some entryBuf => (s, entryBuf)
  | none =>
    let (g, entryBuf) := newEntry key dataPtr s.g
    ({ s with g, hostToGuest := update s.hostToGuest result (some entryBuf) }, entryBuf)

/-- `*retval` is written, if there is such a variable. -/
def deliverEntry (c : SearchCall) (result : Option Word) (key : List Byte) (s : HashState) : HashState :=
  if c.retvalPtr = 0 then s
  else
    match result with
    | some result =>
      let (s, entryBuf) := guestEntry result key c.dataPtr s
      { s with g := writeWord s.g c.retvalPtr entryBuf }
    | none => { s with g := writeWord s.g c.retvalPtr 0 }

def hsearchR (c : SearchCall) (slot : ℕ) (s : HashState) : Option (HashRet × HashState) :=
  if c.htabPtr = 0 then some (⟨0, some .EINVAL⟩, s)
  else
    let key := s.g.mem.readString 4096 c.keyPtr
    (hostSearch s.tables (readHtab s.g c.htabPtr) key c.action slot).map fun (result, htab, tables) =>
      let s := deliverEntry c result key { s with g := writeHtab s.g c.htabPtr htab, tables }
      (⟨if result.isSome then 1 else 0, if result = none ∧ c.action = FIND then some .ESRCH else none⟩, s)

/-- `hdestroy_r`. The host frees the table, and the guest's structure stays as it is. -/
def hdestroyR (htabPtr : Word) (s : HashState) : Option HashState :=
  if htabPtr = 0 then some s
  else
    let htab := readHtab s.g htabPtr
    if htab.table = 0 then some s
    else if (s.tables htab.table).isSome then some { s with tables := update s.tables htab.table none }
    else none

/-! ### Structures in memory -/

section

variable {g g' : GuestHeap} {a v x : Word} {d : HsearchData}

@[simp] lemma HsearchData.length_bytes : d.bytes.length = 16 := by simp [HsearchData.bytes]

lemma ofLe_leBytes_toNat {k : ℕ} (v : BitVec (8 * k)) : ofLe (leBytes k v.toNat) = v.toNat := by
  rw [ofLe_leBytes]
  refine Nat.mod_eq_of_lt ?_
  rw [show 256 = 2 ^ 8 from rfl, ← Nat.pow_mul]
  exact v.isLt

lemma HsearchData.ofBytes_bytes : HsearchData.ofBytes d.bytes = d := by
  have h8 : (leBytes 8 d.table.toNat).length = 8 := length_leBytes ..
  have h4 : (leBytes 4 d.size.toNat).length = 4 := length_leBytes ..
  have h4' : (leBytes 4 d.filled.toNat).length = 4 := length_leBytes ..
  have htable : d.bytes.take 8 = leBytes 8 d.table.toNat := take_left' h8
  have hsize : (d.bytes.drop 8).take 4 = leBytes 4 d.size.toNat := by
    unfold HsearchData.bytes
    rw [drop_left' h8, take_left' h4]
  have hfilled : (d.bytes.drop 12).take 4 = leBytes 4 d.filled.toNat := by
    unfold HsearchData.bytes
    rw [show (12 : ℕ) = 8 + 4 from rfl, ← drop_drop, drop_left' h8, drop_left' h4,
      take_of_length_le h4'.le]
  unfold HsearchData.ofBytes
  rw [htable, hsize, hfilled, ofLe_leBytes_toNat (k := 8), ofLe_leBytes_toNat (k := 4), ofLe_leBytes_toNat (k := 4)]
  simp

section

variable (h : g.mem.Mapped a 16)
include h

lemma readHtab_of_mapped : readHtab g a = .ofBytes (load g.mem.bytes a 16) := by
  unfold readHtab
  rw [read_of_mapped (by simpa using h)]
  simp

lemma readHtab_congr (hm : g'.mem.mapped = g.mem.mapped) (hb : ∀ x ∈ block a 16, g'.mem.bytes x = g.mem.bytes x) :
    readHtab g' a = readHtab g a := by
  rw [readHtab_of_mapped h, readHtab_of_mapped (h.congr hm), load_congr h.1 hb]

lemma writeHtab_of_mapped : writeHtab g a d = ⟨⟨store g.mem.bytes a d.bytes, g.mem.mapped⟩, g.heap⟩ := by
  unfold writeHtab
  rw [write_of_mapped (by simpa using h)]

lemma readHtab_writeHtab : readHtab (writeHtab g a d) a = d := by
  have hload : load (store g.mem.bytes a d.bytes) a d.bytes.length = d.bytes :=
    load_store (by rw [HsearchData.length_bytes]; decide)
  rw [HsearchData.length_bytes] at hload
  have h' : (writeHtab g a d).mem.Mapped a 16 := h
  have hbytes : (writeHtab g a d).mem.bytes = store g.mem.bytes a d.bytes := by rw [writeHtab_of_mapped h]
  rw [readHtab_of_mapped h', hbytes, hload, HsearchData.ofBytes_bytes]

end

@[simp] lemma mapped_writeHtab : (writeHtab g a d).mem.mapped = g.mem.mapped := rfl

@[simp] lemma heap_writeHtab : (writeHtab g a d).heap = g.heap := rfl

@[simp] lemma mapped_writeWord : (writeWord g a v).mem.mapped = g.mem.mapped := rfl

@[simp] lemma heap_writeWord : (writeWord g a v).heap = g.heap := rfl

lemma ok_writeHtab (hok : g.Ok) : (writeHtab g a d).Ok := hok.keeps mapped_writeHtab hok.inv.keeps

lemma ok_writeWord (hok : g.Ok) : (writeWord g a v).Ok := hok.keeps mapped_writeWord hok.inv.keeps

lemma bytes_writeHtab_of_notMem (hx : x ∉ block a 16) : (writeHtab g a d).mem.bytes x = g.mem.bytes x :=
  write_of_notMem (by rwa [HsearchData.length_bytes])

lemma bytes_writeWord_of_notMem (hx : x ∉ block a 8) : (writeWord g a v).mem.bytes x = g.mem.bytes x :=
  write_of_notMem (by rwa [length_leBytes])

end

/-- **An entry of the guest**: the key is a live string, and the data stands behind its address. -/
structure HoldsEntry (g : GuestHeap) (e : Word) (key : List Byte) (dataPtr : Word) : Prop where
  data : g.wordAt (e + 8) = dataPtr
  string : load g.mem.bytes (g.wordAt e) (key.length + 1) = key ++ [0]
  noNul : (0 : Byte) ∉ key
  fin : key.length < 2 ^ 63
  live : block e 16 ⊆ g.heap.live
  liveKey : block (g.wordAt e) (key.length + 1) ⊆ g.heap.live

def footprint (g : GuestHeap) (e : Word) (key : List Byte) : Set Word :=
  block e 16 ∪ block (g.wordAt e) (key.length + 1)

section

variable {g g' : GuestHeap} {e dataPtr : Word} {key : List Byte}

lemma HoldsEntry.wordAt_eq (hb : ∀ x ∈ footprint g e key, g'.mem.bytes x = g.mem.bytes x) : g'.wordAt e = g.wordAt e :=
  GuestHeap.wordAt_congr fun x hx => hb x (.inl (block_mono (by decide) hx))

lemma HoldsEntry.congr (h : HoldsEntry g e key dataPtr) (hb : ∀ x ∈ footprint g e key, g'.mem.bytes x = g.mem.bytes x)
    (hl : footprint g e key ⊆ g'.heap.live) : HoldsEntry g' e key dataPtr := by
  have hword := HoldsEntry.wordAt_eq hb
  have hsub : block (e + 8) 8 ⊆ block e 16 := block_subset_block (by decide) (by decide)
  refine ⟨?_, ?_, h.noNul, h.fin, fun x hx => hl (.inl hx), ?_⟩
  · exact (GuestHeap.wordAt_congr fun x hx => hb x (.inl (hsub hx))).trans h.data
  · rw [hword]
    refine (load_congr ?_ fun x hx => hb x (.inr hx)).trans h.string
    have := h.fin
    omega
  · rw [hword]
    exact fun x hx => hl (.inr hx)

lemma HoldsEntry.stringAt (h : HoldsEntry g e key dataPtr) (hok : g.Ok) : g.mem.stringAt (g.wordAt e) = key := by
  have hfin := h.fin
  have hmap : g.mem.Mapped (g.wordAt e) (key.length + 1) := hok.mapped_of_live (by omega) h.liveKey
  unfold GuestMemory.stringAt
  rw [readString_of_load hmap h.string (by omega), takeWhile_eq_self_iff]
  intro b hb
  have hne : b ≠ 0 := by
    rintro rfl
    exact h.noNul hb
  simpa using hne

/-- **A new entry** is in blocks that were not live. -/
lemma newEntry_spec (dataPtr : Word) (hok : g.Ok) (hnul : (0 : Byte) ∉ key) (hleft : key.length + 33 ≤ g.heap.left) :
    ∃ g' e, newEntry key dataPtr g = (g', e) ∧ HoldsEntry g' e key dataPtr ∧ g'.Ok ∧
      HeapAllocator.Keeps g.heap g'.heap ∧ HeapAllocator.Retains g.heap g'.heap ∧ g'.mem.mapped = g.mem.mapped ∧
      (∀ x, x ∉ g.heap.spare → g'.mem.bytes x = g.mem.bytes x) ∧ footprint g' e key ⊆ g.heap.spare := by
  have hle := hleft.trans hok.inv.left_le
  have hg₁ := grants_allocate (n := 16) hok.inv (by decide)
    (hasRoom_of_left hok.inv (by omega))
  have hleft₁ := left_allocate (n := 16) hok.inv (by decide)
  rw [newEntry]
  generalize g.heap.allocate 16 8 = res at hg₁ hleft₁ ⊢
  obtain ⟨heap₁, e⟩ := res
  dsimp only at hg₁ hleft₁ ⊢
  have hg₂ := grants_allocate_small (n := key.length + 1) hg₁.keeps.inv isPowerOfTwo_one
    (by decide) (by omega) (hasRoom_small hg₁.keeps.inv isPowerOfTwo_one (by decide)
      (by omega))
  generalize heap₁.allocate (BitVec.ofNat 64 (key.length + 1)) 1 = res at hg₂ ⊢
  obtain ⟨heap₂, ka⟩ := res
  dsimp only at hg₂ ⊢
  have hlen : (key ++ [(0 : Byte)]).length = key.length + 1 := by simp
  have hka : block ka (key.length + 1) ⊆ g.heap.spare := hg₂.spare.trans (hg₁.retains.spare hg₁.keeps)
  have hmapE : g.mem.Mapped e 16 := hok.mapped_of_grants hg₁
  have hmapK : g.mem.Mapped ka (key.length + 1) :=
    ⟨by have := hg₂.fin; omega, fun x hx => hok.mapped x (hka hx).1⟩
  have hsub : block (e + 8) 8 ⊆ block e 16 := block_subset_block (by decide) (by decide)
  have hsub' : block e 8 ⊆ block e 16 := block_mono (by decide)
  -- the key is not where the entry is
  have hapart : Disjoint (block ka (key.length + 1)) (block e 16) :=
    Set.disjoint_left.2 fun x hx hy => (hg₂.spare hx).2 (hg₁.live hy)
  set g₁ : GuestHeap := ⟨⟨store g.mem.bytes ka (key ++ [0]), g.mem.mapped⟩, heap₂⟩ with hg₁def
  have hw₁ : writeWord ⟨(g.mem.write ka (key ++ [0])).1, heap₂⟩ e ka = poke g₁ e ka := by
    rw [write_of_mapped (by rwa [hlen])]
    exact writeWord_of_mapped (hmapE.mono (by decide))
  have hw₂ : writeWord (poke g₁ e ka) (e + 8) dataPtr = poke (poke g₁ e ka) (e + 8) dataPtr :=
    writeWord_of_mapped (GuestMemory.Mapped.part (i := 8) hmapE (by decide))
  rw [hw₁, hw₂]
  have hword : (poke (poke g₁ e ka) (e + 8) dataPtr).wordAt e = ka := by
    rw [wordAt_poke_of_disjoint key_left_disjoint, wordAt_poke_self]
  have hlive : block e 16 ⊆ heap₂.live := hg₁.live.trans hg₂.retains.live
  refine ⟨_, _, rfl, ⟨wordAt_poke_self, ?_, hnul, by omega, hlive, ?_⟩, ?_, ?_, ?_, rfl, ?_, ?_⟩
  · have hload : load g₁.mem.bytes ka (key ++ [(0 : Byte)]).length = key ++ [0] := load_store (by rw [hlen]; exact hmapK.1)
    rw [hlen] at hload
    rw [hword]
    refine (load_congr hmapK.1 fun x hx => ?_).trans hload
    have hx' := Set.disjoint_left.1 hapart hx
    rw [bytes_poke_of_notMem fun h => hx' (hsub h), bytes_poke_of_notMem fun h => hx' (hsub' h)]
  · rw [hword]
    exact hg₂.live
  · have hkeeps : GuestHeap.Ok ⟨g.mem, heap₁⟩ := hok.keeps rfl hg₁.keeps
    exact hkeeps.keeps rfl hg₂.keeps
  · exact hg₁.keeps.trans hg₂.keeps
  · exact hg₁.retains.trans hg₂.retains
  · intro x hx
    have he : x ∉ block e 16 := fun h => hx (hg₁.spare h)
    rw [bytes_poke_of_notMem fun h => he (hsub h), bytes_poke_of_notMem fun h => he (hsub' h)]
    exact store_of_notMem (by rw [hlen]; exact fun h => hx (hka h))
  · unfold footprint
    rw [hword]
    exact Set.union_subset hg₁.spare hka

end

end CrossShim.Search
