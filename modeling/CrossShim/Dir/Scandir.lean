import CrossShim.Memory.GuestHeap

/-!
# Lists of directory entries

`scandir`, `scandir64` and `scandirat` of `hle_dir.cpp`.  The entries that the host reads are put through the guest's
filter, whose result is tested with all its 64 bits; `scandirat` does not call it at all.  A comparison function of the
guest is never called either: if there is one, the entries are sorted by name as `strcoll` has it.  When the list is
what the guest asked for nevertheless: `lists_iff`.
-/

namespace CrossShim.Dir

open Lib List Memory Memory.GuestHeap Memory.HeapAllocator

/-! ### The host's directories -/

/-- A `struct dirent` of the host. -/
structure Dirent where
  ino : BitVec 64
  off : BitVec 64
  type : Byte
  name : List Byte
  length_name_le : name.length ≤ 255

open Dirent

/-- `host_to_arm64_dirent`: the `dirent_arm64` of an entry. -/
def Dirent.bytes (e : Dirent) : List Byte :=
  leBytes 8 e.ino.toNat ++ leBytes 8 e.off.toNat ++ leBytes 2 280 ++ [e.type] ++
    (e.name ++ List.replicate (256 - e.name.length) 0) ++ List.replicate 5 0

@[simp] lemma Dirent.length_bytes (e : Dirent) : e.bytes.length = 280 := by
  have := e.length_name_le
  simp only [bytes, length_append, length_leBytes, length_replicate, length_cons, length_nil]
  omega

/-- What `readdir` gives for a directory, entry by entry. -/
structure Directory where
  entries : List Dirent
  nodup : (entries.map name).Nodup

/-- `strcoll`, in a locale that tells all strings apart. -/
structure Collation where
  strcoll : List Byte → List Byte → ℤ
  neg_iff : ∀ a b, strcoll a b < 0 ↔ 0 < strcoll b a
  trans : ∀ a b c, strcoll a b ≤ 0 → strcoll b c ≤ 0 → strcoll a c ≤ 0
  eq_of_zero : ∀ a b, strcoll a b = 0 → a = b

/-- `std::sort` with `strcoll(a->d_name, b->d_name) < 0`. -/
def Collation.sort (c : Collation) (entries : List Dirent) : List Dirent :=
  entries.insertionSort fun a b => ¬ c.strcoll b.name a.name < 0

/-! ### The handlers -/

/-- `call_function_safe` with one argument: a guest function is run, and returns. -/
abbrev GuestCall : Type := Word → Word → GuestHeap → Word × GuestHeap

inductive Errno where
  | host (n : ℕ)
  deriving DecidableEq

structure Ret where
  x0 : Word
  errno : Option Errno := none
  deriving DecidableEq

section

variable (call : GuestCall) (coll : Collation)

def filterEntries (filterFunc : Word) : GuestHeap → List Dirent → GuestHeap × List Dirent
  | g, [] => (g, [])
  | g, e :: es =>
    let (g₁, entryPtr) := g.place e.bytes
    let (result, g₂) := call filterFunc entryPtr g₁
    let (g₃, filtered) := filterEntries filterFunc { g₂ with heap := g₂.heap.free entryPtr } es
    (g₃, if result ≠ 0 then e :: filtered else filtered)

def storeEntry (slot : Word) (g : GuestHeap) (e : Dirent) : GuestHeap :=
  let (g, entryPtr) := g.place e.bytes
  { g with mem := (g.mem.write slot (leBytes 8 entryPtr.toNat)).1 }

/-- The loop, from the `i`-th place of the list on. -/
def storeEntries (listPtr : Word) : ℕ → GuestHeap → List Dirent → GuestHeap
  | _, g, [] => g
  | i, g, e :: es => storeEntries listPtr (i + 1) (storeEntry (listPtr + BitVec.ofNat 64 (8 * i)) g e) es

def populate (namelistPtr : Word) (g : GuestHeap) (entries : List Dirent) : GuestHeap × Ret :=
  let count := entries.length
  let (heap, listPtr) := g.heap.allocate (BitVec.ofNat 64 ((count + 1) * 8)) 8
  let g₁ := storeEntries listPtr 0 { g with heap } entries
  let mem := (g₁.mem.write (listPtr + BitVec.ofNat 64 (8 * count)) (leBytes 8 0)).1
  let mem := (mem.write namelistPtr (leBytes 8 listPtr.toNat)).1
  ({ g₁ with mem }, ⟨BitVec.ofNat 64 count, none⟩)

/-- The end of all three: the entries are sorted if there is a comparison function, and handed over. -/
def deliver (namelistPtr comparFunc : Word) (g : GuestHeap) (entries : List Dirent) : GuestHeap × Ret :=
  populate namelistPtr g (if comparFunc ≠ 0 then coll.sort entries else entries)

/-- `scandir`; `dir` is what `opendir` gives for the path, or its `errno`. -/
def scandir (dir : Except ℕ Directory) (namelistPtr filterFunc comparFunc : Word) (g : GuestHeap) : GuestHeap × Ret :=
  match dir with
  | .error e => (g, ⟨-1, some (.host e)⟩)
  | .ok d =>
    let (g, entries) := if filterFunc ≠ 0 then filterEntries call filterFunc g d.entries else (g, d.entries)
    deliver coll namelistPtr comparFunc g entries

/-- `scandir64`, word for word the same. -/
def scandir64 (dir : Except ℕ Directory) (namelistPtr filterFunc comparFunc : Word) (g : GuestHeap) :
    GuestHeap × Ret :=
  scandir call coll dir namelistPtr filterFunc comparFunc g

/-- `scandirat`; `dir` is what `openat` and `fdopendir` give. -/
def scandirat (dir : Except ℕ Directory) (namelistPtr _filterFunc comparFunc : Word) (g : GuestHeap) :
    GuestHeap × Ret :=
  match dir with
  | .error e => (g, ⟨-1, some (.host e)⟩)
  | .ok d => deliver coll namelistPtr comparFunc g d.entries

end

/-! ### What the guest asks for -/

def entryAt (g : GuestHeap) (listPtr : Word) (i : ℕ) : List Byte :=
  load g.mem.bytes (g.wordAt (listPtr + BitVec.ofNat 64 (8 * i))) 280

/-- The entries of the list that the guest finds at `namelist`. -/
def listed (g : GuestHeap) (namelistPtr : Word) (count : ℕ) : List (List Byte) :=
  (List.range count).map (entryAt g (g.wordAt namelistPtr))

/-- The entries that the filter accepts, its result being an `int`. -/
def Directory.wanted (d : Directory) (filterFunc : Word) (f : List Byte → Word) : List Dirent :=
  d.entries.filter fun e => filterFunc = 0 ∨ (f e.bytes).setWidth 32 ≠ (0 : BitVec 32)

/-- **What the guest asks for**: the list has exactly the entries that the filter accepts, in an order that the
comparison function accepts. -/
def Lists (d : Directory) (f : List Byte → Word) (cmp : List Byte → List Byte → ℤ)
    (namelistPtr filterFunc comparFunc : Word) (r : GuestHeap × Ret) : Prop :=
  (listed r.1 namelistPtr r.2.x0.toNat).Perm ((d.wanted filterFunc f).map bytes) ∧
    (comparFunc ≠ 0 → (listed r.1 namelistPtr r.2.x0.toNat).Pairwise fun a b => cmp a b ≤ 0)

/-- Where names are sorted, the comparison function sorts. -/
def Collation.Agrees (c : Collation) (cmp : List Byte → List Byte → ℤ) (entries : List Dirent) : Prop :=
  ∀ a ∈ entries, ∀ b ∈ entries, c.strcoll a.name b.name < 0 → cmp a.bytes b.bytes ≤ 0

/-- The function at `filterFunc` returns `f` of the entry that it is given, frees nothing that was live before and takes
at most `cost` bytes from the end of the heap. -/
structure Filters (call : GuestCall) (filterFunc : Word) (f : List Byte → Word) (cost : ℕ) : Prop where
  returns : ∀ g p, g.Ok → (call filterFunc p g).1 = f (load g.mem.bytes p 280)
  mapped : ∀ g p, g.Ok → (call filterFunc p g).2.mem.mapped = g.mem.mapped
  keeps : ∀ g p, g.Ok → Keeps g.heap (call filterFunc p g).2.heap
  retains : ∀ g p, g.Ok → Retains g.heap (call filterFunc p g).2.heap
  left : ∀ g p, g.Ok → g.heap.left ≤ (call filterFunc p g).2.heap.left + cost

/-! ### The list in memory -/

section

variable {g g' : GuestHeap} {a listPtr namelistPtr : Word} {i j : ℕ} {es : List Dirent}

lemma slot_subset {n : ℕ} (hj : j < n) (hn : 8 * n ≤ 2 ^ 64) :
    block (listPtr + BitVec.ofNat 64 (8 * j)) 8 ⊆ block listPtr (8 * n) :=
  block_subset_block (by omega) hn

lemma entryAt_congr (hplace : ∀ x ∈ block (listPtr + BitVec.ofNat 64 (8 * j)) 8, g'.mem.bytes x = g.mem.bytes x)
    (hentry : ∀ x ∈ block (g.wordAt (listPtr + BitVec.ofNat 64 (8 * j))) 280, g'.mem.bytes x = g.mem.bytes x) :
    entryAt g' listPtr j = entryAt g listPtr j := by
  unfold entryAt
  rw [wordAt_congr hplace]
  exact load_congr (by decide) hentry

/-- **What the body of the loop does** to a place that is live. -/
structure StoredAt (g g' : GuestHeap) (slot : Word) (e : Dirent) : Prop where
  ok : g'.Ok
  keeps : Keeps g.heap g'.heap
  retains : Retains g.heap g'.heap
  left : g.heap.left ≤ g'.heap.left + 288
  frame : ∀ x, x ∉ g.heap.spare → x ∉ block slot 8 → g'.mem.bytes x = g.mem.bytes x
  mapped : g'.mem.mapped = g.mem.mapped
  entry : load g'.mem.bytes (g'.wordAt slot) 280 = e.bytes
  spare : block (g'.wordAt slot) 280 ⊆ g.heap.spare
  live : block (g'.wordAt slot) 280 ⊆ g'.heap.live

theorem storedAt_storeEntry {slot : Word} (e : Dirent) (hok : g.Ok) (hlive : block slot 8 ⊆ g.heap.live)
    (hleft : 288 ≤ g.heap.left) : StoredAt g (storeEntry slot g e) slot e := by
  obtain ⟨g₁, p, hplace, hp, hleft'⟩ := place_spec e.bytes hok (by simpa using hleft)
  have hstore : storeEntry slot g e = ⟨(g₁.mem.write slot (leBytes 8 p.toNat)).1, g₁.heap⟩ := by
    simp only [storeEntry, hplace]
  rw [hstore]
  have hent := hp.load
  have hspare := hp.grants.spare
  have hl := hp.grants.live
  rw [e.length_bytes] at hent hspare hl hleft'
  have hword : (leBytes 8 p.toNat).length = 8 := length_leBytes ..
  have hmem : (g₁.mem.write slot (leBytes 8 p.toNat)).1 =
      { g₁.mem with bytes := store g₁.mem.bytes slot (leBytes 8 p.toNat) } := by
    rw [GuestMemory.write_of_mapped]
    rw [hword]
    exact hp.ok.mapped_of_live (by decide) (hlive.trans hp.grants.retains.live)
  rw [hmem]
  -- the pointer is read back, and the entry is not where it was written
  have hpoint : wordAt ⟨⟨store g₁.mem.bytes slot (leBytes 8 p.toNat), g₁.mem.mapped⟩, g₁.heap⟩ slot = p :=
    wordAt_store _ _ _ _
  have hapart : Disjoint (block p 280) (block slot 8) :=
    Set.disjoint_left.2 fun x hx hy => (hspare hx).2 (hlive hy)
  refine ⟨hp.ok.keeps rfl hp.ok.inv.keeps, hp.grants.keeps, hp.grants.retains, by simpa using hleft', ?_, hp.mapped, ?_,
    ?_, ?_⟩
  · intro x hx hy
    refine (store_of_notMem (by rwa [hword])).trans ?_
    exact hp.of_notMem_spare hx
  · rw [hpoint]
    refine (load_store_of_disjoint (by decide) ?_).trans hent
    rwa [hword]
  · rwa [hpoint]
  · rwa [hpoint]

/-- **What the loop has done**, from the `i`-th place on: it wrote to blocks that it was given, and to the list. -/
structure Stored (g g' : GuestHeap) (listPtr : Word) (i : ℕ) (es : List Dirent) : Prop where
  ok : g'.Ok
  mapped : g'.mem.mapped = g.mem.mapped
  frame : ∀ x, x ∉ g.heap.spare → x ∉ block (listPtr + BitVec.ofNat 64 (8 * i)) (8 * es.length) →
    g'.mem.bytes x = g.mem.bytes x
  entry : ∀ j (hj : j < es.length), entryAt g' listPtr (i + j) = es[j].bytes
  spare : ∀ j, j < es.length →
    block (g'.wordAt (listPtr + BitVec.ofNat 64 (8 * (i + j)))) 280 ⊆ g.heap.spare

/-- One more entry, before those of the rest of the loop; the places to come are live, so nothing of it is written over.
-/
lemma Stored.cons {g₂ : GuestHeap} {e : Dirent} (hfin : 8 * (i + (es.length + 1)) ≤ 2 ^ 64)
    (hlive : block listPtr (8 * (i + (es.length + 1))) ⊆ g.heap.live)
    (hone : StoredAt g g₂ (listPtr + BitVec.ofNat 64 (8 * i)) e) (hrest : Stored g₂ g' listPtr (i + 1) es) :
    Stored g g' listPtr i (e :: es) := by
  set slot := listPtr + BitVec.ofNat 64 (8 * i) with hslot
  have hslive : block slot 8 ⊆ g.heap.live := (slot_subset (by omega) hfin).trans hlive
  have hlater : block (listPtr + BitVec.ofNat 64 (8 * (i + 1))) (8 * es.length) ⊆
      block listPtr (8 * (i + (es.length + 1))) := block_subset_block (by omega) hfin
  have hfirst : block (listPtr + BitVec.ofNat 64 (8 * (i + 1))) (8 * es.length) ⊆
      block slot (8 * (es.length + 1)) := by
    rw [show listPtr + BitVec.ofNat 64 (8 * (i + 1)) = slot + BitVec.ofNat 64 8 by rw [hslot]; bv_omega]
    exact block_subset_block (by omega) (by omega)
  have hsame : ∀ x, x ∈ g₂.heap.live → x ∉ block (listPtr + BitVec.ofNat 64 (8 * (i + 1))) (8 * es.length) →
      g'.mem.bytes x = g₂.mem.bytes x := fun x hx hy => hrest.frame x (fun h => h.2 hx) hy
  have hplace : ∀ x ∈ block slot 8, g'.mem.bytes x = g₂.mem.bytes x := by
    intro x hx
    have hapart : Disjoint (block slot 8) (block (listPtr + BitVec.ofNat 64 (8 * (i + 1))) (8 * es.length)) :=
      disjoint_parts (by omega) (by omega)
    exact hsame x (hone.retains.live (hslive hx)) fun hy => Set.disjoint_left.1 hapart hx hy
  refine ⟨hrest.ok, hrest.mapped.trans hone.mapped, ?_, ?_, ?_⟩
  · intro x hx hy
    rw [hrest.frame x (fun h => hx (hone.retains.spare hone.keeps h)) fun h => hy (hfirst h)]
    exact hone.frame x hx fun h => hy (block_mono (by rw [length_cons]; omega) h)
  · intro j hj
    cases j with
    | zero =>
      refine (entryAt_congr hplace fun x hx => hsame x (hone.live hx) fun hy => ?_).trans hone.entry
      exact (hone.spare hx).2 (hlive (hlater hy))
    | succ j =>
      rw [getElem_cons_succ, ← hrest.entry j (by simpa using hj), Nat.add_right_comm, Nat.add_assoc]
  · intro j hj
    cases j with
    | zero =>
      rw [Nat.add_zero, ← hslot, wordAt_congr hplace]
      exact hone.spare
    | succ j =>
      rw [show i + (j + 1) = i + 1 + j by omega]
      exact (hrest.spare j (by simpa using hj)).trans (hone.retains.spare hone.keeps)

/-- **The loop**: the invariant is that the list is live, and room is left for the entries to come. -/
theorem stored_storeEntries (hok : g.Ok) (hfin : 8 * (i + es.length) ≤ 2 ^ 64)
    (hlive : block listPtr (8 * (i + es.length)) ⊆ g.heap.live) (hleft : 288 * es.length ≤ g.heap.left) :
    Stored g (storeEntries listPtr i g es) listPtr i es := by
  induction es generalizing i g with
  | nil =>
    refine ⟨hok, rfl, fun _ _ _ => rfl, ?_, ?_⟩
    · nofun
    · nofun
  | cons e es ih =>
    rw [length_cons] at hfin hlive hleft
    have hslive : block (listPtr + BitVec.ofNat 64 (8 * i)) 8 ⊆ g.heap.live :=
      (slot_subset (by omega) hfin).trans hlive
    have hone := storedAt_storeEntry e hok hslive (by omega)
    have hroom := hone.left
    have hnext : 8 * (i + 1 + es.length) = 8 * (i + (es.length + 1)) := by omega
    refine Stored.cons hfin hlive hone (ih hone.ok (hnext ▸ hfin) ?_ (by omega))
    rw [hnext]
    exact hlive.trans hone.retains.live

/-- A variable of the guest: mapped, and not in a part of the heap that is to be handed out. -/
def Variable (g : GuestHeap) (a : Word) : Prop := g.mem.Mapped a 8 ∧ Disjoint (block a 8) g.heap.spare

lemma populate_eq {heap : HeapAllocator} {g₁ : GuestHeap}
    (halloc : g.heap.allocate (BitVec.ofNat 64 ((es.length + 1) * 8)) 8 = (heap, listPtr))
    (hloop : storeEntries listPtr 0 ⟨g.mem, heap⟩ es = g₁) (hmap : g₁.mem.mapped = g.mem.mapped)
    (hend : g.mem.Mapped (listPtr + BitVec.ofNat 64 (8 * es.length)) 8) (hvar : g.mem.Mapped namelistPtr 8) :
    populate namelistPtr g es =
      (⟨⟨store (store g₁.mem.bytes (listPtr + BitVec.ofNat 64 (8 * es.length)) (leBytes 8 0)) namelistPtr
          (leBytes 8 listPtr.toNat), g₁.mem.mapped⟩, g₁.heap⟩, ⟨BitVec.ofNat 64 es.length, none⟩) := by
  have hwrite : ∀ (m : GuestMemory) a v, m.mapped = g.mem.mapped → g.mem.Mapped a 8 →
      (m.write a (leBytes 8 v)).1 = { m with bytes := store m.bytes a (leBytes 8 v) } := by
    intro m a v hm ha
    rw [GuestMemory.write_of_mapped]
    rw [length_leBytes]
    exact ha.congr hm
  unfold populate
  simp only [halloc, hloop]
  rw [hwrite g₁.mem _ _ hmap hend, hwrite ⟨store g₁.mem.bytes _ (leBytes 8 0), g₁.mem.mapped⟩ _ _ hmap hvar]

/-- **The list**: the guest finds the entries there. -/
theorem listed_populate (hok : g.Ok) (hvar : Variable g namelistPtr) (hleft : 296 * es.length + 16 ≤ g.heap.left) :
    listed (populate namelistPtr g es).1 namelistPtr (populate namelistPtr g es).2.x0.toNat = es.map bytes := by
  have hle := hok.inv.left_le
  -- the list
  obtain ⟨heap, listPtr, halloc⟩ : ∃ heap listPtr,
      g.heap.allocate (BitVec.ofNat 64 ((es.length + 1) * 8)) 8 = (heap, listPtr) := ⟨_, _, rfl⟩
  have hgrants := grants_allocate (n := (es.length + 1) * 8) hok.inv (by omega)
    (hasRoom_of_left hok.inv (by omega))
  have hleft₀ := left_allocate (n := (es.length + 1) * 8) hok.inv (by omega)
  rw [halloc, Nat.mul_comm (es.length + 1) 8] at hgrants hleft₀
  simp only at hgrants hleft₀
  have hlist := hgrants.live
  have hspare := hgrants.retains.spare hgrants.keeps
  have hend : block (listPtr + BitVec.ofNat 64 (8 * es.length)) 8 ⊆ block listPtr (8 * (es.length + 1)) :=
    slot_subset (by omega) (by omega)
  -- the entries
  have hok₀ : Ok ⟨g.mem, heap⟩ := hok.keeps rfl hgrants.keeps
  have hstored : Stored ⟨g.mem, heap⟩ (storeEntries listPtr 0 ⟨g.mem, heap⟩ es) listPtr 0 es := by
    refine stored_storeEntries hok₀ (by omega) ?_ (by show _ ≤ heap.left; omega)
    exact (block_mono (by omega)).trans hlist
  obtain ⟨g₁, hloop⟩ : ∃ g₁, storeEntries listPtr 0 ⟨g.mem, heap⟩ es = g₁ := ⟨_, rfl⟩
  rw [hloop] at hstored
  rw [populate_eq halloc hloop hstored.mapped (hok₀.mapped_of_live (by decide) (hend.trans hlist)) hvar.1]
  set bytes := store (store g₁.mem.bytes (listPtr + BitVec.ofNat 64 (8 * es.length)) (leBytes 8 0)) namelistPtr
    (leBytes 8 listPtr.toNat)
  have hword : ∀ v, (leBytes 8 v).length = 8 := length_leBytes 8
  -- the two pointers behind the loop are not among what the guest reads of it
  have hframe : ∀ x ∈ g.heap.spare, x ∉ block (listPtr + BitVec.ofNat 64 (8 * es.length)) 8 →
      bytes x = g₁.mem.bytes x := by
    intro x hx hy
    refine (store_of_notMem ?_).trans (store_of_notMem (by rwa [hword]))
    rw [hword]
    exact fun h => Set.disjoint_left.1 hvar.2 h hx
  have hpoint : wordAt ⟨⟨bytes, g₁.mem.mapped⟩, g₁.heap⟩ namelistPtr = listPtr :=
    wordAt_store _ _ _ _
  have hentry : ∀ j < es.length,
      entryAt ⟨⟨bytes, g₁.mem.mapped⟩, g₁.heap⟩ listPtr j = entryAt g₁ listPtr j := by
    intro j hj
    have hapart : Disjoint (block (listPtr + BitVec.ofNat 64 (8 * j)) 8)
        (block (listPtr + BitVec.ofNat 64 (8 * es.length)) 8) := disjoint_parts (by omega) (by omega)
    have hsp := hstored.spare j hj
    rw [Nat.zero_add] at hsp
    refine entryAt_congr (fun x hx => hframe x ?_ (Set.disjoint_left.1 hapart hx)) fun x hx => ?_
    · exact hgrants.spare (slot_subset (Nat.lt_succ_of_lt hj) (by omega) hx)
    · exact hframe x (hspare (hsp hx)) fun hy => (hsp hx).2 (hlist (hend hy))
  show (List.range (BitVec.ofNat 64 es.length).toNat).map (entryAt _ (wordAt _ namelistPtr)) = _
  rw [hpoint, BitVec.toNat_ofNat, Nat.mod_eq_of_lt (by omega)]
  apply ext_getElem
  · simp
  · intro j h1 h2
    have hj : j < es.length := by simpa using h2
    have := hstored.entry j hj
    rw [Nat.zero_add] at this
    rw [getElem_map, getElem_map, getElem_range, hentry j hj, this]

end

/-! ### The filter -/

section

variable {call : GuestCall} {filterFunc : Word} {f : List Byte → Word} {cost : ℕ} {g : GuestHeap}

/-- **What filtering does**: it leaves the entries for which the result is not 0, and of the heap what was live. -/
structure Filtered (g : GuestHeap) (f : List Byte → Word) (cost : ℕ) (es : List Dirent) (r : GuestHeap × List Dirent) :
    Prop where
  entries : r.2 = es.filter fun e => f e.bytes ≠ 0
  ok : r.1.Ok
  mapped : r.1.mem.mapped = g.mem.mapped
  keeps : Keeps g.heap r.1.heap
  retains : Retains g.heap r.1.heap
  left : g.heap.left ≤ r.1.heap.left + (288 + cost) * es.length

lemma filtered_one (hf : Filters call filterFunc f cost) (e : Dirent) (hok : g.Ok) (hleft : 288 ≤ g.heap.left) :
    ∃ g₁ p g₂, g.place e.bytes = (g₁, p) ∧ call filterFunc p g₁ = (f e.bytes, g₂) ∧
      Ok ⟨g₂.mem, g₂.heap.free p⟩ ∧ g₂.mem.mapped = g.mem.mapped ∧
      Keeps g.heap (g₂.heap.free p) ∧ Retains g.heap (g₂.heap.free p) ∧
      g.heap.left ≤ (g₂.heap.free p).left + (288 + cost) := by
  obtain ⟨g₁, p, hplace, hp, hleft₁⟩ := place_spec e.bytes hok (by simpa using hleft)
  refine ⟨g₁, p, (call filterFunc p g₁).2, hplace, ?_⟩
  have hret := hf.returns g₁ p hp.ok
  have hload := hp.load
  rw [e.length_bytes] at hload hleft₁
  rw [hload] at hret
  have hkeeps := hf.keeps g₁ p hp.ok
  have hfree := (free_spec hkeeps.inv p).1
  have hall := (hp.grants.keeps.trans hkeeps).trans hfree.keeps
  have hmap := (hf.mapped g₁ p hp.ok).trans hp.mapped
  refine ⟨Prod.ext hret rfl, hok.keeps hmap hall, hmap, hall, ?_, ?_⟩
  · rintro ⟨a, n⟩ han
    refine (hfree.allocs a n).2 ⟨?_, hf.retains g₁ p hp.ok _ (hp.grants.retains _ han)⟩
    rintro rfl
    exact hp.grants.isNew n han
  · have h1 := hf.left g₁ p hp.ok
    have h2 := hfree.left_eq
    omega

theorem filtered_filterEntries (hf : Filters call filterFunc f cost) (es : List Dirent) (hok : g.Ok)
    (hleft : (288 + cost) * es.length ≤ g.heap.left) :
    Filtered g f cost es (filterEntries call filterFunc g es) := by
  induction es generalizing g with
  | nil => exact ⟨rfl, hok, rfl, hok.inv.keeps, fun _ h => h, Nat.le_add_right _ _⟩
  | cons e es ih =>
    rw [length_cons, Nat.mul_succ] at hleft
    obtain ⟨g₁, p, g₂, hplace, hcall, hok₃, hmap, hkeeps, hret, hleft₃⟩ := filtered_one hf e hok (by omega)
    have hrest := ih hok₃ (by show _ ≤ (g₂.heap.free p).left; omega)
    have hrun : filterEntries call filterFunc g (e :: es) =
        ((filterEntries call filterFunc ⟨g₂.mem, g₂.heap.free p⟩ es).1,
          if f e.bytes ≠ 0 then e :: (filterEntries call filterFunc ⟨g₂.mem, g₂.heap.free p⟩ es).2
          else (filterEntries call filterFunc ⟨g₂.mem, g₂.heap.free p⟩ es).2) := by
      rw [filterEntries]
      simp only [hplace, hcall]
    rw [hrun]
    refine ⟨?_, hrest.ok, hrest.mapped.trans hmap, hkeeps.trans hrest.keeps, hret.trans hrest.retains, ?_⟩
    · dsimp only
      rw [hrest.entries, filter_cons]
      by_cases h : f e.bytes = 0 <;> simp [h]
    · have h1 := hrest.left
      dsimp only at h1 ⊢
      rw [length_cons, Nat.mul_succ]
      omega

end

/-! ### The order -/

section

variable {coll : Collation} {cmp : List Byte → List Byte → ℤ} {es : List Dirent}

instance : Std.Total fun a b : Dirent => ¬ coll.strcoll b.name a.name < 0 where
  total a b := by
    by_contra h
    obtain ⟨h1, h2⟩ := not_or.1 h
    have := (coll.neg_iff _ _).1 (not_not.1 h1)
    have := not_not.1 h2
    omega

instance : IsTrans Dirent fun a b => ¬ coll.strcoll b.name a.name < 0 where
  trans a b c h1 h2 := by
    rw [coll.neg_iff, not_lt] at *
    exact coll.trans _ _ _ h1 h2

lemma perm_sort : (coll.sort es).Perm es := perm_insertionSort _ es

lemma pairwise_sort : (coll.sort es).Pairwise fun a b => ¬ coll.strcoll b.name a.name < 0 :=
  pairwise_insertionSort _ es

/-- **Entries in the order of their names** are in the order of the comparison function exactly if that agrees. -/
theorem pairwise_sort_iff (hnodup : (es.map name).Nodup) :
    ((coll.sort es).map bytes).Pairwise (fun a b => cmp a b ≤ 0) ↔ coll.Agrees cmp es := by
  have hmem : ∀ {a}, a ∈ es → a ∈ coll.sort es := fun h => perm_sort.mem_iff.2 h
  have hnames : (coll.sort es).Pairwise fun a b => a.name ≠ b.name :=
    pairwise_map.1 ((perm_sort.map name).nodup_iff.2 hnodup)
  -- of two entries the one with the lesser name comes first
  have hfirst : (coll.sort es).Pairwise fun a b => coll.strcoll a.name b.name < 0 := by
    refine (pairwise_sort.and hnames).imp fun ⟨hle, hne⟩ => ?_
    rw [coll.neg_iff, not_lt] at hle
    exact lt_of_le_of_ne hle fun h0 => hne (coll.eq_of_zero _ _ h0)
  rw [pairwise_map]
  constructor
  · intro h a ha b hb
    refine List.Pairwise.forall_of_forall_of_flip (R := fun a b =>
      coll.strcoll a.name b.name < 0 → cmp a.bytes b.bytes ≤ 0) ?_ ?_ ?_ (hmem ha) (hmem hb)
    · intro x _ hlt
      have := (coll.neg_iff _ _).1 hlt
      omega
    · refine h.imp ?_
      intro a b hcmp _
      exact hcmp
    · refine hfirst.imp fun hlt hgt => ?_
      have := (coll.neg_iff _ _).1 hgt
      omega
  · intro h
    refine hfirst.imp_of_mem fun ha hb hlt => ?_
    exact h _ (perm_sort.mem_iff.1 ha) _ (perm_sort.mem_iff.1 hb) hlt

end

/-! ### The list that the guest asked for -/

section

variable {coll : Collation} {d : Directory} {f : List Byte → Word} {cmp : List Byte → List Byte → ℤ} {g : GuestHeap}
variable {namelistPtr filterFunc comparFunc : Word}

lemma Directory.nodup_of_sublist {es : List Dirent} (h : es.Sublist d.entries) : (es.map name).Nodup :=
  (h.map name).nodup d.nodup

/-- **A list with at least the entries that are wanted** is what the guest asked for exactly if it has no others, and
the comparison function agrees with the names. -/
theorem lists_deliver_iff {kept : List Dirent} (hok : g.Ok) (hvar : Variable g namelistPtr)
    (hleft : 296 * kept.length + 16 ≤ g.heap.left) (hsub : (d.wanted filterFunc f).Sublist kept)
    (hkept : kept.Sublist d.entries) :
    Lists d f cmp namelistPtr filterFunc comparFunc (deliver coll namelistPtr comparFunc g kept) ↔
      d.wanted filterFunc f = kept ∧ (comparFunc ≠ 0 → coll.Agrees cmp (d.wanted filterFunc f)) := by
  have hperm : (if comparFunc ≠ 0 then coll.sort kept else kept).Perm kept := by
    split_ifs
    · exact perm_sort
    · exact .refl _
  unfold Lists deliver
  rw [listed_populate hok hvar (by rw [hperm.length_eq]; exact hleft)]
  have horder : (comparFunc ≠ 0 → ((if comparFunc ≠ 0 then coll.sort kept else kept).map bytes).Pairwise
      fun a b => cmp a b ≤ 0) ↔ (comparFunc ≠ 0 → coll.Agrees cmp kept) := by
    refine forall_congr' fun hc => ?_
    rw [if_pos hc]
    exact pairwise_sort_iff (d.nodup_of_sublist hkept)
  rw [horder]
  constructor
  · rintro ⟨hp, hagrees⟩
    have hlen : (d.wanted filterFunc f).length = kept.length := by
      have := hp.length_eq
      rw [length_map, length_map, hperm.length_eq] at this
      exact this.symm
    have heq := hsub.eq_of_length hlen
    exact ⟨heq, heq ▸ hagrees⟩
  · rintro ⟨heq, hagrees⟩
    rw [heq] at hagrees ⊢
    exact ⟨hperm.map _, hagrees⟩

end

/-- Every result of the filter that is not 0 is not 0 as an `int`. -/
def Directory.ResultsFit (d : Directory) (filterFunc : Word) (f : List Byte → Word) : Prop :=
  filterFunc ≠ 0 → ∀ e ∈ d.entries, f e.bytes ≠ 0 → (f e.bytes).setWidth 32 ≠ (0 : BitVec 32)

def Directory.AllAccepted (d : Directory) (filterFunc : Word) (f : List Byte → Word) : Prop :=
  filterFunc ≠ 0 → ∀ e ∈ d.entries, (f e.bytes).setWidth 32 ≠ (0 : BitVec 32)

section

variable {call : GuestCall} {coll : Collation} {d : Directory} {f : List Byte → Word}
variable {cmp : List Byte → List Byte → ℤ} {cost : ℕ} {g : GuestHeap} {namelistPtr filterFunc comparFunc : Word}

lemma ne_zero_of_setWidth {r : Word} (h : r.setWidth 32 ≠ (0 : BitVec 32)) : r ≠ 0 := by
  rintro rfl
  exact h rfl

lemma wanted_of_no_filter (h : filterFunc = 0) : d.wanted filterFunc f = d.entries := by
  simp [Directory.wanted, h]

lemma mem_wanted {e : Dirent} (h : filterFunc ≠ 0) :
    e ∈ d.wanted filterFunc f ↔ e ∈ d.entries ∧ (f e.bytes).setWidth 32 ≠ (0 : BitVec 32) := by
  rw [Directory.wanted, mem_filter, decide_eq_true_iff]
  exact and_congr_right fun _ => or_iff_right h

lemma wanted_sublist_filter (h : filterFunc ≠ 0) :
    (d.wanted filterFunc f).Sublist (d.entries.filter fun e => f e.bytes ≠ 0) := by
  refine monotone_filter_right _ fun e he => ?_
  exact decide_eq_true (ne_zero_of_setWidth ((of_decide_eq_true he).resolve_left h))

lemma wanted_eq_filter_iff (h : filterFunc ≠ 0) :
    d.wanted filterFunc f = d.entries.filter (fun e => f e.bytes ≠ 0) ↔ d.ResultsFit filterFunc f := by
  constructor
  · intro heq _ e he hne
    have hmem : e ∈ d.entries.filter fun e => f e.bytes ≠ 0 := mem_filter.2 ⟨he, decide_eq_true hne⟩
    rw [← heq, mem_wanted h] at hmem
    exact hmem.2
  · intro hfit
    refine filter_congr fun e he => decide_eq_decide.2 ⟨fun hlow => ?_, fun hne => ?_⟩
    · exact ne_zero_of_setWidth (hlow.resolve_left h)
    · exact .inr (hfit h e he hne)

lemma wanted_eq_entries_iff : d.wanted filterFunc f = d.entries ↔ d.AllAccepted filterFunc f := by
  constructor
  · intro heq h e he
    rw [← heq, mem_wanted h] at he
    exact he.2
  · intro hall
    by_cases h : filterFunc = 0
    · exact wanted_of_no_filter h
    · exact filter_eq_self.2 fun e he => decide_eq_true (.inr (hall h e he))

/-- **`scandir`.** -/
theorem lists_scandir_iff (hok : g.Ok) (hvar : Variable g namelistPtr)
    (hroom : (600 + cost) * d.entries.length + 16 ≤ g.heap.left)
    (hf : filterFunc ≠ 0 → Filters call filterFunc f cost) :
    Lists d f cmp namelistPtr filterFunc comparFunc
        (scandir call coll (.ok d) namelistPtr filterFunc comparFunc g) ↔
      d.ResultsFit filterFunc f ∧ (comparFunc ≠ 0 → coll.Agrees cmp (d.wanted filterFunc f)) := by
  have hsplit : (600 + cost) * d.entries.length = (288 + cost) * d.entries.length + 312 * d.entries.length := by ring
  unfold scandir
  by_cases h : filterFunc = 0
  · have hwanted : d.wanted filterFunc f = d.entries := wanted_of_no_filter h
    simp only [if_neg (not_not.2 h)]
    rw [lists_deliver_iff hok hvar (by omega) (by rw [hwanted]) (.refl _)]
    exact and_congr_left' (iff_of_true hwanted fun hne => absurd h hne)
  · have hfil := filtered_filterEntries (hf h) d.entries hok (by omega)
    simp only [ne_eq, h, not_false_eq_true, if_true]
    have hlen : (filterEntries call filterFunc g d.entries).2.length ≤ d.entries.length := by
      rw [hfil.entries]
      exact length_filter_le ..
    have hleft := hfil.left
    have hvar' : Variable (filterEntries call filterFunc g d.entries).1 namelistPtr := by
      refine ⟨⟨hvar.1.1, fun x hx => ?_⟩, hvar.2.mono_right (hfil.retains.spare hfil.keeps)⟩
      rw [hfil.mapped]
      exact hvar.1.2 x hx
    rw [lists_deliver_iff hfil.ok hvar' (by omega), hfil.entries, wanted_eq_filter_iff h]
    · rw [hfil.entries]
      exact wanted_sublist_filter h
    · rw [hfil.entries]
      exact filter_sublist

end

/-- **When the list is what the guest asked for**, for each of the three. -/
theorem lists_iff (call : GuestCall) (coll : Collation) (d : Directory) (f : List Byte → Word)
    (cmp : List Byte → List Byte → ℤ) (cost : ℕ) (g : GuestHeap) (namelistPtr filterFunc comparFunc : Word)
    (hok : g.Ok) (hvar : Variable g namelistPtr) (hroom : (600 + cost) * d.entries.length + 16 ≤ g.heap.left)
    (hf : filterFunc ≠ 0 → Filters call filterFunc f cost) :
    (Lists d f cmp namelistPtr filterFunc comparFunc
        (scandir call coll (.ok d) namelistPtr filterFunc comparFunc g) ↔
      d.ResultsFit filterFunc f ∧ (comparFunc ≠ 0 → coll.Agrees cmp (d.wanted filterFunc f))) ∧
    (Lists d f cmp namelistPtr filterFunc comparFunc
        (scandir64 call coll (.ok d) namelistPtr filterFunc comparFunc g) ↔
      d.ResultsFit filterFunc f ∧ (comparFunc ≠ 0 → coll.Agrees cmp (d.wanted filterFunc f))) ∧
    (Lists d f cmp namelistPtr filterFunc comparFunc (scandirat coll (.ok d) namelistPtr filterFunc comparFunc g) ↔
      d.AllAccepted filterFunc f ∧ (comparFunc ≠ 0 → coll.Agrees cmp (d.wanted filterFunc f))) := by
  have hroom' : 296 * d.entries.length + 16 ≤ g.heap.left := by
    have : (600 + cost) * d.entries.length = 600 * d.entries.length + cost * d.entries.length := by ring
    omega
  refine ⟨lists_scandir_iff hok hvar hroom hf, lists_scandir_iff hok hvar hroom hf, ?_⟩
  rw [← wanted_eq_entries_iff]
  exact lists_deliver_iff hok hvar hroom' filter_sublist (.refl _)

/-- `strcmp`, which `strcoll` is in the locale `C`. -/
def strcmp : Collation where
  strcoll a b :=
    if a.map BitVec.toNat < b.map BitVec.toNat then -1 else if a.map BitVec.toNat = b.map BitVec.toNat then 0 else 1
  neg_iff a b := by
    rcases lt_trichotomy (a.map BitVec.toNat) (b.map BitVec.toNat) with h | h | h
    · simp [h, h.not_gt, h.ne']
    · simp [h]
    · simp [h, h.not_gt, h.ne']
  trans a b c h1 h2 := by
    have hle : ∀ x y : List ℕ, (if x < y then (-1 : ℤ) else if x = y then 0 else 1) ≤ 0 ↔ x ≤ y := by
      intro x y
      rcases lt_trichotomy x y with h | h | h
      · simp [h, h.le]
      · simp [h]
      · simp [h.not_gt, h.ne', h.not_ge]
    rw [hle] at *
    exact h1.trans h2
  eq_of_zero a b h := by
    have heq : a.map BitVec.toNat = b.map BitVec.toNat := by
      by_contra hne
      split_ifs at h
      omega
    exact List.map_injective_iff.2 (fun _ _ => BitVec.eq_of_toNat_eq) heq

/-- A directory with the entries `b` and `a`. -/
def twoEntries : Directory where
  entries := [⟨1, 1, 8, [0x62], by decide⟩, ⟨2, 2, 8, [0x61], by decide⟩]
  nodup := by decide

def smallGuest : GuestHeap := ⟨⟨fun _ => 0, fun _ => true⟩, .init 0x10000 0x10000⟩

/-- The order of the first letter of `d_name`. -/
def byLetter (x y : List Byte) : ℤ := (x.getD 19 0).toNat - (y.getD 19 0).toNat

/-- A filter that accepts all entries, and a comparison function that is `alphasort`. -/
theorem lists_iff_alphasort :
    Lists twoEntries (fun _ => 1) byLetter 0x100 0x9000 0x9100
        (scandir (fun _ _ g => (1, g)) strcmp (.ok twoEntries) 0x100 0x9000 0x9100 smallGuest) ∧
      Lists twoEntries (fun _ => 1) byLetter 0x100 0x9000 0x9100
        (scandirat strcmp (.ok twoEntries) 0x100 0x9000 0x9100 smallGuest) := by
  have hok : smallGuest.Ok := ⟨inv_init (by decide) (by decide), fun _ _ => rfl⟩
  have hvar : Variable smallGuest 0x100 := by
    refine ⟨⟨by decide, fun _ _ => rfl⟩, Set.disjoint_left.2 fun x hx hs => ?_⟩
    have h1 : (x - 0x100).toNat < 8 := hx
    have h2 : 0x10000 ≤ x.toNat := hs.1.1
    bv_omega
  have hf : Filters (fun _ _ g => (1, g)) 0x9000 (fun _ => 1) 0 :=
    ⟨fun _ _ _ => rfl, fun _ _ _ => rfl, fun _ _ h => h.inv.keeps, fun _ _ _ _ h => h, fun _ _ _ => Nat.le_refl _⟩
  have h := lists_iff (fun _ _ g => (1, g)) strcmp twoEntries (fun _ => 1) byLetter 0 smallGuest 0x100 0x9000 0x9100 hok
    hvar (by decide +kernel) fun _ => hf
  have hagrees : strcmp.Agrees byLetter (twoEntries.wanted 0x9000 fun _ => 1) := by
    unfold Collation.Agrees
    decide +kernel
  have hone : (1 : Word).setWidth 32 ≠ (0 : BitVec 32) := by decide
  exact ⟨h.1.2 ⟨fun _ _ _ _ => hone, fun _ => hagrees⟩, h.2.2.2 ⟨fun _ _ _ => hone, fun _ => hagrees⟩⟩

/-- A filter whose result is `2^32` accepts no entry, and `scandir` lists both; `scandirat` lists what a filter rejects;
and `a` comes first where the comparison function has `b` first. -/
theorem guest_functions_not_asked :
    (twoEntries.wanted 0x9000 fun _ => 0x100000000).length = 0 ∧
      (scandir (fun _ _ g => (0x100000000, g)) strcmp (.ok twoEntries) 0x100 0x9000 0 smallGuest).2.x0 = 2 ∧
      (twoEntries.wanted 0x9000 fun _ => 0).length = 0 ∧
      (scandirat strcmp (.ok twoEntries) 0x100 0x9000 0 smallGuest).2.x0 = 2 ∧
      (listed (scandir (fun _ _ g => (1, g)) strcmp (.ok twoEntries) 0x100 0 0x9100 smallGuest).1 0x100 2).map
        (fun e => e.getD 19 0) = [0x61, 0x62] ∧
      ¬ (listed (scandir (fun _ _ g => (1, g)) strcmp (.ok twoEntries) 0x100 0 0x9100 smallGuest).1 0x100 2).Pairwise
        (fun a b => -byLetter a b ≤ 0) := by
  decide +kernel

end CrossShim.Dir
