import CrossShim.Lib.SearchTree
import CrossShim.Memory.GuestHeap
import CrossShim.Stdlib.Qsort

/-!
# Search trees of the guest

`tfind`, `tsearch` and `tdelete` of `hle_search.cpp`.  A node is a block of 24 bytes of the heap: its key, and the
addresses of its left and right child.  The comparison is made by the guest.

`TreeAt` unfolds the addresses to a tree of `Lib.SearchTree`.  Each handler goes down from one address in memory where
a subtree hangs to another, and so its specification is about such an address: `tfindLoop_spec`, `tsearchFrom_spec`
and `tdeleteLoop_spec` say that the tree that hangs there is searched, and becomes `insert` and `erase` of it.
-/

namespace CrossShim.Search

open Lib Memory SearchTree Set GuestHeap HeapAllocator
open Stdlib (cmpResult)

/-! ### The handlers -/

/-- `call_function_safe`: a guest function is run on some arguments, and returns. -/
abbrev GuestCall : Type := Word → List Word → GuestHeap → Word × GuestHeap

/-- `emu.mem_read(a, &v, 8)`, for a variable that holds `v`. -/
def readWord (g : GuestHeap) (a : Word) (v : Word := 0) : Word :=
  BitVec.ofNat 64 (ofLe (g.mem.read a (leBytes 8 v.toNat)).1)

/-- `emu.mem_write(a, &v, 8)`. -/
def writeWord (g : GuestHeap) (a v : Word) : GuestHeap := { g with mem := (g.mem.write a (leBytes 8 v.toNat)).1 }

def newNode (key : Word) (g : GuestHeap) : GuestHeap × Word :=
  let (heap, p) := g.heap.allocate 24 8
  let g := writeWord { g with heap } p key
  let g := writeWord g (p + 8) 0
  (writeWord g (p + 16) 0, p)

/-- The leftmost node of a subtree, and where its address is; `none` when it is not found after this many rounds. -/
def succLoop (g : GuestHeap) : ℕ → Word → Word → Option (Word × Word)
  | 0, _, _ => none
  | rounds + 1, succParentAddr, succ =>
    let succLeft := readWord g (succ + 8)
    if succLeft ≠ 0 then succLoop g rounds (succ + 8) succLeft else some (succParentAddr, succ)

/-- What `tdelete` does to the node that it has found, whose address is at `parentAddr`. -/
def unlink (rounds : ℕ) (parentAddr node : Word) (g : GuestHeap) : Option (Word × GuestHeap) :=
  let left := readWord g (node + 8)
  let right := readWord g (node + 16)
  if left = 0 then some (parentAddr, writeWord g parentAddr right)
  else if right = 0 then some (parentAddr, writeWord g parentAddr left)
  else
    -- the key of the next node moves here, and that node is taken out
    (succLoop g rounds (node + 16) right).map fun (succParentAddr, succ) =>
      let g := writeWord g node (readWord g succ)
      (node, writeWord g succParentAddr (readWord g (succ + 16)))

section

variable (call : GuestCall) (key rootp compar : Word)

def callCompar (key₁ key₂ : Word) (g : GuestHeap) : ℤ × GuestHeap :=
  let (result, g) := call compar [key₁, key₂] g
  (cmpResult result, g)

/-- The loop of `tfind`; `none` when it is not over after this many rounds. -/
def tfindLoop : ℕ → Word → GuestHeap → Option (Word × GuestHeap)
  | 0, _, _ => none
  | rounds + 1, root, g =>
    if root ≠ 0 then
      let nodeKey := readWord g root
      let (cmp, g) := callCompar call compar key nodeKey g
      if cmp = 0 then some (root, g)
      else if cmp < 0 then tfindLoop rounds (readWord g (root + 8) root) g
      else tfindLoop rounds (readWord g (root + 16) root) g
    else some (0, g)

def tfind (rounds : ℕ) (g : GuestHeap) : Option (Word × GuestHeap) :=
  if rootp = 0 then some (0, g) else tfindLoop call key compar rounds (readWord g rootp) g

def insertAt (slot : Word) (g : GuestHeap) : Word × GuestHeap :=
  let (g, newNode) := newNode key g
  (newNode, writeWord g slot newNode)

/-- The loop of `tsearch`. -/
def tsearchLoop : ℕ → Word → GuestHeap → Option (Word × GuestHeap)
  | 0, _, _ => none
  | rounds + 1, node, g =>
    if node ≠ 0 then
      let nodeKey := readWord g node
      let (cmp, g) := callCompar call compar key nodeKey g
      if cmp = 0 then some (node, g)
      else
        let child := if cmp < 0 then node + 8 else node + 16
        let next := readWord g child
        if next = 0 then some (insertAt key child g) else tsearchLoop rounds next g
    else some (0, g)

def tsearch (rounds : ℕ) (g : GuestHeap) : Option (Word × GuestHeap) :=
  if rootp = 0 then some (0, g)
  else
    let root := readWord g rootp
    if root = 0 then some (insertAt key rootp g) else tsearchLoop call key compar rounds root g

/-- The loop of `tdelete`. -/
def tdeleteLoop : ℕ → Word → Word → GuestHeap → Option (Word × GuestHeap)
  | 0, _, _, _ => none
  | rounds + 1, parentAddr, node, g =>
    if node ≠ 0 then
      let nodeKey := readWord g node
      let (cmp, g) := callCompar call compar key nodeKey g
      if cmp = 0 then unlink rounds parentAddr node g
      else if cmp < 0 then tdeleteLoop rounds (node + 8) (readWord g (node + 8) node) g
      else tdeleteLoop rounds (node + 16) (readWord g (node + 16) node) g
    else some (0, g)

def tdelete (rounds : ℕ) (g : GuestHeap) : Option (Word × GuestHeap) :=
  if rootp = 0 then some (0, g)
  else
    let root := readWord g rootp
    if root = 0 then some (0, g) else tdeleteLoop call key compar rounds rootp root g

end

/-! ### Words in memory -/

def poke (g : GuestHeap) (a v : Word) : GuestHeap :=
  ⟨⟨store g.mem.bytes a (leBytes 8 v.toNat), g.mem.mapped⟩, g.heap⟩

section

variable {g g' : GuestHeap} {a b v : Word}

lemma readWord_of_mapped (h : g.mem.Mapped a 8) : readWord g a v = g.wordAt a := by
  have hlen : (leBytes 8 v.toNat).length = 8 := length_leBytes ..
  unfold readWord GuestHeap.wordAt
  rw [GuestMemory.read_of_mapped (by rwa [hlen]), hlen]

lemma writeWord_of_mapped (h : g.mem.Mapped a 8) : writeWord g a v = poke g a v := by
  unfold writeWord poke
  rw [GuestMemory.write_of_mapped (by rwa [length_leBytes])]

@[simp] lemma wordAt_poke_self : (poke g a v).wordAt a = v := wordAt_store _ _ _ _

lemma bytes_poke_of_notMem {x : Word} (h : x ∉ block a 8) : (poke g a v).mem.bytes x = g.mem.bytes x :=
  store_of_notMem (by rwa [length_leBytes])

lemma wordAt_poke_of_disjoint (h : Disjoint (block b 8) (block a 8)) : (poke g a v).wordAt b = g.wordAt b :=
  wordAt_congr fun _ hx => bytes_poke_of_notMem (disjoint_left.1 h hx)

end

/-! ### Trees in memory -/

/-- Nodes with their addresses and keys. -/
abbrev NodeTree : Type := BinaryTree (Word × Word)

def area (ps : List Word) : Set Word := {x | ∃ p ∈ ps, x ∈ block p 24}

/-- **The tree that hangs at `slot`**: the address there is that of its root. -/
def TreeAt (g : GuestHeap) : Word → NodeTree → Prop
  | slot, .nil => g.wordAt slot = 0
  | slot, .node a l r =>
    g.wordAt slot = a.1 ∧ g.wordAt a.1 = a.2 ∧ TreeAt g (a.1 + 8) l ∧ TreeAt g (a.1 + 16) r

/-- The nodes are blocks of the heap, no two of them the same. -/
structure Nodes (h : HeapAllocator) (ps : List Word) : Prop where
  nodup : ps.Nodup
  live : ∀ p ∈ ps, ∃ m, (p, m) ∈ h.allocations.entries ∧ 24 ≤ m.toNat

section

variable {g g' : GuestHeap} {h h' : HeapAllocator} {a : Word × Word} {l r t : NodeTree}
variable {p slot : Word} {ps qs : List Word}

lemma area_append : area (ps ++ qs) = area ps ∪ area qs := by
  ext x
  simp [area, or_and_right, exists_or]

lemma area_cons : area (p :: ps) = block p 24 ∪ area ps := by
  ext x
  simp [area]

@[simp] lemma area_nil : area [] = ∅ := by
  ext x
  simp [area]

lemma area_mono (hsub : ps ⊆ qs) : area ps ⊆ area qs := fun _ ⟨p, hp, hx⟩ => ⟨p, hsub hp, hx⟩

lemma keyBlock_subset : block p 8 ⊆ block p 24 := block_mono (by decide)

lemma leftBlock_subset : block (p + 8) 8 ⊆ block p 24 := block_subset_block (by decide) (by decide)

lemma rightBlock_subset : block (p + 16) 8 ⊆ block p 24 := block_subset_block (by decide) (by decide)

lemma key_left_disjoint : Disjoint (block p 8) (block (p + 8) 8) := by
  have h := disjoint_parts (a := p) (i := 0) (n := 8) (j := 8) (l := 8) (by decide) (by decide)
  rwa [show p + BitVec.ofNat 64 0 = p by simp] at h

lemma key_right_disjoint : Disjoint (block p 8) (block (p + 16) 8) := by
  have h := disjoint_parts (a := p) (i := 0) (n := 8) (j := 16) (l := 8) (by decide) (by decide)
  rwa [show p + BitVec.ofNat 64 0 = p by simp] at h

lemma left_right_disjoint : Disjoint (block (p + 8) 8) (block (p + 16) 8) :=
  disjoint_parts (a := p) (i := 8) (n := 8) (j := 16) (l := 8) (by decide) (by decide)

lemma treeAt_congr (hs : ∀ x ∈ block slot 8, g'.mem.bytes x = g.mem.bytes x)
    (hb : ∀ x ∈ area (places t), g'.mem.bytes x = g.mem.bytes x) (ht : TreeAt g slot t) :
    TreeAt g' slot t := by
  induction t generalizing slot with
  | nil => exact (wordAt_congr hs).trans ht
  | node a l r hl hr =>
    obtain ⟨h1, h2, h3, h4⟩ := ht
    rw [places_node, area_append, area_cons] at hb
    have ha : ∀ x ∈ block a.1 24, g'.mem.bytes x = g.mem.bytes x := fun x hx => hb x (.inr (.inl hx))
    exact ⟨(wordAt_congr hs).trans h1,
      (wordAt_congr fun x hx => ha x (keyBlock_subset hx)).trans h2,
      hl (fun x hx => ha x (leftBlock_subset hx)) (fun x hx => hb x (.inl hx)) h3,
      hr (fun x hx => ha x (rightBlock_subset hx)) (fun x hx => hb x (.inr (.inr hx))) h4⟩

namespace Nodes

lemma mono (hn : Nodes h qs) (hsub : ps.Sublist qs) : Nodes h ps :=
  ⟨hn.nodup.sublist hsub, fun p hp => hn.live p (hsub.subset hp)⟩

lemma retains (hn : Nodes h ps) (hr : Retains h h') : Nodes h' ps :=
  ⟨hn.nodup, fun p hp => (hn.live p hp).imp fun _ hm => ⟨hr _ hm.1, hm.2⟩⟩

lemma area_subset_live (hn : Nodes h ps) (hi : h.Inv) : area ps ⊆ h.live := by
  rintro x ⟨p, hp, hx⟩
  obtain ⟨m, hm, hle⟩ := hn.live p hp
  exact hi.block_subset_live hm hle hx

lemma disjoint (hn : Nodes h (ps ++ qs)) (hi : h.Inv) : Disjoint (area ps) (area qs) := by
  rw [disjoint_left]
  rintro x ⟨p, hp, hxp⟩ ⟨q, hq, hxq⟩
  obtain ⟨m, hm, hlem⟩ := hn.live p (List.mem_append_left _ hp)
  obtain ⟨n, hn', hlen⟩ := hn.live q (List.mem_append_right _ hq)
  have hne : p ≠ q := fun he => List.disjoint_of_nodup_append hn.nodup hp (he ▸ hq)
  have h1 := hi.liveIn p m hm
  have h2 := hi.liveIn q n hn'
  have hap := disjoint_of_apart (a := p) (n := m.toNat) (b := q) (k := n.toNat) (by omega) (by omega)
    (hi.liveApart p m q n hm hn' hne)
  exact disjoint_left.1 hap (block_mono hlem hxp) (block_mono hlen hxq)

lemma bounds (hn : Nodes h ps) (hi : h.Inv) (hp : p ∈ ps) : 0 < p.toNat ∧ p.toNat + 24 < 2 ^ 63 := by
  obtain ⟨m, hm, hle⟩ := hn.live p hp
  have h1 := hi.liveIn p m hm
  have h2 := hi.hwmLe
  have h3 := hi.endLt
  have h4 := hi.basePos
  omega

end Nodes

end

/-! ### What is around a subtree -/

/-- `g'` comes from `g` by changes in `S`, in new blocks and in `scratch`. -/
structure Changes (scratch : Set Word) (g g' : GuestHeap) (S : Set Word) : Prop where
  ok : g'.Ok
  keeps : Keeps g.heap g'.heap
  retains : Retains g.heap g'.heap
  mapped : g'.mem.mapped = g.mem.mapped
  frame : ∀ x, x ∉ S → x ∉ g.heap.spare → x ∉ scratch → g'.mem.bytes x = g.mem.bytes x

/-- What a function of the guest may do: it writes to `scratch` and to blocks of its own, and frees no other. -/
abbrev Quiet (scratch : Set Word) (g g' : GuestHeap) : Prop := Changes scratch g g' ∅

/-- **The comparison function** orders the keys in `K` by their ranks, as long as the bytes in `data` are those of
`image`. -/
structure Orders {ρ : Type*} [LinearOrder ρ] (call : GuestCall) (compar : Word) (data scratch : Set Word) (image : Bytes)
    (K : Set Word) (rank : Word → ρ) : Prop where
  neg_iff : ∀ g k k', Set.EqOn g.mem.bytes image data → k ∈ K → k' ∈ K →
    ((callCompar call compar k k' g).1 < 0 ↔ rank k < rank k')
  zero_iff : ∀ g k k', Set.EqOn g.mem.bytes image data → k ∈ K → k' ∈ K →
    ((callCompar call compar k k' g).1 = 0 ↔ rank k = rank k')
  quiet : ∀ g k k', g.Ok → Quiet scratch g (callCompar call compar k k' g).2

/-- There is room for a node, before and after up to `n` comparisons. -/
def RoomAfter (call : GuestCall) (compar : Word) : ℕ → GuestHeap → Prop
  | 0, g => g.heap.HasRoom 24 8
  | n + 1, g => g.heap.HasRoom 24 8 ∧ ∀ k k', RoomAfter call compar n (callCompar call compar k k' g).2

/-- **A subtree in its place.**  All that the handlers write to is in `own`. -/
structure Sub (own : Set Word) (g : GuestHeap) (slot : Word) (t : NodeTree) : Prop where
  ok : g.Ok
  tree : TreeAt g slot t
  nodes : Nodes g.heap (places t)
  mapped : g.mem.Mapped slot 8
  apart : Disjoint (block slot 8) (area (places t))
  kept : Disjoint (block slot 8) g.heap.spare
  slot_subset : block slot 8 ⊆ own
  area_subset : area (places t) ⊆ own
  spare_subset : g.heap.spare ⊆ own

section

variable {own scratch S T : Set Word} {g g' g₁ : GuestHeap} {slot v : Word} {a : Word × Word}
variable {l r l' r' t : NodeTree}

lemma Changes.refl (hok : g.Ok) : Changes scratch g g S := ⟨hok, hok.inv.keeps, fun _ hb => hb, rfl, fun _ _ _ _ => rfl⟩

lemma Changes.trans (hq : Quiet scratch g g₁) (hc : Changes scratch g₁ g' S) : Changes scratch g g' S := by
  refine ⟨hc.ok, hq.keeps.trans hc.keeps, hq.retains.trans hc.retains, hc.mapped.trans hq.mapped, ?_⟩
  intro x hS hspare hx
  have hspare₁ : x ∉ g₁.heap.spare := fun h => hspare (hq.retains.spare hq.keeps h)
  exact (hc.frame x hS hspare₁ hx).trans (hq.frame x (notMem_empty x) hspare hx)

/-- A block that was granted after a function of the guest had run was not live before it either. -/
lemma Changes.grants_after (hq : Quiet scratch g g₁) {p : Word} {n : ℕ}
    (hg : Grants g₁.heap g'.heap p n) : Grants g.heap g'.heap p n :=
  { hg with
    keeps := hq.keeps.trans hg.keeps
    spare := hg.spare.trans (hq.retains.spare hq.keeps)
    isNew := fun m hm => hg.isNew m (hq.retains _ hm)
    retains := hq.retains.trans hg.retains }

lemma Changes.mono (hc : Changes scratch g g' S) (hsub : S ⊆ T) : Changes scratch g g' T :=
  { hc with frame := fun x hx => hc.frame x fun h => hx (hsub h) }

lemma changes_poke (hok : g.Ok) : Changes scratch g (poke g slot v) (block slot 8) :=
  ⟨hok.keeps rfl hok.inv.keeps, hok.inv.keeps, fun _ hb => hb, rfl, fun _ hx _ _ => bytes_poke_of_notMem hx⟩

lemma Changes.same (hc : Changes scratch g g' S) (ho : Disjoint own scratch) (hT : T ⊆ own)
    (hlive : Disjoint T g.heap.spare) (hS : Disjoint T S) : ∀ x ∈ T, g'.mem.bytes x = g.mem.bytes x := by
  intro x hx
  exact hc.frame x (disjoint_left.1 hS hx) (disjoint_left.1 hlive hx) (disjoint_left.1 ho (hT hx))

namespace Sub

lemma area_live (h : Sub own g slot t) : Disjoint (area (places t)) g.heap.spare :=
  disjoint_left.2 fun _ hx hy => hy.2 (h.nodes.area_subset_live h.ok.inv hx)

lemma of_changes (h : Sub own g slot t) (ho : Disjoint own scratch) (hc : Changes scratch g g' S)
    (hslot : Disjoint (block slot 8) S) (harea : Disjoint (area (places t)) S) : Sub own g' slot t where
  __ := h
  ok := hc.ok
  tree := treeAt_congr (hc.same ho h.slot_subset h.kept hslot) (hc.same ho h.area_subset h.area_live harea) h.tree
  nodes := h.nodes.retains hc.retains
  mapped := h.mapped.congr hc.mapped
  kept := h.kept.mono_right (hc.retains.spare hc.keeps)
  spare_subset := (hc.retains.spare hc.keeps).trans h.spare_subset

lemma quiet (h : Sub own g slot t) (ho : Disjoint own scratch) (hq : Quiet scratch g g') : Sub own g' slot t :=
  h.of_changes ho hq (disjoint_empty _) (disjoint_empty _)

lemma eqOn {data : Set Word} {image : Bytes} (h : Sub own g slot t)
    (hc : Changes scratch g g' (block slot 8 ∪ area (places t))) (hd : Disjoint data (own ∪ scratch))
    (hdata : Set.EqOn g.mem.bytes image data) : Set.EqOn g'.mem.bytes image data := by
  intro x hx
  have hown : x ∉ own := fun h => disjoint_left.1 hd hx (.inl h)
  rw [hc.frame x ?_ (fun hs => hown (h.spare_subset hs)) fun h => disjoint_left.1 hd hx (.inr h)]
  · exact hdata hx
  · rintro (hs | hs)
    · exact hown (h.slot_subset hs)
    · exact hown (h.area_subset hs)

/-! The root of the subtree. -/

lemma node_mem : a.1 ∈ places (.node a l r) := by simp

lemma block_subset_area : block a.1 24 ⊆ area (places (.node a l r)) := fun _ hx => ⟨a.1, node_mem, hx⟩

lemma area_eq : area (places (.node a l r)) =
    area (places l) ∪ (block a.1 24 ∪ area (places r)) := by
  rw [places_node, area_append, area_cons]

section

variable (h : Sub own g slot (.node a l r))
include h

lemma mapped_node : g.mem.Mapped a.1 24 :=
  h.ok.mapped_of_live (by decide) (block_subset_area.trans (h.nodes.area_subset_live h.ok.inv))

lemma root_ne_zero : a.1 ≠ 0 := by
  have := h.nodes.bounds h.ok.inv node_mem
  rintro he
  rw [he] at this
  exact absurd this.1 (by decide)

lemma apart_node :
    Disjoint (block a.1 24) (area (places l)) ∧ Disjoint (block a.1 24) (area (places r)) ∧
      Disjoint (area (places l)) (area (places r)) := by
  have hn := h.nodes
  rw [places_node] at hn
  have h1 := hn.disjoint h.ok.inv
  rw [area_cons, disjoint_union_right] at h1
  have h2 : Disjoint (area [a.1]) (area (places r)) :=
    (hn.mono (List.sublist_append_right _ _)).disjoint h.ok.inv
  rw [area_cons, area_nil, union_empty] at h2
  exact ⟨h1.1.symm, h2, h1.2⟩

lemma child {q : Word} (hq : ∃ i, q = a.1 + BitVec.ofNat 64 i ∧ i + 8 ≤ 24)
    (ht : TreeAt g q t) (hsub : (places t).Sublist (places (.node a l r)))
    (hap : Disjoint (block a.1 24) (area (places t))) : Sub own g q t := by
  obtain ⟨i, rfl, hi⟩ := hq
  have hb : block (a.1 + BitVec.ofNat 64 i) 8 ⊆ block a.1 24 := block_subset_block hi (by decide)
  exact ⟨h.ok, ht, h.nodes.mono hsub, h.mapped_node.part hi, hap.mono_left hb,
    h.area_live.mono_left (hb.trans block_subset_area), (hb.trans block_subset_area).trans h.area_subset,
    (area_mono hsub.subset).trans h.area_subset, h.spare_subset⟩

lemma left : Sub own g (a.1 + 8) l :=
  h.child ⟨8, rfl, by decide⟩ h.tree.2.2.1 (by simp) h.apart_node.1

lemma right : Sub own g (a.1 + 16) r :=
  h.child ⟨16, rfl, by decide⟩ h.tree.2.2.2
    (by rw [places_node]; exact (List.sublist_cons_self _ _).trans (List.sublist_append_right _ _))
    h.apart_node.2.1

lemma root_of_changes (ho : Disjoint own scratch) (hc : Changes scratch g g' S)
    (hslot : Disjoint (block slot 8) S) (hkey : Disjoint (block a.1 8) S) :
    g'.wordAt slot = a.1 ∧ g'.wordAt a.1 = a.2 := by
  have hb : block a.1 8 ⊆ area (places (.node a l r)) := keyBlock_subset.trans block_subset_area
  exact ⟨(wordAt_congr (hc.same ho h.slot_subset h.kept hslot)).trans h.tree.1,
    (wordAt_congr (hc.same ho (hb.trans h.area_subset) (h.area_live.mono_left hb) hkey)).trans h.tree.2.1⟩

lemma of_left (ho : Disjoint own scratch)
    (hc : Changes scratch g g' (block (a.1 + 8) 8 ∪ area (places l))) (ht : TreeAt g' (a.1 + 8) l') :
    TreeAt g' slot (.node a l' r) := by
  obtain ⟨hal, har, hlr⟩ := h.apart_node
  have hslot := h.apart
  rw [area_eq, disjoint_union_right, disjoint_union_right] at hslot
  have hroot := h.root_of_changes ho hc (disjoint_union_right.2 ⟨hslot.2.1.mono_right leftBlock_subset, hslot.1⟩)
    (disjoint_union_right.2 ⟨key_left_disjoint, hal.mono_left keyBlock_subset⟩)
  have hright : Sub own g' (a.1 + 16) r := by
    refine h.right.of_changes ho hc ?_ ?_
    · exact disjoint_union_right.2 ⟨left_right_disjoint.symm, hal.mono_left rightBlock_subset⟩
    · exact disjoint_union_right.2 ⟨(har.mono_left leftBlock_subset).symm, hlr.symm⟩
  exact ⟨hroot.1, hroot.2, ht, hright.tree⟩

lemma of_right (ho : Disjoint own scratch)
    (hc : Changes scratch g g' (block (a.1 + 16) 8 ∪ area (places r))) (ht : TreeAt g' (a.1 + 16) r') :
    TreeAt g' slot (.node a l r') := by
  obtain ⟨hal, har, hlr⟩ := h.apart_node
  have hslot := h.apart
  rw [area_eq, disjoint_union_right, disjoint_union_right] at hslot
  have hroot := h.root_of_changes ho hc (disjoint_union_right.2 ⟨hslot.2.1.mono_right rightBlock_subset, hslot.2.2⟩)
    (disjoint_union_right.2 ⟨key_right_disjoint, har.mono_left keyBlock_subset⟩)
  have hleft : Sub own g' (a.1 + 8) l := by
    refine h.left.of_changes ho hc ?_ ?_
    · exact disjoint_union_right.2 ⟨left_right_disjoint, har.mono_left leftBlock_subset⟩
    · exact disjoint_union_right.2 ⟨(hal.mono_left rightBlock_subset).symm, hlr⟩
  exact ⟨hroot.1, hroot.2, hleft.tree, ht⟩

lemma reads (v : Word) :
    readWord g a.1 v = a.2 ∧ readWord g (a.1 + 8) v = g.wordAt (a.1 + 8) ∧
      readWord g (a.1 + 16) v = g.wordAt (a.1 + 16) :=
  ⟨(readWord_of_mapped (h.mapped_node.mono (by decide))).trans h.tree.2.1,
    readWord_of_mapped (h.mapped_node.part (by decide)), readWord_of_mapped (h.mapped_node.part (by decide))⟩

end

lemma left_subset : block (a.1 + 8) 8 ∪ area (places l) ⊆
    block slot 8 ∪ area (places (.node a l r)) := by
  rw [area_eq]
  refine union_subset ?_ ?_
  · exact fun x hx => .inr (.inr (.inl (leftBlock_subset hx)))
  · exact fun x hx => .inr (.inl hx)

lemma right_subset : block (a.1 + 16) 8 ∪ area (places r) ⊆
    block slot 8 ∪ area (places (.node a l r)) := by
  rw [area_eq]
  refine union_subset ?_ ?_
  · exact fun x hx => .inr (.inr (.inl (rightBlock_subset hx)))
  · exact fun x hx => .inr (.inr (.inr hx))

end Sub

end

/-! ### What the handlers do -/

section

variable {ρ : Type*} [LinearOrder ρ] {call : GuestCall} {compar key k slot q node : Word}
  {data scratch own K : Set Word} {image : Bytes} {g g' : GuestHeap} {rounds : ℕ} {t l r : NodeTree}
  {a : Word × Word}
variable {rank : Word → ρ}

lemma newNode_spec (key : Word) (scratch : Set Word) (hok : g.Ok) (hroom : g.heap.HasRoom 24 8) :
    ∃ g' p, newNode key g = (g', p) ∧ Grants g.heap g'.heap p 24 ∧ Changes scratch g g' ∅ ∧
      g'.wordAt p = key ∧ g'.wordAt (p + 8) = 0 ∧ g'.wordAt (p + 16) = 0 := by
  have hg := grants_allocate (n := 24) hok.inv (by decide) hroom
  rw [newNode]
  generalize g.heap.allocate 24 8 = res at hg ⊢
  obtain ⟨heap, p⟩ := res
  have hmap : g.mem.Mapped p 24 := hok.mapped_of_grants hg
  have hw0 : writeWord ⟨g.mem, heap⟩ p key = poke ⟨g.mem, heap⟩ p key := writeWord_of_mapped (hmap.mono (by decide))
  have hw1 : writeWord (poke ⟨g.mem, heap⟩ p key) (p + 8) 0 = poke (poke ⟨g.mem, heap⟩ p key) (p + 8) 0 :=
    writeWord_of_mapped (GuestMemory.Mapped.part (i := 8) hmap (by decide))
  have hw2 : ∀ g₁ : GuestHeap, g₁.mem.mapped = g.mem.mapped → writeWord g₁ (p + 16) 0 = poke g₁ (p + 16) 0 := by
    intro g₁ h
    exact writeWord_of_mapped (GuestMemory.Mapped.part (i := 16) (hmap.congr h) (by decide))
  refine ⟨_, _, rfl, ?_, ?_, ?_, ?_, ?_⟩
  all_goals simp only [hw0, hw1, hw2 (poke (poke ⟨g.mem, heap⟩ p key) (p + 8) 0) rfl]
  · exact hg
  · refine ⟨hok.keeps rfl hg.keeps, hg.keeps, hg.retains, rfl, ?_⟩
    intro x _ hspare _
    have hx : x ∉ block p 24 := fun h => hspare (hg.spare h)
    rw [bytes_poke_of_notMem fun h => hx (rightBlock_subset h), bytes_poke_of_notMem fun h => hx (leftBlock_subset h),
      bytes_poke_of_notMem fun h => hx (keyBlock_subset h)]
  · rw [wordAt_poke_of_disjoint key_right_disjoint, wordAt_poke_of_disjoint key_left_disjoint, wordAt_poke_self]
  · rw [wordAt_poke_of_disjoint left_right_disjoint, wordAt_poke_self]
  · rw [wordAt_poke_self]

lemma insertAt_spec (key : Word) (ho : Disjoint own scratch) (hs : Sub own g slot .nil) (hroom : g.heap.HasRoom 24 8) :
    ∃ g' p, insertAt key slot g = (p, g') ∧ Grants g.heap g'.heap p 24 ∧
      Changes scratch g g' (block slot 8) ∧ TreeAt g' slot (.node (p, key) .nil .nil) := by
  obtain ⟨g₁, p, hnew, hg, hc, hkey, hleft, hright⟩ := newNode_spec key scratch hs.ok hroom
  have hs₁ := hs.of_changes ho hc (disjoint_empty _) (disjoint_empty _)
  have hapart : Disjoint (block p 24) (block slot 8) := (hs.kept.mono_right hg.spare).symm
  refine ⟨poke g₁ slot p, p, ?_, hg, ?_, ?_⟩
  · rw [insertAt, hnew]
    show (p, writeWord g₁ slot p) = _
    rw [writeWord_of_mapped hs₁.mapped]
  · refine ⟨hc.ok.keeps rfl hc.ok.inv.keeps, hc.keeps, hc.retains, hc.mapped, ?_⟩
    intro x hx hspare hscratch
    rw [bytes_poke_of_notMem hx]
    exact hc.frame x (notMem_empty x) hspare hscratch
  · refine ⟨wordAt_poke_self, ?_, ?_, ?_⟩
    · exact (wordAt_poke_of_disjoint (hapart.mono_left keyBlock_subset)).trans hkey
    · exact (wordAt_poke_of_disjoint (hapart.mono_left leftBlock_subset)).trans hleft
    · exact (wordAt_poke_of_disjoint (hapart.mono_left rightBlock_subset)).trans hright

lemma treeAt_move (ht : TreeAt g q t) (hw : g'.wordAt slot = g.wordAt q)
    (hb : ∀ x ∈ area (places t), g'.mem.bytes x = g.mem.bytes x) : TreeAt g' slot t := by
  cases t with
  | nil => exact hw.trans ht
  | node a l r =>
    obtain ⟨h1, h2, h3, h4⟩ := ht
    rw [Sub.area_eq] at hb
    have ha : ∀ x ∈ block a.1 24, g'.mem.bytes x = g.mem.bytes x := fun x hx => hb x (.inr (.inl hx))
    exact ⟨hw.trans h1, (wordAt_congr fun x hx => ha x (keyBlock_subset hx)).trans h2,
      treeAt_congr (fun x hx => ha x (leftBlock_subset hx)) (fun x hx => hb x (.inl hx)) h3,
      treeAt_congr (fun x hx => ha x (rightBlock_subset hx)) (fun x hx => hb x (.inr (.inr hx))) h4⟩

lemma Sub.lift (hs : Sub own g slot (.node a l r)) (ht : TreeAt g q t)
    (hsub : area (places t) ⊆ area (places (.node a l r))) :
    TreeAt (poke g slot (g.wordAt q)) slot t := by
  refine treeAt_move ht wordAt_poke_self ?_
  intro x hx
  exact bytes_poke_of_notMem fun h => disjoint_left.1 hs.apart h (hsub hx)

lemma RoomAfter.hasRoom {n : ℕ} (h : RoomAfter call compar n g) : g.heap.HasRoom 24 8 := by
  cases n with
  | zero => exact h
  | succ n => exact h.1

lemma exists_round {m : ℕ} (h : m < rounds) : ∃ n, rounds = n + 1 := ⟨rounds - 1, by omega⟩

/-- One round for the root, and the others for a child. -/
lemma rounds_node {P : ℕ → Prop} (c : ℕ) (h : ∀ n, l.height + c ≤ n → r.height + c ≤ n → P (n + 1)) :
    ∀ rounds, max l.height r.height + 1 + c ≤ rounds → P rounds := by
  intro rounds hrounds
  obtain ⟨n, rfl⟩ : ∃ n, rounds = n + 1 := ⟨rounds - 1, by omega⟩
  exact h n (by omega) (by omega)

/-- **The next node**: `succLoop` comes to the first node of the subtree, and to where its address is. -/
lemma succLoop_spec (l : NodeTree) :
    ∀ {a : Word × Word} {r : NodeTree} {slot : Word} {g : GuestHeap}, Sub own g slot (.node a l r) →
      ∃ q, (∀ rounds, l.height < rounds → succLoop g rounds slot a.1 = some (q, (popMin l a r).1.1)) ∧
        g.mem.Mapped q 8 ∧ block q 8 ⊆ block slot 8 ∪ area (places (.node a l r)) ∧
        (popMin l a r).1.1 ∈ places (.node a l r) ∧
        g.wordAt (popMin l a r).1.1 = (popMin l a r).1.2 ∧
        TreeAt (poke g q (g.wordAt ((popMin l a r).1.1 + 16))) slot (popMin l a r).2 := by
  induction l with
  | nil =>
    intro a r slot g hs
    have hleft : readWord g (a.1 + 8) = 0 := (hs.reads 0).2.1.trans hs.left.tree
    refine ⟨slot, ?_, hs.mapped, subset_union_left, Sub.node_mem, hs.tree.2.1, ?_⟩
    · intro rounds hrounds
      obtain ⟨n, rfl⟩ := exists_round hrounds
      rw [succLoop, hleft, if_neg (by simp)]
      rfl
    · refine hs.lift hs.right.tree ?_
      rw [Sub.area_eq]
      exact fun x hx => .inr (.inr hx)
  | node b l' r' ih _ =>
    intro a r slot g hs
    have hleft : readWord g (a.1 + 8) = b.1 := (hs.reads 0).2.1.trans hs.left.tree.1
    obtain ⟨q, hloop, hmap, hq, hmem, hword, htree⟩ := ih hs.left
    refine ⟨q, ?_, hmap, hq.trans Sub.left_subset, ?_, hword, ?_⟩
    · refine rounds_node 1 fun n hn _ => ?_
      rw [succLoop, hleft, if_pos hs.left.root_ne_zero]
      exact hloop n hn
    · rw [places_node]
      exact List.mem_append_left _ hmem
    · exact hs.of_left (disjoint_empty own) ((changes_poke hs.ok).mono hq) htree

lemma bytes_poke_poke {p v x : Word} (hx : x ∉ block p 8) :
    (poke (poke g p k) q v).mem.bytes x = (poke g q v).mem.bytes x := by
  show (leBytes 8 v.toNat).getD _ ((poke g p k).mem.bytes x) = (leBytes 8 v.toNat).getD _ (g.mem.bytes x)
  rw [bytes_poke_of_notMem hx]

lemma treeAt_rekey (ht : TreeAt g slot (.node a l r)) (hb : ∀ x, x ∉ block a.1 8 → g'.mem.bytes x = g.mem.bytes x)
    (hk : g'.wordAt a.1 = k) (hslot : Disjoint (block slot 8) (block a.1 8))
    (hl : Disjoint (area (places l)) (block a.1 8))
    (hr : Disjoint (area (places r)) (block a.1 8)) : TreeAt g' slot (.node (a.1, k) l r) := by
  have hout : ∀ {T : Set Word}, Disjoint T (block a.1 8) → ∀ x ∈ T, g'.mem.bytes x = g.mem.bytes x :=
    fun h x hx => hb x (disjoint_left.1 h hx)
  exact ⟨(wordAt_congr (hout hslot)).trans ht.1, hk,
    treeAt_congr (hout key_left_disjoint.symm) (hout hl) ht.2.2.1,
    treeAt_congr (hout key_right_disjoint.symm) (hout hr) ht.2.2.2⟩

lemma unlink_spec (hs : Sub own g slot (.node a l r)) (hslot : slot ≠ 0) :
    ∃ x0 g', (∀ rounds, r.height ≤ rounds → unlink rounds slot a.1 g = some (x0, g')) ∧ x0 ≠ 0 ∧
      Changes scratch g g' (block slot 8 ∪ area (places (.node a l r))) ∧
      TreeAt g' slot (removeRoot a l r) := by
  obtain ⟨-, hreadl, hreadr⟩ := hs.reads 0
  cases l with
  | nil =>
    refine ⟨slot, poke g slot (g.wordAt (a.1 + 16)), ?_, hslot, (changes_poke hs.ok).mono subset_union_left, ?_⟩
    · intro rounds _
      rw [unlink, hreadl, hreadr, if_pos (show g.wordAt (a.1 + 8) = 0 from hs.left.tree), writeWord_of_mapped hs.mapped]
    · refine hs.lift hs.right.tree ?_
      rw [Sub.area_eq]
      exact fun x hx => .inr (.inr hx)
  | node b l₁ r₁ =>
    have hl : g.wordAt (a.1 + 8) ≠ 0 := by
      rw [hs.left.tree.1]
      exact hs.left.root_ne_zero
    cases r with
    | nil =>
      refine ⟨slot, poke g slot (g.wordAt (a.1 + 8)), ?_, hslot, (changes_poke hs.ok).mono subset_union_left, ?_⟩
      · intro rounds _
        rw [unlink, hreadl, hreadr, if_neg hl, if_pos (show g.wordAt (a.1 + 16) = 0 from hs.right.tree),
          writeWord_of_mapped hs.mapped]
      · refine hs.lift hs.left.tree ?_
        rw [Sub.area_eq]
        exact subset_union_left
    | node b' l' r' =>
      obtain ⟨q, hloop, hmap, hq, hmem, hword, htree⟩ := succLoop_spec l' hs.right
      set s := (popMin l' b' r').1.1 with hsdef
      set k := (popMin l' b' r').1.2 with hkdef
      obtain ⟨hal, har, -⟩ := hs.apart_node
      have hslotArea := hs.apart
      have hsarea : block s 24 ⊆ area (places (.node b' l' r')) := fun x hx => ⟨s, hmem, hx⟩
      have hsmap : g.mem.Mapped s 24 :=
        hs.ok.mapped_of_live (by decide) (hsarea.trans (hs.right.nodes.area_subset_live hs.ok.inv))
      have hqa : Disjoint (block a.1 8) (block q 8) := by
        refine Disjoint.mono_right hq (disjoint_union_right.2 ⟨key_right_disjoint, ?_⟩)
        exact har.mono_left keyBlock_subset
      have hkey : readWord g s = k := (readWord_of_mapped (hsmap.mono (by decide))).trans hword
      have hsright : readWord (poke g a.1 k) (s + 16) = g.wordAt (s + 16) := by
        have hmap16 : (poke g a.1 k).mem.Mapped (s + 16) 8 := GuestMemory.Mapped.part (i := 16) hsmap (by decide)
        refine (readWord_of_mapped hmap16).trans (wordAt_poke_of_disjoint ?_)
        exact (har.mono keyBlock_subset (rightBlock_subset.trans hsarea)).symm
      refine ⟨a.1, poke (poke g a.1 k) q (g.wordAt (s + 16)), ?_, hs.root_ne_zero, ?_, ?_⟩
      · intro rounds hrounds
        rw [BinaryTree.height] at hrounds
        rw [unlink, hreadl, hreadr, hs.right.tree.1, if_neg hl, if_neg hs.right.root_ne_zero, hloop rounds (by omega)]
        show some (a.1, writeWord (writeWord g a.1 (readWord g s)) q
          (readWord (writeWord g a.1 (readWord g s)) (s + 16))) = _
        have hmapa : g.mem.Mapped a.1 8 := hs.mapped_node.mono (by decide)
        have hmapq : (poke g a.1 k).mem.Mapped q 8 := hmap
        rw [hkey, writeWord_of_mapped hmapa, hsright, writeWord_of_mapped hmapq]
      · refine ⟨hs.ok.keeps rfl hs.ok.inv.keeps, hs.ok.inv.keeps, fun _ hb => hb, rfl, ?_⟩
        intro x hx _ _
        rw [bytes_poke_of_notMem fun h => hx (Sub.right_subset (hq h)),
          bytes_poke_of_notMem fun h => hx (.inr (Sub.block_subset_area (keyBlock_subset h)))]
      · have hmoved : TreeAt (poke g q (g.wordAt (s + 16))) slot
            (.node a (.node b l₁ r₁) (popMin l' b' r').2) :=
          hs.of_right (disjoint_empty own) ((changes_poke hs.ok).mono hq) htree
        have hrest : area (places (popMin l' b' r').2) ⊆
            area (places (.node b' l' r')) := by
          apply area_mono
          unfold places
          rw [nodes_popMin l' b' r', List.map_cons]
          exact List.subset_cons_self _ _
        refine treeAt_rekey hmoved (fun x hx => bytes_poke_poke hx) ?_ ?_ ?_ ?_
        · rw [wordAt_poke_of_disjoint hqa, wordAt_poke_self]
        · exact hslotArea.mono_right (keyBlock_subset.trans Sub.block_subset_area)
        · exact (hal.mono_left keyBlock_subset).symm
        · exact (har.mono keyBlock_subset hrest).symm

/-- `tsearch` from an address where a subtree hangs. -/
def tsearchFrom (call : GuestCall) (key compar : Word) (rounds : ℕ) (slot : Word) (g : GuestHeap) :
    Option (Word × GuestHeap) :=
  let next := readWord g slot
  if next = 0 then some (insertAt key slot g) else tsearchLoop call key compar rounds next g

variable (hord : Orders call compar data scratch image K rank) (ho : Disjoint own scratch)
variable (hd : Disjoint data (own ∪ scratch)) (hkey : key ∈ K)

include hord ho hd hkey

lemma compare_spec (hs : Sub own g slot (.node a l r)) (hdata : Set.EqOn g.mem.bytes image data)
    (hkeys : ∀ k ∈ keys (.node a l r), k ∈ K) :
    ∃ cmp g', callCompar call compar key a.2 g = (cmp, g') ∧ (cmp < 0 ↔ rank key < rank a.2) ∧
      (cmp = 0 ↔ rank key = rank a.2) ∧ Quiet scratch g g' ∧ Sub own g' slot (.node a l r) ∧
      Set.EqOn g'.mem.bytes image data := by
  have hq := hord.quiet g key a.2 hs.ok
  have ha : a.2 ∈ K := hkeys a.2 (by simp)
  exact ⟨_, _, rfl, hord.neg_iff g key a.2 hdata hkey ha, hord.zero_iff g key a.2 hdata hkey ha, hq, hs.quiet ho hq,
    hs.eqOn (hq.mono (empty_subset _)) hd hdata⟩

lemma tfindLoop_spec (t : NodeTree) :
    ∀ {slot : Word} {g : GuestHeap}, Sub own g slot t → Set.EqOn g.mem.bytes image data →
      (∀ k ∈ keys t, k ∈ K) →
      ∃ g', (∀ rounds, t.height < rounds → tfindLoop call key compar rounds (g.wordAt slot) g =
        some ((find rank (rank key) t).getD 0, g')) ∧ Quiet scratch g g' := by
  induction t with
  | nil =>
    intro slot g hs _ _
    refine ⟨g, ?_, .refl hs.ok⟩
    intro rounds hrounds
    obtain ⟨n, rfl⟩ := exists_round hrounds
    rw [show g.wordAt slot = 0 from hs.tree, tfindLoop, if_neg (by simp)]
    rfl
  | node a l r hl hr =>
    intro slot g hs hdata hkeys
    obtain ⟨cmp, g₁, hcall, hneg, hzero, hq, hs₁, hdata₁⟩ := compare_spec hord ho hd hkey hs hdata hkeys
    obtain ⟨-, hreadl, hreadr⟩ := hs₁.reads a.1
    have hstep : ∀ n, tfindLoop call key compar (n + 1) (g.wordAt slot) g =
        if rank key = rank a.2 then some (a.1, g₁)
        else if rank key < rank a.2 then tfindLoop call key compar n (g₁.wordAt (a.1 + 8)) g₁
        else tfindLoop call key compar n (g₁.wordAt (a.1 + 16)) g₁ := by
      intro n
      rw [hs.tree.1, tfindLoop, if_pos hs.root_ne_zero]
      simp only [(hs.reads 0).1, hcall, hneg, hzero, hreadl, hreadr]
    rw [find]
    split_ifs with heq hlt
    · refine ⟨g₁, rounds_node 1 fun n _ _ => ?_, hq⟩
      rw [hstep, if_pos heq]
      rfl
    · obtain ⟨g', hrun, hq'⟩ := hl hs₁.left hdata₁ fun k hk => hkeys k (by simp [hk])
      refine ⟨g', rounds_node 1 fun n hn _ => ?_, hq.trans hq'⟩
      rw [hstep, if_neg heq, if_pos hlt, hrun n hn]
    · obtain ⟨g', hrun, hq'⟩ := hr hs₁.right hdata₁ fun k hk => hkeys k (by simp [hk])
      refine ⟨g', rounds_node 1 fun n _ hn => ?_, hq.trans hq'⟩
      rw [hstep, if_neg heq, if_neg hlt, hrun n hn]

lemma tsearchFrom_spec (t : NodeTree) :
    ∀ {slot : Word} {g : GuestHeap}, Sub own g slot t → Set.EqOn g.mem.bytes image data →
      (∀ k ∈ keys t, k ∈ K) → ∀ {n}, t.height ≤ n → RoomAfter call compar n g →
      ∃ g' p, (∀ rounds, t.height ≤ rounds → tsearchFrom call key compar rounds slot g = some (p, g')) ∧
        Changes scratch g g' (block slot 8 ∪ area (places t)) ∧
        TreeAt g' slot (insert rank p key t) ∧
        (find rank (rank key) t = some p ∨
          find rank (rank key) t = none ∧ Grants g.heap g'.heap p 24) := by
  induction t with
  | nil =>
    intro slot g hs _ _ n _ hroom
    obtain ⟨g', p, hins, hg, hc, ht⟩ := insertAt_spec key ho hs hroom.hasRoom
    refine ⟨g', p, fun rounds _ => ?_, hc.mono (subset_union_left), ht, .inr ⟨rfl, hg⟩⟩
    have hnil : readWord g slot = 0 := (readWord_of_mapped hs.mapped).trans hs.tree
    rw [tsearchFrom, hnil, if_pos rfl, hins]
  | node a l r hl hr =>
    intro slot g hs hdata hkeys n hn hroom
    obtain ⟨cmp, g₁, hcall, hneg, hzero, hq, hs₁, hdata₁⟩ := compare_spec hord ho hd hkey hs hdata hkeys
    rw [BinaryTree.height] at hn
    obtain ⟨n, rfl⟩ := exists_round hn
    have hroom₁ : RoomAfter call compar n g₁ := by
      have h := hroom.2 key a.2
      rwa [hcall] at h
    have hroot : readWord g slot = a.1 := (readWord_of_mapped hs.mapped).trans hs.tree.1
    have hstep : ∀ n, tsearchFrom call key compar (n + 1) slot g =
        if rank key = rank a.2 then some (a.1, g₁)
        else tsearchFrom call key compar n (if rank key < rank a.2 then a.1 + 8 else a.1 + 16) g₁ := by
      intro n
      rw [tsearchFrom, hroot, if_neg hs.root_ne_zero, tsearchLoop, if_pos hs.root_ne_zero]
      simp only [(hs.reads 0).1, hcall, hneg, hzero]
      rfl
    rw [find]
    split_ifs with heq hlt
    · refine ⟨g₁, a.1, rounds_node 0 fun n _ _ => ?_, hq.mono (empty_subset _), ?_, .inl rfl⟩
      · rw [hstep, if_pos heq]
      · rw [SearchTree.insert, if_pos heq]
        exact hs₁.tree
    · obtain ⟨g', p, hrun, hc, ht, hfind⟩ := hl hs₁.left hdata₁ (fun k hk => hkeys k (by simp [hk])) (by omega) hroom₁
      refine ⟨g', p, rounds_node 0 fun n hn _ => ?_, hq.trans (hc.mono Sub.left_subset), ?_,
        hfind.imp_right (And.imp_right hq.grants_after)⟩
      · rw [hstep, if_neg heq, if_pos hlt, hrun n hn]
      · rw [SearchTree.insert, if_neg heq, if_pos hlt]
        exact hs₁.of_left ho hc ht
    · obtain ⟨g', p, hrun, hc, ht, hfind⟩ := hr hs₁.right hdata₁ (fun k hk => hkeys k (by simp [hk])) (by omega) hroom₁
      refine ⟨g', p, rounds_node 0 fun n _ hn => ?_, hq.trans (hc.mono Sub.right_subset), ?_,
        hfind.imp_right (And.imp_right hq.grants_after)⟩
      · rw [hstep, if_neg heq, if_neg hlt, hrun n hn]
      · rw [SearchTree.insert, if_neg heq, if_neg hlt]
        exact hs₁.of_right ho hc ht

lemma tdeleteLoop_spec (t : NodeTree) :
    ∀ {slot : Word} {g : GuestHeap}, Sub own g slot t → slot ≠ 0 → Set.EqOn g.mem.bytes image data →
      (∀ k ∈ keys t, k ∈ K) →
      ∃ x0 g', (∀ rounds, t.height < rounds →
          tdeleteLoop call key compar rounds slot (g.wordAt slot) g = some (x0, g')) ∧
        (x0 = 0 ↔ find rank (rank key) t = none) ∧
        Changes scratch g g' (block slot 8 ∪ area (places t)) ∧
        TreeAt g' slot (erase rank (rank key) t) := by
  induction t with
  | nil =>
    intro slot g hs _ _ _
    have hnil : g.wordAt slot = 0 := hs.tree
    refine ⟨0, g, fun rounds hrounds => ?_, ⟨fun _ => rfl, fun _ => rfl⟩, .refl hs.ok, hnil⟩
    obtain ⟨n, rfl⟩ := exists_round hrounds
    rw [hnil, tdeleteLoop, if_neg (by simp)]
  | node a l r hl hr =>
    intro slot g hs hslot hdata hkeys
    obtain ⟨cmp, g₁, hcall, hneg, hzero, hq, hs₁, hdata₁⟩ := compare_spec hord ho hd hkey hs hdata hkeys
    obtain ⟨-, hreadl, hreadr⟩ := hs₁.reads a.1
    have hbounds := hs.nodes.bounds hs.ok.inv Sub.node_mem
    have hstep : ∀ n, tdeleteLoop call key compar (n + 1) slot (g.wordAt slot) g =
        if rank key = rank a.2 then unlink n slot a.1 g₁
        else if rank key < rank a.2 then tdeleteLoop call key compar n (a.1 + 8) (g₁.wordAt (a.1 + 8)) g₁
        else tdeleteLoop call key compar n (a.1 + 16) (g₁.wordAt (a.1 + 16)) g₁ := by
      intro n
      rw [hs.tree.1, tdeleteLoop, if_pos hs.root_ne_zero]
      simp only [(hs.reads 0).1, hcall, hneg, hzero, hreadl, hreadr]
    rw [find, erase]
    split_ifs with heq hlt
    · obtain ⟨x0, g', hrun, hx0, hc, ht⟩ := unlink_spec hs₁ hslot
      refine ⟨x0, g', rounds_node 1 fun n _ hn => ?_, ⟨fun h => absurd h hx0, fun h => by cases h⟩, hq.trans hc, ht⟩
      rw [hstep, if_pos heq, hrun n (by omega)]
    · obtain ⟨x0, g', hrun, hx0, hc, ht⟩ := hl hs₁.left (by bv_omega) hdata₁ fun k hk => hkeys k (by simp [hk])
      refine ⟨x0, g', rounds_node 1 fun n hn _ => ?_, hx0, hq.trans (hc.mono Sub.left_subset), hs₁.of_left ho hc ht⟩
      rw [hstep, if_neg heq, if_pos hlt, hrun n hn]
    · obtain ⟨x0, g', hrun, hx0, hc, ht⟩ := hr hs₁.right (by bv_omega) hdata₁ fun k hk => hkeys k (by simp [hk])
      refine ⟨x0, g', rounds_node 1 fun n _ hn => ?_, hx0, hq.trans (hc.mono Sub.right_subset), hs₁.of_right ho hc ht⟩
      rw [hstep, if_neg heq, if_neg hlt, hrun n hn]

end

end CrossShim.Search
