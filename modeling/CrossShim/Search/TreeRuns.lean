import CrossShim.Search.Tree

/-!
# Calls on one tree

A guest calls `tsearch`, `tfind` and `tdelete` on one root variable.  Beside its memory, the keys that a set would have
after the same calls are recorded.  `reach_searchTree`: in every state of a run the nodes are a search tree with these
keys, and every further call returns what it returns on the set.
-/

namespace CrossShim.Search

open Lib Memory SearchTree List Set HeapAllocator

/-! ### Calls -/

inductive TreeOp where
  | tsearch
  | tfind
  | tdelete
  deriving DecidableEq

structure TreeCall where
  op : TreeOp
  key : Word

open TreeCall

def TreeCall.exec (c : TreeCall) (call : GuestCall) (rootp compar : Word) (g : GuestHeap) (rounds : ℕ) :
    Option (Word × GuestHeap) :=
  match c.op with
  | .tsearch => tsearch call c.key rootp compar rounds g
  | .tfind => tfind call c.key rootp compar rounds g
  | .tdelete => tdelete call c.key rootp compar rounds g

def Returns {α : Type*} (run : ℕ → Option α) (x : α) : Prop := ∃ n, ∀ rounds, n ≤ rounds → run rounds = some x

lemma Returns.unique {α : Type*} {run : ℕ → Option α} {x y : α} (hx : Returns run x) (hy : Returns run y) : x = y := by
  obtain ⟨n, hn⟩ := hx
  obtain ⟨m, hm⟩ := hy
  have h := hn (max n m) (le_max_left n m)
  rw [hm (max n m) (le_max_right n m)] at h
  exact (Option.some.inj h).symm

section

variable {ρ : Type*} [LinearOrder ρ] (rank : Word → ρ)

/-- The keys that a set has after the call: equal keys are of the same rank. -/
def TreeCall.keysAfter (c : TreeCall) (keys : Set Word) : Set Word :=
  match c.op with
  | .tsearch => {k | k ∈ keys ∨ k = c.key ∧ ∀ k' ∈ keys, rank k' ≠ rank c.key}
  | .tfind => keys
  | .tdelete => {k | k ∈ keys ∧ rank k ≠ rank c.key}

/-- The memory of the guest, and the keys that its set would have. -/
structure Session where
  g : GuestHeap
  keys : Set Word

/-- Calls one after the other, from an empty tree. -/
def treeSystem (call : GuestCall) (rootp compar : Word) (g₀ : GuestHeap) : System Session TreeCall where
  init s := s = ⟨g₀, ∅⟩
  step s c s' := (∃ x0, Returns (c.exec call rootp compar s.g) (x0, s'.g)) ∧ s'.keys = c.keysAfter rank s.keys

/-- The comparison function knows the key, and there is room for a node however many of the keys it is compared to. -/
def Serves (call : GuestCall) (compar : Word) (K : Set Word) (s : Session) (c : TreeCall) : Prop :=
  c.key ∈ K ∧ (c.op = .tsearch → RoomAfter call compar s.keys.ncard s.g)

/-- **A search tree without shared nodes**, with these keys. -/
structure IsSearchTree (g : GuestHeap) (rootp : Word) (keys : Set Word) (t : NodeTree) : Prop where
  tree : TreeAt g rootp t
  apart : (SearchTree.places t).Pairwise fun p q => Disjoint (block p 24) (block q 24)
  ordered : SearchTree.Ordered rank t
  keys_eq : {k | k ∈ SearchTree.keys t} = keys

def HoldsEqual (t : NodeTree) (key p : Word) : Prop := ∃ k, (p, k) ∈ SearchTree.nodes t ∧ rank k = rank key

/-- **What a call returns**, from the keys that there were and the tree that there is. -/
def TreeCall.Answers (c : TreeCall) (keys : Set Word) (t : NodeTree) (x0 : Word) : Prop :=
  match c.op with
  | .tsearch => HoldsEqual rank t c.key x0
  | .tfind => HoldsEqual rank t c.key x0 ∨ x0 = 0 ∧ ∀ k ∈ keys, rank k ≠ rank c.key
  | .tdelete => x0 = 0 ↔ ∀ k ∈ keys, rank k ≠ rank c.key

/-- What the handlers write to: the root variable, and what was not live. -/
def ownOf (g₀ : GuestHeap) (rootp : Word) : Set Word := block rootp 8 ∪ g₀.heap.spare

/-- **The guest before the first call**: an empty tree, and a comparison function that orders the keys in `K`. -/
structure Start (call : GuestCall) (rootp compar : Word) (g₀ : GuestHeap) (data scratch K : Set Word) : Prop where
  ok : g₀.Ok
  ne_zero : rootp ≠ 0
  mapped : g₀.mem.Mapped rootp 8
  kept : Disjoint (block rootp 8) g₀.heap.spare
  empty : g₀.wordAt rootp = 0
  orders : Orders call compar data scratch g₀.mem.bytes K rank
  scratch_apart : Disjoint (ownOf g₀ rootp) scratch
  data_apart : Disjoint data (ownOf g₀ rootp ∪ scratch)

end

/-! ### One call -/

section

variable {ρ : Type*} [LinearOrder ρ] {rank : Word → ρ} {call : GuestCall} {rootp compar : Word} {g₀ : GuestHeap}
variable {data scratch own K : Set Word} {image : Bytes}

/-- **What holds between calls.** -/
structure TreeInv (rank : Word → ρ) (rootp : Word) (own data K : Set Word) (image : Bytes) (s : Session)
    (t : NodeTree) : Prop where
  sub : Sub own s.g rootp t
  data : Set.EqOn s.g.mem.bytes image data
  ordered : SearchTree.Ordered rank t
  keys_iff : ∀ k, k ∈ SearchTree.keys t ↔ k ∈ s.keys
  known : s.keys ⊆ K

structure Served (rank : Word → ρ) (call : GuestCall) (rootp compar : Word) (own data K : Set Word) (image : Bytes)
    (s : Session) (c : TreeCall) (x0 : Word) (g' : GuestHeap) (t' : NodeTree) : Prop where
  returns : Returns (c.exec call rootp compar s.g) (x0, g')
  inv : TreeInv rank rootp own data K image ⟨g', c.keysAfter rank s.keys⟩ t'
  answers : c.Answers rank s.keys t' x0

lemma Nodes.pairwise {h : HeapAllocator} (hi : h.Inv) : ∀ {ps : List Word}, Nodes h ps →
    ps.Pairwise fun p q => Disjoint (block p 24) (block q 24)
  | [], _ => .nil
  | p :: ps, hn => by
    have hn' : Nodes h ([p] ++ ps) := hn
    have hp : Disjoint (area [p]) (area ps) := hn'.disjoint hi
    rw [area_cons, area_nil, union_empty] at hp
    have hps : Nodes h ps := hn.mono (sublist_cons_self _ _)
    refine pairwise_cons.2 ⟨?_, Nodes.pairwise hi hps⟩
    intro q hq
    have hq' : block q 24 ⊆ area ps := fun x hx => ⟨q, hq, hx⟩
    exact hp.mono_right hq'

namespace TreeInv

variable {s : Session} {t t' : NodeTree} {g' : GuestHeap}

section

variable (hinv : TreeInv rank rootp own data K image s t)
include hinv

lemma find_none_iff (key : Word) : find rank (rank key) t = none ↔ ∀ k ∈ s.keys, rank k ≠ rank key := by
  rw [find_eq_none_iff hinv.ordered]
  simp only [hinv.keys_iff]

lemma known_keys : ∀ k ∈ keys t, k ∈ K := fun k hk => hinv.known ((hinv.keys_iff k).1 hk)

lemma height_le : t.height ≤ s.keys.ncard := by
  have hnodup : (keys t).Nodup := hinv.ordered.imp fun h => ne_of_apply_ne rank h.ne
  have hkeys : s.keys = (keys t).toFinset := by
    ext k
    simp [hinv.keys_iff]
  rw [hkeys, ncard_coe_finset, toFinset_card_of_nodup hnodup, ← numNodes_eq_length_keys]
  exact t.height_le_numNodes

lemma sub_of_changes (hc : Changes scratch s.g g' (block rootp 8 ∪ area (places t)))
    (ht : TreeAt g' rootp t') (hn : Nodes g'.heap (places t'))
    (harea : area (places t') ⊆ area (places t) ∪ s.g.heap.spare) : Sub own g' rootp t' where
  ok := hc.ok
  tree := ht
  nodes := hn
  mapped := hinv.sub.mapped.congr hc.mapped
  apart := (disjoint_union_right.2 ⟨hinv.sub.apart, hinv.sub.kept⟩).mono_right harea
  kept := hinv.sub.kept.mono_right (hc.retains.spare hc.keeps)
  slot_subset := hinv.sub.slot_subset
  area_subset := harea.trans (union_subset hinv.sub.area_subset hinv.sub.spare_subset)
  spare_subset := (hc.retains.spare hc.keeps).trans hinv.sub.spare_subset

end

end TreeInv

variable {s : Session} {t : NodeTree} {key : Word}

section

variable (hord : Orders call compar data scratch image K rank) (ho : Disjoint own scratch)
  (hd : Disjoint data (own ∪ scratch)) (hne : rootp ≠ 0) (hinv : TreeInv rank rootp own data K image s t) (hkey : key ∈ K)

include hord ho hd hne hinv hkey

lemma served_tfind : ∃ x0 g' t', Served rank call rootp compar own data K image s ⟨.tfind, key⟩ x0 g' t' := by
  obtain ⟨g', hrun, hq⟩ := tfindLoop_spec hord ho hd hkey t hinv.sub hinv.data hinv.known_keys
  have hreturns : Returns (exec ⟨.tfind, key⟩ call rootp compar s.g)
      ((find rank (rank key) t).getD 0, g') := by
    refine ⟨t.height + 1, fun rounds hr => ?_⟩
    show tfind call key rootp compar rounds s.g = _
    rw [tfind, if_neg hne, readWord_of_mapped hinv.sub.mapped, hrun rounds (by omega)]
  refine ⟨_, g', t, hreturns, ?_, ?_⟩
  · exact ⟨hinv.sub.quiet ho hq, hinv.sub.eqOn (hq.mono (empty_subset _)) hd hinv.data, hinv.ordered,
      hinv.keys_iff, hinv.known⟩
  · cases hf : find rank (rank key) t with
    | none => exact .inr ⟨rfl, (hinv.find_none_iff key).1 hf⟩
    | some p => exact .inl (exists_of_find hf)

lemma served_tsearch (hroom : RoomAfter call compar s.keys.ncard s.g) :
    ∃ x0 g' t', Served rank call rootp compar own data K image s ⟨.tsearch, key⟩ x0 g' t' := by
  obtain ⟨g', p, hrun, hc, ht, hfind⟩ :=
    tsearchFrom_spec hord ho hd hkey t hinv.sub hinv.data hinv.known_keys hinv.height_le hroom
  have hreturns : Returns (exec ⟨.tsearch, key⟩ call rootp compar s.g) (p, g') := by
    refine ⟨t.height, fun rounds hr => ?_⟩
    show tsearch call key rootp compar rounds s.g = _
    rw [tsearch, if_neg hne]
    exact hrun rounds hr
  have hdata := hinv.sub.eqOn hc hd hinv.data
  have hordered : SearchTree.Ordered rank (insert rank p key t) := ordered_insert hinv.ordered
  have hKafter : keysAfter rank ⟨.tsearch, key⟩ s.keys ⊆ K := by
    rintro k (hk | ⟨rfl, -⟩)
    · exact hinv.known hk
    · exact hkey
  refine ⟨p, g', insert rank p key t, hreturns, ⟨?_, hdata, hordered, ?_, hKafter⟩, ?_⟩
  · rcases hfind with hf | ⟨hf, hg⟩
    · rw [insert_of_find hf] at ht ⊢
      exact hinv.sub_of_changes hc ht (hinv.sub.nodes.retains hc.retains) subset_union_left
    · have hperm : (places (insert rank p key t)).Perm (p :: places t) :=
        (nodes_insert hf).map Prod.fst
      refine hinv.sub_of_changes hc ht ⟨?_, ?_⟩ ?_
      · -- the new node was not live, and all others were
        rw [hperm.nodup_iff, nodup_cons]
        refine ⟨fun hmem => ?_, hinv.sub.nodes.nodup⟩
        obtain ⟨m, hm, -⟩ := hinv.sub.nodes.live p hmem
        exact hg.isNew m hm
      · intro q hq
        rcases mem_cons.1 (hperm.subset hq) with rfl | hq
        · exact hg.entry
        · exact (hinv.sub.nodes.retains hc.retains).live q hq
      · rintro x ⟨q, hq, hx⟩
        rcases mem_cons.1 (hperm.subset hq) with rfl | hq
        · exact .inr (hg.spare hx)
        · exact .inl ⟨q, hq, hx⟩
  · intro k
    show _ ↔ k ∈ s.keys ∨ k = key ∧ ∀ k' ∈ s.keys, rank k' ≠ rank key
    rw [← hinv.find_none_iff key, ← hinv.keys_iff]
    rcases hfind with hf | ⟨hf, -⟩
    · rw [insert_of_find hf, hf]
      simp
    · rw [mem_keys_insert hf, hf]
      simp [or_comm]
  · rcases hfind with hf | ⟨hf, -⟩
    · rw [insert_of_find hf]
      exact exists_of_find hf
    · exact ⟨key, (nodes_insert hf).mem_iff.2 mem_cons_self, rfl⟩

lemma served_tdelete : ∃ x0 g' t', Served rank call rootp compar own data K image s ⟨.tdelete, key⟩ x0 g' t' := by
  obtain ⟨x0, g', hrun, hx0, hc, ht⟩ := tdeleteLoop_spec hord ho hd hkey t hinv.sub hne hinv.data hinv.known_keys
  have hsub : (places (erase rank (rank key) t)).Sublist (places t) :=
    places_erase (rank key) t
  have hreturns : Returns (exec ⟨.tdelete, key⟩ call rootp compar s.g) (x0, g') := by
    refine ⟨t.height + 1, fun rounds hr => ?_⟩
    show tdelete call key rootp compar rounds s.g = _
    rw [tdelete, if_neg hne, readWord_of_mapped hinv.sub.mapped]
    have hloop := hrun rounds (by omega)
    by_cases hzero : s.g.wordAt rootp = 0
    · -- the loop would end at once as well
      obtain ⟨n, rfl⟩ : ∃ n, rounds = n + 1 := ⟨rounds - 1, by omega⟩
      rw [hzero, tdeleteLoop, if_neg (by simp)] at hloop
      rw [if_pos hzero, hloop]
    · rw [if_neg hzero, hloop]
  refine ⟨x0, g', erase rank (rank key) t, hreturns, ⟨?_, hinv.sub.eqOn hc hd hinv.data,
    ordered_erase hinv.ordered, ?_, fun k hk => hinv.known hk.1⟩, ?_⟩
  · refine hinv.sub_of_changes hc ht ((hinv.sub.nodes.mono hsub).retains hc.retains) ?_
    exact (area_mono hsub.subset).trans subset_union_left
  · intro k
    show _ ↔ k ∈ s.keys ∧ rank k ≠ rank key
    rw [keys_erase hinv.ordered, mem_filter, hinv.keys_iff]
    simp
  · exact hx0.trans (hinv.find_none_iff key)

end

/-! ### Runs -/

variable {c : TreeCall}

lemma TreeInv.served (hst : Start rank call rootp compar g₀ data scratch K)
    (hinv : TreeInv rank rootp (ownOf g₀ rootp) data K g₀.mem.bytes s t) (hc : Serves call compar K s c) :
    ∃ x0 g' t', Served rank call rootp compar (ownOf g₀ rootp) data K g₀.mem.bytes s c x0 g' t' := by
  obtain ⟨op, key⟩ := c
  cases op with
  | tsearch =>
    exact served_tsearch hst.orders hst.scratch_apart hst.data_apart hst.ne_zero hinv hc.1 (hc.2 rfl)
  | tfind => exact served_tfind hst.orders hst.scratch_apart hst.data_apart hst.ne_zero hinv hc.1
  | tdelete => exact served_tdelete hst.orders hst.scratch_apart hst.data_apart hst.ne_zero hinv hc.1

lemma exists_treeInv (hst : Start rank call rootp compar g₀ data scratch K)
    (hr : (treeSystem rank call rootp compar g₀).Reach (Serves call compar K) s) :
    ∃ t, TreeInv rank rootp (ownOf g₀ rootp) data K g₀.mem.bytes s t := by
  refine System.Reach.invariant (I := fun s => ∃ t, TreeInv rank rootp (ownOf g₀ rootp) data K g₀.mem.bytes s t) ?_ ?_ hr
  · rintro s rfl
    refine ⟨.nil, ⟨hst.ok, hst.empty, ⟨nodup_nil, by simp⟩, hst.mapped, by simp, hst.kept,
      subset_union_left, by simp, subset_union_right⟩, fun _ _ => rfl, List.Pairwise.nil, by simp, by simp⟩
  · rintro s c ⟨g₁, keys₁⟩ ⟨t, hinv⟩ hc ⟨⟨x0, hret⟩, hkeys⟩
    obtain ⟨x0', g', t', hserved⟩ := hinv.served hst hc
    have heq := hserved.returns.unique hret
    have hg : g' = g₁ := congrArg Prod.snd heq
    refine ⟨t', ?_⟩
    have hinv' := hserved.inv
    rw [hg, ← hkeys] at hinv'
    exact hinv'

lemma TreeInv.isSearchTree (hinv : TreeInv rank rootp own data K image s t) :
    IsSearchTree rank s.g rootp s.keys t :=
  ⟨hinv.sub.tree, hinv.sub.nodes.pairwise hinv.sub.ok.inv, hinv.ordered, Set.ext hinv.keys_iff⟩

end

/-- **`tsearch`, `tfind` and `tdelete`** on one root, in any sequence: the nodes are a search tree with the keys of the
set, and every call returns, with what it is to return and such a tree. -/
theorem reach_searchTree {ρ : Type*} [LinearOrder ρ] (rank : Word → ρ) (call : GuestCall) (rootp compar : Word)
    (g₀ : GuestHeap) (data scratch K : Set Word) (hst : Start rank call rootp compar g₀ data scratch K) (s : Session)
    (hr : (treeSystem rank call rootp compar g₀).Reach (Serves call compar K) s) :
    (∃ t, IsSearchTree rank s.g rootp s.keys t) ∧
      ∀ c, Serves call compar K s c → ∃ x0 g' t', Returns (c.exec call rootp compar s.g) (x0, g') ∧
        IsSearchTree rank g' rootp (c.keysAfter rank s.keys) t' ∧ c.Answers rank s.keys t' x0 := by
  obtain ⟨t, hinv⟩ := exists_treeInv hst hr
  refine ⟨⟨t, hinv.isSearchTree⟩, ?_⟩
  intro c hc
  obtain ⟨x0, g', t', hserved⟩ := hinv.served hst hc
  exact ⟨x0, g', t', hserved.returns, hserved.inv.isSearchTree, hserved.answers⟩

/-- A comparison function that subtracts, for keys that are small numbers. -/
def subtracts : GuestCall := fun _ args g => (args.getD 0 0 - args.getD 1 0, g)

def treeGuest : GuestHeap := ⟨⟨fun _ => 0, fun _ => true⟩, .init 0x10000 0x10000⟩

lemma start_treeGuest : Start BitVec.toNat subtracts 0x100 0x9000 treeGuest ∅ ∅ {k | k.toNat < 1000} := by
  have hsub : ∀ (g : GuestHeap) (k k' : Word), k.toNat < 1000 → k'.toNat < 1000 →
      (callCompar subtracts 0x9000 k k' g).1 = k.toNat - k'.toNat := by
    intro g k k' hk hk'
    have hdiff : k - k' = BitVec.ofInt 64 (k.toNat - k'.toNat) := by
      apply BitVec.eq_of_toNat_eq
      rw [BitVec.toNat_sub, BitVec.toNat_ofInt]
      omega
    show Stdlib.cmpResult (k - k') = _
    rw [hdiff]
    exact Stdlib.cmpResult_ofInt (by omega) (by omega)
  have hvar : Disjoint (block 0x100 8) treeGuest.heap.spare := by
    refine disjoint_left.2 fun x hx hs => ?_
    have h1 : (x - 0x100).toNat < 8 := hx
    have h2 : 0x10000 ≤ x.toNat := hs.1.1
    bv_omega
  refine ⟨⟨inv_init (by decide) (by decide), fun _ _ => rfl⟩, by decide, ⟨by decide, fun _ _ => rfl⟩,
    hvar, by decide +kernel, ⟨?_, ?_, fun _ _ _ hok => .refl hok⟩, by simp, by simp⟩
  · intro g k k' _ hk hk'
    rw [hsub g k k' hk hk']
    omega
  · intro g k k' _ hk hk'
    rw [hsub g k k' hk hk']
    omega

/-- Runs on `treeGuest`, with keys below 1000. -/
abbrev ReachSmall (s : Session) : Prop :=
  (treeSystem BitVec.toNat subtracts 0x100 0x9000 treeGuest).Reach (Serves subtracts 0x9000 {k | k.toNat < 1000}) s

def afterCall (g : GuestHeap) (c : TreeCall) : GuestHeap := ((c.exec subtracts 0x100 0x9000 g 4).map Prod.snd).getD g

lemma roomAfter_subtracts {g : GuestHeap} (h : g.heap.HasRoom 24 8) : ∀ n, RoomAfter subtracts 0x9000 n g
  | 0 => h
  | n + 1 => ⟨h, fun _ _ => roomAfter_subtracts h n⟩

lemma ReachSmall.next {s : Session} (hr : ReachSmall s) (c : TreeCall) (hkey : c.key.toNat < 1000)
    (hroom : s.g.heap.TailFits (minSize 24) 8)
    (hret : ∃ x0, ∀ n, c.exec subtracts 0x100 0x9000 s.g (n + 4) = some (x0, afterCall s.g c)) :
    ReachSmall ⟨afterCall s.g c, c.keysAfter BitVec.toNat s.keys⟩ := by
  obtain ⟨x0, hret⟩ := hret
  refine .step hr ⟨hkey, fun _ => roomAfter_subtracts (.inr hroom) _⟩ ⟨⟨x0, 4, fun rounds h => ?_⟩, rfl⟩
  obtain ⟨n, rfl⟩ := Nat.exists_eq_add_of_le' h
  exact hret n

lemma reachSmall_seven : ∃ g, ReachSmall ⟨g, {7}⟩ := by
  have hinit : ReachSmall ⟨treeGuest, ∅⟩ := .init rfl
  have h7 := hinit.next ⟨.tsearch, 7⟩ (by decide) (by decide +kernel) ⟨_, fun _ => rfl⟩
  have hkeys : keysAfter BitVec.toNat ⟨.tsearch, 7⟩ ∅ = {7} := by
    ext k
    simp [keysAfter]
  rw [hkeys] at h7
  exact ⟨_, h7⟩

/-- `tsearch` of 5, 3 and 8, and `tdelete` of the root 5, which has two children: 8 is found in the node of 5. -/
theorem reach_searchTree_deleted : ∃ s : Session, ReachSmall s ∧ s.keys = {3, 8} ∧ ∃ x0 g' t',
    Returns (exec ⟨.tfind, 8⟩ subtracts 0x100 0x9000 s.g) (x0, g') ∧
      IsSearchTree BitVec.toNat g' 0x100 {3, 8} t' ∧ HoldsEqual BitVec.toNat t' 8 x0 := by
  have hinit : ReachSmall ⟨treeGuest, ∅⟩ := .init rfl
  have h5 := hinit.next ⟨.tsearch, 5⟩ (by decide) (by decide +kernel) ⟨_, fun _ => rfl⟩
  have h3 := h5.next ⟨.tsearch, 3⟩ (by decide) (by decide +kernel) ⟨_, fun _ => rfl⟩
  have h8 := h3.next ⟨.tsearch, 8⟩ (by decide) (by decide +kernel) ⟨_, fun _ => rfl⟩
  have hdel := h8.next ⟨.tdelete, 5⟩ (by decide) (by decide +kernel) ⟨_, fun _ => rfl⟩
  generalize hg : afterCall _ ⟨.tdelete, 5⟩ = g at hdel
  have hkeys : keysAfter BitVec.toNat ⟨.tdelete, 5⟩ (keysAfter BitVec.toNat ⟨.tsearch, 8⟩
      (keysAfter BitVec.toNat ⟨.tsearch, 3⟩ (keysAfter BitVec.toNat ⟨.tsearch, 5⟩ ∅))) = {3, 8} := by
    ext k
    simp only [keysAfter, Set.mem_ofPred_eq, Set.mem_insert_iff, Set.mem_singleton_iff]
    grind
  rw [hkeys] at hdel
  obtain ⟨-, hcalls⟩ := reach_searchTree BitVec.toNat subtracts 0x100 0x9000 treeGuest ∅ ∅ _ start_treeGuest _ hdel
  obtain ⟨x0, g', t', hret, htree, hans⟩ := hcalls ⟨.tfind, 8⟩ ⟨show (8 : Word).toNat < 1000 by decide, nofun⟩
  refine ⟨_, hdel, rfl, x0, g', t', hret, htree, ?_⟩
  rcases hans with h | ⟨-, h⟩
  · exact h
  · exact absurd rfl (h 8 (.inr rfl))

end CrossShim.Search
