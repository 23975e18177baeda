import Mathlib

/-!
# Search trees whose nodes have places

A node is a place with a key in it, and keys have ranks.  Insertion adds a node at the end of the path that the search
takes.  Deletion of a node with two children moves the key of the next node into its place and takes that node out
instead, so that keys change places: `keys_erase` and `places_erase` are separate facts.
-/

namespace CrossShim.Lib.SearchTree

open List

variable {ι κ ρ : Type*}

def nodes : BinaryTree (ι × κ) → List (ι × κ)
  | .nil => []
  | .node a l r => nodes l ++ a :: nodes r

def places (t : BinaryTree (ι × κ)) : List ι := (nodes t).map Prod.fst

def keys (t : BinaryTree (ι × κ)) : List κ := (nodes t).map Prod.snd

section

variable {a : ι × κ} {l r : BinaryTree (ι × κ)}

@[simp] lemma places_nil : places (.nil : BinaryTree (ι × κ)) = [] := rfl

@[simp] lemma places_node : places (.node a l r) = places l ++ a.1 :: places r := by simp [places, nodes]

@[simp] lemma keys_nil : keys (.nil : BinaryTree (ι × κ)) = [] := rfl

@[simp] lemma keys_node : keys (.node a l r) = keys l ++ a.2 :: keys r := by simp [keys, nodes]

lemma numNodes_eq_length_keys (t : BinaryTree (ι × κ)) : t.numNodes = (keys t).length := by
  induction t with
  | nil => rfl
  | node a l r hl hr =>
    rw [BinaryTree.numNodes, keys_node, length_append, length_cons, hl, hr]
    omega

end

/-! ### The first node -/

/-- The first node of a tree, and the tree without it. -/
def popMin : BinaryTree (ι × κ) → ι × κ → BinaryTree (ι × κ) → (ι × κ) × BinaryTree (ι × κ)
  | .nil, a, r => (a, r)
  | .node b l' r', a, r => ((popMin l' b r').1, .node a (popMin l' b r').2 r)

lemma nodes_popMin (l : BinaryTree (ι × κ)) :
    ∀ a r, nodes (.node a l r) = (popMin l a r).1 :: nodes (popMin l a r).2 := by
  induction l with
  | nil =>
    intro a r
    rfl
  | node b l' r' ih _ =>
    intro a r
    show nodes (.node b l' r') ++ a :: nodes r = _
    rw [ih b r']
    rfl

def removeRoot (a : ι × κ) : BinaryTree (ι × κ) → BinaryTree (ι × κ) → BinaryTree (ι × κ)
  | .nil, r => r
  | .node b l r, .nil => .node b l r
  | .node b l r, .node b' l' r' => .node (a.1, (popMin l' b' r').1.2) (.node b l r) (popMin l' b' r').2

lemma keys_removeRoot (a : ι × κ) (l r : BinaryTree (ι × κ)) : keys (removeRoot a l r) = keys l ++ keys r := by
  cases l with
  | nil => rfl
  | node b l r₀ =>
    cases r with
    | nil => simp [removeRoot]
    | node b' l' r' =>
      have hmin : keys (.node b' l' r') = (popMin l' b' r').1.2 :: keys (popMin l' b' r').2 := by
        simp only [keys, nodes_popMin l' b' r', map_cons]
      rw [hmin]
      simp [removeRoot]

lemma places_removeRoot (a : ι × κ) (l r : BinaryTree (ι × κ)) :
    (places (removeRoot a l r)).Sublist (places l ++ a.1 :: places r) := by
  cases l with
  | nil => exact sublist_cons_self _ _
  | node b l r₀ =>
    cases r with
    | nil => exact sublist_append_left _ _
    | node b' l' r' =>
      have hmin : places (.node b' l' r') = (popMin l' b' r').1.1 :: places (popMin l' b' r').2 := by
        simp only [places, nodes_popMin l' b' r', map_cons]
      rw [hmin]
      simp only [removeRoot, places_node]
      exact (List.Sublist.refl _).append (.cons_cons _ (sublist_cons_self _ _))

/-! ### The three operations -/

section

variable [LinearOrder ρ] (rank : κ → ρ)

def find (q : ρ) : BinaryTree (ι × κ) → Option ι
  | .nil => none
  | .node a l r => if q = rank a.2 then some a.1 else if q < rank a.2 then find q l else find q r

/-- The tree with the key, in a node at `p` unless a key of its rank is there. -/
def insert (p : ι) (k : κ) : BinaryTree (ι × κ) → BinaryTree (ι × κ)
  | .nil => .node (p, k) .nil .nil
  | .node a l r =>
    if rank k = rank a.2 then .node a l r
    else if rank k < rank a.2 then .node a (insert p k l) r else .node a l (insert p k r)

def erase (q : ρ) : BinaryTree (ι × κ) → BinaryTree (ι × κ)
  | .nil => .nil
  | .node a l r =>
    if q = rank a.2 then removeRoot a l r
    else if q < rank a.2 then .node a (erase q l) r else .node a l (erase q r)

/-- **Search trees**: the keys ascend from left to right. -/
def Ordered (t : BinaryTree (ι × κ)) : Prop := (keys t).Pairwise fun a b => rank a < rank b

variable {rank} {t l r : BinaryTree (ι × κ)} {a : ι × κ} {p : ι} {k x : κ} {q : ρ}

lemma ordered_node : Ordered rank (.node a l r) ↔
    Ordered rank l ∧ Ordered rank r ∧ (∀ x ∈ keys l, rank x < rank a.2) ∧ ∀ x ∈ keys r, rank a.2 < rank x := by
  unfold Ordered
  rw [keys_node, pairwise_append, pairwise_cons]
  constructor
  · rintro ⟨hl, ⟨ha, hr⟩, hlr⟩
    exact ⟨hl, hr, fun x hx => hlr x hx _ (by simp), ha⟩
  · rintro ⟨hl, hr, hla, har⟩
    exact ⟨hl, ⟨har, hr⟩, fun x hx => forall_mem_cons.2 ⟨hla x hx, fun y hy => (hla x hx).trans (har y hy)⟩⟩

lemma exists_of_find (h : find rank q t = some p) : ∃ k, (p, k) ∈ nodes t ∧ rank k = q := by
  induction t with
  | nil => cases h
  | node a l r hl hr =>
    rw [find] at h
    split_ifs at h with heq hlt
    · cases h
      exact ⟨a.2, by simp [nodes], heq.symm⟩
    · obtain ⟨k, hk, hrank⟩ := hl h
      exact ⟨k, by simp [nodes, hk], hrank⟩
    · obtain ⟨k, hk, hrank⟩ := hr h
      exact ⟨k, by simp [nodes, hk], hrank⟩

lemma find_eq_none_iff (ho : Ordered rank t) : find rank q t = none ↔ ∀ k ∈ keys t, rank k ≠ q := by
  induction t with
  | nil => simp [find]
  | node a l r hl hr =>
    obtain ⟨hol, hor, hla, har⟩ := ordered_node.1 ho
    rw [find, keys_node, forall_mem_append, forall_mem_cons]
    split_ifs with heq hlt
    · exact ⟨fun h => (nomatch h), fun h => absurd heq.symm h.2.1⟩
    · rw [hl hol]
      exact ⟨fun h => ⟨h, Ne.symm heq, fun k hk => (hlt.trans (har k hk)).ne'⟩, fun h => h.1⟩
    · rw [hr hor]
      exact ⟨fun h => ⟨fun k hk => ((hla k hk).trans_le (not_lt.1 hlt)).ne, Ne.symm heq, h⟩, fun h => h.2.2⟩

lemma insert_of_find {p' : ι} (h : find rank (rank k) t = some p') : insert rank p k t = t := by
  induction t with
  | nil => cases h
  | node a l r hl hr =>
    rw [find] at h
    rw [insert]
    split_ifs at h ⊢
    · rfl
    · rw [hl h]
    · rw [hr h]

lemma nodes_insert (h : find rank (rank k) t = none) : (nodes (insert rank p k t)).Perm ((p, k) :: nodes t) := by
  induction t with
  | nil => exact .refl _
  | node a l r hl hr =>
    rw [find] at h
    rw [insert]
    split_ifs at h ⊢
    · exact (hl h).append_right _
    · calc (nodes l ++ a :: nodes (insert rank p k r)).Perm (nodes l ++ a :: (p, k) :: nodes r) :=
            ((hr h).cons a).append_left _
        _ = (nodes l ++ [a]) ++ (p, k) :: nodes r := by simp
        _ |>.Perm ((p, k) :: ((nodes l ++ [a]) ++ nodes r)) := perm_middle
        _ = (p, k) :: (nodes l ++ a :: nodes r) := by simp

lemma mem_keys_insert (h : find rank (rank k) t = none) : x ∈ keys (insert rank p k t) ↔ x = k ∨ x ∈ keys t :=
  ((nodes_insert h).map Prod.snd).mem_iff.trans mem_cons

lemma ordered_insert (ho : Ordered rank t) : Ordered rank (insert rank p k t) := by
  induction t with
  | nil => exact pairwise_singleton _ _
  | node a l r hl hr =>
    obtain ⟨hol, hor, hla, har⟩ := ordered_node.1 ho
    -- only the new key is new to a subtree
    have hkeys : ∀ s : BinaryTree (ι × κ), ∀ x ∈ keys (insert rank p k s), x = k ∨ x ∈ keys s := by
      intro s x hx
      cases hf : find rank (rank k) s with
      | none => exact (mem_keys_insert hf).1 hx
      | some p' => exact .inr (by rwa [insert_of_find hf] at hx)
    rw [insert]
    split_ifs with heq hlt
    · exact ho
    · refine ordered_node.2 ⟨hl hol, hor, ?_, har⟩
      intro x hx
      rcases hkeys l x hx with rfl | hx
      · exact hlt
      · exact hla x hx
    · refine ordered_node.2 ⟨hol, hr hor, hla, ?_⟩
      intro x hx
      rcases hkeys r x hx with rfl | hx
      · exact lt_of_le_of_ne (not_lt.1 hlt) (Ne.symm heq)
      · exact har x hx

lemma keys_erase (ho : Ordered rank t) : keys (erase rank q t) = (keys t).filter fun k => rank k ≠ q := by
  induction t with
  | nil => rfl
  | node a l r hl hr =>
    obtain ⟨hol, hor, hla, har⟩ := ordered_node.1 ho
    have hkeep : ∀ {ks : List κ}, (∀ x ∈ ks, rank x ≠ q) → ks.filter (fun k => rank k ≠ q) = ks := by
      intro ks h
      exact filter_eq_self.2 fun x hx => decide_eq_true (h x hx)
    rw [erase]
    split_ifs with heq hlt
    · subst heq
      rw [keys_removeRoot, keys_node, filter_append, filter_cons_of_neg (by simp),
        hkeep fun x hx => (hla x hx).ne, hkeep fun x hx => (har x hx).ne']
    · rw [keys_node, keys_node, hl hol, filter_append, filter_cons_of_pos (by simpa using Ne.symm heq),
        hkeep fun x hx => (hlt.trans (har x hx)).ne']
    · have hgt : rank a.2 < q := lt_of_le_of_ne (not_lt.1 hlt) (Ne.symm heq)
      rw [keys_node, keys_node, hr hor, filter_append, filter_cons_of_pos (by simpa using Ne.symm heq),
        hkeep fun x hx => ((hla x hx).trans hgt).ne]

lemma ordered_erase (ho : Ordered rank t) : Ordered rank (erase rank q t) := by
  unfold Ordered
  rw [keys_erase ho]
  exact ho.filter _

lemma places_erase (q : ρ) (t : BinaryTree (ι × κ)) : (places (erase rank q t)).Sublist (places t) := by
  induction t with
  | nil => exact .refl _
  | node a l r hl hr =>
    rw [erase, places_node]
    split_ifs
    · exact places_removeRoot a l r
    · rw [places_node]
      exact hl.append (.refl _)
    · rw [places_node]
      exact (List.Sublist.refl _).append (.cons_cons _ hr)

end

end CrossShim.Lib.SearchTree
