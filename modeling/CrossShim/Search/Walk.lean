import CrossShim.Search.TreeRuns

/-!
# `twalk`

The handler of `hle_search.cpp` goes through a tree with a stack of its own and a counter for the level.  The counter
goes up when a child is pushed, and comes down again when a node with children is popped; when a leaf is popped, it does
not.  So the nodes are visited as they should be (`map_trace`), and the level is too high by the number of leaves that
have been left behind (`trace_level`): `twalk_levels_iff`.
-/

namespace CrossShim.Search

open Lib Memory List

/-! ### The handler -/

inductive Visit where
  | preorder
  | postorder
  | endorder
  | leaf
  deriving DecidableEq

def Visit.value : Visit → Word
  | preorder => 0
  | postorder => 1
  | endorder => 2
  | leaf => 3

structure ActionCall where
  node : Word
  visit : Visit
  level : Word
  deriving DecidableEq

/-- The variables of the loop, the calls that were made, and the guest. -/
structure Walk where
  stack : List (Word × ℕ)
  level : ℤ
  calls : List ActionCall
  g : GuestHeap

open Walk

def Walk.push (w : Walk) (child : Word) : Walk :=
  if child ≠ 0 then { w with stack := (child, 0) :: w.stack, level := w.level + 1 } else w

section

variable (call : GuestCall) (action : Word)

def Walk.act (w : Walk) (node : Word) (visit : Visit) : Walk :=
  let level := BitVec.ofInt 64 w.level
  { w with
    calls := w.calls ++ [⟨node, visit, level⟩]
    g := (call action [node, visit.value, level] w.g).2 }

/-- The body of the loop, for the top of the stack and what is under it. -/
def Walk.visitTop (w : Walk) (node : Word) (state : ℕ) (rest : List (Word × ℕ)) : Walk :=
  let left := readWord w.g (node + 8)
  let right := readWord w.g (node + 16)
  if state = 0 then
    if left = 0 ∧ right = 0 then { w.act call action node .leaf with stack := rest }
    else push { w.act call action node .preorder with stack := (node, 1) :: rest } left
  else if state = 1 then push { w.act call action node .postorder with stack := (node, 2) :: rest } right
  else { w.act call action node .endorder with stack := rest, level := w.level - 1 }

/-- The loop; `none` when the stack is not empty after this many rounds. -/
def twalkLoop : ℕ → Walk → Option Walk
  | 0, _ => none
  | rounds + 1, w =>
    match w.stack with
    | [] => some w
    | (node, state) :: rest => twalkLoop rounds (w.visitTop call action node state rest)

/-- `twalk`, with the calls that it makes. -/
def twalk (root : Word) (g : GuestHeap) (rounds : ℕ) : Option (List ActionCall × GuestHeap) :=
  if root = 0 ∨ action = 0 then some ([], g)
  else (twalkLoop call action rounds ⟨[(root, 0)], 0, [], g⟩).map fun w => (w.calls, w.g)

end

/-! ### The visits of a tree -/

/-- **What `twalk` should do**: a leaf is visited once, any other node before, between and after its subtrees, and the
level is the depth. -/
def visits : NodeTree → ℕ → List ActionCall
  | .nil, _ => []
  | .node a l r, depth =>
    let level := BitVec.ofNat 64 depth
    if l = .nil ∧ r = .nil then [⟨a.1, .leaf, level⟩]
    else ⟨a.1, .preorder, level⟩ :: (visits l (depth + 1) ++ ⟨a.1, .postorder, level⟩ :: (visits r (depth + 1) ++
      [⟨a.1, .endorder, level⟩]))

/-- What it does, for a tree whose root is pushed with this level, and the level that is left. -/
def trace : NodeTree → ℤ → List ActionCall × ℤ
  | .nil, level => ([], level - 1)
  | .node a l r, level =>
    if l = .nil ∧ r = .nil then ([⟨a.1, .leaf, BitVec.ofInt 64 level⟩], level)
    else
      let (callsLeft, level₁) := trace l (level + 1)
      let (callsRight, level₂) := trace r (level₁ + 1)
      (⟨a.1, .preorder, BitVec.ofInt 64 level⟩ :: (callsLeft ++ ⟨a.1, .postorder, BitVec.ofInt 64 level₁⟩ ::
        (callsRight ++ [⟨a.1, .endorder, BitVec.ofInt 64 level₂⟩])), level₂ - 1)

def leaves : NodeTree → ℕ
  | .nil => 0
  | .node _ l r => if l = .nil ∧ r = .nil then 1 else leaves l + leaves r

section

variable {a : Word × Word} {l r t : NodeTree} {level : ℤ} {depth : ℕ}

lemma trace_leaf (h : l = .nil ∧ r = .nil) :
    trace (.node a l r) level = ([⟨a.1, .leaf, BitVec.ofInt 64 level⟩], level) := by
  rw [trace, if_pos h]

lemma trace_inner (h : ¬ (l = .nil ∧ r = .nil)) : trace (.node a l r) level =
    (⟨a.1, .preorder, BitVec.ofInt 64 level⟩ :: ((trace l (level + 1)).1 ++
      ⟨a.1, .postorder, BitVec.ofInt 64 (trace l (level + 1)).2⟩ :: ((trace r ((trace l (level + 1)).2 + 1)).1 ++
        [⟨a.1, .endorder, BitVec.ofInt 64 (trace r ((trace l (level + 1)).2 + 1)).2⟩])),
      (trace r ((trace l (level + 1)).2 + 1)).2 - 1) := by
  rw [trace, if_neg h]

lemma trace_level (t : NodeTree) (level : ℤ) : (trace t level).2 = level - 1 + leaves t := by
  induction t generalizing level with
  | nil => simp [trace, leaves]
  | node a l r hl hr =>
    by_cases h : l = .nil ∧ r = .nil
    · rw [trace_leaf h, leaves, if_pos h]
      simp
    · rw [trace_inner h, leaves, if_neg h]
      simp only [hl, hr]
      push_cast
      ring

lemma map_trace (t : NodeTree) (level : ℤ) (depth : ℕ) :
    (trace t level).1.map (fun c => (c.node, c.visit)) = (visits t depth).map fun c => (c.node, c.visit) := by
  induction t generalizing level depth with
  | nil => rfl
  | node a l r hl hr =>
    by_cases h : l = .nil ∧ r = .nil
    · rw [trace_leaf h, visits, if_pos h]
      rfl
    · rw [trace_inner h, visits, if_neg h]
      simp only [map_cons, map_append, map_nil, hl (level + 1) (depth + 1),
        hr ((trace l (level + 1)).2 + 1) (depth + 1)]

lemma length_trace (t : NodeTree) (level : ℤ) (depth : ℕ) :
    (trace t level).1.length = (visits t depth).length := by
  have h := congrArg List.length (map_trace t level depth)
  simpa using h

lemma ofInt_succ_ne (depth : ℕ) : BitVec.ofInt 64 ((depth : ℤ) + 1) ≠ BitVec.ofNat 64 depth := by
  intro h
  have := congrArg BitVec.toNat h
  rw [BitVec.toNat_ofInt, BitVec.toNat_ofNat] at this
  omega

lemma leaves_of_small (h : t.numNodes ≤ 1) : leaves t = t.numNodes := by
  cases t with
  | nil => rfl
  | node a l r =>
    rw [BinaryTree.numNodes] at h ⊢
    cases l with
    | nil =>
      cases r with
      | nil => rfl
      | node b l' r' => simp at h
    | node b l' r' => simp at h

/-- **The levels are right only for a single node**: the first node to have lost a leaf is visited with a level too
high. -/
lemma trace_eq_visits_iff (t : NodeTree) (depth : ℕ) :
    (trace t depth).1 = visits t depth ↔ t.numNodes ≤ 1 := by
  induction t generalizing depth with
  | nil => simp [trace, visits]
  | node a l r hl hr =>
    by_cases h : l = .nil ∧ r = .nil
    · rw [trace_leaf h, visits, if_pos h, BitVec.ofInt_natCast, h.1, h.2]
      simp
    · have hmany : ¬ (BinaryTree.node a l r).numNodes ≤ 1 := by
        rw [BinaryTree.numNodes]
        intro hle
        refine h ⟨?_, ?_⟩
        · cases l with
          | nil => rfl
          | node b l' r' => simp at hle
        · cases r with
          | nil => rfl
          | node b l' r' => simp at hle
      refine iff_of_false (fun heq => ?_) hmany
      rw [trace_inner h, visits, if_neg h] at heq
      obtain ⟨-, heq⟩ := cons_eq_cons.1 heq
      have hcast : (depth : ℤ) + 1 = ((depth + 1 : ℕ) : ℤ) := by push_cast; rfl
      rw [hcast] at heq
      obtain ⟨hleft, heq⟩ := append_inj heq (length_trace l _ _)
      obtain ⟨hpost, heq⟩ := cons_eq_cons.1 heq
      have hl1 := (hl (depth + 1)).1 hleft
      have hlevel : (trace l ((depth + 1 : ℕ) : ℤ)).2 = depth + l.numNodes := by
        rw [trace_level, leaves_of_small hl1]
        push_cast
        ring
      rw [hlevel] at hpost heq
      have hl0 : l.numNodes = 0 := by
        by_contra hne
        have hone : l.numNodes = 1 := by omega
        rw [hone] at hpost
        exact ofInt_succ_ne depth (by simpa using hpost)
      rw [hl0] at heq
      simp only [Nat.cast_zero, add_zero, hcast] at heq
      obtain ⟨hright, hend⟩ := append_inj heq (length_trace r _ _)
      have hr1 := (hr (depth + 1)).1 hright
      have hr0 : r.numNodes = 1 := by
        rw [BinaryTree.numNodes] at hmany
        omega
      rw [trace_level, leaves_of_small hr1, hr0] at hend
      refine ofInt_succ_ne depth ?_
      simpa using hend

end

/-! ### The loop makes the visits -/

section

variable {own scratch : Set Word} {call : GuestCall} {action slot : Word} {g : GuestHeap}

lemma twalkLoop_cons {n node state rest level calls} :
    twalkLoop call action (n + 1) ⟨(node, state) :: rest, level, calls, g⟩ =
      twalkLoop call action n (visitTop call action ⟨(node, state) :: rest, level, calls, g⟩ node state rest) :=
  rfl

lemma Sub.child_eq {g' : GuestHeap} {a : Word × Word} {l r : NodeTree}
    (hs : Sub own g slot (.node a l r)) (ho : Disjoint own scratch) (hq : Quiet scratch g g') :
    g'.wordAt (a.1 + 8) = g.wordAt (a.1 + 8) ∧ g'.wordAt (a.1 + 16) = g.wordAt (a.1 + 16) := by
  have hb : ∀ x ∈ block a.1 24, g'.mem.bytes x = g.mem.bytes x := by
    intro x hx
    exact hq.same ho hs.area_subset hs.area_live (Set.disjoint_empty _) x (Sub.block_subset_area hx)
  exact ⟨GuestHeap.wordAt_congr fun x hx => hb x (leftBlock_subset hx),
    GuestHeap.wordAt_congr fun x hx => hb x (rightBlock_subset hx)⟩

lemma wordAt_eq_zero_iff {t : NodeTree} (hs : Sub own g slot t) : g.wordAt slot = 0 ↔ t = .nil := by
  cases t with
  | nil => exact iff_of_true hs.tree rfl
  | node a l r =>
    refine iff_of_false ?_ (by simp)
    rw [hs.tree.1]
    exact hs.root_ne_zero

lemma twalkLoop_push (ho : Disjoint own scratch) (hact : ∀ args g, g.Ok → Quiet scratch g (call action args g).2)
    (t : NodeTree) : ∀ {slot : Word} {g : GuestHeap}, Sub own g slot t →
      ∀ (rest : List (Word × ℕ)) (level : ℤ) (calls : List ActionCall), ∃ k g', Quiet scratch g g' ∧
        ∀ n, twalkLoop call action (n + k) (push ⟨rest, level, calls, g⟩ (g.wordAt slot)) =
          twalkLoop call action n ⟨rest, (trace t (level + 1)).2, calls ++ (trace t (level + 1)).1, g'⟩ := by
  induction t with
  | nil =>
    intro slot g hs rest level calls
    refine ⟨0, g, .refl hs.ok, fun n => ?_⟩
    rw [show g.wordAt slot = 0 from hs.tree, push, if_neg (by simp)]
    simp [trace]
  | node a l r hl hr =>
    intro slot g hs rest level calls
    have hpush : push ⟨rest, level, calls, g⟩ (g.wordAt slot) = ⟨(a.1, 0) :: rest, level + 1, calls, g⟩ := by
      rw [hs.tree.1, push, if_pos hs.root_ne_zero]
    have hleaf : (g.wordAt (a.1 + 8) = 0 ∧ g.wordAt (a.1 + 16) = 0) ↔ (l = .nil ∧ r = .nil) :=
      and_congr (wordAt_eq_zero_iff hs.left) (wordAt_eq_zero_iff hs.right)
    obtain ⟨-, hreadl, hreadr⟩ := hs.reads 0
    rw [hpush]
    by_cases h : l = .nil ∧ r = .nil
    · refine ⟨1, _, hact [a.1, Visit.leaf.value, BitVec.ofInt 64 (level + 1)] g hs.ok, fun n => ?_⟩
      rw [trace_leaf h, twalkLoop_cons, visitTop]
      simp only [hreadl, hreadr, if_pos (hleaf.2 h), if_true, act]
    · -- before the left subtree
      have hq₁ := hact [a.1, Visit.preorder.value, BitVec.ofInt 64 (level + 1)] g hs.ok
      generalize hg₁ : (call action [a.1, Visit.preorder.value, BitVec.ofInt 64 (level + 1)] g).2 = g₁ at hq₁
      generalize hcalls₁ : calls ++ [⟨a.1, .preorder, BitVec.ofInt 64 (level + 1)⟩] = calls₁
      have hs₁ := hs.quiet ho hq₁
      obtain ⟨kl, g₂, hq₂, hloopl⟩ := hl hs₁.left ((a.1, 1) :: rest) (level + 1) calls₁
      have hs₂ := hs₁.quiet ho hq₂
      -- between the subtrees
      generalize hlevel₁ : (trace l (level + 1 + 1)).2 = level₁ at hloopl
      have hq₃ := hact [a.1, Visit.postorder.value, BitVec.ofInt 64 level₁] g₂ hs₂.ok
      generalize hg₃ : (call action [a.1, Visit.postorder.value, BitVec.ofInt 64 level₁] g₂).2 = g₃ at hq₃
      generalize hcalls₃ : calls₁ ++ (trace l (level + 1 + 1)).1 ++ [⟨a.1, .postorder, BitVec.ofInt 64 level₁⟩] = calls₃
      have hs₃ := hs₂.quiet ho hq₃
      obtain ⟨kr, g₄, hq₄, hloopr⟩ := hr hs₃.right ((a.1, 2) :: rest) level₁ calls₃
      -- after the right subtree
      generalize hlevel₂ : (trace r (level₁ + 1)).2 = level₂ at hloopr
      have hq₅ := hact [a.1, Visit.endorder.value, BitVec.ofInt 64 level₂] g₄ hq₄.ok
      generalize hg₅ : (call action [a.1, Visit.endorder.value, BitVec.ofInt 64 level₂] g₄).2 = g₅ at hq₅
      refine ⟨1 + kr + 1 + kl + 1, g₅, ((hq₁.trans hq₂).trans hq₃).trans (hq₄.trans hq₅), fun n => ?_⟩
      have hreadr₂ : readWord g₂ (a.1 + 16) = g₃.wordAt (a.1 + 16) :=
        (hs₂.reads 0).2.2.trans (hs₂.child_eq ho hq₃).2.symm
      calc twalkLoop call action (n + (1 + kr + 1 + kl + 1)) ⟨(a.1, 0) :: rest, level + 1, calls, g⟩
          = twalkLoop call action (n + (1 + kr + 1) + kl)
              (push ⟨(a.1, 1) :: rest, level + 1, calls₁, g₁⟩ (g₁.wordAt (a.1 + 8))) := by
            rw [show n + (1 + kr + 1 + kl + 1) = n + (1 + kr + 1) + kl + 1 by omega, twalkLoop_cons, visitTop]
            simp only [hreadl, hreadr, if_neg (mt hleaf.1 h), if_true, act, hg₁, hcalls₁, (hs.child_eq ho hq₁).1]
        _ = twalkLoop call action (n + (1 + kr + 1))
              ⟨(a.1, 1) :: rest, level₁, calls₁ ++ (trace l (level + 1 + 1)).1, g₂⟩ := by
            rw [hloopl (n + (1 + kr + 1))]
        _ = twalkLoop call action (n + 1 + kr)
              (push ⟨(a.1, 2) :: rest, level₁, calls₃, g₃⟩ (g₃.wordAt (a.1 + 16))) := by
            rw [show n + (1 + kr + 1) = n + 1 + kr + 1 by omega, twalkLoop_cons, visitTop]
            simp only [hreadr₂, one_ne_zero, if_false, if_true, act, hg₃, hcalls₃]
        _ = twalkLoop call action (n + 1) ⟨(a.1, 2) :: rest, level₂, calls₃ ++ (trace r (level₁ + 1)).1, g₄⟩ := by
            rw [hloopr (n + 1)]
        _ = _ := by
            rw [twalkLoop_cons, visitTop, trace_inner h]
            simp [act, hlevel₁, hlevel₂, hg₅, ← hcalls₁, ← hcalls₃]

end

/-- **`twalk` on a tree of the guest**: each leaf is visited once, any other node three times, depth first; the levels
are the depths exactly when the tree has no more than one node. -/
theorem twalk_levels_iff {ρ : Type*} [LinearOrder ρ] (rank : Word → ρ) (call : GuestCall) (rootp compar : Word)
    (g₀ : GuestHeap) (data scratch K : Set Word) (hst : Start rank call rootp compar g₀ data scratch K) (s : Session)
    (hr : (treeSystem rank call rootp compar g₀).Reach (Serves call compar K) s) (action : Word) (haction : action ≠ 0)
    (touched : Set Word) (hact : ∀ args g, g.Ok → Quiet touched g (call action args g).2)
    (hapart : Disjoint (ownOf g₀ rootp) touched) :
    ∃ t, IsSearchTree rank s.g rootp s.keys t ∧
      ∃ calls g', Returns (twalk call action (s.g.wordAt rootp) s.g) (calls, g') ∧
        calls.map (fun c => (c.node, c.visit)) = (visits t 0).map (fun c => (c.node, c.visit)) ∧
        (calls = visits t 0 ↔ t.numNodes ≤ 1) := by
  obtain ⟨t, hinv⟩ := exists_treeInv hst hr
  refine ⟨t, hinv.isSearchTree, ?_⟩
  obtain ⟨k, g', -, hloop⟩ := twalkLoop_push hapart hact t hinv.sub [] (-1) []
  have hzero : (trace t ((-1 : ℤ) + 1)) = trace t ((0 : ℕ) : ℤ) := rfl
  rw [hzero] at hloop
  refine ⟨(trace t ((0 : ℕ) : ℤ)).1, ?_⟩
  by_cases hroot : s.g.wordAt rootp = 0
  · -- nothing is walked
    have hnil : t = .nil := (wordAt_eq_zero_iff hinv.sub).1 hroot
    refine ⟨s.g, ⟨0, fun rounds _ => ?_⟩, map_trace t _ _, trace_eq_visits_iff t 0⟩
    rw [twalk, if_pos (.inl hroot), hnil]
    rfl
  · refine ⟨g', ⟨k + 1, fun rounds hrounds => ?_⟩, map_trace t _ _, trace_eq_visits_iff t 0⟩
    obtain ⟨n, rfl⟩ : ∃ n, rounds = n + 1 + k := ⟨rounds - (k + 1), by omega⟩
    have hpush : push ⟨[], -1, [], s.g⟩ (s.g.wordAt rootp) = ⟨[(s.g.wordAt rootp, 0)], 0, [], s.g⟩ := by
      rw [push, if_pos hroot]
      rfl
    have hrun := hloop (n + 1)
    rw [hpush] at hrun
    rw [twalk, if_neg (not_or.2 ⟨hroot, haction⟩), hrun]
    simp [twalkLoop]

/-- A tree with a single node. -/
theorem twalk_levels_iff_seven : ∃ s : Session, s.keys = {7} ∧ ∃ t, IsSearchTree BitVec.toNat s.g 0x100 {7} t ∧
    ∃ calls g', Returns (twalk subtracts 0x9100 (s.g.wordAt 0x100) s.g) (calls, g') ∧ calls = visits t 0 := by
  obtain ⟨g, hreach⟩ := reachSmall_seven
  obtain ⟨t, htree, calls, g', hret, -, hiff⟩ := twalk_levels_iff BitVec.toNat subtracts 0x100 0x9000 treeGuest ∅ ∅ _
    start_treeGuest _ hreach 0x9100 (by decide) ∅ (fun _ _ hok => .refl hok) (Set.disjoint_empty _)
  refine ⟨_, rfl, t, htree, calls, g', hret, hiff.2 ?_⟩
  have hkeys : ∀ k ∈ SearchTree.keys t, k = 7 := fun k hk => htree.keys_eq.subset hk
  have hordered := htree.ordered
  unfold SearchTree.Ordered at hordered
  rw [SearchTree.numNodes_eq_length_keys]
  -- a second key would be greater than the first, and both are 7
  generalize SearchTree.keys t = ks at hkeys hordered
  match ks with
  | [] => simp
  | [_] => simp
  | x :: y :: ks =>
    have hlt := (pairwise_cons.1 hordered).1 y (by simp)
    rw [hkeys x (by simp), hkeys y (by simp)] at hlt
    exact absurd hlt (lt_irrefl _)

/-- `tsearch` of 5 and of 3: after its leaf has been left, the root 5 is visited with level 1. -/
theorem twalk_after_leaf :
    ((tsearch subtracts 5 0x100 0x9000 4 treeGuest).bind fun r => (tsearch subtracts 3 0x100 0x9000 4 r.2).bind fun r =>
      (twalk subtracts 0x9100 (r.2.wordAt 0x100) r.2 9).map Prod.fst) =
    some [⟨0x10000, .preorder, 0⟩, ⟨0x10018, .leaf, 1⟩, ⟨0x10000, .postorder, 1⟩, ⟨0x10000, .endorder, 1⟩] := by
  decide +kernel

end CrossShim.Search
