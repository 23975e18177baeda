import CrossShim.Lib.Bytes

/-!
# Blocks of an image

`load m a n` is the list of the `n` bytes from `a` on, `store m a bs` the image with the bytes `bs` from `a` on, and
`block a n` the set of the addresses that either is about.  Addresses wrap, and so do blocks.
-/

namespace CrossShim.Lib

open List

/-- The addresses of the `n` bytes from `a` on. -/
def block (a : Word) (n : ℕ) : Set Word := {x | (x - a).toNat < n}

def load (m : Bytes) (a : Word) (n : ℕ) : List Byte := (List.range n).map fun i => m (a + BitVec.ofNat 64 i)

def store (m : Bytes) (a : Word) (bs : List Byte) : Bytes := fun x => bs.getD (x - a).toNat (m x)

section

variable {m m' : Bytes} {a b x : Word} {n k i : ℕ} {bs : List Byte}

/-! ### Addresses -/

lemma mem_block : x ∈ block a n ↔ (x - a).toNat < n := Iff.rfl

instance : Decidable (x ∈ block a n) := inferInstanceAs (Decidable ((x - a).toNat < n))

lemma toNat_add_ofNat_sub (hi : i < 2 ^ 64) : (a + BitVec.ofNat 64 i - a).toNat = i := by
  rw [show a + BitVec.ofNat 64 i - a = BitVec.ofNat 64 i by bv_omega, BitVec.toNat_ofNat]
  exact Nat.mod_eq_of_lt hi

lemma add_mem_block (hi : i < n) (hn : n ≤ 2 ^ 64) : a + BitVec.ofNat 64 i ∈ block a n := by
  rw [mem_block, toNat_add_ofNat_sub (hi.trans_le hn)]
  exact hi

lemma block_mono (h : n ≤ k) : block a n ⊆ block a k := fun _ hx => lt_of_lt_of_le hx h

lemma block_subset_block (h : i + n ≤ k) (hk : k ≤ 2 ^ 64) : block (a + BitVec.ofNat 64 i) n ⊆ block a k := by
  intro x hx
  rw [mem_block] at hx ⊢
  bv_omega

lemma disjoint_parts {j l : ℕ} (h : i + n ≤ j) (hk : j + l ≤ 2 ^ 64) :
    Disjoint (block (a + BitVec.ofNat 64 i) n) (block (a + BitVec.ofNat 64 j) l) := by
  rw [Set.disjoint_left]
  intro x hx hy
  rw [mem_block] at hx hy
  bv_omega

lemma mem_block_iff (hn : a.toNat + n ≤ 2 ^ 64) : x ∈ block a n ↔ x.toNat ∈ span a.toNat n := by
  rw [mem_block, mem_span]
  constructor
  · intro h
    bv_omega
  · rintro ⟨h1, h2⟩
    bv_omega

lemma disjoint_of_apart (hn : a.toNat + n ≤ 2 ^ 64) (hk : b.toNat + k ≤ 2 ^ 64) (h : Apart a.toNat n b.toNat k) :
    Disjoint (block a n) (block b k) := by
  rw [Set.disjoint_left]
  intro x hx hy
  rw [mem_block_iff hn] at hx
  rw [mem_block_iff hk] at hy
  exact Set.disjoint_left.1 h.disjoint hx hy

/-! ### Reading -/

@[simp] lemma length_load : (load m a n).length = n := by simp [load]

@[simp] lemma load_zero : load m a 0 = [] := rfl

lemma getElem?_load (hi : i < n) : (load m a n)[i]? = some (m (a + BitVec.ofNat 64 i)) := by
  simp [load, hi]

lemma load_congr (hn : n ≤ 2 ^ 64) (h : ∀ x ∈ block a n, m x = m' x) : load m a n = load m' a n := by
  unfold load
  apply map_congr_left
  intro i hi
  exact h _ (add_mem_block (mem_range.1 hi) hn)

/-! ### Storing -/

lemma store_of_notMem (h : x ∉ block a bs.length) : store m a bs x = m x :=
  getD_eq_default _ _ (not_lt.1 h)

lemma getElem?_of_store (h : x ∈ block a bs.length) : bs[(x - a).toNat]? = some (store m a bs x) := by
  unfold store
  rw [getD_eq_getElem _ _ h, getElem?_eq_getElem h]

/-- **What was stored is read back.** -/
theorem load_store (hn : bs.length ≤ 2 ^ 64) : load (store m a bs) a bs.length = bs := by
  apply ext_getElem?
  intro i
  by_cases hi : i < bs.length
  · rw [getElem?_load hi, ← getElem?_of_store (add_mem_block hi hn), toNat_add_ofNat_sub (hi.trans_le hn)]
  · rw [getElem?_eq_none (by simpa using hi), getElem?_eq_none (not_lt.1 hi)]

/-- **What is apart from the store** is as before. -/
theorem load_store_of_disjoint (hn : n ≤ 2 ^ 64) (h : Disjoint (block a n) (block b bs.length)) :
    load (store m b bs) a n = load m a n :=
  load_congr hn fun _ hx => store_of_notMem (Set.disjoint_left.1 h hx)

lemma store_append {cs : List Byte} (hn : bs.length + cs.length ≤ 2 ^ 64) :
    store (store m a bs) (a + BitVec.ofNat 64 bs.length) cs = store m a (bs ++ cs) := by
  funext x
  have hlt := (x - a).isLt
  have hsub : (x - (a + BitVec.ofNat 64 bs.length)).toNat = (2 ^ 64 - bs.length + (x - a).toNat) % 2 ^ 64 := by
    bv_omega
  unfold store
  rcases Nat.lt_or_ge (x - a).toNat bs.length with hx | hx
  · rw [getD_append _ _ _ _ hx, getD_eq_default _ _ (by rw [hsub]; omega)]
  · rw [getD_append_right _ _ _ _ hx, getD_eq_default _ _ hx]
    congr 1
    rw [hsub]
    omega

def ofList (bs : List Byte) : Bytes := fun i => bs.getD i.toNat 0

lemma splice_ofList (hk : k ≤ bs.length) (hn : k < 2 ^ 64) :
    splice m a (ofList bs) (BitVec.ofNat 64 k) = store m a (bs.take k) := by
  have hlen : (bs.take k).length = k := by simpa using hk
  funext x
  have hlt : x - a < BitVec.ofNat 64 k ↔ (x - a).toNat < k := by
    rw [BitVec.lt_def, BitVec.toNat_ofNat, Nat.mod_eq_of_lt hn]
  by_cases hx : (x - a).toNat < k
  · rw [splice_of_lt (hlt.2 hx)]
    unfold ofList store
    rw [getD_eq_getElem _ _ (by omega), getD_eq_getElem _ _ (by omega), getElem_take]
  · rw [splice_of_not_lt (mt hlt.1 hx), store_of_notMem]
    rwa [hlen, mem_block]

end

/-! ### Numbers -/

/-- The `k` low bytes of a number, the lowest first. -/
def leBytes : ℕ → ℕ → List Byte
  | 0, _ => []
  | k + 1, v => BitVec.ofNat 8 v :: leBytes k (v / 256)

def ofLe : List Byte → ℕ
  | [] => 0
  | b :: bs => b.toNat + 256 * ofLe bs

@[simp] lemma length_leBytes (k v : ℕ) : (leBytes k v).length = k := by
  induction k generalizing v with
  | zero => rfl
  | succ k ih => simp only [leBytes, length_cons, ih]

lemma ofLe_leBytes (k v : ℕ) : ofLe (leBytes k v) = v % 256 ^ k := by
  induction k generalizing v with
  | zero => simp [leBytes, ofLe, Nat.mod_one]
  | succ k ih =>
    have hstep : v % 256 ^ (k + 1) = v % 256 + 256 * (v / 256 % 256 ^ k) := by rw [Nat.pow_succ', Nat.mod_mul]
    rw [leBytes, ofLe, ih, BitVec.toNat_ofNat, hstep]

lemma load_store_leBytes {k : ℕ} (hk : k ≤ 2 ^ 64) (m : Bytes) (a : Word) (v : ℕ) :
    load (store m a (leBytes k v)) a k = leBytes k v := by
  have h : load (store m a (leBytes k v)) a (leBytes k v).length = leBytes k v :=
    load_store (by rwa [length_leBytes])
  rwa [length_leBytes] at h

end CrossShim.Lib
