import CrossShim.Lib.Exchange
import CrossShim.Memory.Access

/-!
# `qsort`

The handler of `hle_stdlib.cpp`.  It copies the elements to the host and sorts the copies by exchanges; the comparison
is made by the guest on the elements in its own memory, and so every exchange is made there too.

`sync_compareStep`: the memory follows the copies.  So `qsort_sorts` is what is known of sorting by exchanges, read in
guest memory.
-/

namespace CrossShim.Stdlib

open Lib Memory BitVec List GuestMemory

/-- `call_function_safe`: a guest function is run on some arguments, and returns. -/
abbrev GuestCall : Type := Word → List Word → GuestMemory → Word × GuestMemory

/-- `(int32_t)(result & 0xFFFFFFFF)`. -/
def cmpResult (result : Word) : ℤ := (result.setWidth 32).toInt

lemma cmpResult_ofInt {v : ℤ} (h1 : -2 ^ 31 ≤ v) (h2 : v < 2 ^ 31) : cmpResult (BitVec.ofInt 64 v) = v := by
  have hlow : (BitVec.ofInt 64 v).setWidth 32 = BitVec.ofInt 32 v := by
    apply eq_of_toNat_eq
    simp only [toNat_setWidth, toNat_ofInt]
    omega
  rw [cmpResult, hlow, toInt_ofInt]
  apply Int.bmod_eq_of_le <;> omega

def elemAddr (base size : Word) (i : ℕ) : Word := base + BitVec.ofNat 64 i * size

/-! ### The handler -/

structure SortState where
  elements : ℕ → List Byte
  mem : GuestMemory

section

variable (call : GuestCall) (base size compar : Word)

def compareStep (s : SortState) (j : ℕ) : SortState :=
  let addrA := elemAddr base size j
  let addrB := elemAddr base size (j + 1)
  let (result, mem) := call compar [addrA, addrB] s.mem
  if cmpResult result > 0 then
    let elements := s.elements ∘ Equiv.swap j (j + 1)
    ⟨elements, ((mem.write addrA (elements j)).1.write addrB (elements (j + 1))).1⟩
  else ⟨s.elements, mem⟩

def sortLoop (nmemb : ℕ) (s : SortState) : SortState :=
  (List.range (nmemb - 1)).foldl
    (fun s i => (List.range (nmemb - i - 1)).foldl (compareStep call base size compar) s) s

def readElements (mem : GuestMemory) (i : ℕ) : List Byte :=
  (mem.read (elemAddr base size i) (List.replicate size.toNat 0)).1

def qsort (nmemb : Word) (mem : GuestMemory) : GuestMemory :=
  if nmemb ≤ 1 ∨ size = 0 ∨ compar = 0 then mem
  else (sortLoop call base size compar nmemb.toNat ⟨readElements base size mem, mem⟩).mem

end

/-! ### Arrays in memory -/

/-- `nmemb` elements of `size` bytes are at `base`: as many bytes, all of them mapped. -/
def ArrayAt (mem : GuestMemory) (base size nmemb : Word) : Prop := mem.Mapped base (nmemb.toNat * size.toNat)

def content (mem : GuestMemory) (base size : Word) (i : ℕ) : List Byte :=
  load mem.bytes (elemAddr base size i) size.toNat

/-- Only bytes of `area` have changed. -/
structure SameOutside (area : Set Word) (mem mem' : GuestMemory) : Prop where
  mapped : mem'.mapped = mem.mapped
  bytes : ∀ x, x ∉ area → mem'.bytes x = mem.bytes x

/-- The array, and the part of the stack that the calls of the comparison function use. -/
abbrev arrayAnd (scratch : Set Word) (base size nmemb : Word) : Set Word :=
  block base (nmemb.toNat * size.toNat) ∪ scratch

/-- The function at `compar` only reads memory, but for its stack and the frame `call_function_safe` makes for it there,
and orders the elements by their contents. -/
structure Orders (call : GuestCall) (compar base size nmemb : Word) (scratch : Set Word) (mem : GuestMemory)
    (cmp : List Byte → List Byte → ℤ) : Prop where
  apart : Disjoint (block base (nmemb.toNat * size.toNat)) scratch
  reads : ∀ mem', SameOutside (arrayAnd scratch base size nmemb) mem mem' → ∀ i j, i < nmemb.toNat → j < nmemb.toNat →
    SameOutside scratch mem' (call compar [elemAddr base size i, elemAddr base size j] mem').2
  returns : ∀ mem', SameOutside (arrayAnd scratch base size nmemb) mem mem' → ∀ i j, i < nmemb.toNat → j < nmemb.toNat →
    cmpResult (call compar [elemAddr base size i, elemAddr base size j] mem').1 =
      cmp (content mem' base size i) (content mem' base size j)
  total : ∀ x y : List Byte, x.length = size.toNat → y.length = size.toNat → cmp x y ≤ 0 ∨ cmp y x ≤ 0
  trans : ∀ x y z : List Byte, x.length = size.toNat → y.length = size.toNat → z.length = size.toNat →
    cmp x y ≤ 0 → cmp y z ≤ 0 → cmp x z ≤ 0

section

variable {call : GuestCall} {compar base size nmemb : Word} {scratch area : Set Word} {mem mem' : GuestMemory}
  {cmp : List Byte → List Byte → ℤ}

lemma elemAddr_eq (i : ℕ) : elemAddr base size i = base + BitVec.ofNat 64 (i * size.toNat) := by
  unfold elemAddr
  congr 1
  apply eq_of_toNat_eq
  rw [toNat_mul, toNat_ofNat, toNat_ofNat, Nat.mod_mul_mod]

lemma elem_end_le {i : ℕ} (hi : i < nmemb.toNat) : i * size.toNat + size.toNat ≤ nmemb.toNat * size.toNat := by
  rw [← Nat.succ_mul]
  exact Nat.mul_le_mul_right _ hi

section

variable (harr : ArrayAt mem base size nmemb)
include harr

lemma elem_subset {i : ℕ} (hi : i < nmemb.toNat) :
    block (elemAddr base size i) size.toNat ⊆ block base (nmemb.toNat * size.toNat) := by
  rw [elemAddr_eq]
  exact block_subset_block (elem_end_le hi) harr.1

lemma elem_disjoint {i j : ℕ} (hi : i < nmemb.toNat) (hj : j < nmemb.toNat) (hne : i ≠ j) :
    Disjoint (block (elemAddr base size i) size.toNat) (block (elemAddr base size j) size.toNat) := by
  have hfit := harr.1
  have hparts : ∀ i j, i < j → j < nmemb.toNat →
      Disjoint (block (elemAddr base size i) size.toNat) (block (elemAddr base size j) size.toNat) := by
    intro i j hij hj
    rw [elemAddr_eq, elemAddr_eq]
    apply disjoint_parts
    · rw [← Nat.succ_mul]
      exact Nat.mul_le_mul_right _ hij
    · exact (elem_end_le hj).trans hfit
  rcases Nat.lt_or_gt_of_ne hne with h | h
  · exact hparts i j h hj
  · exact (hparts j i h hi).symm

lemma ArrayAt.elem {i : ℕ} (hi : i < nmemb.toNat) : mem.Mapped (elemAddr base size i) size.toNat := by
  rw [elemAddr_eq]
  exact harr.part (elem_end_le hi)

end

lemma sameOutside_refl : SameOutside area mem mem := ⟨rfl, fun _ _ => rfl⟩

lemma SameOutside.trans {mem'' : GuestMemory} (h : SameOutside area mem mem') {area' : Set Word}
    (h' : SameOutside area' mem' mem'') (hsub : area' ⊆ area) : SameOutside area mem mem'' :=
  ⟨h'.mapped.trans h.mapped, fun x hx => (h'.bytes x fun hin => hx (hsub hin)).trans (h.bytes x hx)⟩

lemma SameOutside.array (h : SameOutside area mem mem')
    (harr : ArrayAt mem base size nmemb) : ArrayAt mem' base size nmemb := by
  refine ⟨harr.1, fun x hx => ?_⟩
  rw [h.mapped]
  exact harr.2 x hx

lemma SameOutside.write (h : SameOutside (arrayAnd scratch base size nmemb) mem mem')
    (harr : ArrayAt mem base size nmemb) {i : ℕ} (hi : i < nmemb.toNat) {bs : List Byte}
    (hbs : bs.length = size.toNat) :
    SameOutside (arrayAnd scratch base size nmemb) mem (mem'.write (elemAddr base size i) bs).1 := by
  refine ⟨h.mapped, fun x hx => ?_⟩
  rw [write_of_notMem, h.bytes x hx]
  intro hin
  rw [hbs] at hin
  exact hx (.inl (elem_subset harr hi hin))

lemma SameOutside.content (h : SameOutside scratch mem mem') (harr : ArrayAt mem base size nmemb)
    (hapart : Disjoint (block base (nmemb.toNat * size.toNat)) scratch) {i : ℕ} (hi : i < nmemb.toNat) :
    content mem' base size i = content mem base size i :=
  load_congr (harr.elem hi).1 fun x hx => h.bytes x (Set.disjoint_left.1 hapart (elem_subset harr hi hx))

lemma content_write (harr : ArrayAt mem' base size nmemb) {i k : ℕ} (hi : i < nmemb.toNat)
    (hk : k < nmemb.toNat) {bs : List Byte} (hbs : bs.length = size.toNat) :
    content (mem'.write (elemAddr base size i) bs).1 base size k = if k = i then bs else content mem' base size k := by
  have hmap := harr.elem hi
  rw [← hbs] at hmap
  rw [write_of_mapped hmap]
  unfold content
  by_cases hki : k = i
  · subst hki
    rw [if_pos rfl, ← hbs]
    exact load_store hmap.1
  · rw [if_neg hki]
    have hdis := elem_disjoint harr hk hi hki
    exact load_store_of_disjoint (harr.elem hk).1 (by rwa [hbs])

/-! ### Memory follows the copies -/

/-- The copies, and the array in memory, are `g`. -/
structure Sync (scratch : Set Word) (mem : GuestMemory) (base size nmemb : Word) (s : SortState) (g : ℕ → List Byte) :
    Prop where
  elements : s.elements = g
  length : ∀ i, (g i).length = size.toNat
  outside : SameOutside (arrayAnd scratch base size nmemb) mem s.mem
  content : ∀ i, i < nmemb.toNat → content s.mem base size i = g i

/-- **One comparison**: what an exchange does to the copies is done to the array. -/
theorem sync_compareStep (hord : Orders call compar base size nmemb scratch mem cmp) (harr : ArrayAt mem base size nmemb)
    {s : SortState} {g : ℕ → List Byte} (h : Sync scratch mem base size nmemb s g) {j : ℕ} (hj : j + 1 < nmemb.toNat) :
    Sync scratch mem base size nmemb (compareStep call base size compar s j) (exchange (fun x y => cmp x y > 0) g j) := by
  have hj0 : j < nmemb.toNat := by omega
  have hmem := hord.reads s.mem h.outside j (j + 1) hj0 hj
  have hres := hord.returns s.mem h.outside j (j + 1) hj0 hj
  rw [h.content j hj0, h.content _ hj] at hres
  -- The call leaves the array alone.
  have hafter := h.outside.trans hmem Set.subset_union_right
  have hsame : ∀ i, i < nmemb.toNat → content _ base size i = g i := fun i hi =>
    (hmem.content (h.outside.array harr) hord.apart hi).trans (h.content i hi)
  unfold compareStep exchange
  simp only [hres, h.elements]
  by_cases hc : cmp (g j) (g (j + 1)) > 0
  · rw [if_pos hc, if_pos hc]
    have hlen : ∀ i, ((g ∘ Equiv.swap j (j + 1)) i).length = size.toNat := fun i => h.length _
    have harr₀ := hafter.array harr
    have hout := hafter.write harr hj0 (hlen j)
    refine ⟨rfl, hlen, hout.write harr hj (hlen (j + 1)), ?_⟩
    intro i hi
    rw [content_write (hout.array harr) hj hi (hlen (j + 1)), content_write harr₀ hj0 hi (hlen j)]
    by_cases h1 : i = j + 1
    · rw [if_pos h1, h1]
    · rw [if_neg h1]
      by_cases h0 : i = j
      · rw [if_pos h0, h0]
      · rw [if_neg h0, hsame i hi]
        simp only [Function.comp_apply, Equiv.swap_apply_of_ne_of_ne h0 h1]
  · rw [if_neg hc, if_neg hc]
    exact ⟨h.elements ▸ rfl, h.length, hafter, hsame⟩

/-- **The loops.** -/
theorem sync_sortLoop (hord : Orders call compar base size nmemb scratch mem cmp) (harr : ArrayAt mem base size nmemb)
    {s : SortState} {g : ℕ → List Byte} (h : Sync scratch mem base size nmemb s g) :
    Sync scratch mem base size nmemb (sortLoop call base size compar nmemb.toNat s)
      (bubble (fun x y => cmp x y > 0) nmemb.toNat g) := by
  refine foldl_range_rel (Sync scratch mem base size nmemb) h ?_
  intro i s g hi h
  refine foldl_range_rel (Sync scratch mem base size nmemb) h ?_
  intro j s g hj h
  exact sync_compareStep hord harr h (by omega)

lemma sync_readElements (harr : ArrayAt mem base size nmemb) :
    Sync scratch mem base size nmemb ⟨readElements base size mem, mem⟩ (readElements base size mem) where
  elements := rfl
  length i := by rw [readElements, length_read, length_replicate]
  outside := sameOutside_refl
  content i hi := by
    have hmap : mem.Mapped (elemAddr base size i) (List.replicate size.toNat (0 : Byte)).length := by
      rw [length_replicate]
      exact harr.elem hi
    rw [readElements, read_of_mapped hmap, length_replicate]
    rfl

lemma bubble_sorts (hord : Orders call compar base size nmemb scratch mem cmp) {g : ℕ → List Byte}
    (hlen : ∀ i, (g i).length = size.toNat) :
    StablySorts (fun x y => cmp x y ≤ 0) nmemb.toNat g (bubble (fun x y => cmp x y > 0) nmemb.toNat g) := by
  let φ : {x : List Byte // x.length = size.toNat} → List Byte := Subtype.val
  let f : ℕ → {x : List Byte // x.length = size.toNat} := fun i => ⟨g i, hlen i⟩
  have : Std.Total (fun a b => cmp (φ a) (φ b) ≤ 0) := ⟨fun a b => hord.total _ _ a.2 b.2⟩
  have : IsTrans _ (fun a b => cmp (φ a) (φ b) ≤ 0) := ⟨fun a b c => hord.trans _ _ _ a.2 b.2 c.2⟩
  have hsorts : StablySorts (fun a b => cmp (φ a) (φ b) ≤ 0) nmemb.toNat f
      (bubble (fun a b => cmp (φ a) (φ b) > 0) nmemb.toNat f) :=
    bubble_stablySorts (fun a b => not_le.symm) nmemb.toNat f
  have hcomp : bubble (fun x y => cmp x y > 0) nmemb.toNat g =
      φ ∘ bubble (fun a b => cmp (φ a) (φ b) > 0) nmemb.toNat f := bubble_comp φ nmemb.toNat f
  rw [hcomp]
  exact hsorts.map (fun x y => cmp x y ≤ 0) φ

end

/-- **`qsort` sorts**, keeps the order of equal elements, and writes nothing but the array and what the calls of the
comparison function need of the stack. -/
theorem qsort_sorts (call : GuestCall) (base nmemb size compar : Word) (scratch : Set Word) (mem : GuestMemory)
    (cmp : List Byte → List Byte → ℤ) (hfun : compar ≠ 0) (harr : ArrayAt mem base size nmemb)
    (hord : Orders call compar base size nmemb scratch mem cmp) :
    StablySorts (fun x y => cmp x y ≤ 0) nmemb.toNat (content mem base size)
        (content (qsort call base size compar nmemb mem) base size) ∧
      SameOutside (arrayAnd scratch base size nmemb) mem (qsort call base size compar nmemb mem) := by
  unfold qsort
  by_cases hfew : nmemb ≤ 1
  · rw [if_pos (.inl hfew)]
    refine ⟨stablySorts_self fun i j hij hj => ?_, sameOutside_refl⟩
    have : nmemb.toNat ≤ 1 := hfew
    omega
  by_cases hsize : size = 0
  · rw [if_pos (.inr (.inl hsize))]
    refine ⟨stablySorts_self fun i j _ _ => ?_, sameOutside_refl⟩
    subst hsize
    exact (hord.total [] [] rfl rfl).elim id id
  rw [if_neg (by simp only [hfew, hsize, hfun, or_false, not_false_eq_true])]
  have hstart : Sync scratch .. := sync_readElements harr
  have hend := sync_sortLoop hord harr hstart
  refine ⟨(bubble_sorts hord hstart.length).congr ?_ ?_, hend.outside⟩
  · intro i hi
    exact (hstart.content i hi).symm
  · intro i hi
    exact (hend.content i hi).symm

/-- A guest whose functions compare the bytes at their two arguments. -/
def byteCompare : GuestCall := fun _ args mem =>
  (BitVec.ofInt 64 ((mem.bytes (args.getD 0 0)).toNat - (mem.bytes (args.getD 1 0)).toNat : ℤ), mem)

/-- The calls of such a guest, with the frame that `call_function_safe` writes for each: the function and eight arguments,
below `0x5000`. -/
def byteCompareSafe : GuestCall := fun compar args mem =>
  let frame := (compar :: (List.range 8).map (args.getD · 0)).flatMap fun w => leBytes 8 w.toNat
  byteCompare compar args (mem.write 0x4FB8 frame).1

/-- `3, 1, 2` at `0x1000`. -/
def threeBytes : GuestMemory := ⟨store (fun _ => 0) 0x1000 [3, 1, 2], fun _ => true⟩

lemma orders_byteCompareSafe : Orders byteCompareSafe 0x400 0x1000 1 3 (block 0x4FB8 72) threeBytes
    (fun x y => ((x.headD 0).toNat - (y.headD 0).toNat : ℤ)) where
  apart := disjoint_of_apart (by decide) (by decide) (by decide)
  reads mem' _ i j _ _ := ⟨rfl, fun x hx => write_of_notMem hx⟩
  returns mem' _ i j hi hj := by
    have hkept (k : ℕ) (hk : k < 3) : elemAddr 0x1000 1 k ∉ block 0x4FB8 72 := by
      interval_cases k <;> exact Nat.not_lt.2 (by decide)
    have h1 := (mem'.bytes (elemAddr 0x1000 1 i)).isLt
    have h2 := (mem'.bytes (elemAddr 0x1000 1 j)).isLt
    show cmpResult (BitVec.ofInt 64 (((mem'.write _ _).1.bytes (elemAddr 0x1000 1 i)).toNat -
      ((mem'.write _ _).1.bytes (elemAddr 0x1000 1 j)).toNat)) = _
    rw [write_of_notMem (hkept i hi), write_of_notMem (hkept j hj), cmpResult_ofInt]
    · simp [content, load]
    · omega
    · omega
  total x y _ _ := by omega
  trans x y z _ _ _ h1 h2 := by omega

theorem qsort_sorts_threeBytes :
    load (qsort byteCompareSafe 0x1000 1 0x400 3 threeBytes).bytes 0x1000 3 = [1, 2, 3] ∧
      StablySorts (fun x y => ((x.headD 0).toNat - (y.headD 0).toNat : ℤ) ≤ 0) 3 (content threeBytes 0x1000 1)
        (content (qsort byteCompareSafe 0x1000 1 0x400 3 threeBytes) 0x1000 1) :=
  ⟨by decide +kernel,
    (qsort_sorts byteCompareSafe 0x1000 3 1 0x400 (block 0x4FB8 72) threeBytes _ (by decide) ⟨by decide, fun _ _ => rfl⟩
      orders_byteCompareSafe).1⟩

end CrossShim.Stdlib
