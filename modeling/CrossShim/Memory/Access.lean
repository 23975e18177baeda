import CrossShim.Lib.Blocks
import CrossShim.Memory.Manager

/-!
# Guest memory as handlers see it

`mem_read` and `mem_write` of a handler while the guest runs: QEMU moves the bytes from the first on, up to the first
one that is not mapped.  `write_refines` is the connection to the memory manager.
-/

namespace CrossShim.Memory

open Lib List

structure GuestMemory where
  bytes : Bytes
  mapped : Word → Bool

namespace GuestMemory

/-- How many of `n` bytes from `a` on an access comes to. -/
def reach (g : GuestMemory) (a : Word) (n : ℕ) : ℕ :=
  ((List.range n).takeWhile fun i => g.mapped (a + BitVec.ofNat 64 i)).length

/-- `mem_read`, into a buffer with these bytes. -/
def read (g : GuestMemory) (a : Word) (buf : List Byte) : List Byte × Bool :=
  let k := g.reach a buf.length
  (load g.bytes a k ++ buf.drop k, k = buf.length)

/-- `mem_write`. -/
def write (g : GuestMemory) (a : Word) (bs : List Byte) : GuestMemory × Bool :=
  let k := g.reach a bs.length
  ({ g with bytes := store g.bytes a (bs.take k) }, k = bs.length)

def Mapped (g : GuestMemory) (a : Word) (n : ℕ) : Prop := n ≤ 2 ^ 64 ∧ ∀ x ∈ block a n, g.mapped x

section

variable {g : GuestMemory} {a x : Word} {n c : ℕ} {bs : List Byte}

lemma reach_le : g.reach a n ≤ n := by
  unfold reach
  have := ((List.range n).takeWhile_sublist fun i => g.mapped (a + BitVec.ofNat 64 i)).length_le
  rwa [length_range] at this

lemma reach_of_mapped (h : g.Mapped a n) : g.reach a n = n := by
  have hall : ∀ i ∈ List.range n, g.mapped (a + BitVec.ofNat 64 i) = true := by
    intro i hi
    exact h.2 _ (add_mem_block (mem_range.1 hi) h.1)
  rw [reach, takeWhile_eq_self_iff.2 hall, length_range]

lemma reach_succ : g.reach a (n + 1) =
    if g.reach a n = n ∧ g.mapped (a + BitVec.ofNat 64 n) then n + 1 else g.reach a n := by
  unfold reach
  rw [range_succ, takeWhile_append, length_range]
  by_cases hn : ((List.range n).takeWhile fun i => g.mapped (a + BitVec.ofNat 64 i)).length = n
  · by_cases hm : g.mapped (a + BitVec.ofNat 64 n) = true
    · rw [if_pos hn, if_pos ⟨hn, hm⟩]
      simp [hm]
    · rw [if_pos hn, if_neg fun h => hm h.2, hn]
      simp [hm]
  · rw [if_neg hn, if_neg fun h => hn h.1]

lemma lt_reach_iff : c < g.reach a n ↔ c < n ∧ ∀ i, i ≤ c → g.mapped (a + BitVec.ofNat 64 i) := by
  induction n generalizing c with
  | zero => simp [reach]
  | succ n ih =>
    have hle := reach_le (g := g) (a := a) (n := n)
    rw [reach_succ]
    by_cases hall : g.reach a n = n ∧ g.mapped (a + BitVec.ofNat 64 n)
    · rw [if_pos hall]
      refine ⟨fun hc => ⟨hc, fun i hi => ?_⟩, And.left⟩
      rcases Nat.lt_or_ge i n with hin | hin
      · exact (ih.1 (hall.1.symm ▸ hin)).2 i le_rfl
      · obtain rfl : i = n := by omega
        exact hall.2
    · rw [if_neg hall, ih]
      refine ⟨fun h => ⟨h.1.trans (Nat.lt_succ_self n), h.2⟩, fun h => ⟨?_, h.2⟩⟩
      -- were all of the first `n + 1` mapped, the access would come further
      by_contra hc
      obtain rfl : c = n := by omega
      refine hall ⟨?_, h.2 c le_rfl⟩
      rcases Nat.eq_zero_or_pos c with rfl | hpos
      · omega
      · have := ih.2 ⟨Nat.sub_lt hpos one_pos, fun i hi => h.2 i (by omega)⟩
        omega

lemma reach_le_iff : g.reach a n ≤ c ↔ n ≤ c ∨ ∃ i, i ≤ c ∧ g.mapped (a + BitVec.ofNat 64 i) = false := by
  rw [← not_lt, lt_reach_iff, not_and_or, not_lt]
  simp

lemma length_read : (g.read a bs).1.length = bs.length := by
  have := reach_le (g := g) (a := a) (n := bs.length)
  simp only [read, length_append, length_load, length_drop]
  omega

lemma read_of_mapped (h : g.Mapped a bs.length) : g.read a bs = (load g.bytes a bs.length, true) := by
  simp [read, reach_of_mapped h]

lemma write_of_mapped (h : g.Mapped a bs.length) : g.write a bs = ({ g with bytes := store g.bytes a bs }, true) := by
  simp [write, reach_of_mapped h]

lemma write_of_notMem_reach (hx : x ∉ block a (g.reach a bs.length)) : (g.write a bs).1.bytes x = g.bytes x := by
  apply store_of_notMem
  rwa [length_take, min_eq_left reach_le]

lemma write_of_notMem (hx : x ∉ block a bs.length) : (g.write a bs).1.bytes x = g.bytes x :=
  write_of_notMem_reach fun h => hx (block_mono reach_le h)

lemma Mapped.mono {k : ℕ} (h : g.Mapped a n) (hk : k ≤ n) : g.Mapped a k :=
  ⟨hk.trans h.1, fun x hx => h.2 x (block_mono hk hx)⟩

lemma Mapped.congr {g' : GuestMemory} (h : g.Mapped a n) (hm : g'.mapped = g.mapped) : g'.Mapped a n :=
  ⟨h.1, fun x hx => hm ▸ h.2 x hx⟩

lemma Mapped.part {i k : ℕ} (h : g.Mapped a n) (hk : i + k ≤ n) : g.Mapped (a + BitVec.ofNat 64 i) k :=
  ⟨by have := h.1; omega, fun x hx => h.2 x (block_subset_block hk h.1 hx)⟩

end

/-! ### The memory manager -/

variable {g : GuestMemory} {a : Word} {mm : MemoryManager}

lemma guest_writeHost {size : Word} {buffer : Bytes} : (mm.writeHost a buffer size).1.guest = mm.guest := by
  unfold MemoryManager.writeHost
  cases hostWrite a buffer size mm.regions <;> rfl

/-- **The manager's `write`** does to QEMU's memory what `write` does, if QEMU moves what is mapped. -/
theorem write_refines (hq : mm.qemuReady = true) (hg : mm.guest = g.bytes) {bs : List Byte} (hn : bs.length < 2 ^ 64)
    {o : Outcome} (ho : o.moved (BitVec.ofNat 64 bs.length) = BitVec.ofNat 64 (g.reach a bs.length)) :
    (mm.write o a (ofList bs) (BitVec.ofNat 64 bs.length)).1.guest = (g.write a bs).1.bytes := by
  have hle := reach_le (g := g) (a := a) (n := bs.length)
  have hsplice : splice mm.guest a (ofList bs) (o.moved (BitVec.ofNat 64 bs.length)) = (g.write a bs).1.bytes := by
    rw [ho, splice_ofList hle (by omega), hg]
    rfl
  unfold MemoryManager.write
  rw [if_pos hq]
  split
  · exact hsplice
  · rw [guest_writeHost]
    exact hsplice

end GuestMemory

end CrossShim.Memory
