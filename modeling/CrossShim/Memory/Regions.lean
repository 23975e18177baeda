import CrossShim.Lib.Bytes

/-!
# Regions and the host path

A region of guest memory and the host buffer behind it, and the part of `MemoryManager::read` and `write` that
goes to host buffers: the first region whose range test accepts the access is the one that is used.

The range test adds guest values that wrap.  `accepts_inBounds_iff` says when an access it lets through lies in
the buffer.
-/

namespace CrossShim.Memory

open Lib Option

/-- `MemoryRegion`; a host buffer is given by the byte at each offset, and its length is `size`. -/
structure MemoryRegion where
  address : Word
  size : Word
  hostPtr : Option Bytes

namespace MemoryRegion

def accepts (region : MemoryRegion) (address size : Word) : Bool :=
  address ≥ region.address && address + size ≤ region.address + region.size && region.hostPtr.isSome

/-- The region after `size` bytes of `buffer` are copied into its buffer at `offset`. -/
def copyIn (region : MemoryRegion) (offset : Word) (buffer : Bytes) (size : Word) : MemoryRegion :=
  { region with hostPtr := region.hostPtr.map fun host => splice host offset buffer size }

variable {region : MemoryRegion} {address size : Word}

lemma accepts_iff :
    region.accepts address size = true ↔ region.address.toNat ≤ address.toNat ∧
      (address.toNat + size.toNat) % 2 ^ 64 ≤ (region.address.toNat + region.size.toNat) % 2 ^ 64 ∧
      region.hostPtr.isSome := by
  simp only [accepts, Bool.and_eq_true, decide_eq_true_eq, ge_iff_le, BitVec.le_def, BitVec.toNat_add, and_assoc]

/-- **When an accepted access is in bounds.** -/
theorem accepts_inBounds_iff (h : region.accepts address size = true) :
    (address - region.address).toNat + size.toNat ≤ region.size.toNat ↔
      address.toNat + size.toNat < 2 ^ 64 ∨ 2 ^ 64 ≤ region.address.toNat + region.size.toNat := by
  obtain ⟨h1, h2, -⟩ := accepts_iff.1 h
  have hoff : (address - region.address).toNat = address.toNat - region.address.toNat := by bv_omega
  rw [hoff]
  omega

end MemoryRegion

open MemoryRegion

/-! ### The search through the regions -/

/-- The region the host path uses, and the offset in its buffer the copy starts at. -/
def hostAccess (regions : List MemoryRegion) (address size : Word) : Option (MemoryRegion × Word) :=
  (regions.find? fun region => region.accepts address size).map fun region => (region, address - region.address)

/-- The host path of `read`. -/
def hostRead (regions : List MemoryRegion) (address size : Word) : Option Bytes :=
  (hostAccess regions address size).bind fun (region, offset) => region.hostPtr.map fun host => window host offset

/-- The host path of `write`: the regions after it, if one accepts the access. -/
def hostWrite (address : Word) (buffer : Bytes) (size : Word) : List MemoryRegion → Option (List MemoryRegion)
  | [] => none
  | region :: rest =>
    if region.accepts address size then some (region.copyIn (address - region.address) buffer size :: rest)
    else (hostWrite address buffer size rest).map (region :: ·)

section

variable {regions regions' : List MemoryRegion} {address size : Word} {buffer : Bytes}

lemma hostAccess_eq_some {region : MemoryRegion} {offset : Word}
    (h : hostAccess regions address size = some (region, offset)) :
    regions.find? (·.accepts address size) = some region ∧ offset = address - region.address := by
  simp only [hostAccess, map_eq_some_iff, Prod.mk.injEq] at h
  obtain ⟨r, hr, rfl, rfl⟩ := h
  exact ⟨hr, rfl⟩

lemma isSome_hostRead : (hostRead regions address size).isSome = (hostAccess regions address size).isSome := by
  cases h : hostAccess regions address size with
  | none => simp [hostRead, h]
  | some e =>
    obtain ⟨hf, -⟩ := hostAccess_eq_some h
    have hacc : e.1.accepts address size = true := by simpa using List.find?_some hf
    obtain ⟨host, hh⟩ := isSome_iff_exists.1 (accepts_iff.1 hacc).2.2
    simp [hostRead, h, hh]

/-- **Where a write goes**: into the buffer the search finds, and nowhere else. -/
theorem hostWrite_eq_some (h : hostWrite address buffer size regions = some regions') :
    ∃ front region back, regions = front ++ region :: back ∧
      regions' = front ++ region.copyIn (address - region.address) buffer size :: back ∧
      hostAccess regions address size = some (region, address - region.address) := by
  induction regions generalizing regions' with
  | nil => cases h
  | cons r rest ih =>
    unfold hostWrite at h
    by_cases hr : r.accepts address size = true
    · rw [if_pos hr] at h
      cases h
      refine ⟨[], r, rest, rfl, rfl, ?_⟩
      simp only [hostAccess, List.find?_cons, hr, map_some]
    · rw [if_neg hr] at h
      obtain ⟨rest', hrest, rfl⟩ := map_eq_some_iff.1 h
      obtain ⟨front, region, back, rfl, rfl, hacc⟩ := ih hrest
      refine ⟨r :: front, region, back, rfl, rfl, ?_⟩
      rw [Bool.not_eq_true] at hr
      simpa only [hostAccess, List.cons_append, List.find?_cons, hr] using hacc

lemma hostWrite_eq_none (h : hostWrite address buffer size regions = none) :
    hostAccess regions address size = none := by
  induction regions with
  | nil => rfl
  | cons r rest ih =>
    unfold hostWrite at h
    by_cases hr : r.accepts address size = true
    · rw [if_pos hr] at h
      cases h
    · rw [if_neg hr, map_eq_none_iff] at h
      rw [Bool.not_eq_true] at hr
      simpa only [hostAccess, List.find?_cons, hr] using ih h

lemma isSome_hostWrite (buffer : Bytes) :
    (hostWrite address buffer size regions).isSome = (hostAccess regions address size).isSome := by
  cases h : hostWrite address buffer size regions with
  | none => rw [hostWrite_eq_none h]; rfl
  | some regions' =>
    obtain ⟨_, _, _, _, _, hacc⟩ := hostWrite_eq_some h
    rw [hacc]
    rfl

end

end CrossShim.Memory
