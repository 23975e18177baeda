import CrossShim.Memory.ManagerRuns

/-!
# The contents of memory

What `read` delivers and what `write` changes.  On the host path an access that is let through is in the
buffer only if its end does not wrap (`hostPath_ok_iff`).

With regions laid out apart from one another, every address has at most one byte behind it (`Holds`); accesses
inside the address space read those bytes and change no others (`read_spec`, `write_spec`), as long as no host
buffer steps in for QEMU: a failing QEMU access falls back to a buffer that may be stale.
-/

namespace CrossShim.Memory

open Lib Option List MemoryRegion MemoryManager

/-! ### The bounds of the host path -/

section HostPath

variable {mm : MemoryManager} {outcome : Outcome} {address size : Word} {regions : List MemoryRegion}
  {region : MemoryRegion}

/-- The access is a range of one region's host buffer. -/
def InBuffer (regions : List MemoryRegion) (address size : Word) : Prop :=
  ∃ region offset, hostAccess regions address size = some (region, offset) ∧ region ∈ regions ∧
    region.hostPtr.isSome ∧ (offset.toNat : ℤ) = address.toNat - region.address.toNat ∧
    offset.toNat + size.toNat ≤ region.size.toNat

/-- A success of `read` or `write` is an access to a buffer. -/
def HostPathOk (mm : MemoryManager) (outcome : Outcome) (address size : Word) : Prop :=
  ((mm.read outcome address size).isSome → InBuffer mm.regions address size) ∧
    ∀ buffer, (mm.write outcome address buffer size).2 = true → InBuffer mm.regions address size

lemma hostAccess_of_find? (h : regions.find? (fun region => region.accepts address size) = some region) :
    hostAccess regions address size = some (region, address - region.address) := by
  rw [hostAccess, h]
  rfl

lemma read_host (hp : mm.qemuReady = false ∨ outcome ≠ .ok) :
    mm.read outcome address size = hostRead mm.regions address size := by
  refine if_neg ?_
  rintro ⟨h1, h2⟩
  rcases hp with h | h
  · rw [h] at h1
    cases h1
  · exact h h2

lemma write_host {buffer : Bytes} (hp : mm.qemuReady = false ∨ outcome ≠ .ok) :
    (mm.write outcome address buffer size).2 = (hostAccess mm.regions address size).isSome := by
  have key : ∀ mm' : MemoryManager, mm'.regions = mm.regions →
      (mm'.writeHost address buffer size).2 = (hostAccess mm.regions address size).isSome := by
    intro mm' hr
    rw [← isSome_hostWrite buffer, writeHost, hr]
    cases hostWrite address buffer size mm.regions <;> rfl
  unfold write
  by_cases hq : mm.qemuReady = true
  · have ho : outcome ≠ .ok := hp.resolve_left (by rw [hq]; decide)
    simp only [if_pos hq, if_neg ho]
    exact key _ rfl
  · simp only [if_neg hq]
    exact key _ rfl

lemma inBuffer_iff (h : regions.find? (fun region => region.accepts address size) = some region) :
    InBuffer regions address size ↔
      address.toNat + size.toNat < 2 ^ 64 ∨ 2 ^ 64 ≤ region.address.toNat + region.size.toNat := by
  have hacc : region.accepts address size = true := by simpa using find?_some h
  obtain ⟨hge, -, hhost⟩ := accepts_iff.1 hacc
  rw [← accepts_inBounds_iff hacc]
  constructor
  · rintro ⟨r, offset, he, -, -, -, hb⟩
    rw [hostAccess_of_find? h] at he
    cases he
    exact hb
  · intro hb
    refine ⟨region, _, hostAccess_of_find? h, mem_of_find?_eq_some h, hhost, ?_, hb⟩
    have : (address - region.address).toNat = address.toNat - region.address.toNat := by bv_omega
    omega

/-- **The host path stays in the buffer** exactly when the access ends inside the address space, or its region does not.
-/
theorem hostPath_ok_iff (hp : mm.qemuReady = false ∨ outcome ≠ .ok) :
    HostPathOk mm outcome address size ↔
      ∀ region, mm.regions.find? (fun region => region.accepts address size) = some region →
        address.toNat + size.toNat < 2 ^ 64 ∨ 2 ^ 64 ≤ region.address.toNat + region.size.toNat := by
  unfold HostPathOk
  simp only [read_host hp, write_host hp, isSome_hostRead]
  cases hf : mm.regions.find? (fun region => region.accepts address size) with
  | none =>
    have hno : hostAccess mm.regions address size = none := by
      rw [hostAccess, hf]
      rfl
    simp [hno]
  | some region =>
    have hsome : (hostAccess mm.regions address size).isSome = true := by
      rw [hostAccess_of_find? hf]
      rfl
    simp only [hsome, forall_const, and_self, Option.some.injEq, forall_eq']
    exact inBuffer_iff hf

theorem hostPath_ok_at_heapBase : HostPathOk (.init (initialRegions {})) .ok heapBase 8 :=
  (hostPath_ok_iff (.inl rfl)).2 fun _ _ => .inl (by decide)

/-- **The range test wraps**: two bytes at the last address pass for a range of the region at 0. -/
theorem hostPath_wraps : ¬ ∀ (regions : List MemoryRegion) (address size : Word),
    HostPathOk (.init regions) .ok address size := by
  intro h
  obtain ⟨region, offset, he, -, -, -, hb⟩ :=
    (h (initialRegions {}) 0xFFFFFFFFFFFFFFFF 2).1 (by decide)
  have he' : hostAccess (initialRegions {}) 0xFFFFFFFFFFFFFFFF 2 =
      some (⟨0, hleBase, some fun _ => 0⟩, 0xFFFFFFFFFFFFFFFF) := rfl
  rw [init, he'] at he
  cases he
  exact absurd hb (by decide)

end HostPath

/-! ### Bytes in host buffers -/

section HostBytes

variable {regions regions' : List MemoryRegion} {address size x : Word} {buffer : Bytes} {bound : ℕ} {b : Byte}
  {region : MemoryRegion}

/-- The region holds `b` at `x`. -/
def MemoryRegion.Has (region : MemoryRegion) (x : Word) (b : Byte) : Prop :=
  x.toNat ∈ span region.address.toNat region.size.toNat ∧
    ∃ host, region.hostPtr = some host ∧ host (x - region.address) = b

/-- Some host buffer holds `b` at `x`. -/
def HostHolds (regions : List MemoryRegion) (x : Word) (b : Byte) : Prop :=
  ∃ region ∈ regions, region.Has x b

lemma Laid.bound_le (hl : Laid bound (regions.map MemoryRegion.extent)) (hr : region ∈ regions) :
    region.address.toNat + region.size.toNat ≤ bound :=
  hl.2 _ (mem_map_of_mem hr)

lemma Laid.unique (hl : Laid bound (regions.map MemoryRegion.extent)) {r r' : MemoryRegion} (hr : r ∈ regions)
    (hr' : r' ∈ regions) {y : ℕ} (hy : y ∈ span r.address.toNat r.size.toNat)
    (hy' : y ∈ span r'.address.toNat r'.size.toNat) : r = r' := by
  have hpw := pairwise_map.1 hl.1
  have : Std.Symm fun r r' : MemoryRegion =>
      Apart r.extent.1.toNat r.extent.2.toNat r'.extent.1.toNat r'.extent.2.toNat := ⟨fun _ _ h => Apart.symm h⟩
  by_contra hne
  have hap := hpw.forall hr hr' hne
  simp only [MemoryRegion.extent, Apart, mem_span] at *
  omega

lemma hostAccess_covers (hw : address.toNat + size.toNat < 2 ^ 64) {offset : Word}
    (h : hostAccess regions address size = some (region, offset)) :
    region ∈ regions ∧ offset = address - region.address ∧ region.hostPtr.isSome ∧
      region.address.toNat ≤ address.toNat ∧
      address.toNat + size.toNat ≤ region.address.toNat + region.size.toNat := by
  obtain ⟨hf, rfl⟩ := hostAccess_eq_some h
  have hm := mem_of_find?_eq_some hf
  have hacc : region.accepts address size = true := by simpa using find?_some hf
  obtain ⟨h1, h2, h3⟩ := accepts_iff.1 hacc
  refine ⟨hm, rfl, h3, h1, ?_⟩
  omega

theorem hostRead_spec (hw : address.toNat + size.toNat < 2 ^ 64)
    (h : hostRead regions address size = some buffer) {i : Word} (hi : i < size) :
    HostHolds regions (address + i) (buffer i) := by
  cases hacc : hostAccess regions address size with
  | none => simp [hostRead, hacc] at h
  | some e =>
    obtain ⟨region, offset⟩ := e
    obtain ⟨hm, rfl, hsome, h1, h2⟩ := hostAccess_covers hw hacc
    obtain ⟨host, hh⟩ := isSome_iff_exists.1 hsome
    simp only [hostRead, hacc, bind_some, hh, map_some, Option.some.injEq] at h
    refine ⟨region, hm, ?_, host, hh, ?_⟩
    · simp only [mem_span]
      bv_omega
    · rw [← h, window_apply]
      congr 1
      bv_omega

theorem hostRead_of_hostHolds (hl : Laid bound (regions.map MemoryRegion.extent)) (hb : bound < 2 ^ 64)
    (h : HostHolds regions x b) : ∃ buffer, hostRead regions x 1 = some buffer ∧ buffer 0 = b := by
  obtain ⟨region, hm, hx, host, hh, rfl⟩ := h
  have hle := hl.bound_le hm
  have hx1 := mem_span.1 hx
  have hacc : region.accepts x 1 = true := by
    rw [accepts_iff, hh]
    refine ⟨hx1.1, ?_, rfl⟩
    have : (1 : Word).toNat = 1 := rfl
    omega
  obtain ⟨r, hr⟩ := isSome_iff_exists.1
    (find?_isSome (p := fun region => region.accepts x 1).2 ⟨region, hm, hacc⟩)
  have hcov := hostAccess_covers (by simp only [BitVec.ofNat_eq_ofNat, BitVec.toNat_ofNat]; omega)
    (hostAccess_of_find? hr)
  obtain rfl : r = region := by
    refine hl.unique hcov.1 hm (y := x.toNat) ?_ hx
    simp only [mem_span, BitVec.ofNat_eq_ofNat, BitVec.toNat_ofNat] at *
    omega
  refine ⟨window host (x - r.address), ?_, ?_⟩
  · simp only [hostRead, hostAccess_of_find? hr, bind_some, hh, map_some]
  · simp

/-- **What a write on the host path does**: the range has the bytes written, all other bytes stay. -/
theorem hostWrite_spec (hw : address.toNat + size.toNat < 2 ^ 64)
    (h : hostWrite address buffer size regions = some regions') :
    (∀ i, i < size → HostHolds regions' (address + i) (buffer i)) ∧
      ∀ x b, x.toNat ∉ span address.toNat size.toNat → (HostHolds regions' x b ↔ HostHolds regions x b) := by
  obtain ⟨front, region, back, rfl, rfl, hacc⟩ := hostWrite_eq_some h
  obtain ⟨-, -, hsome, h1, h2⟩ := hostAccess_covers hw hacc
  obtain ⟨host, hh⟩ := isSome_iff_exists.1 hsome
  set region' := region.copyIn (address - region.address) buffer size with hr'
  have hh' : region'.hostPtr = some (splice host (address - region.address) buffer size) := by
    rw [hr', MemoryRegion.copyIn, hh]
    rfl
  constructor
  · intro i hi
    refine ⟨region', by simp, ?_, _, hh', ?_⟩
    · show (address + i).toNat ∈ span region.address.toNat region.size.toNat
      simp only [mem_span]
      bv_omega
    · show splice host (address - region.address) buffer size (address + i - region.address) = buffer i
      rw [show address + i - region.address = address - region.address + i by bv_omega]
      exact splice_add hi
  · intro x b hx
    -- the changed region holds the same bytes outside the range
    have hkeep : region'.Has x b ↔ region.Has x b := by
      refine and_congr_right fun _ => ?_
      simp only [hh, hh', Option.some.injEq, exists_eq_left']
      have hout : splice host (address - region.address) buffer size (x - region.address) =
          host (x - region.address) := by
        refine splice_of_not_lt fun hlt => hx ?_
        rw [show x - region.address - (address - region.address) = x - address by bv_omega] at hlt
        exact (sub_lt_iff hw.le).1 hlt
      rw [show region'.address = region.address from rfl, hout]
    simp only [HostHolds, mem_append, mem_cons, or_and_right, exists_or, exists_eq_left, hkeep]

end HostBytes

namespace MemoryManager

variable {mm mm₁ : MemoryManager} {outcome : Outcome} {address size x : Word} {buffer : Bytes} {b : Byte}
  {Q : Word → Byte → Prop}

/-! ### Bytes behind guest addresses -/

/-- The byte behind a guest address: QEMU's once QEMU runs, and that of the host buffer before. -/
def Holds (mm : MemoryManager) (x : Word) (b : Byte) : Prop :=
  if mm.qemuReady then mm.guest x = b else HostHolds mm.regions x b

def byteAt (mm : MemoryManager) (x : Word) : Option Byte := (mm.read .ok x 1).map fun buffer => buffer 0

/-- The regions are laid out apart from one another. -/
abbrev WellLaid (mm : MemoryManager) : Prop :=
  Laid mm.nextDynamicAlloc.toNat (mm.regions.map MemoryRegion.extent)

/-- **A read of one byte delivers the byte that is there.** -/
theorem byteAt_eq_some (hl : mm.WellLaid) (hx : x.toNat + 1 < 2 ^ 64) : mm.byteAt x = some b ↔ mm.Holds x b := by
  unfold byteAt read Holds
  by_cases hq : mm.qemuReady = true
  · simp [hq]
  · simp only [hq, map_eq_some_iff]
    constructor
    · rintro ⟨buffer, hr, rfl⟩
      have := hostRead_spec (by simpa using hx) hr (i := 0) (by decide)
      simpa using this
    · exact hostRead_of_hostHolds hl (by omega)

/-- No host buffer steps in for QEMU on this access. -/
def NoFallback (mm : MemoryManager) (outcome : Outcome) (address size : Word) : Prop :=
  mm.qemuReady = true → outcome = .ok ∨ hostAccess mm.regions address size = none

/-- **What a read delivers.** -/
theorem read_spec (hw : address.toNat + size.toNat < 2 ^ 64) (hn : mm.NoFallback outcome address size)
    (h : mm.read outcome address size = some buffer) {i : Word} (hi : i < size) :
    mm.Holds (address + i) (buffer i) := by
  unfold Holds
  by_cases hq : mm.qemuReady = true
  · rw [if_pos hq]
    rcases hn hq with rfl | hno
    · simp only [read, hq, and_self, if_true, Option.some.injEq] at h
      rw [← h, window_apply]
    · by_cases ho : outcome = .ok
      · simp only [read, hq, ho, and_self, if_true, Option.some.injEq] at h
        rw [← h, window_apply]
      · rw [read_host (.inr ho), hostRead, hno] at h
        cases h
  · rw [if_neg hq]
    rw [read_host (.inl (by simpa using hq))] at h
    exact hostRead_spec hw h hi

def SameOutside (mm mm₁ : MemoryManager) (address size : Word) : Prop :=
  ∀ x b, x.toNat ∉ span address.toNat size.toNat → (mm₁.Holds x b ↔ mm.Holds x b)

lemma write_ok (hq : mm.qemuReady = true) : mm.write .ok address buffer size =
    ({ mm with guest := splice mm.guest address buffer size }, true) := by
  simp [write, hq, Outcome.moved]

/-- **Zeroing** that QEMU takes, piece by piece. -/
theorem zero_ok {env : Env} (hq : mm.qemuReady = true) (hok : ∀ i, env.write i = .ok) :
    mm.zero env address size = ({ mm with guest := splice mm.guest address (fun _ => 0) size }, true) := by
  by_cases h0 : size = 0
  · subst h0
    rw [zero_size_zero, splice_zero]
  have hstep : 0 < (min size ioChunk).toNat := by
    rcases min_choice size ioChunk with h | h <;> rw [h]
    · bv_omega
    · decide
  have hrule : Ends (fun s => s = { mm with guest := splice mm.guest address (fun _ => 0) size }) (fun _ => False)
      (mm.zero env address size) := by
    refine chunks_rule (I := fun offset s => s = { mm with guest := splice mm.guest address (fun _ => 0) offset })
      hstep (by rw [splice_zero]) fun i offset s hlt hI => ?_
    obtain ⟨h1, -⟩ := toNat_chunk (min size ioChunk) hlt
    have hs : s.qemuReady = true := by rw [hI, hq]
    rw [hok, write_ok hs, hI]
    simp only [Ends]
    congr 1
    exact splice_append (by omega)
  obtain ⟨h1, h2⟩ := hrule.of_false
  exact Prod.ext h2 h1

/-- **What a write changes.** -/
theorem write_spec (buffer : Bytes) (hw : address.toNat + size.toNat < 2 ^ 64) (hn : mm.NoFallback outcome address size) :
    Ends (fun s => (∀ i, i < size → s.Holds (address + i) (buffer i)) ∧ SameOutside mm s address size)
      (fun s => SameOutside mm s address size) (mm.write outcome address buffer size) := by
  unfold write SameOutside
  by_cases hq : mm.qemuReady = true
  · rw [if_pos hq]
    by_cases ho : outcome = .ok
    · subst ho
      simp only [if_true, Ends, Holds, hq, Outcome.moved]
      refine ⟨fun i hi => splice_add hi, fun x b hx => ?_⟩
      rw [splice_of_notMem hw.le hx]
    · have hno := (hn hq).resolve_left ho
      have hnone : hostWrite address buffer size mm.regions = none := by
        rw [← not_isSome_iff_eq_none, isSome_hostWrite, hno]
        simp
      simp only [ho, if_false, writeHost, hnone, Ends, Holds, hq, if_true]
      intro x b hx
      have hmoved : (outcome.moved size).toNat ≤ size.toNat := by
        cases outcome with
        | ok => exact le_rfl
        | fail k => exact min_le_right k size
      rw [splice_of_notMem (by omega)]
      simp only [mem_span] at *
      omega
  · rw [if_neg hq]
    unfold writeHost
    cases h : hostWrite address buffer size mm.regions with
    | none =>
      intro x b _
      rfl
    | some regions =>
      obtain ⟨h1, h2⟩ := hostWrite_spec hw h
      simpa only [Ends, Holds, hq, if_false, Bool.false_eq_true] using And.intro h1 h2

lemma SameOutside.refl (mm : MemoryManager) (address size : Word) : SameOutside mm mm address size :=
  fun _ _ _ => Iff.rfl

lemma SameOutside.trans {mm₂ : MemoryManager} (h₁ : SameOutside mm mm₁ address size)
    (h₂ : SameOutside mm₁ mm₂ address size) : SameOutside mm mm₂ address size :=
  fun x b hx => (h₂ x b hx).trans (h₁ x b hx)

lemma SameOutside.mono {a n : Word} (h : SameOutside mm mm₁ address size) (ha : a.toNat ≤ address.toNat)
    (hn : address.toNat + size.toNat ≤ a.toNat + n.toNat) : SameOutside mm mm₁ a n := by
  refine fun x b hx => h x b fun hx' => hx ?_
  simp only [mem_span] at *
  omega

/-! ### Stores piece by piece -/

/-- The first `offset` bytes from `address` on are as `Q` wants them. -/
def Filled (mm : MemoryManager) (Q : Word → Byte → Prop) (address offset : Word) : Prop :=
  ∀ i, i < offset → ∃ b, Q i b ∧ mm.Holds (address + i) b

lemma filled_zero : mm.Filled Q address 0 := by
  intro i hi
  bv_omega

theorem Filled.extend {offset chunk : Word} (h : mm.Filled Q address offset)
    (hw : address.toNat + offset.toNat + chunk.toNat < 2 ^ 64)
    (hnew : ∀ i, i < chunk → ∃ b, Q (offset + i) b ∧ mm₁.Holds (address + offset + i) b)
    (hout : SameOutside mm mm₁ (address + offset) chunk) : mm₁.Filled Q address (offset + chunk) := by
  intro i hi
  by_cases hlt : i < offset
  · obtain ⟨b, hQ, hb⟩ := h i hlt
    refine ⟨b, hQ, (hout _ _ ?_).2 hb⟩
    simp only [mem_span]
    bv_omega
  · obtain ⟨b, hQ, hb⟩ := hnew (i - offset) (by bv_omega)
    rw [show offset + (i - offset) = i by bv_omega] at hQ
    rw [show address + offset + (i - offset) = address + i by bv_omega] at hb
    exact ⟨b, hQ, hb⟩

end MemoryManager

end CrossShim.Memory
