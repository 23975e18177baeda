import CrossShim.Lib.Layers
import CrossShim.Memory.Contents

/-!
# The ELF loader

`ElfLoader` of `elf_loader.cpp`, over a binary that is parsed already: the lowest address and the span of its
loadable segments, the loop that maps and fills them one after the other, and the symbol tables of the module.

Every segment is mapped page by page at a fixed place, so a segment that shares a page with an earlier one
wipes what that one stored there.  `load_image_iff` says when a load still leaves every byte of the file in
place.
-/

namespace CrossShim.Loader

open Lib Memory MemoryManager

/-! ### The binary -/

/-- A segment, with what `content()` gives for it. -/
structure Segment where
  isLoad : Bool
  virtualAddress : Word
  virtualSize : Word
  physicalSize : Word
  content : List Byte

open Segment

/-- A symbol of the dynamic or the full symbol table. -/
structure Symbol where
  name : String
  value : Word
  isImported : Bool

/-- A relocation of the file. A packed one has its addend in the slot; the parser gives it the addend zero. `stray` is
what the uninitialised `symbol_value` of a record without a symbol holds. -/
structure Relocation where
  address : Word
  type : Word
  addend : Word
  symbol : Option Symbol
  packed : Bool
  stray : Word
  packed_addend : packed = true → addend = 0

structure RelocationInfo where
  offset : Word
  type : Word
  addend : Word
  symbolName : String
  symbolValue : Word

/-- The record `get_relocations` makes of a relocation. -/
def Relocation.info (r : Relocation) : RelocationInfo where
  offset := r.address
  type := r.type
  addend := r.addend
  symbolName := r.symbol.elim "" (·.name)
  symbolValue := r.symbol.elim r.stray (·.value)

structure Binary where
  segments : List Segment
  exportedSymbols : List Symbol
  symtabSymbols : List Symbol
  relocations : List Relocation
  initArray : Word × Word

abbrev Table : Type := String → Option Word

def Table.insert (t : Table) (name : String) (address : Word) : Table :=
  fun n => if n = name then some address else t n

structure LoadedModule where
  name : String
  path : String
  baseAddress : Word
  size : Word
  exports : Table
  localSymbols : Table
  guestNameStr : Word

namespace Binary

variable (binary : Binary)

def loads : List Segment := binary.segments.filter (·.isLoad)

/-- The minimum the loops compute, `UINT64_MAX` when there is no segment. -/
def minStart : Word := binary.loads.foldl (fun m s => min m s.virtualAddress) (BitVec.allOnes 64)

def getMinVaddr : Word := if binary.minStart = BitVec.allOnes 64 then 0 else binary.minStart

def getMemorySize : Word :=
  if binary.minStart = BitVec.allOnes 64 then 0
  else binary.loads.foldl (fun m s => max m (s.virtualAddress + s.virtualSize)) 0 - binary.minStart

def getExports : List Symbol := binary.exportedSymbols.filter fun sym => sym.value ≠ 0

def getSymtabDefinedSymbols : List Symbol :=
  binary.symtabSymbols.filter fun sym =>
    ¬(sym.name = "" ∨ sym.name.toList.head? = some '$') ∧ ¬(sym.value = 0 ∨ sym.isImported)

end Binary

/-! ### Loading a segment -/

/-- The outcomes of the external calls for one segment. -/
structure SegmentEnv where
  env : Env
  content : Outcome

/-- The memory while a load goes on, and the page ranges it has mapped. -/
structure Loading where
  memory : MemoryManager
  mapped : List (Word × Word)

namespace Segment

variable (s : Segment) (minVaddr base : Word)

def vaddr : Word := s.virtualAddress - minVaddr + base

/-- The pages it takes: where they start, and how many bytes they are. -/
def pages : Word × Word :=
  let alignedAddr := alignDown (s.vaddr minVaddr base) pageSize
  (alignedAddr, alignUp (s.virtualSize + (s.vaddr minVaddr base - alignedAddr)) pageSize)

def fileLen : Word := min s.physicalSize (BitVec.ofNat 64 s.content.length)

def fileBytes : Bytes := fun i => s.content.getD i.toNat 0

/-- What the loop makes of a segment once its pages are mapped. -/
def fill (env : SegmentEnv) (memory : MemoryManager) : MemoryManager × Bool :=
  let written :=
    if s.content ≠ [] then memory.write env.content (s.vaddr minVaddr base) s.fileBytes s.fileLen else (memory, true)
  if written.2 then
    if s.virtualSize > s.physicalSize then
      written.1.zero env.env (s.vaddr minVaddr base + s.physicalSize) (s.virtualSize - s.physicalSize)
    else written
  else written

/-- The memory after the region that may stand where the pages go is unmapped. -/
def evict (memory : MemoryManager) : MemoryManager :=
  let (alignedAddr, alignedSize) := s.pages minVaddr base
  if memory.isMapped alignedAddr then (memory.unmap alignedAddr alignedSize).1 else memory

/-- The body of the loop of `load`. -/
def load (env : SegmentEnv) (l : Loading) : Loading × Bool :=
  let (alignedAddr, alignedSize) := s.pages minVaddr base
  match (s.evict minVaddr base l.memory).map env.env alignedAddr alignedSize with
  | (memory, false) => (⟨memory, l.mapped⟩, false)
  | (memory, true) =>
    let filled := s.fill minVaddr base env memory
    (⟨filled.1, l.mapped ++ [(alignedAddr, alignedSize)]⟩, filled.2)

end Segment

/-- The loop of `load`, from its `i`-th round on. -/
def loadSegments (env : ℕ → SegmentEnv) (minVaddr base : Word) : ℕ → List Segment → Loading → Loading × Bool
  | _, [], l => (l, true)
  | i, s :: rest, l =>
    match s.load minVaddr base (env i) l with
    | (l', true) => loadSegments env minVaddr base (i + 1) rest l'
    | (l', false) => (l', false)

def Binary.loadAddress (binary : Binary) (base v : Word) : Word := base + v - binary.getMinVaddr

/-- The module `load` fills in. -/
def Binary.fillModule (binary : Binary) (base : Word) (module : LoadedModule) : LoadedModule :=
  let address (sym : Symbol) := binary.loadAddress base sym.value
  let exports := binary.getExports.foldl
    (fun t sym => if sym.name ≠ "" ∧ sym.value ≠ 0 then t.insert sym.name (address sym) else t) module.exports
  { module with
    baseAddress := base
    size := binary.getMemorySize
    exports := exports
    localSymbols := binary.getSymtabDefinedSymbols.foldl
      (fun t sym => if (exports sym.name).isSome then t else t.insert sym.name (address sym)) module.localSymbols }

/-- `load`.  It gives the module, or none where the source returns false. -/
def Binary.load (binary : Binary) (env : ℕ → SegmentEnv) (memory : MemoryManager) (base : Word)
    (module : LoadedModule) : Loading × Option LoadedModule :=
  match loadSegments env binary.getMinVaddr base 0 binary.loads ⟨memory, []⟩ with
  | (l, true) => (l, some (binary.fillModule base module))
  | (l, false) => (l, none)

/-! ### What a segment leaves in memory -/

/-- The fixed mapping replaces the pages by zero pages, and QEMU takes the accesses to them. -/
structure SegmentEnv.Fixed (env : SegmentEnv) : Prop where
  mapped : env.env.targetMmapOk 0 = true
  content : env.content = .ok
  zero : ∀ i, env.env.write i = .ok

namespace Segment

variable (s : Segment) (minVaddr base : Word)

def Covers (x : Word) : Prop := x - (s.pages minVaddr base).1 < (s.pages minVaddr base).2

instance (x : Word) : Decidable (s.Covers minVaddr base x) := inferInstanceAs (Decidable (_ < _))

/-- What the segment should have in memory: its file part, and zeros from there to its memory size. -/
def wanted (x : Word) : Option Byte :=
  if x - s.vaddr minVaddr base < s.fileLen then some (s.fileBytes (x - s.vaddr minVaddr base))
  else if s.physicalSize ≤ x - s.vaddr minVaddr base ∧ x - s.vaddr minVaddr base < s.virtualSize then some 0
  else none

/-- What loading the segment stores: this, and zeros in the rest of its pages. -/
def layer (x : Word) : Option Byte :=
  (s.wanted minVaddr base x).or (if s.Covers minVaddr base x then some 0 else none)

variable {s minVaddr base} {x : Word} {b c : Byte}

lemma fileLen_le : s.fileLen ≤ s.physicalSize := min_le_left _ _

lemma layer_of_wanted (h : s.wanted minVaddr base x = some b) : s.layer minVaddr base x = some b := by
  simp [layer, h]

lemma layer_of_not_wanted (h : s.wanted minVaddr base x = none) :
    s.layer minVaddr base x = if s.Covers minVaddr base x then some 0 else none := by
  simp [layer, h]

def bssLen (s : Segment) : Word := if s.virtualSize > s.physicalSize then s.virtualSize - s.physicalSize else 0

lemma sub_lt_bssLen {v : Word} :
    x - (v + s.physicalSize) < s.bssLen ↔ s.physicalSize ≤ x - v ∧ x - v < s.virtualSize := by
  unfold bssLen
  by_cases h : s.virtualSize > s.physicalSize
  · rw [if_pos h, BitVec.le_def]
    bv_omega
  · rw [if_neg h, BitVec.le_def]
    rw [gt_iff_lt, BitVec.lt_def] at h
    bv_omega

/-- **The three stores of a round** lay the segment over the memory. -/
theorem splices_eq_overlay (m : Bytes) :
    splice (splice (splice m (s.pages minVaddr base).1 (fun _ => 0) (s.pages minVaddr base).2)
        (s.vaddr minVaddr base) s.fileBytes s.fileLen)
      (s.vaddr minVaddr base + s.physicalSize) (fun _ => 0) s.bssLen = overlay (s.layer minVaddr base) m := by
  have hle : s.fileLen ≤ s.physicalSize := fileLen_le
  funext x
  by_cases hbss : s.physicalSize ≤ x - s.vaddr minVaddr base ∧ x - s.vaddr minVaddr base < s.virtualSize
  · have hfile : ¬ x - s.vaddr minVaddr base < s.fileLen := fun h => absurd (h.trans_le hle) (not_lt.2 hbss.1)
    have hw : s.wanted minVaddr base x = some 0 := by rw [wanted, if_neg hfile, if_pos hbss]
    rw [splice_of_lt (sub_lt_bssLen.2 hbss), overlay_of_some (layer_of_wanted hw)]
  rw [splice_of_not_lt (mt sub_lt_bssLen.1 hbss)]
  by_cases hfile : x - s.vaddr minVaddr base < s.fileLen
  · have hw : s.wanted minVaddr base x = some (s.fileBytes (x - s.vaddr minVaddr base)) := if_pos hfile
    rw [splice_of_lt hfile, overlay_of_some (layer_of_wanted hw)]
  rw [splice_of_not_lt hfile]
  have hw : s.wanted minVaddr base x = none := by rw [wanted, if_neg hfile, if_neg hbss]
  by_cases hc : s.Covers minVaddr base x
  · rw [splice_of_lt hc, overlay_of_some ((layer_of_not_wanted hw).trans (if_pos hc))]
  · rw [splice_of_not_lt hc, overlay_of_none ((layer_of_not_wanted hw).trans (if_neg hc))]

variable {env : SegmentEnv} {memory : MemoryManager} {l l' : Loading}

lemma fill_ok (hq : memory.qemuReady = true) (henv : env.Fixed) : s.fill minVaddr base env memory =
    ({ memory with
        guest := splice (splice memory.guest (s.vaddr minVaddr base) s.fileBytes s.fileLen)
          (s.vaddr minVaddr base + s.physicalSize) (fun _ => 0) s.bssLen }, true) := by
  have hwritten : (if s.content ≠ [] then
      memory.write env.content (s.vaddr minVaddr base) s.fileBytes s.fileLen else (memory, true)) =
      ({ memory with guest := splice memory.guest (s.vaddr minVaddr base) s.fileBytes s.fileLen }, true) := by
    by_cases hc : s.content = []
    · have h0 : s.fileLen = 0 := by
        rw [fileLen, hc]
        exact BitVec.eq_of_toNat_eq (Nat.le_zero.1 (min_le_right s.physicalSize 0))
      rw [if_neg (not_not.2 hc), h0, splice_zero]
    · rw [if_pos hc, henv.content, write_ok hq]
  simp only [fill, hwritten, if_true, bssLen]
  by_cases hlt : s.virtualSize > s.physicalSize
  · rw [if_pos hlt, if_pos hlt]
    exact zero_ok hq henv.zero
  · rw [if_neg hlt, if_neg hlt, splice_zero]

lemma evict_same (s : Segment) (minVaddr base : Word) (memory : MemoryManager) :
    (s.evict minVaddr base memory).qemuReady = memory.qemuReady ∧
      (s.evict minVaddr base memory).guest = memory.guest ∧
      (s.evict minVaddr base memory).heap = memory.heap := by
  simp only [evict, unmap_eq]
  split_ifs <;> exact ⟨rfl, rfl, rfl⟩

/-- **One round of the loop.** -/
theorem load_ok (hq : l.memory.qemuReady = true) (henv : env.Fixed)
    (h : s.load minVaddr base env l = (l', true)) :
    l'.memory.qemuReady = true ∧ l'.memory.guest = overlay (s.layer minVaddr base) l.memory.guest := by
  obtain ⟨hq₁, hg₁, -⟩ := evict_same s minVaddr base l.memory
  unfold load at h
  generalize s.evict minVaddr base l.memory = memory at h hq₁ hg₁
  have hq₂ := hq₁.trans hq
  cases hok : env.env.mmapOk with
  | false => simp [MemoryManager.map, hok] at h
  | true =>
    simp only [MemoryManager.map, hok, if_true, hq₂, henv.mapped, Bool.and_self] at h
    rw [fill_ok (by rfl) henv] at h
    obtain rfl := (Prod.mk.inj h).1
    rw [← hg₁]
    exact ⟨rfl, splices_eq_overlay memory.guest⟩

end Segment

/-- **The loop** lays the segments over the memory, one after the other. -/
theorem loadSegments_ok {env : ℕ → SegmentEnv} {minVaddr base : Word} (henv : ∀ i, (env i).Fixed)
    {segments : List Segment} {i : ℕ} {l l' : Loading} (hq : l.memory.qemuReady = true)
    (h : loadSegments env minVaddr base i segments l = (l', true)) :
    l'.memory.guest = paint l.memory.guest (segments.map fun s => s.layer minVaddr base) := by
  induction segments generalizing i l with
  | nil =>
    obtain rfl := (Prod.mk.inj h).1
    rfl
  | cons s rest ih =>
    unfold loadSegments at h
    cases hs : s.load minVaddr base (env i) l with
    | mk l₁ b =>
      rw [hs] at h
      cases b with
      | false => exact absurd (Prod.mk.inj h).2 Bool.false_ne_true
      | true =>
        obtain ⟨hq₁, hg₁⟩ := load_ok hq (henv i) hs
        rw [ih hq₁ h, hg₁]
        rfl

/-! ### The image of the file -/

namespace Segment

def Occupies (s : Segment) (x : Word) : Prop := x - s.virtualAddress < max s.fileLen s.virtualSize

/-- No byte is taken by both segments; they may share pages. -/
def Disjoint (s t : Segment) : Prop := ∀ x, ¬ (s.Occupies x ∧ t.Occupies x)

/-- The file part of the segment is in memory, followed by zeros up to its memory size. -/
def InPlace (s : Segment) (minVaddr base : Word) (guest : Bytes) : Prop :=
  (∀ i, i < s.fileLen → guest (s.vaddr minVaddr base + i) = s.fileBytes i) ∧
    ∀ i, s.physicalSize ≤ i → i < s.virtualSize → guest (s.vaddr minVaddr base + i) = 0

/-- A page of `t` has a byte of the file part of `s` that is not zero. -/
def Wipes (t s : Segment) (minVaddr base : Word) : Prop :=
  ∃ i, i < s.fileLen ∧ s.fileBytes i ≠ 0 ∧ t.Covers minVaddr base (s.vaddr minVaddr base + i)

variable {s t : Segment} {minVaddr base x : Word} {b c : Byte} {guest : Bytes}

lemma wanted_file {i : Word} (hi : i < s.fileLen) :
    s.wanted minVaddr base (s.vaddr minVaddr base + i) = some (s.fileBytes i) := by
  have he : s.vaddr minVaddr base + i - s.vaddr minVaddr base = i := by bv_omega
  rw [wanted, he, if_pos hi]

lemma wanted_bss {i : Word} (h1 : s.physicalSize ≤ i) (h2 : i < s.virtualSize) :
    s.wanted minVaddr base (s.vaddr minVaddr base + i) = some 0 := by
  have he : s.vaddr minVaddr base + i - s.vaddr minVaddr base = i := by bv_omega
  have hfile : ¬ i < s.fileLen := not_lt.2 (fileLen_le.trans h1)
  rw [wanted, he, if_neg hfile, if_pos ⟨h1, h2⟩]

lemma wanted_cases (h : s.wanted minVaddr base x = some b) :
    (∃ i, i < s.fileLen ∧ x = s.vaddr minVaddr base + i ∧ b = s.fileBytes i) ∨
      ∃ i, s.physicalSize ≤ i ∧ i < s.virtualSize ∧ x = s.vaddr minVaddr base + i ∧ b = 0 := by
  have he : x = s.vaddr minVaddr base + (x - s.vaddr minVaddr base) := by bv_omega
  unfold wanted at h
  split_ifs at h with hfile hbss
  · exact .inl ⟨_, hfile, he, (Option.some.inj h).symm⟩
  · exact .inr ⟨_, hbss.1, hbss.2, he, (Option.some.inj h).symm⟩

lemma inPlace_iff : s.InPlace minVaddr base guest ↔ ∀ x b, s.wanted minVaddr base x = some b → guest x = b := by
  constructor
  · rintro ⟨hfile, hbss⟩ x b h
    obtain ⟨i, hi, rfl, rfl⟩ | ⟨i, h1, h2, rfl, rfl⟩ := wanted_cases h
    · exact hfile i hi
    · exact hbss i h1 h2
  · exact fun h => ⟨fun i hi => h _ _ (wanted_file hi), fun i h1 h2 => h _ _ (wanted_bss h1 h2)⟩

lemma occupies_of_wanted (h : s.wanted minVaddr base x = some b) : s.Occupies (x + minVaddr - base) := by
  have he : ∀ i, s.vaddr minVaddr base + i + minVaddr - base - s.virtualAddress = i := by
    intro i
    unfold vaddr
    bv_omega
  unfold Occupies
  obtain ⟨i, hi, rfl, -⟩ | ⟨i, -, hi, rfl, -⟩ := wanted_cases h <;> rw [he]
  · exact lt_max_of_lt_left hi
  · exact lt_max_of_lt_right hi

lemma Disjoint.layer_zero (h : s.Disjoint t) (hs : s.wanted minVaddr base x = some b)
    (ht : t.layer minVaddr base x = some c) : t.Covers minVaddr base x ∧ c = 0 := by
  cases hw : t.wanted minVaddr base x with
  | some d => exact absurd ⟨occupies_of_wanted hs, occupies_of_wanted hw⟩ (h _)
  | none =>
    rw [layer_of_not_wanted hw] at ht
    split_ifs at ht with hc
    exact ⟨hc, (Option.some.inj ht).symm⟩

lemma Disjoint.not_wipes_iff (h : s.Disjoint t) : ¬ t.Wipes s minVaddr base ↔
    ∀ x b, s.wanted minVaddr base x = some b → b ≠ 0 → t.layer minVaddr base x = none := by
  constructor
  · intro hno x b hb hne
    obtain ⟨i, hi, rfl, rfl⟩ | ⟨i, -, -, -, rfl⟩ := wanted_cases hb
    · by_contra hl
      obtain ⟨c, hc⟩ := Option.ne_none_iff_exists'.1 hl
      exact hno ⟨i, hi, hne, (h.layer_zero hb hc).1⟩
    · exact absurd rfl hne
  · rintro hno ⟨i, hi, hne, hc⟩
    have hnone := hno _ _ (wanted_file hi) hne
    cases hw : t.wanted minVaddr base (s.vaddr minVaddr base + i) with
    | some d => simp [layer, hw] at hnone
    | none => simp [layer, hw, hc] at hnone

end Segment

variable {binary : Binary} {env : ℕ → SegmentEnv} {memory : MemoryManager} {base : Word} {module : LoadedModule}

/-- Every loadable segment of the file is in memory. -/
def Binary.InPlace (binary : Binary) (base : Word) (guest : Bytes) : Prop :=
  ∀ s ∈ binary.loads, s.InPlace binary.getMinVaddr base guest

/-- **What a load leaves in memory.** QEMU runs, and fixed mappings replace the pages they cover. After a load that
returns true, a file with disjoint segments is in memory just when no segment shares a page with bytes other than zero
of an earlier one. -/
theorem load_image_iff (hq : memory.qemuReady = true) (henv : ∀ i, (env i).Fixed)
    (hdisj : binary.loads.Pairwise Segment.Disjoint) (hload : (binary.load env memory base module).2.isSome) :
    binary.InPlace base (binary.load env memory base module).1.memory.guest ↔
      binary.loads.Pairwise fun s t => ¬ t.Wipes s binary.getMinVaddr base := by
  have hguest : (binary.load env memory base module).1.memory.guest =
      paint memory.guest (binary.loads.map fun s => s.layer binary.getMinVaddr base) := by
    unfold Binary.load at hload ⊢
    cases h : loadSegments env binary.getMinVaddr base 0 binary.loads ⟨memory, []⟩ with
    | mk l b =>
      rw [h] at hload
      cases b with
      | false => exact absurd hload Bool.false_ne_true
      | true => exact loadSegments_ok henv hq h
  have hshows : binary.InPlace base (binary.load env memory base module).1.memory.guest ↔
      Shows (fun s : Segment => s.wanted binary.getMinVaddr base) binary.loads
        (binary.load env memory base module).1.memory.guest :=
    forall₂_congr fun s _ => inPlace_iff
  have hpaint : Shows (fun s : Segment => s.wanted binary.getMinVaddr base) binary.loads
      (paint memory.guest (binary.loads.map fun s => s.layer binary.getMinVaddr base)) ↔ _ :=
    paint_shows_iff _ _ (fun s x b => layer_of_wanted)
      (hdisj.imp fun h x b c hb hc => (h.layer_zero hb hc).2)
  rw [hshows, hguest, hpaint]
  exact ⟨fun h => (hdisj.and h).imp fun h => h.1.not_wipes_iff.2 h.2,
    fun h => (hdisj.and h).imp fun h => h.1.not_wipes_iff.1 h.2⟩

/-- A file with a text and a data segment, the second one at the given address. -/
def textAndData (dataAddress : Word) : Binary where
  segments := [⟨true, 0, 2, 2, [1, 2]⟩, ⟨true, dataAddress, 4, 1, [3]⟩]
  exportedSymbols := []
  symtabSymbols := []
  relocations := []
  initArray := (0, 0)

def LoadedModule.blank : LoadedModule := ⟨"", "", 0, 0, fun _ => none, fun _ => none, 0⟩

def runningMemory : MemoryManager := { MemoryManager.init [] with qemuReady := true }

lemma fixed_good : SegmentEnv.Fixed ⟨.good, .ok⟩ := ⟨rfl, rfl, fun _ => rfl⟩

lemma textAndData_disjoint {a : Word} (h1 : 2 ≤ a) (h2 : a ≤ 0x10000) :
    (textAndData a).loads.Pairwise Segment.Disjoint := by
  have hloads : (textAndData a).loads = [⟨true, 0, 2, 2, [1, 2]⟩, ⟨true, a, 4, 1, [3]⟩] := rfl
  have hmax1 : max (fileLen ⟨true, 0, 2, 2, [1, 2]⟩) (2 : Word) = 2 := by decide
  have hmax2 : max (fileLen ⟨true, a, 4, 1, [3]⟩) (4 : Word) = 4 := by
    simp only [fileLen]
    decide
  rw [hloads, List.pairwise_pair]
  rintro x ⟨ht, hd⟩
  simp only [Occupies, hmax1, hmax2] at ht hd
  bv_omega

theorem load_image_iff_two_pages : (textAndData 0x1000).InPlace codeBase
    ((textAndData 0x1000).load (fun _ => ⟨.good, .ok⟩) runningMemory codeBase .blank).1.memory.guest := by
  refine (load_image_iff rfl (fun _ => fixed_good) (textAndData_disjoint (by decide) (by decide)) (by rfl)).2 ?_
  have hloads : (textAndData 0x1000).loads = [⟨true, 0, 2, 2, [1, 2]⟩, ⟨true, 0x1000, 4, 1, [3]⟩] := rfl
  have hpages : (⟨true, 0x1000, 4, 1, [3]⟩ : Segment).pages (textAndData 0x1000).getMinVaddr codeBase =
      (0x40001000, 0x1000) := by decide
  have hvaddr : (⟨true, 0, 2, 2, [1, 2]⟩ : Segment).vaddr (textAndData 0x1000).getMinVaddr codeBase =
      0x40000000 := by decide
  have hlen : (⟨true, 0, 2, 2, [1, 2]⟩ : Segment).fileLen = 2 := by decide
  rw [hloads, List.pairwise_pair]
  rintro ⟨i, hi, -, hc⟩
  simp only [Covers, hpages, hvaddr, hlen] at hi hc
  bv_omega

/-- **A shared page is wiped.** Text is gone after the load if data follows in the same page. -/
theorem text_wiped_by_data : ¬ ∀ (binary : Binary) (env : ℕ → SegmentEnv) (memory : MemoryManager) (base : Word)
    (module : LoadedModule), memory.qemuReady = true → (∀ i, (env i).Fixed) →
      binary.loads.Pairwise Segment.Disjoint → (binary.load env memory base module).2.isSome →
      binary.InPlace base (binary.load env memory base module).1.memory.guest := by
  intro h
  have hplace := h (textAndData 0x800) (fun _ => ⟨.good, .ok⟩) runningMemory codeBase .blank rfl (fun _ => fixed_good)
    (textAndData_disjoint (by decide) (by decide)) (by rfl)
  have hbyte := (hplace ⟨true, 0, 2, 2, [1, 2]⟩ List.mem_cons_self).1 0 (by decide)
  revert hbyte
  decide

end CrossShim.Loader
