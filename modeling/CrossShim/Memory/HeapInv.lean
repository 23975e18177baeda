import CrossShim.Memory.FreeList

/-!
# The heap invariant

`Inv` ties the live map, the free indices and the high-water mark together.  It is kept by `free`, by `allocate`
as long as the alignment is a power of two and the fit test at the high-water mark does not wrap, and hence by
`realloc`.  `Served` is what a request that is granted does.
-/

namespace CrossShim.Memory.HeapAllocator

open Lib Set

/-- **The heap invariant.** -/
structure Inv (h : HeapAllocator) : Prop where
  basePos : 0 < h.base.toNat
  baseLe : h.base.toNat ≤ h.highWaterMark.toNat
  hwmLe : h.highWaterMark.toNat ≤ h.base.toNat + h.size.toNat
  endLt : h.base.toNat + h.size.toNat < 2 ^ 63
  free : h.FreeOk
  livePos : ∀ a n, (a, n) ∈ h.allocations.entries → 0 < n.toNat
  liveApart : ∀ a n b m, (a, n) ∈ h.allocations.entries → (b, m) ∈ h.allocations.entries → a ≠ b →
    Apart a.toNat n.toNat b.toNat m.toNat
  liveIn : ∀ a n, (a, n) ∈ h.allocations.entries →
    h.base.toNat ≤ a.toNat ∧ a.toNat + n.toNat ≤ h.highWaterMark.toNat
  freeIn : ∀ a n, (a, n) ∈ h.freeBlocks.entries →
    h.base.toNat ≤ a.toNat ∧ a.toNat + n.toNat ≤ h.highWaterMark.toNat
  disj : Disjoint (cover h.allocations) (cover h.freeBlocks)

variable {h h' : HeapAllocator} {size a n address s al bs ba : Word} {m : OrdMap Word Word} {p : ℕ}

lemma inv_init {base : Word} (hb : 0 < base.toNat) (he : base.toNat + size.toNat < 2 ^ 63) : (init base size).Inv where
  basePos := hb
  baseLe := le_rfl
  hwmLe := Nat.le_add_right _ _
  endLt := he
  free := ⟨by simp [init], by simp [init, OrdMultimap.empty], by simp [init], by simp [init], by simp [init]⟩
  livePos := by simp [init]
  liveApart := by simp [init]
  liveIn := by simp [init]
  freeIn := by simp [init]
  disj := by simp [init, cover]

/-! ### Covers and apartness -/

lemma apart_of_disjoint_cover (hpos : ∀ a n, (a, n) ∈ m.entries → 0 < n.toNat) {s : ℕ} (hs : 0 < s)
    (hd : Disjoint (span p s) (cover m)) (han : (a, n) ∈ m.entries) : Apart p s a.toNat n.toNat :=
  (apart_iff_disjoint hs (hpos a n han)).2 (hd.mono_right (span_subset_cover han))

lemma disjoint_cover_of_apart {s : ℕ} (h : ∀ a n, (a, n) ∈ m.entries → Apart p s a.toNat n.toNat) :
    Disjoint (span p s) (cover m) := by
  rw [disjoint_left]
  rintro x hx ⟨a, n, han, hx'⟩
  exact disjoint_left.1 (h a n han).disjoint hx hx'

lemma bounds_of_cover {lo hi : ℕ} (hsub : cover m ⊆ Set.Ico lo hi) (hn : 0 < n.toNat) (han : (a, n) ∈ m.entries) :
    lo ≤ a.toNat ∧ a.toNat + n.toNat ≤ hi := by
  have h1 := hsub (span_subset_cover han (show a.toNat ∈ span a.toNat n.toNat by simp; omega))
  have h2 := hsub (span_subset_cover han (show a.toNat + n.toNat - 1 ∈ span a.toNat n.toNat by simp; omega))
  simp only [mem_Ico] at h1 h2
  omega

lemma Inv.cover_free (hi : h.Inv) : cover h.freeBlocks ⊆ Set.Ico h.base.toNat h.highWaterMark.toNat := by
  rintro x ⟨a, n, han, hx⟩
  have := hi.freeIn a n han
  simp only [mem_span, mem_Ico] at *
  omega

lemma Inv.cover_live (hi : h.Inv) : cover h.allocations ⊆ Set.Ico h.base.toNat h.highWaterMark.toNat := by
  rintro x ⟨a, n, han, hx⟩
  have := hi.liveIn a n han
  simp only [mem_span, mem_Ico] at *
  omega

lemma addFreeBlock_of_disjoint (hf : h.FreeOk) (hpos : 0 < size.toNat) (hfin : address.toNat + size.toNat < 2 ^ 63)
    (hd : Disjoint (span address.toNat size.toNat) (cover h.freeBlocks)) :
    (h.addFreeBlock address size).FreeOk ∧
      cover (h.addFreeBlock address size).freeBlocks = cover h.freeBlocks ∪ span address.toNat size.toNat ∧
      ∃ M F, h.addFreeBlock address size = { h with freeBlocks := M, freeBlocksBySize := F } :=
  addFreeBlock_spec hf hpos hfin fun _ _ han => apart_of_disjoint_cover hf.pos hpos hd han

/-! ### A granted request -/

/-- **A granted request** of `s` bytes at `p`. -/
structure Served (h h' : HeapAllocator) (p s al : Word) : Prop where
  inv : h'.Inv
  base : h'.base = h.base
  size : h'.size = h.size
  allocs : h'.allocations = h.allocations.insert p s
  fresh : Disjoint (span p.toNat s.toNat) (cover h.allocations)
  dvd : al.toNat ∣ p.toNat
  pos : 0 < s.toNat
  lo : h.base.toNat ≤ p.toNat
  hi : p.toNat + s.toNat ≤ h'.highWaterMark.toNat
  hwm : h.highWaterMark.toNat ≤ h'.highWaterMark.toNat

lemma Inv.cover_track (hi : h.Inv) {p : Word} (hs : 0 < s.toNat)
    (hd : Disjoint (span p.toNat s.toNat) (cover h.allocations)) :
    cover (h.allocations.insert p s) = cover h.allocations ∪ span p.toNat s.toNat :=
  cover_insert fun _ hk => not_apart_self hs (hi.livePos _ _ hk) (apart_of_disjoint_cover hi.livePos hs hd hk)

/-- What is left to show of a served request: the free bytes were free before, and the block is neither live nor free.
-/
lemma Inv.serve (hi : h.Inv) {p : Word} (hf : h'.FreeOk) (hbase : h'.base = h.base) (hsize : h'.size = h.size)
    (hal : h'.allocations = h.allocations.insert p s) (hpos : 0 < s.toNat)
    (hwm : h.highWaterMark.toNat ≤ h'.highWaterMark.toNat) (hend : h'.highWaterMark.toNat ≤ h.base.toNat + h.size.toNat)
    (hsub : cover h'.freeBlocks ⊆ cover h.freeBlocks) (hlo : h.base.toNat ≤ p.toNat)
    (hhi : p.toNat + s.toNat ≤ h'.highWaterMark.toNat) (hdvd : al.toNat ∣ p.toNat)
    (hdf : Disjoint (span p.toNat s.toNat) (cover h'.freeBlocks))
    (hdl : Disjoint (span p.toNat s.toNat) (cover h.allocations)) : Served h h' p s al := by
  have hap : ∀ a n, (a, n) ∈ h.allocations.entries → Apart p.toNat s.toNat a.toNat n.toNat :=
    fun _ _ han => apart_of_disjoint_cover hi.livePos hpos hdl han
  refine ⟨⟨by rw [hbase]; exact hi.basePos, ?_, by rw [hbase, hsize]; exact hend,
    by rw [hbase, hsize]; exact hi.endLt, hf, ?_, ?_, ?_, ?_, ?_⟩, hbase, hsize, hal, hdl, hdvd, hpos, hlo, hhi, hwm⟩
  · rw [hbase]
    exact hi.baseLe.trans hwm
  · rw [hal]
    exact OrdMap.forall_insert hpos hi.livePos
  · rw [hal]
    exact OrdMap.pairwise_insert .symm hap hi.liveApart
  · rw [hal, hbase]
    exact OrdMap.forall_insert ⟨hlo, hhi⟩ fun a n han => ⟨(hi.liveIn a n han).1, (hi.liveIn a n han).2.trans hwm⟩
  · intro a n han
    rw [hbase]
    have := bounds_of_cover (hsub.trans hi.cover_free) (hf.pos a n han) han
    omega
  · rw [hal, hi.cover_track hpos hdl, disjoint_union_left]
    exact ⟨hi.disj.mono_right hsub, hdf⟩

/-! ### Serving from a free block -/

lemma fitLoop_eq_find? (l : List (Word × Word)) :
    fitLoop s al l = l.find? fun e => s + (alignUp e.2 al - e.2) ≤ e.1 := by
  induction l with
  | nil => rfl
  | cons e l ih =>
    unfold fitLoop
    rw [List.find?_cons, ih]
    by_cases hfit : s + (alignUp e.2 al - e.2) ≤ e.1
    · simp [hfit]
    · simp [hfit]

lemma fitLoop_some {l : List (Word × Word)} (hl : fitLoop s al l = some (bs, ba)) :
    (bs, ba) ∈ l ∧ s + (alignUp ba al - ba) ≤ bs := by
  rw [fitLoop_eq_find?] at hl
  exact ⟨List.mem_of_find?_eq_some hl, by simpa using List.find?_some hl⟩

lemma giveBack_spec (address size : Word) (c : Prop) [Decidable c] (hc : c → 0 < size.toNat)
    (hf : h.FreeOk) (hfin : address.toNat + size.toNat < 2 ^ 63)
    (hd : Disjoint (span address.toNat size.toNat) (cover h.freeBlocks)) :
    (if c then h.addFreeBlock address size else h).FreeOk ∧
      cover (if c then h.addFreeBlock address size else h).freeBlocks =
        cover h.freeBlocks ∪ (if c then span address.toNat size.toNat else ∅) ∧
      ∃ M F, (if c then h.addFreeBlock address size else h) = { h with freeBlocks := M, freeBlocksBySize := F } := by
  by_cases hcc : c
  · simp only [hcc, if_true]
    exact addFreeBlock_of_disjoint hf (hc hcc) hfin hd
  · simp only [hcc, if_false]
    exact ⟨hf, (union_empty _).symm, _, _, rfl⟩

lemma FreeOk.disjoint_removed (hf : h.FreeOk) (hm : (a, n) ∈ h.freeBlocks.entries) :
    Disjoint (span a.toNat n.toNat) (cover (h.removeFreeBlock a n).freeBlocks) := by
  apply disjoint_cover_of_apart
  intro b m hbm
  obtain ⟨hne, hbm⟩ := removeFreeBlock_mem.1 hbm
  exact (hf.gap _ _ _ _ hm hbm hne.symm).apart

/-- The rest of a block of `bs` bytes at `ba` behind a request of `s` bytes at `r`, if it is too short to be kept. -/
def dropped (bs ba s r : Word) : Set ℕ :=
  if bs - s - (r - ba) ≥ 16 then ∅ else span (r + s).toNat (bs - s - (r - ba)).toNat

/-- What `carve` makes of a free block: the bytes before and after the request are free, or given up. -/
lemma carve_eq (hf : h.FreeOk) {r : Word} (hr : alignUp ba al = r) (hm : (ba, bs) ∈ h.freeBlocks.entries)
    (hlo : ba.toNat ≤ r.toNat) (hfit : r.toNat + s.toNat ≤ ba.toNat + bs.toNat) :
    ∃ M F, h.carve bs ba s al = (({ h with freeBlocks := M, freeBlocksBySize := F } : HeapAllocator).track r s, r) ∧
      ({ h with freeBlocks := M, freeBlocksBySize := F } : HeapAllocator).FreeOk ∧
      cover h.freeBlocks = cover M ∪ (span r.toNat s.toNat ∪ dropped bs ba s r) ∧
      Disjoint (span r.toNat s.toNat ∪ dropped bs ba s r) (cover M) ∧
      Disjoint (dropped bs ba s r) (span r.toNat s.toNat) := by
  have hfin := hf.fin ba bs hm
  -- the arithmetic of the carving, on naturals
  have hpad : (r - ba).toNat = r.toNat - ba.toNat := by bv_omega
  have hrs : (r + s).toNat = r.toNat + s.toNat := by bv_omega
  have hrem : (bs - s - (r - ba)).toNat = ba.toNat + bs.toNat - (r.toNat + s.toNat) := by bv_omega
  have hparts : span ba.toNat bs.toNat = span ba.toNat (r - ba).toNat ∪ (span r.toNat s.toNat ∪
      span (r + s).toNat (bs - s - (r - ba)).toNat) := by
    rw [span_union_span hrs.symm, span_union_span (by omega)]
    congr 1
    omega
  have hcover := cover_remove hm
  have hd := hf.disjoint_removed hm
  rw [hparts] at hcover hd
  simp only [disjoint_union_left] at hd
  obtain ⟨hdpre, hdreq, hdrest⟩ := hd
  have hprereq : Apart ba.toNat (r - ba).toNat r.toNat s.toNat := .inl (by omega)
  have hprerest : Apart ba.toNat (r - ba).toNat (r + s).toNat (bs - s - (r - ba)).toNat := .inl (by omega)
  have hreqrest : Apart r.toNat s.toNat (r + s).toNat (bs - s - (r - ba)).toNat := .inl (by omega)
  obtain ⟨hf₂, hc₂, M₂, F₂, he₂⟩ := giveBack_spec ba (r - ba) (r - ba > 0)
    (fun hc => by bv_omega) (hf.remove hm) (by omega) hdpre
  have hspan : (if r - ba > 0 then span ba.toNat (r - ba).toNat else ∅) = span ba.toNat (r - ba).toNat := by
    split
    case isTrue => rfl
    case isFalse h0 => simp [span, show (r - ba).toNat = 0 by bv_omega]
  rw [hspan] at hc₂
  obtain ⟨hf₃, hc₃, M₃, F₃, he₃⟩ := giveBack_spec (r + s) (bs - s - (r - ba))
    (bs - s - (r - ba) ≥ 16) (fun hc => by bv_omega) hf₂ (by omega) (hc₂ ▸ hdrest.sup_right hprerest.disjoint.symm)
  rw [hc₂] at hc₃
  refine ⟨M₃, F₃, ?_, ?_, ?_⟩
  · simp only [carve, hr]
    rw [he₃, he₂]
    rfl
  · rw [he₃, he₂] at hf₃
    exact hf₃.congr rfl rfl
  · rw [he₃] at hc₃
    simp only [hc₃, ← hcover, dropped]
    split
    case isTrue =>
      simp only [union_empty, disjoint_union_right, empty_disjoint, and_true]
      refine ⟨?_, ⟨hdreq, hprereq.disjoint.symm⟩, hreqrest.disjoint⟩
      ext x
      simp only [mem_union]
      tauto
    case isFalse =>
      simp only [union_empty, disjoint_union_right, disjoint_union_left, union_assoc, true_and]
      exact ⟨⟨⟨hdreq, hdrest⟩, hprereq.disjoint.symm, hprerest.disjoint.symm⟩, hreqrest.disjoint.symm⟩

/-- **The account of a call** that gives up the bytes `T`. -/
structure Accounts (h h' : HeapAllocator) (T : Set ℕ) : Prop where
  bytes : cover h'.allocations ∪ cover h'.freeBlocks ∪ T =
    cover h.allocations ∪ cover h.freeBlocks ∪ Ico h.highWaterMark.toNat h'.highWaterMark.toNat
  disj : Disjoint T (cover h'.allocations ∪ cover h'.freeBlocks)

theorem carve_spec (hi : h.Inv) (hal : al.toNat.isPowerOfTwo) (hs : 0 < s.toNat) (hm : (ba, bs) ∈ h.freeBlocks.entries)
    (hle : s ≤ bs) (hfit : s + (alignUp ba al - ba) ≤ bs) :
    Served h (h.carve bs ba s al).1 (h.carve bs ba s al).2 s al ∧
      Accounts h (h.carve bs ba s al).1 (dropped bs ba s (alignUp ba al)) := by
  have hfin := hi.free.fin ba bs hm
  have hin := hi.freeIn ba bs hm
  have hal' := pow2_le hal
  obtain ⟨hdvd, hlo, hhi⟩ := alignUp_spec (v := ba) hal (by omega)
  generalize hr : alignUp ba al = r at *
  have hfit' : r.toNat + s.toNat ≤ ba.toNat + bs.toNat := by bv_omega
  obtain ⟨M, F, hcarve, hf, hcov, hdisj, hapart⟩ := carve_eq (s := s) hi.free hr hm hlo hfit'
  have hlive := hi.disj
  rw [hcov, disjoint_union_right, disjoint_union_right] at hlive
  rw [disjoint_union_left] at hdisj
  rw [hcarve]
  refine ⟨hi.serve (hf.congr rfl rfl) rfl rfl rfl hs le_rfl hi.hwmLe ?_ (hin.1.trans hlo) ?_ hdvd hdisj.1
    hlive.2.1.symm, ?_, ?_⟩
  · exact hcov ▸ subset_union_left
  · exact hfit'.trans hin.2
  · simp only [track, hi.cover_track hs hlive.2.1.symm, hcov, Ico_self, union_empty]
    ext x
    simp only [mem_union]
    tauto
  · simp only [track, hi.cover_track hs hlive.2.1.symm, disjoint_union_right]
    exact ⟨⟨hlive.2.2.symm, hapart⟩, hdisj.2⟩

/-! ### Serving past the high-water mark -/

def TailFits (h : HeapAllocator) (s al : Word) : Prop := alignUp h.highWaterMark al + s ≤ h.base + h.size

instance decidableTailFits : Decidable (h.TailFits s al) := inferInstanceAs (Decidable (_ ≤ _))

lemma bump_of_not_tailFits (hfit : ¬ h.TailFits s al) : h.bump s al = (h, 0) :=
  if_pos (not_le.1 hfit)

lemma bump_of_tailFits (hfit : h.TailFits s al) :
    h.bump s al = ({ h with highWaterMark := alignUp h.highWaterMark al + s }.track (alignUp h.highWaterMark al) s,
      alignUp h.highWaterMark al) :=
  if_neg (not_lt.2 hfit)

theorem bump_spec (hi : h.Inv) (hal : al.toNat.isPowerOfTwo) (hs : 0 < s.toNat)
    (hw : (alignUp h.highWaterMark al).toNat + s.toNat < 2 ^ 64) (hfit : h.TailFits s al) :
    Served h (h.bump s al).1 (h.bump s al).2 s al ∧
      Accounts h (h.bump s al).1 (Ico h.highWaterMark.toNat (alignUp h.highWaterMark al).toNat) := by
  have hend := hi.endLt
  have hwm := hi.hwmLe
  have hbl := hi.baseLe
  have hal' := pow2_le hal
  obtain ⟨hdvd, hlo, -⟩ := alignUp_spec (v := h.highWaterMark) hal (by omega)
  rw [bump_of_tailFits hfit]
  unfold TailFits at hfit
  generalize hr : alignUp h.highWaterMark al = r at *
  have hrs : (r + s).toNat = r.toNat + s.toNat := by bv_omega
  have hle : r.toNat + s.toNat ≤ h.base.toNat + h.size.toNat := by
    rw [BitVec.le_def] at hfit
    bv_omega
  have hskip : Ico h.highWaterMark.toNat r.toNat ∪ span r.toNat s.toNat = Ico h.highWaterMark.toNat (r + s).toNat := by
    rw [hrs]
    exact Ico_union_Ico_eq_Ico hlo (by omega)
  -- the bytes lie past everything that is live or free
  have hpast {A : Set ℕ} (hA : A ⊆ Ico h.base.toNat h.highWaterMark.toNat) :
      Disjoint (Ico h.highWaterMark.toNat r.toNat) A ∧ Disjoint (span r.toNat s.toNat) A := by
    rw [← disjoint_union_left, hskip, disjoint_left]
    exact fun x hx hxA => absurd (hA hxA).2 (not_lt.2 hx.1)
  have hlive := hpast hi.cover_live
  have hfree := hpast hi.cover_free
  refine ⟨?_, ?_, ?_⟩
  · show Served h (track { h with highWaterMark := r + s } r s) r s al
    refine hi.serve (hi.free.congr rfl rfl) rfl rfl rfl hs ?_ ?_ subset_rfl (by omega) ?_ hdvd hfree.2 hlive.2
    · simp only [track, hrs]
      omega
    · simp only [track, hrs]
      exact hle
    · simp only [track, hrs, le_refl]
  · simp only [track, hi.cover_track hs hlive.2, ← hskip]
    ext x
    simp only [mem_union]
    tauto
  · simp only [track, hi.cover_track hs hlive.2, disjoint_union_right]
    exact ⟨⟨hlive.1, disjoint_left.2 fun x hx hxs => absurd hx.2 (not_lt.2 hxs.1)⟩, hfree.1⟩

/-! ### The calls -/

lemma minSize_pos (size : Word) : 0 < (minSize size).toNat := by
  unfold minSize
  split
  · decide
  · bv_omega

def fit (h : HeapAllocator) (size al : Word) : Option (Word × Word) :=
  fitLoop (minSize size) al (h.freeBlocksBySize.fromKey (minSize size))

/-- The allocator has room for the request: a free block, or the tail of the heap. -/
def HasRoom (h : HeapAllocator) (size al : Word) : Prop := (h.fit size al).isSome ∨ h.TailFits (minSize size) al

lemma allocate_of_not_hasRoom (hno : ¬ h.HasRoom size al) : h.allocate size al = (h, 0) := by
  obtain ⟨h1, h2⟩ := not_or.1 hno
  rw [Option.not_isSome_iff_eq_none, fit] at h1
  simp only [allocate, h1]
  exact bump_of_not_tailFits h2

theorem allocate_of_hasRoom (hi : h.Inv) (hal : al.toNat.isPowerOfTwo)
    (hw : (alignUp h.highWaterMark al).toNat + (minSize size).toNat < 2 ^ 64) (hroom : h.HasRoom size al) :
    Served h (h.allocate size al).1 (h.allocate size al).2 (minSize size) al := by
  cases hfit : fitLoop (minSize size) al (h.freeBlocksBySize.fromKey (minSize size)) with
  | none =>
    have he : h.allocate size al = h.bump (minSize size) al := by simp only [allocate, hfit]
    rw [he]
    exact (bump_spec hi hal (minSize_pos size) hw (hroom.resolve_left (by simp [fit, hfit]))).1
  | some e =>
    obtain ⟨bs, ba⟩ := e
    obtain ⟨hm, hle⟩ := fitLoop_some hfit
    obtain ⟨hm, hge⟩ := OrdMultimap.mem_fromKey.1 hm
    have he : h.allocate size al = h.carve bs ba (minSize size) al := by simp only [allocate, hfit]
    rw [he]
    exact (carve_spec hi hal (minSize_pos size) ((hi.free.sync _ _).2 hm) hge hle).1

/-- **A request** is refused without a trace, or granted. -/
theorem allocate_spec (hi : h.Inv) (hal : al.toNat.isPowerOfTwo)
    (hw : (alignUp h.highWaterMark al).toNat + (minSize size).toNat < 2 ^ 64) :
    h.allocate size al = (h, 0) ∨ Served h (h.allocate size al).1 (h.allocate size al).2 (minSize size) al := by
  by_cases hroom : h.HasRoom size al
  · exact .inr (allocate_of_hasRoom hi hal hw hroom)
  · exact .inl (allocate_of_not_hasRoom hroom)

lemma Served.ne_zero {p : Word} (hi : h.Inv) (hsv : Served h h' p s al) : p ≠ 0 := by
  have h1 := hi.basePos
  have h2 := hsv.lo
  rintro rfl
  simp only [BitVec.ofNat_eq_ofNat, BitVec.toNat_ofNat] at h2
  omega

/-- **A released block**: it is no longer live, and every other block is as it was. -/
structure Released (h h' : HeapAllocator) (address : Word) : Prop where
  inv : h'.Inv
  base : h'.base = h.base
  size : h'.size = h.size
  hwm : h'.highWaterMark = h.highWaterMark
  allocs : ∀ a n, (a, n) ∈ h'.allocations.entries ↔ a ≠ address ∧ (a, n) ∈ h.allocations.entries

lemma Inv.released_of_not_live (hi : h.Inv) (hno : ∀ n, (address, n) ∉ h.allocations.entries) :
    Released h h address := by
  refine ⟨hi, rfl, rfl, rfl, fun a n => ⟨fun han => ⟨?_, han⟩, And.right⟩⟩
  rintro rfl
  exact hno n han

lemma Inv.zero_not_live (hi : h.Inv) (n : Word) : (0, n) ∉ h.allocations.entries := by
  intro hn
  have h1 := (hi.liveIn 0 n hn).1
  have h2 := hi.basePos
  simp at h1
  omega

lemma Inv.released_of_live (hi : h.Inv) (hm : (address, s) ∈ h.allocations.entries) :
    Released h (({ h with allocations := h.allocations.erase address } : HeapAllocator).addFreeBlock address s)
      address ∧ Accounts h
        (({ h with allocations := h.allocations.erase address } : HeapAllocator).addFreeBlock address s) ∅ := by
  have hin := hi.liveIn address s hm
  have hend := hi.endLt
  have hwm := hi.hwmLe
  set g : HeapAllocator := { h with allocations := h.allocations.erase address } with hg
  have hdf : Disjoint (span address.toNat s.toNat) (cover g.freeBlocks) :=
    hi.disj.mono_left (span_subset_cover hm)
  obtain ⟨hf, hc, M, F, he⟩ := addFreeBlock_of_disjoint (h := g) (hi.free.congr rfl rfl) (hi.livePos _ _ hm)
    (by omega) hdf
  have hmem : ∀ a n, (a, n) ∈ (g.addFreeBlock address s).allocations.entries ↔
      a ≠ address ∧ (a, n) ∈ h.allocations.entries := by
    intro a n
    rw [he, hg, OrdMap.mem_erase]
  have hsub : cover (g.addFreeBlock address s).freeBlocks ⊆ Set.Ico h.base.toNat h.highWaterMark.toNat := by
    rw [hc]
    exact union_subset hi.cover_free ((span_subset_cover hm).trans hi.cover_live)
  have hkeep : (g.addFreeBlock address s).base = h.base ∧ (g.addFreeBlock address s).size = h.size ∧
      (g.addFreeBlock address s).highWaterMark = h.highWaterMark := by
    rw [he, hg]
    exact ⟨rfl, rfl, rfl⟩
  obtain ⟨hb, hs, hw⟩ := hkeep
  refine ⟨⟨⟨by rw [hb]; exact hi.basePos, by rw [hb, hw]; exact hi.baseLe, by rw [hb, hs, hw]; exact hwm,
    by rw [hb, hs]; exact hend, hf, ?_, ?_, ?_, ?_, ?_⟩, hb, hs, hw, hmem⟩, ?_, empty_disjoint _⟩
  · exact fun a n han => hi.livePos a n ((hmem a n).1 han).2
  · exact fun a n b m han hbm => hi.liveApart a n b m ((hmem a n).1 han).2 ((hmem b m).1 hbm).2
  · rw [hb, hw]
    exact fun a n han => hi.liveIn a n ((hmem a n).1 han).2
  · rw [hb, hw]
    exact fun a n han => bounds_of_cover hsub (hf.pos a n han) han
  · rw [disjoint_left]
    rintro x ⟨a, n, han, hx⟩ hxf
    obtain ⟨hne, han⟩ := (hmem a n).1 han
    rw [hc] at hxf
    rcases hxf with hxf | hxf
    · exact disjoint_left.1 hi.disj ⟨a, n, han, hx⟩ hxf
    · exact disjoint_left.1 (hi.liveApart a n address s han hm hne).disjoint hx hxf
  · have hlive : (g.addFreeBlock address s).allocations = h.allocations.erase address := by rw [he, hg]
    rw [hc, hlive, hw, ← cover_erase hm, Ico_self, union_empty, union_empty, union_right_comm, union_assoc]

theorem free_spec (hi : h.Inv) (address : Word) :
    Released h (h.free address) address ∧ Accounts h (h.free address) ∅ := by
  have hsame : Accounts h h ∅ := ⟨by rw [Ico_self], empty_disjoint _⟩
  unfold free
  by_cases h0 : address = 0
  · rw [if_pos h0]
    subst h0
    exact ⟨hi.released_of_not_live hi.zero_not_live, hsame⟩
  · rw [if_neg h0]
    cases hfind : h.allocations.find? address with
    | none => exact ⟨hi.released_of_not_live (OrdMap.find?_eq_none.1 hfind), hsame⟩
    | some s => exact hi.released_of_live (OrdMap.find?_eq_some.1 hfind)

end CrossShim.Memory.HeapAllocator
