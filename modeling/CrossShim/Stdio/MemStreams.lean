import CrossShim.Memory.GuestHeap
import CrossShim.Stdio.Streams
import CrossShim.Stdio.Utf8

/-!
# Memory streams

`open_memstream` and `open_wmemstream` of `hle_file.cpp`.  Under both kinds is an `open_memstream` stream of the host,
whose buffer pointer and size are set when it is flushed.  `sync_open_memstream` and `sync_open_wmemstream` copy that
buffer to a block of the guest's heap, and the block's address and the number of units to the guest's variables.

`fflush(NULL)` flushes every stream of the host, and copies those of `open_memstream` only; a write to a wide stream
copies what an earlier flush has set, from a buffer that the write may have moved.  In the runs that keep to `Meets` the
guest finds its data after every flush and close: `reach_delivers`.
-/

namespace CrossShim.Stdio.MemStreams

open Lib Function List Set Memory Memory.HeapAllocator

inductive Fault where
  | useAfterFree
  deriving DecidableEq

/-! ### The host -/

/-- The host's buffer as a flush has set it, and whether the stream has since moved to another. -/
structure HostBuf where
  size : ℕ
  moved : Bool
  deriving DecidableEq

/-- A stream of the host; `hostBuf` is `none` until the first flush. -/
structure HostStream where
  data : List Byte
  pos : ℕ
  hostBuf : Option HostBuf
  deriving DecidableEq

namespace HostStream

variable (hs : HostStream)

/-- A write at the position; what was skipped is zero.  `moves`: the buffer had to grow, elsewhere. -/
def write (bytes : List Byte) (moves : Bool) : HostStream where
  data := hs.data.take hs.pos ++ List.replicate (hs.pos - hs.data.length) 0 ++ bytes ++
    hs.data.drop (hs.pos + bytes.length)
  pos := hs.pos + bytes.length
  hostBuf := hs.hostBuf.map fun b => { b with moved := b.moved || moves }

/-- A flush sets the size to the position, or to the length if that is smaller. -/
def flush : HostStream := { hs with hostBuf := some ⟨min hs.data.length hs.pos, false⟩ }

/-- The buffer that the host has set holds what is read from it. -/
def Sized : Prop := hs.data.length < 2 ^ 59 ∧ ∀ b, hs.hostBuf = some b → b.size ≤ hs.data.length

end HostStream

/-! ### The streams -/

/-- `OpenMemstreamState` and `OpenWmemstreamState`. -/
structure Stream extends HostStream where
  wide : Bool
  guestPtrPtr : Word
  guestSizePtr : Word
  guestBuf : Word
  guestCapacity : ℕ
  deriving DecidableEq

open MemStreams.Stream

def Stream.width (st : Stream) : ℕ := if st.wide then 4 else 1

variable (g : GuestHeap)

def memWrite (a : Word) (bytes : List Byte) : GuestHeap := { g with mem := (g.mem.write a bytes).1 }

/-- A block for so many units, unless the stream has one that is large enough. -/
def reserve (st : Stream) (units : ℕ) : GuestHeap × Stream :=
  if st.guestBuf = 0 ∨ st.guestCapacity < units then
    let (heap, p) := g.heap.allocate (BitVec.ofNat 64 (st.width * units)) 8
    ({ g with heap }, { st with guestBuf := p, guestCapacity := units })
  else (g, st)

def publish (st : Stream) (size : ℕ) : GuestHeap :=
  let g₁ := if st.guestPtrPtr ≠ 0 then memWrite g st.guestPtrPtr (leBytes 8 st.guestBuf.toNat) else g
  if st.guestSizePtr ≠ 0 then memWrite g₁ st.guestSizePtr (leBytes 8 size) else g₁

def syncOpenMemstream (st : Stream) : Except Fault (GuestHeap × Stream) :=
  if st.wide then .ok (g, st)
  else
    match st.hostBuf with
    | none =>
      if st.guestBuf = 0 then
        let (g₁, st₁) := reserve g st 1
        let g₂ := if st₁.guestBuf ≠ 0 then memWrite g₁ st₁.guestBuf [0] else g₁
        .ok (publish g₂ st₁ 0, st₁)
      else .ok (publish g st 0, st)
    | some b =>
      let (g₁, st₁) := reserve g st (b.size + 1)
      if st₁.guestBuf ≠ 0 then
        if b.moved then .error .useAfterFree
        else
          -- behind the data of the host is a zero
          let g₂ := memWrite g₁ st₁.guestBuf ((st.data ++ [0]).take (b.size + 1))
          .ok (publish g₂ st₁ b.size, st₁)
      else .ok (publish g₁ st₁ b.size, st₁)

/-- What a wide stream copies; bytes that are not UTF-8 are units as they are. -/
def Stream.codepoints (st : Stream) : Except Fault (List ℕ) :=
  match st.hostBuf with
  | none => .ok []
  | some b =>
    if b.size = 0 then .ok []
    else if b.moved then .error .useAfterFree
    else
      match decodeUtf8String (st.data.take b.size) with
      | some codepoints => .ok codepoints
      | none => .ok ((st.data.take b.size).map BitVec.toNat)

def syncOpenWmemstream (st : Stream) : Except Fault (GuestHeap × Stream) :=
  if st.wide then
    match st.codepoints with
    | .error f => .error f
    | .ok codepoints =>
      let (g₁, st₁) := reserve g st (codepoints.length + 1)
      let g₂ :=
        if st₁.guestBuf ≠ 0 then
          let g₁ := if codepoints ≠ [] then memWrite g₁ st₁.guestBuf (codepoints.flatMap (leBytes 4)) else g₁
          memWrite g₁ (st₁.guestBuf + BitVec.ofNat 64 (4 * codepoints.length)) (leBytes 4 0)
        else g₁
      .ok (publish g₂ st₁ codepoints.length, st₁)
  else .ok (g, st)

/-- `hle_sync_stream_after_write`. -/
def syncStreamAfterWrite (st : Stream) : Except Fault (GuestHeap × Stream) := syncOpenWmemstream g st

/-- `hle_sync_stream_after_flush`. -/
def syncStreamAfterFlush (st : Stream) : Except Fault (GuestHeap × Stream) :=
  (syncOpenMemstream g st).bind fun r => syncOpenWmemstream r.1 r.2

def Stream.flushed (st : Stream) : Stream := { st with toHostStream := st.toHostStream.flush }

/-! ### The handlers -/

/-- `g_open_memstreams` and `g_open_wmemstreams`, over the memory of the guest. -/
structure State extends GuestHeap where
  streams : ℕ → Option Stream
  nextFd : ℕ

namespace State

variable (s : State)

def onStream (handle : ℕ) (f : GuestHeap → Stream → Except Fault (GuestHeap × Stream)) : Except Fault State :=
  match s.streams handle with
  | none => .ok s
  | some st => (f s.toGuestHeap st).map fun r =>
    { s with toGuestHeap := r.1, streams := update s.streams handle (some r.2) }

/-- `open_memstream` and `open_wmemstream`; `failure` is the `errno` with which that of the host fails. -/
def openStream (wide : Bool) (failure : Option ℕ) (ptrPtr sizelocPtr : Word) : State × Ret :=
  if ptrPtr = 0 ∨ sizelocPtr = 0 then (s, ⟨0, some .EINVAL⟩)
  else
    match failure with
    | some e => (s, ⟨0, some (.host e)⟩)
    | none =>
      ({ toGuestHeap := memWrite (memWrite s.toGuestHeap ptrPtr (leBytes 8 0)) sizelocPtr (leBytes 8 0)
         streams := update s.streams s.nextFd (some ⟨⟨[], 0, none⟩, wide, ptrPtr, sizelocPtr, 0, 0⟩)
         nextFd := s.nextFd + 1 }, ⟨BitVec.ofNat 64 s.nextFd, none⟩)

/-- A write of these bytes, by a handler that copies afterwards or by one that does not. -/
def write (handle : ℕ) (bytes : List Byte) (moves copies : Bool) : Except Fault State :=
  s.onStream handle fun g st =>
    let st₁ := { st with toHostStream := st.toHostStream.write bytes moves }
    if copies then syncStreamAfterWrite g st₁ else .ok (g, st₁)

def seek (handle pos : ℕ) : Except Fault State := s.onStream handle fun g st => .ok (g, { st with pos })

def result : Option ℕ → Ret
  | none => ⟨0, none⟩
  | some e => ⟨-1, some (.host e)⟩

def resultOn (handle : ℕ) (failure : Option ℕ) : Ret :=
  match s.streams handle with
  | none => .badf (-1)
  | some _ => result failure

/-- What `fflush` does to a stream. -/
def flushing (failure : Option ℕ) (g : GuestHeap) (st : Stream) : Except Fault (GuestHeap × Stream) :=
  match failure with
  | some _ => .ok (g, st)
  | none => syncStreamAfterFlush g st.flushed

def fflush (failure : Option ℕ) (handle : ℕ) : Except Fault (State × Ret) :=
  (s.onStream handle (flushing failure)).map fun s' => (s', s.resultOn handle failure)

/-- What `fflush(NULL)` copies; `order` is that of the table `g_open_memstreams`. -/
def copyAll (order : List ℕ) : Except Fault State :=
  order.foldlM (fun s handle => s.onStream handle syncOpenMemstream) s

/-- The host has flushed every stream. -/
abbrev allFlushed : State := { s with streams := fun handle => (s.streams handle).map flushed }

/-- `fflush(NULL)`. -/
def fflushAll (failure : Option ℕ) (order : List ℕ) : Except Fault (State × Ret) :=
  match failure with
  | some _ => .ok (s, result failure)
  | none => (s.allFlushed.copyAll order).map fun s' => (s', result failure)

/-- What `fclose` copies: after `::fflush`, and again after `::fclose`. -/
def closing (failure : Option ℕ) (g : GuestHeap) (st : Stream) : Except Fault (GuestHeap × Stream) :=
  match failure with
  | some _ => (syncStreamAfterFlush g st).bind fun r => syncStreamAfterFlush r.1 r.2
  | none => (syncStreamAfterFlush g st.flushed).bind fun r => syncStreamAfterFlush r.1 r.2.flushed

def fclose (failure : Option ℕ) (handle : ℕ) : Except Fault (State × Ret) :=
  (s.onStream handle (closing failure)).map fun s' =>
    ({ s' with streams := update s'.streams handle none }, s.resultOn handle failure)

end State

open MemStreams.State

/-! ### Runs -/

/-- The calls, and what the guest does between them. -/
inductive Event where
  | stores (a : Word) (bytes : List Byte)
  | malloc (size : Word)
  | free (p : Word)
  | openStream (wide : Bool) (failure : Option ℕ) (ptrPtr sizelocPtr : Word)
  | write (handle : ℕ) (bytes : List Byte) (moves copies : Bool)
  | seek (handle pos : ℕ)
  | fflush (failure : Option ℕ) (handle : ℕ)
  | fflushAll (failure : Option ℕ) (order : List ℕ)
  | fclose (failure : Option ℕ) (handle : ℕ)

variable (s : State)

def step : Event → Except Fault State
  | .stores a bytes => .ok { s with toGuestHeap := memWrite s.toGuestHeap a bytes }
  | .malloc size => .ok { s with heap := (s.heap.allocate size 16).1 }
  | .free p => .ok { s with heap := s.heap.free p }
  | .openStream wide failure ptrPtr sizelocPtr => .ok (s.openStream wide failure ptrPtr sizelocPtr).1
  | .write handle bytes moves copies => s.write handle bytes moves copies
  | .seek handle pos => s.seek handle pos
  | .fflush failure handle => (s.fflush failure handle).map Prod.fst
  | .fflushAll failure order => (s.fflushAll failure order).map Prod.fst
  | .fclose failure handle => (s.fclose failure handle).map Prod.fst

structure Initial (s : State) : Prop where
  ok : s.toGuestHeap.Ok
  streams : s.streams = fun _ => none

def system : System State Event := ⟨Initial, fun s e s' => step s e = .ok s'⟩

/-! ### What the streams are for -/

/-- The units of the data: bytes, or the characters that they encode. -/
def Stream.Spells (st : Stream) (units : List ℕ) : Prop :=
  if st.wide then ∃ text : List Char, st.data = utf8Bytes text ∧ units = text.map codepoint
  else units = st.data.map BitVec.toNat

/-- The units in memory, and a zero unit behind them. -/
def Stream.image (st : Stream) (units : List ℕ) : List Byte := (units ++ [0]).flatMap (leBytes st.width)

/-- **What the guest finds**: its pointer addresses a live block, with the units of the data and a zero unit. -/
def Delivers (st : Stream) : Prop :=
  ∃ units n, st.Spells units ∧ (g.wordAt st.guestPtrPtr, n) ∈ g.heap.allocations.entries ∧
    (st.image units).length ≤ n.toNat ∧ (g.wordAt st.guestSizePtr).toNat = units.length ∧
    load g.mem.bytes (g.wordAt st.guestPtrPtr) (st.image units).length = st.image units

/-- **What a call is for.** -/
def Lawful : Event → State → Prop
  | .fflush none handle, s' => ∀ st, s.streams handle = some st → Delivers s'.toGuestHeap st
  | .fflushAll none _, s' => ∀ handle st, s.streams handle = some st → Delivers s'.toGuestHeap st
  | .fclose none handle, s' => ∀ st, s.streams handle = some st → Delivers s'.toGuestHeap st
  | _, _ => True

/-! ### The condition -/

namespace Stream

variable (st : Stream)

def vars : Set Word := block st.guestPtrPtr 8 ∪ block st.guestSizePtr 8

def buffer : Set Word := if st.guestBuf = 0 then ∅ else block st.guestBuf (st.width * st.guestCapacity)

def footprint : Set Word := st.vars ∪ st.buffer

/-- A copy does not read a buffer that the host has left. -/
def Readable : Prop := ∀ b, st.hostBuf = some b → b.moved = false ∨ (st.wide = true ∧ b.size = 0)

/-- The room for a block, if the next copy needs one. -/
def need : ℕ := if st.guestBuf ≠ 0 ∧ st.data.length < st.guestCapacity then 0 else st.width * (st.data.length + 1) + 8

/-- The position is at the end, the data is UTF-8 if the stream is wide, and there is room for the copy. -/
structure Complete (g : GuestHeap) : Prop where
  pos : st.pos = st.data.length
  spells : ∃ units, st.Spells units
  room : st.need ≤ g.heap.left

/-- The variables say that there are so many units, and where their bytes are. -/
structure Shows (g : GuestHeap) (count : ℕ) (payload : List Byte) : Prop where
  capacity : count < st.guestCapacity
  pointer : g.wordAt st.guestPtrPtr = st.guestBuf
  size : (g.wordAt st.guestSizePtr).toNat = count
  bytes : load g.mem.bytes st.guestBuf payload.length = payload

/-- The variables and the block hold the units of the data. -/
structure Holds (g : GuestHeap) (units : List ℕ) : Prop extends st.Shows g units.length (st.image units) where
  spells : st.Spells units
  buf : st.guestBuf ≠ 0

end Stream

/-- The handles of `g_open_memstreams`. -/
structure Orders (s : State) (order : List ℕ) : Prop where
  nodup : order.Nodup
  mem : ∀ handle, handle ∈ order ↔ ∃ st, s.streams handle = some st ∧ st.wide = false

def needs (order : List ℕ) : ℕ :=
  (order.map fun handle => ((s.streams handle).map need).getD 0).sum

/-- **The condition on a call.** A stream is flushed and closed at the end of its data, and while there is room in the
heap; at `fflush(NULL)` every wide stream was copied, and nothing written since; a write to a wide stream does not move
a buffer that was set; and the guest keeps its variables and the blocks of open streams. -/
def Meets : Event → Prop
  | .stores _ _ => True
  | .malloc size => size.toNat < 2 ^ 62
  | .free p => ∀ handle st n, s.streams handle = some st → (p, n) ∈ s.heap.allocations.entries →
    p ≠ st.guestBuf ∧ Disjoint st.vars (block p n.toNat)
  | .openStream _ failure ptrPtr sizelocPtr => ptrPtr ≠ 0 → sizelocPtr ≠ 0 → failure = none →
    s.mem.Mapped ptrPtr 8 ∧ s.mem.Mapped sizelocPtr 8 ∧ Disjoint (block ptrPtr 8) (block sizelocPtr 8) ∧
    Disjoint (block ptrPtr 8 ∪ block sizelocPtr 8) s.heap.spare ∧
    ∀ handle st, s.streams handle = some st → Disjoint (block ptrPtr 8 ∪ block sizelocPtr 8) st.footprint
  | .write handle bytes moves copies => ∀ st, s.streams handle = some st →
    (st.toHostStream.write bytes moves).data.length < 2 ^ 59 ∧
    (copies = true → st.wide = true →
      Readable { st with toHostStream := st.toHostStream.write bytes moves })
  | .seek _ _ => True
  | .fflush failure handle => failure = none → ∀ st, s.streams handle = some st → st.Complete s.toGuestHeap
  | .fflushAll failure order => failure = none →
    Orders s order ∧
    (∀ handle st, s.streams handle = some st → st.wide = false → st.pos = st.data.length) ∧
    (∀ handle st, s.streams handle = some st → st.wide = true → ∃ units, st.Holds s.toGuestHeap units) ∧
    needs s order ≤ s.heap.left
  | .fclose failure handle => ∀ st, s.streams handle = some st →
    if failure = none then st.Complete s.toGuestHeap else st.Readable

/-! ### A stream and its memory -/

/-- The variables and the block of a stream are the guest's, and apart from each other. -/
structure Good (g : GuestHeap) (st : Stream) : Prop where
  ptr_ne : st.guestPtrPtr ≠ 0
  size_ne : st.guestSizePtr ≠ 0
  ptr : g.mem.Mapped st.guestPtrPtr 8
  size : g.mem.Mapped st.guestSizePtr 8
  apart : Disjoint (block st.guestPtrPtr 8) (block st.guestSizePtr 8)
  kept : Disjoint st.vars g.heap.spare
  buf : st.guestBuf ≠ 0 → ∃ n, (st.guestBuf, n) ∈ g.heap.allocations.entries ∧ st.width * st.guestCapacity ≤ n.toNat
  vars : Disjoint st.vars st.buffer

section

variable {g g' g₁ : GuestHeap} {st st' st₁ : Stream} {a : Word} {payload : List Byte} {units : List ℕ}

lemma width_le : st.width ≤ 4 := by
  unfold width
  split_ifs <;> decide

lemma width_of_narrow (hw : st.wide = false) : st.width = 1 := by
  rw [width, hw]
  rfl

lemma Good.congr (hg : Good g st) (hmem : g'.mem.mapped = g.mem.mapped) (hspare : Disjoint st.vars g'.heap.spare)
    (hbuf : ∀ n, (st.guestBuf, n) ∈ g.heap.allocations.entries → (st.guestBuf, n) ∈ g'.heap.allocations.entries) :
    Good g' st where
  __ := hg
  ptr := ⟨hg.ptr.1, fun x hx => hmem ▸ hg.ptr.2 x hx⟩
  size := ⟨hg.size.1, fun x hx => hmem ▸ hg.size.2 x hx⟩
  kept := hspare
  buf h0 := by
    obtain ⟨n, hn, hle⟩ := hg.buf h0
    exact ⟨n, hbuf n hn, hle⟩

lemma Good.retains (hg : Good g st) (hmem : g'.mem.mapped = g.mem.mapped) (hk : Keeps g.heap g'.heap)
    (hr : Retains g.heap g'.heap) : Good g' st :=
  hg.congr hmem (hg.kept.mono_right (hr.spare hk)) fun _ hn => hr _ hn

lemma Good.host (hg : Good g st) (hs : HostStream) : Good g { st with toHostStream := hs } :=
  { hg with }

lemma buffer_of_ne (h0 : st.guestBuf ≠ 0) : st.buffer = block st.guestBuf (st.width * st.guestCapacity) := if_neg h0

lemma Good.buffer_live (hok : g.Ok) (hg : Good g st) : st.buffer ⊆ g.heap.live := by
  by_cases h0 : st.guestBuf = 0
  · rw [buffer, if_pos h0]
    exact empty_subset _
  · obtain ⟨n, hn, hle⟩ := hg.buf h0
    rw [buffer_of_ne h0]
    exact hok.inv.block_subset_live hn hle

lemma Good.footprint_spare (hok : g.Ok) (hg : Good g st) : Disjoint st.footprint g.heap.spare := by
  refine Disjoint.union_left hg.kept ?_
  exact disjoint_left.2 fun x hx hs => hs.2 (hg.buffer_live hok hx)

lemma Good.mapped_buf (hok : g.Ok) (hg : Good g st) (h0 : st.guestBuf ≠ 0) :
    g.mem.Mapped st.guestBuf (st.width * st.guestCapacity) := by
  obtain ⟨n, hn, hle⟩ := hg.buf h0
  exact hok.mapped_of_live (by have := n.isLt; omega) (hok.inv.block_subset_live hn hle)

/-! ### Copies -/

/-- **A copy of a stream**: it has the same variables, or a new block besides, and nothing else has changed. -/
structure Synced (g : GuestHeap) (st : Stream) (g' : GuestHeap) (st' : Stream) : Prop where
  same : ∃ p c, st' = { st with guestBuf := p, guestCapacity := c }
  ok : g'.Ok
  mapped : g'.mem.mapped = g.mem.mapped
  keeps : Keeps g.heap g'.heap
  retains : Retains g.heap g'.heap
  good : Good g' st'
  buffer : st'.buffer ⊆ st.buffer ∪ g.heap.spare
  frame : ∀ x, x ∉ st.footprint → x ∉ g.heap.spare → g'.mem.bytes x = g.mem.bytes x

lemma synced_refl (hok : g.Ok) (hg : Good g st) : Synced g st g st :=
  ⟨⟨_, _, rfl⟩, hok, rfl, hok.inv.keeps, fun _ h => h, hg, subset_union_left, fun _ _ _ => rfl⟩

lemma Synced.fixed (hs : Synced g st g' st') : st'.vars = st.vars ∧ st'.width = st.width ∧ st'.wide = st.wide := by
  obtain ⟨p, c, rfl⟩ := hs.same
  exact ⟨rfl, rfl, rfl⟩

lemma Synced.trans (hs : Synced g st g₁ st₁) (hs' : Synced g₁ st₁ g' st') : Synced g st g' st' := by
  have hspare := hs.retains.spare hs.keeps
  refine ⟨?_, hs'.ok, hs'.mapped.trans hs.mapped, hs.keeps.trans hs'.keeps, hs.retains.trans hs'.retains, hs'.good,
    fun x hx => ?_, fun x hx hsp => ?_⟩
  · obtain ⟨p, c, rfl⟩ := hs.same
    obtain ⟨p', c', rfl⟩ := hs'.same
    exact ⟨p', c', rfl⟩
  · rcases hs'.buffer hx with hx | hx
    · exact hs.buffer hx
    · exact .inr (hspare hx)
  · have hfoot : x ∉ st₁.footprint := by
      rintro (h | h)
      · exact hx (.inl (hs.fixed.1 ▸ h))
      · exact (hs.buffer h).elim (fun h => hx (.inr h)) hsp
    exact (hs'.frame x hfoot fun h => hsp (hspare h)).trans (hs.frame x hx hsp)

lemma reserve_spec (units : ℕ) (hok : g.Ok) (hg : Good g st) (hn : st.width * units + 8 ≤ 2 ^ 63) :
    ∃ g₁ st₁, reserve g st units = (g₁, st₁) ∧ Synced g st g₁ st₁ ∧ units ≤ st₁.guestCapacity := by
  unfold reserve
  by_cases hc : st.guestBuf = 0 ∨ st.guestCapacity < units
  · rw [if_pos hc]
    have hcases := allocate_cases hok.inv hn
    generalize g.heap.allocate (BitVec.ofNat 64 (st.width * units)) 8 = r at hcases
    obtain ⟨heap, p⟩ := r
    refine ⟨_, _, rfl, ?_, le_rfl⟩
    rcases hcases with he | hgr
    · cases he
      have hempty : buffer { st with guestBuf := 0, guestCapacity := units } = ∅ := if_pos rfl
      refine ⟨⟨_, _, rfl⟩, hok, rfl, hok.inv.keeps, fun _ hb => hb, ?_, ?_, fun _ _ _ => rfl⟩
      · refine { hg with buf := fun h => absurd rfl h, vars := ?_ }
        rw [hempty]
        exact disjoint_empty _
      · rw [hempty]
        exact empty_subset _
    · have hbuf : buffer { st with guestBuf := p, guestCapacity := units } = block p (st.width * units) :=
        if_neg hgr.ne_zero
      refine ⟨⟨_, _, rfl⟩, hok.keeps rfl hgr.keeps, rfl, hgr.keeps, hgr.retains, ?_, ?_, fun _ _ _ => rfl⟩
      · refine { hg with kept := ?_, buf := fun _ => hgr.entry, vars := ?_ }
        · exact hg.kept.mono_right (hgr.retains.spare hgr.keeps)
        · rw [hbuf]
          exact hg.kept.mono_right hgr.spare
      · rw [hbuf]
        exact hgr.spare.trans subset_union_right
  · rw [if_neg hc]
    push Not at hc
    exact ⟨g, st, rfl, synced_refl hok hg, hc.2⟩

lemma reserve_ne_zero {units : ℕ} (hok : g.Ok)
    (hroom : (st.guestBuf ≠ 0 ∧ units ≤ st.guestCapacity) ∨ st.width * units + 8 ≤ g.heap.left) :
    (reserve g st units).2.guestBuf ≠ 0 := by
  unfold reserve
  by_cases hc : st.guestBuf = 0 ∨ st.guestCapacity < units
  · rw [if_pos hc]
    have hleft := hroom.resolve_left fun h => hc.elim h.1 h.2.not_gt
    exact (grants_allocate hok.inv (hleft.trans hok.inv.left_le) (hasRoom_of_left hok.inv hleft)).ne_zero
  · rw [if_neg hc]
    push Not at hc
    exact hc.1

lemma left_reserve (units : ℕ) (hok : g.Ok) (hn : st.width * units + 8 ≤ 2 ^ 63) :
    g.heap.left ≤ (reserve g st units).1.heap.left +
      if st.guestBuf ≠ 0 ∧ units ≤ st.guestCapacity then 0 else st.width * units + 8 := by
  unfold reserve
  by_cases hc : st.guestBuf = 0 ∨ st.guestCapacity < units
  · rw [if_pos hc, if_neg fun h => hc.elim h.1 h.2.not_gt]
    have := left_allocate hok.inv hn
    omega
  · rw [if_neg hc]
    exact Nat.le_add_right _ _

lemma memWrite_of_mapped {bytes : List Byte} (h : g.mem.Mapped a bytes.length) :
    memWrite g a bytes = ⟨⟨store g.mem.bytes a bytes, g.mem.mapped⟩, g.heap⟩ := by
  unfold memWrite
  rw [GuestMemory.write_of_mapped h]

lemma memWrite_nil : memWrite g a [] = g := rfl

lemma memWrite_append {bs cs : List Byte} (h : g.mem.Mapped a (bs ++ cs).length) :
    memWrite (memWrite g a bs) (a + BitVec.ofNat 64 bs.length) cs = memWrite g a (bs ++ cs) := by
  have hlen : (bs ++ cs).length = bs.length + cs.length := length_append
  have hbs : g.mem.Mapped a bs.length := h.mono (by omega)
  have hcs : GuestMemory.Mapped ⟨store g.mem.bytes a bs, g.mem.mapped⟩ (a + BitVec.ofNat 64 bs.length) cs.length :=
    ⟨by have := h.1; omega, (h.part (i := bs.length) (by omega)).2⟩
  rw [memWrite_of_mapped h, memWrite_of_mapped hbs, memWrite_of_mapped (g := ⟨⟨_, _⟩, _⟩) hcs]
  rw [store_append (by have := h.1; omega)]

lemma publish_eq (hg : Good g st) (size : ℕ) :
    publish g st size = ⟨⟨store (store g.mem.bytes st.guestPtrPtr (leBytes 8 st.guestBuf.toNat)) st.guestSizePtr
      (leBytes 8 size), g.mem.mapped⟩, g.heap⟩ := by
  have h1 : g.mem.Mapped st.guestPtrPtr (leBytes 8 st.guestBuf.toNat).length := by
    rw [length_leBytes]
    exact hg.ptr
  have h2 : g.mem.Mapped st.guestSizePtr (leBytes 8 size).length := by
    rw [length_leBytes]
    exact hg.size
  unfold publish
  rw [if_pos hg.ptr_ne, if_pos hg.size_ne, memWrite_of_mapped h1]
  exact memWrite_of_mapped h2

lemma wordAt_publish (hg : Good g st) (size : ℕ) (hsize : size < 2 ^ 64) :
    (publish g st size).wordAt st.guestPtrPtr = st.guestBuf ∧
      ((publish g st size).wordAt st.guestSizePtr).toNat = size := by
  have hsz : (BitVec.ofNat 64 size).toNat = size := by
    rw [BitVec.toNat_ofNat]
    exact Nat.mod_eq_of_lt hsize
  rw [publish_eq hg]
  constructor
  · refine GuestHeap.wordAt_of_load ?_
    rw [load_store_of_disjoint (by decide) (by rw [length_leBytes]; exact hg.apart)]
    exact load_store_leBytes (by decide) _ _ _
  · have hword := GuestHeap.wordAt_store (a := st.guestSizePtr)
      (store g.mem.bytes st.guestPtrPtr (leBytes 8 st.guestBuf.toNat)) g.mem.mapped g.heap (BitVec.ofNat 64 size)
    rw [hsz] at hword
    rw [hword, hsz]

lemma publish_of_notMem (hg : Good g st) (size : ℕ) {x : Word} (hx : x ∉ st.vars) :
    (publish g st size).mem.bytes x = g.mem.bytes x := by
  rw [publish_eq hg]
  dsimp only
  rw [store_of_notMem fun h => hx (.inr (by rwa [length_leBytes] at h)),
    store_of_notMem fun h => hx (.inl (by rwa [length_leBytes] at h))]

lemma Synced.of_frame {g₂ : GuestHeap} (hs : Synced g st g₁ st₁) (hheap : g₂.heap = g₁.heap)
    (hmapped : g₂.mem.mapped = g₁.mem.mapped)
    (hframe : ∀ x, x ∉ st.vars → x ∉ st₁.buffer → g₂.mem.bytes x = g₁.mem.bytes x) : Synced g st g₂ st₁ := by
  refine ⟨hs.same, ?_, hmapped.trans hs.mapped, ?_, ?_, ?_, hs.buffer, fun x hx hsp => ?_⟩
  · have := hs.ok.keeps hmapped hs.ok.inv.keeps
    rwa [← hheap] at this
  · exact hheap ▸ hs.keeps
  · exact hheap ▸ hs.retains
  · exact hs.good.congr hmapped (hheap ▸ hs.good.kept) fun _ hn => hheap ▸ hn
  · have hbuf : x ∉ st₁.buffer := fun h => (hs.buffer h).elim (fun h => hx (.inr h)) hsp
    exact (hframe x (fun h => hx (.inl h)) hbuf).trans (hs.frame x hx hsp)

/-- A block, the bytes in it, and the variables: what both kinds of copies come to. -/
def deliver (g : GuestHeap) (st : Stream) (size : ℕ) (payload : List Byte) : GuestHeap × Stream :=
  let r := reserve g st (size + 1)
  (publish (if r.2.guestBuf ≠ 0 then memWrite r.1 r.2.guestBuf payload else r.1) r.2 size, r.2)

lemma Synced.publish (hs : Synced g st g₁ st₁) (size : ℕ) : Synced g st (publish g₁ st₁ size) st₁ :=
  hs.of_frame (by rw [publish_eq hs.good]) (by rw [publish_eq hs.good])
    fun _ hx _ => publish_of_notMem hs.good size (hs.fixed.1 ▸ hx)

lemma Synced.fill (hs : Synced g st g₁ st₁) (h0 : st₁.guestBuf ≠ 0)
    (hin : payload.length ≤ st₁.width * st₁.guestCapacity) : Synced g st (memWrite g₁ st₁.guestBuf payload) st₁ := by
  refine hs.of_frame rfl rfl fun x _ hx => GuestMemory.write_of_notMem fun h => hx ?_
  rw [buffer_of_ne h0]
  exact block_mono hin h

lemma shows_publish {count : ℕ} (hok : g.Ok) (hg : Good g st) (h0 : st.guestBuf ≠ 0)
    (hin : payload.length ≤ st.width * st.guestCapacity) (hcap : count < st.guestCapacity) (hcount : count < 2 ^ 64) :
    st.Shows (publish (memWrite g st.guestBuf payload) st count) count payload := by
  have hgood := ((synced_refl hok hg).fill h0 hin).good
  have hmapped := (hg.mapped_buf hok h0).mono hin
  obtain ⟨hptr, hsize⟩ := wordAt_publish hgood count hcount
  refine ⟨hcap, hptr, hsize, ?_⟩
  have hsame : ∀ x ∈ block st.guestBuf payload.length,
      (publish (memWrite g st.guestBuf payload) st count).mem.bytes x = store g.mem.bytes st.guestBuf payload x := by
    intro x hx
    have hvars : x ∉ st.vars := by
      refine fun h => disjoint_left.1 hg.vars h ?_
      rw [buffer_of_ne h0]
      exact block_mono hin hx
    rw [publish_of_notMem hgood count hvars, memWrite_of_mapped hmapped]
  rw [load_congr hmapped.1 hsame]
  exact load_store hmapped.1

/-- **What a copy comes to**, with or without a block. -/
theorem deliver_spec {size : ℕ} (payload : List Byte) (hok : g.Ok) (hg : Good g st) (hsize : size < 2 ^ 60)
    (hlen : payload.length = st.width * (size + 1)) :
    ∃ g' st', deliver g st size payload = (g', st') ∧ Synced g st g' st' ∧
      (st'.guestBuf ≠ 0 → st'.Shows g' size payload) := by
  have hwidth : st.width * (size + 1) ≤ 4 * (size + 1) := Nat.mul_le_mul_right _ width_le
  obtain ⟨g₁, st₁, hr, hres, hcap⟩ := reserve_spec (size + 1) hok hg (by omega)
  unfold deliver
  simp only [hr]
  by_cases h0 : st₁.guestBuf = 0
  · rw [if_neg (not_not.2 h0)]
    exact ⟨_, _, rfl, hres.publish size, fun h => absurd h0 h⟩
  · rw [if_pos h0]
    have hin : payload.length ≤ st₁.width * st₁.guestCapacity := by
      rw [hlen, hres.fixed.2.1]
      exact Nat.mul_le_mul_left _ hcap
    exact ⟨_, _, rfl, (hres.fill h0 hin).publish size,
      fun _ => shows_publish hres.ok hres.good h0 hin hcap (by omega)⟩

/-! ### The two kinds -/

lemma deliver_wide (size : ℕ) (payload : List Byte) : (deliver g st size payload).2.wide = st.wide := by
  unfold deliver reserve
  split_ifs <;> rfl

lemma syncOpenMemstream_of_some {b : HostBuf} (hw : st.wide = false) (hb : st.hostBuf = some b)
    (hm : b.moved = false) :
    syncOpenMemstream g st = .ok (deliver g st b.size ((st.data ++ [0]).take (b.size + 1))) := by
  unfold syncOpenMemstream deliver
  simp only [hw, hb, hm, Bool.false_eq_true, if_false]
  by_cases h0 : (reserve g st (b.size + 1)).2.guestBuf = 0
  · rw [if_neg (not_not.2 h0), if_neg (not_not.2 h0)]
  · rw [if_pos h0, if_pos h0]

lemma syncOpenMemstream_of_none (hw : st.wide = false) (hb : st.hostBuf = none) (h0 : st.guestBuf = 0) :
    syncOpenMemstream g st = .ok (deliver g st 0 [0]) := by
  unfold syncOpenMemstream deliver
  simp only [hw, hb, Bool.false_eq_true, if_false]
  rw [if_pos h0]

lemma length_flatMap_leBytes (k : ℕ) (units : List ℕ) : (units.flatMap (leBytes k)).length = k * units.length := by
  induction units with
  | nil => rfl
  | cons u units ih => rw [flatMap_cons, length_append, length_leBytes, ih, length_cons, Nat.mul_succ,
      Nat.add_comm]

lemma length_image (st : Stream) (units : List ℕ) : (st.image units).length = st.width * (units.length + 1) := by
  unfold Stream.image
  rw [length_flatMap_leBytes, length_append, length_singleton]

lemma syncOpenWmemstream_of_ok (hok : g.Ok) (hg : Good g st) {codepoints : List ℕ} (hw : st.wide = true)
    (hc : st.codepoints = .ok codepoints) (hlen : codepoints.length < 2 ^ 59) :
    syncOpenWmemstream g st = .ok (deliver g st codepoints.length (st.image codepoints)) := by
  have hwidth : st.width = 4 := by rw [width, if_pos hw]
  obtain ⟨g₁, st₁, hr, hres, hcap⟩ := reserve_spec (codepoints.length + 1) hok hg (by rw [hwidth]; omega)
  unfold syncOpenWmemstream deliver
  simp only [hw, hc, hr, if_true]
  by_cases h0 : st₁.guestBuf = 0
  · rw [if_neg (not_not.2 h0), if_neg (not_not.2 h0)]
  rw [if_pos h0, if_pos h0]
  have hmapped := hres.good.mapped_buf hres.ok h0
  rw [hres.fixed.2.1, hwidth] at hmapped
  have himage : st.image codepoints = codepoints.flatMap (leBytes 4) ++ leBytes 4 0 := by
    rw [Stream.image, hwidth, flatMap_append, flatMap_singleton]
  have hall := length_image st codepoints
  rw [himage, hwidth] at hall
  -- without units there is only the write of the zero
  have hskip : (if codepoints ≠ [] then memWrite g₁ st₁.guestBuf (codepoints.flatMap (leBytes 4)) else g₁) =
      memWrite g₁ st₁.guestBuf (codepoints.flatMap (leBytes 4)) := by
    by_cases hnil : codepoints = []
    · rw [if_neg (not_not.2 hnil), hnil]
      exact memWrite_nil.symm
    · rw [if_pos hnil]
  rw [hskip, himage, ← memWrite_append (hmapped.mono (by rw [hall]; exact Nat.mul_le_mul_left _ hcap)),
    length_flatMap_leBytes]

lemma codepoints_of_readable (hs : st.Sized) (hr : st.Readable) :
    ∃ codepoints, st.codepoints = .ok codepoints ∧ codepoints.length ≤ st.data.length := by
  unfold codepoints
  cases hb : st.hostBuf with
  | none => exact ⟨[], rfl, Nat.zero_le _⟩
  | some b =>
    dsimp only
    have hle := hs.2 b hb
    have htake : (st.data.take b.size).length = b.size := by simpa using hle
    by_cases h0 : b.size = 0
    · rw [if_pos h0]
      exact ⟨[], rfl, Nat.zero_le _⟩
    have hm : b.moved = false := by
      rcases hr b hb with hm | ⟨-, hz⟩
      · exact hm
      · exact absurd hz h0
    rw [if_neg h0, hm, if_neg Bool.false_ne_true]
    cases hd : decodeUtf8String (st.data.take b.size) with
    | none => exact ⟨_, rfl, by rw [length_map, htake]; exact hle⟩
    | some codepoints => exact ⟨_, rfl, (length_decodeLoop hd).trans (by rw [htake]; exact hle)⟩

lemma syncStreamAfterFlush_of_narrow {r : GuestHeap × Stream} (hw : st.wide = false) (hr : r.2.wide = st.wide)
    (he : syncOpenMemstream g st = .ok r) : syncStreamAfterFlush g st = .ok r := by
  unfold syncStreamAfterFlush
  rw [he]
  show syncOpenWmemstream _ _ = _
  unfold syncOpenWmemstream
  rw [hr, hw, if_neg Bool.false_ne_true]

lemma syncStreamAfterFlush_of_wide (hw : st.wide = true) : syncStreamAfterFlush g st = syncOpenWmemstream g st := by
  unfold syncStreamAfterFlush syncOpenMemstream
  rw [if_pos hw]
  rfl

lemma syncOpenMemstream_spec (hok : g.Ok) (hg : Good g st) (hs : st.Sized) (hr : st.Readable) (hw : st.wide = false) :
    ∃ g' st', syncOpenMemstream g st = .ok (g', st') ∧ Synced g st g' st' := by
  have hlt := hs.1
  have hwidth := width_of_narrow hw
  cases hb : st.hostBuf with
  | none =>
    by_cases h0 : st.guestBuf = 0
    · have hlen : [(0 : Byte)].length = st.width * (0 + 1) := by rw [hwidth]; rfl
      obtain ⟨g', st', hd, hsy, -⟩ := deliver_spec [0] hok hg (by decide) hlen
      refine ⟨g', st', ?_, hsy⟩
      rw [← hd]
      exact syncOpenMemstream_of_none hw hb h0
    · refine ⟨_, _, ?_, (synced_refl hok hg).publish 0⟩
      unfold syncOpenMemstream
      simp only [hw, hb, Bool.false_eq_true, if_false]
      rw [if_neg h0]
  | some b =>
    have hle := hs.2 b hb
    have hm : b.moved = false := by
      rcases hr b hb with hm | ⟨h, -⟩
      · exact hm
      · rw [hw] at h
        cases h
    have hlen : ((st.data ++ [0]).take (b.size + 1)).length = st.width * (b.size + 1) := by
      rw [hwidth, length_take, length_append, length_singleton]
      omega
    obtain ⟨g', st', hd, hsy, -⟩ := deliver_spec _ hok hg (by omega) hlen
    refine ⟨g', st', ?_, hsy⟩
    rw [← hd]
    exact syncOpenMemstream_of_some hw hb hm

/-- **A copy**, whatever the host has set. -/
theorem syncStreamAfterFlush_spec (hok : g.Ok) (hg : Good g st) (hs : st.Sized) (hr : st.Readable) :
    ∃ g' st', syncStreamAfterFlush g st = .ok (g', st') ∧ Synced g st g' st' := by
  cases hw : st.wide with
  | true =>
    obtain ⟨codepoints, hc, hle⟩ := codepoints_of_readable hs hr
    have hlt := lt_of_le_of_lt hle hs.1
    obtain ⟨g', st', hd, hsy, -⟩ := deliver_spec (st.image codepoints) hok hg (by omega) (length_image st _)
    refine ⟨g', st', ?_, hsy⟩
    rw [syncStreamAfterFlush_of_wide hw, ← hd]
    exact syncOpenWmemstream_of_ok hok hg hw hc hlt
  | false =>
    obtain ⟨g', st', he, hsy⟩ := syncOpenMemstream_spec hok hg hs hr hw
    exact ⟨g', st', syncStreamAfterFlush_of_narrow hw hsy.fixed.2.2 he, hsy⟩

/-! ### Copies of all the data -/

lemma flatMap_leBytes_one (bs : List Byte) : (bs.map BitVec.toNat).flatMap (leBytes 1) = bs := by
  induction bs with
  | nil => rfl
  | cons b bs ih =>
    rw [map_cons, flatMap_cons, ih]
    show BitVec.ofNat 8 b.toNat :: bs = b :: bs
    rw [BitVec.ofNat_toNat, BitVec.setWidth_eq]

lemma syncOpenMemstream_of_spells (hw : st.wide = false) (hb : st.hostBuf = some ⟨st.data.length, false⟩)
    (hu : st.Spells units) : syncOpenMemstream g st = .ok (deliver g st units.length (st.image units)) := by
  have hunits : units = st.data.map BitVec.toNat := by rwa [Spells, hw, if_neg Bool.false_ne_true] at hu
  have himage : st.image units = (st.data ++ [0]).take (st.data.length + 1) := by
    rw [Stream.image, width_of_narrow hw, hunits, flatMap_append, flatMap_leBytes_one, take_of_length_le (by simp)]
    rfl
  rw [syncOpenMemstream_of_some hw hb rfl, himage, hunits, length_map]

lemma codepoints_of_spells (hw : st.wide = true) (hb : st.hostBuf = some ⟨st.data.length, false⟩)
    (hu : st.Spells units) : st.codepoints = .ok units := by
  rw [Spells, if_pos hw] at hu
  obtain ⟨text, hdata, rfl⟩ := hu
  have hdec := decodeUtf8String_utf8Bytes text
  rw [← hdata] at hdec
  unfold codepoints
  rw [hb]
  dsimp only
  by_cases h0 : st.data.length = 0
  · rw [if_pos h0]
    rw [length_eq_zero_iff.1 h0] at hdec
    rw [← Option.some.inj (show some [] = _ from hdec)]
  · rw [if_neg h0, if_neg Bool.false_ne_true, take_length, hdec]

lemma length_of_spells (hu : st.Spells units) : units.length ≤ st.data.length := by
  unfold Spells at hu
  split_ifs at hu
  · obtain ⟨text, hdata, rfl⟩ := hu
    rw [hdata]
    exact length_decodeLoop (decodeUtf8String_utf8Bytes text)
  · rw [hu, length_map]

lemma width_mul_le (hu : st.Spells units) : st.width * (units.length + 1) ≤ st.width * (st.data.length + 1) :=
  Nat.mul_le_mul_left _ (Nat.succ_le_succ (length_of_spells hu))

lemma syncStreamAfterFlush_of_spells (hok : g.Ok) (hg : Good g st) (hs : st.Sized)
    (hb : st.hostBuf = some ⟨st.data.length, false⟩) (hu : st.Spells units) :
    syncStreamAfterFlush g st = .ok (deliver g st units.length (st.image units)) := by
  have hle := length_of_spells hu
  cases hw : st.wide with
  | true =>
    rw [syncStreamAfterFlush_of_wide hw]
    exact syncOpenWmemstream_of_ok hok hg hw (codepoints_of_spells hw hb hu) (lt_of_le_of_lt hle hs.1)
  | false =>
    exact syncStreamAfterFlush_of_narrow hw (deliver_wide _ _) (syncOpenMemstream_of_spells hw hb hu)

lemma deliver_buf (size : ℕ) (payload : List Byte) :
    (deliver g st size payload).2.guestBuf = (reserve g st (size + 1)).2.guestBuf := rfl

lemma deliver_heap (size : ℕ) (payload : List Byte) :
    (deliver g st size payload).1.heap = (reserve g st (size + 1)).1.heap := by
  unfold deliver publish memWrite
  dsimp only
  split_ifs <;> rfl

lemma room_of_need (hu : st.Spells units) (hneed : st.need ≤ g.heap.left) :
    (st.guestBuf ≠ 0 ∧ units.length < st.guestCapacity) ∨ st.width * (units.length + 1) + 8 ≤ g.heap.left := by
  have hle := length_of_spells hu
  have hmul := width_mul_le hu
  unfold need at hneed
  split_ifs at hneed with h
  · exact .inl ⟨h.1, by omega⟩
  · exact .inr (by omega)

lemma left_deliver (hok : g.Ok) (hs : st.Sized) (hu : st.Spells units) :
    g.heap.left ≤ (deliver g st units.length (st.image units)).1.heap.left + st.need := by
  have hle := length_of_spells hu
  have hlt := hs.1
  have hwidth : st.width * (units.length + 1) ≤ 4 * (units.length + 1) := Nat.mul_le_mul_right _ width_le
  have hmul := width_mul_le hu
  rw [deliver_heap]
  refine (left_reserve (units.length + 1) hok (by omega)).trans (Nat.add_le_add_left ?_ _)
  unfold need
  by_cases h : st.guestBuf ≠ 0 ∧ units.length + 1 ≤ st.guestCapacity
  · rw [if_pos h]
    exact Nat.zero_le _
  · rw [if_neg h, if_neg fun h' => h ⟨h'.1, by omega⟩]
    omega

/-- **A copy of all the data**, while there is room. -/
theorem deliver_holds (hok : g.Ok) (hg : Good g st) (hs : st.Sized) (hu : st.Spells units)
    (hroom : (st.guestBuf ≠ 0 ∧ units.length < st.guestCapacity) ∨ st.width * (units.length + 1) + 8 ≤ g.heap.left) :
    ∃ g' st', deliver g st units.length (st.image units) = (g', st') ∧ Synced g st g' st' ∧ st'.Holds g' units ∧
      g.heap.left ≤ g'.heap.left + st.need := by
  have hlt := lt_of_le_of_lt (length_of_spells hu) hs.1
  obtain ⟨g', st', hd, hsy, hshows⟩ := deliver_spec (st.image units) hok hg (by omega) (length_image st units)
  have h0 : st'.guestBuf ≠ 0 := by
    have hres := reserve_ne_zero hok hroom
    rwa [← deliver_buf _ (st.image units), hd] at hres
  have hleft := left_deliver hok hs hu
  rw [hd] at hleft
  have hshows := hshows h0
  obtain ⟨p, c, rfl⟩ := hsy.same
  exact ⟨g', _, hd, hsy, ⟨hshows, hu, h0⟩, hleft⟩

/-! ### Other streams -/

lemma Stream.Holds.delivers {units : List ℕ} (hh : st.Holds g units) (hg : Good g st) : Delivers g st := by
  obtain ⟨n, hn, hle⟩ := hg.buf hh.buf
  refine ⟨units, n, hh.spells, ?_, ?_, hh.size, ?_⟩
  · rwa [hh.pointer]
  · rw [length_image]
    exact (Nat.mul_le_mul_left _ hh.capacity).trans hle
  · rw [hh.pointer]
    exact hh.bytes

lemma Synced.delivers {units : List ℕ} (hsy : Synced g st g' st') (hh : st'.Holds g' units) : Delivers g' st := by
  have hd := hh.delivers hsy.good
  obtain ⟨p, c, rfl⟩ := hsy.same
  exact hd

lemma Stream.Holds.frame {units : List ℕ} (hh : st.Holds g units) (hg : Good g st)
    (hframe : ∀ x ∈ st.footprint, g'.mem.bytes x = g.mem.bytes x) : st.Holds g' units := by
  obtain ⟨n, hn, hle⟩ := hg.buf hh.buf
  have hin : (st.image units).length ≤ st.width * st.guestCapacity := by
    rw [length_image]
    exact Nat.mul_le_mul_left _ hh.capacity
  refine ⟨⟨hh.capacity, ?_, ?_, ?_⟩, hh.spells, hh.buf⟩
  · rw [GuestHeap.wordAt_congr fun x hx => hframe x (.inl (.inl hx))]
    exact hh.pointer
  · rw [GuestHeap.wordAt_congr fun x hx => hframe x (.inl (.inr hx))]
    exact hh.size
  · rw [load_congr (by have := n.isLt; omega) fun x hx => hframe x (.inr ?_)]
    · exact hh.bytes
    · rw [buffer_of_ne hh.buf]
      exact block_mono hin hx

lemma Synced.disjoint {st₂ : Stream} (hok : g.Ok) (hsy : Synced g st g' st') (hg₂ : Good g st₂)
    (hd : Disjoint st.footprint st₂.footprint) : Disjoint st'.footprint st₂.footprint := by
  have hspare := hg₂.footprint_spare hok
  rw [footprint, hsy.fixed.1, disjoint_union_left]
  refine ⟨hd.mono_left subset_union_left, ?_⟩
  refine Disjoint.mono_left hsy.buffer ?_
  rw [disjoint_union_left]
  exact ⟨hd.mono_left subset_union_right, hspare.symm⟩

lemma Synced.frame_other {st₂ : Stream} (hok : g.Ok) (hsy : Synced g st g' st') (hg₂ : Good g st₂)
    (hd : Disjoint st.footprint st₂.footprint) : ∀ x ∈ st₂.footprint, g'.mem.bytes x = g.mem.bytes x := by
  intro x hx
  exact hsy.frame x (fun h => disjoint_left.1 hd h hx) (disjoint_left.1 (hg₂.footprint_spare hok) hx)

end

/-! ### All the streams -/

structure Inv (s : State) : Prop where
  ok : s.toGuestHeap.Ok
  fresh : ∀ handle, s.nextFd ≤ handle → s.streams handle = none
  good : ∀ handle st, s.streams handle = some st → Good s.toGuestHeap st
  sized : ∀ handle st, s.streams handle = some st → st.Sized
  apart : ∀ h₁ h₂ st₁ st₂, s.streams h₁ = some st₁ → s.streams h₂ = some st₂ → h₁ ≠ h₂ →
    Disjoint st₁.footprint st₂.footprint

section

variable {s s' : State} {g' g : GuestHeap} {st st' : Stream} {handle : ℕ} {hs : HostStream} {bytes : List Byte}
  {moves : Bool} {failure : Option ℕ} {order : List ℕ}

lemma inv_initial (h : Initial s) : Inv s := by
  have hnone : ∀ handle st, s.streams handle ≠ some st := by
    intro handle st hst
    rw [h.streams] at hst
    cases hst
  exact ⟨h.ok, fun handle _ => by rw [h.streams], fun _ _ hst => absurd hst (hnone _ _),
    fun _ _ hst => absurd hst (hnone _ _), fun _ _ _ _ hst => absurd hst (hnone _ _)⟩

lemma Inv.guest (hi : Inv s) (hok : g'.Ok) (hgood : ∀ handle st, s.streams handle = some st → Good g' st) :
    Inv { s with toGuestHeap := g' } :=
  ⟨hok, hi.fresh, hgood, hi.sized, hi.apart⟩

lemma update_eq_some {t : ℕ → Option Stream} {a b : ℕ} {o : Option Stream} (h : update t a o b = some st) :
    (b = a ∧ o = some st) ∨ (b ≠ a ∧ t b = some st) := by
  rw [update_apply] at h
  split_ifs at h with hb
  · exact .inl ⟨hb, h⟩
  · exact .inr ⟨hb, h⟩

lemma Inv.erase (hi : Inv s) (handle : ℕ) : Inv { s with streams := update s.streams handle none } := by
  have hold : ∀ h st, update s.streams handle none h = some st → s.streams h = some st := by
    intro h st hst
    rcases update_eq_some hst with ⟨-, hn⟩ | ⟨-, hst⟩
    · cases hn
    · exact hst
  refine ⟨hi.ok, fun h hle => ?_, fun h st hst => hi.good h st (hold h st hst),
    fun h st hst => hi.sized h st (hold h st hst),
    fun h₁ h₂ st₁ st₂ hst₁ hst₂ => hi.apart h₁ h₂ st₁ st₂ (hold _ _ hst₁) (hold _ _ hst₂)⟩
  by_cases hh : h = handle
  · rw [hh]
    exact update_self ..
  · exact (update_of_ne hh _ _).trans (hi.fresh h hle)

lemma Inv.put (hi : Inv s) {nextFd : ℕ} (hfd : handle < nextFd) (hnext : s.nextFd ≤ nextFd) (hok : g'.Ok)
    (hgood : Good g' st') (hsized : st'.Sized)
    (hothers : ∀ h st, s.streams h = some st → h ≠ handle → Good g' st ∧ Disjoint st'.footprint st.footprint) :
    Inv ⟨g', update s.streams handle (some st'), nextFd⟩ := by
  refine ⟨hok, fun h hle => ?_, fun h st hst => ?_, fun h st hst => ?_, fun h₁ h₂ st₁ st₂ hst₁ hst₂ hne => ?_⟩
  · have hlt : nextFd ≤ h := hle
    exact (update_of_ne (by omega) _ _).trans (hi.fresh h (by omega))
  · rcases update_eq_some hst with ⟨-, he⟩ | ⟨hh, hold⟩
    · cases he
      exact hgood
    · exact (hothers h st hold hh).1
  · rcases update_eq_some hst with ⟨-, he⟩ | ⟨-, hold⟩
    · cases he
      exact hsized
    · exact hi.sized h st hold
  · rcases update_eq_some hst₁ with ⟨hh₁, he₁⟩ | ⟨hh₁, hold₁⟩
    · rcases update_eq_some hst₂ with ⟨hh₂, -⟩ | ⟨hh₂, hold₂⟩
      · exact absurd (hh₁.trans hh₂.symm) hne
      · cases he₁
        exact (hothers h₂ st₂ hold₂ hh₂).2
    · rcases update_eq_some hst₂ with ⟨-, he₂⟩ | ⟨-, hold₂⟩
      · cases he₂
        exact (hothers h₁ st₁ hold₁ hh₁).2.symm
      · exact hi.apart h₁ h₂ st₁ st₂ hold₁ hold₂ hne

lemma Inv.lt_nextFd (hi : Inv s) (hst : s.streams handle = some st) : handle < s.nextFd := by
  by_contra hle
  rw [hi.fresh handle (not_lt.1 hle)] at hst
  cases hst

lemma Inv.synced (hi : Inv s) (hst : s.streams handle = some st) (hsized : hs.Sized)
    (hsy : Synced s.toGuestHeap { st with toHostStream := hs } g' st') :
    Inv { s with toGuestHeap := g', streams := update s.streams handle (some st') } := by
  have hsized' : st'.Sized := by
    obtain ⟨p, c, rfl⟩ := hsy.same
    exact hsized
  refine hi.put (hi.lt_nextFd hst) le_rfl hsy.ok hsy.good hsized' fun h st₂ hst₂ hne => ?_
  have hg₂ := hi.good h st₂ hst₂
  have hd : Disjoint st.footprint st₂.footprint := hi.apart _ _ _ _ hst hst₂ hne.symm
  exact ⟨hg₂.retains hsy.mapped hsy.keeps hsy.retains, hsy.disjoint hi.ok hg₂ hd⟩

lemma onStream_eq {f : GuestHeap → Stream → Except Fault (GuestHeap × Stream)} (hst : s.streams handle = some st)
    (he : f s.toGuestHeap st = .ok (g', st')) :
    s.onStream handle f = .ok { s with toGuestHeap := g', streams := update s.streams handle (some st') } := by
  rw [onStream, hst]
  dsimp only
  rw [he]
  rfl

/-- **The rule for a call on one stream**: what it does to the stream is a copy, and `Q` holds afterwards. -/
theorem Inv.onStream (hi : Inv s) {f : GuestHeap → Stream → Except Fault (GuestHeap × Stream)}
    (Q : Stream → GuestHeap → Prop)
    (hf : ∀ st, s.streams handle = some st → ∃ g' st' hs, f s.toGuestHeap st = .ok (g', st') ∧
      Synced s.toGuestHeap { st with toHostStream := hs } g' st' ∧ hs.Sized ∧ Q st g') :
    ∃ s', s.onStream handle f = .ok s' ∧ Inv s' ∧ ∀ st, s.streams handle = some st → Q st s'.toGuestHeap := by
  cases hst : s.streams handle with
  | none =>
    refine ⟨s, ?_, hi, nofun⟩
    rw [State.onStream, hst]
  | some st =>
    obtain ⟨g', st', hs, he, hsy, hsized, hq⟩ := hf st hst
    refine ⟨_, onStream_eq hst he, hi.synced hst hsized hsy, ?_⟩
    rintro st₁ h
    cases h
    exact hq

/-! ### The calls -/

lemma sized_write (h : hs.Sized) (hlen : (hs.write bytes moves).data.length < 2 ^ 59) :
    (hs.write bytes moves).Sized := by
  refine ⟨hlen, fun b hb => ?_⟩
  obtain ⟨b', hb', rfl⟩ := Option.map_eq_some_iff.1 hb
  have hle := h.2 b' hb'
  have hgrow : hs.data.length ≤ (hs.write bytes moves).data.length := by
    simp only [HostStream.write, length_append, length_take, length_replicate, length_drop]
    omega
  exact hle.trans hgrow

lemma sized_flush (h : hs.Sized) : hs.flush.Sized := by
  refine ⟨h.1, fun b hb => ?_⟩
  cases hb
  exact Nat.min_le_left _ _

lemma syncStreamAfterWrite_spec (hok : g.Ok) (hg : Good g st) (hs : st.Sized) (hr : st.wide = true → st.Readable) :
    ∃ g' st', syncStreamAfterWrite g st = .ok (g', st') ∧ Synced g st g' st' := by
  cases hw : st.wide with
  | false =>
    refine ⟨g, st, ?_, synced_refl hok hg⟩
    unfold syncStreamAfterWrite syncOpenWmemstream
    rw [hw, if_neg Bool.false_ne_true]
  | true =>
    obtain ⟨g', st', he, hsy⟩ := syncStreamAfterFlush_spec hok hg hs (hr hw)
    rw [syncStreamAfterFlush_of_wide hw] at he
    exact ⟨g', st', he, hsy⟩

lemma write_keeps (hi : Inv s) {copies : Bool} (hc : Meets s (.write handle bytes moves copies)) :
    ∃ s', s.write handle bytes moves copies = .ok s' ∧ Inv s' := by
  unfold write
  refine (hi.onStream (fun _ _ => True) fun st hst => ?_).imp fun s' h => ⟨h.1, h.2.1⟩
  obtain ⟨hlen, hread⟩ := hc st hst
  have hsized := sized_write (hi.sized _ _ hst) hlen
  have hg := (hi.good _ _ hst).host (st.toHostStream.write bytes moves)
  cases copies with
  | false => exact ⟨_, _, _, rfl, synced_refl hi.ok hg, hsized, trivial⟩
  | true =>
    obtain ⟨g', st', he, hsy⟩ := syncStreamAfterWrite_spec hi.ok hg hsized (hread rfl)
    exact ⟨g', st', _, he, hsy, hsized, trivial⟩

lemma seek_keeps (hi : Inv s) (pos : ℕ) : ∃ s', s.seek handle pos = .ok s' ∧ Inv s' := by
  unfold seek
  refine (hi.onStream (fun _ _ => True) fun st hst => ?_).imp fun s' h => ⟨h.1, h.2.1⟩
  have hg := (hi.good _ _ hst).host { st.toHostStream with pos }
  exact ⟨_, _, _, rfl, synced_refl hi.ok hg, hi.sized _ _ hst, trivial⟩

lemma hostBuf_flushed (hpos : st.pos = st.data.length) :
    st.flushed.hostBuf = some ⟨st.data.length, false⟩ := by
  show some (⟨min st.data.length st.pos, false⟩ : HostBuf) = _
  rw [hpos, min_self]

lemma flushed_spec (hok : g.Ok) (hg : Good g st) (hs : st.Sized) (hc : st.Complete g) :
    ∃ g' st' units, syncStreamAfterFlush g st.flushed = .ok (g', st') ∧ Synced g st.flushed g' st' ∧
      st'.Holds g' units := by
  obtain ⟨units, hu⟩ := hc.spells
  have hb := hostBuf_flushed hc.pos
  have hs' : st.flushed.Sized := sized_flush hs
  have hu' : st.flushed.Spells units := hu
  obtain ⟨g', st', hd, hsy, hh, -⟩ := deliver_holds hok (hg.host st.flush) hs' hu' (room_of_need hu' hc.room)
  refine ⟨g', st', units, ?_, hsy, hh⟩
  rw [← hd]
  exact syncStreamAfterFlush_of_spells hok (hg.host st.flush) hs' hb hu'

lemma fflush_keeps (hi : Inv s) (hc : Meets s (.fflush failure handle)) :
    ∃ s', s.onStream handle (flushing failure) = .ok s' ∧ Inv s' ∧ Lawful s (.fflush failure handle) s' := by
  cases failure with
  | some e =>
    refine (hi.onStream (fun _ _ => True) fun st hst => ?_).imp fun s' h => ⟨h.1, h.2.1, trivial⟩
    exact ⟨_, _, st.toHostStream, rfl, synced_refl hi.ok (hi.good _ _ hst), hi.sized _ _ hst, trivial⟩
  | none =>
    refine hi.onStream (fun st g' => Delivers g' st) fun st hst => ?_
    obtain ⟨g', st', units, he, hsy, hh⟩ := flushed_spec hi.ok (hi.good _ _ hst) (hi.sized _ _ hst) (hc rfl st hst)
    exact ⟨g', st', _, he, hsy, sized_flush (hi.sized _ _ hst), hsy.delivers hh⟩

lemma closing_spec (hok : g.Ok) (hg : Good g st) (hs : st.Sized) (hc : st.Complete g) :
    ∃ g' st', closing none g st = .ok (g', st') ∧ Synced g st.flushed g' st' ∧ Delivers g' st := by
  obtain ⟨g₁, st₁, units, he, hsy, hh⟩ := flushed_spec hok hg hs hc
  obtain ⟨p, c, rfl⟩ := hsy.same
  have hs' : st.flushed.Sized := sized_flush hs
  have hb := hostBuf_flushed hc.pos
  -- the block is large enough for the second copy
  obtain ⟨g₂, st₂, hd, hsy', hh', -⟩ := deliver_holds hsy.ok hsy.good hs' hh.spells (.inl ⟨hh.buf, hh.capacity⟩)
  refine ⟨g₂, st₂, ?_, hsy.trans hsy', ?_⟩
  · unfold closing
    rw [he, ← hd]
    exact syncStreamAfterFlush_of_spells hsy.ok hsy.good hs' hb hh.spells
  · exact hsy'.delivers hh'

lemma closing_failed (e : ℕ) (hok : g.Ok) (hg : Good g st) (hs : st.Sized) (hr : st.Readable) :
    ∃ g' st', closing (some e) g st = .ok (g', st') ∧ Synced g st g' st' := by
  obtain ⟨g₁, st₁, he, hsy⟩ := syncStreamAfterFlush_spec hok hg hs hr
  obtain ⟨p, c, rfl⟩ := hsy.same
  obtain ⟨g₂, st₂, he', hsy'⟩ := syncStreamAfterFlush_spec hsy.ok hsy.good hs hr
  refine ⟨g₂, st₂, ?_, hsy.trans hsy'⟩
  unfold closing
  rw [he]
  exact he'

lemma fclose_keeps (hi : Inv s) (hc : Meets s (.fclose failure handle)) :
    ∃ s', s.onStream handle (closing failure) = .ok s' ∧ Inv s' ∧ Lawful s (.fclose failure handle) s' := by
  cases failure with
  | some e =>
    refine (hi.onStream (fun _ _ => True) fun st hst => ?_).imp fun s' h => ⟨h.1, h.2.1, trivial⟩
    have hr : st.Readable := hc st hst
    obtain ⟨g', st', he, hsy⟩ := closing_failed e hi.ok (hi.good _ _ hst) (hi.sized _ _ hst) hr
    exact ⟨g', st', _, he, hsy, hi.sized _ _ hst, trivial⟩
  | none =>
    refine hi.onStream (fun st g' => Delivers g' st) fun st hst => ?_
    have hr : st.Complete s.toGuestHeap := hc st hst
    obtain ⟨g', st', he, hsy, hd⟩ := closing_spec hi.ok (hi.good _ _ hst) (hi.sized _ _ hst) hr
    exact ⟨g', st', _, he, hsy, sized_flush (hi.sized _ _ hst), hd⟩

lemma openStream_keeps (hi : Inv s) {wide : Bool} {ptrPtr sizelocPtr : Word}
    (hc : Meets s (.openStream wide failure ptrPtr sizelocPtr)) :
    Inv (s.openStream wide failure ptrPtr sizelocPtr).1 := by
  unfold openStream
  by_cases h0 : ptrPtr = 0 ∨ sizelocPtr = 0
  · rw [if_pos h0]
    exact hi
  rw [if_neg h0]
  push Not at h0
  cases failure with
  | some e => exact hi
  | none =>
    obtain ⟨hptr, hsize, hvars, hspare, hothers⟩ := hc h0.1 h0.2 rfl
    have hempty : buffer ⟨⟨[], 0, none⟩, wide, ptrPtr, sizelocPtr, 0, 0⟩ = ∅ := if_pos rfl
    have hnew : Good s.toGuestHeap ⟨⟨[], 0, none⟩, wide, ptrPtr, sizelocPtr, 0, 0⟩ :=
      ⟨h0.1, h0.2, hptr, hsize, hvars, hspare, fun h => absurd rfl h, by
        rw [hempty]
        exact disjoint_empty _⟩
    -- the zeros are written to memory that is mapped, and the heap is the same
    have hmem : ∀ st, Good s.toGuestHeap st →
        Good (memWrite (memWrite s.toGuestHeap ptrPtr (leBytes 8 0)) sizelocPtr (leBytes 8 0)) st :=
      fun st hg => hg.congr rfl hg.kept fun _ hn => hn
    refine hi.put (Nat.lt_succ_self _) (Nat.le_succ _) (hi.ok.keeps rfl hi.ok.inv.keeps) (hmem _ hnew)
      ⟨show 0 < 2 ^ 59 by decide, nofun⟩ fun h st hst _ => ⟨hmem st (hi.good h st hst), ?_⟩
    rw [footprint, hempty, union_empty]
    exact hothers h st hst

lemma free_keeps (hi : Inv s) {p : Word} (hc : Meets s (.free p)) : Inv { s with heap := s.heap.free p } := by
  have hr := (free_spec hi.ok.inv p).1
  refine hi.guest (hi.ok.keeps rfl hr.keeps) fun handle st hst => ?_
  have hg := hi.good handle st hst
  refine hg.congr rfl ?_ fun n hn => (hr.allocs _ _).2 ⟨fun h => ?_, hn⟩
  · refine disjoint_left.2 fun x hx hsp => ?_
    rcases hr.spare hi.ok.inv hsp with hsp | ⟨m, hm, hxm⟩
    · exact disjoint_left.1 hg.kept hx hsp
    · exact disjoint_left.1 (hc handle st m hst hm).2 hx hxm
  · exact (hc handle st n hst (h ▸ hn)).1 h.symm

/-! ### `fflush(NULL)` -/

/-- The stream is as it was, but for its block, and holds its data. -/
def Copied (st : Stream) (s' : State) (handle : ℕ) : Prop :=
  ∃ p c units, s'.streams handle = some { st with guestBuf := p, guestCapacity := c } ∧
    Holds { st with guestBuf := p, guestCapacity := c } s'.toGuestHeap units

lemma copyOne (hi : Inv s) (hst : s.streams handle = some st) (hw : st.wide = false)
    (hb : st.hostBuf = some ⟨st.data.length, false⟩) (hneed : st.need ≤ s.heap.left) :
    ∃ s', s.onStream handle syncOpenMemstream = .ok s' ∧ Inv s' ∧ Copied st s' handle ∧
      (∀ h, h ≠ handle → s'.streams h = s.streams h ∧
        ∀ st₂ units, s.streams h = some st₂ → st₂.Holds s.toGuestHeap units → st₂.Holds s'.toGuestHeap units) ∧
      s.heap.left ≤ s'.heap.left + st.need := by
  have hg := hi.good _ _ hst
  have hs := hi.sized _ _ hst
  have hu : st.Spells (st.data.map BitVec.toNat) := by rw [Spells, hw, if_neg Bool.false_ne_true]
  have he := syncOpenMemstream_of_spells (g := s.toGuestHeap) hw hb hu
  obtain ⟨g', st', hd, hsy, hh, hleft⟩ := deliver_holds hi.ok hg hs hu (room_of_need hu hneed)
  rw [hd] at he
  refine ⟨_, onStream_eq hst he, hi.synced hst hs hsy, ?_, ?_, hleft⟩
  · obtain ⟨p, c, rfl⟩ := hsy.same
    exact ⟨p, c, _, update_self .., hh⟩
  · intro h hne
    refine ⟨update_of_ne hne _ _, fun st₂ units hst₂ hh₂ => ?_⟩
    have hg₂ := hi.good _ _ hst₂
    exact hh₂.frame hg₂ (hsy.frame_other hi.ok hg₂ (hi.apart _ _ _ _ hst hst₂ hne.symm))

lemma needs_congr (h : ∀ handle ∈ order, s'.streams handle = s.streams handle) : needs s' order = needs s order := by
  unfold needs
  congr 1
  refine map_congr_left fun handle hh => ?_
  rw [h handle hh]

/-- **The loop over the streams**: each holds its data at the end. -/
lemma copyAll_spec (hi : Inv s) (hnodup : order.Nodup)
    (hready : ∀ handle ∈ order, ∃ st, s.streams handle = some st ∧ st.wide = false ∧
      st.hostBuf = some ⟨st.data.length, false⟩) (hneed : needs s order ≤ s.heap.left) :
    ∃ s', s.copyAll order = .ok s' ∧ Inv s' ∧
      (∀ handle ∈ order, ∀ st, s.streams handle = some st → Copied st s' handle) ∧
      (∀ handle, handle ∉ order → s'.streams handle = s.streams handle ∧
        ∀ st units, s.streams handle = some st → st.Holds s.toGuestHeap units → st.Holds s'.toGuestHeap units) := by
  induction order generalizing s with
  | nil => exact ⟨s, rfl, hi, nofun, fun h _ => ⟨rfl, fun _ _ _ hh => hh⟩⟩
  | cons handle rest ih =>
    obtain ⟨hnot, hnodup⟩ := nodup_cons.1 hnodup
    obtain ⟨st, hst, hw, hb⟩ := hready handle mem_cons_self
    have hsum : needs s (handle :: rest) = st.need + needs s rest := by
      unfold needs
      rw [map_cons, sum_cons, hst]
      rfl
    obtain ⟨s₁, he₁, hi₁, hcopied, hothers, hleft⟩ := copyOne hi hst hw hb (by omega)
    have hsame : ∀ h ∈ rest, s₁.streams h = s.streams h := by
      intro h hh
      refine (hothers h ?_).1
      rintro rfl
      exact hnot hh
    have hrest : needs s₁ rest ≤ s₁.heap.left := by
      rw [needs_congr hsame]
      omega
    obtain ⟨s', he, hi', hdone, hkept⟩ := ih hi₁ hnodup (fun h hh => by
      rw [hsame h hh]
      exact hready h (mem_cons_of_mem _ hh)) hrest
    refine ⟨s', ?_, hi', fun h hh st₂ hst₂ => ?_, fun h hh => ?_⟩
    · rw [copyAll, foldlM_cons, he₁]
      exact he
    · rcases mem_cons.1 hh with rfl | hh
      · rw [hst] at hst₂
        cases hst₂
        obtain ⟨p, c, units, hstr, hholds⟩ := hcopied
        -- the rounds that follow keep the copy
        obtain ⟨hstr', hholds'⟩ := hkept h hnot
        exact ⟨p, c, units, hstr'.trans hstr, hholds' _ _ hstr hholds⟩
      · exact hdone h hh st₂ ((hsame h hh).trans hst₂)
    · obtain ⟨hne, hh⟩ := ne_and_not_mem_of_not_mem_cons hh
      obtain ⟨hstr, hholds⟩ := hothers h hne
      obtain ⟨hstr', hholds'⟩ := hkept h hh
      refine ⟨hstr'.trans hstr, fun st₂ units hst₂ hh₂ => ?_⟩
      exact hholds' st₂ units (hstr.trans hst₂) (hholds st₂ units hst₂ hh₂)

lemma needs_flushed (order : List ℕ) : needs s.allFlushed order = needs s order := by
  unfold needs
  congr 1
  refine map_congr_left fun handle _ => ?_
  show (((s.streams handle).map flushed).map need).getD 0 = _
  cases s.streams handle <;> rfl

lemma Inv.flushedAll (hi : Inv s) : Inv s.allFlushed := by
  have hold : ∀ {h st}, (s.streams h).map flushed = some st → ∃ st₀, s.streams h = some st₀ ∧ st₀.flushed = st :=
    fun h => Option.map_eq_some_iff.1 h
  refine ⟨hi.ok, fun h hle => ?_, fun h st hst => ?_, fun h st hst => ?_, fun h₁ h₂ st₁ st₂ hst₁ hst₂ hne => ?_⟩
  · show (s.streams h).map _ = none
    rw [hi.fresh h hle]
    rfl
  · obtain ⟨st₀, hst₀, rfl⟩ := hold hst
    exact (hi.good h st₀ hst₀).host _
  · obtain ⟨st₀, hst₀, rfl⟩ := hold hst
    exact sized_flush (hi.sized h st₀ hst₀)
  · obtain ⟨st₁', hst₁', rfl⟩ := hold hst₁
    obtain ⟨st₂', hst₂', rfl⟩ := hold hst₂
    exact hi.apart h₁ h₂ st₁' st₂' hst₁' hst₂' hne

lemma fflushAll_keeps (hi : Inv s) (hc : Meets s (.fflushAll none order)) :
    ∃ s', s.allFlushed.copyAll order = .ok s' ∧ Inv s' ∧ Lawful s (.fflushAll none order) s' := by
  obtain ⟨horder, hpos, hwide, hneed⟩ := hc rfl
  set s₀ := s.allFlushed
  have hflushed : ∀ {h st}, s.streams h = some st → s₀.streams h = some st.flushed := by
    intro h st hst
    show (s.streams h).map _ = _
    rw [hst]
    rfl
  have hready : ∀ handle ∈ order, ∃ st, s₀.streams handle = some st ∧ st.wide = false ∧
      st.hostBuf = some ⟨st.data.length, false⟩ := by
    intro handle hh
    obtain ⟨st, hst, hw⟩ := (horder.mem handle).1 hh
    exact ⟨st.flushed, hflushed hst, hw, hostBuf_flushed (hpos handle st hst hw)⟩
  have hneed₀ : needs s₀ order ≤ s₀.heap.left := (needs_flushed order).le.trans hneed
  obtain ⟨s', he, hi', hdone, hkept⟩ := copyAll_spec hi.flushedAll horder.nodup hready hneed₀
  refine ⟨s', he, hi', fun handle st hst => ?_⟩
  by_cases hh : handle ∈ order
  · obtain ⟨p, c, units, hstr, hholds⟩ := hdone handle hh st.flushed (hflushed hst)
    have hd := hholds.delivers (hi'.good _ _ hstr)
    exact hd
  · -- a wide stream holds what it held
    have hw : st.wide = true := by
      by_contra h
      exact hh ((horder.mem handle).2 ⟨st, hst, Bool.eq_false_iff.2 h⟩)
    obtain ⟨units, hholds⟩ := hwide handle st hst hw
    obtain ⟨hstr, hkeep⟩ := hkept handle hh
    have hflush : st.flushed.Holds s₀.toGuestHeap units :=
      ⟨⟨hholds.capacity, hholds.pointer, hholds.size, hholds.bytes⟩, hholds.spells, hholds.buf⟩
    have hd := (hkeep _ _ (hflushed hst) hflush).delivers (hi'.good _ _ (hstr.trans (hflushed hst)))
    exact hd

/-! ### Runs -/

theorem step_keeps (hi : Inv s) {e : Event} (hc : Meets s e) : ∃ s', step s e = .ok s' ∧ Inv s' ∧ Lawful s e s' := by
  cases e with
  | stores a bytes =>
    refine ⟨_, rfl, hi.guest (hi.ok.keeps rfl hi.ok.inv.keeps) fun handle st hst => ?_, trivial⟩
    have hg := hi.good handle st hst
    exact hg.congr rfl hg.kept fun _ hn => hn
  | malloc size =>
    obtain ⟨hk, hr⟩ := retains_allocate_sixteen hi.ok.inv hc
    refine ⟨_, rfl, hi.guest (hi.ok.keeps rfl hk) fun handle st hst => ?_, trivial⟩
    exact (hi.good handle st hst).retains rfl hk hr
  | free p => exact ⟨_, rfl, free_keeps hi hc, trivial⟩
  | openStream wide failure ptrPtr sizelocPtr => exact ⟨_, rfl, openStream_keeps hi hc, trivial⟩
  | write handle bytes moves copies =>
    obtain ⟨s', he, hi'⟩ := write_keeps hi hc
    exact ⟨s', he, hi', trivial⟩
  | seek handle pos =>
    obtain ⟨s', he, hi'⟩ := seek_keeps hi pos
    exact ⟨s', he, hi', trivial⟩
  | fflush failure handle =>
    obtain ⟨s', he, hi', hl⟩ := fflush_keeps hi hc
    refine ⟨s', ?_, hi', hl⟩
    rw [step, fflush, he]
    rfl
  | fflushAll failure order =>
    cases failure with
    | some e => exact ⟨s, rfl, hi, trivial⟩
    | none =>
      obtain ⟨s', he, hi', hl⟩ := fflushAll_keeps hi hc
      refine ⟨s', ?_, hi', hl⟩
      rw [step, fflushAll, he]
      rfl
  | fclose failure handle =>
    obtain ⟨s', he, hi', hl⟩ := fclose_keeps hi hc
    refine ⟨{ s' with streams := update s'.streams handle none }, ?_, hi'.erase handle, ?_⟩
    · rw [step, fclose, he]
      rfl
    · cases failure with
      | some e => trivial
      | none => exact hl

lemma reach_inv (hr : system.Reach Meets s) : Inv s := by
  refine hr.invariant (fun s h => inv_initial h) fun s e s' hi hc hstep => ?_
  obtain ⟨s₁, he, hi₁, -⟩ := step_keeps hi hc
  cases he.symm.trans hstep
  exact hi₁

end

/-- **Memory streams over whole runs**: in a run whose steps all meet the condition, every call that meets it ends, and
after a flush or a close the guest finds the data. -/
theorem reach_delivers (s : State) (hr : system.Reach Meets s) (e : Event) (hc : Meets s e) :
    ∃ s', step s e = .ok s' ∧ Lawful s e s' := by
  obtain ⟨s', he, -, hl⟩ := step_keeps (reach_inv hr) hc
  exact ⟨s', he, hl⟩

/-- A guest with a heap at `0x10000`; no stream is open. -/
def idle : State where
  mem := ⟨fun _ => 0, fun _ => true⟩
  heap := .init 0x10000 0x10000
  streams := fun _ => none
  nextFd := 100

lemma initial_idle : Initial idle := ⟨⟨HeapAllocator.inv_init (by decide) (by decide), fun _ _ => rfl⟩, rfl⟩

/-- `open_wmemstream`, with the variables at `0x1000` and `0x1008`. -/
def opened : State := (idle.openStream true none 0x1000 0x1008).1

lemma meets_opened : Meets idle (.openStream true none 0x1000 0x1008) := by
  intro _ _ _
  refine ⟨⟨by decide, fun _ _ => rfl⟩, ⟨by decide, fun _ _ => rfl⟩, ?_, ?_, nofun⟩
  · exact disjoint_of_apart (by decide) (by decide) (.inl (by decide))
  · refine disjoint_left.2 fun x hx hsp => ?_
    have hlo : 0x10000 ≤ x.toNat := hsp.1.1
    rcases hx with hx | hx
    all_goals
      rw [mem_block_iff (by decide), mem_span] at hx
      have hlt : x.toNat < 0x1010 := hx.2.trans_le (by decide)
      omega

/-- The bytes of an `é`. -/
def acute : List Byte := [0xc3, 0xa9]

def unflushed : State :=
  { opened with streams := update opened.streams 100 (some ⟨⟨acute, 2, none⟩, true, 0x1000, 0x1008, 0, 0⟩) }

lemma reach_unflushed : system.Reach Meets unflushed := by
  have hopened : system.Reach Meets opened := .step (.init initial_idle) meets_opened rfl
  have hmeets : Meets opened (.write 100 acute false false) := by
    intro st hst
    cases hst
    exact ⟨by decide, nofun⟩
  exact .step hopened hmeets rfl

/-- `open_wmemstream`, a write and `fflush`. -/
theorem reach_delivers_acute :
    ∃ s', step unflushed (.fflush none 100) = .ok s' ∧ Lawful unflushed (.fflush none 100) s' := by
  refine reach_delivers unflushed reach_unflushed _ fun _ st hst => ?_
  cases hst
  refine ⟨rfl, ⟨[0xe9], ?_⟩, by decide +kernel⟩
  exact ⟨[Char.ofNat 0xe9], by decide, by decide⟩

/-- `fflush(NULL)` leaves the variables of a wide stream as they were; and a write that makes the host move its buffer
is followed by a copy from the freed one. -/
theorem fflushAll_skips_wide :
    system.Reachable unflushed ∧
      (∃ s', step unflushed (.fflushAll none []) = .ok s' ∧ (s'.wordAt 0x1008).toNat = 0 ∧
        ¬Lawful unflushed (.fflushAll none []) s') ∧
      ((step unflushed (.fflush none 100)).bind
        fun s => (step s (.write 100 acute true true)).map fun _ => ()) = .error .useAfterFree := by
  refine ⟨reach_unflushed.mono fun _ _ _ => trivial, ⟨_, rfl, by decide +kernel, fun h => ?_⟩, by decide +kernel⟩
  obtain ⟨units, -, hu, -, -, hsize, -⟩ := h 100 _ rfl
  have hzero : units.length = 0 := hsize.symm.trans (by decide +kernel)
  obtain ⟨text, hdata, hunits⟩ := hu
  rw [length_eq_zero_iff.1 hzero] at hunits
  rw [map_eq_nil_iff.1 hunits.symm] at hdata
  cases hdata

end CrossShim.Stdio.MemStreams
