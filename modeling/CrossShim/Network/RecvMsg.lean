import CrossShim.Memory.Access

/-!
# `recvmsg`

The handler of `hle_network.cpp`.  It reads the `msghdr` and the vectors of the guest, receives into buffers of the host
that are as long and hold zeros, and writes all of them back, with the address of the sender.

So what is not received is overwritten with zeros, and the address is written with the length that the host returns:
`received_iff`.
-/

namespace CrossShim.Network

open Lib Memory GuestMemory

/-! ### The handler -/

/-- What is read of a `msghdr`. -/
structure MsgHdr where
  name : Word
  namelen : ℕ
  iov : Word
  iovlen : ℕ
  deriving DecidableEq

/-- Little-endian fields of a structure that was read. -/
def field (bytes : List Byte) (offset size : ℕ) : ℕ := ofLe ((bytes.drop offset).take size)

def wordField (bytes : List Byte) (offset : ℕ) : Word := BitVec.ofNat 64 (field bytes offset 8)

variable (mem : GuestMemory)

def readMsgHdr (msgPtr : Word) : Option MsgHdr :=
  match mem.read msgPtr (List.replicate 56 0) with
  | (buf, true) => some ⟨wordField buf 0, field buf 8 4, wordField buf 16, (wordField buf 24).toNat⟩
  | (_, false) => none

structure IoVec where
  base : Word
  len : ℕ
  deriving DecidableEq

/-- The vectors; where one cannot be read, it is what the stack held. -/
def readIoVecs (hdr : MsgHdr) (stack : ℕ → Byte) : List IoVec :=
  (List.range hdr.iovlen).map fun i =>
    let buf := (mem.read (hdr.iov + BitVec.ofNat 64 i * 16) ((List.range 16).map stack)).1
    ⟨wordField buf 0, (wordField buf 8).toNat⟩

/-- What the host's `recvmsg` comes to; `name` is what is from `name_buf` on. -/
structure Received where
  data : List Byte
  namelen : BitVec 32
  name : ℕ → Byte
  flags : BitVec 32

/-- The buffers after the data was received into them. -/
def fillBuffers : List IoVec → List Byte → List (List Byte)
  | [], _ => []
  | v :: vs, data => (data.take v.len ++ List.replicate (v.len - data.length) 0) :: fillBuffers vs (data.drop v.len)

def writeBuffers (mem : GuestMemory) : List (IoVec × List Byte) → GuestMemory
  | [] => mem
  | (v, buf) :: rest => writeBuffers (if v.base ≠ 0 ∧ v.len > 0 then (mem.write v.base buf).1 else mem) rest

def nameBytes (hdr : MsgHdr) (r : Received) : List Byte :=
  if hdr.name ≠ 0 ∧ r.namelen > 0 then (List.range r.namelen.toNat).map r.name else []

def writeName (msgPtr : Word) (hdr : MsgHdr) (r : Received) : GuestMemory :=
  if hdr.name ≠ 0 ∧ r.namelen > 0 then
    ((mem.write hdr.name (nameBytes hdr r)).1.write (msgPtr + 8) (leBytes 4 r.namelen.toNat)).1
  else mem

/-- The end of `recvmsg`, after the host received something. -/
def deliver (msgPtr : Word) (hdr : MsgHdr) (vs : List IoVec) (r : Received) : GuestMemory :=
  let mem := writeBuffers mem (vs.zip (fillBuffers vs r.data))
  let mem := writeName mem msgPtr hdr r
  (mem.write (msgPtr + 48) (leBytes 4 r.flags.toNat)).1

/-- Memory after the call, what is returned, and how many bytes were written to the name buffer. -/
structure RecvAnswer where
  mem : GuestMemory
  x0 : ℤ
  nameWritten : ℕ

/-- `recvmsg`; `host` is what the host makes of the vectors, an error being `none`. -/
def recvmsg (msgPtr : Word) (stack : ℕ → Byte) (host : MsgHdr → List IoVec → Option Received) : RecvAnswer :=
  if msgPtr = 0 then ⟨mem, -1, 0⟩
  else
    match readMsgHdr mem msgPtr with
    | none => ⟨mem, -1, 0⟩
    | some hdr =>
      let vs := readIoVecs mem hdr stack
      match host hdr vs with
      | none => ⟨mem, -1, 0⟩
      | some r => ⟨deliver mem msgPtr hdr vs r, r.data.length, mem.reach hdr.name (nameBytes hdr r).length⟩

/-! ### What is asked of it -/

/-- The buffers have the data, in their order, and are otherwise as before. -/
def Delivered (mem mem' : GuestMemory) : List IoVec → List Byte → Prop
  | [], _ => True
  | v :: vs, data =>
    load mem'.bytes v.base v.len = data.take v.len ++ (load mem.bytes v.base v.len).drop data.length ∧
      Delivered mem mem' vs (data.drop v.len)

def ZeroRest (mem : GuestMemory) : List IoVec → List Byte → Prop
  | [], _ => True
  | v :: vs, data =>
    (load mem.bytes v.base v.len).drop data.length = List.replicate (v.len - data.length) 0 ∧
      ZeroRest mem vs (data.drop v.len)

/-- The address fits into the caller's buffer, or there is no memory behind the buffer. -/
def NameFits (hdr : MsgHdr) (r : Received) : Prop :=
  hdr.name = 0 ∨ r.namelen.toNat ≤ hdr.namelen ∨
    ∃ i, i ≤ hdr.namelen ∧ mem.mapped (hdr.name + BitVec.ofNat 64 i) = false

def IoVec.block (v : IoVec) : Set Word := Lib.block v.base v.len

/-- The buffers of a call: mapped, apart from each other, from the `msghdr` and from the name buffer. -/
structure Laid (mem : GuestMemory) (msgPtr : Word) (hdr : MsgHdr) (vs : List IoVec) : Prop where
  given : ∀ v ∈ vs, v.len ≠ 0 → v.base ≠ 0
  mapped : ∀ v ∈ vs, mem.Mapped v.base v.len
  apart : vs.Pairwise fun v w => Disjoint v.block w.block
  hdrApart : ∀ v ∈ vs, Disjoint v.block (Lib.block msgPtr 56)
  nameApart : ∀ v ∈ vs, Disjoint v.block (Lib.block hdr.name hdr.namelen)

/-! ### The buffers -/

/-- The buffers have the data in their order, and zeros behind it. -/
def Filled (mem : GuestMemory) : List IoVec → List Byte → Prop
  | [], _ => True
  | v :: vs, data =>
    load mem.bytes v.base v.len = data.take v.len ++ List.replicate (v.len - data.length) 0 ∧
      Filled mem vs (data.drop v.len)

section

variable {mem mem' : GuestMemory} {vs : List IoVec} {data buf : List Byte} {v : IoVec} {x : Word}

@[simp] lemma mapped_writeBuffers (l : List (IoVec × List Byte)) : (writeBuffers mem l).mapped = mem.mapped := by
  induction l generalizing mem with
  | nil => rfl
  | cons e l ih =>
    rw [writeBuffers, ih]
    split_ifs <;> rfl

lemma length_fill (v : IoVec) :
    (data.take v.len ++ List.replicate (v.len - data.length) (0 : Byte)).length = v.len := by
  rw [List.length_append, List.length_take, List.length_replicate]
  omega

lemma load_writeBuffer (hgiven : v.len ≠ 0 → v.base ≠ 0) (hmap : mem.Mapped v.base v.len) (hbuf : buf.length = v.len) :
    load (if v.base ≠ 0 ∧ v.len > 0 then (mem.write v.base buf).1 else mem).bytes v.base v.len = buf := by
  rcases Nat.eq_zero_or_pos v.len with h0 | hpos
  · rw [h0, load_zero]
    exact (List.length_eq_zero_iff.1 (hbuf.trans h0)).symm
  · rw [if_pos ⟨hgiven hpos.ne', hpos⟩, write_of_mapped (by rwa [hbuf]), ← hbuf]
    exact load_store (hbuf.symm ▸ hmap.1)

lemma writeBuffer_of_notMem (hbuf : buf.length = v.len) (hx : x ∉ v.block) :
    (if v.base ≠ 0 ∧ v.len > 0 then (mem.write v.base buf).1 else mem).bytes x = mem.bytes x := by
  split_ifs
  · apply write_of_notMem
    rwa [hbuf]
  · rfl

/-- **The loop writes nothing but the buffers.** -/
theorem writeBuffers_of_notMem (hx : ∀ v ∈ vs, x ∉ v.block) :
    (writeBuffers mem (vs.zip (fillBuffers vs data))).bytes x = mem.bytes x := by
  induction vs generalizing mem data with
  | nil => rfl
  | cons v vs ih =>
    show (writeBuffers _ (vs.zip (fillBuffers vs (data.drop v.len)))).bytes x = _
    rw [ih fun w hw => hx w (.tail _ hw), writeBuffer_of_notMem (length_fill v) (hx v (.head _))]

lemma Filled.congr (hlen : ∀ v ∈ vs, v.len ≤ 2 ^ 64) (h : ∀ v ∈ vs, ∀ x ∈ v.block, mem'.bytes x = mem.bytes x)
    (hf : Filled mem vs data) : Filled mem' vs data := by
  induction vs generalizing data with
  | nil => trivial
  | cons v vs ih =>
    refine ⟨?_, ih (fun w hw => hlen w (.tail _ hw)) (fun w hw => h w (.tail _ hw)) hf.2⟩
    rw [load_congr (hlen v (.head _)) (h v (.head _))]
    exact hf.1

/-- **The loop fills the buffers.** -/
theorem filled_writeBuffers (hgiven : ∀ v ∈ vs, v.len ≠ 0 → v.base ≠ 0) (hmap : ∀ v ∈ vs, mem.Mapped v.base v.len)
    (hapart : vs.Pairwise fun v w => Disjoint v.block w.block) :
    Filled (writeBuffers mem (vs.zip (fillBuffers vs data))) vs data := by
  induction vs generalizing mem data with
  | nil => trivial
  | cons v vs ih =>
    obtain ⟨hhead, htail⟩ := List.pairwise_cons.1 hapart
    have hv := hmap v (.head _)
    refine ⟨?_, ?_⟩
    · -- the later buffers are apart from this one
      show load (writeBuffers _ (vs.zip (fillBuffers vs (data.drop v.len)))).bytes v.base v.len = _
      rw [load_congr hv.1 fun x hx => writeBuffers_of_notMem fun w hw => Set.disjoint_left.1 (hhead w hw) hx]
      exact load_writeBuffer (hgiven v (.head _)) hv (length_fill v)
    · refine ih (fun w hw => hgiven w (.tail _ hw)) (fun w hw => ?_) htail
      have hw := hmap w (.tail _ hw)
      split_ifs
      · exact hw
      · exact hw

/-- **Buffers with zeros behind the data** are as asked for exactly if the zeros were there. -/
theorem Filled.delivered_iff (hf : Filled mem' vs data) : Delivered mem mem' vs data ↔ ZeroRest mem vs data := by
  induction vs generalizing data with
  | nil => exact Iff.rfl
  | cons v vs ih =>
    show _ ∧ _ ↔ _ ∧ _
    rw [ih hf.2, hf.1, List.append_cancel_left_eq, eq_comm]

end

/-! ### The address -/

section

variable {mem : GuestMemory} {msgPtr : Word} {hdr : MsgHdr} {vs : List IoVec} {r : Received}

lemma nameWritten_le_iff : mem.reach hdr.name (nameBytes hdr r).length ≤ hdr.namelen ↔ NameFits mem hdr r := by
  rw [reach_le_iff, NameFits]
  by_cases hname : hdr.name = 0
  · simp [nameBytes, hname]
  by_cases hlen : r.namelen > 0
  · rw [nameBytes, if_pos ⟨hname, hlen⟩, List.length_map, List.length_range]
    exact ⟨.inr, fun h => h.resolve_left hname⟩
  · have h0 : r.namelen.toNat = 0 := by bv_omega
    rw [nameBytes, if_neg fun h => hlen h.2, h0]
    simp

lemma writeName_of_notMem (hname : mem.reach hdr.name (nameBytes hdr r).length ≤ hdr.namelen) {x : Word}
    (hx : x ∉ Lib.block msgPtr 56) (hx' : x ∉ Lib.block hdr.name hdr.namelen) :
    (writeName mem msgPtr hdr r).bytes x = mem.bytes x := by
  unfold writeName
  split_ifs
  · rw [write_of_notMem, write_of_notMem_reach]
    · exact fun h => hx' (block_mono hname h)
    · rw [length_leBytes]
      exact fun h => hx (block_subset_block (i := 8) (by decide) (by decide) h)
  · rfl

/-- **Where the address fits**, the buffers are what the loop made of them. -/
theorem filled_deliver (hlaid : Laid mem msgPtr hdr vs)
    (hname : mem.reach hdr.name (nameBytes hdr r).length ≤ hdr.namelen) :
    Filled (deliver mem msgPtr hdr vs r) vs r.data := by
  refine Filled.congr (fun v hv => (hlaid.mapped v hv).1) ?_ (filled_writeBuffers hlaid.given hlaid.mapped hlaid.apart)
  intro v hv x hx
  have hhdr := Set.disjoint_left.1 (hlaid.hdrApart v hv) hx
  have hbuf := Set.disjoint_left.1 (hlaid.nameApart v hv) hx
  show ((writeName _ msgPtr hdr r).write (msgPtr + 48) _).1.bytes x = _
  rw [write_of_notMem, writeName_of_notMem _ hhdr hbuf]
  · unfold GuestMemory.reach at hname ⊢
    rwa [mapped_writeBuffers]
  · rw [length_leBytes]
    exact fun h => hhdr (block_subset_block (i := 48) (by decide) (by decide) h)

end

/-- **When a message is received as asked**: the data in the buffers, the rest as it was, and no more than the name
buffer written. -/
theorem received_iff (mem : GuestMemory) (msgPtr : Word) (stack : ℕ → Byte)
    (host : MsgHdr → List IoVec → Option Received) (hdr : MsgHdr) (r : Received) (hptr : msgPtr ≠ 0)
    (hhdr : readMsgHdr mem msgPtr = some hdr) (hhost : host hdr (readIoVecs mem hdr stack) = some r)
    (hlaid : Laid mem msgPtr hdr (readIoVecs mem hdr stack)) :
    (Delivered mem (recvmsg mem msgPtr stack host).mem (readIoVecs mem hdr stack) r.data ∧
        (recvmsg mem msgPtr stack host).nameWritten ≤ hdr.namelen) ↔
      ZeroRest mem (readIoVecs mem hdr stack) r.data ∧ NameFits mem hdr r := by
  have hrun : recvmsg mem msgPtr stack host = ⟨deliver mem msgPtr hdr (readIoVecs mem hdr stack) r, r.data.length,
      mem.reach hdr.name (nameBytes hdr r).length⟩ := by
    simp only [recvmsg, if_neg hptr, hhdr, hhost]
  rw [hrun]
  constructor
  · rintro ⟨hdel, hname⟩
    exact ⟨(filled_deliver hlaid hname).delivered_iff.1 hdel, nameWritten_le_iff.1 hname⟩
  · rintro ⟨hzero, hfits⟩
    have hname := nameWritten_le_iff.2 hfits
    exact ⟨(filled_deliver hlaid hname).delivered_iff.2 hzero, hname⟩

/-- A `msghdr` at `0x1000` with a name buffer of 16 bytes at `0x3000`, and vectors of these bytes. -/
def withBuffers (bufs : List (Word × List Byte)) : GuestMemory where
  bytes := bufs.foldl (fun m buf => store m buf.1 buf.2)
    (store (store (fun _ => 0) 0x1000 (leBytes 8 0x3000 ++ leBytes 8 16 ++ leBytes 8 0x2000 ++ leBytes 8 bufs.length))
      0x2000 (bufs.flatMap fun buf => leBytes 8 buf.1.toNat ++ leBytes 8 buf.2.length))
  mapped _ := true

/-- Two bytes from a sender whose address has this length. -/
def twoBytes (namelen : BitVec 32) : Received := ⟨[1, 2], namelen, fun _ => 7, 0⟩

def twoVectors : List IoVec := [⟨0x4000, 1⟩, ⟨0x5000, 3⟩]

lemma forall_mem_twoVectors {P : IoVec → Prop} (h₀ : P ⟨0x4000, 1⟩) (h₁ : P ⟨0x5000, 3⟩) : ∀ v ∈ twoVectors, P v :=
  List.forall_mem_cons.2 ⟨h₀, List.forall_mem_singleton.2 h₁⟩

lemma laid_twoVectors (hmap : ∀ x, mem.mapped x = true) : Laid mem 0x1000 ⟨0x3000, 16, 0x2000, 2⟩ twoVectors where
  given := by simp [twoVectors]
  mapped := forall_mem_twoVectors ⟨by decide, fun x _ => hmap x⟩ ⟨by decide, fun x _ => hmap x⟩
  apart := List.pairwise_pair.2 (disjoint_of_apart (by decide) (by decide) (by decide))
  hdrApart := by
    refine forall_mem_twoVectors ?_ ?_ <;> exact disjoint_of_apart (by decide) (by decide) (by decide)
  nameApart := by
    refine forall_mem_twoVectors ?_ ?_ <;> exact disjoint_of_apart (by decide) (by decide) (by decide)

/-- A byte for each of two vectors. -/
theorem received_iff_twoVectors :
    let mem := withBuffers [(0x4000, [9]), (0x5000, [9, 0, 0])]
    let r := recvmsg mem 0x1000 (fun _ => 0) fun _ _ => some (twoBytes 16)
    Delivered mem r.mem twoVectors [1, 2] ∧ r.nameWritten ≤ 16 := by
  intro mem
  have hvs : readIoVecs mem ⟨0x3000, 16, 0x2000, 2⟩ (fun _ => 0) = twoVectors := by decide +kernel
  have h := received_iff mem 0x1000 (fun _ => 0) (fun _ _ => some (twoBytes 16)) ⟨0x3000, 16, 0x2000, 2⟩
    (twoBytes 16) (by decide) (by decide +kernel) rfl
  rw [hvs] at h
  exact (h (laid_twoVectors _ fun _ => rfl)).2 ⟨⟨by decide +kernel, by decide +kernel, trivial⟩, .inr (.inl (by decide))⟩

/-- Two bytes are received into four that hold 9, from an address of 28 bytes: the other two become zero, and all 28 are
written to a buffer of 16. -/
theorem recvmsg_overwrites :
    let mem := withBuffers [(0x4000, [9, 9, 9, 9])]
    let r := recvmsg mem 0x1000 (fun _ => 0) fun _ _ => some (twoBytes 28)
    load r.mem.bytes 0x4000 4 = [1, 2, 0, 0] ∧ ¬ Delivered mem r.mem [⟨0x4000, 4⟩] [1, 2] ∧ r.nameWritten = 28 := by
  refine ⟨by decide +kernel, ?_, by decide +kernel⟩
  rintro ⟨h, -⟩
  revert h
  decide +kernel

end CrossShim.Network
