import CrossShim.Memory.GuestHeap
import CrossShim.Memory.Strings
import CrossShim.Stdio.Format

/-!
# Scanning

`parse_scan_format` and `scan_with_input` of `hle_scan.cpp`, behind `sscanf`, `vsscanf` and `swscanf`.  The format is
cut into literal texts and directives; the input is scanned in its own characters.  Integers and scansets
are scanned here.  Floating numbers, characters and strings are put to the host's `sscanf` or `swscanf`, one directive
at a time, and copied to the guest from a temporary.
-/

namespace CrossShim.Stdio.Scan

open Lib Memory Scanner
open Format (ascii oneOf chars isDigit LengthMod WBits ErrorCode EINVAL ENOMEM)

/-! ## The format -/

structure ScanDirective where
  original : List Byte
  suppress : Bool
  assignAlloc : Bool
  width : Option (Fin (2 ^ 31))
  length : LengthMod
  conv : Byte
  deriving DecidableEq

inductive ScanToken where
  | literal (text : List Byte)
  | directive (spec : ScanDirective)
  deriving DecidableEq

/-- What the caller learns of a format that is not accepted. -/
structure ScanError where
  error : ErrorCode
  fatalMessage : List Byte := []
  deriving DecidableEq

/-- The digits of a width; the loop is that of the `printf` format, and so is the error. -/
def scanWidth : Scanner Byte ScanError (Option (Fin (2 ^ 31))) := do
  let digits ← takeWhile isDigit
  if digits = [] then return none
  else
    match Format.countValue digits with
    | .ok width => return some width
    | .error _ => throw { error := ENOMEM }

/-- The digits after a `w`, which are compared as a text. -/
def wBits (digits : List Byte) : Option WBits :=
  if digits = chars ['8'] then some .b8
  else if digits = chars ['1', '6'] then some .b16
  else if digits = chars ['3', '2'] then some .b32
  else if digits = chars ['6', '4'] then some .b64
  else none

def scanLength : Scanner Byte ScanError LengthMod := do
  if ← accept (ascii 'w') then
    let fast ← accept (ascii 'f')
    let digits ← takeWhile isDigit
    match wBits digits with
    | some bits => return if fast then .fastW bits else .exactW bits
    | none => throw { error := EINVAL, fatalMessage := chars (if fast then ['%', 'w', 'f'] else ['%', 'w']) ++ digits }
  else if ← accept (ascii 'h') then
    return if ← accept (ascii 'h') then .hh else .h
  else if ← accept (ascii 'l') then
    return if ← accept (ascii 'l') then .ll else .l
  else if ← accept (ascii 'L') then return .bigL
  else if ← accept (ascii 'j') then return .j
  else if ← accept (ascii 'z') then return .z
  else if ← accept (ascii 't') then return .t
  else return .none

/-- The rest of a scanset, after the `[`: a `]` in the first place, or after a `^` there, does not end it. -/
def scanBracket : Scanner Byte ScanError Unit := do
  let _ ← accept (ascii '^')
  let _ ← accept (ascii ']')
  let _ ← takeWhile (· ≠ ascii ']')
  if ← accept (ascii ']') then return () else throw { error := EINVAL }

/-- What stands between the `%` of a directive and its end, which may be that of the format. -/
def scanSpec : Scanner Byte ScanError ScanDirective := do
  let suppress ← accept (ascii '*')
  let width ← scanWidth
  let assignAlloc ← accept (ascii 'm')
  let length ← scanLength
  match ← next with
  | none => throw { error := EINVAL }
  | some conv =>
    if conv = ascii '[' then scanBracket
    return { original := [], suppress, width, assignAlloc, length, conv }

def flushLiteral (pending : List Byte) : List ScanToken := if pending = [] then [] else [.literal pending]

/-- The loop over the format; every round takes at least one byte of it. -/
def parseLoop : ℕ → List Byte → List Byte → Except ScanError (List ScanToken)
  | _, pending, [] => .ok (flushLiteral pending)
  | 0, _, _ :: _ => .ok []
  | rounds + 1, pending, c :: rest =>
    if c ≠ ascii '%' then parseLoop rounds (pending ++ [c]) rest
    else if rest.head? = some (ascii '%') then parseLoop rounds (pending ++ [ascii '%']) rest.tail
    else do
      let (spec, rest') ← scanSpec rest
      let original := (c :: rest).take (1 + rest.length - rest'.length)
      let tokens ← parseLoop rounds [] rest'
      return flushLiteral pending ++ .directive { spec with original } :: tokens

def parseScanFormat (fmt : List Byte) : Except ScanError (List ScanToken) := parseLoop fmt.length [] fmt

/-! ## Characters of the input -/

structure CharType (α : Type) where
  /-- The cast to `uint32_t`. -/
  code : α → BitVec 32
  /-- The cast by way of `unsigned char`, if the type is `char`. -/
  codepoint : α → BitVec 32
  toByte : α → Byte
  isSpace : α → Bool

/-- `isspace`, in the locale that a program starts in. -/
def isspace (c : Byte) : Bool := (9 ≤ c && c ≤ 13) || c == 32

/-- `char`, which has a sign. -/
def narrow : CharType Byte := ⟨BitVec.signExtend 32, BitVec.setWidth 32, id, isspace⟩

/-- `wchar_t`, with the host's `iswspace`. -/
def wide (iswspace : BitVec 32 → Bool) : CharType (BitVec 32) := ⟨id, id, BitVec.setWidth 8, iswspace⟩

def asciiEquals (code : BitVec 32) (expected : Byte) : Prop := code = expected.setWidth 32

instance (code : BitVec 32) (expected : Byte) : Decidable (asciiEquals code expected) := by
  unfold asciiEquals
  infer_instance

def asciiIsSign (code : BitVec 32) : Prop := asciiEquals code (ascii '+') ∨ asciiEquals code (ascii '-')

instance (code : BitVec 32) : Decidable (asciiIsSign code) := by
  unfold asciiIsSign
  infer_instance

def digitValue (code : BitVec 32) : ℤ :=
  let code : ℤ := code.toNat
  if '0'.toNat ≤ code ∧ code ≤ '9'.toNat then code - '0'.toNat
  else if 'a'.toNat ≤ code ∧ code ≤ 'z'.toNat then code - 'a'.toNat + 10
  else if 'A'.toNat ≤ code ∧ code ≤ 'Z'.toNat then code - 'A'.toNat + 10
  else -1

def IsDigitOf (base : ℕ) (code : BitVec 32) : Prop := 0 ≤ digitValue code ∧ digitValue code < base

instance (base : ℕ) (code : BitVec 32) : Decidable (IsDigitOf base code) := by
  unfold IsDigitOf
  infer_instance

section

variable {α : Type} (ct : CharType α)

def skipInputSpace (input : List α) (pos : ℕ) : ℕ :=
  pos + ((input.drop pos).takeWhile ct.isSpace).length

/-- The characters left, as far as the width allows. Positions are never behind the end of the input. -/
def fieldLimit (input : List α) (pos : ℕ) (spec : ScanDirective) : ℕ :=
  match spec.width with
  | some width => min (input.length - pos) width
  | none => input.length - pos

/-! ## Integers -/

/-- The base of a conversion, 0 if the input tells it, and whether it may be written before the digits. -/
def conversionBase (conv : Byte) : Option (ℕ × Bool) :=
  if oneOf ['d', 'u'] conv then some (10, false)
  else if conv = ascii 'o' then some (8, false)
  else if oneOf ['x', 'X', 'p'] conv then some (16, true)
  else if conv = ascii 'b' then some (2, true)
  else if conv = ascii 'i' then some (0, false)
  else none

/-- A `0`, one of the two letters and a digit of the base stand here. -/
def HasPrefix (codeAt : ℕ → BitVec 32) (limit cursor base : ℕ) (lower upper : Char) : Prop :=
  cursor + 2 < limit ∧ asciiEquals (codeAt cursor) (ascii '0') ∧
    (asciiEquals (codeAt (cursor + 1)) (ascii lower) ∨ asciiEquals (codeAt (cursor + 1)) (ascii upper)) ∧
    IsDigitOf base (codeAt (cursor + 2))

instance (codeAt : ℕ → BitVec 32) (limit cursor base : ℕ) (lower upper : Char) :
    Decidable (HasPrefix codeAt limit cursor base lower upper) := by
  unfold HasPrefix
  infer_instance

def detectBase (codeAt : ℕ → BitVec 32) (limit cursor : ℕ) : ℕ × Bool → ℕ × ℕ
  | (0, _) =>
    if asciiEquals (codeAt cursor) (ascii '0') then
      if HasPrefix codeAt limit cursor 16 'x' 'X' then (16, cursor + 2)
      else if HasPrefix codeAt limit cursor 2 'b' 'B' then (2, cursor + 2)
      else (8, cursor)
    else (10, cursor)
  | (base, true) =>
    if HasPrefix codeAt limit cursor base (if base = 16 then 'x' else 'b') (if base = 16 then 'X' else 'B') then
      (base, cursor + 2)
    else (base, cursor)
  | (base, false) => (base, cursor)

/-- The digits, for so many characters at most; they are summed up in an `unsigned __int128`. -/
def digitLoop (codeAt : ℕ → BitVec 32) (base : ℕ) : ℕ → ℕ → BitVec 128 → ℕ × BitVec 128
  | 0, cursor, value => (cursor, value)
  | rounds + 1, cursor, value =>
    if IsDigitOf base (codeAt cursor) then
      digitLoop codeAt base rounds (cursor + 1)
        (value * BitVec.ofNat 128 base + BitVec.ofInt 128 (digitValue (codeAt cursor)))
    else (cursor, value)

/-- The integer in the first `limit` characters: how many of them are consumed, and the bits. -/
def parseInteger (codeAt : ℕ → BitVec 32) (limit : ℕ) (conv : Byte) : Option (ℕ × Word) :=
  let signed := asciiIsSign (codeAt 0) ∧ conv ≠ ascii 'p'
  let negative := signed ∧ asciiEquals (codeAt 0) (ascii '-')
  let cursor := if signed then 1 else 0
  if limit = 0 ∨ limit ≤ cursor then none
  else
    (conversionBase conv).bind fun rule =>
      let (base, start) := detectBase codeAt limit cursor rule
      let (stop, value) := digitLoop codeAt base (limit - start) start 0
      if stop = start then none
      else some (stop, if negative then 0 - value.setWidth 64 else value.setWidth 64)

def parseIntegerValue (input : List α) (pos : ℕ) (spec : ScanDirective) : Option (ℕ × Word) :=
  parseInteger (fun k => (input[pos + k]?.map ct.code).getD 0) (fieldLimit input pos spec) spec.conv

def storageSizeForInteger (spec : ScanDirective) : ℕ :=
  match spec.length with
  | .exactW bits => bits.bytes
  | .fastW bits => bits.fastBytes
  | .hh => 1
  | .h => 2
  | .l | .ll | .j | .z | .t => 8
  | .none => if spec.conv = ascii 'p' then 8 else 4
  | .bigL => 4

/-- `mem_write`. -/
def put (g : GuestHeap) (addr : Word) (bytes : List Byte) : GuestHeap := { g with mem := (g.mem.write addr bytes).1 }

def writeIntegerBits (g : GuestHeap) (addr bits : Word) (size : ℕ) : GuestHeap :=
  put g addr (leBytes (if size = 1 ∨ size = 2 ∨ size = 4 then size else 8) bits.toNat)

/-! ## Scansets -/

structure ParsedScanSet where
  table : Byte → Bool := fun _ => false
  negate : Bool := false

def ParsedScanSet.matches (set : ParsedScanSet) (codepoint : BitVec 32) : Bool :=
  let inSet := codepoint.toNat < 256 && set.table (codepoint.setWidth 8)
  if set.negate then !inSet else inSet

def addChar (table : Byte → Bool) (ch : Byte) : Byte → Bool := Function.update table ch true

/-- The values after `prev`, up to `last`. -/
def addRange (table : Byte → Bool) (prev last : Byte) : Byte → Bool := fun value =>
  table value || (prev < value && value ≤ last)

/-- The loop of `parse_scanset`, with the character before. -/
def scansetLoop : (Byte → Bool) → Option Byte → List Byte → (Byte → Bool)
  | table, _, [] => table
  | table, _, [ch] => addChar table ch
  | table, none, ch :: last :: rest => scansetLoop (addChar table ch) (some ch) (last :: rest)
  | table, some prev, ch :: last :: rest =>
    if ch = ascii '-' ∧ last ≠ ascii ']' ∧ prev ≤ last then scansetLoop (addRange table prev last) (some last) rest
    else scansetLoop (addChar table ch) (some ch) (last :: rest)

/-- What stands between the first `[` and the last `]`. -/
def bracketBody (original : List Byte) : List Byte :=
  (((original.dropWhile (· ≠ ascii '[')).tail.reverse.dropWhile (· ≠ ascii ']')).tail).reverse

def parseScanset (spec : ScanDirective) : ParsedScanSet :=
  let body := bracketBody spec.original
  let negate := body.head? = some (ascii '^')
  let body := if negate then body.tail else body
  let table :=
    match body with
    | ch :: rest =>
      if ch = ascii ']' ∨ ch = ascii '-' then scansetLoop (addChar (fun _ => false) ch) (some ch) rest
      else scansetLoop (fun _ => false) none body
    | [] => fun _ => false
  ⟨table, negate⟩

/-! ## Texts for the guest -/

/-- The units in which a text is stored: `wchar_t` or `char`. -/
def textBytes (wideDest : Bool) (text : List α) : List Byte :=
  if wideDest then text.flatMap fun c => leBytes 4 (ct.codepoint c).toNat else text.map ct.toByte

/-- A new block with these bytes, whose address is stored. -/
def putAlloc (g : GuestHeap) (argPtr : Word) (bytes : List Byte) (size : ℕ) : GuestHeap :=
  let (heap, guestPtr) := g.heap.allocate (BitVec.ofNat 64 size) 8
  put (put { g with heap } guestPtr bytes) argPtr (leBytes 8 guestPtr.toNat)

def handleManualScansetScan (input : List α) (pos : ℕ) (spec : ScanDirective) (argPtr : Word)
    (g : GuestHeap) : Option (ℕ × GuestHeap) :=
  let scanSet := parseScanset spec
  let field := (input.drop pos).take (fieldLimit input pos spec)
  let text := field.takeWhile fun c => scanSet.matches (ct.codepoint c)
  let wideDest : Bool := spec.conv = ascii 'S' ∨ spec.length = .l
  let bytes := textBytes ct wideDest text ++ List.replicate (if wideDest then 4 else 1) 0
  if text.length = 0 then none
  else if spec.suppress then some (text.length, g)
  else if spec.assignAlloc then some (text.length, putAlloc g argPtr bytes bytes.length)
  else some (text.length, put g argPtr bytes)

/-! ## The host's `sscanf` and `swscanf` -/

/-- What a call for one directive, with a `%n` after it, comes to, and the block that an `m` allocates. -/
structure HostScan where
  rc : ℤ
  count : ℤ := 0
  written : List Byte := []
  block : Option (List Byte) := none

/-- The host: its scanning function, `MB_CUR_MAX`, and the memory behind a temporary. -/
structure ScanHost (α : Type) where
  scan : ScanDirective → List α → HostScan
  mbCurMax : ℕ
  behind : List Byte := []

variable (host : ScanHost α)

def handleHostFloatScan (input : List α) (pos : ℕ) (spec : ScanDirective) (argPtr : Word)
    (g : GuestHeap) : Option (ℕ × GuestHeap) :=
  let r := host.scan spec (input.drop pos)
  if spec.suppress then
    if r.rc = 0 ∧ 0 < r.count then some (r.count.toNat, g) else none
  else if r.rc ≠ 1 ∨ r.count ≤ 0 then none
  else
    let size := if spec.length = .l then 8 else if spec.length = .bigL then 16 else 4
    some (r.count.toNat, put g argPtr ((r.written ++ List.replicate size 0).take size))

/-! ## Characters and strings -/

/-- A copy of so many bytes to the guest, from a temporary of another size. -/
structure TextCopy where
  tempSize : ℕ
  length : ℕ
  bytes : List Byte
  deriving DecidableEq

namespace ScanDirective

def wideDest (spec : ScanDirective) : Bool := spec.conv = ascii 'C' ∨ spec.conv = ascii 'S' ∨ spec.length = .l

def isChar (spec : ScanDirective) : Bool := spec.conv = ascii 'c' ∨ spec.conv = ascii 'C'

def widthOrOne (spec : ScanDirective) : ℕ :=
  match spec.width with
  | some width => width
  | none => 1

/-- The size of a unit of the text that is stored. -/
def unit (spec : ScanDirective) : ℕ := if spec.wideDest then 4 else 1

end ScanDirective

/-- `strlen` and `wcslen`: the units before the first that is zero. -/
def unitsLen (unit : ℕ) (memory : List Byte) : ℕ :=
  ((List.range (memory.length / unit)).takeWhile fun i =>
    decide ((memory.drop (unit * i)).take unit ≠ List.replicate unit 0)).length

/-- `max_narrow_bytes_for_string_output` and `max_wide_units_for_output`, in bytes. -/
def temporarySize (input : List α) (pos : ℕ) (spec : ScanDirective) (wideInput : Bool) : ℕ :=
  let limit := fieldLimit input pos spec
  if spec.wideDest then 4 * (limit + 1)
  else if wideInput then limit * host.mbCurMax + 1
  else limit + 1

/-- The bytes that are copied: the width for characters, and a string up to its end. -/
def copyLength (spec : ScanDirective) (memory : List Byte) : ℕ :=
  if spec.isChar then spec.widthOrOne * spec.unit else (unitsLen spec.unit memory + 1) * spec.unit

/-- The copy that `handle_manual_alloc_char_scan` makes, of the characters it consumes. -/
def manualAllocChars (input : List α) (pos : ℕ) (spec : ScanDirective) : Option (ℕ × TextCopy) :=
  let width := min spec.widthOrOne (input.length - pos)
  let bytes := textBytes ct spec.wideDest ((input.drop pos).take width)
  if width = 0 then none else some (width, ⟨width * spec.unit, width * spec.unit, bytes⟩)

/-- The copy that `handle_host_string_scan` makes. With an `m`, `sscanf` has allocated the temporary; the call of
`swscanf` is the same as without. -/
def hostStringCopy (input : List α) (pos : ℕ) (spec : ScanDirective) (wideInput : Bool) : Option (ℕ × TextCopy) :=
  let r := host.scan spec (input.drop pos)
  if r.rc ≠ 1 ∨ r.count ≤ 0 then none
  else if spec.assignAlloc ∧ !wideInput then
    r.block.map fun block =>
      let length := copyLength spec (block ++ host.behind)
      (r.count.toNat, ⟨block.length, length, (block ++ host.behind).take length⟩)
  else
    let size := temporarySize host input pos spec wideInput
    let memory := r.written ++ (List.replicate size 0).drop r.written.length ++ host.behind
    let length := copyLength spec memory
    some (r.count.toNat, ⟨size, length, memory.take length⟩)

def handleHostStringScan (input : List α) (pos : ℕ) (spec : ScanDirective) (argPtr : Word)
    (wideInput : Bool) (g : GuestHeap) : Option (ℕ × GuestHeap) :=
  if spec.suppress then
    let r := host.scan spec (input.drop pos)
    if r.rc = 0 ∧ 0 < r.count then some (r.count.toNat, g) else none
  else
    (hostStringCopy host input pos spec wideInput).map fun (consumed, copy) =>
      if spec.assignAlloc ∧ !wideInput then (consumed, putAlloc g argPtr copy.bytes copy.length)
      else (consumed, put g argPtr copy.bytes)

/-- The end of `handle_conversion`, for `c` and `C` with an `m`. -/
def handleAllocCharScan (input : List α) (pos : ℕ) (spec : ScanDirective) (argPtr : Word)
    (g : GuestHeap) : Option (ℕ × GuestHeap) :=
  if spec.suppress then
    let consumed := min spec.widthOrOne (input.length - pos)
    if 0 < consumed then some (consumed, g) else none
  else
    (manualAllocChars ct input pos spec).map fun (consumed, copy) =>
      (consumed, putAlloc g argPtr copy.bytes copy.length)

/-! ## The loop -/

def isIntegerConv : Byte → Bool := oneOf ['d', 'i', 'u', 'o', 'x', 'X', 'p', 'b']

def isFloatConv : Byte → Bool := oneOf ['a', 'A', 'e', 'E', 'f', 'F', 'g', 'G']

def isStringishConv : Byte → Bool := oneOf ['c', 's', '[', 'C', 'S']

def ScanDirective.skipsLeadingSpace (spec : ScanDirective) : Bool := !oneOf ['c', '[', 'n', 'C'] spec.conv

/-- `handle_conversion`: what is consumed, and the guest with what is stored. -/
def handleConversion (input : List α) (pos : ℕ) (spec : ScanDirective)
    (argPtr : Word) (wideInput : Bool) (g : GuestHeap) : Option (ℕ × GuestHeap) :=
  if isIntegerConv spec.conv then
    (parseIntegerValue ct input pos spec).map fun (consumed, bits) =>
      (consumed, if spec.suppress then g else writeIntegerBits g argPtr bits (storageSizeForInteger spec))
  else if isFloatConv spec.conv then handleHostFloatScan host input pos spec argPtr g
  else if isStringishConv spec.conv then
    if spec.conv = ascii '[' then handleManualScansetScan ct input pos spec argPtr g
    else if spec.assignAlloc ∧ spec.isChar then handleAllocCharScan ct input pos spec argPtr g
    else handleHostStringScan host input pos spec argPtr wideInput g
  else none

/-- How the matching of a literal text ends, and at which position of the input. -/
inductive LiteralEnd where
  | matched (pos : ℕ)
  | exhausted (pos : ℕ)
  | mismatch (pos : ℕ)
  deriving DecidableEq

def matchLiteral (ct : CharType α) (input : List α) : ℕ → List Byte → LiteralEnd
  | pos, [] => .matched pos
  | pos, fc :: rest =>
    if isspace fc then matchLiteral ct input (skipInputSpace ct input pos) rest
    else
      match input[pos]? with
      | none => .exhausted pos
      | some ch => if asciiEquals (ct.code ch) fc then matchLiteral ct input (pos + 1) rest else .mismatch pos

/-- Where the pointers are taken from, one after the other; some of them are in memory. -/
abbrev PtrSource (σ : Type) : Type := GuestMemory → σ → Word × σ

structure ScanState (σ : Type) where
  pos : ℕ := 0
  assigned : ℕ := 0
  source : σ
  g : GuestHeap

inductive TokenEnd (σ : Type) where
  | continues (s : ScanState σ)
  | returns (result : ℤ) (s : ScanState σ)

def EOF : ℤ := -1

def ScanState.exhausted {σ : Type} (s : ScanState σ) : ℤ := if s.assigned = 0 then EOF else s.assigned

section

variable {σ : Type} (ct : CharType α) (host : ScanHost α) (nextPtr : PtrSource σ) (wideInput : Bool) (input : List α)

/-- The pointer for a directive, which is 0 and not taken if it is suppressed. -/
def takePtr (spec : ScanDirective) (s : ScanState σ) : Word × ScanState σ :=
  if spec.suppress then (0, s)
  else
    let (argPtr, source) := nextPtr s.g.mem s.source
    (argPtr, { s with source })

/-- `%n`. -/
def scanCount (spec : ScanDirective) (s : ScanState σ) : ScanState σ :=
  if spec.suppress then s
  else
    let (argPtr, s) := takePtr nextPtr spec s
    { s with g := writeIntegerBits s.g argPtr (BitVec.ofNat 64 s.pos) (storageSizeForInteger spec) }

/-- A directive other than `%n`. -/
def scanConversion (spec : ScanDirective) (s : ScanState σ) : TokenEnd σ :=
  if input.length ≤ s.pos then .returns s.exhausted s
  else
    let (argPtr, s) := takePtr nextPtr spec s
    match handleConversion ct host input s.pos spec argPtr wideInput s.g with
    | none => .returns s.assigned s
    | some (consumed, g) =>
      .continues { s with pos := s.pos + consumed, g, assigned := if spec.suppress then s.assigned else s.assigned + 1 }

def scanToken (s : ScanState σ) : ScanToken → TokenEnd σ
  | .literal text =>
    match matchLiteral ct input s.pos text with
    | .matched pos => .continues { s with pos }
    | .exhausted pos => .returns s.exhausted { s with pos }
    | .mismatch pos => .returns s.assigned { s with pos }
  | .directive spec =>
    let s := if spec.skipsLeadingSpace then { s with pos := skipInputSpace ct input s.pos } else s
    if spec.conv = ascii 'n' then .continues (scanCount nextPtr spec s)
    else scanConversion ct host nextPtr wideInput input spec s

/-- `scan_with_input`: the result, and what the loop leaves. -/
def scanWithInput : ScanState σ → List ScanToken → ℤ × ScanState σ
  | s, [] => (s.assigned, s)
  | s, token :: tokens =>
    match scanToken ct host nextPtr wideInput input s token with
    | .continues s => scanWithInput s tokens
    | .returns result s => (result, s)

end

end

end CrossShim.Stdio.Scan
