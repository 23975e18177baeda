import CrossShim.Stdio.FormatParse

/-!
# Formatting

`format_with_source` of `hle_format.cpp`: the format is read from guest memory and parsed, the arguments it takes are
read from the registers or from a `va_list` into a vector, and the directives are then formatted one after the other.
Most of them are put to the host's `snprintf`, in a format of their own; the binary conversions are done here.

The vector is indexed with the positions that the parser gave the directives: `argAt` is the fault of an index that is
not below the length.
-/

namespace CrossShim.Stdio.Format

open Lib

/-- What formatting reads of the guest: `mem_read`, with what is then in the buffer, and `hle_get_errno`. -/
structure Guest where
  read : (size : ℕ) → Word → Bool × BitVec (8 * size)
  errno : ℕ

/-! ## Strings of the guest -/

def kMaxStringLen : ℕ := 2 ^ 20

def readUntilZero {size : ℕ} (read : Word → Bool × BitVec (8 * size)) : ℕ → Word → List (BitVec (8 * size))
  | 0, _ => []
  | n + 1, addr =>
    let (ok, c) := read addr
    if ok ∧ c ≠ 0 then c :: readUntilZero read n (addr + BitVec.ofNat 64 size) else []

variable (guest : Guest) (host : Host)

def Guest.readCString (addr : Word) : List Byte :=
  if addr = 0 then [] else readUntilZero (guest.read 1) kMaxStringLen addr

def Guest.readWideString (addr : Word) : List (BitVec 32) :=
  if addr = 0 then [] else readUntilZero (guest.read 4) kMaxStringLen addr

/-- `append_utf8`: the bytes of a character. -/
def utf8 (wc : BitVec 32) : Option (List Byte) :=
  let low (shift : ℕ) : Byte := 0x80 ||| (wc >>> shift &&& 0x3f).setWidth 8
  let top (mark : Byte) (shift : ℕ) : Byte := mark ||| (wc >>> shift).setWidth 8
  if wc ≤ 0x7f then some [wc.setWidth 8]
  else if wc ≤ 0x7ff then some [top 0xc0 6, low 0]
  else if wc ≤ 0xffff ∧ (wc < 0xd800 ∨ 0xdfff < wc) then some [top 0xe0 12, low 6, low 0]
  else if wc ≤ 0x10ffff then some [top 0xf0 18, low 12, low 6, low 0]
  else none

def utf8Text : List (BitVec 32) → List Byte
  | [] => []
  | wc :: rest =>
    match utf8 wc with
    | some bytes => bytes ++ utf8Text rest
    | none => []

def Guest.readFormat (fmtAddr : Word) (wideFormat : Bool) : List Byte :=
  if wideFormat then utf8Text (guest.readWideString fmtAddr) else guest.readCString fmtAddr

/-! ## Arguments -/

/-- Where the arguments are taken from, one after the other. -/
structure ArgSource (σ : Type) where
  nextGpRaw : σ → Word × σ
  nextFp64 : σ → Word × σ
  nextFp128 : σ → BitVec 128 × σ

structure Registers where
  x : ℕ → Word
  d : ℕ → Word
  q : ℕ → BitVec 128
  sp : Word

structure RegisterArgs where
  nextGpReg : ℕ
  nextFpReg : ℕ := 0
  stackAddr : Word

/-- `RegisterArgSource`: the first eight registers of each kind, and then the stack. -/
def registerArgSource (regs : Registers) : ArgSource RegisterArgs where
  nextGpRaw s :=
    if s.nextGpReg ≤ 7 then (regs.x s.nextGpReg, { s with nextGpReg := s.nextGpReg + 1 })
    else
      let addr := alignUp s.stackAddr 8
      ((guest.read 8 addr).2, { s with stackAddr := addr + 8 })
  nextFp64 s :=
    if s.nextFpReg ≤ 7 then (regs.d s.nextFpReg, { s with nextFpReg := s.nextFpReg + 1 })
    else
      let addr := alignUp s.stackAddr 8
      ((guest.read 8 addr).2, { s with stackAddr := addr + 8 })
  nextFp128 s :=
    if s.nextFpReg ≤ 7 then (regs.q s.nextFpReg, { s with nextFpReg := s.nextFpReg + 1 })
    else
      let addr := alignUp s.stackAddr 16
      ((guest.read 16 addr).2, { s with stackAddr := addr + 16 })

/-- `arm64_va_list`. -/
structure VaList where
  stack : Word
  grTop : Word
  vrTop : Word
  grOffs : ℤ
  vrOffs : ℤ

def Guest.readVaList (addr : Word) : VaList :=
  let va := (guest.read 32 addr).2
  { stack := va.extractLsb' 0 64, grTop := va.extractLsb' 64 64, vrTop := va.extractLsb' 128 64,
    grOffs := (va.extractLsb' 192 32).toInt, vrOffs := (va.extractLsb' 224 32).toInt }

/-- `VaListArgSource`: the saved registers below the two tops, and then the stack. -/
def vaListArgSource : ArgSource VaList where
  nextGpRaw va :=
    if va.grOffs < 0 then
      ((guest.read 8 (va.grTop + BitVec.ofInt 64 va.grOffs)).2, { va with grOffs := va.grOffs + 8 })
    else
      let addr := alignUp va.stack 8
      ((guest.read 8 addr).2, { va with stack := addr + 8 })
  nextFp64 va :=
    if va.vrOffs < 0 then
      ((guest.read 8 (va.vrTop + BitVec.ofInt 64 va.vrOffs)).2, { va with vrOffs := va.vrOffs + 16 })
    else
      let addr := alignUp va.stack 8
      ((guest.read 8 addr).2, { va with stack := addr + 8 })
  nextFp128 va :=
    if va.vrOffs < 0 then
      ((guest.read 16 (va.vrTop + BitVec.ofInt 64 va.vrOffs)).2, { va with vrOffs := va.vrOffs + 16 })
    else
      let addr := alignUp va.stack 16
      ((guest.read 16 addr).2, { va with stack := addr + 16 })

/-- An argument as it was read; the floating ones by their bits. -/
structure PrintArg where
  kind : ArgKind := .none
  s64 : ℤ := 0
  u64 : Word := 0
  d : Word := 0
  q : BitVec 128 := 0
  deriving DecidableEq

section

variable {σ : Type}

def readArg (source : ArgSource σ) (s : σ) (kind : ArgKind) : PrintArg × σ :=
  match kind with
  | .int =>
    let (raw, s) := source.nextGpRaw s
    ({ kind, s64 := (raw.setWidth 32).toInt }, s)
  | .uint =>
    let (raw, s) := source.nextGpRaw s
    ({ kind, u64 := (raw.setWidth 32).setWidth 64 }, s)
  | .long | .longLong | .intMax | .ssize | .ptrDiff =>
    let (raw, s) := source.nextGpRaw s
    ({ kind, s64 := raw.toInt }, s)
  | .ulong | .ulongLong | .uintMax | .size | .pointer | .cstring | .wstring =>
    let (raw, s) := source.nextGpRaw s
    ({ kind, u64 := raw }, s)
  | .double =>
    let (bits, s) := source.nextFp64 s
    ({ kind, d := bits }, s)
  | .quad =>
    let (bits, s) := source.nextFp128 s
    ({ kind, q := bits }, s)
  | .none => ({ kind }, s)

def readArgs (source : ArgSource σ) : σ → List ArgKind → List PrintArg
  | _, [] => []
  | s, kind :: kinds =>
    let (arg, s) := readArg source s kind
    arg :: readArgs source s kinds

/-- `materialize_args`, where there is room for so many arguments.  The first of them is never read. -/
def materializeArgs (room : ℕ) (source : ArgSource σ) (s : σ) (argKinds : List ArgKind) : Except Stop (List PrintArg) :=
  if room < argKinds.length then .error (.fault .badAlloc) else .ok ({} :: readArgs source s argKinds.tail)

end

/-- `args[position]`. -/
def argAt (args : List PrintArg) (position : ℕ) : Except Stop PrintArg :=
  match args[position]? with
  | some arg => .ok arg
  | none => .error (.fault (.index position args.length))

/-! ## The host's `snprintf` -/

inductive HostValue where
  | signed (kind : ArgKind) (v : ℤ)
  | unsigned (kind : ArgKind) (v : Word)
  | wint (v : BitVec 32)
  | pointer (v : Word)
  | string (text : List Byte)
  | wstring (text : List (BitVec 32))
  | double (bits : Word)
  | quad (bits : BitVec 128)
  deriving DecidableEq

/-- A call of `snprintf`, or with a `quad` of `quadmath_snprintf`, and the `errno` before it. -/
structure HostCall where
  format : List Byte
  counts : List ℤ
  value : Option HostValue
  errno : ℕ
  deriving DecidableEq

/-- The host: how long the two vectors and a text can become, and its `snprintf`. -/
structure Host where
  kindRoom : ℕ
  argRoom : ℕ
  textRoom : ℕ
  snprintf : HostCall → Except ℕ (List Byte)
  one_le_kindRoom : 1 ≤ kindRoom

def Host.snprintfResult (call : HostCall) : Except Stop (List Byte) :=
  match host.snprintf call with
  | .ok output => .ok output
  | .error errno => .error (.code (if h : errno ≠ 0 then ⟨errno, h⟩ else EINVAL))

/-- `static_cast<int>`. -/
def castInt (v : ℤ) : ℤ := (BitVec.ofInt 32 v).toInt

/-- A difference of two `int`. -/
def intSub (a b : ℤ) : Except Stop ℤ :=
  if -2 ^ 31 ≤ a - b ∧ a - b ≤ INT_MAX then .ok (a - b) else .error (.fault .overflow)

def Count.value (args : List PrintArg) : Count → Except Stop ℤ
  | .absent => .ok 0
  | .given n => .ok n.val
  | .fromArg position => do return castInt (← argAt args position).s64

/-- The count as an argument of the host's call, which it is if it came from one. -/
def Count.passed (args : List PrintArg) : Count → Except Stop (List ℤ)
  | .fromArg position => do return [← (Count.fromArg position).value args]
  | _ => .ok []

def chars : List Char → List Byte := List.map ascii

def Count.text : Count → List Byte
  | .absent => []
  | .given n => chars (Nat.toDigits 10 n.val)
  | .fromArg _ => [ascii '*']

/-- `exact_or_fast_length_string`. -/
def bytesLength : ℕ → List Char
  | 1 => ['h', 'h']
  | 2 => ['h']
  | 8 => ['l', 'l']
  | _ => []

def LengthMod.text : LengthMod → List Char
  | .none => []
  | .hh => ['h', 'h']
  | .h => ['h']
  | .l => ['l']
  | .ll => ['l', 'l']
  | .bigL => ['L']
  | .j => ['j']
  | .z => ['z']
  | .t => ['t']
  | .exactW bits => bytesLength bits.bytes
  | .fastW bits => bytesLength bits.fastBytes

namespace FormatSpec

def hasFlag (spec : FormatSpec) (flag : Char) : Bool := spec.flags.contains (ascii flag)

/-- `build_host_format` with this conversion and length. -/
def hostFormat (spec : FormatSpec) (conv : Byte) (length : List Char) : List Byte :=
  let conv := if conv = ascii 'S' then ascii 's' else if conv = ascii 'C' then ascii 'c' else conv
  let precision := if spec.precision = .absent then [] else ascii '.' :: spec.precision.text
  ascii '%' :: spec.flags ++ spec.width.text ++ precision ++ chars length ++ [conv]

variable (host : Host) (guest : Guest)

/-- `host_format_value`, `host_format_no_value` and `host_format_quad`. -/
def hostCall (spec : FormatSpec) (args : List PrintArg) (format : List Byte)
    (value : Option HostValue) : Except Stop (List Byte) := do
  let width ← spec.width.passed args
  let precision ← spec.precision.passed args
  host.snprintfResult { format, counts := width ++ precision, value, errno := guest.errno }

/-! ## Binary conversions -/

/-- The digits brought to the precision, which only a value of 0 at a precision of 0 has none of. -/
def preciseDigits (digits : List Byte) (precision : ℤ) (value : Word) : List Byte :=
  if precision = 0 ∧ value = 0 then []
  else List.replicate (precision - digits.length).toNat (ascii '0') ++ digits

/-- How many characters are missing to the width, if they are wanted. -/
def missing (wanted : Prop) [Decidable wanted] (width : ℤ) (total : ℕ) : Except Stop ℤ :=
  if wanted ∧ castInt total < width then intSub width (castInt total) else .ok 0

def absWidth (width : ℤ) : Except Stop ℤ := if width < 0 then intSub 0 width else .ok width

/-- The end of `apply_binary_width`: the sign of the base and the digits are brought to the width. -/
def layOut (left zero : Prop) [Decidable left] [Decidable zero] (sign digits : List Byte) (width : ℤ) :
    Except Stop (List Byte) := do
  let zeros ← missing (¬ left ∧ zero) width (sign.length + digits.length)
  let digits := List.replicate zeros.toNat (ascii '0') ++ digits
  let blanks ← missing True width (sign.length + digits.length)
  let padding := List.replicate blanks.toNat (ascii ' ')
  return if left then sign ++ digits ++ padding else padding ++ sign ++ digits

def applyBinaryWidth (spec : FormatSpec) (args : List PrintArg) (digits : List Byte) (uppercase : Bool) (value : Word) :
    Except Stop (List Byte) := do
  let precision ← spec.precision.value args
  let width ← spec.width.value args
  let precise := spec.precision ≠ .absent ∧ 0 ≤ precision
  let digits := if precise then preciseDigits digits precision value else digits
  let sign := if spec.hasFlag '#' ∧ value ≠ 0 then chars ['0', if uppercase then 'B' else 'b'] else []
  layOut (spec.hasFlag '-' ∨ width < 0) (spec.hasFlag '0' ∧ ¬ precise) sign digits (← absWidth width)

/-- `format_binary_spec`. -/
def formatBinary (spec : FormatSpec) (args : List PrintArg) (value : Word) : Except Stop (List Byte) :=
  let digits := if value = 0 then [ascii '0']
    else (value.toNat.bits.map fun bit => ascii (if bit then '1' else '0')).reverse
  spec.applyBinaryWidth args digits (spec.conv = ascii 'B') value

def binaryValue (arg : PrintArg) : Word :=
  match arg.kind with
  | .int | .long | .longLong | .intMax | .ssize | .ptrDiff => BitVec.ofInt 64 arg.s64
  | _ => arg.u64

/-! ## The directives -/

def formatString (spec : FormatSpec) (args : List PrintArg) : Except Stop (List Byte) := do
  let value ← argAt args spec.valuePosition
  if spec.conv = ascii 's' ∧ spec.length ≠ .l then
    let text := if value.u64 ≠ 0 then guest.readCString value.u64 else chars ['(', 'n', 'u', 'l', 'l', ')']
    spec.hostCall host guest args (spec.hostFormat (ascii 's') spec.length.text) (some (.string text))
  else
    let text := if value.u64 ≠ 0 then guest.readWideString value.u64
      else ['(', 'n', 'u', 'l', 'l', ')'].map fun c => BitVec.ofNat 32 c.toNat
    spec.hostCall host guest args (spec.hostFormat (ascii 's') ['l']) (some (.wstring text))

def formatInt (spec : FormatSpec) (args : List PrintArg) : Except Stop (List Byte) := do
  let value ← argAt args spec.valuePosition
  let format := spec.hostFormat spec.conv spec.length.text
  match value.kind with
  | .int | .long | .longLong | .intMax | .ssize | .ptrDiff =>
    spec.hostCall host guest args format (some (.signed value.kind value.s64))
  | .uint | .ulong | .ulongLong | .uintMax | .size =>
    spec.hostCall host guest args format (some (.unsigned value.kind value.u64))
  | _ => .error (.code EINVAL)

def formatFloat (spec : FormatSpec) (args : List PrintArg) : Except Stop (List Byte) := do
  let value ← argAt args spec.valuePosition
  if value.kind = .quad then
    spec.hostCall host guest args (spec.hostFormat spec.conv ['Q']) (some (.quad value.q))
  else spec.hostCall host guest args (spec.hostFormat spec.conv spec.length.text) (some (.double value.d))

def formatPointer (spec : FormatSpec) (args : List PrintArg) : Except Stop (List Byte) := do
  let value ← argAt args spec.valuePosition
  if value.u64 = 0 then
    spec.hostCall host guest args (spec.hostFormat (ascii 's') spec.length.text)
      (some (.string (chars ['0', 'x', '0'])))
  else spec.hostCall host guest args (spec.hostFormat spec.conv spec.length.text) (some (.pointer value.u64))

def formatChar (spec : FormatSpec) (args : List PrintArg) : Except Stop (List Byte) := do
  let value ← argAt args spec.valuePosition
  if spec.conv = ascii 'C' ∨ spec.length = .l then
    spec.hostCall host guest args (spec.hostFormat (ascii 'c') ['l']) (some (.wint (BitVec.ofInt 32 value.s64)))
  else
    spec.hostCall host guest args (spec.hostFormat (ascii 'c') spec.length.text)
      (some (.signed .int (castInt value.s64)))

/-- `format_m_spec`, and the end of `format_directive`: the host is asked without a value. -/
def formatNoValue (spec : FormatSpec) (args : List PrintArg) : Except Stop (List Byte) :=
  spec.hostCall host guest args (spec.hostFormat spec.conv spec.length.text) none

def formatDirective (args : List PrintArg) (spec : FormatSpec) : Except Stop (List Byte) :=
  if spec.conv = ascii 'n' then .error (.code EINVAL)
  else if spec.conv = ascii 'm' then spec.formatNoValue host guest args
  else if spec.conv = ascii 'p' then spec.formatPointer host guest args
  else if oneOf ['s', 'S'] spec.conv then spec.formatString host guest args
  else if oneOf ['c', 'C'] spec.conv then spec.formatChar host guest args
  else if oneOf ['b', 'B'] spec.conv then do
    let value ← argAt args spec.valuePosition
    spec.formatBinary args (binaryValue value)
  else if isFloatConv spec.conv then spec.formatFloat host guest args
  else if isSignedIntConv spec.conv ∨ isUnsignedIntConv spec.conv then spec.formatInt host guest args
  else spec.formatNoValue host guest args

end FormatSpec

/-! ## Formatting -/

def Host.append (output text : List Byte) : Except Stop (List Byte) :=
  if host.textRoom < (output ++ text).length then .error (.fault .badAlloc) else .ok (output ++ text)

def formatItem (guest : Guest) (args : List PrintArg) (output : List Byte) : FormatItem → Except Stop (List Byte)
  | .literal text => host.append output text
  | .directive spec => do host.append output (← spec.formatDirective host guest args)

structure HleFormatResult where
  ok : Bool
  result : ℤ
  error : ℕ
  output : List Byte
  deriving DecidableEq

/-- The result that the caller gets, if there is no fault. -/
def HleFormatResult.of : Except Stop (List Byte) → Except Fault HleFormatResult
  | .ok output => .ok ⟨true, castInt output.length, 0, output⟩
  | .error (.code errno) => .ok ⟨false, -1, errno.val, []⟩
  | .error (.fault f) => .error f

section

variable {σ : Type}

def formatText (host : Host) (guest : Guest) (fmt : List Byte) (source : ArgSource σ) (s : σ) :
    Except Stop (List Byte) := do
  let parsed ← parseFormatString host.kindRoom fmt
  let args ← materializeArgs host.argRoom source s parsed.argKinds
  parsed.items.foldlM (formatItem host guest args) []

def formatWithSource (host : Host) (guest : Guest) (fmtAddr : Word) (wideFormat : Bool) (source : ArgSource σ) (s : σ) :
    Except Fault HleFormatResult :=
  HleFormatResult.of (formatText host guest (guest.readFormat fmtAddr wideFormat) source s)

end

def hleFormatFromRegs (guest : Guest) (regs : Registers) (fmtAddr : Word) (firstArgReg : ℕ)
    (wideFormat : Bool) : Except Fault HleFormatResult :=
  formatWithSource host guest fmtAddr wideFormat (registerArgSource guest regs)
    { nextGpReg := firstArgReg, stackAddr := regs.sp }

def hleFormatFromVaList (guest : Guest) (fmtAddr vaListAddr : Word) (wideFormat : Bool) :
    Except Fault HleFormatResult :=
  formatWithSource host guest fmtAddr wideFormat (vaListArgSource guest) (guest.readVaList vaListAddr)

end CrossShim.Stdio.Format
