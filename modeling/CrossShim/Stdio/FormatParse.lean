import CrossShim.Lib.Bytes
import CrossShim.Lib.Scan

/-!
# The format of `printf`

`parse_format_string` of `hle_format.cpp` cuts a format into texts and directives.  On the way it numbers the arguments
that the directives take, and notes at each number of what kind the argument is: `arg_kinds`, from which the arguments
are later read into a vector of the same length.

Parsing can end in an error code, which the caller gets as a result, or in a `Fault`: an exception that nobody catches,
or what C++ leaves undefined.
-/

namespace CrossShim.Stdio.Format

open Lib Scanner

/-- Ways of not coming to an end that the caller could be told of. -/
inductive Fault where
  /-- `std::stoi` throws `std::out_of_range`. -/
  | outOfRange
  /-- The result of an operation on `int` is none. -/
  | overflow
  /-- `std::bad_alloc`. -/
  | badAlloc
  /-- `args[position]`, where there are only `size` arguments. -/
  | index (position size : ℕ)
  deriving DecidableEq

abbrev ErrorCode : Type := { errno : ℕ // errno ≠ 0 }

def EINVAL : ErrorCode := ⟨22, by decide⟩
def ENOMEM : ErrorCode := ⟨12, by decide⟩

inductive Stop where
  /-- An error of the format, or of the host's `printf`. -/
  | code (errno : ErrorCode)
  | fault (f : Fault)
  deriving DecidableEq

def INT_MAX : ℕ := 2 ^ 31 - 1

inductive ArgKind where
  | none
  | int
  | uint
  | long
  | ulong
  | longLong
  | ulongLong
  | intMax
  | uintMax
  | ssize
  | size
  | ptrDiff
  | pointer
  | cstring
  | wstring
  | double
  | quad
  deriving DecidableEq

/-- The `w_bits` that the parser lets pass. -/
inductive WBits where
  | b8
  | b16
  | b32
  | b64
  deriving DecidableEq

/-- `LengthMod`; the two Android ones with their `w_bits`, which the others do not read. -/
inductive LengthMod where
  | none
  | hh
  | h
  | l
  | ll
  | bigL
  | j
  | z
  | t
  | exactW (bits : WBits)
  | fastW (bits : WBits)
  deriving DecidableEq

/-- The width or the precision of a directive: `has_width`, `width_from_arg`, `width` and `width_position` in one. -/
inductive Count where
  | absent
  | given (n : Fin (2 ^ 31))
  | fromArg (position : ℕ)
  deriving DecidableEq

/-- A directive.  A position that the format does not give is 0 until it is numbered. -/
structure FormatSpec where
  flags : List Byte
  width : Count
  precision : Count
  valuePosition : ℕ
  length : LengthMod
  conv : Byte
  deriving DecidableEq

inductive FormatItem where
  | literal (text : List Byte)
  | directive (spec : FormatSpec)
  deriving DecidableEq

structure ParsedFormat where
  items : List FormatItem
  argKinds : List ArgKind
  deriving DecidableEq

/-! ## Characters -/

def ascii (c : Char) : Byte := BitVec.ofNat 8 c.toNat

def oneOf (chars : List Char) (c : Byte) : Bool := (chars.map ascii).contains c

def isDigit (c : Byte) : Bool := ascii '0' ≤ c && c ≤ ascii '9'

def digitValue (c : Byte) : ℕ := c.toNat - (ascii '0').toNat

def isFlag : Byte → Bool := oneOf ['-', '+', ' ', '#', '0', Char.ofNat 0x27]

def isSignedIntConv : Byte → Bool := oneOf ['d', 'i']

def isUnsignedIntConv : Byte → Bool := oneOf ['u', 'o', 'x', 'X', 'b', 'B']

def isFloatConv : Byte → Bool := oneOf ['a', 'A', 'e', 'E', 'f', 'F', 'g', 'G']

/-! ## The kind of an argument -/

def FormatSpec.takesValueArg (spec : FormatSpec) : Bool := !oneOf ['%', 'm'] spec.conv

def WBits.bytes : WBits → ℕ
  | .b8 => 1
  | .b16 => 2
  | .b32 => 4
  | .b64 => 8

/-- `fast_int_bytes`: the sizes of `int_fast8_t` and its kin on the host, unsigned or not. -/
def WBits.fastBytes : WBits → ℕ
  | .b8 => 1
  | .b16 => 8
  | .b32 => 8
  | .b64 => 8

/-- `resolve_w_arg_kind`, for an integer of so many bytes. -/
def resolveWArgKind (conv : Byte) (bytes : ℕ) : ArgKind :=
  if isSignedIntConv conv then
    if bytes ≤ 4 then .int else .longLong
  else if isUnsignedIntConv conv then
    if bytes ≤ 4 then .uint else .ulongLong
  else .none

def signedKind : LengthMod → ArgKind
  | .j => .intMax
  | .z => .ssize
  | .t => .ptrDiff
  | .l => .long
  | .ll => .longLong
  | _ => .int

def unsignedKind : LengthMod → ArgKind
  | .j => .uintMax
  | .z => .size
  | .l => .ulong
  | .ll => .ulongLong
  | _ => .uint

def FormatSpec.determineArgKind (spec : FormatSpec) : ArgKind :=
  match spec.length with
  | .exactW bits => resolveWArgKind spec.conv bits.bytes
  | .fastW bits => resolveWArgKind spec.conv bits.fastBytes
  | length =>
    if isFloatConv spec.conv then
      if length = .bigL then .quad else .double
    else if isSignedIntConv spec.conv then signedKind length
    else if isUnsignedIntConv spec.conv then unsignedKind length
    else if oneOf ['c', 'C'] spec.conv then .int
    else if oneOf ['s'] spec.conv then
      if length = .l then .wstring else .cstring
    else if oneOf ['S'] spec.conv then .wstring
    else if oneOf ['p', 'n'] spec.conv then .pointer
    else .none

/-! ## Scanning a directive -/

def decimalValue (digits : List Byte) : ℕ := digits.foldl (fun n d => n * 10 + digitValue d) 0

def stoi (digits : List Byte) : Except Stop ℕ :=
  if decimalValue digits ≤ INT_MAX then .ok (decimalValue digits) else .error (.fault .outOfRange)

/-- A position, which is digits and a `$`; 0, and the digits are put back, if there is none. -/
def scanPosition : Scanner Byte Stop ℕ := do
  let written ← attempt do
    let digits ← takeWhile isDigit
    let dollar ← accept (ascii '$')
    return if digits ≠ [] ∧ dollar then some digits else none
  match written with
  | some digits => stoi digits
  | none => return 0

/-- The number that the digits of a width or a precision write; one that is no `int` is an error. -/
def countValue (digits : List Byte) : Except Stop (Fin (2 ^ 31)) :=
  let step (n : Fin (2 ^ 31)) (d : Byte) : Except Stop (Fin (2 ^ 31)) :=
    if h : n * 10 + digitValue d < 2 ^ 31 then .ok ⟨n * 10 + digitValue d, h⟩ else .error (.code ENOMEM)
  digits.foldlM step 0

def scanNumber : Scanner Byte Stop (Fin (2 ^ 31)) := do
  let digits ← takeWhile isDigit
  countValue digits

def scanWidth : Scanner Byte Stop Count := do
  if ← accept (ascii '*') then
    return .fromArg (← scanPosition)
  else if ((← peek).map isDigit).getD false then
    return .given (← scanNumber)
  else return .absent

def scanPrecision : Scanner Byte Stop Count := do
  if ← accept (ascii '.') then
    if ← accept (ascii '*') then
      return .fromArg (← scanPosition)
    else return .given (← scanNumber)
  else return .absent

/-- The bits after a `w`, counted in an `unsigned long long`, which wraps. -/
def scanWBits : Scanner Byte Stop WBits := do
  let digits ← takeWhile isDigit
  match digits.foldl (fun n d => (n * 10 + digitValue d) % 2 ^ 64) 0 with
  | 8 => return .b8
  | 16 => return .b16
  | 32 => return .b32
  | 64 => return .b64
  | _ => throw (.code EINVAL)

def scanLength : Scanner Byte Stop LengthMod := do
  if ← accept (ascii 'w') then
    if ← accept (ascii 'f') then
      return .fastW (← scanWBits)
    else return .exactW (← scanWBits)
  else if ← accept (ascii 'h') then
    return if ← accept (ascii 'h') then .hh else .h
  else if ← accept (ascii 'l') then
    return if ← accept (ascii 'l') then .ll else .l
  else if ← accept (ascii 'L') then return .bigL
  else if ← accept (ascii 'j') then return .j
  else if ← accept (ascii 'z') then return .z
  else if ← accept (ascii 't') then return .t
  else return .none

/-- What stands between the `%` of a directive and the end of it. -/
def scanSpec : Scanner Byte Stop FormatSpec := do
  let valuePosition ← scanPosition
  let flags ← takeWhile isFlag
  let width ← scanWidth
  let precision ← scanPrecision
  let length ← scanLength
  match ← next with
  | some conv => return { flags, width, precision, valuePosition, length, conv }
  | none => throw (.code EINVAL)

section shrinks

open Scanner

lemma shrinks_lift {α : Type} (r : Except Stop α) : Shrinks (liftM r : Scanner Byte Stop α) := by
  intro ts a ts' h
  cases r with
  | error e => cases h
  | ok b =>
    cases h
    exact le_rfl

lemma scanPosition_shrinks : Shrinks scanPosition := by
  refine .bind (.attempt (.bind (.takeWhile _) fun _ => .bind (.accept _) fun _ => .pure _)) fun written => ?_
  cases written with
  | none => exact .pure _
  | some digits => exact shrinks_lift _

lemma scanNumber_shrinks : Shrinks scanNumber := .bind (.takeWhile _) fun _ => shrinks_lift _

lemma scanWidth_shrinks : Shrinks scanWidth :=
  .bind (.accept _) fun _ => .ite (.bind scanPosition_shrinks fun _ => .pure _)
    (.bind .peek fun _ => .ite (.bind scanNumber_shrinks fun _ => .pure _) (.pure _))

lemma scanPrecision_shrinks : Shrinks scanPrecision :=
  .bind (.accept _) fun _ => .ite
    (.bind (.accept _) fun _ => .ite (.bind scanPosition_shrinks fun _ => .pure _)
      (.bind scanNumber_shrinks fun _ => .pure _)) (.pure _)

lemma scanWBits_shrinks : Shrinks scanWBits := by
  refine .bind (.takeWhile _) fun digits => ?_
  split
  · exact .pure _
  · exact .pure _
  · exact .pure _
  · exact .pure _
  · exact .throw _

lemma shrinks_letter {α : Type} {c : Byte} {p q : Scanner Byte Stop α} (hp : Shrinks p) (hq : Shrinks q) :
    Shrinks (do if ← accept c then p else q) :=
  .bind (.accept _) fun _ => .ite hp hq

lemma scanLength_shrinks : Shrinks scanLength := by
  refine shrinks_letter (shrinks_letter ?_ ?_) (shrinks_letter ?_ (shrinks_letter ?_ (shrinks_letter (.pure _)
    (shrinks_letter (.pure _) (shrinks_letter (.pure _) (shrinks_letter (.pure _) (.pure _)))))))
  · exact .bind scanWBits_shrinks fun _ => .pure _
  · exact .bind scanWBits_shrinks fun _ => .pure _
  · exact .bind (.accept _) fun _ => .pure _
  · exact .bind (.accept _) fun _ => .pure _

lemma scanSpec_shrinks : Shrinks scanSpec := by
  refine .bind scanPosition_shrinks fun _ => .bind (.takeWhile _) fun _ => .bind scanWidth_shrinks fun _ =>
    .bind scanPrecision_shrinks fun _ => .bind scanLength_shrinks fun _ => .bind .next fun conv => ?_
  cases conv with
  | none => exact .throw _
  | some conv => exact .pure _

end shrinks

/-! ## Numbering and noting the arguments -/

def Count.position : Count → ℕ
  | .fromArg position => position
  | _ => 0

/-- The next position of the sequence, for a count that takes an argument and has none. -/
def Count.numbered (next : ℕ) : Count → Count × ℕ
  | .fromArg 0 => (.fromArg next, next + 1)
  | count => (count, next)

def FormatSpec.numbered (next : ℕ) (spec : FormatSpec) : FormatSpec × ℕ :=
  let (width, next) := spec.width.numbered next
  let (precision, next) := spec.precision.numbered next
  if spec.takesValueArg ∧ spec.valuePosition = 0 then
    ({ spec with width, precision, valuePosition := next }, next + 1)
  else ({ spec with width, precision }, next)

def FormatSpec.args (spec : FormatSpec) : List (ℕ × ArgKind) :=
  [(spec.width.position, .int), (spec.precision.position, .int), (spec.valuePosition, spec.determineArgKind)]

/-- The vector made long enough for the position, with room for so many kinds. The new length is an `int`. -/
def growTo (room : ℕ) (argKinds : List ArgKind) (position : ℕ) : Except Stop (List ArgKind) :=
  if position < argKinds.length then .ok argKinds
  else if INT_MAX < position + 1 then .error (.fault .overflow)
  else if room < position + 1 then .error (.fault .badAlloc)
  else .ok (argKinds ++ List.replicate (position + 1 - argKinds.length) .none)

/-- The first kind that is noted at a position stays. -/
def noteKind (argKinds : List ArgKind) (position : ℕ) (kind : ArgKind) : List ArgKind :=
  if argKinds[position]? = some .none then argKinds.set position kind else argKinds

def reservePosition (room : ℕ) (argKinds : List ArgKind) (arg : ℕ × ArgKind) : Except Stop (List ArgKind) :=
  if arg.1 = 0 ∨ arg.2 = .none then .ok argKinds
  else do
    let argKinds ← growTo room argKinds arg.1
    return noteKind argKinds arg.1 arg.2

/-- What the loop of `parse_format_string` has so far. -/
structure Parser where
  items : List FormatItem := []
  argKinds : List ArgKind := [.none]
  nextSeqPosition : ℕ := 1
  pendingLiteral : List Byte := []
  deriving DecidableEq

def Parser.flushLiteral (p : Parser) : Parser :=
  if p.pendingLiteral = [] then p
  else { p with items := p.items ++ [.literal p.pendingLiteral], pendingLiteral := [] }

def Parser.literal (p : Parser) (c : Byte) : Parser := { p with pendingLiteral := p.pendingLiteral ++ [c] }

def Parser.directive (room : ℕ) (p : Parser) (spec : FormatSpec) : Except Stop Parser := do
  let (spec, next) := spec.numbered p.nextSeqPosition
  let argKinds ← spec.args.foldlM (reservePosition room) p.argKinds
  return { p with items := p.items ++ [.directive spec], argKinds, nextSeqPosition := next }

def parseLoop (room : ℕ) (p : Parser) : List Byte → Except Stop ParsedFormat
  | [] => .ok ⟨p.flushLiteral.items, p.argKinds⟩
  | c :: rest =>
    if c ≠ ascii '%' then parseLoop room (p.literal c) rest
    else if rest.head? = some (ascii '%') then parseLoop room (p.literal (ascii '%')) rest.tail
    else
      match h : scanSpec rest with
      | .error e => .error e
      | .ok (spec, rest') =>
        match p.flushLiteral.directive room spec with
        | .error e => .error e
        | .ok p' =>
          have := scanSpec_shrinks h
          parseLoop room p' rest'
termination_by fmt => fmt.length
decreasing_by
  · exact Nat.lt_succ_self _
  · rw [List.length_tail, List.length_cons]
    omega
  · rw [List.length_cons]
    omega

def parseFormatString (room : ℕ) (fmt : List Byte) : Except Stop ParsedFormat := parseLoop room {} fmt

end CrossShim.Stdio.Format
