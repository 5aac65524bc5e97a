import Tracepoints.Enumerator.Types
import Tracepoints.Perf.Text

/-!
# Field lines of a format file

The tokenizer and the two constructors of `PerfFieldFormat` (`tracepoint_decode/src/
perf_field_format.rs`): `new` deduces from a C declaration how a field is decoded, `parse` finds the
declaration, the offset, the size and the signedness in a line `field:...; offset:...; size:...;
signed:...;`.
-/

set_option autoImplicit false
set_option relaxedAutoImplicit false

namespace Tracepoints

open Exec Text

/-! ### The tokenizer -/

/-- `TokenKind`. -/
inductive TokenKind
  | none
  | ident
  | brackets
  | parentheses
  | string
  | punctuation
  deriving DecidableEq, Repr

/-- A token of the tokenizer: its kind and its range. The tokenizer continues at the end of the
range. -/
structure Token where
  kind : TokenKind
  start : ℕ
  stop : ℕ
  deriving DecidableEq, Repr

/-- What is behind the token that starts at a byte, and the kind of the token. -/
def consumeToken (c : UInt8) (rest : List UInt8) : TokenKind × List UInt8 :=
  if isIdentStart c then (.ident, rest.dropWhile isIdentContinue)
  else if c = apostrophe ∨ c = quotationMark then (.string, consumeString c rest)
  else if c = openParen then (.parentheses, consumeBraced openParen closeParen 1 rest)
  else if c = openBracket then (.brackets, consumeBraced openBracket closeBracket 1 rest)
  else (.punctuation, rest)

/-- `Tokenizer::move_next` from a position. -/
def moveNextToken (input : List UInt8) (inputPos : ℕ) : Token :=
  match (input.drop inputPos).dropWhile (· ≤ space) with
  | [] => ⟨.none, input.length, input.length⟩
  | c :: rest =>
    let (kind, behind) := consumeToken c rest
    ⟨kind, input.length - (c :: rest).length, input.length - behind.length⟩

/-! ### The declaration -/

/-- `PerfFieldArray`. -/
inductive PerfFieldArray
  | none
  | fixed
  | restOfEvent
  | relLoc2
  | dataLoc2
  | relLoc4
  | dataLoc4
  deriving DecidableEq, Repr

/-- `PerfFieldFormat`. -/
structure PerfFieldFormat where
  field : List UInt8
  nameStart : ℕ
  nameStop : ℕ
  offset : ℕ
  size : ℕ
  signed : Option Bool
  specifiedArrayCount : ℕ
  deducedArrayCount : ℕ
  specifiedEncoding : FieldEncoding
  deducedEncoding : FieldEncoding
  specifiedFormat : FieldFormat
  deducedFormat : FieldFormat
  array : PerfFieldArray
  elementSizeShift : ℕ
  deriving DecidableEq, Repr

/-- What the tokens of a declaration say: the local variables of `PerfFieldFormat::new`. -/
structure Declaration where
  foundLongLong : Bool
  foundLong : Bool
  foundShort : Bool
  foundUnsigned : Bool
  foundSigned : Bool
  foundStruct : Bool
  foundDataLoc : Bool
  foundRelLoc : Bool
  foundArray : Bool
  foundPointer : Bool
  baseTypeStart : ℕ
  baseTypeStop : ℕ
  nameStart : ℕ
  nameStop : ℕ
  specifiedArrayCount : ℕ
  deriving DecidableEq, Repr

namespace Declaration

/-- The variables before the first token. -/
def initial : Declaration :=
  ⟨false, false, false, false, false, false, false, false, false, false, 0, 0, 0, 0, 0⟩

/-- The last identifier so far is the name, the one before it the base type. -/
def withName (found : Declaration) (token : Token) : Declaration :=
  { found with
    baseTypeStart := found.nameStart
    baseTypeStop := found.nameStop
    nameStart := token.start
    nameStop := token.stop }

/-- The effect of an identifier. -/
def withIdent (found : Declaration) (token : Token) (value : List UInt8) : Declaration :=
  if value = ascii "long" then
    if found.foundLong then { found with foundLongLong := true }
    else { found with foundLong := true }
  else if value = ascii "short" then { found with foundShort := true }
  else if value = ascii "unsigned" then { found with foundUnsigned := true }
  else if value = ascii "signed" then { found with foundSigned := true }
  else if value = ascii "struct" then { found with foundStruct := true }
  else if value = ascii "__data_loc" then { found with foundDataLoc := true }
  else if value = ascii "__rel_loc" then { found with foundRelLoc := true }
  else if value ≠ ascii "__attribute__" ∧ value ≠ ascii "const" ∧ value ≠ ascii "volatile" then
    found.withName token
  else found

/-- The effect of brackets, which end the declaration but for a name behind them. -/
def withBrackets (build : Build) (field : List UInt8) (found : Declaration) (token : Token)
    (value : List UInt8) : Exec Declaration := do
  let count ← asciiToU32 build value.tail
  let found : Declaration :=
    { found with
      foundArray := true
      specifiedArrayCount := count.getD 0 % 2 ^ 16 }
  let behind := moveNextToken field token.stop
  if behind.kind = .ident then .ok (found.withName behind) else .ok found

/-- The token loop of `PerfFieldFormat::new`. -/
def scan (build : Build) (field : List UInt8) : ℕ → ℕ → Declaration → Exec Declaration
  | 0, _, _ => .error .unfinished
  | fuel + 1, inputPos, found => do
    let token := moveNextToken field inputPos
    let value ← strSlice field token.start token.stop
    match token.kind with
    | .none => .ok found
    | .ident => scan build field fuel token.stop (found.withIdent token value)
    | .brackets => withBrackets build field found token value
    | .parentheses | .string => scan build field fuel token.stop found
    | .punctuation =>
      scan build field fuel token.stop
        (if value = ascii "*" then { found with foundPointer := true } else found)

/-- The encoding of `long`. -/
def longEncoding (longIs64Bits : Bool) : FieldEncoding :=
  if longIs64Bits then FieldEncoding.value64 else FieldEncoding.value32

/-- The specified encoding and format of `int`, which may be left out. -/
def specifiedInt (longIs64Bits : Bool) (found : Declaration) : FieldEncoding × FieldFormat :=
  let format := if found.foundUnsigned then FieldFormat.unsignedInt else FieldFormat.signedInt
  if found.foundLongLong then (FieldEncoding.value64, format)
  else if found.foundLong then
    (longEncoding longIs64Bits, if found.foundUnsigned then FieldFormat.hexInt else format)
  else if found.foundShort then (FieldEncoding.value16, format)
  else (FieldEncoding.value32, format)

/-- The specified encoding and format of `char`. -/
def specifiedChar (found : Declaration) : FieldEncoding × FieldFormat :=
  (FieldEncoding.value8,
    if found.foundUnsigned then FieldFormat.unsignedInt
    else if found.foundSigned then FieldFormat.signedInt
    else FieldFormat.string8)

/-- The base types of fixed width. -/
def fixedTypes : List (List UInt8 × FieldEncoding × FieldFormat) :=
  [(ascii "u8", FieldEncoding.value8, FieldFormat.unsignedInt),
    (ascii "__u8", FieldEncoding.value8, FieldFormat.unsignedInt),
    (ascii "uint8_t", FieldEncoding.value8, FieldFormat.unsignedInt),
    (ascii "s8", FieldEncoding.value8, FieldFormat.signedInt),
    (ascii "__s8", FieldEncoding.value8, FieldFormat.signedInt),
    (ascii "int8_t", FieldEncoding.value8, FieldFormat.signedInt),
    (ascii "u16", FieldEncoding.value16, FieldFormat.unsignedInt),
    (ascii "__u16", FieldEncoding.value16, FieldFormat.unsignedInt),
    (ascii "uint16_t", FieldEncoding.value16, FieldFormat.unsignedInt),
    (ascii "s16", FieldEncoding.value16, FieldFormat.signedInt),
    (ascii "__s16", FieldEncoding.value16, FieldFormat.signedInt),
    (ascii "int16_t", FieldEncoding.value16, FieldFormat.signedInt),
    (ascii "u32", FieldEncoding.value32, FieldFormat.unsignedInt),
    (ascii "__u32", FieldEncoding.value32, FieldFormat.unsignedInt),
    (ascii "uint32_t", FieldEncoding.value32, FieldFormat.unsignedInt),
    (ascii "s32", FieldEncoding.value32, FieldFormat.signedInt),
    (ascii "__s32", FieldEncoding.value32, FieldFormat.signedInt),
    (ascii "int32_t", FieldEncoding.value32, FieldFormat.signedInt),
    (ascii "u64", FieldEncoding.value64, FieldFormat.unsignedInt),
    (ascii "__u64", FieldEncoding.value64, FieldFormat.unsignedInt),
    (ascii "uint64_t", FieldEncoding.value64, FieldFormat.unsignedInt),
    (ascii "s64", FieldEncoding.value64, FieldFormat.signedInt),
    (ascii "__s64", FieldEncoding.value64, FieldFormat.signedInt),
    (ascii "int64_t", FieldEncoding.value64, FieldFormat.signedInt)]

/-- The specified encoding and format. -/
def specified (longIs64Bits : Bool) (found : Declaration) (baseType : List UInt8) :
    FieldEncoding × FieldFormat :=
  if found.foundPointer then (longEncoding longIs64Bits, FieldFormat.hexInt)
  else if found.foundStruct then (FieldEncoding.struct, FieldFormat.hexBytes)
  else if baseType = [] ∨ baseType = ascii "int" then found.specifiedInt longIs64Bits
  else if baseType = ascii "char" then found.specifiedChar
  else (fixedTypes.lookup baseType).getD (FieldEncoding.invalid, FieldFormat.hexInt)

/-- The array kind. -/
def array (found : Declaration) (size : ℕ) : PerfFieldArray :=
  if size = 0 then .restOfEvent
  else if size = 2 ∧ found.foundRelLoc then .relLoc2
  else if size = 2 ∧ found.foundDataLoc then .dataLoc2
  else if size = 4 ∧ found.foundRelLoc then .relLoc4
  else if size = 4 ∧ found.foundDataLoc then .dataLoc4
  else if found.foundArray then .fixed
  else .none

end Declaration

/-! ### Deduction -/

/-- The deduced properties of a field. -/
structure Deduced where
  encoding : FieldEncoding
  format : FieldFormat
  arrayCount : ℕ
  elementSizeShift : ℕ
  deriving DecidableEq, Repr

namespace Deduced

/-- `with_flags`. -/
def withFlags (encoding : FieldEncoding) (flags : UInt8) : FieldEncoding := encoding ||| flags

/-- The deduced format: a valid `signed` property overrides the sign of the type. -/
def applySigned (format : FieldFormat) (signed : Option Bool) : FieldFormat :=
  if format = FieldFormat.unsignedInt ∨ format = FieldFormat.signedInt then
    match signed with
    | none => format
    | some false => FieldFormat.unsignedInt
    | some true => FieldFormat.signedInt
  else format

/-- `set_hex_dump`. -/
def hexDump : Deduced := ⟨FieldEncoding.stringLength16Char8, FieldFormat.hexBytes, 1, 255⟩

/-- The value encoding of an element size, and its shift. -/
def encodingOfSize (size : ℕ) : Option (FieldEncoding × ℕ) :=
  match size with
  | 1 => some (FieldEncoding.value8, 0)
  | 2 => some (FieldEncoding.value16, 1)
  | 4 => some (FieldEncoding.value32, 2)
  | 8 => some (FieldEncoding.value64, 3)
  | _ => none

/-- The shift of a value encoding. -/
def shiftOfEncoding (encoding : FieldEncoding) : Option ℕ :=
  if encoding = FieldEncoding.value8 then some 0
  else if encoding = FieldEncoding.value16 then some 1
  else if encoding = FieldEncoding.value32 then some 2
  else if encoding = FieldEncoding.value64 then some 3
  else none

/-- The encoding of an element size has the shift of that size. -/
theorem encodingOfSize_eq_some {size shift : ℕ} {encoding : FieldEncoding}
    (h : encodingOfSize size = some (encoding, shift)) :
    shiftOfEncoding encoding = some shift ∧ size = 2 ^ shift := by
  unfold encodingOfSize at h
  split at h
  · cases h
    exact ⟨rfl, rfl⟩
  · cases h
    exact ⟨rfl, rfl⟩
  · cases h
    exact ⟨rfl, rfl⟩
  · cases h
    exact ⟨rfl, rfl⟩
  · cases h

/-- Deduction for a single value: the size overrides the type. -/
def scalar (size : ℕ) (format : FieldFormat) : Deduced :=
  match encodingOfSize size with
  | some (encoding, shift) => ⟨encoding, format, 1, shift⟩
  | none => hexDump

/-- Deduction for an array of fixed length. -/
def fixed (build : Build) (size specifiedArrayCount : ℕ) (specifiedEncoding : FieldEncoding)
    (format : FieldFormat) : Exec Deduced :=
  if specifiedArrayCount = 0 then
    match shiftOfEncoding specifiedEncoding with
    | some shift =>
      if size % 2 ^ shift ≠ 0 then .ok hexDump
      else
        .ok ⟨withFlags specifiedEncoding FieldEncoding.cArrayFlag, format, size / 2 ^ shift, shift⟩
    | none => do
      debugAssert build (specifiedEncoding = FieldEncoding.invalid)
      .ok hexDump
  else if size % specifiedArrayCount ≠ 0 then .ok hexDump
  else
    match encodingOfSize (size / specifiedArrayCount) with
    | some (encoding, shift) =>
      .ok ⟨withFlags encoding FieldEncoding.cArrayFlag, format, specifiedArrayCount, shift⟩
    | none => .ok hexDump

/-- Deduction for data of variable length. -/
def variableLength (build : Build) (specifiedEncoding : FieldEncoding) (format : FieldFormat) :
    Exec Deduced :=
  match shiftOfEncoding specifiedEncoding with
  | some shift => .ok ⟨withFlags specifiedEncoding FieldEncoding.vArrayFlag, format, 0, shift⟩
  | none => do
    debugAssert build (specifiedEncoding = FieldEncoding.invalid)
    .ok hexDump

/-- The deduced properties of a field from the specified ones. -/
def of (build : Build) (array : PerfFieldArray) (size specifiedArrayCount : ℕ)
    (specifiedEncoding : FieldEncoding) (specifiedFormat : FieldFormat) (signed : Option Bool) :
    Exec Deduced :=
  let format := applySigned specifiedFormat signed
  if specifiedFormat = FieldFormat.string8 then do
    debugAssert build (specifiedEncoding = FieldEncoding.value8)
    .ok (if size = 1 then ⟨FieldEncoding.value8, format, 1, 0⟩
      else ⟨FieldEncoding.zStringChar8, format, 1, 255⟩)
  else if specifiedFormat = FieldFormat.hexBytes then do
    debugAssert build (specifiedEncoding = FieldEncoding.struct)
    .ok (if size = 1 then ⟨FieldEncoding.value8, format, 1, 255⟩
      else ⟨FieldEncoding.stringLength16Char8, format, 1, 255⟩)
  else
    match array with
    | .none => .ok (scalar size format)
    | .fixed => fixed build size specifiedArrayCount specifiedEncoding format
    | _ => variableLength build specifiedEncoding format

/-- The deduced encoding has the value, count and element size that the assertions at the end of
`new` ask for. -/
def encodingOk (size : ℕ) (deduced : Deduced) : Bool :=
  let encoding := FieldEncoding.withoutFlags deduced.encoding
  match shiftOfEncoding encoding with
  | some shift =>
    (deduced.arrayCount = 0 || size = deduced.arrayCount * 2 ^ shift) &&
      deduced.elementSizeShift = shift
  | none =>
    (encoding = FieldEncoding.stringLength16Char8 && deduced.format = FieldFormat.hexBytes ||
      encoding = FieldEncoding.zStringChar8 && deduced.format = FieldFormat.string8) &&
      deduced.arrayCount = 1 && deduced.encoding &&& FieldEncoding.flagMask = 0 &&
      deduced.elementSizeShift = 255

/-- The array flags of the deduced encoding agree with the count. -/
def flagsOk (deduced : Deduced) : Bool :=
  let flags := deduced.encoding &&& FieldEncoding.flagMask
  if flags = 0 then deduced.arrayCount = 1
  else if flags = FieldEncoding.vArrayFlag then deduced.arrayCount = 0
  else if flags = FieldEncoding.cArrayFlag then 1 ≤ deduced.arrayCount
  else false

/-- The deduced format agrees with the deduced encoding. -/
def formatOk (deduced : Deduced) : Bool :=
  let encoding := FieldEncoding.withoutFlags deduced.encoding
  if deduced.format ∈ [FieldFormat.unsignedInt, FieldFormat.signedInt, FieldFormat.hexInt] then
    FieldEncoding.value8 ≤ encoding && encoding ≤ FieldEncoding.value64
  else if deduced.format = FieldFormat.hexBytes then
    encoding = FieldEncoding.stringLength16Char8
  else if deduced.format = FieldFormat.string8 then
    encoding = FieldEncoding.value8 || encoding = FieldEncoding.zStringChar8
  else false

end Deduced

namespace PerfFieldFormat

/-- `PerfFieldFormat::new` once the declaration is scanned. -/
def ofDeclaration (build : Build) (longIs64Bits : Bool) (field : List UInt8) (offset size : ℕ)
    (signed : Option Bool) (found : Declaration) : Exec PerfFieldFormat := do
  let baseType ← strSlice field found.baseTypeStart found.baseTypeStop
  let specified := found.specified longIs64Bits baseType
  let deduced ← Deduced.of build (found.array size) size found.specifiedArrayCount specified.1
    specified.2 signed
  debugAssert build (field ≠ [] ∧ deduced.encodingOk size ∧ deduced.flagsOk ∧ deduced.formatOk)
  .ok
    { field := field
      nameStart := found.nameStart
      nameStop := found.nameStop
      offset := offset
      size := size
      signed := signed
      specifiedArrayCount := found.specifiedArrayCount
      deducedArrayCount := deduced.arrayCount
      specifiedEncoding := specified.1
      deducedEncoding := deduced.encoding
      specifiedFormat := specified.2
      deducedFormat := deduced.format
      array := found.array size
      elementSizeShift := deduced.elementSizeShift }

/-- `PerfFieldFormat::new`. -/
def new (build : Build) (longIs64Bits : Bool) (field : List UInt8) (offset size : ℕ)
    (signed : Option Bool) : Exec PerfFieldFormat := do
  let found ← Declaration.scan build field (field.length + 1) 0 .initial
  ofDeclaration build longIs64Bits field offset size signed found

/-- `name`. -/
def name (format : PerfFieldFormat) : Exec (List UInt8) :=
  if format.nameStop ≤ format.nameStart then .ok (ascii "noname")
  else strSlice format.field format.nameStart format.nameStop

/-! ### Lines -/

/-- The properties that a field line gives: the local variables of `PerfFieldFormat::parse`. -/
structure LineProperties where
  field : List UInt8
  offset : Option ℕ
  size : Option ℕ
  signed : Option Bool
  deriving DecidableEq, Repr

/-- The effect of `NAME: VALUE` on the properties; `terminated` is whether a semicolon follows. -/
def LineProperties.withProperty (build : Build) (properties : LineProperties)
    (name value : List UInt8) (terminated : Bool) : Exec LineProperties := do
  if name = ascii "field" ∨ name = ascii "field special" then
    .ok { properties with field := value }
  else if name = ascii "offset" ∧ terminated then
    let offset ← asciiToU32 build value
    .ok { properties with offset := offset.map (· % 2 ^ 16) }
  else if name = ascii "size" ∧ terminated then
    let size ← asciiToU32 build value
    .ok { properties with size := size.map (· % 2 ^ 16) }
  else if name = ascii "signed" ∧ terminated then
    let signed ← asciiToU32 build value
    .ok { properties with signed := signed.map (· ≠ 0) }
  else .ok properties

/-- The top-level loop of `PerfFieldFormat::parse`. -/
def lineLoop (build : Build) : ℕ → List UInt8 → LineProperties → Exec LineProperties
  | 0, _, _ => .error .unfinished
  | fuel + 1, line, properties => do
    let line := line.dropWhile isSpaceOrTabOrSemicolon
    let name := line.takeWhile (· ≠ colon)
    match line.drop name.length with
    | [] => .ok properties
    | _ :: behind =>
      let behind := behind.dropWhile isSpaceOrTab
      let value := behind.takeWhile (· ≠ semicolon)
      let rest := behind.drop value.length
      let properties ← properties.withProperty build name value (rest ≠ [])
      lineLoop build fuel rest properties

/-- `PerfFieldFormat::parse`. -/
def parse (build : Build) (longIs64Bits : Bool) (formatLine : List UInt8) :
    Exec (Option PerfFieldFormat) := do
  let properties ← lineLoop build (formatLine.length + 1) formatLine ⟨[], none, none, none⟩
  match properties.offset, properties.size with
  | some offset, some size =>
    if properties.field ≠ [] then
      some <$> new build longIs64Bits properties.field offset size properties.signed
    else .ok none
  | _, _ => .ok none

end PerfFieldFormat

end Tracepoints
