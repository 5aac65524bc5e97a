import Tracepoints.Perf.FieldFormat

/-!
# Format files

`PerfEventFormat` (`tracepoint_decode/src/perf_event_format.rs`): the parser of a tracefs `format`
file and the printer `write_to`.
-/

set_option autoImplicit false
set_option relaxedAutoImplicit false

namespace Tracepoints

open Exec Text

/-- `PerfEventDecodingStyle`. -/
inductive PerfEventDecodingStyle
  | traceEventFormat
  | eventHeader
  deriving DecidableEq, Repr

/-- `PerfEventFormat`. -/
structure PerfEventFormat where
  systemName : List UInt8
  name : List UInt8
  printFmt : List UInt8
  fields : List PerfFieldFormat
  id : ℕ
  commonFieldCount : ℕ
  commonFieldsSize : ℕ
  decodingStyle : PerfEventDecodingStyle
  deriving DecidableEq, Repr

namespace PerfEventFormat

/-! ### Parsing -/

/-- The local variables of `PerfEventFormat::parse`. -/
structure FileProperties where
  name : List UInt8
  printFmt : List UInt8
  fields : List PerfFieldFormat
  id : Option ℕ
  commonFieldCount : ℕ
  deriving DecidableEq, Repr

/-- `a + b` of `u16`: an overflow faults where the build checks for it. -/
def addU16 (build : Build) (left right : ℕ) : Exec ℕ :=
  if left + right < 2 ^ 16 then .ok (left + right)
  else if build.debugAssertions then .error .overflow
  else .ok ((left + right) % 2 ^ 16)

/-- What is behind a property value: the value ends at the first end of line outside quotes. -/
def behindValue : ℕ → List UInt8 → List UInt8
  | 0, rest => rest
  | _, [] => []
  | fuel + 1, consumed :: rest =>
    if isEolChar consumed then consumed :: rest
    else if consumed = quotationMark then behindValue fuel (consumeString quotationMark rest)
    else behindValue fuel rest

/-- The end of a line skipped: CRLF, CR or LF. -/
def skipEol : List UInt8 → List UInt8
  | [] => []
  | [_] => []
  | c :: next :: rest =>
    if c = carriageReturn ∧ next = lineFeed then rest else next :: rest

/-- A parsed field is pushed, and counted while the fields are common. -/
def pushField (build : Build) (common : Bool) (properties : FileProperties)
    (field : PerfFieldFormat) : Exec FileProperties :=
  if common then do
    let count ← addU16 build properties.commonFieldCount 1
    .ok { properties with fields := properties.fields ++ [field], commonFieldCount := count }
  else .ok { properties with fields := properties.fields ++ [field] }

/-- The loop over the lines of `format:`. It starts at the end of a line; `common` is whether no
blank line was seen yet. -/
def fieldLines (build : Build) (longIs64Bits : Bool) :
    ℕ → Bool → List UInt8 → FileProperties → Exec (FileProperties × List UInt8)
  | 0, _, _, _ => .error .unfinished
  | _, _, [], properties => .ok (properties, [])
  | fuel + 1, common, c :: behind, properties => do
    debugAssert build (isEolChar c = true)
    let text := skipEol (c :: behind)
    let line := text.takeWhile fun c ↦ !isEolChar c
    let rest := text.drop line.length
    if line = [] then
      if common then fieldLines build longIs64Bits fuel false rest properties
      else .ok (properties, rest)
    else
      match ← PerfFieldFormat.parse build longIs64Bits line with
      | some field => do
        let properties ← pushField build common properties field
        fieldLines build longIs64Bits fuel common rest properties
      | none => fieldLines build longIs64Bits fuel common rest properties

/-- The effect of a property `NAME: VALUE`, whose end is at `rest`. -/
def withProperty (build : Build) (longIs64Bits : Bool) (properties : FileProperties)
    (propName value rest : List UInt8) : Exec (FileProperties × List UInt8) := do
  if propName = ascii "name" then .ok ({ properties with name := value }, rest)
  else if propName = ascii "ID" ∧ rest ≠ [] then
    let id ← asciiToU32 build value
    .ok ({ properties with id := id }, rest)
  else if propName = ascii "print fmt" then .ok ({ properties with printFmt := value }, rest)
  else if propName = ascii "format" then
    fieldLines build longIs64Bits (rest.length + 1) true rest { properties with fields := [] }
  else .ok (properties, rest)

/-- The loop over the lines `NAME: VALUE` of a format file. -/
def propertyLines (build : Build) (longIs64Bits : Bool) :
    ℕ → List UInt8 → FileProperties → Exec FileProperties
  | 0, _, _ => .error .unfinished
  | fuel + 1, text, properties => do
    let text := (text.dropWhile isEolChar).dropWhile isSpaceOrTab
    let propName := text.takeWhile fun c ↦ c ≠ colon && !isEolChar c
    match text.drop propName.length with
    | [] => .ok properties
    | c :: behind =>
      -- the end of the line comes before the colon
      if c ≠ colon then propertyLines build longIs64Bits fuel (c :: behind) properties
      else
        let behind := behind.dropWhile isSpaceOrTab
        let rest := behindValue (behind.length + 1) behind
        let value := behind.take (behind.length - rest.length)
        let (properties, rest) ← withProperty build longIs64Bits properties propName value rest
        propertyLines build longIs64Bits fuel rest properties

/-- The offset behind the last common field. -/
def commonSize (build : Build) (properties : FileProperties) : Exec ℕ :=
  if properties.commonFieldCount = 0 then .ok 0
  else
    match properties.fields[properties.commonFieldCount - 1]? with
    | some field => addU16 build field.offset field.size
    | none => .error .indexOutOfRange

/-- The decoding style: the first field that is not common decides. -/
def styleOf (properties : FileProperties) : Exec PerfEventDecodingStyle :=
  match properties.fields[properties.commonFieldCount]? with
  | some field => do
    let name ← field.name
    .ok (if name = ascii "eventheader_flags" then .eventHeader else .traceEventFormat)
  | none => .ok .traceEventFormat

/-- `PerfEventFormat::parse`. -/
def parse (build : Build) (longIs64Bits : Bool) (systemName formatFileContents : List UInt8) :
    Exec (Option PerfEventFormat) := do
  let properties ← propertyLines build longIs64Bits (formatFileContents.length + 1)
    formatFileContents ⟨[], [], [], none, 0⟩
  match properties.id with
  | some id =>
    if properties.name ≠ [] then
      let commonFieldsSize ← commonSize build properties
      let decodingStyle ← styleOf properties
      .ok (some
        { systemName := systemName
          name := properties.name
          printFmt := properties.printFmt
          fields := properties.fields
          id := id
          commonFieldCount := properties.commonFieldCount
          commonFieldsSize := commonFieldsSize
          decodingStyle := decodingStyle })
    else .ok none
  | none => .ok none

/-! ### Printing -/

/-- The line that `write_to` writes for a field, without its end. -/
def fieldText (field : PerfFieldFormat) : List UInt8 :=
  ascii "\tfield:" ++ field.field ++ ascii ";\toffset:" ++ decimal field.offset ++
    ascii ";\tsize:" ++ decimal field.size ++ ascii ";" ++
    match field.signed with
    | some signed => ascii "\tsigned:" ++ decimal signed.toNat ++ ascii ";"
    | none => []

/-- The lines of the fields from an index on, with a blank line behind the last common field. -/
def fieldLinesFrom (commonFieldCount : ℕ) : ℕ → List PerfFieldFormat → List UInt8
  | _, [] => []
  | index, field :: rest =>
    fieldText field ++ ascii "\n" ++
      (if index + 1 = commonFieldCount then ascii "\n" else []) ++
      fieldLinesFrom commonFieldCount (index + 1) rest

/-- `write_to`. -/
def writeTo (format : PerfEventFormat) : List UInt8 :=
  ascii "name: " ++ format.name ++ ascii "\n" ++ ascii "ID: " ++ decimal format.id ++ ascii "\n" ++
    ascii "format:\n" ++ fieldLinesFrom format.commonFieldCount 0 format.fields ++
    ascii "\nprint fmt: " ++ format.printFmt ++ ascii "\n"

end PerfEventFormat

end Tracepoints
