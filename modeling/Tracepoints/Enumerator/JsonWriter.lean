import Tracepoints.Enumerator.Event
import Tracepoints.Perf.Text

/-!
# Writing items as JSON

`JsonWriter` (`tracepoint_decode/src/writers.rs`), the JSON functions of `PerfItemValue`
(`tracepoint_decode/src/perf_item.rs`), and `write_json_item_and_move_next_sibling_impl`
(`tracepoint_decode/src/enumerator.rs`). The destination is a text that accepts everything written
to it.

A leaf is one call of a function of `ValueWriter` with the value it is given (`JsonLeaf`); the texts
these functions write, and the escaped text of a name, are the parameter `ValueWriters`.
-/

set_option autoImplicit false
set_option relaxedAutoImplicit false

namespace Tracepoints

open Exec

/-! ### Options -/

/-- `PerfConvertOptions`. -/
abbrev PerfConvertOptions := UInt32

namespace PerfConvertOptions

def space : PerfConvertOptions := 0x01
def rootName : PerfConvertOptions := 0x02
def fieldTag : PerfConvertOptions := 0x04

/-- `PerfConvertOptions::has_flag`. -/
def hasFlag (options flag : PerfConvertOptions) : Bool := options &&& flag != 0

end PerfConvertOptions

/-! ### Leaves -/

/-- `PerfTextEncoding`. -/
inductive PerfTextEncoding
  | latin1
  | utf8
  | utf16 (order : ByteOrder)
  | utf32 (order : ByteOrder)
  deriving DecidableEq, Repr

/-- `PerfTextEncoding::from_bom`: the encoding and the length of the byte order mark. -/
def PerfTextEncoding.fromBom : List UInt8 → Option (PerfTextEncoding × ℕ)
  | 0x00 :: 0x00 :: 0xFE :: 0xFF :: _ => some (utf32 .big, 4)
  | 0xFF :: 0xFE :: 0x00 :: 0x00 :: _ => some (utf32 .little, 4)
  | 0xFE :: 0xFF :: _ => some (utf16 .big, 2)
  | 0xFF :: 0xFE :: _ => some (utf16 .little, 2)
  | 0xEF :: 0xBB :: 0xBF :: _ => some (utf8, 3)
  | _ => none

/-- A call of a `ValueWriter` function that writes a JSON value. The bits of a floating-point value
stand for the value. -/
inductive JsonLeaf
  | null
  | emptyStruct
  | display (value : ℤ)
  | jsonHex32 (value : ℕ)
  | jsonHex64 (value : ℕ)
  | jsonBool (value : ℕ)
  | jsonErrno (value : ℕ)
  | jsonTime64 (value : ℤ)
  | jsonFloat32 (bits : ℕ)
  | jsonFloat64 (bits : ℕ)
  | quotedHex32 (value : ℕ)
  | quotedHexbytes (bytes : List UInt8)
  | quotedText (encoding : PerfTextEncoding) (bytes : List UInt8)
  | quotedChar32 (value : ℕ)
  | quotedUuid (bytes : List UInt8)
  | quotedIpv4 (bytes : List UInt8)
  | quotedIpv6 (bytes : List UInt8)
  | quotedEncoding (encoding : FieldEncoding)
  deriving DecidableEq, Repr

/-- The signed integer of `width` bytes with an unsigned value. -/
def toSigned (width value : ℕ) : ℤ :=
  if value < 256 ^ width / 2 then value else (value : ℤ) - 256 ^ width

/-- `PerfItemValue`: the bytes of an item and its metadata. -/
structure PerfItemValue where
  bytes : List UInt8
  metadata : PerfItemMetadata
  deriving DecidableEq, Repr

/-- The value of an item. -/
def EventHeaderItemInfo.value (info : EventHeaderItemInfo) : PerfItemValue :=
  ⟨info.bytes, info.metadata⟩

namespace PerfItemValue

variable (build : Build) (value : PerfItemValue)

/-- The bytes of an element of a fixed size, as `to_u8x1` to `to_u8x16` return them and as the
functions that read an integer use them. -/
def element (size index : ℕ) : Exec (List UInt8) := do
  debugAssert build (value.bytes.length / size > index)
  slice value.bytes (index * size) (index * size + size)

/-- `write_json_value8_to`. -/
def writeJsonValue8To (index : ℕ) : Exec JsonLeaf := do
  let bytes ← value.element build 1 index
  let unsigned := value.metadata.byteReader.ofBytes bytes
  let format := value.metadata.format
  .ok <|
    if format = FieldFormat.signedInt then .display (toSigned 1 unsigned)
    else if format = FieldFormat.hexInt then .jsonHex32 unsigned
    else if format = FieldFormat.boolean then .jsonBool unsigned
    else if format = FieldFormat.hexBytes then .quotedHexbytes bytes
    else if format = FieldFormat.string8 then .quotedText .latin1 bytes
    else .display unsigned

/-- `write_json_value16_to`. A port is big-endian. -/
def writeJsonValue16To (index : ℕ) : Exec JsonLeaf := do
  let bytes ← value.element build 2 index
  let unsigned := value.metadata.byteReader.ofBytes bytes
  let format := value.metadata.format
  .ok <|
    if format = FieldFormat.signedInt then .display (toSigned 2 unsigned)
    else if format = FieldFormat.hexInt then .jsonHex32 unsigned
    else if format = FieldFormat.boolean then .jsonBool unsigned
    else if format = FieldFormat.hexBytes then .quotedHexbytes bytes
    else if format = FieldFormat.stringUtf then .quotedChar32 unsigned
    else if format = FieldFormat.port then .display (ByteOrder.big.ofBytes bytes)
    else .display unsigned

/-- `write_json_value32_to`. -/
def writeJsonValue32To (index : ℕ) : Exec JsonLeaf := do
  let bytes ← value.element build 4 index
  let unsigned := value.metadata.byteReader.ofBytes bytes
  let format := value.metadata.format
  .ok <|
    if format = FieldFormat.signedInt ∨ format = FieldFormat.pid then
      .display (toSigned 4 unsigned)
    else if format = FieldFormat.hexInt then .quotedHex32 unsigned
    else if format = FieldFormat.errno then .jsonErrno unsigned
    else if format = FieldFormat.time then .jsonTime64 (toSigned 4 unsigned)
    else if format = FieldFormat.boolean then .jsonBool unsigned
    else if format = FieldFormat.float then .jsonFloat32 unsigned
    else if format = FieldFormat.hexBytes then .quotedHexbytes bytes
    else if format = FieldFormat.stringUtf then .quotedChar32 unsigned
    else if format = FieldFormat.ipv4 then .quotedIpv4 bytes
    else .display unsigned

/-- `write_json_value64_to`. -/
def writeJsonValue64To (index : ℕ) : Exec JsonLeaf := do
  let bytes ← value.element build 8 index
  let unsigned := value.metadata.byteReader.ofBytes bytes
  let format := value.metadata.format
  .ok <|
    if format = FieldFormat.signedInt ∨ format = FieldFormat.pid then
      .display (toSigned 8 unsigned)
    else if format = FieldFormat.hexInt then .jsonHex64 unsigned
    else if format = FieldFormat.time then .jsonTime64 (toSigned 8 unsigned)
    else if format = FieldFormat.float then .jsonFloat64 unsigned
    else if format = FieldFormat.hexBytes then .quotedHexbytes bytes
    else .display unsigned

/-- `write_json_value128_to`. -/
def writeJsonValue128To (index : ℕ) : Exec JsonLeaf := do
  let bytes ← value.element build 16 index
  let format := value.metadata.format
  .ok <|
    if format = FieldFormat.uuid then .quotedUuid bytes
    else if format = FieldFormat.ipv6 then .quotedIpv6 bytes
    else .quotedHexbytes bytes

/-- `write_json_char8_default_to`. -/
def writeJsonChar8DefaultTo : JsonLeaf :=
  if value.metadata.encoding = FieldEncoding.binaryLength16Char8 then .quotedHexbytes value.bytes
  else .quotedText .utf8 value.bytes

/-- The text of `bytes` behind a byte order mark, in the encoding that the mark gives it. -/
def textWithBom (bytes : List UInt8) (encoding : PerfTextEncoding) : JsonLeaf :=
  match PerfTextEncoding.fromBom bytes with
  | some (bomEncoding, bomLen) => .quotedText bomEncoding (bytes.drop bomLen)
  | none => .quotedText encoding bytes

/-- `write_json_scalar_string_to`. -/
def writeJsonScalarStringTo (defaultEncoding : PerfTextEncoding) : JsonLeaf :=
  let format := value.metadata.format
  if format = FieldFormat.hexBytes then .quotedHexbytes value.bytes
  else if format = FieldFormat.string8 then .quotedText .latin1 value.bytes
  else if format = FieldFormat.stringUtfBom ∨ format = FieldFormat.stringXml ∨
      format = FieldFormat.stringJson then textWithBom value.bytes defaultEncoding
  else .quotedText defaultEncoding value.bytes

/-- The branch of `write_json_scalar_to_impl` for counted bytes and Latin-1 or UTF-8 strings: the
format is used where it goes with the number of bytes. -/
def writeJsonChar8To : JsonLeaf :=
  let bytes := value.bytes
  let unsigned := value.metadata.byteReader.ofBytes bytes
  let format := value.metadata.format
  let sized (sizes : List ℕ) (leaf : JsonLeaf) : JsonLeaf :=
    if bytes.length = 0 then .null
    else if bytes.length ∈ sizes then leaf
    else value.writeJsonChar8DefaultTo
  if format = FieldFormat.unsignedInt then sized [1, 2, 4, 8] (.display unsigned)
  else if format = FieldFormat.signedInt then
    sized [1, 2, 4, 8] (.display (toSigned bytes.length unsigned))
  else if format = FieldFormat.hexInt then
    sized [1, 2, 4, 8] (if bytes.length = 8 then .jsonHex64 unsigned else .jsonHex32 unsigned)
  else if format = FieldFormat.errno then sized [4] (.jsonErrno unsigned)
  else if format = FieldFormat.pid then sized [4] (.display (toSigned 4 unsigned))
  else if format = FieldFormat.time then
    sized [4, 8] (.jsonTime64 (toSigned bytes.length unsigned))
  else if format = FieldFormat.boolean then sized [1, 2, 4] (.jsonBool unsigned)
  else if format = FieldFormat.float then
    sized [4, 8] (if bytes.length = 8 then .jsonFloat64 unsigned else .jsonFloat32 unsigned)
  else if format = FieldFormat.hexBytes then .quotedHexbytes bytes
  else if format = FieldFormat.string8 then .quotedText .latin1 bytes
  else if format = FieldFormat.stringUtf then .quotedText .utf8 bytes
  else if format = FieldFormat.stringUtfBom ∨ format = FieldFormat.stringXml ∨
      format = FieldFormat.stringJson then textWithBom bytes .utf8
  else if format = FieldFormat.uuid then sized [16] (.quotedUuid bytes)
  else if format = FieldFormat.port then sized [2] (.display (ByteOrder.big.ofBytes bytes))
  else if format = FieldFormat.ipAddress ∨ format = FieldFormat.ipAddressObsolete then
    sized [4, 16] (if bytes.length = 16 then .quotedIpv6 bytes else .quotedIpv4 bytes)
  else value.writeJsonChar8DefaultTo

/-- `write_json_scalar_to_impl`. -/
def writeJsonScalarTo : Exec JsonLeaf := do
  debugAssert build (value.metadata.typeSize ≤ value.bytes.length)
  let encoding := value.metadata.encoding
  if encoding = FieldEncoding.invalid then .ok .null
  else if encoding = FieldEncoding.struct then .ok .emptyStruct
  else if encoding = FieldEncoding.value8 then value.writeJsonValue8To build 0
  else if encoding = FieldEncoding.value16 then value.writeJsonValue16To build 0
  else if encoding = FieldEncoding.value32 then value.writeJsonValue32To build 0
  else if encoding = FieldEncoding.value64 then value.writeJsonValue64To build 0
  else if encoding = FieldEncoding.value128 then value.writeJsonValue128To build 0
  else if encoding = FieldEncoding.zStringChar8 then .ok (value.writeJsonScalarStringTo .utf8)
  else if encoding = FieldEncoding.zStringChar16 ∨
      encoding = FieldEncoding.stringLength16Char16 then
    .ok (value.writeJsonScalarStringTo (.utf16 value.metadata.byteReader))
  else if encoding = FieldEncoding.zStringChar32 ∨
      encoding = FieldEncoding.stringLength16Char32 then
    .ok (value.writeJsonScalarStringTo (.utf32 value.metadata.byteReader))
  else if encoding = FieldEncoding.binaryLength16Char8 ∨
      encoding = FieldEncoding.stringLength16Char8 then .ok value.writeJsonChar8To
  else .ok (.quotedEncoding encoding)

end PerfItemValue

/-- `PerfItemMetadata::is_element`. -/
def PerfItemMetadata.isElement (metadata : PerfItemMetadata) : Bool :=
  metadata.isScalar && metadata.arrayFlag != 0

/-! ### The writer -/

/-- The uppercase hexadecimal digits of a number, as `{:X}` writes them. -/
def upperHex (value : ℕ) : List UInt8 :=
  (Nat.toDigits 16 value).map fun c ↦ UInt8.ofNat c.toUpper.toNat

/-- The texts that the functions of `ValueWriter` write. -/
structure ValueWriters where
  leaf : PerfConvertOptions → JsonLeaf → List UInt8
  /-- `write_utf8_with_json_escape`. -/
  utf8WithJsonEscape : List UInt8 → List UInt8

/-- `JsonWriter`. -/
structure JsonWriter where
  dest : List UInt8
  options : PerfConvertOptions
  jsonComma : Bool
  jsonSpace : Bool
  deriving DecidableEq, Repr

namespace JsonWriter

/-- `JsonWriter::new`. -/
def new (dest : List UInt8) (options : PerfConvertOptions) (jsonComma : Bool) : JsonWriter :=
  ⟨dest, options, jsonComma, jsonComma && options.hasFlag .space⟩

variable (writers : ValueWriters) (json : JsonWriter)

/-- The writer with more text. -/
def append (text : List UInt8) : JsonWriter := { json with dest := json.dest ++ text }

/-- `write_raw_comma_space`. -/
def writeRawCommaSpace : JsonWriter :=
  let next := { json with jsonSpace := json.options.hasFlag .space }
  if json.jsonSpace then
    if json.jsonComma then next.append (ascii ", ") else next.append (ascii " ")
  else if json.jsonComma then next.append (ascii ",")
  else next

/-- The text of a member name between the quotation marks. -/
def memberName (options : PerfConvertOptions) (name : List UInt8) (tag : ℕ) : List UInt8 :=
  writers.utf8WithJsonEscape name ++
    if options.hasFlag .fieldTag ∧ tag ≠ 0 then ascii ";tag=0x" ++ upperHex tag else []

/-- `write_property_name_from_item_info`. -/
def writePropertyNameFromItemInfo (name : List UInt8) (tag : ℕ) : JsonWriter :=
  { json.writeRawCommaSpace with jsonComma := false }.append
    (ascii "\"" ++ memberName writers json.options name tag ++ ascii "\":")

/-- `write_object_begin` and `write_array_begin`, which differ in the bracket. -/
def writeBegin (bracket : List UInt8) : JsonWriter :=
  { json.writeRawCommaSpace with jsonComma := false }.append bracket

/-- `write_object_end` and `write_array_end`, which differ in the bracket. -/
def writeEnd (bracket : List UInt8) : JsonWriter :=
  { json with jsonComma := true }.append ((if json.jsonSpace then ascii " " else []) ++ bracket)

def writeObjectBegin : JsonWriter := json.writeBegin (ascii "\x7b")
def writeObjectEnd : JsonWriter := json.writeEnd (ascii "\x7d")
def writeArrayBegin : JsonWriter := json.writeBegin (ascii "[")
def writeArrayEnd : JsonWriter := json.writeEnd (ascii "]")

/-- `write_value`. -/
def writeValue (leaf : JsonLeaf) : JsonWriter :=
  { json.writeRawCommaSpace with jsonComma := true }.append (writers.leaf json.options leaf)

/-- The loop over the elements of a simple array. -/
def writeElements (element : ℕ → Exec JsonLeaf) : ℕ → ℕ → JsonWriter → Exec JsonWriter
  | 0, _, json => .ok json
  | count + 1, index, json => do
    let leaf ← element index
    writeElements element count (index + 1) (json.writeValue writers leaf)

end JsonWriter

/-- `write_json_simple_array_to_impl`. -/
def PerfItemValue.writeJsonSimpleArrayTo (build : Build) (writers : ValueWriters)
    (value : PerfItemValue) (json : JsonWriter) : Exec JsonWriter := do
  debugAssert build (value.metadata.typeSize ≠ 0)
  let json := json.writeArrayBegin
  let encoding := value.metadata.encoding
  let count := value.bytes.length
  let json ←
    if encoding = FieldEncoding.value8 then
      json.writeElements writers (value.writeJsonValue8To build) count 0
    else if encoding = FieldEncoding.value16 then
      json.writeElements writers (value.writeJsonValue16To build) (count / 2) 0
    else if encoding = FieldEncoding.value32 then
      json.writeElements writers (value.writeJsonValue32To build) (count / 4) 0
    else if encoding = FieldEncoding.value64 then
      json.writeElements writers (value.writeJsonValue64To build) (count / 8) 0
    else if encoding = FieldEncoding.value128 then
      json.writeElements writers (value.writeJsonValue128To build) (count / 16) 0
    else .ok (json.writeValue writers (.quotedEncoding encoding))
  .ok json.writeArrayEnd

/-! ### Items -/

/-- What the loop of `write_json_item_and_move_next_sibling_impl` did with the current item. -/
inductive JsonItem
  /-- The item is written, and the next one follows. -/
  | item (json : JsonWriter)
  /-- An array of simple elements is written up to its end. -/
  | array (json : JsonWriter)
  /-- The enumerator is at no item. -/
  | invalid
  deriving DecidableEq, Repr

namespace EventHeaderEnumeratorContext

variable (build : Build) (data : List UInt8) (writers : ValueWriters)

/-- The name of an item, where it is wanted. -/
def writeJsonName (wantName : Bool) (info : EventHeaderItemInfo) (json : JsonWriter) :
    Exec JsonWriter :=
  if wantName then do
    let name ← info.nameBytes data
    .ok (json.writePropertyNameFromItemInfo writers name info.metadata.fieldTag)
  else .ok json

/-- The match of `write_json_item_and_move_next_sibling_impl` on the state. Arrays of simple elements
are written up to their end where `simpleArrays` is set, as the source does. -/
def writeJsonItem (simpleArrays wantName : Bool) (json : JsonWriter)
    (c : EventHeaderEnumeratorContext) : Exec JsonItem :=
  match c.state with
  | .beforeFirstItem => .ok (.item json)
  | .value => do
    let info ← itemInfo build data c
    let json ← writeJsonName data writers (wantName && !info.metadata.isElement) info json
    let leaf ← info.value.writeJsonScalarTo build
    .ok (.item (json.writeValue writers leaf))
  | .arrayBegin => do
    let info ← itemInfo build data c
    let json ← writeJsonName data writers wantName info json
    if simpleArrays && info.metadata.typeSize != 0 then
      return .array (← info.value.writeJsonSimpleArrayTo build writers json)
    else .ok (.item json.writeArrayBegin)
  | .arrayEnd => .ok (.item json.writeArrayEnd)
  | .structBegin => do
    let info ← itemInfo build data c
    let json ← writeJsonName data writers (wantName && !info.metadata.isElement) info json
    .ok (.item json.writeObjectBegin)
  | .structEnd => .ok (.item json.writeObjectEnd)
  | .error | .afterLastItem => do
    debugAssert build False
    .ok .invalid

/-- The depth after the current item. -/
def jsonDepth (depth : ℤ) : EventHeaderEnumeratorState → ℤ
  | .beforeFirstItem | .arrayBegin | .structBegin => depth + 1
  | .arrayEnd | .structEnd => depth - 1
  | _ => depth

/-- The loop of `write_json_item_and_move_next_sibling_impl`: whether a comma is needed next (`none`
is an error), the writer and the context. -/
def writeJsonLoop (simpleArrays : Bool) : ℕ → ℤ → Bool → JsonWriter →
    EventHeaderEnumeratorContext → Exec (Option Bool × JsonWriter × EventHeaderEnumeratorContext)
  | 0, _, _, _, _ => .error .unfinished
  | fuel + 1, depth, wantName, json, c => do
    match ← writeJsonItem build data writers simpleArrays wantName json c with
    | .invalid => .ok (none, json, c)
    | .array json => do
      let (movedToItem, c) ← moveNextSiblingImpl build data c
      if ¬movedToItem ∨ depth ≤ 0 then .ok (some json.jsonComma, json, c)
      else writeJsonLoop simpleArrays fuel depth wantName json c
    | .item json => do
      let depth := jsonDepth depth c.state
      let (movedToItem, c) ← moveNextImpl build data c
      if ¬movedToItem ∨ depth ≤ 0 then .ok (some json.jsonComma, json, c)
      else writeJsonLoop simpleArrays fuel depth true json c

/-- `write_json_item_and_move_next_sibling_impl`, or the same by plain moves where `simpleArrays` is
not set. -/
def writeJsonItems (simpleArrays : Bool) (dest : List UInt8) (addCommaBeforeFirstItem : Bool)
    (convertOptions : PerfConvertOptions) (c : EventHeaderEnumeratorContext) :
    Exec (Option Bool × JsonWriter × EventHeaderEnumeratorContext) := do
  debugAssert build c.state.canMoveNext
  writeJsonLoop build data writers simpleArrays (c.moveNextRemaining + 1) 0
    (convertOptions.hasFlag .rootName) (.new dest convertOptions addCommaBeforeFirstItem) c

/-- `write_json_item_and_move_next_sibling_impl`. -/
def writeJsonItemAndMoveNextSiblingImpl (dest : List UInt8) (addCommaBeforeFirstItem : Bool)
    (convertOptions : PerfConvertOptions) (c : EventHeaderEnumeratorContext) :
    Exec (Option Bool × JsonWriter × EventHeaderEnumeratorContext) :=
  writeJsonItems build data writers true dest addCommaBeforeFirstItem convertOptions c

end EventHeaderEnumeratorContext

end Tracepoints
