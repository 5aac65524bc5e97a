import Tracepoints.Text.ValueWriter

/-!
# Scalars as text and as JSON

`write_scalar_to` of `PerfItemValue` (`tracepoint_decode/src/perf_item.rs`), next to
`write_json_scalar_to` of `Enumerator/JsonWriter`, and the texts that both write (`scalarText`,
`jsonScalarText`).

A counted value, of encoding `BinaryLength16Char8` or `StringLength16Char8`, is documented to be
formatted like the plain value of its size (`LikePlain`). `likePlain_iff` says when it is: the two
tables of the source disagree in a hexadecimal JSON integer of four bytes and in the two formats of
addresses, which stand for four and for sixteen bytes in plain values.
-/

set_option autoImplicit false
set_option relaxedAutoImplicit false

namespace Tracepoints

open Exec

/-! ### Leaves -/

/-- A call of a `ValueWriter` function that writes a value as text. -/
inductive TextLeaf
  | null
  | structCount (fieldCount : ℕ)
  | display (value : ℤ)
  | hex (value : ℕ)
  | bool (value : ℕ)
  | errno (value : ℕ)
  | time64 (value : ℤ)
  | float32 (bits : ℕ)
  | float64 (bits : ℕ)
  | hexbytes (bytes : List UInt8)
  | text (encoding : PerfTextEncoding) (bytes : List UInt8)
  | char32 (value : ℕ)
  | uuid (bytes : List UInt8)
  | ipv4 (bytes : List UInt8)
  | ipv6 (bytes : List UInt8)
  | encodingName (encoding : FieldEncoding)
  deriving DecidableEq, Repr

section LeafTexts

variable (build : Build) (platform : Platform) (options : PerfConvertOptions)

open ValueWriter

/-- What the call writes. -/
def TextLeaf.write : TextLeaf → Exec (List UInt8)
  | null => .ok (ascii "null")
  | structCount fieldCount => .ok (ascii "Struct[" ++ decimal fieldCount ++ ascii "]")
  | display value => .ok (displayInt value)
  | hex value => .ok (writeHex value)
  | bool value => .ok (writeBool options value)
  | errno value => .ok (writeErrno options value)
  | time64 value => .ok (writeTime64 platform options value)
  | float32 bits => .ok (writeFloat platform options f32 bits)
  | float64 bits => .ok (writeFloat platform options f64 bits)
  | hexbytes bytes => .ok (writeHexbytes bytes)
  | text encoding bytes => writeWithControlCharsFilter build options encoding bytes
  | char32 value => writeChar32WithControlCharsFilter build options value
  | uuid bytes => .ok (writeUuid bytes)
  | ipv4 bytes => .ok (writeIpv4 bytes)
  | ipv6 bytes => .ok (writeIpv6 platform bytes)
  | encodingName value => .ok (ascii "Encoding[" ++ decimal value.toNat ++ ascii "]")

/-- What the call writes. -/
def JsonLeaf.write : JsonLeaf → Exec (List UInt8)
  | null => .ok (ascii "null")
  | emptyStruct => .ok (ascii "\x7b\x7d")
  | display value => .ok (displayInt value)
  | jsonHex32 value => .ok (writeJsonHex options value)
  | jsonHex64 value => .ok (writeJsonHex options value)
  | jsonBool value => .ok (writeJsonBool options value)
  | jsonErrno value => .ok (writeJsonErrno options value)
  | jsonTime64 value => .ok (writeJsonTime64 platform options value)
  | jsonFloat32 bits => .ok (writeJsonFloat platform options f32 bits)
  | jsonFloat64 bits => .ok (writeJsonFloat platform options f64 bits)
  | quotedHex32 value => .ok (quoted (writeHex value))
  | quotedHexbytes bytes => .ok (quoted (writeHexbytes bytes))
  | quotedText encoding bytes => quoted <$> writeWithJsonEscape build encoding bytes
  | quotedChar32 value => quoted <$> writeChar32WithJsonEscape build value
  | quotedUuid bytes => .ok (quoted (writeUuid bytes))
  | quotedIpv4 bytes => .ok (quoted (writeIpv4 bytes))
  | quotedIpv6 bytes => .ok (quoted (writeIpv6 platform bytes))
  | quotedEncoding value => .ok (quoted (ascii "Encoding[" ++ decimal value.toNat ++ ascii "]"))

end LeafTexts

/-! ### `write_scalar_to` -/

namespace PerfItemValue

variable (build : Build) (value : PerfItemValue)

/-- `write_value8_to`. -/
def writeValue8To (index : ℕ) : Exec TextLeaf := do
  let bytes ← value.element build 1 index
  let unsigned := value.metadata.byteReader.ofBytes bytes
  let format := value.metadata.format
  .ok <|
    if format = FieldFormat.signedInt then .display (toSigned 1 unsigned)
    else if format = FieldFormat.hexInt then .hex unsigned
    else if format = FieldFormat.boolean then .bool unsigned
    else if format = FieldFormat.hexBytes then .hexbytes bytes
    else if format = FieldFormat.string8 then .text .latin1 bytes
    else .display unsigned

/-- `write_value16_to`. -/
def writeValue16To (index : ℕ) : Exec TextLeaf := do
  let bytes ← value.element build 2 index
  let unsigned := value.metadata.byteReader.ofBytes bytes
  let format := value.metadata.format
  .ok <|
    if format = FieldFormat.signedInt then .display (toSigned 2 unsigned)
    else if format = FieldFormat.hexInt then .hex unsigned
    else if format = FieldFormat.boolean then .bool unsigned
    else if format = FieldFormat.hexBytes then .hexbytes bytes
    else if format = FieldFormat.stringUtf then .char32 unsigned
    else if format = FieldFormat.port then .display (ByteOrder.big.ofBytes bytes)
    else .display unsigned

/-- `write_value32_to`. -/
def writeValue32To (index : ℕ) : Exec TextLeaf := do
  let bytes ← value.element build 4 index
  let unsigned := value.metadata.byteReader.ofBytes bytes
  let format := value.metadata.format
  .ok <|
    if format = FieldFormat.signedInt ∨ format = FieldFormat.pid then
      .display (toSigned 4 unsigned)
    else if format = FieldFormat.hexInt then .hex unsigned
    else if format = FieldFormat.errno then .errno unsigned
    else if format = FieldFormat.time then .time64 (toSigned 4 unsigned)
    else if format = FieldFormat.boolean then .bool unsigned
    else if format = FieldFormat.float then .float32 unsigned
    else if format = FieldFormat.hexBytes then .hexbytes bytes
    else if format = FieldFormat.stringUtf then .char32 unsigned
    else if format = FieldFormat.ipv4 then .ipv4 bytes
    else .display unsigned

/-- `write_value64_to`. -/
def writeValue64To (index : ℕ) : Exec TextLeaf := do
  let bytes ← value.element build 8 index
  let unsigned := value.metadata.byteReader.ofBytes bytes
  let format := value.metadata.format
  .ok <|
    if format = FieldFormat.signedInt ∨ format = FieldFormat.pid then
      .display (toSigned 8 unsigned)
    else if format = FieldFormat.hexInt then .hex unsigned
    else if format = FieldFormat.time then .time64 (toSigned 8 unsigned)
    else if format = FieldFormat.float then .float64 unsigned
    else if format = FieldFormat.hexBytes then .hexbytes bytes
    else .display unsigned

/-- `write_value128_to`. -/
def writeValue128To (index : ℕ) : Exec TextLeaf := do
  let bytes ← value.element build 16 index
  let format := value.metadata.format
  .ok <|
    if format = FieldFormat.uuid then .uuid bytes
    else if format = FieldFormat.ipv6 then .ipv6 bytes
    else .hexbytes bytes

/-- `write_char8_default_to`. -/
def writeChar8DefaultTo : TextLeaf :=
  if value.metadata.encoding = FieldEncoding.binaryLength16Char8 then .hexbytes value.bytes
  else .text .utf8 value.bytes

/-- The text of `bytes` behind a byte order mark, in the encoding that the mark gives it. -/
def plainTextWithBom (bytes : List UInt8) (encoding : PerfTextEncoding) : TextLeaf :=
  match PerfTextEncoding.fromBom bytes with
  | some (bomEncoding, bomLen) => .text bomEncoding (bytes.drop bomLen)
  | none => .text encoding bytes

/-- `write_scalar_string_to`. -/
def writeScalarStringTo (defaultEncoding : PerfTextEncoding) : TextLeaf :=
  let format := value.metadata.format
  if format = FieldFormat.hexBytes then .hexbytes value.bytes
  else if format = FieldFormat.string8 then .text .latin1 value.bytes
  else if format = FieldFormat.stringUtfBom ∨ format = FieldFormat.stringXml ∨
      format = FieldFormat.stringJson then plainTextWithBom value.bytes defaultEncoding
  else .text defaultEncoding value.bytes

/-- The branch of `write_scalar_to` for counted bytes and Latin-1 or UTF-8 strings. -/
def writeChar8To : TextLeaf :=
  let bytes := value.bytes
  let unsigned := value.metadata.byteReader.ofBytes bytes
  let format := value.metadata.format
  let sized (sizes : List ℕ) (leaf : TextLeaf) : TextLeaf :=
    if bytes.length = 0 then .null
    else if bytes.length ∈ sizes then leaf
    else value.writeChar8DefaultTo
  if format = FieldFormat.unsignedInt then sized [1, 2, 4, 8] (.display unsigned)
  else if format = FieldFormat.signedInt then
    sized [1, 2, 4, 8] (.display (toSigned bytes.length unsigned))
  else if format = FieldFormat.hexInt then sized [1, 2, 4, 8] (.hex unsigned)
  else if format = FieldFormat.errno then sized [4] (.errno unsigned)
  else if format = FieldFormat.pid then sized [4] (.display (toSigned 4 unsigned))
  else if format = FieldFormat.time then
    sized [4, 8] (.time64 (toSigned bytes.length unsigned))
  else if format = FieldFormat.boolean then sized [1, 2, 4] (.bool unsigned)
  else if format = FieldFormat.float then
    sized [4, 8] (if bytes.length = 8 then .float64 unsigned else .float32 unsigned)
  else if format = FieldFormat.hexBytes then .hexbytes bytes
  else if format = FieldFormat.string8 then .text .latin1 bytes
  else if format = FieldFormat.stringUtf then .text .utf8 bytes
  else if format = FieldFormat.stringUtfBom ∨ format = FieldFormat.stringXml ∨
      format = FieldFormat.stringJson then plainTextWithBom bytes .utf8
  else if format = FieldFormat.uuid then sized [16] (.uuid bytes)
  else if format = FieldFormat.port then sized [2] (.display (ByteOrder.big.ofBytes bytes))
  else if format = FieldFormat.ipAddress ∨ format = FieldFormat.ipAddressObsolete then
    sized [4, 16] (if bytes.length = 16 then .ipv6 bytes else .ipv4 bytes)
  else value.writeChar8DefaultTo

/-- `write_scalar_to`. -/
def writeScalarTo : Exec TextLeaf := do
  debugAssert build (value.metadata.typeSize ≤ value.bytes.length)
  let encoding := value.metadata.encoding
  if encoding = FieldEncoding.invalid then .ok .null
  else if encoding = FieldEncoding.struct then .ok (.structCount value.metadata.format.toNat)
  else if encoding = FieldEncoding.value8 then value.writeValue8To build 0
  else if encoding = FieldEncoding.value16 then value.writeValue16To build 0
  else if encoding = FieldEncoding.value32 then value.writeValue32To build 0
  else if encoding = FieldEncoding.value64 then value.writeValue64To build 0
  else if encoding = FieldEncoding.value128 then value.writeValue128To build 0
  else if encoding = FieldEncoding.zStringChar8 then .ok (value.writeScalarStringTo .utf8)
  else if encoding = FieldEncoding.zStringChar16 ∨
      encoding = FieldEncoding.stringLength16Char16 then
    .ok (value.writeScalarStringTo (.utf16 value.metadata.byteReader))
  else if encoding = FieldEncoding.zStringChar32 ∨
      encoding = FieldEncoding.stringLength16Char32 then
    .ok (value.writeScalarStringTo (.utf32 value.metadata.byteReader))
  else if encoding = FieldEncoding.binaryLength16Char8 ∨
      encoding = FieldEncoding.stringLength16Char8 then .ok value.writeChar8To
  else .ok (.encodingName encoding)

/-- The text of a scalar. -/
def scalarText (platform : Platform) (options : PerfConvertOptions) : Exec (List UInt8) := do
  (← value.writeScalarTo build).write build platform options

/-- The JSON text of a scalar. -/
def jsonScalarText (platform : Platform) (options : PerfConvertOptions) : Exec (List UInt8) := do
  (← value.writeJsonScalarTo build).write build platform options

end PerfItemValue

/-! ### Counted values and plain values -/

/-- The formats of fixed size, each with the sizes that are appropriate for it. -/
def fixedFormats : List (FieldFormat × List ℕ) :=
  [(FieldFormat.unsignedInt, [1, 2, 4, 8]), (FieldFormat.signedInt, [1, 2, 4, 8]),
    (FieldFormat.hexInt, [1, 2, 4, 8]), (FieldFormat.errno, [4]), (FieldFormat.pid, [4]),
    (FieldFormat.time, [4, 8]), (FieldFormat.boolean, [1, 2, 4]), (FieldFormat.float, [4, 8]),
    (FieldFormat.uuid, [16]), (FieldFormat.port, [2]), (FieldFormat.ipAddress, [4, 16]),
    (FieldFormat.ipAddressObsolete, [4, 16])]

/-- The encoding of a plain value of a size. -/
def plainEncoding (size : ℕ) : FieldEncoding :=
  if size = 1 then FieldEncoding.value8
  else if size = 2 then FieldEncoding.value16
  else if size = 4 then FieldEncoding.value32
  else if size = 8 then FieldEncoding.value64
  else FieldEncoding.value128

namespace PerfItemValue

/-- An item with another format. -/
def withFormat (value : PerfItemValue) (format : FieldFormat) : PerfItemValue :=
  { value with metadata := { value.metadata with format := format } }

/-- An item is the plain value of the bytes and the format of a counted one. -/
structure IsPlainOf (counted plain : PerfItemValue) : Prop where
  bytes_eq : plain.bytes = counted.bytes
  format_eq : plain.metadata.format = counted.metadata.format
  byteReader_eq : plain.metadata.byteReader = counted.metadata.byteReader
  encoding_eq : plain.metadata.encoding = plainEncoding counted.bytes.length
  typeSize_le : plain.metadata.typeSize ≤ plain.bytes.length

/-- Two items have the same text and the same JSON text. -/
def SameTexts (build : Build) (platform : Platform) (options : PerfConvertOptions)
    (first second : PerfItemValue) : Prop :=
  first.scalarText build platform options = second.scalarText build platform options ∧
    first.jsonScalarText build platform options = second.jsonScalarText build platform options

/-- A counted value is formatted like the plain value of its size, as `null` without bytes, and in
the default format for another size; the obsolete format of addresses is like the other. -/
structure LikePlain (build : Build) (platform : Platform) (options : PerfConvertOptions)
    (sizes : List ℕ) (counted : PerfItemValue) : Prop where
  sized : counted.bytes.length ∈ sizes →
    ∀ plain, IsPlainOf counted plain → SameTexts build platform options counted plain
  empty : counted.bytes.length = 0 →
    counted.scalarText build platform options = .ok (ascii "null") ∧
      counted.jsonScalarText build platform options = .ok (ascii "null")
  other : counted.bytes.length ≠ 0 → counted.bytes.length ∉ sizes →
    SameTexts build platform options counted (counted.withFormat FieldFormat.default)
  obsolete : counted.metadata.format = FieldFormat.ipAddressObsolete →
    SameTexts build platform options counted (counted.withFormat FieldFormat.ipAddress) ∧
      (counted.bytes.length ∈ sizes → ∀ plain, IsPlainOf counted plain →
        SameTexts build platform options plain (plain.withFormat FieldFormat.ipAddress))

/-- The two tables of the source agree on the size and the format. -/
structure TablesAgree (options : PerfConvertOptions) (counted : PerfItemValue) : Prop where
  hexInt : ¬(counted.metadata.format = FieldFormat.hexInt ∧ counted.bytes.length = 4 ∧
    options.hasFlag .intHexAsString = false)
  ipAddress : ¬(counted.metadata.format = FieldFormat.ipAddress ∧ counted.bytes.length = 16)
  obsolete : ¬(counted.metadata.format = FieldFormat.ipAddressObsolete ∧
    (counted.bytes.length = 4 ∨ counted.bytes.length = 16))

section Plain

variable {build : Build} {value : PerfItemValue}

/-- The only element of an item is its bytes. -/
theorem element_zero {size : ℕ} (hpos : 0 < size) (h : value.bytes.length = size) :
    value.element build size 0 = .ok value.bytes := by
  unfold element
  rw [debugAssert_of (by rw [h, Nat.div_self hpos]; exact Nat.one_pos), ok_bind, Nat.zero_mul,
    Nat.zero_add, slice_of_le (Nat.zero_le _) (by omega), List.drop_zero, Nat.sub_zero,
    List.take_of_length_le (by omega)]

/-- A counted item is written by the branch for counted bytes. -/
theorem writeScalarTo_counted (htypeSize : value.metadata.typeSize ≤ value.bytes.length)
    (hencoding : value.metadata.encoding = FieldEncoding.binaryLength16Char8 ∨
      value.metadata.encoding = FieldEncoding.stringLength16Char8) :
    value.writeScalarTo build = .ok value.writeChar8To ∧
      value.writeJsonScalarTo build = .ok value.writeJsonChar8To := by
  unfold writeScalarTo writeJsonScalarTo
  rw [debugAssert_of htypeSize, ok_bind, ok_bind]
  rcases hencoding with hencoding | hencoding <;> rw [hencoding] <;> exact ⟨rfl, rfl⟩

/-- A plain item of a size is written as its only element. -/
theorem writeScalarTo_plain (htypeSize : value.metadata.typeSize ≤ value.bytes.length) :
    (value.metadata.encoding = FieldEncoding.value8 →
      value.writeScalarTo build = value.writeValue8To build 0 ∧
        value.writeJsonScalarTo build = value.writeJsonValue8To build 0) ∧
    (value.metadata.encoding = FieldEncoding.value16 →
      value.writeScalarTo build = value.writeValue16To build 0 ∧
        value.writeJsonScalarTo build = value.writeJsonValue16To build 0) ∧
    (value.metadata.encoding = FieldEncoding.value32 →
      value.writeScalarTo build = value.writeValue32To build 0 ∧
        value.writeJsonScalarTo build = value.writeJsonValue32To build 0) ∧
    (value.metadata.encoding = FieldEncoding.value64 →
      value.writeScalarTo build = value.writeValue64To build 0 ∧
        value.writeJsonScalarTo build = value.writeJsonValue64To build 0) ∧
    (value.metadata.encoding = FieldEncoding.value128 →
      value.writeScalarTo build = value.writeValue128To build 0 ∧
        value.writeJsonScalarTo build = value.writeJsonValue128To build 0) := by
  unfold writeScalarTo writeJsonScalarTo
  rw [debugAssert_of htypeSize, ok_bind, ok_bind]
  refine ⟨?_, ?_, ?_, ?_, ?_⟩ <;> intro hencoding <;> rw [hencoding] <;> exact ⟨rfl, rfl⟩

section Cells

variable {platform : Platform} {options : PerfConvertOptions} {plain : PerfItemValue}

/-- The calls of a plain item, by its size, as calls of the counted one. -/
theorem IsPlainOf.leaves (h : IsPlainOf value plain) :
    (value.bytes.length = 1 → plain.writeScalarTo build = value.writeValue8To build 0 ∧
      plain.writeJsonScalarTo build = value.writeJsonValue8To build 0) ∧
    (value.bytes.length = 2 → plain.writeScalarTo build = value.writeValue16To build 0 ∧
      plain.writeJsonScalarTo build = value.writeJsonValue16To build 0) ∧
    (value.bytes.length = 4 → plain.writeScalarTo build = value.writeValue32To build 0 ∧
      plain.writeJsonScalarTo build = value.writeJsonValue32To build 0) ∧
    (value.bytes.length = 8 → plain.writeScalarTo build = value.writeValue64To build 0 ∧
      plain.writeJsonScalarTo build = value.writeJsonValue64To build 0) ∧
    (value.bytes.length = 16 → plain.writeScalarTo build = value.writeValue128To build 0 ∧
      plain.writeJsonScalarTo build = value.writeJsonValue128To build 0) := by
  have hplain := @writeScalarTo_plain build plain h.typeSize_le
  have hencoding := h.encoding_eq
  have helement (size index : ℕ) : plain.element build size index = value.element build size index := by
    unfold element
    rw [h.bytes_eq]
  refine ⟨fun hsize ↦ ?_, fun hsize ↦ ?_, fun hsize ↦ ?_, fun hsize ↦ ?_, fun hsize ↦ ?_⟩
  · rw [hsize] at hencoding
    rw [(hplain.1 hencoding).1, (hplain.1 hencoding).2]
    unfold writeValue8To writeJsonValue8To
    rw [helement, h.format_eq, h.byteReader_eq]
    exact ⟨rfl, rfl⟩
  · rw [hsize] at hencoding
    rw [(hplain.2.1 hencoding).1, (hplain.2.1 hencoding).2]
    unfold writeValue16To writeJsonValue16To
    rw [helement, h.format_eq, h.byteReader_eq]
    exact ⟨rfl, rfl⟩
  · rw [hsize] at hencoding
    rw [(hplain.2.2.1 hencoding).1, (hplain.2.2.1 hencoding).2]
    unfold writeValue32To writeJsonValue32To
    rw [helement, h.format_eq, h.byteReader_eq]
    exact ⟨rfl, rfl⟩
  · rw [hsize] at hencoding
    rw [(hplain.2.2.2.1 hencoding).1, (hplain.2.2.2.1 hencoding).2]
    unfold writeValue64To writeJsonValue64To
    rw [helement, h.format_eq, h.byteReader_eq]
    exact ⟨rfl, rfl⟩
  · rw [hsize] at hencoding
    rw [(hplain.2.2.2.2 hencoding).1, (hplain.2.2.2.2 hencoding).2]
    unfold writeValue128To writeJsonValue128To
    rw [helement, h.format_eq]
    exact ⟨rfl, rfl⟩

/-- Values of one byte: the two tables have the same calls. -/
theorem leaves_one (hsize : value.bytes.length = 1)
    (hformat : value.metadata.format ∈ [FieldFormat.unsignedInt, FieldFormat.signedInt,
      FieldFormat.hexInt, FieldFormat.boolean]) :
    value.writeValue8To build 0 = .ok value.writeChar8To ∧
      value.writeJsonValue8To build 0 = .ok value.writeJsonChar8To := by
  unfold writeValue8To writeJsonValue8To writeChar8To writeJsonChar8To
  rw [element_zero Nat.one_pos hsize, ok_bind, ok_bind]
  simp only [List.mem_cons, List.not_mem_nil, or_false] at hformat
  rcases hformat with hformat | hformat | hformat | hformat <;> rw [hformat] <;>
    simp +decide [hsize]

/-- Values of two bytes. -/
theorem leaves_two (hsize : value.bytes.length = 2)
    (hformat : value.metadata.format ∈ [FieldFormat.unsignedInt, FieldFormat.signedInt,
      FieldFormat.hexInt, FieldFormat.boolean, FieldFormat.port]) :
    value.writeValue16To build 0 = .ok value.writeChar8To ∧
      value.writeJsonValue16To build 0 = .ok value.writeJsonChar8To := by
  unfold writeValue16To writeJsonValue16To writeChar8To writeJsonChar8To
  rw [element_zero Nat.two_pos hsize, ok_bind, ok_bind]
  simp only [List.mem_cons, List.not_mem_nil, or_false] at hformat
  rcases hformat with hformat | hformat | hformat | hformat | hformat <;> rw [hformat] <;>
    simp +decide [hsize]

/-- Values of four bytes, but for hexadecimal integers. -/
theorem leaves_four (hsize : value.bytes.length = 4)
    (hformat : value.metadata.format ∈ [FieldFormat.unsignedInt, FieldFormat.signedInt,
      FieldFormat.errno, FieldFormat.pid, FieldFormat.time, FieldFormat.boolean, FieldFormat.float,
      FieldFormat.ipAddress]) :
    value.writeValue32To build 0 = .ok value.writeChar8To ∧
      value.writeJsonValue32To build 0 = .ok value.writeJsonChar8To := by
  unfold writeValue32To writeJsonValue32To writeChar8To writeJsonChar8To
  rw [element_zero (Nat.succ_pos 3) hsize, ok_bind, ok_bind]
  simp only [List.mem_cons, List.not_mem_nil, or_false] at hformat
  rcases hformat with hformat | hformat | hformat | hformat | hformat | hformat | hformat | hformat
    <;> rw [hformat] <;> simp +decide [hsize]

/-- A hexadecimal integer of four bytes: as JSON, the plain value is quoted in any case. -/
theorem leaves_hexInt (hsize : value.bytes.length = 4)
    (hformat : value.metadata.format = FieldFormat.hexInt) :
    value.writeValue32To build 0 = .ok value.writeChar8To ∧
      value.writeJsonValue32To build 0 =
        .ok (.quotedHex32 (value.metadata.byteReader.ofBytes value.bytes)) ∧
      value.writeJsonChar8To = .jsonHex32 (value.metadata.byteReader.ofBytes value.bytes) := by
  unfold writeValue32To writeJsonValue32To writeChar8To writeJsonChar8To
  rw [element_zero (Nat.succ_pos 3) hsize, ok_bind, ok_bind, hformat]
  simp +decide [hsize]

/-- Values of eight bytes. -/
theorem leaves_eight (hsize : value.bytes.length = 8)
    (hformat : value.metadata.format ∈ [FieldFormat.unsignedInt, FieldFormat.signedInt,
      FieldFormat.hexInt, FieldFormat.time, FieldFormat.float]) :
    value.writeValue64To build 0 = .ok value.writeChar8To ∧
      value.writeJsonValue64To build 0 = .ok value.writeJsonChar8To := by
  unfold writeValue64To writeJsonValue64To writeChar8To writeJsonChar8To
  rw [element_zero (Nat.succ_pos 7) hsize, ok_bind, ok_bind]
  simp only [List.mem_cons, List.not_mem_nil, or_false] at hformat
  rcases hformat with hformat | hformat | hformat | hformat | hformat <;> rw [hformat] <;>
    simp +decide [hsize]

/-- A UUID. -/
theorem leaves_uuid (hsize : value.bytes.length = 16)
    (hformat : value.metadata.format = FieldFormat.uuid) :
    value.writeValue128To build 0 = .ok value.writeChar8To ∧
      value.writeJsonValue128To build 0 = .ok value.writeJsonChar8To := by
  unfold writeValue128To writeJsonValue128To writeChar8To writeJsonChar8To
  rw [element_zero (Nat.succ_pos 15) hsize, ok_bind, ok_bind, hformat]
  simp +decide [hsize]

/-- The sizes of plain values. -/
theorem mem_sizes : ∀ cell ∈ fixedFormats, ∀ size ∈ cell.2, size ∈ [1, 2, 4, 8, 16] := by decide

theorem mem_formats_one : ∀ cell ∈ fixedFormats, 1 ∈ cell.2 →
    cell.1 ∈ [FieldFormat.unsignedInt, FieldFormat.signedInt, FieldFormat.hexInt,
      FieldFormat.boolean] := by decide

theorem mem_formats_two : ∀ cell ∈ fixedFormats, 2 ∈ cell.2 →
    cell.1 ∈ [FieldFormat.unsignedInt, FieldFormat.signedInt, FieldFormat.hexInt,
      FieldFormat.boolean, FieldFormat.port] := by decide

theorem mem_formats_four : ∀ cell ∈ fixedFormats, 4 ∈ cell.2 →
    cell.1 = FieldFormat.hexInt ∨ cell.1 = FieldFormat.ipAddressObsolete ∨
      cell.1 ∈ [FieldFormat.unsignedInt, FieldFormat.signedInt, FieldFormat.errno, FieldFormat.pid,
        FieldFormat.time, FieldFormat.boolean, FieldFormat.float, FieldFormat.ipAddress] := by decide

theorem mem_formats_eight : ∀ cell ∈ fixedFormats, 8 ∈ cell.2 →
    cell.1 ∈ [FieldFormat.unsignedInt, FieldFormat.signedInt, FieldFormat.hexInt,
      FieldFormat.time, FieldFormat.float] := by decide

theorem mem_formats_sixteen : ∀ cell ∈ fixedFormats, 16 ∈ cell.2 →
    cell.1 = FieldFormat.uuid ∨ cell.1 = FieldFormat.ipAddress ∨
      cell.1 = FieldFormat.ipAddressObsolete := by decide

theorem zero_notMem_sizes : ∀ cell ∈ fixedFormats, 0 ∉ cell.2 := by decide

theorem mem_sizes_hexInt : ∀ cell ∈ fixedFormats, cell.1 = FieldFormat.hexInt → 4 ∈ cell.2 := by
  decide

theorem mem_sizes_address : ∀ cell ∈ fixedFormats,
    cell.1 = FieldFormat.ipAddress ∨ cell.1 = FieldFormat.ipAddressObsolete →
      4 ∈ cell.2 ∧ 16 ∈ cell.2 := by decide

theorem mem_sizes_obsolete : ∀ cell ∈ fixedFormats, cell.1 = FieldFormat.ipAddressObsolete →
    ∀ size ∈ cell.2, size = 4 ∨ size = 16 := by decide

/-- A plain address of sixteen bytes is written as bytes. -/
theorem writeValue128To_ipAddress (hsize : value.bytes.length = 16)
    (hformat : value.metadata.format = FieldFormat.ipAddress) :
    value.writeValue128To build 0 = .ok (.hexbytes value.bytes) := by
  unfold writeValue128To
  rw [hformat, element_zero (Nat.succ_pos 15) hsize, ok_bind]
  rfl

theorem sameTexts_of_leaves {first second : PerfItemValue}
    (htext : first.writeScalarTo build = second.writeScalarTo build)
    (hjson : first.writeJsonScalarTo build = second.writeJsonScalarTo build) :
    SameTexts build platform options first second := by
  unfold SameTexts scalarText jsonScalarText
  rw [htext, hjson]
  exact ⟨rfl, rfl⟩

/-- A counted value of a format of fixed size that has another size. -/
theorem leaves_other {sizes : List ℕ} (hformat : (value.metadata.format, sizes) ∈ fixedFormats)
    (hsizes : value.bytes.length ∉ sizes) :
    value.writeChar8To =
        (if value.bytes.length = 0 then .null else value.writeChar8DefaultTo) ∧
      value.writeJsonChar8To =
        (if value.bytes.length = 0 then .null else value.writeJsonChar8DefaultTo) := by
  simp only [fixedFormats, List.mem_cons, Prod.mk.injEq, List.not_mem_nil, or_false] at hformat
  unfold writeChar8To writeJsonChar8To
  rcases hformat with ⟨hformat, rfl⟩ | ⟨hformat, rfl⟩ | ⟨hformat, rfl⟩ | ⟨hformat, rfl⟩ |
    ⟨hformat, rfl⟩ | ⟨hformat, rfl⟩ | ⟨hformat, rfl⟩ | ⟨hformat, rfl⟩ | ⟨hformat, rfl⟩ |
    ⟨hformat, rfl⟩ | ⟨hformat, rfl⟩ | ⟨hformat, rfl⟩ <;> rw [hformat] <;>
    simp +decide only [hsizes, ↓reduceIte, and_self]

/-- In the default format, a counted value is written as bytes or as UTF-8. -/
theorem leaves_default :
    (value.withFormat FieldFormat.default).writeChar8To = value.writeChar8DefaultTo ∧
      (value.withFormat FieldFormat.default).writeJsonChar8To = value.writeJsonChar8DefaultTo :=
  ⟨rfl, rfl⟩

/-- In the branch for counted bytes, the two formats of addresses are one. -/
theorem leaves_obsolete (hformat : value.metadata.format = FieldFormat.ipAddressObsolete) :
    (value.withFormat FieldFormat.ipAddress).writeChar8To = value.writeChar8To ∧
      (value.withFormat FieldFormat.ipAddress).writeJsonChar8To = value.writeJsonChar8To := by
  unfold writeChar8To writeJsonChar8To
  rw [hformat]
  exact ⟨rfl, rfl⟩

/-- Where the tables agree, a counted value of an appropriate size is written like the plain one. -/
theorem sameTexts_of_agree (htypeSize : value.metadata.typeSize ≤ value.bytes.length)
    (hencoding : value.metadata.encoding = FieldEncoding.binaryLength16Char8 ∨
      value.metadata.encoding = FieldEncoding.stringLength16Char8)
    {sizes : List ℕ} (hformat : (value.metadata.format, sizes) ∈ fixedFormats)
    (hsizes : value.bytes.length ∈ sizes) (hagree : TablesAgree options value)
    (hplain : IsPlainOf value plain) : SameTexts build platform options value plain := by
  obtain ⟨hcounted, hcountedJson⟩ := @writeScalarTo_counted build value htypeSize hencoding
  obtain ⟨hone, htwo, hfour, height, hsixteen⟩ := @IsPlainOf.leaves build value plain hplain
  by_cases hexInt : value.metadata.format = FieldFormat.hexInt ∧ value.bytes.length = 4
  · -- With the option set, `write_json_hex32` quotes the number as the plain value does.
    obtain ⟨hformat, hsize⟩ := hexInt
    obtain ⟨htext, hjson, hleaf⟩ := @leaves_hexInt build value hsize hformat
    have hflag : options.hasFlag .intHexAsString = true := by
      rw [← Bool.not_eq_false]
      exact fun hflag ↦ hagree.hexInt ⟨hformat, hsize, hflag⟩
    unfold SameTexts scalarText jsonScalarText
    rw [hcounted, hcountedJson, (hfour hsize).1, (hfour hsize).2, htext, hjson, hleaf]
    refine ⟨rfl, ?_⟩
    rw [ok_bind, ok_bind, JsonLeaf.write, JsonLeaf.write, ValueWriter.writeJsonHex, if_pos hflag]
  · -- In every other cell the two tables have the same calls.
    have hcell {text : Exec TextLeaf} {json : Exec JsonLeaf}
        (hcalls : plain.writeScalarTo build = text ∧ plain.writeJsonScalarTo build = json)
        (heq : text = .ok value.writeChar8To ∧ json = .ok value.writeJsonChar8To) :
        SameTexts build platform options value plain := by
      apply sameTexts_of_leaves
      · rw [hcounted, hcalls.1, heq.1]
      · rw [hcountedJson, hcalls.2, heq.2]
    have hsize := mem_sizes _ hformat _ hsizes
    simp only [List.mem_cons, List.not_mem_nil, or_false] at hsize
    rcases hsize with hsize | hsize | hsize | hsize | hsize <;> rw [hsize] at hsizes
    · exact hcell (hone hsize) (leaves_one hsize (mem_formats_one _ hformat hsizes))
    · exact hcell (htwo hsize) (leaves_two hsize (mem_formats_two _ hformat hsizes))
    · rcases mem_formats_four _ hformat hsizes with hhex | hobsolete | hformat
      · exact absurd ⟨hhex, hsize⟩ hexInt
      · exact absurd ⟨hobsolete, .inl hsize⟩ hagree.obsolete
      · exact hcell (hfour hsize) (leaves_four hsize hformat)
    · exact hcell (height hsize) (leaves_eight hsize (mem_formats_eight _ hformat hsizes))
    · rcases mem_formats_sixteen _ hformat hsizes with huuid | haddress | hobsolete
      · exact hcell (hsixteen hsize) (leaves_uuid hsize huuid)
      · exact absurd ⟨haddress, hsize⟩ hagree.ipAddress
      · exact absurd ⟨hobsolete, .inr hsize⟩ hagree.obsolete

end Cells

/-! ### Where the tables disagree -/

/-- A counted item as the plain value of its size. -/
def toPlain (value : PerfItemValue) : PerfItemValue :=
  { value with
    metadata := { value.metadata with
      encodingAndArrayFlagAndIsScalar := plainEncoding value.bytes.length } }

theorem isPlainOf_toPlain (htypeSize : value.metadata.typeSize ≤ value.bytes.length) :
    IsPlainOf value value.toPlain := by
  constructor
  · rfl
  · rfl
  · rfl
  · unfold toPlain plainEncoding PerfItemMetadata.encoding
    dsimp only
    split_ifs <;> decide
  · exact htypeSize

section Disagreement

variable {platform : Platform} {options : PerfConvertOptions}

open ValueWriter

/-- A number in quotation marks is not one without. -/
theorem decimal_ne_quoted {number : ℕ} {text : List UInt8} : decimal number ≠ quoted text := by
  intro heq
  have hquote : 0x22 ∈ decimal number := by
    rw [heq]
    exact List.mem_cons_self
  exact absurd (mem_decimal _ hquote) (by decide)

/-- Bytes in base 16 have a space between them, an IPv6 address has none. -/
theorem writeIpv6_ne_hexbytes {bytes : List UInt8} (hlength : 2 ≤ bytes.length) :
    writeIpv6 platform bytes ≠ writeHexbytes bytes := by
  intro heq
  have hspace : 0x20 ∈ writeIpv6 platform bytes := by
    rw [heq]
    apply mem_intercalate
    · exact List.mem_singleton_self _
    · rwa [List.length_map]
  exact absurd (mem_writeIpv6 _ hspace) (by decide)

/-- An IPv4 address has a point, a number has none. -/
theorem writeIpv4_ne_decimal {bytes : List UInt8} {number : ℕ} (hlength : 2 ≤ bytes.length) :
    writeIpv4 bytes ≠ displayInt number := by
  intro heq
  have hpoint : 0x2E ∈ writeIpv4 bytes := by
    apply mem_intercalate
    · exact List.mem_singleton_self _
    · rwa [List.length_map]
  have hdigits : displayInt number = decimal number := by
    unfold displayInt
    rw [if_neg (by omega), Int.natAbs_natCast]
  rw [heq, hdigits] at hpoint
  exact absurd (mem_decimal _ hpoint) (by decide)

/-- A hexadecimal integer of four bytes, where integers are not to be quoted. -/
theorem not_sameTexts_hexInt (htypeSize : value.metadata.typeSize ≤ value.bytes.length)
    (hencoding : value.metadata.encoding = FieldEncoding.binaryLength16Char8 ∨
      value.metadata.encoding = FieldEncoding.stringLength16Char8)
    (hformat : value.metadata.format = FieldFormat.hexInt) (hsize : value.bytes.length = 4)
    (hflag : options.hasFlag .intHexAsString = false) :
    ¬SameTexts build platform options value value.toPlain := by
  intro hsame
  obtain ⟨-, hcounted⟩ := @writeScalarTo_counted build value htypeSize hencoding
  obtain ⟨-, -, hfour, -, -⟩ := @IsPlainOf.leaves build _ _ (isPlainOf_toPlain htypeSize)
  obtain ⟨-, hjson, hleaf⟩ := @leaves_hexInt build value hsize hformat
  have htext := hsame.2
  unfold jsonScalarText at htext
  rw [hcounted, (hfour hsize).2, hjson, hleaf, ok_bind, ok_bind, JsonLeaf.write, JsonLeaf.write,
    writeJsonHex, hflag] at htext
  exact decimal_ne_quoted (Except.ok.inj htext)

/-- An address of sixteen bytes: the plain value is written as bytes. -/
theorem not_sameTexts_ipAddress (htypeSize : value.metadata.typeSize ≤ value.bytes.length)
    (hencoding : value.metadata.encoding = FieldEncoding.binaryLength16Char8 ∨
      value.metadata.encoding = FieldEncoding.stringLength16Char8)
    (hformat : value.metadata.format = FieldFormat.ipAddress) (hsize : value.bytes.length = 16) :
    ¬SameTexts build platform options value value.toPlain := by
  intro hsame
  obtain ⟨hcounted, -⟩ := @writeScalarTo_counted build value htypeSize hencoding
  obtain ⟨-, -, -, -, hsixteen⟩ := @IsPlainOf.leaves build _ _ (isPlainOf_toPlain htypeSize)
  have hleaf : value.writeChar8To = .ipv6 value.bytes := by
    unfold writeChar8To
    rw [hformat]
    simp +decide [hsize]
  have htext := hsame.1
  unfold scalarText at htext
  rw [hcounted, (hsixteen hsize).1, hleaf, writeValue128To_ipAddress hsize hformat, ok_bind, ok_bind,
    TextLeaf.write, TextLeaf.write] at htext
  exact writeIpv6_ne_hexbytes (by omega) (Except.ok.inj htext)

/-- The obsolete format of an address of four bytes: the plain value is written as a number. -/
theorem not_sameTexts_obsolete_four (htypeSize : value.metadata.typeSize ≤ value.bytes.length)
    (hencoding : value.metadata.encoding = FieldEncoding.binaryLength16Char8 ∨
      value.metadata.encoding = FieldEncoding.stringLength16Char8)
    (hformat : value.metadata.format = FieldFormat.ipAddressObsolete)
    (hsize : value.bytes.length = 4) : ¬SameTexts build platform options value value.toPlain := by
  intro hsame
  obtain ⟨hcounted, -⟩ := @writeScalarTo_counted build value htypeSize hencoding
  obtain ⟨-, -, hfour, -, -⟩ := @IsPlainOf.leaves build _ _ (isPlainOf_toPlain htypeSize)
  have hleaf : value.writeChar8To = .ipv4 value.bytes ∧ value.writeValue32To build 0 =
      .ok (.display (value.metadata.byteReader.ofBytes value.bytes)) := by
    unfold writeChar8To writeValue32To
    rw [hformat, element_zero (Nat.succ_pos 3) hsize, ok_bind]
    simp +decide [hsize]
  have htext := hsame.1
  unfold scalarText at htext
  rw [hcounted, (hfour hsize).1, hleaf.1, hleaf.2, ok_bind, ok_bind, TextLeaf.write,
    TextLeaf.write] at htext
  exact writeIpv4_ne_decimal (by omega) (Except.ok.inj htext)

/-- The obsolete format of an address of sixteen bytes: in the other format, the plain value is
written as bytes. -/
theorem not_sameTexts_obsolete_sixteen (htypeSize : value.metadata.typeSize ≤ value.bytes.length)
    (hformat : value.metadata.format = FieldFormat.ipAddressObsolete)
    (hsize : value.bytes.length = 16) :
    ¬SameTexts build platform options value.toPlain
      (value.toPlain.withFormat FieldFormat.ipAddress) := by
  intro hsame
  obtain ⟨-, -, -, -, hplain⟩ := @IsPlainOf.leaves build _ _ (isPlainOf_toPlain htypeSize)
  obtain ⟨-, -, -, -, hother⟩ := @IsPlainOf.leaves build _ _
    (@isPlainOf_toPlain (value.withFormat FieldFormat.ipAddress) htypeSize)
  have hleaf : value.writeValue128To build 0 = .ok (.ipv6 value.bytes) := by
    unfold writeValue128To
    rw [hformat, element_zero (Nat.succ_pos 15) hsize, ok_bind]
    rfl
  have hbytes := @writeValue128To_ipAddress build (value.withFormat FieldFormat.ipAddress) hsize rfl
  have htext := hsame.1
  change _ = (value.withFormat FieldFormat.ipAddress).toPlain.scalarText build platform options
    at htext
  unfold scalarText at htext
  rw [(hplain hsize).1, hleaf, (hother hsize).1, hbytes, ok_bind, ok_bind, TextLeaf.write,
    TextLeaf.write] at htext
  exact writeIpv6_ne_hexbytes (by omega) (Except.ok.inj htext)

end Disagreement

/-- Where the tables agree, a counted value is formatted as documented. -/
theorem likePlain_of_agree (htypeSize : value.metadata.typeSize ≤ value.bytes.length)
    (hencoding : value.metadata.encoding = FieldEncoding.binaryLength16Char8 ∨
      value.metadata.encoding = FieldEncoding.stringLength16Char8)
    {sizes : List ℕ} (hformat : (value.metadata.format, sizes) ∈ fixedFormats)
    {platform : Platform} {options : PerfConvertOptions} (hagree : TablesAgree options value) :
    LikePlain build platform options sizes value := by
  obtain ⟨hcounted, hcountedJson⟩ := @writeScalarTo_counted build value htypeSize hencoding
  constructor
  · exact fun hsizes plain hplain ↦
      sameTexts_of_agree htypeSize hencoding hformat hsizes hagree hplain
  · intro hempty
    have hsizes : value.bytes.length ∉ sizes := by
      rw [hempty]
      exact zero_notMem_sizes _ hformat
    obtain ⟨htext, hjson⟩ := leaves_other hformat hsizes
    unfold scalarText jsonScalarText
    rw [hcounted, hcountedJson, htext, hjson, if_pos hempty, if_pos hempty]
    exact ⟨rfl, rfl⟩
  · intro hpos hsizes
    obtain ⟨htext, hjson⟩ := leaves_other hformat hsizes
    obtain ⟨hother, hotherJson⟩ :=
      @writeScalarTo_counted build (value.withFormat FieldFormat.default) htypeSize hencoding
    apply sameTexts_of_leaves
    · rw [hcounted, hother, htext, if_neg hpos, leaves_default.1]
    · rw [hcountedJson, hotherJson, hjson, if_neg hpos, leaves_default.2]
  · intro hobsolete
    obtain ⟨hother, hotherJson⟩ :=
      @writeScalarTo_counted build (value.withFormat FieldFormat.ipAddress) htypeSize hencoding
    constructor
    · apply sameTexts_of_leaves
      · rw [hcounted, hother, (leaves_obsolete hobsolete).1]
      · rw [hcountedJson, hotherJson, (leaves_obsolete hobsolete).2]
    · -- The obsolete format has no other sizes than those on which the tables disagree.
      intro hsizes
      have hsize := mem_sizes_obsolete _ hformat hobsolete _ hsizes
      exact absurd ⟨hobsolete, hsize⟩ hagree.obsolete

/-- A counted value is formatted as documented exactly where the two tables of the source agree. -/
theorem likePlain_iff (build : Build) (platform : Platform) (options : PerfConvertOptions)
    (counted : PerfItemValue) (sizes : List ℕ)
    (htypeSize : counted.metadata.typeSize ≤ counted.bytes.length)
    (hencoding : counted.metadata.encoding = FieldEncoding.binaryLength16Char8 ∨
      counted.metadata.encoding = FieldEncoding.stringLength16Char8)
    (hformat : (counted.metadata.format, sizes) ∈ fixedFormats) :
    LikePlain build platform options sizes counted ↔ TablesAgree options counted := by
  constructor
  · intro hlike
    have hplain := isPlainOf_toPlain htypeSize
    constructor
    · rintro ⟨hhex, hsize, hflag⟩
      have hsizes := mem_sizes_hexInt _ hformat hhex
      exact not_sameTexts_hexInt htypeSize hencoding hhex hsize hflag
        (hlike.sized (hsize ▸ hsizes) _ hplain)
    · rintro ⟨haddress, hsize⟩
      have hsizes := mem_sizes_address _ hformat (.inl haddress)
      exact not_sameTexts_ipAddress htypeSize hencoding haddress hsize
        (hlike.sized (hsize ▸ hsizes.2) _ hplain)
    · rintro ⟨hobsolete, hsize | hsize⟩
      · have hsizes := mem_sizes_address _ hformat (.inr hobsolete)
        exact not_sameTexts_obsolete_four htypeSize hencoding hobsolete hsize
          (hlike.sized (hsize ▸ hsizes.1) _ hplain)
      · have hsizes := mem_sizes_address _ hformat (.inr hobsolete)
        exact not_sameTexts_obsolete_sixteen htypeSize hobsolete hsize
          ((hlike.obsolete hobsolete).2 (hsize ▸ hsizes.2) _ hplain)
  · exact likePlain_of_agree htypeSize hencoding hformat

/-- Four bytes with the number 1, counted, in a format. -/
def countedOne (format : FieldFormat) : PerfItemValue :=
  ⟨[1, 0, 0, 0], ⟨1, 0, 0, FieldEncoding.binaryLength16Char8, format, .little⟩⟩

/-- A platform whose times and floating-point numbers are all written as zero. -/
def zeroPlatform : Platform := ⟨true, fun _ ↦ none, fun _ _ _ ↦ [0x30]⟩

theorem likePlain_unsignedInt :
    LikePlain ⟨true, .little, true⟩ zeroPlatform 0 [1, 2, 4, 8]
      (countedOne FieldFormat.unsignedInt) := by
  refine (likePlain_iff _ zeroPlatform 0 (countedOne FieldFormat.unsignedInt) [1, 2, 4, 8]
    (by decide) (.inl (by decide)) (by decide)).mpr ⟨?_, ?_, ?_⟩ <;> decide

/-- Without `IntHexAsString`, the counted number 1 is the JSON number `1`, and the plain one is the
string `"0x1"`. -/
theorem hexInt_not_likePlain :
    ¬LikePlain ⟨true, .little, true⟩ zeroPlatform 0 [1, 2, 4, 8]
      (countedOne FieldFormat.hexInt) := by
  intro hlike
  have hplain :
      IsPlainOf (countedOne FieldFormat.hexInt) (countedOne FieldFormat.hexInt).toPlain := by
    constructor <;> decide
  have hsame := (hlike.sized (by decide) _ hplain).2
  revert hsame
  decide

end Plain

end PerfItemValue

end Tracepoints
