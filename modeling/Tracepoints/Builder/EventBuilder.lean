import Tracepoints.Enumerator.Types
import Tracepoints.Lib.InPlace

/-!
# The event builder

`EventBuilder` of `eventheader_dynamic/src/builder.rs`: the metadata and the data of an event grow with
every field that is added. The value of a field is the bytes it has in memory; a type that the source is
generic over is the size of its values.

`AddCall` is a call that adds a field or sets a count of fields, with the variables that the caller keeps
bookmarks in, and `runCalls` a sequence of them.
-/

set_option autoImplicit false
set_option relaxedAutoImplicit false

namespace Tracepoints

open Exec

/-! ### The types of values -/

/-- The types of `ValueField`, by their size. -/
inductive ValueSize
  | size1
  | size2
  | size4
  | size8
  | size16
  deriving DecidableEq

namespace ValueSize

def byteCount : ValueSize → ℕ
  | size1 => 1
  | size2 => 2
  | size4 => 4
  | size8 => 8
  | size16 => 16

/-- `VALUE_ENCODING`. -/
def valueEncoding : ValueSize → FieldEncoding
  | size1 => .value8
  | size2 => .value16
  | size4 => .value32
  | size8 => .value64
  | size16 => .value128

/-- A value, as its bytes. -/
def Value (size : ValueSize) : Type := { bytes : List UInt8 // bytes.length = size.byteCount }

end ValueSize

/-- The types of `StringField`, by their size. -/
inductive CharSize
  | size1
  | size2
  | size4
  deriving DecidableEq

namespace CharSize

def valueSize : CharSize → ValueSize
  | size1 => .size1
  | size2 => .size2
  | size4 => .size4

/-- `STRING_ENCODING`. -/
def stringEncoding : CharSize → FieldEncoding
  | size1 => .stringLength16Char8
  | size2 => .stringLength16Char16
  | size4 => .stringLength16Char32

/-- `ZSTRING_ENCODING`. -/
def zstringEncoding : CharSize → FieldEncoding
  | size1 => .zStringChar8
  | size2 => .zStringChar16
  | size4 => .zStringChar32

/-- An element of a string, as its bytes. -/
abbrev Char (size : CharSize) : Type := size.valueSize.Value

/-- The default of the type. -/
def zero (size : CharSize) : size.Char :=
  ⟨List.replicate size.valueSize.byteCount 0, List.length_replicate⟩

end CharSize

/-- `BINARY_ENCODING`, for the two types of `BinaryField`, which have one byte. -/
def binaryEncoding : FieldEncoding := .binaryLength16Char8

/-- `EventBuilder`. -/
structure EventBuilder where
  metadata : List UInt8
  data : List UInt8
  flags : UInt8
  version : UInt8
  id : UInt16
  tag : UInt16
  opcode : UInt8

namespace EventBuilder

/-- `new`. -/
def new (build : Build) : EventBuilder where
  metadata := [0]
  data := []
  flags := HeaderFlags.defaultWithExtension build
  version := 0
  id := 0
  tag := 0
  opcode := 0

/-- `reset`. -/
def reset (build : Build) (name : List UInt8) (eventTag : UInt16) : Exec EventBuilder := do
  debugAssert build (0 ∉ name)
  .ok { new build with metadata := name ++ [0], tag := eventTag }

/-- `id_version`. -/
def idVersion (builder : EventBuilder) (id : UInt16) (version : UInt8) : EventBuilder :=
  { builder with id, version }

/-- `opcode`. -/
def setOpcode (builder : EventBuilder) (opcode : UInt8) : EventBuilder := { builder with opcode }

section Raw

variable (build : Build) (builder : EventBuilder)

/-- The bytes of a type that `raw_add_meta` writes: the encoding, and the format and the tag if there
is any. -/
def typeBytes (encoding : FieldEncoding) (format : FieldFormat) (fieldTag : UInt16) : List UInt8 :=
  if fieldTag ≠ 0 then
    [0x80 ||| encoding, 0x80 ||| format] ++ build.targetEndian.toBytes 2 fieldTag.toNat
  else if format ≠ 0 then [0x80 ||| encoding, format]
  else [encoding]

/-- `raw_add_meta`. -/
def rawAddMeta (fieldName : List UInt8) (encoding : FieldEncoding) (format : FieldFormat)
    (fieldTag : UInt16) : Exec EventBuilder := do
  debugAssert build (0 ∉ fieldName)
  .ok { builder with
    metadata := builder.metadata ++ (fieldName ++ 0 :: typeBytes build encoding format fieldTag) }

/-- `raw_add_meta_scalar`. -/
def rawAddMetaScalar (fieldName : List UInt8) (encoding : FieldEncoding) (format : FieldFormat)
    (fieldTag : UInt16) : Exec EventBuilder := do
  debugAssert build (encoding &&& FieldEncoding.flagMask = 0)
  builder.rawAddMeta build fieldName encoding format fieldTag

/-- `raw_add_meta_vcount`. -/
def rawAddMetaVcount (fieldName : List UInt8) (encoding : FieldEncoding) (format : FieldFormat)
    (fieldTag : UInt16) : Exec EventBuilder := do
  debugAssert build (encoding &&& FieldEncoding.flagMask = 0)
  builder.rawAddMeta build fieldName (encoding ||| FieldEncoding.vArrayFlag) format fieldTag

/-- `raw_add_data_value`, of the bytes of the value. -/
def rawAddDataValue (value : List UInt8) : EventBuilder :=
  { builder with data := builder.data ++ value }

/-- `raw_add_data_slice`, of the elements of the slice. -/
def rawAddDataSlice {size : ValueSize} (value : List size.Value) : EventBuilder :=
  { builder with data := builder.data ++ value.flatMap fun element ↦ element.1 }

/-- `raw_add_data_cstr`: the elements up to the first zero, or all of them and a zero. -/
def rawAddDataCstr {size : CharSize} (value : List size.Char) : EventBuilder :=
  match value.findIdx? fun element ↦ element.1 = size.zero.1 with
  | some nulPos => builder.rawAddDataSlice (value.take (nulPos + 1))
  | none => (builder.rawAddDataSlice value).rawAddDataValue size.zero.1

/-- `raw_add_data_counted`. The count of a slice that is too long is a literal without a type, which has
four bytes. -/
def rawAddDataCounted {size : ValueSize} (value : List size.Value) : EventBuilder :=
  if 65535 < value.length then
    (builder.rawAddDataValue (build.targetEndian.toBytes 4 65535)).rawAddDataSlice (value.take 65535)
  else
    (builder.rawAddDataValue (build.targetEndian.toBytes 2 value.length)).rawAddDataSlice value

/-- The loop of `raw_add_data_range`. -/
def addRange {α : Type} (addData : EventBuilder → α → EventBuilder) :
    ℕ → List α → EventBuilder → ℕ × EventBuilder
  | count, [], builder => (count, builder)
  | count, value :: fieldValues, builder =>
    if count = 65535 then (count, builder)
    else addRange addData (count + 1) fieldValues (addData builder value)

/-- `raw_add_data_range`. -/
def rawAddDataRange {α : Type} (fieldValues : List α)
    (addData : EventBuilder → α → EventBuilder) : Exec EventBuilder := do
  let oldDataSize := builder.data.length
  let (count, builder) := addRange addData 0 fieldValues
    (builder.rawAddDataValue (build.targetEndian.toBytes 2 0))
  let before ← slice builder.data 0 oldDataSize
  let behind ← slice builder.data (oldDataSize + 2) builder.data.length
  .ok { builder with data := before ++ build.targetEndian.toBytes 2 count ++ behind }

end Raw

section Fields

variable (build : Build) (builder : EventBuilder) (fieldName : List UInt8) (format : FieldFormat)
  (fieldTag : UInt16)

/-- `add_value`. -/
def addValue {size : ValueSize} (fieldValue : size.Value) : Exec EventBuilder := do
  let builder ← builder.rawAddMetaScalar build fieldName size.valueEncoding format fieldTag
  .ok (builder.rawAddDataValue fieldValue.1)

/-- `add_value_sequence`. -/
def addValueSequence {size : ValueSize} (fieldValues : List size.Value) : Exec EventBuilder := do
  let builder ← builder.rawAddMetaVcount build fieldName size.valueEncoding format fieldTag
  builder.rawAddDataRange build fieldValues fun builder value ↦ builder.rawAddDataValue value.1

/-- `add_str`. -/
def addStr {size : CharSize} (fieldValue : List size.Char) : Exec EventBuilder := do
  let builder ← builder.rawAddMetaScalar build fieldName size.stringEncoding format fieldTag
  .ok (builder.rawAddDataCounted build fieldValue)

/-- `add_str_sequence`. -/
def addStrSequence {size : CharSize} (fieldValues : List (List size.Char)) : Exec EventBuilder := do
  let builder ← builder.rawAddMetaVcount build fieldName size.stringEncoding format fieldTag
  builder.rawAddDataRange build fieldValues fun builder value ↦ builder.rawAddDataCounted build value

/-- `add_cstr`. -/
def addCstr {size : CharSize} (fieldValue : List size.Char) : Exec EventBuilder := do
  let builder ← builder.rawAddMetaScalar build fieldName size.zstringEncoding format fieldTag
  .ok (builder.rawAddDataCstr fieldValue)

/-- `add_cstr_sequence`. -/
def addCstrSequence {size : CharSize} (fieldValues : List (List size.Char)) :
    Exec EventBuilder := do
  let builder ← builder.rawAddMetaVcount build fieldName size.zstringEncoding format fieldTag
  builder.rawAddDataRange build fieldValues fun builder value ↦ builder.rawAddDataCstr value

/-- `add_binary`. -/
def addBinary (fieldValue : List CharSize.size1.Char) : Exec EventBuilder := do
  let builder ← builder.rawAddMetaScalar build fieldName binaryEncoding format fieldTag
  .ok (builder.rawAddDataCounted build fieldValue)

/-- `add_binary_sequence`. -/
def addBinarySequence (fieldValues : List (List CharSize.size1.Char)) : Exec EventBuilder := do
  let builder ← builder.rawAddMetaVcount build fieldName binaryEncoding format fieldTag
  builder.rawAddDataRange build fieldValues fun builder value ↦ builder.rawAddDataCounted build value

/-- The checks of a count of fields. -/
def maskFieldCount (structFieldCount : UInt8) : Exec UInt8 := do
  let maskedFieldCount := structFieldCount &&& FieldFormat.valueMask
  debugAssert build (maskedFieldCount = structFieldCount)
  if maskedFieldCount ≠ 0 then .ok maskedFieldCount else .error .assertion

/-- `add_struct`. -/
def addStruct (structFieldCount : UInt8) : Exec EventBuilder := do
  let maskedFieldCount ← maskFieldCount build structFieldCount
  builder.rawAddMeta build fieldName .struct maskedFieldCount fieldTag

/-- `add_struct_with_bookmark`. -/
def addStructWithBookmark (initialStructFieldCount : UInt8) : Exec (EventBuilder × ℕ) := do
  let maskedFieldCount ← maskFieldCount build initialStructFieldCount
  let builder ← builder.rawAddMeta build fieldName .struct maskedFieldCount fieldTag
  let fieldCountBookmark ← sub builder.metadata.length (if fieldTag = 0 then 1 else 3)
  .ok (builder, fieldCountBookmark)

/-- `set_struct_field_count`. -/
def setStructFieldCount (fieldCountBookmark : ℕ) (updatedStructFieldCount : UInt8) :
    Exec EventBuilder := do
  let maskedFieldCount ← maskFieldCount build updatedStructFieldCount
  let old ← byteAt builder.metadata fieldCountBookmark
  let metadata ← setAt builder.metadata fieldCountBookmark ((old &&& 0x80) ||| maskedFieldCount)
  .ok { builder with metadata }

end Fields

end EventBuilder

/-! ### Calls -/

/-- A call that adds a field. -/
inductive FieldCall
  | addValue (fieldName : List UInt8) {size : ValueSize} (fieldValue : size.Value)
      (format : FieldFormat) (fieldTag : UInt16)
  | addValueSequence (fieldName : List UInt8) {size : ValueSize} (fieldValues : List size.Value)
      (format : FieldFormat) (fieldTag : UInt16)
  | addStr (fieldName : List UInt8) {size : CharSize} (fieldValue : List size.Char)
      (format : FieldFormat) (fieldTag : UInt16)
  | addStrSequence (fieldName : List UInt8) {size : CharSize} (fieldValues : List (List size.Char))
      (format : FieldFormat) (fieldTag : UInt16)
  | addCstr (fieldName : List UInt8) {size : CharSize} (fieldValue : List size.Char)
      (format : FieldFormat) (fieldTag : UInt16)
  | addCstrSequence (fieldName : List UInt8) {size : CharSize} (fieldValues : List (List size.Char))
      (format : FieldFormat) (fieldTag : UInt16)
  | addBinary (fieldName : List UInt8) (fieldValue : List CharSize.size1.Char)
      (format : FieldFormat) (fieldTag : UInt16)
  | addBinarySequence (fieldName : List UInt8) (fieldValues : List (List CharSize.size1.Char))
      (format : FieldFormat) (fieldTag : UInt16)
  | addStruct (fieldName : List UInt8) (structFieldCount : UInt8) (fieldTag : UInt16)

def FieldCall.run (build : Build) (builder : EventBuilder) : FieldCall → Exec EventBuilder
  | addValue name value format tag => builder.addValue build name format tag value
  | addValueSequence name values format tag =>
    builder.addValueSequence build name format tag values
  | addStr name value format tag => builder.addStr build name format tag value
  | addStrSequence name values format tag => builder.addStrSequence build name format tag values
  | addCstr name value format tag => builder.addCstr build name format tag value
  | addCstrSequence name values format tag => builder.addCstrSequence build name format tag values
  | addBinary name value format tag => builder.addBinary build name format tag value
  | addBinarySequence name values format tag =>
    builder.addBinarySequence build name format tag values
  | addStruct name count tag => builder.addStruct build name tag count

/-! ### What a call appends -/

namespace EventBuilder

variable {build : Build}

/-- A builder with more metadata and data. -/
def append (builder : EventBuilder) (metaBytes dataBytes : List UInt8) : EventBuilder :=
  { builder with metadata := builder.metadata ++ metaBytes, data := builder.data ++ dataBytes }

theorem append_append (builder : EventBuilder) (meta1 data1 meta2 data2 : List UInt8) :
    (builder.append meta1 data1).append meta2 data2 =
      builder.append (meta1 ++ meta2) (data1 ++ data2) := by
  unfold append
  simp only [List.append_assoc]

/-- The definition of a field in the metadata. -/
def fieldBytes (build : Build) (fieldName : List UInt8) (encoding : FieldEncoding)
    (format : FieldFormat) (fieldTag : UInt16) : List UInt8 :=
  fieldName ++ 0 :: typeBytes build encoding format fieldTag

/-- The bytes of a zero-terminated string. -/
def cstrBytes {size : CharSize} (value : List size.Char) : List UInt8 :=
  match value.findIdx? fun element ↦ element.1 = size.zero.1 with
  | some nulPos => (value.take (nulPos + 1)).flatMap fun element ↦ element.1
  | none => (value.flatMap fun element ↦ element.1) ++ size.zero.1

/-- The bytes of a string with its length. -/
def countedBytes (build : Build) {size : ValueSize} (value : List size.Value) : List UInt8 :=
  if 65535 < value.length then
    build.targetEndian.toBytes 4 65535 ++ (value.take 65535).flatMap fun element ↦ element.1
  else build.targetEndian.toBytes 2 value.length ++ value.flatMap fun element ↦ element.1

/-- The bytes of a sequence with its length. -/
def rangeBytes (build : Build) {α : Type} (itemBytes : α → List UInt8) (fieldValues : List α) :
    List UInt8 :=
  build.targetEndian.toBytes 2 (min fieldValues.length 65535) ++
    (fieldValues.take 65535).flatMap itemBytes

theorem rawAddMeta_eq (builder : EventBuilder) (fieldName : List UInt8) (encoding : FieldEncoding)
    (format : FieldFormat) (fieldTag : UInt16) :
    builder.rawAddMeta build fieldName encoding format fieldTag = (do
      debugAssert build (0 ∉ fieldName)
      .ok (builder.append (fieldBytes build fieldName encoding format fieldTag) [])) := by
  unfold rawAddMeta append fieldBytes
  rw [List.append_nil]

theorem rawAddDataValue_eq (builder : EventBuilder) (value : List UInt8) :
    builder.rawAddDataValue value = builder.append [] value := by
  unfold rawAddDataValue append
  rw [List.append_nil]

theorem rawAddDataSlice_eq (builder : EventBuilder) {size : ValueSize} (value : List size.Value) :
    builder.rawAddDataSlice value = builder.append [] (value.flatMap fun element ↦ element.1) :=
  builder.rawAddDataValue_eq _

theorem rawAddDataCstr_eq {size : CharSize} (builder : EventBuilder) (value : List size.Char) :
    builder.rawAddDataCstr value = builder.append [] (cstrBytes value) := by
  unfold rawAddDataCstr cstrBytes
  cases value.findIdx? fun element ↦ element.1 = size.zero.1 with
  | some nulPos => exact builder.rawAddDataSlice_eq _
  | none =>
    dsimp only
    rw [rawAddDataSlice_eq, rawAddDataValue_eq, append_append]
    rfl

theorem rawAddDataCounted_eq {size : ValueSize} (builder : EventBuilder) (value : List size.Value) :
    builder.rawAddDataCounted build value = builder.append [] (countedBytes build value) := by
  unfold rawAddDataCounted countedBytes
  by_cases hlong : 65535 < value.length
  · rw [if_pos hlong, if_pos hlong, rawAddDataSlice_eq, rawAddDataValue_eq, append_append]
    rfl
  · rw [if_neg hlong, if_neg hlong, rawAddDataSlice_eq, rawAddDataValue_eq, append_append]
    rfl

/-- The loop over the items of a sequence. -/
theorem addRange_eq {α : Type} {addData : EventBuilder → α → EventBuilder}
    {itemBytes : α → List UInt8}
    (hadd : ∀ builder value, addData builder value = builder.append [] (itemBytes value))
    (fieldValues : List α) {count : ℕ} (hcount : count ≤ 65535) (builder : EventBuilder) :
    addRange addData count fieldValues builder =
      (min (count + fieldValues.length) 65535,
        builder.append [] ((fieldValues.take (65535 - count)).flatMap itemBytes)) := by
  have hnil (builder : EventBuilder) : builder.append [] [] = builder := by
    unfold append
    rw [List.append_nil, List.append_nil]
  induction fieldValues generalizing count builder with
  | nil =>
    rw [addRange, List.length_nil, Nat.add_zero, Nat.min_eq_left hcount, List.take_nil,
      List.flatMap_nil, hnil]
  | cons value fieldValues ih =>
    rw [addRange, List.length_cons]
    by_cases hmax : count = 65535
    · rw [if_pos hmax, Nat.min_eq_right (by omega), hmax, Nat.sub_self, List.take_zero,
        List.flatMap_nil, hnil]
    · have hleft : 65535 - count = 65535 - (count + 1) + 1 := by omega
      rw [if_neg hmax, ih (by omega), hadd, append_append, hleft, List.take_succ_cons,
        List.flatMap_cons]
      congr 2
      omega

theorem rawAddDataRange_eq (builder : EventBuilder) {α : Type}
    {addData : EventBuilder → α → EventBuilder} {itemBytes : α → List UInt8}
    (hadd : ∀ builder value, addData builder value = builder.append [] (itemBytes value))
    (fieldValues : List α) :
    builder.rawAddDataRange build fieldValues addData =
      .ok (builder.append [] (rangeBytes build itemBytes fieldValues)) := by
  have hlength := build.targetEndian.length_toBytes 2 0
  unfold rawAddDataRange
  rw [addRange_eq hadd fieldValues (Nat.zero_le _), rawAddDataValue_eq, append_append]
  dsimp only [append]
  unfold rangeBytes
  rw [Nat.sub_zero, Nat.zero_add]
  generalize (fieldValues.take 65535).flatMap itemBytes = items
  rw [slice_of_le (Nat.zero_le _) (by simp), ok_bind, slice_of_le (by simp [hlength]) le_rfl, ok_bind,
    List.drop_zero, Nat.sub_zero, List.take_left, List.take_of_length_le (by simp; omega),
    ← List.drop_drop, List.drop_left, List.drop_left' hlength, List.append_assoc, List.append_nil,
    List.append_nil]

/-- The effect of adding metadata for a field and then some data. -/
theorem addField_eq (builder : EventBuilder) (fieldName : List UInt8) (encoding : FieldEncoding)
    (format : FieldFormat) (fieldTag : UInt16) {next : EventBuilder → Exec EventBuilder}
    {dataBytes : List UInt8} (hnext : ∀ builder, next builder = .ok (builder.append [] dataBytes)) :
    (builder.rawAddMeta build fieldName encoding format fieldTag >>= next) = (do
      debugAssert build (0 ∉ fieldName)
      .ok (builder.append (fieldBytes build fieldName encoding format fieldTag) dataBytes)) := by
  rw [rawAddMeta_eq]
  cases debugAssert build (0 ∉ fieldName) with
  | error fault => rfl
  | ok _ =>
    rw [ok_bind, ok_bind, ok_bind, hnext, append_append, List.append_nil, List.nil_append]

theorem eq_of_maskFieldCount {count masked : UInt8} (h : maskFieldCount build count = .ok masked) :
    masked = count &&& FieldFormat.valueMask := by
  unfold maskFieldCount at h
  obtain ⟨-, -, h⟩ := bind_eq_ok.mp h
  split_ifs at h
  exact (Except.ok.inj h).symm

theorem addScalar_eq (builder : EventBuilder) (fieldName : List UInt8) {encoding : FieldEncoding}
    (hencoding : encoding &&& FieldEncoding.flagMask = 0) (format : FieldFormat) (fieldTag : UInt16)
    {next : EventBuilder → Exec EventBuilder} {dataBytes : List UInt8}
    (hnext : ∀ builder, next builder = .ok (builder.append [] dataBytes)) :
    (builder.rawAddMetaScalar build fieldName encoding format fieldTag >>= next) = (do
      debugAssert build (0 ∉ fieldName)
      .ok (builder.append (fieldBytes build fieldName encoding format fieldTag) dataBytes)) := by
  unfold rawAddMetaScalar
  rw [debugAssert_of hencoding, ok_bind, addField_eq builder fieldName encoding format fieldTag hnext]

theorem addVcount_eq (builder : EventBuilder) (fieldName : List UInt8) {encoding : FieldEncoding}
    (hencoding : encoding &&& FieldEncoding.flagMask = 0) (format : FieldFormat) (fieldTag : UInt16)
    {next : EventBuilder → Exec EventBuilder} {dataBytes : List UInt8}
    (hnext : ∀ builder, next builder = .ok (builder.append [] dataBytes)) :
    (builder.rawAddMetaVcount build fieldName encoding format fieldTag >>= next) = (do
      debugAssert build (0 ∉ fieldName)
      .ok (builder.append
        (fieldBytes build fieldName (encoding ||| FieldEncoding.vArrayFlag) format fieldTag)
        dataBytes)) := by
  unfold rawAddMetaVcount
  rw [debugAssert_of hencoding, ok_bind, addField_eq builder fieldName _ format fieldTag hnext]

end EventBuilder

namespace FieldCall

open EventBuilder

/-- The name of the field. -/
def fieldName : FieldCall → List UInt8
  | addValue name _ _ _ => name
  | addValueSequence name _ _ _ => name
  | addStr name _ _ _ => name
  | addStrSequence name _ _ _ => name
  | addCstr name _ _ _ => name
  | addCstrSequence name _ _ _ => name
  | addBinary name _ _ _ => name
  | addBinarySequence name _ _ _ => name
  | addStruct name _ _ => name

/-- The encoding of the field, with the flag of a sequence. -/
def encoding : FieldCall → FieldEncoding
  | @addValue _ size _ _ _ => size.valueEncoding
  | @addValueSequence _ size _ _ _ => size.valueEncoding ||| FieldEncoding.vArrayFlag
  | @addStr _ size _ _ _ => size.stringEncoding
  | @addStrSequence _ size _ _ _ => size.stringEncoding ||| FieldEncoding.vArrayFlag
  | @addCstr _ size _ _ _ => size.zstringEncoding
  | @addCstrSequence _ size _ _ _ => size.zstringEncoding ||| FieldEncoding.vArrayFlag
  | addBinary _ _ _ _ => binaryEncoding
  | addBinarySequence _ _ _ _ => binaryEncoding ||| FieldEncoding.vArrayFlag
  | addStruct _ _ _ => .struct

/-- The format of the field, or the number of fields of a structure. -/
def format : FieldCall → FieldFormat
  | addValue _ _ format _ => format
  | addValueSequence _ _ format _ => format
  | addStr _ _ format _ => format
  | addStrSequence _ _ format _ => format
  | addCstr _ _ format _ => format
  | addCstrSequence _ _ format _ => format
  | addBinary _ _ format _ => format
  | addBinarySequence _ _ format _ => format
  | addStruct _ count _ => count &&& FieldFormat.valueMask

def fieldTag : FieldCall → UInt16
  | addValue _ _ _ tag => tag
  | addValueSequence _ _ _ tag => tag
  | addStr _ _ _ tag => tag
  | addStrSequence _ _ _ tag => tag
  | addCstr _ _ _ tag => tag
  | addCstrSequence _ _ _ tag => tag
  | addBinary _ _ _ tag => tag
  | addBinarySequence _ _ _ tag => tag
  | addStruct _ _ tag => tag

/-- The data of the field. -/
def dataBytes (build : Build) : FieldCall → List UInt8
  | addValue _ value _ _ => value.1
  | addValueSequence _ values _ _ => rangeBytes build (fun value ↦ value.1) values
  | addStr _ value _ _ => countedBytes build value
  | addStrSequence _ values _ _ => rangeBytes build (countedBytes build) values
  | addCstr _ value _ _ => cstrBytes value
  | addCstrSequence _ values _ _ => rangeBytes build cstrBytes values
  | addBinary _ value _ _ => countedBytes build value
  | addBinarySequence _ values _ _ => rangeBytes build (countedBytes build) values
  | addStruct _ _ _ => []

/-- The definition of the field in the metadata. -/
def metaBytes (build : Build) (call : FieldCall) : List UInt8 :=
  fieldBytes build call.fieldName call.encoding call.format call.fieldTag

/-- The assertions of the call. -/
def check (build : Build) : FieldCall → Exec Unit
  | addStruct name count _ => do
    let _ ← maskFieldCount build count
    debugAssert build (0 ∉ name)
  | call => debugAssert build (0 ∉ call.fieldName)

theorem encoding_flags (size : CharSize) :
    size.stringEncoding &&& FieldEncoding.flagMask = 0 ∧
      size.zstringEncoding &&& FieldEncoding.flagMask = 0 := by
  cases size <;> decide

theorem valueEncoding_flags (size : ValueSize) :
    size.valueEncoding &&& FieldEncoding.flagMask = 0 := by
  cases size <;> decide

/-- A call appends the definition of its field to the metadata and its value to the data. -/
theorem run_eq (build : Build) (builder : EventBuilder) (call : FieldCall) :
    call.run build builder = (do
      call.check build
      .ok (builder.append (call.metaBytes build) (call.dataBytes build))) := by
  cases call with
  | addValue name value format tag =>
    exact addScalar_eq builder name (valueEncoding_flags _) format tag fun builder ↦ by
      rw [rawAddDataValue_eq]
      rfl
  | addValueSequence name values format tag =>
    exact addVcount_eq builder name (valueEncoding_flags _) format tag fun builder ↦
      rawAddDataRange_eq builder (fun builder value ↦ rawAddDataValue_eq builder value.1) values
  | addStr name value format tag =>
    exact addScalar_eq builder name (encoding_flags _).1 format tag fun builder ↦ by
      rw [rawAddDataCounted_eq]
      rfl
  | addStrSequence name values format tag =>
    exact addVcount_eq builder name (encoding_flags _).1 format tag fun builder ↦
      rawAddDataRange_eq builder rawAddDataCounted_eq values
  | addCstr name value format tag =>
    exact addScalar_eq builder name (encoding_flags _).2 format tag fun builder ↦ by
      rw [rawAddDataCstr_eq]
      rfl
  | addCstrSequence name values format tag =>
    exact addVcount_eq builder name (encoding_flags _).2 format tag fun builder ↦
      rawAddDataRange_eq builder rawAddDataCstr_eq values
  | addBinary name value format tag =>
    exact addScalar_eq builder name (by decide) format tag fun builder ↦ by
      rw [rawAddDataCounted_eq]
      rfl
  | addBinarySequence name values format tag =>
    exact addVcount_eq builder name (by decide) format tag fun builder ↦
      rawAddDataRange_eq builder rawAddDataCounted_eq values
  | addStruct name count tag =>
    change (maskFieldCount build count >>= fun masked ↦ builder.rawAddMeta build name .struct masked
      tag) = (maskFieldCount build count >>= fun _ ↦ debugAssert build (0 ∉ name)) >>= _
    cases hmask : maskFieldCount build count with
    | error fault => rfl
    | ok masked =>
      obtain rfl := eq_of_maskFieldCount hmask
      rw [ok_bind, ok_bind]
      exact rawAddMeta_eq builder name .struct _ tag

end FieldCall

end Tracepoints
