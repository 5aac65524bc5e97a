import Tracepoints.Enumerator.Types

/-!
# The field options of the macros

The types of `eventheader_macros/src/enums.rs` and `field_option.rs`, and the table `FIELD_OPTIONS` of
`field_options.rs`. The formats are the bytes that the macro's own enumeration numbers in the same way.
The source looks an option up by a binary search, which finds what `findFieldOption` finds because the
table is sorted (`fieldOptions_sorted`).
-/

set_option autoImplicit false
set_option relaxedAutoImplicit false

namespace Tracepoints

/-- `EnumToken`: how the generated code writes the value of an enumeration. -/
inductive EnumToken
  | u8 (value : UInt8)
  | str (name : String)
  deriving DecidableEq, Repr

/-- `FieldEncoding` of the macros. -/
inductive OptionEncoding
  | invalid
  | struct
  | value8
  | value16
  | value32
  | value64
  | value128
  | zStringChar8
  | zStringChar16
  | zStringChar32
  | stringLength16Char8
  | stringLength16Char16
  | stringLength16Char32
  | valueSize
  deriving DecidableEq, Repr

/-- `FieldEncoding::to_token`: the size of a pointer is known only where the generated code is compiled. -/
def OptionEncoding.toToken : OptionEncoding → EnumToken
  | invalid => .u8 0
  | struct => .u8 1
  | value8 => .u8 2
  | value16 => .u8 3
  | value32 => .u8 4
  | value64 => .u8 5
  | value128 => .u8 6
  | zStringChar8 => .u8 7
  | zStringChar16 => .u8 8
  | zStringChar32 => .u8 9
  | stringLength16Char8 => .u8 10
  | stringLength16Char16 => .u8 11
  | stringLength16Char32 => .u8 12
  | valueSize => .str "ValueSize"

/-- `FieldStrategy`. -/
inductive FieldStrategy
  | scalar
  | systemTime
  | cStr
  | str
  | slice
  | struct
  | rawStruct
  | rawStructSlice
  | rawData
  | rawField
  | rawFieldSlice
  | rawMeta
  | rawMetaSlice
  deriving DecidableEq, Repr

namespace FieldStrategy

/-- `FieldStrategy::is_slice`. -/
def isSlice : FieldStrategy → Bool
  | slice | rawStructSlice | rawFieldSlice | rawMetaSlice => true
  | _ => false

/-- `FieldStrategy::has_metadata`. -/
def hasMetadata : FieldStrategy → Bool
  | rawData => false
  | _ => true

/-- `FieldStrategy::data_count`. -/
def dataCount : FieldStrategy → ℕ
  | struct | rawStruct | rawStructSlice | rawMeta | rawMetaSlice => 0
  | scalar | systemTime | rawData | rawField | rawFieldSlice => 1
  | cStr | str | slice => 2

end FieldStrategy

/-- The type of a value, or of an element of a value. -/
inductive ValueType
  | none
  | bool
  | f32
  | f64
  | i8
  | i16
  | i32
  | i64
  | isize
  | u8
  | u16
  | u32
  | u64
  | usize
  | guid
  deriving DecidableEq, Repr

/-- `FieldOption`. -/
structure FieldOption where
  optionName : String
  valueType : ValueType
  encoding : OptionEncoding
  format : FieldFormat
  strategy : FieldStrategy
  valueArrayCount : ℕ
  deriving DecidableEq, Repr

/-- `FIELD_OPTIONS`. -/
def fieldOptions : List FieldOption := [
  ⟨"binary", .u8, .stringLength16Char8, FieldFormat.hexBytes, .str, 0⟩,
  ⟨"binaryc", .u8, .stringLength16Char8, FieldFormat.hexBytes, .str, 0⟩,
  ⟨"bool32", .i32, .value32, FieldFormat.boolean, .scalar, 0⟩,
  ⟨"bool32_slice", .i32, .value32, FieldFormat.boolean, .slice, 0⟩,
  ⟨"bool8", .bool, .value8, FieldFormat.boolean, .scalar, 0⟩,
  ⟨"bool8_slice", .bool, .value8, FieldFormat.boolean, .slice, 0⟩,
  ⟨"char16", .u16, .value16, FieldFormat.stringUtf, .scalar, 0⟩,
  ⟨"char16_slice", .u16, .value16, FieldFormat.stringUtf, .slice, 0⟩,
  ⟨"char8_cp1252", .u8, .value8, FieldFormat.string8, .scalar, 0⟩,
  ⟨"char8_cp1252_slice", .u8, .value8, FieldFormat.string8, .slice, 0⟩,
  ⟨"codepointer", .usize, .valueSize, FieldFormat.hexInt, .scalar, 0⟩,
  ⟨"codepointer_slice", .usize, .valueSize, FieldFormat.hexInt, .slice, 0⟩,
  ⟨"cstr16", .u16, .zStringChar16, FieldFormat.default, .cStr, 0⟩,
  ⟨"cstr16_json", .u16, .zStringChar16, FieldFormat.stringJson, .cStr, 0⟩,
  ⟨"cstr16_xml", .u16, .zStringChar16, FieldFormat.stringXml, .cStr, 0⟩,
  ⟨"cstr32", .u32, .zStringChar32, FieldFormat.default, .cStr, 0⟩,
  ⟨"cstr32_json", .u32, .zStringChar32, FieldFormat.stringJson, .cStr, 0⟩,
  ⟨"cstr32_xml", .u32, .zStringChar32, FieldFormat.stringXml, .cStr, 0⟩,
  ⟨"cstr8", .u8, .zStringChar8, FieldFormat.default, .cStr, 0⟩,
  ⟨"cstr8_cp1252", .u8, .zStringChar8, FieldFormat.string8, .cStr, 0⟩,
  ⟨"cstr8_json", .u8, .zStringChar8, FieldFormat.stringJson, .cStr, 0⟩,
  ⟨"cstr8_xml", .u8, .zStringChar8, FieldFormat.stringXml, .cStr, 0⟩,
  ⟨"errno", .i32, .value32, FieldFormat.errno, .scalar, 0⟩,
  ⟨"errno_slice", .i32, .value32, FieldFormat.errno, .slice, 0⟩,
  ⟨"f32", .f32, .value32, FieldFormat.float, .scalar, 0⟩,
  ⟨"f32_slice", .f32, .value32, FieldFormat.float, .slice, 0⟩,
  ⟨"f64", .f64, .value64, FieldFormat.float, .scalar, 0⟩,
  ⟨"f64_slice", .f64, .value64, FieldFormat.float, .slice, 0⟩,
  ⟨"guid", .guid, .value128, FieldFormat.uuid, .scalar, 0⟩,
  ⟨"guid_slice", .guid, .value128, FieldFormat.uuid, .slice, 0⟩,
  ⟨"hresult", .i32, .value32, FieldFormat.hexInt, .scalar, 0⟩,
  ⟨"hresult_slice", .i32, .value32, FieldFormat.hexInt, .slice, 0⟩,
  ⟨"i16", .i16, .value16, FieldFormat.signedInt, .scalar, 0⟩,
  ⟨"i16_hex", .i16, .value16, FieldFormat.hexInt, .scalar, 0⟩,
  ⟨"i16_hex_slice", .i16, .value16, FieldFormat.hexInt, .slice, 0⟩,
  ⟨"i16_slice", .i16, .value16, FieldFormat.signedInt, .slice, 0⟩,
  ⟨"i32", .i32, .value32, FieldFormat.signedInt, .scalar, 0⟩,
  ⟨"i32_hex", .i32, .value32, FieldFormat.hexInt, .scalar, 0⟩,
  ⟨"i32_hex_slice", .i32, .value32, FieldFormat.hexInt, .slice, 0⟩,
  ⟨"i32_slice", .i32, .value32, FieldFormat.signedInt, .slice, 0⟩,
  ⟨"i64", .i64, .value64, FieldFormat.signedInt, .scalar, 0⟩,
  ⟨"i64_hex", .i64, .value64, FieldFormat.hexInt, .scalar, 0⟩,
  ⟨"i64_hex_slice", .i64, .value64, FieldFormat.hexInt, .slice, 0⟩,
  ⟨"i64_slice", .i64, .value64, FieldFormat.signedInt, .slice, 0⟩,
  ⟨"i8", .i8, .value8, FieldFormat.signedInt, .scalar, 0⟩,
  ⟨"i8_hex", .i8, .value8, FieldFormat.hexInt, .scalar, 0⟩,
  ⟨"i8_hex_slice", .i8, .value8, FieldFormat.hexInt, .slice, 0⟩,
  ⟨"i8_slice", .i8, .value8, FieldFormat.signedInt, .slice, 0⟩,
  ⟨"ipv4", .u8, .value32, FieldFormat.ipv4, .scalar, 4⟩,
  ⟨"ipv4_slice", .u8, .value32, FieldFormat.ipv4, .slice, 4⟩,
  ⟨"ipv6", .u8, .value128, FieldFormat.ipv6, .scalar, 16⟩,
  ⟨"ipv6c", .u8, .value128, FieldFormat.ipv6, .scalar, 16⟩,
  ⟨"isize", .isize, .valueSize, FieldFormat.signedInt, .scalar, 0⟩,
  ⟨"isize_hex", .isize, .valueSize, FieldFormat.hexInt, .scalar, 0⟩,
  ⟨"isize_hex_slice", .isize, .valueSize, FieldFormat.hexInt, .slice, 0⟩,
  ⟨"isize_slice", .isize, .valueSize, FieldFormat.signedInt, .slice, 0⟩,
  ⟨"pid", .u32, .value32, FieldFormat.pid, .scalar, 0⟩,
  ⟨"pid_slice", .u32, .value32, FieldFormat.pid, .slice, 0⟩,
  ⟨"pointer", .usize, .valueSize, FieldFormat.hexInt, .scalar, 0⟩,
  ⟨"pointer_slice", .usize, .valueSize, FieldFormat.hexInt, .slice, 0⟩,
  ⟨"port", .u16, .value16, FieldFormat.port, .scalar, 0⟩,
  ⟨"port_slice", .u16, .value16, FieldFormat.port, .slice, 0⟩,
  ⟨"raw_data", .u8, .invalid, FieldFormat.default, .rawData, 0⟩,
  ⟨"raw_field", .u8, .invalid, FieldFormat.default, .rawField, 0⟩,
  ⟨"raw_field_slice", .u8, .invalid, FieldFormat.default, .rawFieldSlice, 0⟩,
  ⟨"raw_meta", .none, .invalid, FieldFormat.default, .rawMeta, 0⟩,
  ⟨"raw_meta_slice", .none, .invalid, FieldFormat.default, .rawMetaSlice, 0⟩,
  ⟨"raw_struct", .none, .struct, FieldFormat.default, .rawStruct, 0⟩,
  ⟨"raw_struct_slice", .none, .struct, FieldFormat.default, .rawStructSlice, 0⟩,
  ⟨"socketaddress", .u8, .stringLength16Char8, FieldFormat.hexBytes, .str, 0⟩,
  ⟨"socketaddressc", .u8, .stringLength16Char8, FieldFormat.hexBytes, .str, 0⟩,
  ⟨"str16", .u16, .stringLength16Char16, FieldFormat.default, .str, 0⟩,
  ⟨"str16_json", .u16, .stringLength16Char16, FieldFormat.stringJson, .str, 0⟩,
  ⟨"str16_xml", .u16, .stringLength16Char16, FieldFormat.stringXml, .str, 0⟩,
  ⟨"str32", .u32, .stringLength16Char32, FieldFormat.default, .str, 0⟩,
  ⟨"str32_json", .u32, .stringLength16Char32, FieldFormat.stringJson, .str, 0⟩,
  ⟨"str32_xml", .u32, .stringLength16Char32, FieldFormat.stringXml, .str, 0⟩,
  ⟨"str8", .u8, .stringLength16Char8, FieldFormat.default, .str, 0⟩,
  ⟨"str8_cp1252", .u8, .stringLength16Char8, FieldFormat.string8, .str, 0⟩,
  ⟨"str8_json", .u8, .stringLength16Char8, FieldFormat.stringJson, .str, 0⟩,
  ⟨"str8_xml", .u8, .stringLength16Char8, FieldFormat.stringXml, .str, 0⟩,
  ⟨"struct", .none, .struct, FieldFormat.default, .struct, 0⟩,
  ⟨"systemtime", .i64, .value64, FieldFormat.time, .systemTime, 0⟩,
  ⟨"tid", .u32, .value32, FieldFormat.pid, .scalar, 0⟩,
  ⟨"tid_slice", .u32, .value32, FieldFormat.pid, .slice, 0⟩,
  ⟨"time32", .i32, .value32, FieldFormat.time, .scalar, 0⟩,
  ⟨"time64", .i64, .value64, FieldFormat.time, .scalar, 0⟩,
  ⟨"u16", .u16, .value16, FieldFormat.default, .scalar, 0⟩,
  ⟨"u16_hex", .u16, .value16, FieldFormat.hexInt, .scalar, 0⟩,
  ⟨"u16_hex_slice", .u16, .value16, FieldFormat.hexInt, .slice, 0⟩,
  ⟨"u16_slice", .u16, .value16, FieldFormat.default, .slice, 0⟩,
  ⟨"u32", .u32, .value32, FieldFormat.default, .scalar, 0⟩,
  ⟨"u32_hex", .u32, .value32, FieldFormat.hexInt, .scalar, 0⟩,
  ⟨"u32_hex_slice", .u32, .value32, FieldFormat.hexInt, .slice, 0⟩,
  ⟨"u32_slice", .u32, .value32, FieldFormat.default, .slice, 0⟩,
  ⟨"u64", .u64, .value64, FieldFormat.default, .scalar, 0⟩,
  ⟨"u64_hex", .u64, .value64, FieldFormat.hexInt, .scalar, 0⟩,
  ⟨"u64_hex_slice", .u64, .value64, FieldFormat.hexInt, .slice, 0⟩,
  ⟨"u64_slice", .u64, .value64, FieldFormat.default, .slice, 0⟩,
  ⟨"u8", .u8, .value8, FieldFormat.default, .scalar, 0⟩,
  ⟨"u8_hex", .u8, .value8, FieldFormat.hexInt, .scalar, 0⟩,
  ⟨"u8_hex_slice", .u8, .value8, FieldFormat.hexInt, .slice, 0⟩,
  ⟨"u8_slice", .u8, .value8, FieldFormat.default, .slice, 0⟩,
  ⟨"usize", .usize, .valueSize, FieldFormat.default, .scalar, 0⟩,
  ⟨"usize_hex", .usize, .valueSize, FieldFormat.hexInt, .scalar, 0⟩,
  ⟨"usize_hex_slice", .usize, .valueSize, FieldFormat.hexInt, .slice, 0⟩,
  ⟨"usize_slice", .usize, .valueSize, FieldFormat.default, .slice, 0⟩]

/-- The option with a name. -/
def findFieldOption (name : List Char) : Option FieldOption :=
  fieldOptions.find? fun option ↦ option.optionName.toList = name

/-- The table is sorted by name. -/
theorem fieldOptions_sorted :
    fieldOptions.IsChain fun first second ↦ first.optionName < second.optionName := by
  decide +kernel

/-- An option that is found is in the table. -/
theorem mem_of_findFieldOption {name : List Char} {option : FieldOption}
    (h : findFieldOption name = some option) : option ∈ fieldOptions :=
  List.mem_of_find?_eq_some h

end Tracepoints
