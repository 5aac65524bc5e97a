import Mathlib.Algebra.Order.Group.Nat
import Tracepoints.Enumerator.JsonWriter
import Tracepoints.Perf.FieldFormat

/-!
# The values of fields

`get_field_bytes` and `get_field_value_with_data_and_reader` of `PerfFieldFormat`
(`tracepoint_decode/src/perf_field_format.rs`): where the bytes of a field are in the raw data of an
event, and the value that is made of them. The value is that of `PerfItemValue`
(`tracepoint_decode/src/perf_item.rs`), whose constructor checks its size in a build with assertions.
-/

set_option autoImplicit false
set_option relaxedAutoImplicit false

namespace Tracepoints

open Exec

/-- `PerfItemMetadata::null`. -/
def PerfItemMetadata.null : PerfItemMetadata :=
  ⟨0, 0, 0, FieldEncoding.invalid, FieldFormat.default, .little⟩

namespace PerfItemValue

/-- `PerfItemValue::new`. -/
def new (build : Build) (bytes : List UInt8) (metadata : PerfItemMetadata) : Exec PerfItemValue := do
  debugAssert build (metadata.typeSize ≠ 0 ∧ bytes ≠ [] →
    bytes.length = metadata.typeSize * metadata.elementCount)
  debugAssert build (metadata.encoding = FieldEncoding.struct → bytes = [])
  .ok ⟨bytes, metadata⟩

/-- The value where there is none. -/
def null : PerfItemValue := ⟨[], .null⟩

end PerfItemValue

/-- `until_first_nul`. -/
def untilFirstNul (bytes : List UInt8) : List UInt8 := bytes.takeWhile (· ≠ 0)

/-- `usize::MAX`. -/
def usizeMax (build : Build) : ℕ := 2 ^ (if build.pointer64 then 64 else 32) - 1

namespace PerfFieldFormat

variable (build : Build) (format : PerfFieldFormat) (data : List UInt8) (order : ByteOrder)

/-- `element_size`: a shift of 32 bits, cut down to a byte. -/
def elementSize : ℕ := 2 ^ (format.elementSizeShift % 32) % 256

/-- The end of the field in the raw data. -/
def rawEnd : ℕ := format.offset + format.size

/-- What is added to a stored offset. The arms for both sizes test for `RelLoc2`. -/
def relativeBase : ℕ := if format.array = .relLoc2 then format.rawEnd else 0

/-- `get_field_bytes`. -/
def getFieldBytes : Exec (Option (List UInt8)) :=
  if format.rawEnd ≤ data.length then
    match format.array with
    | .none | .fixed => do
      let bytes ← slice data format.offset format.rawEnd
      .ok (some bytes)
    | .restOfEvent => .ok (some (data.drop format.offset))
    | .dataLoc2 | .relLoc2 => do
      let dyn ← readUInt order 2 data format.offset
      let dynOffset := dyn + format.relativeBase
      if dynOffset ≤ data.length then .ok (some (untilFirstNul (data.drop dynOffset))) else .ok none
    | .dataLoc4 | .relLoc4 => do
      let dyn ← readUInt order 4 data format.offset
      let dynSize := dyn / 2 ^ 16
      let dynOffset := dyn % 2 ^ 16 + format.relativeBase
      if dynOffset + dynSize ≤ data.length then do
        let bytes ← slice data dynOffset (dynOffset + dynSize)
        .ok (some bytes)
      else .ok none
  else .ok none

/-- The value of a field with the given bytes. -/
def makeValue (bytes : List UInt8) (arrayCount : ℕ) : Exec PerfItemValue := do
  let metadata ← PerfItemMetadata.new build order format.deducedEncoding format.deducedFormat
    (!FieldEncoding.isArray format.deducedEncoding) format.elementSize arrayCount 0
  PerfItemValue.new build bytes metadata

/-- Data of variable size is cut to a whole number of elements. -/
def cutToElements (bytes : List UInt8) : Exec (List UInt8) := do
  let mask ← subUsize build format.elementSize 1
  if 0 ≠ bytes.length &&& mask then
    slice bytes 0 (bytes.length &&& (usizeMax build ^^^ mask))
  else .ok bytes

/-- The count of elements of data of variable size. -/
def variableCount (bytes : List UInt8) : ℕ :=
  if format.deducedArrayCount ≠ 0 then format.deducedArrayCount
  else bytes.length / 2 ^ format.elementSizeShift % 2 ^ 16

/-- The end of `get_field_value_with_data_and_reader` for data of variable size. -/
def variableSizeValue (bytes : List UInt8) (checkStrLen : Bool) : Exec PerfItemValue := do
  let bytes := if checkStrLen then untilFirstNul bytes else bytes
  let bytes ← format.cutToElements build bytes
  format.makeValue build order bytes (format.variableCount bytes)

/-- `get_field_value_with_data_and_reader`. -/
def getFieldValue : Exec PerfItemValue :=
  let checkStrLen := decide (format.deducedEncoding = FieldEncoding.zStringChar8)
  if format.rawEnd ≤ data.length then
    match format.array with
    | .none | .fixed => do
      let bytes ← slice data format.offset format.rawEnd
      let bytes := if checkStrLen then untilFirstNul bytes else bytes
      format.makeValue build order bytes format.deducedArrayCount
    | .restOfEvent => format.variableSizeValue build order (data.drop format.offset) checkStrLen
    | .dataLoc2 | .relLoc2 => do
      let dyn ← readUInt order 2 data format.offset
      let dynOffset := dyn + format.relativeBase
      if dynOffset ≤ data.length then
        format.variableSizeValue build order (untilFirstNul (data.drop dynOffset)) true
      else PerfItemValue.new build [] .null
    | .dataLoc4 | .relLoc4 => do
      let dyn ← readUInt order 4 data format.offset
      let dynSize := dyn / 2 ^ 16
      let dynOffset := dyn % 2 ^ 16 + format.relativeBase
      if dynOffset + dynSize ≤ data.length then do
        let bytes ← slice data dynOffset (dynOffset + dynSize)
        format.variableSizeValue build order bytes checkStrLen
      else PerfItemValue.new build [] .null
  else PerfItemValue.new build [] .null

/-! ### Formats that `new` makes -/

/-- The format is one that `PerfFieldFormat::new` returns. -/
def Constructed : Prop :=
  ∃ longIs64Bits field offset size signed,
    PerfFieldFormat.new build longIs64Bits field offset size signed = .ok format

variable {build format}

/-- A format is made of a scanned declaration. -/
theorem Constructed.declaration (h : format.Constructed build) :
    ∃ longIs64Bits field offset size signed found,
      ofDeclaration build longIs64Bits field offset size signed found = .ok format := by
  obtain ⟨longIs64Bits, field, offset, size, signed, h⟩ := h
  unfold PerfFieldFormat.new at h
  obtain ⟨found, _, h⟩ := bind_eq_ok.1 h
  exact ⟨longIs64Bits, field, offset, size, signed, found, h⟩

/-- The size of a field that holds a location. -/
def locationSize : PerfFieldArray → Option ℕ
  | .dataLoc2 | .relLoc2 => some 2
  | .dataLoc4 | .relLoc4 => some 4
  | _ => none

/-- Arrays of variable length have no size or the size of a location. -/
theorem array_of_size_one (found : Declaration) :
    found.array 1 = .none ∨ found.array 1 = .fixed := by
  unfold Declaration.array
  cases found.foundArray
  · exact Or.inl rfl
  · exact Or.inr rfl

/-- The size decides between the kinds of locations. -/
theorem Constructed.size_eq (h : format.Constructed build) {size : ℕ}
    (hsize : locationSize format.array = some size) : format.size = size := by
  obtain ⟨_, field, offset, given, signed, found, h⟩ := h.declaration
  unfold ofDeclaration at h
  obtain ⟨baseType, _, h⟩ := bind_eq_ok.1 h
  obtain ⟨deduced, _, h⟩ := bind_eq_ok.1 h
  obtain ⟨_, _, h⟩ := bind_eq_ok.1 h
  obtain rfl := Except.ok.inj h
  show given = size
  change locationSize (found.array given) = some size at hsize
  unfold Declaration.array at hsize
  split_ifs at hsize with h0 h2 h2' h4 h4'
  · cases hsize
  · exact h2.1.trans (Option.some.inj hsize)
  · exact h2'.1.trans (Option.some.inj hsize)
  · exact h4.1.trans (Option.some.inj hsize)
  · exact h4'.1.trans (Option.some.inj hsize)
  · cases hsize
  · cases hsize

end PerfFieldFormat

/-! ### What is deduced -/

/-- No base type of fixed width has a format with the chain flag. -/
theorem Declaration.fixedTypes_format :
    ∀ row ∈ Declaration.fixedTypes, FieldFormat.hasChainFlag row.2.2 = false := by
  decide

/-- Specified formats have no chain flag. -/
theorem Declaration.specified_format (longIs64Bits : Bool) (found : Declaration)
    (baseType : List UInt8) :
    FieldFormat.hasChainFlag (found.specified longIs64Bits baseType).2 = false := by
  unfold Declaration.specified
  split_ifs
  · dsimp only
    decide
  · decide
  · unfold Declaration.specifiedInt
    dsimp only
    split_ifs <;> dsimp only <;> decide
  · unfold Declaration.specifiedChar
    dsimp only
    split_ifs <;> decide
  · cases hlookup : Declaration.fixedTypes.lookup baseType with
    | none => rfl
    | some row =>
      obtain ⟨before, behind, hrows, _⟩ := List.lookup_eq_some_iff.1 hlookup
      apply Declaration.fixedTypes_format (baseType, row)
      rw [hrows]
      exact List.mem_append_right before List.mem_cons_self

namespace Deduced

/-- The ways in which encoding, format, count and element size are deduced together. -/
inductive Shape (array : PerfFieldArray) (size : ℕ) (format : FieldFormat) : Deduced → Prop
  | text {encoding : FieldEncoding}
      (hencoding : encoding ∈ [FieldEncoding.value8, FieldEncoding.zStringChar8,
        FieldEncoding.stringLength16Char8]) :
      Shape array size format ⟨encoding, format, 1, 255⟩
  | dump : Shape array size format hexDump
  | scalar {encoding : FieldEncoding} {shift : ℕ} (harray : array = .none ∨ array = .fixed)
      (hshift : shiftOfEncoding encoding = some shift) (hsize : size = 2 ^ shift) :
      Shape array size format ⟨encoding, format, 1, shift⟩
  | constant {encoding : FieldEncoding} {shift count : ℕ} (harray : array = .fixed)
      (hshift : shiftOfEncoding encoding = some shift) (hsize : size = count * 2 ^ shift) :
      Shape array size format
        ⟨withFlags encoding FieldEncoding.cArrayFlag, format, count, shift⟩
  | variableLength {encoding : FieldEncoding} {shift : ℕ}
      (harray : array ≠ .none ∧ array ≠ .fixed) (hshift : shiftOfEncoding encoding = some shift) :
      Shape array size format ⟨withFlags encoding FieldEncoding.vArrayFlag, format, 0, shift⟩

/-- The shape of a single value. -/
theorem scalar_shape (size : ℕ) (format : FieldFormat) :
    Shape .none size format (scalar size format) := by
  unfold scalar
  split
  · rename_i encoding shift hfound
    obtain ⟨hshift, hsize⟩ := encodingOfSize_eq_some hfound
    exact .scalar (Or.inl rfl) hshift hsize
  · exact .dump

/-- The shape of an array of fixed length. -/
theorem fixed_shape {build : Build} {size specifiedArrayCount : ℕ}
    {specifiedEncoding : FieldEncoding} {format : FieldFormat} {deduced : Deduced}
    (h : fixed build size specifiedArrayCount specifiedEncoding format = .ok deduced) :
    Shape .fixed size format deduced := by
  unfold fixed at h
  by_cases hcount : specifiedArrayCount = 0
  · rw [if_pos hcount] at h
    split at h
    · rename_i shift hshift
      split_ifs at h with hdivides
      · obtain rfl := Except.ok.inj h
        exact .dump
      · obtain rfl := Except.ok.inj h
        apply Shape.constant rfl hshift
        exact (Nat.div_mul_cancel (Nat.dvd_of_mod_eq_zero (not_not.1 hdivides))).symm
    · obtain ⟨_, _, h⟩ := bind_eq_ok.1 h
      obtain rfl := Except.ok.inj h
      exact .dump
  · rw [if_neg hcount] at h
    split_ifs at h with hdivides
    · obtain rfl := Except.ok.inj h
      exact .dump
    · split at h
      · rename_i encoding shift hfound
        obtain rfl := Except.ok.inj h
        obtain ⟨hshift, hsize⟩ := encodingOfSize_eq_some hfound
        apply Shape.constant rfl hshift
        rw [← hsize]
        exact (Nat.mul_div_cancel' (Nat.dvd_of_mod_eq_zero (not_not.1 hdivides))).symm
      · obtain rfl := Except.ok.inj h
        exact .dump

/-- The shape of data of variable length. -/
theorem variableLength_shape {build : Build} {array : PerfFieldArray} {size : ℕ}
    {specifiedEncoding : FieldEncoding} {format : FieldFormat} {deduced : Deduced}
    (harray : array ≠ .none ∧ array ≠ .fixed)
    (h : variableLength build specifiedEncoding format = .ok deduced) :
    Shape array size format deduced := by
  unfold variableLength at h
  split at h
  · rename_i shift hshift
    obtain rfl := Except.ok.inj h
    exact .variableLength harray hshift
  · obtain ⟨_, _, h⟩ := bind_eq_ok.1 h
    obtain rfl := Except.ok.inj h
    exact .dump

/-- Everything that is deduced has a shape. Assumes: a field of one byte is not of variable
length. -/
theorem of_shape {build : Build} {array : PerfFieldArray} {size specifiedArrayCount : ℕ}
    {specifiedEncoding : FieldEncoding} {specifiedFormat : FieldFormat} {signed : Option Bool}
    {deduced : Deduced} (hone : size = 1 → array = .none ∨ array = .fixed)
    (h : of build array size specifiedArrayCount specifiedEncoding specifiedFormat signed
      = .ok deduced) :
    Shape array size (applySigned specifiedFormat signed) deduced := by
  unfold of at h
  dsimp only at h
  by_cases hstring : specifiedFormat = FieldFormat.string8
  · rw [if_pos hstring] at h
    obtain ⟨_, _, h⟩ := bind_eq_ok.1 h
    obtain rfl := Except.ok.inj h
    split_ifs with hsize
    · exact .scalar (hone hsize) rfl hsize
    · exact .text (by decide)
  · rw [if_neg hstring] at h
    by_cases hbytes : specifiedFormat = FieldFormat.hexBytes
    · rw [if_pos hbytes] at h
      obtain ⟨_, _, h⟩ := bind_eq_ok.1 h
      obtain rfl := Except.ok.inj h
      split_ifs
      · exact .text (by decide)
      · exact .text (by decide)
    · rw [if_neg hbytes] at h
      cases array with
      | none =>
        obtain rfl := Except.ok.inj h
        exact scalar_shape size _
      | fixed => exact fixed_shape h
      | _ => exact variableLength_shape (by decide) h

/-- The sign of a format is no chain flag. -/
theorem applySigned_format {format : FieldFormat} (h : FieldFormat.hasChainFlag format = false)
    (signed : Option Bool) : FieldFormat.hasChainFlag (applySigned format signed) = false := by
  unfold applySigned
  split_ifs
  · rcases signed with _ | _ | _
    · exact h
    · dsimp only
      decide
    · dsimp only
      decide
  · exact h

end Deduced

namespace PerfFieldFormat

variable {build : Build} {format : PerfFieldFormat}

/-- The properties that `new` deduces for a format. -/
def deduced (format : PerfFieldFormat) : Deduced :=
  ⟨format.deducedEncoding, format.deducedFormat, format.deducedArrayCount, format.elementSizeShift⟩

/-- The deduced properties of a format have a shape. -/
theorem Constructed.shape (h : format.Constructed build) :
    ∃ shown, FieldFormat.hasChainFlag shown = false ∧
      Deduced.Shape format.array format.size shown format.deduced := by
  obtain ⟨longIs64Bits, field, offset, size, signed, found, h⟩ := h.declaration
  unfold ofDeclaration at h
  obtain ⟨baseType, _, h⟩ := bind_eq_ok.1 h
  obtain ⟨deduced, hdeduced, h⟩ := bind_eq_ok.1 h
  obtain ⟨_, _, h⟩ := bind_eq_ok.1 h
  obtain rfl := Except.ok.inj h
  have hone : size = 1 → found.array size = .none ∨ found.array size = .fixed := by
    rintro rfl
    exact array_of_size_one found
  have hplain := found.specified_format longIs64Bits baseType
  exact ⟨_, Deduced.applySigned_format hplain signed, Deduced.of_shape hone hdeduced⟩

end PerfFieldFormat

/-! ### Making values -/

namespace Deduced

/-- The encodings that have a shift. -/
theorem shiftOfEncoding_cases {encoding : FieldEncoding} {shift : ℕ}
    (h : shiftOfEncoding encoding = some shift) :
    encoding = FieldEncoding.value8 ∧ shift = 0 ∨ encoding = FieldEncoding.value16 ∧ shift = 1 ∨
      encoding = FieldEncoding.value32 ∧ shift = 2 ∨ encoding = FieldEncoding.value64 ∧ shift = 3 := by
  unfold shiftOfEncoding at h
  split_ifs at h with h8 h16 h32 h64
  · exact Or.inl ⟨h8, (Option.some.inj h).symm⟩
  · exact Or.inr (Or.inl ⟨h16, (Option.some.inj h).symm⟩)
  · exact Or.inr (Or.inr (Or.inl ⟨h32, (Option.some.inj h).symm⟩))
  · exact Or.inr (Or.inr (Or.inr ⟨h64, (Option.some.inj h).symm⟩))

/-- What `PerfItemMetadata::new` asserts of an encoding, and that the encoding is not `Invalid`. -/
def PlainEncoding (encoding : FieldEncoding) : Prop :=
  FieldEncoding.hasChainFlag encoding = false ∧
    FieldEncoding.arrayFlags encoding ≠ FieldEncoding.arrayFlagMask ∧
    FieldEncoding.withoutFlags encoding ≠ FieldEncoding.struct ∧
    FieldEncoding.withoutFlags encoding ≠ FieldEncoding.invalid
  deriving Decidable

namespace Shape

variable {array : PerfFieldArray} {size : ℕ} {format : FieldFormat} {deduced : Deduced}

/-- Deduced encodings are plain. -/
theorem plainEncoding (h : Shape array size format deduced) : PlainEncoding deduced.encoding := by
  cases h with
  | text hencoding =>
    simp only [List.mem_cons, List.not_mem_nil, or_false] at hencoding
    dsimp only
    rcases hencoding with rfl | rfl | rfl <;> decide
  | dump => decide
  | scalar _ hshift _ | constant _ hshift _ | variableLength _ hshift =>
    dsimp only
    rcases shiftOfEncoding_cases hshift with ⟨rfl, -⟩ | ⟨rfl, -⟩ | ⟨rfl, -⟩ | ⟨rfl, -⟩
    all_goals decide

/-- Deduced formats have no chain flag where the specified one has none. -/
theorem format_chain (h : Shape array size format deduced)
    (hformat : FieldFormat.hasChainFlag format = false) :
    FieldFormat.hasChainFlag deduced.format = false := by
  cases h with
  | dump => decide
  | _ => exact hformat

/-- Without an array flag the count is one. -/
theorem count_eq_one (h : Shape array size format deduced)
    (harray : FieldEncoding.isArray deduced.encoding = false) : deduced.arrayCount = 1 := by
  cases h with
  | text | dump | scalar => rfl
  | constant _ hshift _ | variableLength _ hshift =>
    dsimp only at harray
    rcases shiftOfEncoding_cases hshift with ⟨rfl, -⟩ | ⟨rfl, -⟩ | ⟨rfl, -⟩ | ⟨rfl, -⟩
    all_goals exact absurd harray (by decide)

end Shape

end Deduced

namespace PerfFieldFormat

variable {build : Build} (format : PerfFieldFormat) (order : ByteOrder)

/-- The metadata of a value with a count of elements. -/
def itemMetadata (elementCount : ℕ) : PerfItemMetadata :=
  { elementCount := elementCount
    fieldTag := 0
    typeSize := format.elementSize
    encodingAndArrayFlagAndIsScalar := format.deducedEncoding |||
      (if (!FieldEncoding.isArray format.deducedEncoding) then FieldEncoding.chainFlag else 0)
    format := format.deducedFormat
    byteReader := order }

variable {format}

/-- The chain flag hides no value bits. -/
theorem withoutFlags_or_chainFlag (encoding : FieldEncoding) (isScalar : Bool) :
    FieldEncoding.withoutFlags (encoding ||| (if isScalar then FieldEncoding.chainFlag else 0))
      = FieldEncoding.withoutFlags encoding := by
  cases encoding with | ofBitVec bits => revert bits isScalar; decide

/-- A value that is made has the metadata of the format and the given bytes. -/
theorem makeValue_eq_ok {bytes : List UInt8} {count : ℕ} {value : PerfItemValue}
    (h : format.makeValue build order bytes count = .ok value) :
    value = ⟨bytes, format.itemMetadata order count⟩ := by
  unfold makeValue PerfItemMetadata.new PerfItemValue.new at h
  obtain ⟨metadata, hmetadata, h⟩ := bind_eq_ok.1 h
  obtain ⟨_, _, h⟩ := bind_eq_ok.1 h
  obtain ⟨_, _, h⟩ := bind_eq_ok.1 h
  obtain ⟨_, _, hmetadata⟩ := bind_eq_ok.1 hmetadata
  obtain ⟨_, _, hmetadata⟩ := bind_eq_ok.1 hmetadata
  obtain ⟨_, _, hmetadata⟩ := bind_eq_ok.1 hmetadata
  obtain ⟨_, _, hmetadata⟩ := bind_eq_ok.1 hmetadata
  obtain ⟨_, _, hmetadata⟩ := bind_eq_ok.1 hmetadata
  obtain rfl := Except.ok.inj h
  obtain rfl := Except.ok.inj hmetadata
  rfl

/-- Values of a field are not the invalid value. -/
theorem Constructed.itemMetadata_encoding (h : format.Constructed build) (count : ℕ) :
    (format.itemMetadata order count).encoding ≠ FieldEncoding.invalid := by
  obtain ⟨_, _, hshape⟩ := h.shape
  unfold itemMetadata PerfItemMetadata.encoding
  rw [withoutFlags_or_chainFlag]
  exact hshape.plainEncoding.2.2.2

/-- Making a value does not fault where its size is that of its elements. -/
theorem Constructed.makeValue_ok (h : format.Constructed build) {bytes : List UInt8} {count : ℕ}
    (hcount : FieldEncoding.isArray format.deducedEncoding = false → count = 1)
    (hlength : format.elementSize ≠ 0 → bytes ≠ [] → bytes.length = format.elementSize * count) :
    format.makeValue build order bytes count = .ok ⟨bytes, format.itemMetadata order count⟩ := by
  obtain ⟨shown, hchain, hshape⟩ := h.shape
  have hencodingPlain : Deduced.PlainEncoding format.deducedEncoding := hshape.plainEncoding
  obtain ⟨hplain, hflags, hstruct, _⟩ := hencodingPlain
  have hformat := hshape.format_chain hchain
  have hscalar : if (!FieldEncoding.isArray format.deducedEncoding) then count = 1
      else FieldEncoding.isArray format.deducedEncoding := by
    cases harray : FieldEncoding.isArray format.deducedEncoding with
    | false => exact hcount harray
    | true => rfl
  have hencoding : (format.itemMetadata order count).encoding = FieldEncoding.struct → bytes = [] := by
    intro hbad
    unfold itemMetadata PerfItemMetadata.encoding at hbad
    rw [withoutFlags_or_chainFlag] at hbad
    exact absurd hbad hstruct
  have hfull : (format.itemMetadata order count).typeSize ≠ 0 ∧ bytes ≠ [] → bytes.length
      = (format.itemMetadata order count).typeSize * (format.itemMetadata order count).elementCount :=
    fun hne ↦ hlength hne.1 hne.2
  unfold makeValue PerfItemMetadata.new
  rw [debugAssert_of (Bool.not_eq_true _ ▸ hplain), ok_bind,
    debugAssert_of (Bool.not_eq_true _ ▸ hformat), ok_bind, debugAssert_of hflags, ok_bind,
    debugAssert_of hscalar, ok_bind, debugAssert_of (fun hbad ↦ absurd hbad hstruct), ok_bind,
    ok_bind]
  change PerfItemValue.new build bytes (format.itemMetadata order count) = _
  unfold PerfItemValue.new
  rw [debugAssert_of hfull, ok_bind, debugAssert_of hencoding, ok_bind]

end PerfFieldFormat

end Tracepoints
