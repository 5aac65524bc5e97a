import Tracepoints.Builder.EventBuilder
import Tracepoints.Enumerator.DecodedEvent
import Tracepoints.Provider.CommandString

/-!
# Builder round trip

What an `EventBuilder` writes, the enumerator shows again (`builder_roundTrip`). The calls that add fields
are grouped under the structs that they belong to (`groupFields`); the forest that this gives has the bytes
that the builder has collected (`groupFields_spec`), and it is well formed, so that the enumerator reads it
back. The size check of `EventBuilder::write` keeps every count below the bound of its two bytes.
-/

set_option autoImplicit false
set_option relaxedAutoImplicit false

namespace Tracepoints

open Exec

/-! ### Writing -/

namespace EventBuilder

/-- `write`: the bytes that are sent behind the write index, or `ERANGE`. -/
def write (build : Build) (builder : EventBuilder) (level : UInt8)
    (activityId relatedId : Option (Vector UInt8 16)) : Exec (Except ℕ (List UInt8)) := do
  debugAssert build (relatedId.isNone ∨ activityId.isSome)
  if builder.metadata.length + builder.data.length > 65535 - (52 + 16) then .ok (.error 34)
  else do
    let bytes ← writeEventheader build
      { flags := builder.flags
        version := builder.version
        id := builder.id.toNat
        tag := builder.tag.toNat
        opcode := builder.opcode
        level := level }
      activityId relatedId (builder.metadata.length % 65536) [builder.metadata, builder.data]
    .ok (.ok bytes)

/-- A sequence of calls that adds fields. -/
def addFields (build : Build) (builder : EventBuilder) (calls : List FieldCall) : Exec EventBuilder :=
  calls.foldlM (FieldCall.run build) builder

/-- The elements of a string before its first zero. -/
def cstrElements {size : CharSize} (value : List size.Char) : List size.Char :=
  value.takeWhile fun element ↦ element.1 ≠ size.zero.1

theorem cstrBytes_eq {size : CharSize} (value : List size.Char) :
    cstrBytes value = ((cstrElements value).flatMap fun element ↦ element.1) ++ size.zero.1 := by
  unfold cstrBytes cstrElements
  induction value with
  | nil => rfl
  | cons first value ih =>
    rw [List.findIdx?_cons, List.takeWhile_cons]
    by_cases hzero : first.1 = size.zero.1
    · simp [hzero]
    · simp only [hzero, decide_false, Bool.false_eq_true, if_false, decide_true, ne_eq,
        not_false_eq_true, if_true, List.flatMap_cons]
      refine Eq.trans ?_ ((congrArg (first.1 ++ ·) ih).trans (List.append_assoc _ _ _).symm)
      cases value.findIdx? fun element ↦ element.1 = size.zero.1 <;> simp

end EventBuilder

/-! ### Values -/

namespace FieldCall

open EventBuilder EventHeaderEnumeratorContext

/-- A value as it is. -/
def plainValue {size : ValueSize} (value : size.Value) : EncodedValue := ⟨value.1, value.1⟩

/-- A string that ends at its first zero. -/
def cstrValue {size : CharSize} (value : List size.Char) : EncodedValue :=
  ⟨cstrBytes value, (cstrElements value).flatMap fun element ↦ element.1⟩

/-- A string with its length. -/
def countedValue (build : Build) {size : ValueSize} (value : List size.Value) : EncodedValue :=
  ⟨countedBytes build value, value.flatMap fun element ↦ element.1⟩

/-- What a call adds beside the definition of its field. -/
inductive Payload
  | value (value : EncodedValue)
  | sequence (values : List EncodedValue)
  | struct

/-- The values that a call adds. -/
def payload (build : Build) : FieldCall → Payload
  | addValue _ value _ _ => .value (plainValue value)
  | addValueSequence _ values _ _ => .sequence (values.map plainValue)
  | addStr _ value _ _ => .value (countedValue build value)
  | addStrSequence _ values _ _ => .sequence (values.map (countedValue build))
  | addCstr _ value _ _ => .value (cstrValue value)
  | addCstrSequence _ values _ _ => .sequence (values.map cstrValue)
  | addBinary _ value _ _ => .value (countedValue build value)
  | addBinarySequence _ values _ _ => .sequence (values.map (countedValue build))
  | addStruct _ _ _ => .struct

/-- The definition of the field that a call adds. -/
def decl (build : Build) (call : FieldCall) : FieldDecl where
  name := call.fieldName
  fieldType := ⟨call.encoding, call.format, call.fieldTag.toNat⟩
  typeBytes := typeBytes build call.encoding call.format call.fieldTag

theorem bytes_decl (build : Build) (call : FieldCall) : (call.decl build).bytes = call.metaBytes build :=
  rfl

theorem plainValue_written (order : ByteOrder) {size : ValueSize} (value : size.Value) :
    ValueWritten order size.valueEncoding (plainValue value) := by
  refine @ValueWritten.fixed order size.valueEncoding size.byteCount value.1 ?_ ?_ value.2 <;>
    cases size <;> decide

theorem zero_of_all {size : ℕ} {bytes : List UInt8} (hlength : bytes.length = size)
    (hall : bytes.all (· = 0) = true) : bytes = List.replicate size 0 := by
  rw [List.eq_replicate_iff]
  exact ⟨hlength, fun byte hbyte ↦ by simpa using List.all_eq_true.mp hall byte hbyte⟩

theorem cstrValue_written (order : ByteOrder) {size : CharSize} (value : List size.Char) :
    ValueWritten order size.zstringEncoding (cstrValue value) := by
  have hwritten := @ValueWritten.zstring order size.zstringEncoding size.valueSize.byteCount
    ((cstrElements value).map fun element ↦ element.1) (by cases size <;> decide) (by
      intro bytes hbytes
      obtain ⟨element, helement, rfl⟩ := List.mem_map.mp hbytes
      refine ⟨element.2, Bool.eq_false_iff.mpr fun hall ↦ ?_⟩
      have hne := List.mem_takeWhile_imp helement
      exact (of_decide_eq_true hne) (zero_of_all element.2 hall))
  unfold cstrValue
  rw [cstrBytes_eq]
  exact hwritten

theorem flatMap_value_length {size : ValueSize} (value : List size.Value) :
    (value.flatMap fun element ↦ element.1).length = value.length * size.byteCount := by
  induction value with
  | nil => simp
  | cons element value ih =>
    rw [List.flatMap_cons, List.length_append, ih, element.2, List.length_cons, Nat.add_mul, Nat.one_mul,
      Nat.add_comm]

theorem byteCount_pos (size : ValueSize) : 0 < size.byteCount := by cases size <;> decide

/-- A string whose bytes are few has its length in front. -/
theorem countedBytes_short {build : Build} {size : ValueSize} {value : List size.Value}
    (h : (countedBytes build value).length ≤ 65535) :
    value.length ≤ 65535 ∧ countedBytes build value =
      build.targetEndian.toBytes 2 value.length ++ value.flatMap fun element ↦ element.1 := by
  have hpos := byteCount_pos size
  unfold countedBytes at h ⊢
  split_ifs at h ⊢ with hlong
  · rw [List.length_append, ByteOrder.length_toBytes, flatMap_value_length, List.length_take] at h
    have hmul : 65535 ≤ min 65535 value.length * size.byteCount := by
      rw [Nat.min_eq_left (by omega)]
      exact Nat.le_mul_of_pos_right _ hpos
    omega
  · exact ⟨by omega, rfl⟩

theorem countedValue_written {build : Build} {size : ValueSize} {encoding : FieldEncoding} {shift : ℕ}
    (hencoding : (encoding, shift) ∈ countedEncodings) (hshift : size.byteCount = 2 ^ shift)
    {value : List size.Value} (h : (countedBytes build value).length ≤ 65535) :
    ValueWritten build.targetEndian encoding (countedValue build value) := by
  obtain ⟨hlength, hbytes⟩ := countedBytes_short h
  unfold countedValue
  rw [hbytes]
  exact .counted hencoding (by omega) (by rw [flatMap_value_length, hshift])

theorem length_toBytes_le_countedBytes (build : Build) {size : ValueSize} (value : List size.Value) :
    1 ≤ (countedBytes build value).length := by
  unfold countedBytes
  split_ifs <;>
    · rw [List.length_append, ByteOrder.length_toBytes]
      omega

/-- A sequence whose bytes are few has its length in front, and its values have few bytes. -/
theorem rangeBytes_short {build : Build} {α : Type} {itemBytes : α → List UInt8} {values : List α}
    (hitem : ∀ value, 1 ≤ (itemBytes value).length)
    (h : (rangeBytes build itemBytes values).length ≤ 65535) :
    values.length < 65536 ∧
      rangeBytes build itemBytes values =
        build.targetEndian.toBytes 2 values.length ++ values.flatMap itemBytes ∧
      ∀ value ∈ values, (itemBytes value).length ≤ 65535 := by
  have hlength (part : List α) : part.length ≤ (part.flatMap itemBytes).length := by
    induction part with
    | nil => exact Nat.zero_le _
    | cons value part ih =>
      have hvalue := hitem value
      rw [List.flatMap_cons, List.length_append, List.length_cons]
      omega
  have hpart := hlength (values.take 65535)
  unfold rangeBytes at h ⊢
  rw [List.length_append, ByteOrder.length_toBytes] at h
  rw [List.length_take] at hpart
  have hshort : values.length ≤ 65535 := by omega
  rw [List.take_of_length_le hshort] at h ⊢
  rw [Nat.min_eq_left hshort]
  refine ⟨by omega, rfl, fun value hvalue ↦ ?_⟩
  have hle := (List.sublist_flatten_of_mem (@List.mem_map_of_mem _ _ _ _ itemBytes hvalue)).length_le
  rw [← List.flatMap_def] at hle
  omega

/-! ### Definitions -/

/-- What the flags of an encoding are when the builder adds none or that of a sequence. -/
theorem flags_facts (encoding : FieldEncoding) (h : encoding &&& FieldEncoding.flagMask = 0) :
    (FieldEncoding.isArray encoding = false ∧ FieldEncoding.withoutFlags encoding = encoding ∧
      FieldEncoding.hasChainFlag encoding = false) ∧
    FieldEncoding.isVariableLengthArray (encoding ||| FieldEncoding.vArrayFlag) = true ∧
      FieldEncoding.isConstantLengthArray (encoding ||| FieldEncoding.vArrayFlag) = false ∧
      FieldEncoding.withoutFlags (encoding ||| FieldEncoding.vArrayFlag) = encoding ∧
      FieldEncoding.hasChainFlag (encoding ||| FieldEncoding.vArrayFlag) = false := by
  cases encoding with | ofBitVec bits => revert bits; decide +kernel

/-- The type of a field is written as the enumerator reads it. -/
theorem typeBytes_written (build : Build) (encoding : FieldEncoding) (format : FieldFormat)
    (fieldTag : UInt16) :
    TypeWritten build.targetEndian ⟨encoding, format, fieldTag.toNat⟩
      (typeBytes build encoding format fieldTag) := by
  have hencoding : 0x80 ||| encoding = encoding ||| FieldEncoding.chainFlag := UInt8.or_comm _ _
  have hformat : 0x80 ||| format = format ||| FieldFormat.chainFlag := UInt8.or_comm _ _
  unfold typeBytes
  rw [hencoding, hformat]
  split_ifs with htag hzero
  · exact .tagged fieldTag.toNat_lt
  · obtain rfl : fieldTag = 0 := not_not.mp htag
    exact .formatted
  · obtain rfl : fieldTag = 0 := not_not.mp htag
    obtain rfl : format = 0 := not_not.mp hzero
    exact .short

/-- What is asked of a call: a name without NUL, a format below `0x80` and, for a struct, a count of
fields from 1 to 127. -/
def Allowed : FieldCall → Prop
  | addStruct name count _ => 0 ∉ name ∧ 1 ≤ count ∧ count ≤ 127
  | call => 0 ∉ call.fieldName ∧ call.format < 0x80

theorem Allowed.name {call : FieldCall} (h : call.Allowed) : 0 ∉ call.fieldName := by
  cases call <;> exact h.1

theorem format_facts (format : FieldFormat) (h : format < 0x80) :
    FieldFormat.hasChainFlag format = false := by
  cases format with | ofBitVec bits => revert bits; decide +kernel

theorem count_facts (count : UInt8) (h : 1 ≤ count) (h' : count ≤ 127) :
    count &&& FieldFormat.valueMask = count ∧ count ≠ 0 ∧ FieldFormat.hasChainFlag count = false := by
  cases count with | ofBitVec bits => revert bits; decide +kernel

theorem Allowed.format {call : FieldCall} (h : call.Allowed) :
    FieldFormat.hasChainFlag call.format = false := by
  cases call with
  | addStruct name count tag =>
    obtain ⟨hmask, -, hchain⟩ := count_facts count h.2.1 h.2.2
    show FieldFormat.hasChainFlag (count &&& FieldFormat.valueMask) = false
    rwa [hmask]
  | _ => exact format_facts _ h.2

theorem encoding_chain (call : FieldCall) : FieldEncoding.hasChainFlag call.encoding = false := by
  cases call with
  | addValue => exact (flags_facts _ (valueEncoding_flags _)).1.2.2
  | addValueSequence => exact (flags_facts _ (valueEncoding_flags _)).2.2.2.2
  | addStr => exact (flags_facts _ (encoding_flags _).1).1.2.2
  | addStrSequence => exact (flags_facts _ (encoding_flags _).1).2.2.2.2
  | addCstr => exact (flags_facts _ (encoding_flags _).2).1.2.2
  | addCstrSequence => exact (flags_facts _ (encoding_flags _).2).2.2.2.2
  | addBinary => exact (flags_facts binaryEncoding (by decide)).1.2.2
  | addBinarySequence => exact (flags_facts binaryEncoding (by decide)).2.2.2.2
  | addStruct => exact (flags_facts FieldEncoding.struct (by decide)).1.2.2

/-- The definition that a call adds is written as it should be. -/
theorem Allowed.valid {call : FieldCall} (h : call.Allowed) (build : Build) :
    (call.decl build).Valid build.targetEndian where
  name := h.name
  written := typeBytes_written build call.encoding call.format call.fieldTag
  encoding := call.encoding_chain
  format := h.format

/-! ### Payloads -/

/-- The bytes of a payload. -/
def Payload.bytes (order : ByteOrder) : Payload → List UInt8
  | value v => v.raw
  | sequence vs => order.toBytes 2 vs.length ++ vs.flatMap EncodedValue.raw
  | struct => []

/-- What the type of a field says of its payload. -/
def Payload.Written (order : ByteOrder) (typ : FieldType) : Payload → Prop
  | value v =>
    FieldEncoding.isArray typ.encoding = false ∧
      ValueWritten order (FieldEncoding.withoutFlags typ.encoding) v
  | sequence vs =>
    FieldEncoding.isVariableLengthArray typ.encoding = true ∧
      FieldEncoding.isConstantLengthArray typ.encoding = false ∧
      FieldEncoding.withoutFlags typ.encoding ≠ FieldEncoding.struct ∧
      (∃ size, arrayElementSize (FieldEncoding.withoutFlags typ.encoding) = .ok size) ∧
      (∀ v ∈ vs, ValueWritten order (FieldEncoding.withoutFlags typ.encoding) v) ∧ vs.length < 65536
  | struct => typ.encoding = FieldEncoding.struct ∧ typ.format ≠ FieldFormat.default

theorem Payload.written_value {order : ByteOrder} {encoding : FieldEncoding} {format : FieldFormat}
    {tag : ℕ} {value : EncodedValue} (hflags : encoding &&& FieldEncoding.flagMask = 0)
    (hvalue : ValueWritten order encoding value) :
    Payload.Written order ⟨encoding, format, tag⟩ (.value value) := by
  obtain ⟨hscalar, hencoding, -⟩ := (flags_facts encoding hflags).1
  refine ⟨hscalar, ?_⟩
  rwa [hencoding]

/-- A sequence of values of an encoding is written, if its values are. -/
theorem Payload.written_sequence {order : ByteOrder} {encoding : FieldEncoding} {format : FieldFormat}
    {tag : ℕ} {values : List EncodedValue} (hflags : encoding &&& FieldEncoding.flagMask = 0)
    (hstruct : encoding ≠ FieldEncoding.struct) (hsize : ∃ size, arrayElementSize encoding = .ok size)
    (hlength : values.length < 65536) (hvalues : ∀ value ∈ values, ValueWritten order encoding value) :
    Payload.Written order ⟨encoding ||| FieldEncoding.vArrayFlag, format, tag⟩ (.sequence values) := by
  obtain ⟨hvariable, hconstant, hencoding, -⟩ := (flags_facts encoding hflags).2
  refine ⟨hvariable, hconstant, ?_, ?_, ?_, hlength⟩
  · rwa [hencoding]
  · rwa [hencoding]
  · rwa [hencoding]

/-- The encodings of values are known to the enumerator. -/
theorem value_known (size : ValueSize) :
    size.valueEncoding ≠ FieldEncoding.struct ∧
      ∃ elementSize, arrayElementSize size.valueEncoding = .ok elementSize := by
  cases size <;> exact ⟨by decide, _, rfl⟩

theorem string_known (size : CharSize) :
    size.stringEncoding ≠ FieldEncoding.struct ∧
      ∃ elementSize, arrayElementSize size.stringEncoding = .ok elementSize := by
  cases size <;> exact ⟨by decide, _, rfl⟩

theorem zstring_known (size : CharSize) :
    size.zstringEncoding ≠ FieldEncoding.struct ∧
      ∃ elementSize, arrayElementSize size.zstringEncoding = .ok elementSize := by
  cases size <;> exact ⟨by decide, _, rfl⟩

theorem stringValue_written {build : Build} {size : CharSize} {value : List size.Char}
    (h : (countedBytes build value).length ≤ 65535) :
    ValueWritten build.targetEndian size.stringEncoding (countedValue build value) := by
  cases size with
  | size1 => exact @countedValue_written build .size1 _ 0 (by decide) rfl value h
  | size2 => exact @countedValue_written build .size2 _ 1 (by decide) rfl value h
  | size4 => exact @countedValue_written build .size4 _ 2 (by decide) rfl value h

theorem binaryValue_written {build : Build} {value : List CharSize.size1.Char}
    (h : (countedBytes build value).length ≤ 65535) :
    ValueWritten build.targetEndian binaryEncoding (countedValue build value) :=
  @countedValue_written build .size1 binaryEncoding 0 (by decide) rfl value h

theorem length_cstrBytes_pos {size : CharSize} (value : List size.Char) : 1 ≤ (cstrBytes value).length := by
  have hpos := byteCount_pos size.valueSize
  have hzero := size.zero.2
  rw [cstrBytes_eq, List.length_append]
  omega

/-- A sequence whose bytes are few is written, if values with few bytes are. -/
theorem sequence_spec {build : Build} {α : Type} {itemBytes : α → List UInt8} {toValue : α → EncodedValue}
    {encoding : FieldEncoding} {format : FieldFormat} {tag : ℕ} {values : List α}
    (hraw : ∀ value, (toValue value).raw = itemBytes value)
    (hitem : ∀ value, 1 ≤ (itemBytes value).length)
    (hflags : encoding &&& FieldEncoding.flagMask = 0)
    (hknown : encoding ≠ FieldEncoding.struct ∧ ∃ size, arrayElementSize encoding = .ok size)
    (hvalue : ∀ value, (itemBytes value).length ≤ 65535 →
      ValueWritten build.targetEndian encoding (toValue value))
    (hshort : (rangeBytes build itemBytes values).length ≤ 65535) :
    rangeBytes build itemBytes values =
        (Payload.sequence (values.map toValue)).bytes build.targetEndian ∧
      (Payload.sequence (values.map toValue)).Written build.targetEndian
        ⟨encoding ||| FieldEncoding.vArrayFlag, format, tag⟩ := by
  obtain ⟨hlength, hbytes, hitems⟩ := rangeBytes_short hitem hshort
  constructor
  · rw [hbytes]
    dsimp only [Payload.bytes]
    rw [List.length_map, List.flatMap_map]
    simp only [hraw]
  · refine Payload.written_sequence hflags hknown.1 hknown.2 (by rwa [List.length_map]) ?_
    intro encoded hencoded
    obtain ⟨value, hmem, rfl⟩ := List.mem_map.mp hencoded
    exact hvalue value (hitems value hmem)

/-- A call whose data is short adds its payload, as the type of the field says. -/
theorem payload_spec {build : Build} {call : FieldCall} (hallowed : call.Allowed)
    (hshort : (call.dataBytes build).length ≤ 65535) :
    call.dataBytes build = (call.payload build).bytes build.targetEndian ∧
      (call.payload build).Written build.targetEndian (call.decl build).fieldType := by
  cases call with
  | addValue name value format tag =>
    exact ⟨rfl, Payload.written_value (valueEncoding_flags _) (plainValue_written _ value)⟩
  | @addValueSequence name size values format tag =>
    refine sequence_spec (fun _ ↦ rfl) (fun value ↦ ?_) (valueEncoding_flags _) (value_known size)
      (fun value _ ↦ plainValue_written _ value) hshort
    rw [value.2]
    exact byteCount_pos size
  | addStr name value format tag =>
    exact ⟨rfl, Payload.written_value (encoding_flags _).1 (stringValue_written hshort)⟩
  | @addStrSequence name size values format tag =>
    exact sequence_spec (fun _ ↦ rfl) (length_toBytes_le_countedBytes build) (encoding_flags _).1
      (string_known size) (fun value ↦ stringValue_written) hshort
  | addCstr name value format tag =>
    exact ⟨rfl, Payload.written_value (encoding_flags _).2 (cstrValue_written _ value)⟩
  | @addCstrSequence name size values format tag =>
    exact sequence_spec (fun _ ↦ rfl) length_cstrBytes_pos (encoding_flags _).2 (zstring_known size)
      (fun value _ ↦ cstrValue_written _ value) hshort
  | addBinary name value format tag =>
    exact ⟨rfl, @Payload.written_value _ binaryEncoding _ _ _ (by decide) (binaryValue_written hshort)⟩
  | addBinarySequence name values format tag =>
    exact @sequence_spec build _ _ _ binaryEncoding _ _ _ (fun _ ↦ rfl)
      (length_toBytes_le_countedBytes build) (by decide) ⟨by decide, _, rfl⟩
      (fun value ↦ binaryValue_written) hshort
  | addStruct name count tag =>
    obtain ⟨hmask, hzero, -⟩ := count_facts count hallowed.2.1 hallowed.2.2
    refine ⟨rfl, rfl, ?_⟩
    show count &&& FieldFormat.valueMask ≠ FieldFormat.default
    rw [hmask]
    exact hzero

/-! ### Groups -/

/-- The fields of calls, at most `limit` of them, each struct with its members, and the calls that are
left. There are at most as many nested steps as calls. -/
def groupFields (build : Build) : ℕ → ℕ → List FieldCall → FieldForest × List FieldCall
  | 0, _, calls => (.nil, calls)
  | _ + 1, 0, calls => (.nil, calls)
  | _ + 1, _ + 1, [] => (.nil, [])
  | fuel + 1, limit + 1, call :: calls =>
    match call.payload build with
    | .value value =>
      let (rest, left) := groupFields build fuel limit calls
      (.scalar (call.decl build) value rest, left)
    | .sequence values =>
      let (rest, left) := groupFields build fuel limit calls
      (.array (call.decl build) values rest, left)
    | .struct =>
      let (members, behind) := groupFields build fuel call.format.toNat calls
      let (rest, left) := groupFields build fuel limit behind
      (.struct (call.decl build) members rest, left)

/-- All the fields of calls. -/
def fieldsOf (build : Build) (calls : List FieldCall) : FieldForest :=
  (groupFields build calls.length calls.length calls).1

end FieldCall

/-- What may be missing at the end of the metadata may be missing only there. -/
theorem FieldForest.WellFormed.mono {order : ByteOrder} {forest : FieldForest}
    (h : forest.WellFormed order false) (last : Bool) : forest.WellFormed order last := by
  induction forest generalizing last with
  | nil => trivial
  | scalar decl value rest ih => exact ⟨h.1, h.2.1, h.2.2.1, ih h.2.2.2 last⟩
  | array decl elements rest ih =>
    obtain ⟨hvalid, hvariable, hconstant, hstruct, hsize, hvalues, hlength, hrest⟩ := h
    exact ⟨hvalid, hvariable, hconstant, hstruct, hsize, hvalues, hlength, ih hrest last⟩
  | struct decl members rest ihMembers ihRest =>
    obtain ⟨hvalid, hstruct, hformat, hcount, hmembers, hrest⟩ := h
    refine ⟨hvalid, hstruct, hformat, ?_, ihMembers hmembers _, ihRest hrest last⟩
    exact hcount.imp id fun h ↦ absurd h.2.1 Bool.false_ne_true

namespace FieldCall

/-- What `groupFields` gives for calls: fields that have the bytes of the calls that are not left, at most
`limit` of them, and fewer only when no call is left. -/
structure Grouped (build : Build) (limit : ℕ) (calls : List FieldCall) (forest : FieldForest)
    (left : List FieldCall) : Prop where
  metaBytes : calls.flatMap (metaBytes build) = forest.metaBytes ++ left.flatMap (metaBytes build)
  dataBytes : calls.flatMap (dataBytes build) =
    forest.dataBytes build.targetEndian ++ left.flatMap (dataBytes build)
  suffix : left <:+ calls
  length_le : forest.count + left.length ≤ calls.length
  count_le : forest.count ≤ limit
  full : forest.count = limit ∨ left = []
  wellFormed : forest.WellFormed build.targetEndian left.isEmpty

/-- The calls of an event: allowed ones with short data. -/
def Fits (build : Build) (calls : List FieldCall) : Prop :=
  ∀ call ∈ calls, call.Allowed ∧ (call.dataBytes build).length ≤ 65535

theorem grouped_nil (build : Build) (limit : ℕ) : Grouped build limit [] .nil [] :=
  ⟨rfl, rfl, List.suffix_rfl, le_rfl, Nat.zero_le _, Or.inr rfl, trivial⟩

theorem grouped_zero (build : Build) (calls : List FieldCall) : Grouped build 0 calls .nil calls :=
  ⟨rfl, rfl, List.suffix_rfl, (Nat.zero_add _).le, le_rfl, Or.inl rfl, trivial⟩

/-- A field that a call adds in front of other ones. -/
theorem Grouped.cons {build : Build} {limit : ℕ} {call : FieldCall} {calls left : List FieldCall}
    {rest forest : FieldForest} (h : Grouped build limit calls rest left)
    (hmeta : forest.metaBytes = call.metaBytes build ++ rest.metaBytes)
    (hdata : forest.dataBytes build.targetEndian =
      call.dataBytes build ++ rest.dataBytes build.targetEndian)
    (hcount : forest.count = rest.count + 1)
    (hwellFormed : forest.WellFormed build.targetEndian left.isEmpty) :
    Grouped build (limit + 1) (call :: calls) forest left where
  metaBytes := by rw [List.flatMap_cons, h.metaBytes, hmeta, List.append_assoc]
  dataBytes := by rw [List.flatMap_cons, h.dataBytes, hdata, List.append_assoc]
  suffix := h.suffix.trans (List.suffix_cons _ _)
  length_le := by
    have hlength := h.length_le
    rw [hcount, List.length_cons]
    omega
  count_le := by
    have hlimit := h.count_le
    rw [hcount]
    omega
  full := h.full.imp (fun h ↦ by rw [hcount, h]) id
  wellFormed := hwellFormed

/-- A struct in front of other fields, with its members. -/
theorem Grouped.struct {build : Build} {limit : ℕ} {call : FieldCall} {calls behind left : List FieldCall}
    {members rest : FieldForest} (hvalid : (call.decl build).Valid build.targetEndian)
    (hstruct : call.encoding = FieldEncoding.struct) (hformat : call.format ≠ FieldFormat.default)
    (hbytes : call.dataBytes build = [])
    (hmembers : Grouped build call.format.toNat calls members behind)
    (hrest : Grouped build limit behind rest left) :
    Grouped build (limit + 1) (call :: calls) (.struct (call.decl build) members rest) left where
  metaBytes := by
    rw [List.flatMap_cons, hmembers.metaBytes, hrest.metaBytes, ← bytes_decl]
    simp only [FieldForest.metaBytes, List.append_assoc]
  dataBytes := by
    rw [List.flatMap_cons, hmembers.dataBytes, hrest.dataBytes, hbytes]
    simp only [FieldForest.dataBytes, List.append_assoc, List.nil_append]
  suffix := hrest.suffix.trans (hmembers.suffix.trans (List.suffix_cons _ _))
  length_le := by
    have hinner := hmembers.length_le
    have hlength := hrest.length_le
    rw [FieldForest.count, List.length_cons]
    omega
  count_le := Nat.succ_le_succ hrest.count_le
  full := hrest.full.imp (congrArg (· + 1)) id
  wellFormed := by
    have hlength := hrest.length_le
    have hlimit := hmembers.count_le
    have hinner := hmembers.wellFormed
    refine ⟨hvalid, hstruct, hformat, ?_, ?_, hrest.wellFormed⟩
    · rcases hmembers.full with hfull | hempty
      · exact Or.inl hfull
      · -- no call is left behind an incomplete struct
        obtain rfl : behind = [] := hempty
        rw [List.length_nil] at hlength
        obtain rfl : left = [] := List.length_eq_zero_iff.mp (by omega)
        rcases hlimit.lt_or_eq with hless | heq
        · exact Or.inr ⟨hless, rfl, by omega⟩
        · exact Or.inl heq
    · cases hempty : behind.isEmpty with
      | false =>
        rw [hempty] at hinner
        exact hinner.mono _
      | true =>
        obtain rfl : behind = [] := List.isEmpty_iff.mp hempty
        rw [List.length_nil] at hlength
        obtain rfl : left = [] := List.length_eq_zero_iff.mp (by omega)
        rw [show (rest.count == 0) = true by rw [beq_iff_eq]; omega]
        exact hinner

/-- Calls are grouped. -/
theorem groupFields_spec {build : Build} (fuel limit : ℕ) {calls : List FieldCall}
    (hfuel : calls.length ≤ fuel) (hfits : Fits build calls) :
    Grouped build limit calls (groupFields build fuel limit calls).1
      (groupFields build fuel limit calls).2 := by
  induction fuel generalizing limit calls with
  | zero =>
    obtain rfl : calls = [] := List.length_eq_zero_iff.mp (Nat.le_zero.mp hfuel)
    exact grouped_nil build limit
  | succ fuel ih =>
    rcases limit with _ | limit
    · exact grouped_zero build calls
    rcases calls with _ | ⟨call, calls⟩
    · exact grouped_nil build _
    obtain ⟨⟨hallowed, hshort⟩, hothers⟩ := List.forall_mem_cons.mp hfits
    obtain ⟨hbytes, hwritten⟩ := payload_spec hallowed hshort
    have hvalid := hallowed.valid build
    rw [List.length_cons] at hfuel
    rw [groupFields]
    generalize call.payload build = payload at hbytes hwritten ⊢
    cases payload with
    | value value =>
      have hrest := ih limit (by omega) hothers
      exact hrest.cons rfl (by rw [hbytes]; rfl) rfl ⟨hvalid, hwritten.1, hwritten.2, hrest.wellFormed⟩
    | sequence values =>
      obtain ⟨hvariable, hconstant, hstruct, hsize, hvalues, hlength⟩ := hwritten
      have hrest := ih limit (by omega) hothers
      exact hrest.cons rfl (by rw [hbytes]; rfl) rfl
        ⟨hvalid, hvariable, hconstant, hstruct, hsize, hvalues, hlength, hrest.wellFormed⟩
    | struct =>
      have hmembers := ih call.format.toNat (by omega) hothers
      have hbehind := hmembers.suffix
      exact Grouped.struct hvalid hwritten.1 hwritten.2 hbytes hmembers
        (ih limit (hbehind.length_le.trans (by omega)) fun call hcall ↦ hothers call (hbehind.mem hcall))

/-- All the fields of calls have all their bytes. -/
theorem fieldsOf_spec {build : Build} {calls : List FieldCall} (hfits : Fits build calls) :
    Grouped build calls.length calls (fieldsOf build calls) [] := by
  have hgrouped := groupFields_spec calls.length calls.length le_rfl hfits
  have hlength := hgrouped.length_le
  have hleft : (groupFields build calls.length calls.length calls).2 = [] := by
    refine hgrouped.full.elim (fun hfull ↦ List.length_eq_zero_iff.mp ?_) id
    omega
  rw [hleft] at hgrouped
  exact hgrouped

/-- The assertions of an allowed call hold. -/
theorem Allowed.check {call : FieldCall} (h : call.Allowed) (build : Build) :
    call.check build = .ok () := by
  cases call with
  | addStruct name count tag =>
    obtain ⟨hmask, hzero, -⟩ := count_facts count h.2.1 h.2.2
    unfold FieldCall.check EventBuilder.maskFieldCount
    dsimp only
    rw [debugAssert_of hmask, ok_bind, hmask, if_pos hzero, ok_bind, debugAssert_of h.1]
  | _ => exact debugAssert_of h.name

end FieldCall

namespace EventBuilder

/-- Allowed calls append the definitions and the data of their fields. -/
theorem addFields_eq {build : Build} (builder : EventBuilder) {calls : List FieldCall}
    (hcalls : ∀ call ∈ calls, call.Allowed) :
    addFields build builder calls =
      .ok (builder.append (calls.flatMap (FieldCall.metaBytes build))
        (calls.flatMap (FieldCall.dataBytes build))) := by
  unfold addFields
  induction calls generalizing builder with
  | nil =>
    unfold append
    rw [List.flatMap_nil, List.flatMap_nil, List.append_nil, List.append_nil]
    rfl
  | cons call calls ih =>
    obtain ⟨hallowed, hothers⟩ := List.forall_mem_cons.mp hcalls
    rw [List.foldlM_cons, FieldCall.run_eq, hallowed.check, ok_bind, ok_bind, ih _ hothers,
      append_append, List.flatMap_cons, List.flatMap_cons]

/-- The calls that make an event: `reset`, `id_version`, `opcode` and the fields. -/
def make (build : Build) (name : List UInt8) (eventTag id : UInt16) (version opcode : UInt8)
    (calls : List FieldCall) : Exec EventBuilder := do
  let builder ← reset build name eventTag
  addFields build ((builder.idVersion id version).setOpcode opcode) calls

/-- The event that the calls describe. -/
def eventOf (build : Build) (name : List UInt8) (eventTag id : UInt16) (version opcode level : UInt8)
    (activityId relatedId : Option (Vector UInt8 16)) (calls : List FieldCall) : WrittenEvent where
  header :=
    { flags := HeaderFlags.defaultWithExtension build
      version := version
      id := id.toNat
      tag := eventTag.toNat
      opcode := opcode
      level := level }
  activityId := activityId
  relatedId := relatedId
  name := name
  fields := FieldCall.fieldsOf build calls

end EventBuilder

/-- A tracepoint name that carries a level: the enumerator takes it for events of that level. -/
def CarriesLevel (tracepointName : List UInt8) (level : UInt8) : Prop :=
  tracepointName.length < 256 ∧
    ∃ keyword, validateTracepointName tracepointName level = .ok (true, some keyword)

/-- The names of the tracepoints of a provider carry their level. -/
theorem carriesLevel_tracepointNameOf {name options : List UInt8} {level : UInt8} {keyword : UInt64}
    (hoptions : IsOptions options)
    (hlength : (tracepointNameOf name options level keyword).length < 256) :
    CarriesLevel (tracepointNameOf name options level keyword) level :=
  ⟨hlength, keyword.toNat, validateTracepointName_tracepointNameOf name level keyword hoptions⟩

theorem length_activityBlock_le (order : ByteOrder) (activityId relatedId : Option (Vector UInt8 16)) :
    (activityBlock order activityId relatedId).length ≤ 36 := by
  cases activityId with
  | none => exact Nat.zero_le _
  | some activityId =>
    cases relatedId with
    | none => simp [activityBlock, length_eventHeaderExtension]
    | some relatedId => simp [activityBlock, length_eventHeaderExtension]

namespace EventBuilder

section Event

variable {build : Build} {name : List UInt8} {eventTag id : UInt16} {version opcode level : UInt8}
  {activityId relatedId : Option (Vector UInt8 16)} {calls : List FieldCall}

/-- The builder that the calls make. -/
def made (build : Build) (name : List UInt8) (eventTag id : UInt16) (version opcode : UInt8)
    (calls : List FieldCall) : EventBuilder where
  metadata := name ++ [0] ++ calls.flatMap (FieldCall.metaBytes build)
  data := calls.flatMap (FieldCall.dataBytes build)
  flags := HeaderFlags.defaultWithExtension build
  version := version
  id := id
  tag := eventTag
  opcode := opcode

theorem make_eq (hname : 0 ∉ name) (hcalls : ∀ call ∈ calls, call.Allowed) :
    make build name eventTag id version opcode calls =
      .ok (made build name eventTag id version opcode calls) := by
  unfold make reset
  rw [debugAssert_of hname, ok_bind, ok_bind, addFields_eq _ hcalls]
  rfl

/-- Calls with few bytes of data fit. -/
theorem fits_of_length (hcalls : ∀ call ∈ calls, call.Allowed)
    (hdata : (calls.flatMap (FieldCall.dataBytes build)).length ≤ 65535) : FieldCall.Fits build calls := by
  refine fun call hcall ↦ ⟨hcalls call hcall, ?_⟩
  have hle := (List.sublist_flatten_of_mem
    (@List.mem_map_of_mem _ _ _ _ (FieldCall.dataBytes build) hcall)).length_le
  rw [← List.flatMap_def] at hle
  omega

/-- The metadata and the data of the builder are those of the event. -/
theorem made_eq (hfits : FieldCall.Fits build calls) :
    (made build name eventTag id version opcode calls).metadata =
        (eventOf build name eventTag id version opcode level activityId relatedId calls).metadata ∧
      (made build name eventTag id version opcode calls).data =
        (FieldCall.fieldsOf build calls).dataBytes build.targetEndian := by
  have hgrouped := FieldCall.fieldsOf_spec hfits
  have hmeta := hgrouped.metaBytes
  have hdata := hgrouped.dataBytes
  rw [List.flatMap_nil, List.append_nil] at hmeta hdata
  refine ⟨?_, hdata⟩
  unfold made WrittenEvent.metadata
  dsimp only [eventOf]
  rw [hmeta, List.append_assoc, List.singleton_append]

/-- The event of calls that pass the size check is written as it should be. -/
theorem eventOf_valid (hname : 0 ∉ name) (hfits : FieldCall.Fits build calls)
    (hdepth : (FieldCall.fieldsOf build calls).depth ≤ 8)
    (hcount : (FieldCall.fieldsOf build calls).count ≤ 255)
    (hrelated : relatedId.isNone ∨ activityId.isSome)
    (hsize : (made build name eventTag id version opcode calls).metadata.length +
      (made build name eventTag id version opcode calls).data.length ≤ 65535 - (52 + 16)) :
    (eventOf build name eventTag id version opcode level activityId relatedId calls).Valid build := by
  obtain ⟨hmeta, hdata⟩ := @made_eq build name eventTag id version opcode level activityId relatedId calls
    hfits
  rw [hmeta, hdata] at hsize
  have hlength := (eventOf build name eventTag id version opcode level activityId relatedId
    calls).length_bytes build.targetEndian
  have hblock := length_activityBlock_le build.targetEndian activityId relatedId
  constructor
  · rfl
  · exact id.toNat_lt
  · exact eventTag.toNat_lt
  · exact hrelated
  · exact hname
  · omega
  · exact (FieldCall.fieldsOf_spec hfits).wellFormed
  · exact hcount
  · exact hdepth
  · rw [hlength]
    unfold WrittenEvent.dataStart WrittenEvent.metaStart
    dsimp only [eventOf] at hsize hblock ⊢
    omega

/-- What passes the size check is written as the bytes of the event. -/
theorem write_made (hfits : FieldCall.Fits build calls)
    (hrelated : relatedId.isNone ∨ activityId.isSome)
    (hsize : (made build name eventTag id version opcode calls).metadata.length +
      (made build name eventTag id version opcode calls).data.length ≤ 65535 - (52 + 16)) :
    (made build name eventTag id version opcode calls).write build level activityId relatedId =
      .ok (.ok ((eventOf build name eventTag id version opcode level activityId relatedId
        calls).bytes build.targetEndian)) := by
  obtain ⟨hmeta, hdata⟩ := @made_eq build name eventTag id version opcode level activityId relatedId calls
    hfits
  have hpos : (made build name eventTag id version opcode calls).metadata.length ≠ 0 := by
    rw [hmeta, WrittenEvent.length_metadata]
    omega
  unfold write
  rw [debugAssert_of hrelated, ok_bind, if_neg (by omega), Nat.mod_eq_of_lt (by omega),
    writeEventheader_eq build _ hpos hrelated rfl, ok_bind, hmeta, hdata]
  unfold WrittenEvent.bytes
  rw [List.flatten_cons, List.flatten_singleton, List.append_assoc, List.append_assoc]
  simp only [List.append_assoc]
  rfl

end Event

/-- Assumes: allowed calls whose structs are nested at most 8 deep, with at most 255 fields outside of
structs, a name without NUL, a related id only with an activity id, and a tracepoint name that carries the
level. The builder makes the event. If it passes the size check of `write`, what is written is read back:
the enumerator accepts it, `event_info` gives the name, the header and the ids, and with a limit above the
number of items the moves show the fields and then end. -/
theorem builder_roundTrip {build host : Build} {name : List UInt8} {eventTag id : UInt16}
    {version opcode level : UInt8} {activityId relatedId : Option (Vector UInt8 16)}
    {calls : List FieldCall} {tracepointName : List UInt8} (hname : 0 ∉ name)
    (hcalls : ∀ call ∈ calls, call.Allowed) (hdepth : (FieldCall.fieldsOf build calls).depth ≤ 8)
    (hcount : (FieldCall.fieldsOf build calls).count ≤ 255)
    (hrelated : relatedId.isNone ∨ activityId.isSome) (hlevel : CarriesLevel tracepointName level) :
    ∃ builder, make build name eventTag id version opcode calls = .ok builder ∧
      (builder.metadata.length + builder.data.length ≤ 65535 - (52 + 16) →
        ∃ payload, builder.write build level activityId relatedId = .ok (.ok payload) ∧
          ∀ (c : EventHeaderEnumeratorContext) (limit : ℕ),
            ((FieldCall.fieldsOf build calls).items build.targetEndian).length < limit →
              ∃ start last finish, (eventOf build name eventTag id version opcode level activityId
                  relatedId calls).Decoded host build.targetEndian payload
                (c.enumerateWithNameAndData payload tracepointName limit) start last finish) := by
  refine ⟨made build name eventTag id version opcode calls, make_eq hname hcalls, fun hsize ↦ ?_⟩
  have hdata : (made build name eventTag id version opcode calls).data =
    calls.flatMap (FieldCall.dataBytes build) := rfl
  have hfits : FieldCall.Fits build calls := fits_of_length hcalls (by rw [← hdata]; omega)
  obtain ⟨hshort, keyword, hvalidate⟩ := hlevel
  refine ⟨_, write_made hfits hrelated hsize, fun c limit hlimit ↦ ?_⟩
  exact WrittenEvent.decodes (eventOf_valid hname hfits hdepth hcount hrelated hsize) hshort hvalidate
    hlimit

/-- Calls that add a struct with a value and a sequence of strings, and a string behind it. -/
def sampleCalls : List FieldCall :=
  [.addStruct [115] 2 0, @FieldCall.addValue [97] .size2 ⟨[1, 2], rfl⟩ 0 0,
    @FieldCall.addCstrSequence [98] .size1 [[⟨[65], rfl⟩], []] 2 7,
    @FieldCall.addStr [99] .size1 [⟨[66], rfl⟩] 0 0]

/-- The calls above, with an activity id, under a tracepoint of level 5. -/
theorem builder_roundTrip_sample :
    ∃ builder payload, make ⟨true, .little, true⟩ [69] 1 2 3 4 sampleCalls = .ok builder ∧
      builder.write ⟨true, .little, true⟩ 5 (some (Vector.replicate 16 9)) none = .ok (.ok payload) ∧
        ∃ start last finish, (eventOf ⟨true, .little, true⟩ [69] 1 2 3 4 5
            (some (Vector.replicate 16 9)) none sampleCalls).Decoded ⟨false, .big, true⟩ .little payload
          (EventHeaderEnumeratorContext.new.enumerateWithNameAndData payload
            (tracepointNameOf [80] [] 5 1) 4096) start last finish := by
  have hallowed : ∀ call ∈ sampleCalls, call.Allowed := by
    intro call hcall
    simp only [sampleCalls, List.mem_cons, List.not_mem_nil, or_false] at hcall
    rcases hcall with rfl | rfl | rfl | rfl <;> simp +decide [FieldCall.Allowed]
  obtain ⟨builder, hmake, hdecoded⟩ := @builder_roundTrip ⟨true, .little, true⟩ ⟨false, .big, true⟩ [69] 1 2
    3 4 5 (some (Vector.replicate 16 9)) none sampleCalls (tracepointNameOf [80] [] 5 1) (by decide)
    hallowed (by decide) (by decide) (Or.inl rfl) (carriesLevel_tracepointNameOf (Or.inl rfl) (by decide))
  have hbuilder : builder = made ⟨true, .little, true⟩ [69] 1 2 3 4 sampleCalls :=
    Except.ok.inj (hmake.symm.trans (make_eq (by decide) hallowed))
  obtain ⟨payload, hwrite, hread⟩ := hdecoded (by rw [hbuilder]; decide)
  exact ⟨builder, payload, hmake, hwrite, hread _ 4096 (by decide)⟩

end EventBuilder

end Tracepoints
