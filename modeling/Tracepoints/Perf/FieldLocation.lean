import Tracepoints.Perf.FieldValue

/-!
# Where a field's data is

The documentation of `PerfFieldArray` says where the data of a field is: in the field, behind it, or
at an offset that the field holds, which for `RelLoc2` and `RelLoc4` is counted from the end of the
field. `located` is that location for a given base of the offset. Both `get_field_bytes`
(`getFieldBytes_eq`) and `get_field_value_with_data_and_reader` (`getFieldValue_eq`) use it with the
base of the code, which is the documented one except for `RelLoc4`
(`located_relativeBase_eq_iff`).
-/

set_option autoImplicit false
set_option relaxedAutoImplicit false

namespace Tracepoints

open Exec

/-- Cutting at the first NUL a second time changes nothing. -/
@[simp]
theorem untilFirstNul_untilFirstNul (bytes : List UInt8) :
    untilFirstNul (untilFirstNul bytes) = untilFirstNul bytes :=
  List.takeWhile_idem

namespace PerfFieldFormat

variable (build : Build) (format : PerfFieldFormat) (data : List UInt8) (order : ByteOrder)

/-! ### Locations -/

/-- The integer that a field holds. -/
def stored : ℕ := order.ofBytes ((data.drop format.offset).take format.size)

/-- The offset in the integer of four bytes that a field holds. -/
def storedOffset : ℕ := format.stored data order % 2 ^ 16

/-- The length in the integer of four bytes that a field holds. -/
def storedLength : ℕ := format.stored data order / 2 ^ 16

/-- The data of a field whose stored offset counts from a base, if it is inside the raw data. -/
def located (base : ℕ) : Option (List UInt8) :=
  if format.rawEnd ≤ data.length then
    match format.array with
    | .none | .fixed => some ((data.drop format.offset).take format.size)
    | .restOfEvent => some (data.drop format.offset)
    | .dataLoc2 | .relLoc2 =>
      let start := base + format.stored data order
      if start ≤ data.length then some (untilFirstNul (data.drop start)) else none
    | .dataLoc4 | .relLoc4 =>
      let start := base + format.storedOffset data order
      let length := format.storedLength data order
      if start + length ≤ data.length then some ((data.drop start).take length) else none
  else none

/-- The base that the documentation of `PerfFieldArray` gives for stored offsets. -/
def documentedBase : ℕ :=
  match format.array with
  | .relLoc2 | .relLoc4 => format.rawEnd
  | _ => 0

/-- The value that `get_field_value_with_data_and_reader` makes of the data of a field. -/
def valueOf (bytes : List UInt8) : Exec PerfItemValue :=
  let checkStrLen := decide (format.deducedEncoding = FieldEncoding.zStringChar8)
  match format.array with
  | .none | .fixed =>
    format.makeValue build order (if checkStrLen then untilFirstNul bytes else bytes)
      format.deducedArrayCount
  | _ => format.variableSizeValue build order bytes checkStrLen

/-- The value that `get_field_value_with_data_and_reader` makes of a location. -/
def valueAt (location : Option (List UInt8)) : Exec PerfItemValue :=
  match location with
  | none => PerfItemValue.new build [] .null
  | some bytes => format.valueOf build order bytes

/-! ### What the code resolves -/

variable {build format}

/-- A stored integer is read where the field is inside the raw data. -/
theorem readUInt_stored {width : ℕ} (hsize : format.size = width)
    (hend : format.rawEnd ≤ data.length) :
    readUInt order width data format.offset = .ok (format.stored data order) := by
  have hbound : format.offset + width ≤ data.length := by
    rw [← hsize]
    exact hend
  rw [readUInt_of_le hbound, stored, hsize]

/-- A range of the raw data given by its start and its length. -/
theorem slice_length {start length : ℕ} (h : start + length ≤ data.length) :
    slice data start (start + length) = .ok ((data.drop start).take length) := by
  rw [slice_of_le (Nat.le_add_right start length) h, Nat.add_sub_cancel_left]

/-- `get_field_bytes` returns the data at the location. -/
theorem getFieldBytes_eq (h : format.Constructed build) :
    format.getFieldBytes data order = .ok (format.located data order format.relativeBase) := by
  have hsize := @h.size_eq
  unfold getFieldBytes located
  by_cases hend : format.rawEnd ≤ data.length
  · rw [if_pos hend, if_pos hend]
    cases harray : format.array <;> rw [harray] at hsize <;> dsimp only
    case none | fixed =>
      rw [rawEnd, slice_length data hend]
      rfl
    case relLoc2 | dataLoc2 =>
      rw [readUInt_stored data order (hsize rfl) hend, ok_bind, Nat.add_comm]
      split_ifs <;> rfl
    case relLoc4 | dataLoc4 =>
      rw [readUInt_stored data order (hsize rfl) hend, ok_bind,
        Nat.add_comm (format.stored data order % 2 ^ 16), ← storedOffset, ← storedLength]
      by_cases hin : format.relativeBase + format.storedOffset data order
          + format.storedLength data order ≤ data.length
      · rw [if_pos hin, if_pos hin]
        rw [slice_length data hin]
        rfl
      · rw [if_neg hin, if_neg hin]
  · rw [if_neg hend, if_neg hend]

/-- Data that ends at a NUL gives the same value whether or not it is cut there again. -/
theorem variableSizeValue_untilFirstNul (bytes : List UInt8) (checkStrLen : Bool) :
    format.variableSizeValue build order (untilFirstNul bytes) checkStrLen
      = format.variableSizeValue build order (untilFirstNul bytes) true := by
  unfold variableSizeValue
  rw [untilFirstNul_untilFirstNul, ite_self, ite_self]

/-- `get_field_value_with_data_and_reader` makes its value of the data at the location. -/
theorem getFieldValue_eq (h : format.Constructed build) :
    format.getFieldValue build data order
      = format.valueAt build order (format.located data order format.relativeBase) := by
  have hsize := @h.size_eq
  unfold getFieldValue located
  dsimp only
  by_cases hend : format.rawEnd ≤ data.length
  · rw [if_pos hend, if_pos hend]
    cases harray : format.array <;> rw [harray] at hsize <;> dsimp only
    case none | fixed =>
      rw [rawEnd, slice_length data hend, ok_bind, valueAt, valueOf, harray]
    case restOfEvent =>
      rw [valueAt, valueOf, harray]
    case relLoc2 | dataLoc2 =>
      rw [readUInt_stored data order (hsize rfl) hend, ok_bind, Nat.add_comm]
      split_ifs
      · rw [valueAt, valueOf, harray]
        exact (variableSizeValue_untilFirstNul order _ _).symm
      · rfl
    case relLoc4 | dataLoc4 =>
      rw [readUInt_stored data order (hsize rfl) hend, ok_bind,
        Nat.add_comm (format.stored data order % 2 ^ 16), ← storedOffset, ← storedLength]
      by_cases hin : format.relativeBase + format.storedOffset data order
          + format.storedLength data order ≤ data.length
      · rw [if_pos hin, if_pos hin]
        rw [slice_length data hin, ok_bind, valueAt, valueOf, harray]
      · rw [if_neg hin, if_neg hin]
        rfl
  · rw [if_neg hend, if_neg hend]
    rfl

/-! ### The documented location -/

/-- A value of a field has an encoding. -/
theorem valueOf_encoding (h : format.Constructed build) {bytes : List UInt8}
    {value : PerfItemValue} (hvalue : format.valueOf build order bytes = .ok value) :
    value.metadata.encoding ≠ FieldEncoding.invalid := by
  have hmade : ∃ made count, format.makeValue build order made count = .ok value := by
    unfold valueOf variableSizeValue at hvalue
    split at hvalue
    · exact ⟨_, _, hvalue⟩
    · exact ⟨_, _, hvalue⟩
    · obtain ⟨_, _, hvalue⟩ := bind_eq_ok.1 hvalue
      exact ⟨_, _, hvalue⟩
  obtain ⟨made, count, hmade⟩ := hmade
  rw [makeValue_eq_ok order hmade]
  exact h.itemMetadata_encoding order count

/-- The value is invalid exactly where there is no location. -/
theorem valueAt_encoding (h : format.Constructed build) {location : Option (List UInt8)}
    {value : PerfItemValue} (hvalue : format.valueAt build order location = .ok value) :
    value.metadata.encoding = FieldEncoding.invalid ↔ location = none := by
  cases location with
  | none =>
    have hnull : value = PerfItemValue.null := by
      unfold valueAt PerfItemValue.new at hvalue
      obtain ⟨_, _, hvalue⟩ := bind_eq_ok.1 hvalue
      obtain ⟨_, _, hvalue⟩ := bind_eq_ok.1 hvalue
      exact (Except.ok.inj hvalue).symm
    rw [hnull]
    exact iff_of_true (by decide) rfl
  | some bytes =>
    exact iff_of_false (valueOf_encoding order h hvalue) (Option.some_ne_none bytes)

variable (build format)

/-- The field is resolved as documented: its bytes are those at the documented location, its value
is made of them, and there are no bytes, and no valid value, exactly where that location is not
inside the raw data. -/
structure Resolves : Prop where
  bytes : format.getFieldBytes data order
    = .ok (format.located data order format.documentedBase)
  value : format.getFieldValue build data order
    = format.valueAt build order (format.located data order format.documentedBase)
  invalid : ∀ value, format.getFieldValue build data order = .ok value →
    (value.metadata.encoding = FieldEncoding.invalid ↔
      format.located data order format.documentedBase = none)

/-- The base in the code makes no difference for this field and this data. -/
def BaseIrrelevant : Prop :=
  format.array ≠ .relLoc4 ∨ data.length < format.rawEnd ∨
    data.length < format.storedOffset data order + format.storedLength data order ∨
    format.rawEnd + format.storedOffset data order + format.storedLength data order ≤ data.length ∧
      (data.drop (format.rawEnd + format.storedOffset data order)).take
          (format.storedLength data order)
        = (data.drop (format.storedOffset data order)).take (format.storedLength data order)

variable {build format}

/-- Only for `RelLoc4` is the base in the code not the documented one. -/
theorem relativeBase_eq_documentedBase (harray : format.array ≠ .relLoc4) :
    format.relativeBase = format.documentedBase := by
  unfold relativeBase documentedBase
  cases hkind : format.array with
  | relLoc4 => exact absurd hkind harray
  | relLoc2 => exact if_pos rfl
  | none => exact if_neg (by decide)
  | fixed => exact if_neg (by decide)
  | restOfEvent => exact if_neg (by decide)
  | dataLoc2 => exact if_neg (by decide)
  | dataLoc4 => exact if_neg (by decide)

/-- The base in the code finds the documented location exactly where it makes no difference. -/
theorem located_relativeBase_eq_iff :
    format.located data order format.relativeBase
        = format.located data order format.documentedBase ↔
      format.BaseIrrelevant data order := by
  by_cases harray : format.array = .relLoc4
  · have hbase : format.relativeBase = 0 := by
      unfold relativeBase
      rw [harray]
      exact if_neg (by decide)
    have hdocumented : format.documentedBase = format.rawEnd := by
      unfold documentedBase
      rw [harray]
    rw [hbase, hdocumented, located, located, harray, BaseIrrelevant]
    dsimp only
    rw [Nat.zero_add]
    by_cases hend : format.rawEnd ≤ data.length
    · rw [if_pos hend, if_pos hend]
      by_cases hin : format.storedOffset data order + format.storedLength data order ≤ data.length
      · rw [if_pos hin]
        by_cases hrel : format.rawEnd + format.storedOffset data order
            + format.storedLength data order ≤ data.length
        · rw [if_pos hrel, Option.some_inj]
          constructor
          · intro hsame
            exact Or.inr (Or.inr (Or.inr ⟨hrel, hsame.symm⟩))
          · rintro (hkind | hshort | hshort | hsame)
            · exact absurd harray hkind
            · omega
            · omega
            · exact hsame.2.symm
        · rw [if_neg hrel]
          apply iff_of_false
          · exact Option.some_ne_none _
          · rintro (hkind | hshort | hshort | hsame)
            · exact hkind harray
            · omega
            · omega
            · exact hrel hsame.1
      · rw [if_neg hin, if_neg (by omega)]
        exact iff_of_true rfl (Or.inr (Or.inr (Or.inl (Nat.lt_of_not_le hin))))
    · rw [if_neg hend, if_neg hend]
      exact iff_of_true rfl (Or.inr (Or.inl (Nat.lt_of_not_le hend)))
  · rw [relativeBase_eq_documentedBase harray]
    exact iff_of_true rfl (Or.inl harray)

/-- `get_field_bytes` and `get_field_value_with_data_and_reader` resolve a field as documented
exactly where the base makes no difference. Assumes: a format that `new` makes. -/
theorem resolves_iff (h : format.Constructed build) :
    format.Resolves build data order ↔ format.BaseIrrelevant data order := by
  rw [← located_relativeBase_eq_iff]
  constructor
  · intro hresolves
    have hbytes := hresolves.bytes
    rw [getFieldBytes_eq data order h] at hbytes
    exact Except.ok.inj hbytes
  · intro hlocated
    have hvalue := getFieldValue_eq data order h
    rw [hlocated] at hvalue
    constructor
    · rw [getFieldBytes_eq data order h, hlocated]
    · exact hvalue
    · intro value hok
      rw [hvalue] at hok
      exact valueAt_encoding order h hok

/-- The format that `new` makes of the location of an array of bytes. -/
def byteLocation (field : List UInt8) (array : PerfFieldArray) : PerfFieldFormat :=
  { field := field
    nameStart := field.length - 3
    nameStop := field.length - 2
    offset := 0
    size := 4
    signed := none
    specifiedArrayCount := 0
    deducedArrayCount := 0
    specifiedEncoding := FieldEncoding.value8
    deducedEncoding := FieldEncoding.value8 ||| FieldEncoding.vArrayFlag
    specifiedFormat := FieldFormat.unsignedInt
    deducedFormat := FieldFormat.unsignedInt
    array := array
    elementSizeShift := 0 }

/-- `__data_loc u8 x[]; size:4;`. -/
def dataLocField : PerfFieldFormat := byteLocation (ascii "__data_loc u8 x[]") .dataLoc4

/-- `__rel_loc u8 x[]; size:4;`. -/
def relLocField : PerfFieldFormat := byteLocation (ascii "__rel_loc u8 x[]") .relLoc4

/-- A location at offset 4 that is inside the data is resolved as documented. -/
theorem dataLocField_resolves :
    dataLocField.Resolves ⟨true, .little, true⟩ [4, 0, 1, 0, 0xAA] .little :=
  (resolves_iff [4, 0, 1, 0, 0xAA] .little
    ⟨true, ascii "__data_loc u8 x[]", 0, 4, none, by decide +kernel⟩).2
    (Or.inl (by decide))

/-- One byte right behind the field: the code returns the first byte of the field instead. -/
theorem relLocField_not_resolves :
    relLocField.Constructed ⟨true, .little, true⟩ ∧ relLocField.array = .relLoc4 ∧
      relLocField.getFieldBytes [0, 0, 1, 0, 0xAA] .little = .ok (some [0]) ∧
      relLocField.located [0, 0, 1, 0, 0xAA] .little relLocField.documentedBase = some [0xAA] ∧
      ¬relLocField.Resolves ⟨true, .little, true⟩ [0, 0, 1, 0, 0xAA] .little := by
  have hbytes : relLocField.getFieldBytes [0, 0, 1, 0, 0xAA] .little = .ok (some [0]) := by
    decide +kernel
  have hlocated : relLocField.located [0, 0, 1, 0, 0xAA] .little relLocField.documentedBase
      = some [0xAA] := by
    decide +kernel
  refine ⟨⟨true, ascii "__rel_loc u8 x[]", 0, 4, none, by decide +kernel⟩, rfl, hbytes,
    hlocated, ?_⟩
  intro hresolves
  have hsame := hresolves.bytes
  rw [hbytes, hlocated] at hsame
  exact absurd hsame (by decide)

end PerfFieldFormat

end Tracepoints
