import Tracepoints.Enumerator.Event

/-!
# Field definitions as a grammar

What the metadata of an event says, apart from the machine that walks it. `nulAt` is the end of a
name, `typeAt` the field type at an offset with the offset behind it, `fieldAt` a whole field
definition. Inside the metadata the readers of the enumerator compute them and do not fault
(`findNul_eq`, `readFieldType_eq`, `readFieldNameAndType_eq`). `definitionAt` is a definition that
is complete: with the element count that an array of constant length has behind its type.
-/

set_option autoImplicit false
set_option relaxedAutoImplicit false

namespace Tracepoints

open Exec EventHeaderEnumeratorContext

/-! ### Names -/

/-- The position of the first NUL in `[start, stop)`, or `stop`. -/
def nulAt (data : List UInt8) (start stop : ℕ) : ℕ :=
  start + (((data.drop start).take (stop - start)).takeWhile (· ≠ 0)).length

theorem nulAt_ge (data : List UInt8) (start stop : ℕ) : start ≤ nulAt data start stop :=
  Nat.le_add_right _ _

theorem nulAt_le (data : List UInt8) {start stop : ℕ} (h : start ≤ stop) :
    nulAt data start stop ≤ stop := by
  have hprefix := (List.takeWhile_prefix (· ≠ 0) : _ <+: (data.drop start).take (stop - start)).length_le
  have htake := (data.drop start).length_take_le (stop - start)
  unfold nulAt
  omega

theorem findNulLoop_eq (data : List UInt8) (count pos : ℕ) (h : pos + count ≤ data.length) :
    findNulLoop data count pos =
      .ok (pos + (((data.drop pos).take count).takeWhile (· ≠ 0)).length) := by
  induction count generalizing pos with
  | zero => simp [findNulLoop]
  | succ count ih =>
    have hpos : pos < data.length := by omega
    rw [findNulLoop, byteAt_of_lt hpos, ok_bind, List.drop_eq_getElem_cons hpos,
      List.take_succ_cons, List.takeWhile_cons]
    by_cases hzero : data[pos] = 0
    · simp [hzero]
    · rw [if_neg hzero, ih (pos + 1) (by omega)]
      simp only [ne_eq, hzero, not_false_eq_true, decide_true, if_true, List.length_cons]
      congr 1
      omega

/-- Inside the data the search for a NUL ends at `nulAt`. -/
theorem findNul_eq {data : List UInt8} {start stop : ℕ} (h : start ≤ stop)
    (hstop : stop ≤ data.length) : findNul data start stop = .ok (nulAt data start stop) :=
  findNulLoop_eq data (stop - start) start (by omega)

/-! ### Types -/

/-- The field type at an offset of the metadata, and the offset behind it. A type that the end of
the metadata cuts off has the error encoding. -/
def typeAt (order : ByteOrder) (data : List UInt8) (metaEnd offset : ℕ) : FieldType × ℕ :=
  let encoding := data.getD offset 0
  let typeOf (encoding : FieldEncoding) (format : FieldFormat) (tag : ℕ) : FieldType :=
    ⟨FieldEncoding.withoutChainFlag encoding, FieldFormat.withoutFlags format, tag⟩
  if FieldEncoding.hasChainFlag encoding then
    if metaEnd = offset + 1 then (typeOf readFieldError FieldFormat.default 0, offset + 1)
    else
      let format := data.getD (offset + 1) 0
      if FieldFormat.hasChainFlag format then
        if metaEnd - (offset + 2) < 2 then (typeOf readFieldError format 0, offset + 2)
        else
          (typeOf encoding format (order.ofBytes ((data.drop (offset + 2)).take 2)), offset + 4)
      else (typeOf encoding format 0, offset + 2)
  else (typeOf encoding FieldFormat.default 0, offset + 1)

theorem typeAt_bounds (order : ByteOrder) (data : List UInt8) {metaEnd offset : ℕ}
    (h : offset < metaEnd) :
    offset < (typeAt order data metaEnd offset).2 ∧
      (typeAt order data metaEnd offset).2 ≤ metaEnd := by
  unfold typeAt
  dsimp only
  split_ifs <;> dsimp only <;> omega

/-- A field type has an encoding without chain flag. -/
theorem typeAt_encoding (order : ByteOrder) (data : List UInt8) (metaEnd offset : ℕ) :
    ∃ encoding, (typeAt order data metaEnd offset).1.encoding =
      FieldEncoding.withoutChainFlag encoding := by
  unfold typeAt
  dsimp only
  split_ifs <;> exact ⟨_, rfl⟩

/-- A type that is not cut off has the encoding of the byte at its offset. -/
theorem typeAt_encoding_of_ne {order : ByteOrder} {data : List UInt8} {metaEnd offset : ℕ}
    (h : (typeAt order data metaEnd offset).1.encoding ≠ readFieldError) :
    (typeAt order data metaEnd offset).1.encoding =
      FieldEncoding.withoutChainFlag (data.getD offset 0) := by
  have herror : FieldEncoding.withoutChainFlag readFieldError = readFieldError := by decide
  unfold typeAt at h ⊢
  dsimp only at h ⊢
  split_ifs at h ⊢ <;> simp_all

/-- Inside the metadata `read_field_type` computes `typeAt`. -/
theorem readFieldType_eq (build : Build) {data : List UInt8} {c : EventHeaderEnumeratorContext}
    {offset : ℕ} (hoffset : offset < c.metaEnd) (hmeta : c.metaEnd ≤ data.length) :
    readFieldType build data c offset =
      .ok ((typeAt c.byteReader data c.metaEnd offset).1,
        { c with
          stackTop :=
            { c.stackTop with
              nextOffset := (typeAt c.byteReader data c.metaEnd offset).2 } }) := by
  unfold readFieldType typeAt
  rw [debugAssert_of hoffset, ok_bind, byteAt_getD (by omega), ok_bind]
  dsimp only
  split_ifs with hchain hend hformat htag
  · rfl
  · rw [byteAt_getD (by omega), ok_bind, if_pos hformat, sub_of_le (by omega), ok_bind, if_pos htag]
  · rw [byteAt_getD (by omega), ok_bind, if_pos hformat, sub_of_le (by omega), ok_bind, if_neg htag,
      readUInt_of_le (by omega), ok_bind]
  · rw [byteAt_getD (by omega), ok_bind, if_neg hformat]
  · rfl

/-! ### Field definitions -/

/-- A field definition: the length of its name, its type, and the offset behind the type. -/
structure FieldDef where
  nameLen : ℕ
  fieldType : FieldType
  typeEnd : ℕ
  deriving DecidableEq, Repr

/-- The field definition at an offset of the metadata, unless the name is not terminated or
nothing follows it. -/
def fieldAt (order : ByteOrder) (data : List UInt8) (metaEnd offset : ℕ) : Option FieldDef :=
  let nameEnd := nulAt data offset metaEnd
  if metaEnd - nameEnd < 2 then none
  else
    let typ := typeAt order data metaEnd (nameEnd + 1)
    some ⟨nameEnd - offset, typ.1, typ.2⟩

/-- A field definition lies inside the metadata, and its type is where its name ends. -/
theorem fieldAt_bounds {order : ByteOrder} {data : List UInt8} {metaEnd offset : ℕ}
    {field : FieldDef} (h : fieldAt order data metaEnd offset = some field) :
    offset + field.nameLen + 1 < metaEnd ∧ offset + field.nameLen + 1 < field.typeEnd ∧
      field.typeEnd ≤ metaEnd ∧
      typeAt order data metaEnd (offset + field.nameLen + 1) =
        (field.fieldType, field.typeEnd) := by
  unfold fieldAt at h
  dsimp only at h
  split_ifs at h with hcut
  obtain rfl := Option.some.inj h
  have hge := nulAt_ge data offset metaEnd
  have heq : offset + (nulAt data offset metaEnd - offset) + 1 = nulAt data offset metaEnd + 1 := by
    omega
  have hlt : nulAt data offset metaEnd + 1 < metaEnd := by omega
  obtain ⟨hfirst, hsecond⟩ := typeAt_bounds order data hlt
  refine ⟨?_, ?_, ?_, ?_⟩
  · rw [heq]
    exact hlt
  · rw [heq]
    exact hfirst
  · exact hsecond
  · rw [heq]

/-- Inside the metadata `read_field_name_and_type` computes `fieldAt`. -/
theorem readFieldNameAndType_eq (build : Build) {data : List UInt8}
    {c : EventHeaderEnumeratorContext} (hname : c.stackTop.nameOffset ≤ c.metaEnd)
    (hmeta : c.metaEnd ≤ data.length) :
    readFieldNameAndType build data c =
      .ok (match fieldAt c.byteReader data c.metaEnd c.stackTop.nameOffset with
        | none => (⟨readFieldError, FieldFormat.default, 0⟩, c)
        | some field =>
          (field.fieldType,
            { c with
              stackTop :=
                { c.stackTop with
                  nameLen := field.nameLen % 65536
                  nextOffset := field.typeEnd } })) := by
  have hge := nulAt_ge data c.stackTop.nameOffset c.metaEnd
  have hle := nulAt_le data hname
  unfold readFieldNameAndType fieldAt
  dsimp only
  rw [debugAssert_of hname, ok_bind, findNul_eq hname hmeta, ok_bind, sub_of_le hle, ok_bind]
  split_ifs with hcut
  · rfl
  · rw [sub_of_le hge, ok_bind]
    rw [readFieldType_eq build (c := { c with
      stackTop := { c.stackTop with
        nameLen := (nulAt data c.stackTop.nameOffset c.metaEnd - c.stackTop.nameOffset) % 65536 } })
      (by dsimp only; omega) hmeta]

/-! ### Complete definitions -/

/-- The reserved array encoding: both array flags are set. -/
def FieldType.isReserved (typ : FieldType) : Bool :=
  FieldEncoding.isConstantLengthArray typ.encoding && FieldEncoding.isVariableLengthArray typ.encoding

/-- An array whose element count is part of its definition. -/
def FieldType.hasCount (typ : FieldType) : Bool :=
  FieldEncoding.isConstantLengthArray typ.encoding && !FieldEncoding.isVariableLengthArray typ.encoding

/-- The offset behind the complete definition of a field. -/
def FieldDef.definitionEnd (field : FieldDef) : ℕ :=
  field.typeEnd + if field.fieldType.hasCount then 2 else 0

/-- A scalar has no element count. -/
theorem definitionEnd_of_scalar {field : FieldDef}
    (h : FieldEncoding.isArray field.fieldType.encoding = false) :
    field.fieldType.hasCount = false ∧ field.definitionEnd = field.typeEnd := by
  have hcount : field.fieldType.hasCount = false := by
    rw [FieldEncoding.isArray_eq, Bool.or_eq_false_iff] at h
    rw [FieldType.hasCount, h.1, Bool.false_and]
  rw [FieldDef.definitionEnd, hcount]
  exact ⟨rfl, rfl⟩

/-- The element count of an array of variable length is in the data. -/
theorem definitionEnd_of_variable {field : FieldDef}
    (h : FieldEncoding.isVariableLengthArray field.fieldType.encoding = true) :
    field.definitionEnd = field.typeEnd := by
  rw [FieldDef.definitionEnd, FieldType.hasCount, h, Bool.not_true, Bool.and_false]
  rfl

/-- The element count of an array of constant length is in its definition. -/
theorem definitionEnd_of_constant {field : FieldDef}
    (hvariable : FieldEncoding.isVariableLengthArray field.fieldType.encoding = false)
    (hconstant : FieldEncoding.isConstantLengthArray field.fieldType.encoding = true) :
    field.definitionEnd = field.typeEnd + 2 := by
  rw [FieldDef.definitionEnd, FieldType.hasCount, hvariable, hconstant]
  rfl

/-- The complete field definition at an offset: known, and inside the metadata. -/
def definitionAt (order : ByteOrder) (data : List UInt8) (metaEnd offset : ℕ) : Option FieldDef :=
  (fieldAt order data metaEnd offset).filter fun field ↦
    field.fieldType.encoding ≠ readFieldError ∧
      field.definitionEnd ≤ metaEnd

theorem definitionAt_eq_some {order : ByteOrder} {data : List UInt8} {metaEnd offset : ℕ}
    {field : FieldDef} :
    definitionAt order data metaEnd offset = some field ↔
      fieldAt order data metaEnd offset = some field ∧
        field.fieldType.encoding ≠ readFieldError ∧
        field.definitionEnd ≤ metaEnd := by
  simp [definitionAt, Option.filter_eq_some_iff]

theorem definitionAt_bounds {order : ByteOrder} {data : List UInt8} {metaEnd offset : ℕ}
    {field : FieldDef}
    (h : definitionAt order data metaEnd offset = some field) :
    offset < field.definitionEnd ∧ field.definitionEnd ≤ metaEnd := by
  obtain ⟨hfield, _, hle⟩ := definitionAt_eq_some.mp h
  obtain ⟨_, hgt, _, _⟩ := fieldAt_bounds hfield
  refine ⟨?_, hle⟩
  unfold FieldDef.definitionEnd
  omega

end Tracepoints
