import Tracepoints.Enumerator.Items

/-!
# What a move of the enumerator can do

The transitions of the enumerator, said once. `FieldStarted` lists what decoding a field
definition can do, `PropertyStep` adds the end of a struct and of the event, `MoveStep` is one
`move_next`. Every constructor carries the guards of its branch and the context it leaves.

`Positioned` is what holds between items: the cursors lie inside the event and every open struct
on the stack is one of the metadata. `ItemInv` adds, for each substate, what holds of the current
item. Under them every computation returns one of the listed transitions
(`decodeField_returns`, `nextProperty_returns`, `moveNextImpl_returns`), with one exception: the
field counter of `skip_struct_metadata` is a byte, and its overflow faults in a checked build.
-/

set_option autoImplicit false
set_option relaxedAutoImplicit false

namespace Tracepoints

open Exec

namespace EventHeaderEnumeratorContext

variable {build : Build} {data : List UInt8} {c c' : EventHeaderEnumeratorContext}

/-! ### Positions -/

/-- The part of a context that describes the event: no move changes it. -/
structure EventFrame where
  info : EventHeaderEventInfo
  byteReader : ByteOrder
  metaEnd : ℕ
  dataStart : ℕ
  deriving DecidableEq, Repr

/-- The event that a context enumerates. -/
def frame (c : EventHeaderEnumeratorContext) : EventFrame :=
  ⟨c.eventInfo, c.byteReader, c.metaEnd, c.dataStart⟩

/-- The field type at an offset of the event's metadata. -/
def fieldTypeAt (data : List UInt8) (c : EventHeaderEnumeratorContext) (offset : ℕ) : FieldType :=
  (typeAt c.byteReader data c.metaEnd offset).1

/-- An open struct on the stack: its definition lies in the metadata and it is not complete. -/
structure EntryOk (data : List UInt8) (c : EventHeaderEnumeratorContext) (entry : StackEntry) :
    Prop where
  name_ge : c.metaStart ≤ entry.nameOffset
  type_lt : entry.nameOffset + entry.nameLen + 1 < c.metaEnd
  isStruct : FieldEncoding.withoutFlags
    (fieldTypeAt data c (entry.nameOffset + entry.nameLen + 1)).encoding = FieldEncoding.struct
  index_lt : entry.arrayIndex < entry.arrayCount
  count_eq : FieldEncoding.isArray
    (fieldTypeAt data c (entry.nameOffset + entry.nameLen + 1)).encoding = false →
      entry.arrayCount = 1
  known : (fieldTypeAt data c (entry.nameOffset + entry.nameLen + 1)).encoding ≠ readFieldError

/-- The cursors of a context lie inside the event and its stack holds open structs. -/
structure Positioned (data : List UInt8) (c : EventHeaderEnumeratorContext) : Prop where
  length_ge : 8 ≤ data.length
  length_lt : data.length < 0x80000000
  eventName_lt : c.metaStart + c.eventNameLen < c.metaEnd
  metaEnd_le : c.metaEnd ≤ data.length
  metaSize_le : c.metaEnd ≤ c.metaStart + 65535
  activityId_le : c.activityIdStart + c.activityIdLen ≤ data.length
  dataStart_le : c.dataStart ≤ data.length
  nextOffset_ge : c.metaStart ≤ c.stackTop.nextOffset
  nextOffset_le : c.stackTop.nextOffset ≤ c.metaEnd
  dataPosRaw_le : c.dataPosRaw ≤ data.length
  stackIndex_le : c.stackIndex ≤ structNestLimit
  entries : ∀ (index : ℕ) (h : index < 8), index < c.stackIndex → EntryOk data c c.stack[index]

/-- What holds of a context that ended in a decoding error. -/
structure Failed (data : List UInt8) (c c' : EventHeaderEnumeratorContext) : Prop where
  frame_eq : c'.frame = c.frame
  state_eq : c'.state = .error
  substate_eq : c'.substate = .error
  lastError_ne : c'.lastError ≠ .implementationLimit
  remaining_eq : c'.moveNextRemaining = c.moveNextRemaining
  stack_eq : c'.stack = c.stack
  stackIndex_eq : c'.stackIndex = c.stackIndex
  nextOffset_ge : c.metaStart ≤ c'.stackTop.nextOffset
  nextOffset_le : c'.stackTop.nextOffset ≤ c.metaEnd
  dataPosRaw_le : c'.dataPosRaw ≤ data.length

/-- Assumes: a positioned context, and another one that differs in the item, the top of the stack
and the state only, with its cursors in range. -/
theorem Positioned.of_frame (h : Positioned data c) (hframe : c'.frame = c.frame)
    (hstack : c'.stack = c.stack) (hindex : c'.stackIndex = c.stackIndex)
    (hge : c.metaStart ≤ c'.stackTop.nextOffset) (hle : c'.stackTop.nextOffset ≤ c.metaEnd)
    (hpos : c'.dataPosRaw ≤ data.length) : Positioned data c' := by
  have hinfo : c'.eventInfo = c.eventInfo := congrArg EventFrame.info hframe
  have horder : c'.byteReader = c.byteReader := congrArg EventFrame.byteReader hframe
  have hmetaEnd : c'.metaEnd = c.metaEnd := congrArg EventFrame.metaEnd hframe
  have hdataStart : c'.dataStart = c.dataStart := congrArg EventFrame.dataStart hframe
  have hmetaStart : c'.metaStart = c.metaStart := congrArg EventHeaderEventInfo.nameStart hinfo
  have hname : c'.eventNameLen = c.eventNameLen := congrArg EventHeaderEventInfo.nameLen hinfo
  have hactivity : c'.activityIdStart = c.activityIdStart :=
    congrArg EventHeaderEventInfo.activityIdStart hinfo
  have hactivityLen : c'.activityIdLen = c.activityIdLen :=
    congrArg EventHeaderEventInfo.activityIdLen hinfo
  refine ⟨h.length_ge, h.length_lt, ?_, ?_, ?_, ?_, ?_, ?_, ?_, hpos, ?_, ?_⟩
  · rw [hmetaStart, hname, hmetaEnd]
    exact h.eventName_lt
  · rw [hmetaEnd]
    exact h.metaEnd_le
  · rw [hmetaStart, hmetaEnd]
    exact h.metaSize_le
  · rw [hactivity, hactivityLen]
    exact h.activityId_le
  · rw [hdataStart]
    exact h.dataStart_le
  · rw [hmetaStart]
    exact hge
  · rw [hmetaEnd]
    exact hle
  · rw [hindex]
    exact h.stackIndex_le
  · intro index hindex8 hlt
    obtain ⟨hname_ge, htype, hstruct, hcount, hscalar, hknown⟩ :=
      h.entries index hindex8 (by omega)
    have htypeAt : ∀ offset, fieldTypeAt data c' offset = fieldTypeAt data c offset := by
      intro offset
      unfold fieldTypeAt
      rw [horder, hmetaEnd]
    simp only [hstack]
    refine ⟨?_, ?_, ?_, hcount, ?_, ?_⟩
    · rw [hmetaStart]
      exact hname_ge
    · rw [hmetaEnd]
      exact htype
    · rw [htypeAt]
      exact hstruct
    · rw [htypeAt]
      exact hscalar
    · rw [htypeAt]
      exact hknown

theorem Failed.positioned (h : Positioned data c) (hfailed : Failed data c c') :
    Positioned data c' :=
  h.of_frame hfailed.frame_eq hfailed.stack_eq hfailed.stackIndex_eq hfailed.nextOffset_ge
    hfailed.nextOffset_le hfailed.dataPosRaw_le

/-! ### Decoding a field definition -/

/-- The context at a field, with an element count and the offset behind the definition. -/
def atField (c : EventHeaderEnumeratorContext) (field : FieldDef) (arrayCount nextOffset : ℕ) :
    EventHeaderEnumeratorContext :=
  { c with
    stackTop :=
      { nextOffset := nextOffset
        nameOffset := c.stackTop.nextOffset
        nameLen := field.nameLen
        arrayIndex := 0
        arrayCount := arrayCount
        remainingFieldCount := c.stackTop.remainingFieldCount - 1 }
    fieldType := field.fieldType }

/-- The field definition at `nextOffset`. -/
def nextField (data : List UInt8) (c : EventHeaderEnumeratorContext) : Option FieldDef :=
  fieldAt c.byteReader data c.metaEnd c.stackTop.nextOffset

/-- What the first branch of `next_property` can do. -/
inductive FieldStarted (data : List UInt8) (c : EventHeaderEnumeratorContext) :
    Bool × EventHeaderEnumeratorContext → Prop
  | value {field : FieldDef} {pos size cooked raw : ℕ} (hfield : c.nextField data = some field)
      (hknown : field.fieldType.encoding ≠ readFieldError)
      (hscalar : FieldEncoding.isArray field.fieldType.encoding = false)
      (hvalue : FieldEncoding.withoutFlags field.fieldType.encoding ≠ FieldEncoding.struct)
      (hcooked : pos + cooked ≤ data.length) (hraw : c.dataPosRaw + raw ≤ data.length) :
      FieldStarted data c (true,
        ((c.atField field 1 field.typeEnd).setState .value .valueScalar).withItem pos size cooked
          raw)
  | struct {field : FieldDef} (hfield : c.nextField data = some field)
      (hstruct : field.fieldType.encoding = FieldEncoding.struct)
      (hformat : field.fieldType.format ≠ FieldFormat.default) :
      FieldStarted data c (true,
        ((c.atField field 1 field.typeEnd).withItem c.dataPosRaw 0 0 0).setState .structBegin
          .structBegin)
  | variableArray {field : FieldDef} {count size : ℕ} (hfield : c.nextField data = some field)
      (hknown : field.fieldType.encoding ≠ readFieldError)
      (harray : FieldEncoding.isVariableLengthArray field.fieldType.encoding = true)
      (hsize : arrayElementSize (FieldEncoding.withoutFlags field.fieldType.encoding) = .ok size)
      (hfits : c.dataPosRaw + 2 + count * size ≤ data.length) :
      FieldStarted data c (true,
        { c.atField field count field.typeEnd with dataPosRaw := c.dataPosRaw + 2 }.atArrayBegin
          size)
  | constantArray {field : FieldDef} {count size : ℕ} (hfield : c.nextField data = some field)
      (hknown : field.fieldType.encoding ≠ readFieldError)
      (hvariable : FieldEncoding.isVariableLengthArray field.fieldType.encoding = false)
      (harray : FieldEncoding.isConstantLengthArray field.fieldType.encoding = true)
      (hmeta : field.typeEnd + 2 ≤ c.metaEnd) (hcount : count ≠ 0)
      (hsize : arrayElementSize (FieldEncoding.withoutFlags field.fieldType.encoding) = .ok size)
      (hfits : c.dataPosRaw + count * size ≤ data.length) :
      FieldStarted data c (true, (c.atField field count (field.typeEnd + 2)).atArrayBegin size)
  | failed {c' : EventHeaderEnumeratorContext} (hfailed : Failed data c c') :
      FieldStarted data c (false, c')

/-- The byte at the type of a known field is its encoding and the chain flag. -/
theorem encoding_byte_of_fieldAt {order : ByteOrder} {metaEnd offset : ℕ} {field : FieldDef}
    (h : fieldAt order data metaEnd offset = some field) (hmeta : metaEnd ≤ data.length)
    (hknown : field.fieldType.encoding ≠ readFieldError) :
    data[offset + field.nameLen + 1]?.map FieldEncoding.withoutChainFlag =
      some field.fieldType.encoding := by
  obtain ⟨hlt, _, _, htype⟩ := fieldAt_bounds h
  have hfirst : (typeAt order data metaEnd (offset + field.nameLen + 1)).1 = field.fieldType := by
    rw [htype]
  have hne : (typeAt order data metaEnd (offset + field.nameLen + 1)).1.encoding ≠
      readFieldError := by
    rw [hfirst]
    exact hknown
  have hencoding := typeAt_encoding_of_ne hne
  have hbound : offset + field.nameLen + 1 < data.length := by omega
  rw [hfirst] at hencoding
  rw [hencoding, List.getD_eq_getElem?_getD, List.getElem?_eq_getElem hbound]
  rfl

/-- A scalar encoding in the metadata is its own value. -/
theorem withoutFlags_of_fieldAt {order : ByteOrder} {metaEnd offset : ℕ} {field : FieldDef}
    (h : fieldAt order data metaEnd offset = some field)
    (hscalar : FieldEncoding.isArray field.fieldType.encoding = false) :
    FieldEncoding.withoutFlags field.fieldType.encoding = field.fieldType.encoding := by
  obtain ⟨_, _, _, htype⟩ := fieldAt_bounds h
  obtain ⟨encoding, hencoding⟩ := typeAt_encoding order data metaEnd (offset + field.nameLen + 1)
  rw [htype] at hencoding
  rw [hencoding] at hscalar ⊢
  exact FieldEncoding.withoutFlags_of_not_isArray encoding hscalar

/-- Assumes: a positioned context. Decoding the next field definition returns one of the cases of
`FieldStarted`. -/
theorem decodeField_returns (h : Positioned data c) :
    Returns (decodeField build data c) (FieldStarted data c) := by
  have hge := h.nextOffset_ge
  have hle := h.nextOffset_le
  have hpos := h.dataPosRaw_le
  have hmeta := h.metaEnd_le
  have hsize := h.metaSize_le
  unfold decodeField
  dsimp only
  rw [readFieldNameAndType_eq build (by exact hle) (by exact hmeta), ok_bind]
  dsimp only
  cases hfield : fieldAt c.byteReader data c.metaEnd c.stackTop.nextOffset with
  | none =>
    dsimp only
    rw [if_pos rfl]
    exact Returns.ok (.failed ⟨rfl, rfl, rfl, by simp, rfl, rfl, rfl, hge, hle, hpos⟩)
  | some field =>
    obtain ⟨htype, htypeEnd, htypeEnd_le, _⟩ := fieldAt_bounds hfield
    have hnameLen : field.nameLen % 65536 = field.nameLen := Nat.mod_eq_of_lt (by omega)
    dsimp only
    rw [hnameLen]
    refine Returns.ite (fun _ ↦ ?_) (fun hknown ↦ Returns.ite (fun hscalar ↦ ?_) (fun _ ↦
      Returns.ite (fun hvariable ↦ ?_) (fun hvariable ↦ Returns.ite (fun hconstant ↦ ?_)
        (fun _ ↦ ?_))))
    · exact Returns.ok (.failed ⟨rfl, rfl, rfl, by simp, rfl, rfl, rfl,
        by dsimp only [setErrorState]; omega, htypeEnd_le, hpos⟩)
    · have hself := withoutFlags_of_fieldAt hfield (by simpa using hscalar)
      refine Returns.ite (fun hvalue ↦ ?_) (fun hstruct ↦ Returns.ite (fun _ ↦ ?_)
        (fun hformat ↦ ?_))
      · have hnotStruct : FieldEncoding.withoutFlags field.fieldType.encoding ≠
            FieldEncoding.struct := by
          rw [hself]
          exact hvalue.symm
        refine (startValue_returns (c := (c.atField field 1 field.typeEnd).setState .value
          .valueScalar) h.length_ge hpos rfl (encoding_byte_of_fieldAt hfield hmeta hknown)
          hnotStruct).mono ?_
        rintro _ (⟨pos, size, cooked, raw, hcooked, hraw, _, rfl⟩ | ⟨pos, size, rfl⟩)
        · exact .value hfield hknown (by simpa using hscalar) hnotStruct hcooked hraw
        · exact .failed ⟨rfl, rfl, rfl, by simp, rfl, rfl, rfl,
            by dsimp only [setErrorState, withItem, setState, atField]; omega, htypeEnd_le, hpos⟩
      · exact Returns.ok (.failed ⟨rfl, rfl, rfl, by simp, rfl, rfl, rfl,
          by dsimp only [setErrorState]; omega, htypeEnd_le, hpos⟩)
      · have hstruct' : field.fieldType.encoding = FieldEncoding.struct := by
          simpa using Eq.symm (not_not.mp hstruct)
        unfold startStruct
        rw [debugAssert_of (by exact hself.trans hstruct'), ok_bind]
        exact Returns.ok (.struct hfield hstruct' hformat)
    · rw [sub_of_le hpos, ok_bind]
      refine Returns.ite (fun _ ↦ ?_) (fun hroom ↦ ?_)
      · exact Returns.ok (.failed ⟨rfl, rfl, rfl, by simp, rfl, rfl, rfl,
          by dsimp only [setErrorState]; omega, htypeEnd_le, hpos⟩)
      · rw [readUInt_of_le (by omega), ok_bind]
        refine (startArray_returns (c := { c.atField field _ field.typeEnd with
          dataPosRaw := c.dataPosRaw + 2 }) (by dsimp only; omega)).mono ?_
        rintro _ (⟨size, hsize, hfits, rfl⟩ | ⟨size, error, herror, rfl⟩)
        · exact .variableArray hfield hknown hvariable hsize hfits
        · exact .failed ⟨rfl, rfl, rfl, herror, rfl, rfl, rfl,
            by dsimp only [setErrorState, withItem, setState, atField]; omega, htypeEnd_le,
            by dsimp only [setErrorState, withItem, setState, atField]; omega⟩
    · rw [sub_of_le (by exact htypeEnd_le), ok_bind]
      refine Returns.ite (fun _ ↦ ?_) (fun hroom ↦ ?_)
      · exact Returns.ok (.failed ⟨rfl, rfl, rfl, by simp, rfl, rfl, rfl,
          by dsimp only [setErrorState]; omega, htypeEnd_le, hpos⟩)
      · rw [readUInt_of_le (by omega), ok_bind]
        refine Returns.ite (fun _ ↦ ?_) (fun hcount ↦ ?_)
        · exact Returns.ok (.failed ⟨rfl, rfl, rfl, by simp, rfl, rfl, rfl,
            by dsimp only [setErrorState]; omega, by dsimp only [setErrorState]; omega, hpos⟩)
        · refine (startArray_returns (c := c.atField field _ (field.typeEnd + 2)) hpos).mono ?_
          rintro _ (⟨size, hsize, hfits, rfl⟩ | ⟨size, error, herror, rfl⟩)
          · exact .constantArray hfield hknown (by simpa using hvariable) hconstant (by omega)
              hcount hsize hfits
          · exact .failed ⟨rfl, rfl, rfl, herror, rfl, rfl, rfl,
              by dsimp only [setErrorState, withItem, setState, atField]; omega,
              by dsimp only [setErrorState, withItem, setState, atField]; omega, hpos⟩
    · exact Returns.ok (.failed ⟨rfl, rfl, rfl, by simp, rfl, rfl, rfl,
        by dsimp only [setErrorState]; omega, htypeEnd_le, hpos⟩)

/-! ### The next property -/

/-- The context after the struct of a stack entry is popped: at the entry's field again, with the
metadata cursor behind the child fields if this was the last element, behind the field's type
otherwise. -/
def popped (data : List UInt8) (c : EventHeaderEnumeratorContext) (index : ℕ)
    (entry : StackEntry) : EventHeaderEnumeratorContext :=
  let typ := typeAt c.byteReader data c.metaEnd (entry.nameOffset + entry.nameLen + 1)
  { c with
    stackIndex := index
    stackTop :=
      { entry with
        nextOffset :=
          if entry.arrayIndex + 1 = entry.arrayCount then c.stackTop.nextOffset else typ.2 }
    fieldType := typ.1
    elementSize := 0 }.setEndState .structEnd .structEnd

/-- What `next_property` can do. -/
inductive PropertyStep (data : List UInt8) (c : EventHeaderEnumeratorContext) :
    Bool × EventHeaderEnumeratorContext → Prop
  | field {result : Bool × EventHeaderEnumeratorContext}
      (hremaining : c.stackTop.remainingFieldCount ≠ 0) (hnext : c.stackTop.nextOffset ≠ c.metaEnd)
      (hfield : FieldStarted data c result) : PropertyStep data c result
  | pop {index : ℕ} (hdone : c.stackTop.remainingFieldCount = 0 ∨ c.stackTop.nextOffset = c.metaEnd)
      (hindex8 : index < 8) (hindex : c.stackIndex = index + 1) :
      PropertyStep data c (true, c.popped data index c.stack[index])
  | trailing (hremaining : c.stackTop.remainingFieldCount = 0) (hindex : c.stackIndex = 0)
      (hnext : c.stackTop.nextOffset ≠ c.metaEnd) :
      PropertyStep data c (c.setErrorState .notSupported)
  | finished (hindex : c.stackIndex = 0) (hnext : c.stackTop.nextOffset = c.metaEnd) :
      PropertyStep data c (false, c.setEndState .afterLastItem .afterLastItem)

/-- An open struct can be popped. -/
theorem popStruct_entry {index : ℕ} (hindex8 : index < 8) (hentry : EntryOk data c c.stack[index])
    (hmeta : c.metaEnd ≤ data.length) (hindex : c.stackIndex = index + 1) :
    popStruct build data c = .ok (true, c.popped data index c.stack[index]) := by
  unfold popStruct
  simp only [hindex, Nat.add_sub_cancel, hindex8, dite_true]
  rw [readFieldType_eq build (by exact hentry.type_lt) (by exact hmeta), ok_bind]
  dsimp only
  rw [debugAssert_of (by exact hentry.isStruct.symm), ok_bind,
    debugAssert_of (by exact hentry.index_lt), ok_bind]
  unfold popped
  dsimp only
  split_ifs <;> rfl

theorem popStruct_eq (h : Positioned data c) {index : ℕ} (hindex8 : index < 8)
    (hindex : c.stackIndex = index + 1) :
    popStruct build data c = .ok (true, c.popped data index c.stack[index]) :=
  popStruct_entry hindex8 (h.entries index hindex8 (by omega)) h.metaEnd_le hindex

/-- Assumes: a positioned context. `next_property` returns one of the cases of `PropertyStep`. -/
theorem nextProperty_returns (build : Build) (h : Positioned data c) :
    Returns (nextProperty build data c) (PropertyStep data c) := by
  unfold nextProperty
  refine Returns.ite (fun hmore ↦ ?_) (fun hdone ↦ Returns.ite (fun hopen ↦ ?_) (fun htop ↦
    Returns.ite (fun hnext ↦ ?_) (fun hnext ↦ ?_)))
  · exact (decodeField_returns h).mono fun result hresult ↦ .field hmore.1 hmore.2 hresult
  · have hle : c.stackIndex ≤ 8 := h.stackIndex_le
    obtain ⟨index, hindex⟩ := Nat.exists_eq_succ_of_ne_zero hopen
    rw [popStruct_eq h (by omega) hindex]
    exact Returns.ok (.pop (by tauto) (by omega) hindex)
  · exact Returns.ok (.trailing (by tauto) (not_not.mp htop) hnext)
  · exact Returns.ok (.finished (not_not.mp htop) (not_not.mp hnext))

/-! ### Skipping the fields of a struct -/

/-- The context with another name and metadata cursor. -/
def withCursor (c : EventHeaderEnumeratorContext) (nameOffset nameLen nextOffset : ℕ) :
    EventHeaderEnumeratorContext :=
  { c with
    stackTop :=
      { c.stackTop with
        nameOffset := nameOffset
        nameLen := nameLen
        nextOffset := nextOffset } }

/-- The skipped fields lie inside the metadata, or the skip ended in an error. -/
def Skipped (data : List UInt8) (c : EventHeaderEnumeratorContext)
    (result : Bool × EventHeaderEnumeratorContext) : Prop :=
  (∃ nameOffset nameLen nextOffset, c.stackTop.nextOffset ≤ nextOffset ∧ nextOffset ≤ c.metaEnd ∧
      result = (true, c.withCursor nameOffset nameLen nextOffset)) ∨
    ∃ c', Failed data c c' ∧ result = (false, c')

/-- The one fault a move may end in: the field counter of `skip_struct_metadata` overflows in a
build that checks for it. -/
def CounterOverflow (build : Build) (fault : Fault) : Prop :=
  fault = .overflow ∧ build.debugAssertions = true

/-- The field counter after a field is added to it is positive in a build that checks for
overflows. -/
theorem addStructFields_returns {remaining : ℕ} {typ : FieldType} (h : remaining ≠ 0) :
    ReturnsUnless (CounterOverflow build) (addStructFields build remaining typ) fun count ↦
      build.debugAssertions = true → count ≠ 0 := by
  unfold addStructFields
  refine ReturnsUnless.ite (fun _ ↦ ?_) (fun _ ↦ .of_returns (Returns.ok fun _ ↦ h))
  unfold addU8
  split_ifs with hfits hdebug
  · exact .of_returns (Returns.ok fun _ ↦ by omega)
  · exact .of_fault ⟨rfl, hdebug⟩
  · exact .of_returns (Returns.ok fun hchecked ↦ absurd hchecked hdebug)

theorem subU8_one_returns {count : ℕ} (h : build.debugAssertions = true → count ≠ 0) :
    Returns (subU8 build count 1) fun _ ↦ True := by
  unfold subU8
  split_ifs with hpos hdebug
  · exact Returns.ok trivial
  · exact absurd (h hdebug) (by omega)
  · exact Returns.ok trivial

theorem Skipped.of_error {error : EventHeaderEnumeratorError} {nameOffset nameLen nextOffset : ℕ}
    (herror : error ≠ .implementationLimit) (hge : c.metaStart ≤ nextOffset)
    (hle : nextOffset ≤ c.metaEnd) (hpos : c.dataPosRaw ≤ data.length) :
    Skipped data c ((c.withCursor nameOffset nameLen nextOffset).setErrorState error) :=
  Or.inr ⟨((c.withCursor nameOffset nameLen nextOffset).setErrorState error).2,
    ⟨rfl, rfl, rfl, herror, rfl, rfl, rfl, hge, hle, hpos⟩, rfl⟩

theorem Skipped.of_withCursor {nameOffset nameLen nextOffset : ℕ}
    {result : Bool × EventHeaderEnumeratorContext} (hge : c.stackTop.nextOffset ≤ nextOffset)
    (h : Skipped data (c.withCursor nameOffset nameLen nextOffset) result) :
    Skipped data c result := by
  rcases h with ⟨nameOffset', nameLen', nextOffset', hge', hle', rfl⟩ | ⟨c', hfailed, rfl⟩
  · exact Or.inl ⟨nameOffset', nameLen', nextOffset', hge.trans hge', hle', rfl⟩
  · exact Or.inr ⟨c', { hfailed with }, rfl⟩

theorem Positioned.withCursor (h : Positioned data c) {nameOffset nameLen nextOffset : ℕ}
    (hge : c.metaStart ≤ nextOffset) (hle : nextOffset ≤ c.metaEnd) :
    Positioned data (c.withCursor nameOffset nameLen nextOffset) :=
  h.of_frame rfl rfl rfl hge hle h.dataPosRaw_le

/-- Assumes: a positioned context and as many iterations as metadata bytes are left. -/
theorem skipStructMetadataLoop_returns (fuel remaining : ℕ) (h : Positioned data c)
    (hfuel : c.metaEnd - c.stackTop.nextOffset ≤ fuel) :
    ReturnsUnless (CounterOverflow build) (skipStructMetadataLoop build data fuel remaining c)
      (Skipped data c) := by
  induction fuel generalizing remaining c with
  | zero =>
    have hle := h.nextOffset_le
    rw [skipStructMetadataLoop, if_pos (Or.inr (by omega))]
    exact .of_returns (Returns.ok (Or.inl
      ⟨c.stackTop.nameOffset, c.stackTop.nameLen, c.stackTop.nextOffset, le_rfl, hle, rfl⟩))
  | succ fuel ih =>
    have hge := h.nextOffset_ge
    have hle := h.nextOffset_le
    have hsize := h.metaSize_le
    rw [skipStructMetadataLoop]
    refine ReturnsUnless.ite (fun _ ↦ ?_) (fun hmore ↦ ?_)
    · exact .of_returns (Returns.ok (Or.inl
        ⟨c.stackTop.nameOffset, c.stackTop.nameLen, c.stackTop.nextOffset, le_rfl, hle, rfl⟩))
    · obtain ⟨hremaining, hnext⟩ := not_or.mp hmore
      dsimp only
      rw [readFieldNameAndType_eq build (by exact hle) (by exact h.metaEnd_le), ok_bind]
      dsimp only
      cases hfield : fieldAt c.byteReader data c.metaEnd c.stackTop.nextOffset with
      | none =>
        dsimp only
        rw [if_pos rfl]
        exact .of_returns (Returns.ok (Skipped.of_error (by decide) hge hle h.dataPosRaw_le))
      | some field =>
        obtain ⟨htype, htypeEnd, htypeEnd_le, _⟩ := fieldAt_bounds hfield
        dsimp only
        refine ReturnsUnless.ite (fun _ ↦ ?_) (fun _ ↦ ?_)
        · exact .of_returns (Returns.ok (Skipped.of_error (by decide) (by omega) htypeEnd_le
            h.dataPosRaw_le))
        refine ReturnsUnless.bind (addStructFields_returns hremaining) (fun count hcount ↦ ?_)
        refine ReturnsUnless.ite (fun _ ↦ ?_) (fun _ ↦ ReturnsUnless.ite (fun _ ↦ ?_) (fun _ ↦ ?_))
        · refine ReturnsUnless.bind (.of_returns (subU8_one_returns hcount)) (fun left _ ↦ ?_)
          refine (ih (c := c.withCursor _ _ field.typeEnd) left (h.withCursor (by omega) htypeEnd_le)
            (by dsimp only [withCursor]; omega)).mono ?_
          exact fun result hresult ↦ hresult.of_withCursor (by omega)
        · rw [sub_of_le (by exact htypeEnd_le), ok_bind]
          refine ReturnsUnless.ite (fun _ ↦ ?_) (fun hroom ↦ ?_)
          · exact .of_returns (Returns.ok (Skipped.of_error (by decide) (by omega) htypeEnd_le
              h.dataPosRaw_le))
          · refine ReturnsUnless.bind (.of_returns (subU8_one_returns hcount)) (fun left _ ↦ ?_)
            refine (ih (c := c.withCursor _ _ (field.typeEnd + 2)) left
              (h.withCursor (by omega) (by omega)) (by dsimp only [withCursor]; omega)).mono ?_
            exact fun result hresult ↦ hresult.of_withCursor (by omega)
        · exact .of_returns (Returns.ok (Skipped.of_error (by decide) (by omega) htypeEnd_le
            h.dataPosRaw_le))

theorem skipStructMetadata_returns (build : Build) (h : Positioned data c)
    (hstruct : FieldEncoding.withoutFlags c.fieldType.encoding = FieldEncoding.struct) :
    ReturnsUnless (CounterOverflow build) (skipStructMetadata build data c) (Skipped data c) := by
  unfold skipStructMetadata
  rw [debugAssert_of hstruct, ok_bind]
  exact skipStructMetadataLoop_returns _ _ h le_rfl

/-! ### The current item -/

/-- The current field is the one whose definition the context names. -/
structure NamedField (data : List UInt8) (c : EventHeaderEnumeratorContext) : Prop where
  name_ge : c.metaStart ≤ c.stackTop.nameOffset
  type_lt : c.stackTop.nameOffset + c.stackTop.nameLen + 1 < c.metaEnd
  fieldType_eq :
    c.fieldType = fieldTypeAt data c (c.stackTop.nameOffset + c.stackTop.nameLen + 1)
  known : c.fieldType.encoding ≠ readFieldError

/-- The bytes of the current item lie inside the event. -/
structure ItemInRange (data : List UInt8) (c : EventHeaderEnumeratorContext) : Prop where
  raw_le : c.dataPosRaw + c.itemSizeRaw ≤ data.length
  cooked_le : c.dataPosCooked + c.itemSizeCooked ≤ data.length

structure ScalarItem (data : List UInt8) (c : EventHeaderEnumeratorContext) : Prop
    extends NamedField data c, ItemInRange data c where
  state_eq : c.state = .value
  scalar : FieldEncoding.isArray c.fieldType.encoding = false
  notStruct : FieldEncoding.withoutFlags c.fieldType.encoding ≠ FieldEncoding.struct

/-- An element of an array of simple elements; the rest of the array lies inside the event. -/
structure SimpleElement (data : List UInt8) (c : EventHeaderEnumeratorContext) : Prop
    extends NamedField data c where
  state_eq : c.state = .value
  array : FieldEncoding.isArray c.fieldType.encoding = true
  notStruct : FieldEncoding.withoutFlags c.fieldType.encoding ≠ FieldEncoding.struct
  index_lt : c.stackTop.arrayIndex < c.stackTop.arrayCount
  elementSize_ne : c.elementSize ≠ 0
  raw_eq : c.itemSizeRaw = c.elementSize
  cooked_eq : c.itemSizeCooked = c.elementSize
  pos_eq : c.dataPosCooked = c.dataPosRaw
  rest_le : c.dataPosRaw + (c.stackTop.arrayCount - c.stackTop.arrayIndex) * c.elementSize ≤
    data.length

structure ComplexElement (data : List UInt8) (c : EventHeaderEnumeratorContext) : Prop
    extends NamedField data c, ItemInRange data c where
  state_eq : c.state = .value
  array : FieldEncoding.isArray c.fieldType.encoding = true
  notStruct : FieldEncoding.withoutFlags c.fieldType.encoding ≠ FieldEncoding.struct
  index_lt : c.stackTop.arrayIndex < c.stackTop.arrayCount
  elementSize_eq : c.elementSize = 0
  complex : arrayElementSize (FieldEncoding.withoutFlags c.fieldType.encoding) = .ok 0

/-- The context stands at the first item of a field, with the metadata cursor behind its complete
definition. -/
structure AtDefinition (data : List UInt8) (c : EventHeaderEnumeratorContext)
    (field : FieldDef) : Prop where
  definition : definitionAt c.byteReader data c.metaEnd c.stackTop.nameOffset = some field
  nameLen_eq : c.stackTop.nameLen = field.nameLen
  fieldType_eq : c.fieldType = field.fieldType
  next_eq : c.stackTop.nextOffset = field.definitionEnd

/-- The begin of an array; its simple elements lie inside the event. -/
structure ArrayBeginItem (data : List UInt8) (c : EventHeaderEnumeratorContext) : Prop
    extends NamedField data c where
  definition : ∃ field, AtDefinition data c field
  state_eq : c.state = .arrayBegin
  array : FieldEncoding.isArray c.fieldType.encoding = true
  index_eq : c.stackTop.arrayIndex = 0
  elementSize_eq :
    arrayElementSize (FieldEncoding.withoutFlags c.fieldType.encoding) = .ok c.elementSize
  raw_eq : c.itemSizeRaw = c.stackTop.arrayCount * c.elementSize
  cooked_eq : c.itemSizeCooked = c.stackTop.arrayCount * c.elementSize
  pos_eq : c.dataPosCooked = c.dataPosRaw
  array_le : c.dataPosRaw + c.stackTop.arrayCount * c.elementSize ≤ data.length

/-- An item of no bytes at the data position. -/
structure EmptyItem (c : EventHeaderEnumeratorContext) : Prop where
  raw_eq : c.itemSizeRaw = 0
  cooked_eq : c.itemSizeCooked = 0
  pos_eq : c.dataPosCooked = c.dataPosRaw

structure ArrayEndItem (data : List UInt8) (c : EventHeaderEnumeratorContext) : Prop
    extends NamedField data c, EmptyItem c where
  state_eq : c.state = .arrayEnd
  array : FieldEncoding.isArray c.fieldType.encoding = true
  count_eq : c.stackTop.arrayCount = c.stackTop.arrayIndex

/-- The begin or the end of a struct. -/
structure StructItem (data : List UInt8) (c : EventHeaderEnumeratorContext) : Prop
    extends NamedField data c, EmptyItem c where
  isStruct : FieldEncoding.withoutFlags c.fieldType.encoding = FieldEncoding.struct
  index_lt : c.stackTop.arrayIndex < c.stackTop.arrayCount
  count_eq : FieldEncoding.isArray c.fieldType.encoding = false → c.stackTop.arrayCount = 1

/-- A field definition shown by metadata enumeration: the item has no bytes. -/
structure MetadataItem (data : List UInt8) (c : EventHeaderEnumeratorContext) : Prop
    extends NamedField data c where
  state_eq : c.state = .value ∨ c.state = .arrayBegin
  cooked_eq : c.itemSizeCooked = 0
  pos_eq : c.dataPosCooked = data.length

/-- What holds of the current item in each substate. -/
def ItemInv (data : List UInt8) (c : EventHeaderEnumeratorContext) : Prop :=
  match c.substate with
  | .error => c.state = .error
  | .afterLastItem => c.state = .afterLastItem
  | .beforeFirstItem => c.state = .beforeFirstItem
  | .valueMetadata => MetadataItem data c
  | .valueScalar => ScalarItem data c
  | .valueSimpleArrayElement => SimpleElement data c
  | .valueComplexArrayElement => ComplexElement data c
  | .arrayBegin => ArrayBeginItem data c
  | .arrayEnd => ArrayEndItem data c
  | .structBegin => c.state = .structBegin ∧ StructItem data c
  | .structEnd => c.state = .structEnd ∧ StructItem data c

/-- The invariant of the enumerator. -/
structure EnumeratorInv (data : List UInt8) (c : EventHeaderEnumeratorContext) : Prop where
  positioned : Positioned data c
  item : ItemInv data c

/-! ### One move -/

/-- The context after a move is paid for. -/
def spend (c : EventHeaderEnumeratorContext) : EventHeaderEnumeratorContext :=
  { c with moveNextRemaining := c.moveNextRemaining - 1 }

/-- The context behind the bytes of its item. -/
def pastItem (c : EventHeaderEnumeratorContext) : EventHeaderEnumeratorContext :=
  { c with dataPosRaw := c.dataPosRaw + c.itemSizeRaw }

/-- The context at the next array element. -/
def nextElement (c : EventHeaderEnumeratorContext) : EventHeaderEnumeratorContext :=
  { c with stackTop := { c.stackTop with arrayIndex := c.stackTop.arrayIndex + 1 } }

/-- The context at the end of an array. -/
def atArrayEnd (c : EventHeaderEnumeratorContext) : EventHeaderEnumeratorContext :=
  c.setEndState .arrayEnd .arrayEnd

/-- The context at the begin of a struct. -/
def atStructBegin (c : EventHeaderEnumeratorContext) : EventHeaderEnumeratorContext :=
  (c.withItem c.dataPosRaw 0 0 0).setState .structBegin .structBegin

/-- The context inside the struct it stands at. -/
def pushed (c : EventHeaderEnumeratorContext) (h : c.stackIndex < 8) :
    EventHeaderEnumeratorContext :=
  { c with
    stack := c.stack.set c.stackIndex c.stackTop
    stackIndex := c.stackIndex + 1
    stackTop := { c.stackTop with remainingFieldCount := c.fieldType.format.toNat } }

/-- The context of an element of simple type at its begin. -/
def atSimpleElement (c : EventHeaderEnumeratorContext) : EventHeaderEnumeratorContext :=
  (c.withItem c.dataPosRaw c.elementSize c.elementSize c.elementSize).setState .value
    .valueSimpleArrayElement

/-- What `move_next` can do where the state allows it. -/
inductive MoveStep (build : Build) (data : List UInt8) (c : EventHeaderEnumeratorContext) :
    Bool × EventHeaderEnumeratorContext → Prop
  | exhausted (hbudget : c.moveNextRemaining = 0) :
      MoveStep build data c (c.setErrorState .implementationLimit)
  | first {result : Bool × EventHeaderEnumeratorContext} (hbudget : c.moveNextRemaining ≠ 0)
      (hsubstate : c.substate = .beforeFirstItem) (hstep : PropertyStep data c.spend result) :
      MoveStep build data c result
  | scalar {result : Bool × EventHeaderEnumeratorContext} (hbudget : c.moveNextRemaining ≠ 0)
      (hsubstate : c.substate = .valueScalar) (hstep : PropertyStep data c.spend.pastItem result) :
      MoveStep build data c result
  | simpleNext (hbudget : c.moveNextRemaining ≠ 0)
      (hsubstate : c.substate = .valueSimpleArrayElement)
      (hmore : c.stackTop.arrayCount ≠ c.stackTop.arrayIndex + 1) :
      MoveStep build data c (true, c.spend.pastItem.nextElement.atSimpleElement)
  | elementsDone (hbudget : c.moveNextRemaining ≠ 0)
      (hsubstate : c.substate = .valueSimpleArrayElement ∨ c.substate = .valueComplexArrayElement)
      (hdone : c.stackTop.arrayCount = c.stackTop.arrayIndex + 1) :
      MoveStep build data c (true, c.spend.pastItem.nextElement.atArrayEnd)
  | complexNext {result : Bool × EventHeaderEnumeratorContext} (hbudget : c.moveNextRemaining ≠ 0)
      (hsubstate : c.substate = .valueComplexArrayElement)
      (hmore : c.stackTop.arrayCount ≠ c.stackTop.arrayIndex + 1)
      (hstarted : ValueStarted data c.spend.pastItem.nextElement result) :
      MoveStep build data c result
  | arrayEmpty (hbudget : c.moveNextRemaining ≠ 0) (hsubstate : c.substate = .arrayBegin)
      (hcount : c.stackTop.arrayCount = 0) : MoveStep build data c (true, c.spend.atArrayEnd)
  | simpleFirst (hbudget : c.moveNextRemaining ≠ 0) (hsubstate : c.substate = .arrayBegin)
      (hcount : c.stackTop.arrayCount ≠ 0) (hsize : c.elementSize ≠ 0) :
      MoveStep build data c (true, c.spend.atSimpleElement)
  | complexFirst {result : Bool × EventHeaderEnumeratorContext} (hbudget : c.moveNextRemaining ≠ 0)
      (hsubstate : c.substate = .arrayBegin) (hcount : c.stackTop.arrayCount ≠ 0)
      (hsize : c.elementSize = 0)
      (hstruct : FieldEncoding.withoutFlags c.fieldType.encoding ≠ FieldEncoding.struct)
      (hstarted : ValueStarted data (c.spend.setState .value .valueComplexArrayElement) result) :
      MoveStep build data c result
  | structFirst (hbudget : c.moveNextRemaining ≠ 0) (hsubstate : c.substate = .arrayBegin)
      (hcount : c.stackTop.arrayCount ≠ 0)
      (hstruct : FieldEncoding.withoutFlags c.fieldType.encoding = FieldEncoding.struct) :
      MoveStep build data c (true, c.spend.atStructBegin)
  | arrayEnd {result : Bool × EventHeaderEnumeratorContext} (hbudget : c.moveNextRemaining ≠ 0)
      (hsubstate : c.substate = .arrayEnd)
      (hnoSkip : ¬(FieldEncoding.withoutFlags c.fieldType.encoding = FieldEncoding.struct ∧
        c.stackTop.arrayCount = 0))
      (hstep : PropertyStep data c.spend result) : MoveStep build data c result
  | skip {result : Bool × EventHeaderEnumeratorContext} {nameOffset nameLen nextOffset : ℕ}
      (hbudget : c.moveNextRemaining ≠ 0) (hsubstate : c.substate = .arrayEnd)
      (hstruct : FieldEncoding.withoutFlags c.fieldType.encoding = FieldEncoding.struct)
      (hcount : c.stackTop.arrayCount = 0) (hge : c.stackTop.nextOffset ≤ nextOffset)
      (hle : nextOffset ≤ c.metaEnd)
      (hskip : skipStructMetadata build data c.spend =
        .ok (true, c.spend.withCursor nameOffset nameLen nextOffset))
      (hstep : PropertyStep data (c.spend.withCursor nameOffset nameLen nextOffset) result) :
      MoveStep build data c result
  | skipFailed {c' : EventHeaderEnumeratorContext} (hbudget : c.moveNextRemaining ≠ 0)
      (hsubstate : c.substate = .arrayEnd) (hfailed : Failed data c.spend c') :
      MoveStep build data c (false, c')
  | stackOverflow (hbudget : c.moveNextRemaining ≠ 0) (hsubstate : c.substate = .structBegin)
      (hfull : c.stackIndex = 8) : MoveStep build data c (c.spend.setErrorState .stackOverflow)
  | push {result : Bool × EventHeaderEnumeratorContext} (hbudget : c.moveNextRemaining ≠ 0)
      (hsubstate : c.substate = .structBegin) (hroom : c.stackIndex < 8)
      (hstep : PropertyStep data (c.spend.pushed hroom) result) : MoveStep build data c result
  | structNext (hbudget : c.moveNextRemaining ≠ 0) (hsubstate : c.substate = .structEnd)
      (hmore : c.stackTop.arrayCount ≠ c.stackTop.arrayIndex + 1) :
      MoveStep build data c (true, c.spend.nextElement.atStructBegin)
  | structsDone (hbudget : c.moveNextRemaining ≠ 0) (hsubstate : c.substate = .structEnd)
      (hdone : c.stackTop.arrayCount = c.stackTop.arrayIndex + 1)
      (harray : FieldEncoding.isArray c.fieldType.encoding = true) :
      MoveStep build data c (true, c.spend.nextElement.atArrayEnd)
  | structEnd {result : Bool × EventHeaderEnumeratorContext} (hbudget : c.moveNextRemaining ≠ 0)
      (hsubstate : c.substate = .structEnd)
      (hdone : c.stackTop.arrayCount = c.stackTop.arrayIndex + 1)
      (hscalar : FieldEncoding.isArray c.fieldType.encoding = false)
      (hstep : PropertyStep data c.spend.nextElement result) : MoveStep build data c result

theorem Positioned.spend (h : Positioned data c) : Positioned data c.spend :=
  h.of_frame rfl rfl rfl h.nextOffset_ge h.nextOffset_le h.dataPosRaw_le

/-- Behind an item that lies inside the event the context is positioned. -/
theorem Positioned.pastItem (h : Positioned data c)
    (hraw : c.dataPosRaw + c.itemSizeRaw ≤ data.length) : Positioned data c.pastItem :=
  h.of_frame rfl rfl rfl h.nextOffset_ge h.nextOffset_le hraw

theorem Positioned.nextElement (h : Positioned data c) : Positioned data c.nextElement :=
  h.of_frame rfl rfl rfl h.nextOffset_ge h.nextOffset_le h.dataPosRaw_le

/-- The current item of an open struct makes a stack entry. -/
theorem StructItem.entryOk (h : StructItem data c) : EntryOk data c c.stackTop := by
  have htype := h.fieldType_eq
  refine ⟨h.name_ge, h.type_lt, ?_, h.index_lt, ?_, ?_⟩
  · rw [← htype]
    exact h.isStruct
  · rw [← htype]
    exact h.count_eq
  · rw [← htype]
    exact h.known

/-- Entering the struct it stands at leaves the context positioned. -/
theorem Positioned.pushed (h : Positioned data c) (hstruct : StructItem data c)
    (hroom : c.stackIndex < 8) : Positioned data (c.pushed hroom) := by
  refine ⟨h.length_ge, h.length_lt, h.eventName_lt, h.metaEnd_le, h.metaSize_le, h.activityId_le,
    h.dataStart_le, h.nextOffset_ge, h.nextOffset_le, h.dataPosRaw_le, hroom, ?_⟩
  intro index hindex8 hlt
  have hlt' : index < c.stackIndex + 1 := hlt
  show EntryOk data (c.pushed hroom) ((c.stack.set c.stackIndex c.stackTop)[index])
  rw [Vector.getElem_set]
  split_ifs with heq
  · exact { hstruct.entryOk with }
  · exact { h.entries index hindex8 (by omega) with }

/-- The byte at the type of a named field is its encoding and the chain flag. -/
theorem NamedField.encoding_byte (h : NamedField data c) (hmeta : c.metaEnd ≤ data.length) :
    data[c.stackTop.nameOffset + c.stackTop.nameLen + 1]?.map FieldEncoding.withoutChainFlag =
      some c.fieldType.encoding := by
  have hlt := h.type_lt
  have hbound : c.stackTop.nameOffset + c.stackTop.nameLen + 1 < data.length := by omega
  have htype := h.fieldType_eq
  have hknown := h.known
  rw [htype] at hknown
  have hencoding := typeAt_encoding_of_ne hknown
  rw [htype]
  unfold fieldTypeAt
  rw [hencoding, List.getD_eq_getElem?_getD, List.getElem?_eq_getElem hbound]
  rfl

/-- Assumes: the invariant, at a scalar value. -/
theorem moveNextValueScalar_returns (h : Positioned data c) (hitem : ScalarItem data c)
    (hbudget : c.moveNextRemaining ≠ 0) (hsubstate : c.substate = .valueScalar) :
    Returns (moveNextValueScalar build data c.spend) (MoveStep build data c) := by
  have hraw := hitem.raw_le
  have hpos := h.dataPosRaw_le
  unfold moveNextValueScalar
  rw [debugAssert_of (by exact hitem.state_eq), ok_bind,
    debugAssert_of (by exact hitem.notStruct), ok_bind,
    debugAssert_of (by rw [Bool.not_eq_true]; exact hitem.scalar), ok_bind,
    debugAssert_of (by exact ⟨hpos, by simp only [EventHeaderEnumeratorContext.spend]; omega⟩), ok_bind]
  exact (nextProperty_returns build (h.spend.pastItem hraw)).mono fun result hresult ↦
    .scalar hbudget hsubstate hresult

/-- An element of an array of simple elements lies inside the event. -/
theorem SimpleElement.raw_le (h : SimpleElement data c) :
    c.dataPosRaw + c.itemSizeRaw ≤ data.length := by
  have hlt := h.index_lt
  have hrest := h.rest_le
  have hmul : 1 * c.elementSize ≤
      (c.stackTop.arrayCount - c.stackTop.arrayIndex) * c.elementSize :=
    Nat.mul_le_mul_right _ (by omega)
  rw [h.raw_eq]
  omega

theorem startValueSimple_eq (hindex : c.stackTop.arrayIndex < c.stackTop.arrayCount)
    (harray : FieldEncoding.isArray c.fieldType.encoding = true)
    (hstruct : FieldEncoding.withoutFlags c.fieldType.encoding ≠ FieldEncoding.struct)
    (hsize : c.elementSize ≠ 0) (hcooked : c.itemSizeCooked = c.elementSize)
    (hraw : c.itemSizeRaw = c.elementSize) (hstate : c.state = .value) :
    startValueSimple build c = .ok { c with dataPosCooked := c.dataPosRaw } := by
  unfold startValueSimple
  rw [debugAssert_of hindex, ok_bind, debugAssert_of harray, ok_bind, debugAssert_of hstruct,
    ok_bind, debugAssert_of hsize, ok_bind, debugAssert_of hcooked, ok_bind, debugAssert_of hraw,
    ok_bind, debugAssert_of hstate, ok_bind]

/-- The sizes, the state and the substate of a simple element carry over to the next one. -/
theorem nextElement_atSimpleElement (hstate : c.state = .value)
    (hsubstate : c.substate = .valueSimpleArrayElement) (hcooked : c.itemSizeCooked = c.elementSize)
    (hraw : c.itemSizeRaw = c.elementSize) :
    c.spend.pastItem.nextElement.atSimpleElement =
      { c.spend.pastItem.nextElement with
        dataPosCooked := c.spend.pastItem.nextElement.dataPosRaw } := by
  simp only [atSimpleElement, withItem, setState, EventHeaderEnumeratorContext.nextElement,
    EventHeaderEnumeratorContext.pastItem, EventHeaderEnumeratorContext.spend, hsubstate, hstate,
    hraw, hcooked]

/-- Assumes: the invariant, at an element of simple type. -/
theorem moveNextSimpleArrayElement_returns (h : Positioned data c) (hitem : SimpleElement data c)
    (hbudget : c.moveNextRemaining ≠ 0) (hsubstate : c.substate = .valueSimpleArrayElement) :
    Returns (moveNextSimpleArrayElement build data c.spend) (MoveStep build data c) := by
  have hraw := hitem.raw_le
  have hpos := h.dataPosRaw_le
  have hlt := hitem.index_lt
  unfold moveNextSimpleArrayElement
  rw [debugAssert_of (by exact hitem.state_eq), ok_bind,
    debugAssert_of (by exact hitem.notStruct), ok_bind,
    debugAssert_of (by exact hitem.array), ok_bind, debugAssert_of (by exact hlt), ok_bind,
    debugAssert_of (by exact hitem.elementSize_ne), ok_bind,
    debugAssert_of (by exact ⟨hpos, by simp only [EventHeaderEnumeratorContext.spend]; omega⟩), ok_bind]
  refine Returns.ite (fun hdone ↦ ?_) (fun hmore ↦ ?_)
  · exact Returns.ok (.elementsDone hbudget (Or.inl hsubstate) hdone)
  · have hlt' : c.stackTop.arrayIndex + 1 < c.stackTop.arrayCount := by
      have hne : c.stackTop.arrayCount ≠ c.stackTop.arrayIndex + 1 := hmore
      omega
    rw [startValueSimple_eq (by exact hlt') (by exact hitem.array) (by exact hitem.notStruct)
      (by exact hitem.elementSize_ne) (by exact hitem.cooked_eq) (by exact hitem.raw_eq)
      (by exact hitem.state_eq), ok_bind]
    have hstep : MoveStep build data c _ := .simpleNext hbudget hsubstate hmore
    rw [nextElement_atSimpleElement hitem.state_eq hsubstate hitem.cooked_eq hitem.raw_eq] at hstep
    exact Returns.ok hstep

/-- Assumes: the invariant, at an element of complex type. -/
theorem moveNextComplexArrayElement_returns (h : Positioned data c)
    (hitem : ComplexElement data c) (hbudget : c.moveNextRemaining ≠ 0)
    (hsubstate : c.substate = .valueComplexArrayElement) :
    Returns (moveNextComplexArrayElement build data c.spend) (MoveStep build data c) := by
  have hraw := hitem.raw_le
  have hpos := h.dataPosRaw_le
  unfold moveNextComplexArrayElement
  rw [debugAssert_of (by exact hitem.state_eq), ok_bind,
    debugAssert_of (by exact hitem.notStruct), ok_bind,
    debugAssert_of (by exact hitem.array), ok_bind, debugAssert_of (by exact hitem.index_lt),
    ok_bind, debugAssert_of (by exact hitem.elementSize_eq), ok_bind,
    debugAssert_of (by exact ⟨hpos, by simp only [EventHeaderEnumeratorContext.spend]; omega⟩),
    ok_bind]
  refine Returns.ite (fun hdone ↦ ?_) (fun hmore ↦ ?_)
  · exact Returns.ok (.elementsDone hbudget (Or.inr hsubstate) hdone)
  · refine (startValue_returns (c := c.spend.pastItem.nextElement) h.length_ge hraw hitem.state_eq
      (hitem.encoding_byte h.metaEnd_le) hitem.notStruct).mono fun result hresult ↦ ?_
    exact .complexNext hbudget hsubstate hmore hresult

/-- A simple element is not a struct. -/
theorem ArrayBeginItem.notStruct (h : ArrayBeginItem data c) (hsize : c.elementSize ≠ 0) :
    FieldEncoding.withoutFlags c.fieldType.encoding ≠ FieldEncoding.struct := by
  intro hstruct
  have helement := h.elementSize_eq
  rw [hstruct, arrayElementSize_struct] at helement
  exact hsize (Except.ok.inj helement).symm

/-- Assumes: the invariant, at the begin of an array. -/
theorem moveNextArrayBegin_returns (h : Positioned data c) (hitem : ArrayBeginItem data c)
    (hbudget : c.moveNextRemaining ≠ 0) (hsubstate : c.substate = .arrayBegin) :
    Returns (moveNextArrayBegin build data c.spend) (MoveStep build data c) := by
  unfold moveNextArrayBegin
  rw [debugAssert_of (by exact hitem.state_eq), ok_bind,
    debugAssert_of (by exact hitem.array), ok_bind, debugAssert_of (by exact hitem.index_eq),
    ok_bind]
  refine Returns.ite (fun hcount ↦ ?_) (fun hcount ↦ Returns.ite (fun hsize ↦ ?_) (fun hsize ↦
    Returns.ite (fun hstruct ↦ ?_) (fun hstruct ↦ ?_)))
  · exact Returns.ok (.arrayEmpty hbudget hsubstate hcount)
  · have hnotStruct := hitem.notStruct hsize
    have hlt : c.stackTop.arrayIndex < c.stackTop.arrayCount := by
      have hne : c.stackTop.arrayCount ≠ 0 := hcount
      rw [hitem.index_eq]
      omega
    rw [debugAssert_of (by exact hnotStruct), ok_bind]
    dsimp only
    rw [startValueSimple_eq (by exact hlt) (by exact hitem.array) (by exact hnotStruct)
      (by exact hsize) rfl rfl rfl, ok_bind]
    exact Returns.ok (.simpleFirst hbudget hsubstate hcount hsize)
  · refine (startValue_returns (c := c.spend.setState .value .valueComplexArrayElement)
      h.length_ge h.dataPosRaw_le rfl (hitem.encoding_byte h.metaEnd_le) hstruct).mono
      fun result hresult ↦ ?_
    exact .complexFirst hbudget hsubstate hcount (not_not.mp hsize) hstruct hresult
  · have hstruct' : FieldEncoding.withoutFlags c.fieldType.encoding = FieldEncoding.struct :=
      not_not.mp hstruct
    unfold startStruct
    rw [debugAssert_of (by exact hstruct'), ok_bind]
    exact Returns.ok (.structFirst hbudget hsubstate hcount hstruct')

/-- Assumes: the invariant, at the end of an array. -/
theorem moveNextArrayEnd_returns (h : Positioned data c) (hitem : ArrayEndItem data c)
    (hbudget : c.moveNextRemaining ≠ 0) (hsubstate : c.substate = .arrayEnd) :
    ReturnsUnless (CounterOverflow build) (moveNextArrayEnd build data c.spend) (MoveStep build data c) := by
  unfold moveNextArrayEnd
  rw [debugAssert_of (by exact hitem.state_eq), ok_bind,
    debugAssert_of (by exact hitem.array), ok_bind, debugAssert_of (by exact hitem.count_eq),
    ok_bind]
  refine ReturnsUnless.ite (fun hskip ↦ ?_) (fun hnoSkip ↦ ?_)
  · obtain ⟨hstruct, hcount⟩ := hskip
    rcases skipStructMetadata_returns build h.spend hstruct with
      ⟨fault, hfault, hoverflow⟩ | ⟨result, hresult, hskipped⟩
    · rw [hfault, error_bind]
      exact .of_fault hoverflow
    rw [hresult, ok_bind]
    rcases hskipped with ⟨nameOffset, nameLen, nextOffset, hge, hle, rfl⟩ | ⟨c', hfailed, rfl⟩
    · have hge' := h.nextOffset_ge
      refine .of_returns ((nextProperty_returns build (h.spend.withCursor (hge'.trans hge) hle)).mono
        fun result hstep ↦ ?_)
      exact .skip hbudget hsubstate hstruct hcount hge hle hresult hstep
    · exact .of_returns (Returns.ok (.skipFailed hbudget hsubstate hfailed))
  · exact .of_returns ((nextProperty_returns build h.spend).mono fun result hstep ↦
      .arrayEnd hbudget hsubstate hnoSkip hstep)

/-- Assumes: the invariant, at the begin of a struct. -/
theorem moveNextStructBegin_returns (h : Positioned data c) (hstate : c.state = .structBegin)
    (hitem : StructItem data c) (hbudget : c.moveNextRemaining ≠ 0)
    (hsubstate : c.substate = .structBegin) :
    Returns (moveNextStructBegin build data c.spend) (MoveStep build data c) := by
  have hle : c.stackIndex ≤ 8 := h.stackIndex_le
  unfold moveNextStructBegin
  rw [debugAssert_of (by exact hstate), ok_bind]
  refine Returns.ite (fun hfull ↦ ?_) (fun hroom ↦ ?_)
  · have hfull' : 8 ≤ c.stackIndex := hfull
    exact Returns.ok (.stackOverflow hbudget hsubstate (by omega))
  · have hroom' : c.stackIndex < 8 := not_le.mp hroom
    rw [dif_pos (by exact hroom')]
    refine (nextProperty_returns build (c := c.spend.pushed hroom')
      (h.spend.pushed { hitem with } hroom')).mono fun result hstep ↦ ?_
    exact .push hbudget hsubstate hroom' hstep

/-- Assumes: the invariant, at the end of a struct. -/
theorem moveNextStructEnd_returns (h : Positioned data c) (hstate : c.state = .structEnd)
    (hitem : StructItem data c) (hbudget : c.moveNextRemaining ≠ 0)
    (hsubstate : c.substate = .structEnd) :
    Returns (moveNextStructEnd build data c.spend) (MoveStep build data c) := by
  have hlt := hitem.index_lt
  unfold moveNextStructEnd
  rw [debugAssert_of (by exact hstate), ok_bind, debugAssert_of (by exact hitem.isStruct), ok_bind,
    debugAssert_of (by exact hitem.raw_eq), ok_bind]
  refine Returns.ite (fun hmore ↦ ?_) (fun hdone ↦ Returns.ite (fun harray ↦ ?_)
    (fun hscalar ↦ ?_))
  · have hmore' : c.stackTop.arrayCount ≠ c.stackTop.arrayIndex + 1 := hmore
    have hlt' : c.stackTop.arrayIndex + 1 < c.stackTop.arrayCount := by omega
    have harray : FieldEncoding.isArray c.fieldType.encoding = true := by
      by_contra hscalar
      have hone := hitem.count_eq (by simpa using hscalar)
      omega
    unfold startStruct
    rw [debugAssert_of (by exact harray), ok_bind, debugAssert_of (by exact hlt'), ok_bind,
      debugAssert_of (by exact hitem.isStruct), ok_bind]
    exact Returns.ok (.structNext hbudget hsubstate hmore')
  · exact Returns.ok (.structsDone hbudget hsubstate (not_not.mp hdone) harray)
  · refine (nextProperty_returns build (c := c.spend.nextElement) h.spend.nextElement).mono
      fun result hstep ↦ ?_
    exact .structEnd hbudget hsubstate (not_not.mp hdone) (Bool.not_eq_true _ ▸ hscalar) hstep

/-- Assumes: the invariant, with budget left, in a state that allows a move and is not one of
metadata enumeration. -/
theorem moveNextSubstate_returns (hpos : Positioned data c) (hitem : ItemInv data c)
    (hmove : c.state.canMoveNext = true) (hvalue : c.substate ≠ .valueMetadata)
    (hbudget : c.moveNextRemaining ≠ 0) :
    ReturnsUnless (CounterOverflow build) (moveNextSubstate build data c.spend) (MoveStep build data c) := by
  have hspend : c.spend.substate = c.substate := rfl
  unfold moveNextSubstate
  rw [hspend]
  unfold ItemInv at hitem
  cases hsubstate : c.substate with
  | error =>
    simp only [hsubstate] at hitem
    rw [hitem] at hmove
    cases hmove
  | afterLastItem =>
    simp only [hsubstate] at hitem
    rw [hitem] at hmove
    cases hmove
  | beforeFirstItem =>
    simp only [hsubstate] at hitem
    dsimp only
    rw [debugAssert_of (by exact hitem), ok_bind]
    exact .of_returns ((nextProperty_returns build hpos.spend).mono fun result hstep ↦
      .first hbudget hsubstate hstep)
  | valueMetadata => exact absurd hsubstate hvalue
  | valueScalar =>
    simp only [hsubstate] at hitem
    exact .of_returns (moveNextValueScalar_returns hpos hitem hbudget hsubstate)
  | valueSimpleArrayElement =>
    simp only [hsubstate] at hitem
    exact .of_returns (moveNextSimpleArrayElement_returns hpos hitem hbudget hsubstate)
  | valueComplexArrayElement =>
    simp only [hsubstate] at hitem
    exact .of_returns (moveNextComplexArrayElement_returns hpos hitem hbudget hsubstate)
  | arrayBegin =>
    simp only [hsubstate] at hitem
    exact .of_returns (moveNextArrayBegin_returns hpos hitem hbudget hsubstate)
  | arrayEnd =>
    simp only [hsubstate] at hitem
    exact moveNextArrayEnd_returns hpos hitem hbudget hsubstate
  | structBegin =>
    simp only [hsubstate] at hitem
    exact .of_returns (moveNextStructBegin_returns hpos hitem.1 hitem.2 hbudget hsubstate)
  | structEnd =>
    simp only [hsubstate] at hitem
    exact .of_returns (moveNextStructEnd_returns hpos hitem.1 hitem.2 hbudget hsubstate)

/-- Assumes: the invariant, in a state that allows a move and is not one of metadata enumeration.
`move_next` returns one of the cases of `MoveStep`, unless the field counter of
`skip_struct_metadata` overflows. -/
theorem moveNextImpl_returns (h : EnumeratorInv data c) (hmove : c.state.canMoveNext = true)
    (hvalue : c.substate ≠ .valueMetadata) :
    ReturnsUnless (CounterOverflow build) (moveNextImpl build data c) (MoveStep build data c) := by
  unfold moveNextImpl
  rw [debugAssert_of hmove, ok_bind]
  refine ReturnsUnless.ite (fun hbudget ↦ ?_) (fun hbudget ↦ ?_)
  · exact .of_returns (Returns.ok (.exhausted hbudget))
  · exact moveNextSubstate_returns h.positioned h.item hmove hvalue hbudget

end EventHeaderEnumeratorContext

end Tracepoints
