import Tracepoints.Enumerator.Steps

/-!
# The enumerator stays inside the event

Every operation keeps the invariant `EnumeratorInv`: a step lemma for each kind of transition, and
from them a run lemma over `EnumeratorReaches`. An accepted event starts with the invariant
(`enumerateWithNameAndData_inv`), so on whatever bytes the event holds no subtraction underflows
and no index is out of range, in the moves and in what the enumerator shows of the current item.
-/

set_option autoImplicit false
set_option relaxedAutoImplicit false

namespace Tracepoints

open Exec

namespace EventHeaderEnumeratorContext

variable {build : Build} {data : List UInt8} {c c' : EventHeaderEnumeratorContext}
  {result : Bool × EventHeaderEnumeratorContext}

/-! ### Steps -/

/-- What every value move leaves behind: the invariant, the event, and a state that shows an item
exactly when the move says so. -/
structure Moved (data : List UInt8) (c : EventHeaderEnumeratorContext)
    (result : Bool × EventHeaderEnumeratorContext) : Prop where
  inv : EnumeratorInv data result.2
  frame_eq : result.2.frame = c.frame
  shows : result.2.state.canItemInfo = result.1
  stops : result.2.state.canMoveNext = result.1
  value : result.2.substate ≠ .valueMetadata

/-- A field definition names the field it decodes to. -/
theorem namedField_atField (h : Positioned data c) {field : FieldDef} (count nextOffset : ℕ)
    (hfield : c.nextField data = some field) (hknown : field.fieldType.encoding ≠ readFieldError) :
    NamedField data (c.atField field count nextOffset) := by
  obtain ⟨hlt, _, _, htype⟩ := fieldAt_bounds hfield
  refine ⟨h.nextOffset_ge, hlt, ?_, hknown⟩
  show field.fieldType = (typeAt c.byteReader data c.metaEnd
    (c.stackTop.nextOffset + field.nameLen + 1)).1
  rw [htype]

theorem Failed.moved (h : Positioned data c) (hfailed : Failed data c c') :
    Moved data c (false, c') := by
  refine ⟨⟨hfailed.positioned h, ?_⟩, hfailed.frame_eq, ?_, ?_, ?_⟩
  · unfold ItemInv
    simp only [hfailed.substate_eq, hfailed.state_eq]
  · simp only [hfailed.state_eq]
    rfl
  · simp only [hfailed.state_eq]
    rfl
  · simp only [hfailed.substate_eq]
    decide

/-- The begin of an array whose elements fit, at a named field, is one of the invariant. -/
theorem moved_atArrayBegin (h : Positioned data c) (hnamed : NamedField data c)
    {field : FieldDef} (hdefinition : AtDefinition data c field) {size : ℕ}
    (harray : FieldEncoding.isArray c.fieldType.encoding = true)
    (hindex : c.stackTop.arrayIndex = 0)
    (hsize : arrayElementSize (FieldEncoding.withoutFlags c.fieldType.encoding) = .ok size)
    (hfits : c.dataPosRaw + c.stackTop.arrayCount * size ≤ data.length) :
    Moved data c (true, c.atArrayBegin size) := by
  refine ⟨⟨h.of_frame rfl rfl rfl h.nextOffset_ge h.nextOffset_le h.dataPosRaw_le, ?_⟩, rfl, rfl,
    rfl, by simp [atArrayBegin, setState]⟩
  show ArrayBeginItem data (c.atArrayBegin size)
  exact
    { hnamed with
      definition := ⟨field, { hdefinition with }⟩
      state_eq := rfl
      array := harray
      index_eq := hindex
      elementSize_eq := hsize
      raw_eq := rfl
      cooked_eq := rfl
      pos_eq := rfl
      array_le := hfits }

/-- The begin of a struct is one of the invariant. -/
theorem moved_atStructBegin (h : Positioned data c) (hnamed : NamedField data c)
    (hstruct : FieldEncoding.withoutFlags c.fieldType.encoding = FieldEncoding.struct)
    (hlt : c.stackTop.arrayIndex < c.stackTop.arrayCount)
    (hcount : FieldEncoding.isArray c.fieldType.encoding = false → c.stackTop.arrayCount = 1) :
    Moved data c (true, c.atStructBegin) := by
  refine ⟨⟨h.of_frame rfl rfl rfl h.nextOffset_ge h.nextOffset_le h.dataPosRaw_le, rfl, ?_⟩, rfl,
    rfl, rfl, by simp [atStructBegin, setState]⟩
  exact
    { hnamed with
      raw_eq := rfl
      cooked_eq := rfl
      pos_eq := rfl
      isStruct := hstruct
      index_lt := hlt
      count_eq := hcount }

/-- The end of an array is one of the invariant. -/
theorem moved_atArrayEnd (h : Positioned data c) (hnamed : NamedField data c)
    (harray : FieldEncoding.isArray c.fieldType.encoding = true)
    (hcount : c.stackTop.arrayCount = c.stackTop.arrayIndex) :
    Moved data c (true, c.atArrayEnd) := by
  refine ⟨⟨h.of_frame rfl rfl rfl h.nextOffset_ge h.nextOffset_le h.dataPosRaw_le, ?_⟩, rfl, rfl,
    rfl, by simp [atArrayEnd, setEndState]⟩
  show ArrayEndItem data c.atArrayEnd
  exact
    { hnamed with
      raw_eq := rfl
      cooked_eq := rfl
      pos_eq := rfl
      state_eq := rfl
      array := harray
      count_eq := hcount }

/-- The context at the next field is positioned, with its metadata cursor in range. -/
theorem Positioned.atField (h : Positioned data c) {field : FieldDef} {count nextOffset : ℕ}
    (hge : c.metaStart ≤ nextOffset) (hle : nextOffset ≤ c.metaEnd) :
    Positioned data (c.atField field count nextOffset) :=
  h.of_frame rfl rfl rfl hge hle h.dataPosRaw_le

theorem FieldStarted.moved (h : Positioned data c) (hstarted : FieldStarted data c result) :
    Moved data c result := by
  have hnext := h.nextOffset_ge
  cases hstarted with
  | @value field pos size cooked raw hfield hknown hscalar hvalue hcooked hraw =>
    obtain ⟨_, hgt, hle, _⟩ := fieldAt_bounds hfield
    have hnamed := namedField_atField h 1 field.typeEnd hfield hknown
    refine ⟨⟨h.of_frame rfl rfl rfl (by dsimp only [withItem, setState, EventHeaderEnumeratorContext.atField]; omega) hle h.dataPosRaw_le, ?_⟩, rfl, rfl,
      rfl, by simp [withItem, setState]⟩
    show ScalarItem data _
    exact
      { hnamed with
        raw_le := hraw
        cooked_le := hcooked
        state_eq := rfl
        scalar := hscalar
        notStruct := hvalue }
  | @struct field hfield hstruct hformat =>
    obtain ⟨_, hgt, hle, _⟩ := fieldAt_bounds hfield
    have hknown : field.fieldType.encoding ≠ readFieldError := by
      rw [hstruct]
      decide
    have hmoved := moved_atStructBegin (h.atField (by omega) hle)
      (namedField_atField h 1 field.typeEnd hfield hknown)
      (by show FieldEncoding.withoutFlags field.fieldType.encoding = _; rw [hstruct]; decide)
      Nat.zero_lt_one fun _ ↦ rfl
    exact { hmoved with }
  | @variableArray field count size hfield hknown harray hsize hfits =>
    obtain ⟨_, hgt, hle, _⟩ := fieldAt_bounds hfield
    have hnamed := namedField_atField h count field.typeEnd hfield hknown
    have hend := definitionEnd_of_variable harray
    have hdefinition : field.definitionEnd ≤ c.metaEnd := hend.trans_le hle
    have hmoved := moved_atArrayBegin
      (c := { c.atField field count field.typeEnd with dataPosRaw := c.dataPosRaw + 2 })
      (h.of_frame rfl rfl rfl (by dsimp only [EventHeaderEnumeratorContext.atField]; omega) hle
        (by dsimp only; omega)) { hnamed with }
      ⟨definitionAt_eq_some.mpr ⟨hfield, hknown, hdefinition⟩, rfl, rfl, hend.symm⟩
      (by rw [FieldEncoding.isArray_eq, Bool.or_eq_true]; exact Or.inr harray) rfl hsize hfits
    exact { hmoved with }
  | @constantArray field count size hfield hknown hvariable harray hmeta hcount hsize hfits =>
    obtain ⟨_, hgt, hle, _⟩ := fieldAt_bounds hfield
    have hend := definitionEnd_of_constant hvariable harray
    have hdefinition : field.definitionEnd ≤ c.metaEnd := hend.trans_le hmeta
    have hmoved := moved_atArrayBegin (h.atField (by omega) hmeta)
      (namedField_atField h count (field.typeEnd + 2) hfield hknown)
      ⟨definitionAt_eq_some.mpr ⟨hfield, hknown, hdefinition⟩, rfl, rfl, hend.symm⟩
      (by rw [FieldEncoding.isArray_eq, Bool.or_eq_true]; exact Or.inl harray) rfl hsize hfits
    exact { hmoved with }
  | failed hfailed => exact hfailed.moved h

/-- A popped struct is one of the invariant. -/
theorem moved_popped (h : Positioned data c) {index : ℕ} (hindex8 : index < 8)
    (hindex : c.stackIndex = index + 1) :
    Moved data c (true, c.popped data index c.stack[index]) := by
  have hentry := h.entries index hindex8 (by omega)
  have hname := hentry.name_ge
  have hge := h.nextOffset_ge
  have hle := h.nextOffset_le
  have hstack := h.stackIndex_le
  obtain ⟨hgt, htype_le⟩ := typeAt_bounds c.byteReader data hentry.type_lt
  have hcursor : c.metaStart ≤ (c.popped data index c.stack[index]).stackTop.nextOffset ∧
      (c.popped data index c.stack[index]).stackTop.nextOffset ≤ c.metaEnd := by
    unfold popped
    dsimp only [setEndState]
    split_ifs
    · exact ⟨hge, hle⟩
    · exact ⟨by omega, htype_le⟩
  refine ⟨⟨?_, rfl, ?_⟩, rfl, rfl, rfl, by simp [popped, setEndState]⟩
  · refine ⟨h.length_ge, h.length_lt, h.eventName_lt, h.metaEnd_le, h.metaSize_le, h.activityId_le,
      h.dataStart_le, hcursor.1, hcursor.2, h.dataPosRaw_le, ?_, ?_⟩
    · show index ≤ structNestLimit
      omega
    · intro other hother8 hother
      have hlt : other < index := hother
      exact { h.entries other hother8 (by omega) with }
  · exact
      { name_ge := hname
        type_lt := hentry.type_lt
        fieldType_eq := rfl
        known := hentry.known
        raw_eq := rfl
        cooked_eq := rfl
        pos_eq := rfl
        isStruct := hentry.isStruct
        index_lt := hentry.index_lt
        count_eq := hentry.count_eq }

/-- An error at the current position, whatever its code. -/
theorem moved_setErrorState (h : Positioned data c) (error : EventHeaderEnumeratorError) :
    Moved data c (c.setErrorState error) :=
  ⟨⟨h.of_frame rfl rfl rfl h.nextOffset_ge h.nextOffset_le h.dataPosRaw_le, rfl⟩, rfl, rfl, rfl,
    by simp [setErrorState]⟩

theorem PropertyStep.moved (h : Positioned data c) (hstep : PropertyStep data c result) :
    Moved data c result := by
  cases hstep with
  | field _ _ hfield => exact hfield.moved h
  | pop _ hindex8 hindex => exact moved_popped h hindex8 hindex
  | trailing => exact moved_setErrorState h _
  | finished =>
    exact ⟨⟨h.of_frame rfl rfl rfl h.nextOffset_ge h.nextOffset_le h.dataPosRaw_le, rfl⟩, rfl, rfl,
      rfl, by simp [setEndState]⟩

/-- The begin of the next value of an array of complex elements. -/
theorem ValueStarted.moved (h : Positioned data c) (hnamed : NamedField data c)
    (hstate : c.state = .value) (hsubstate : c.substate = .valueComplexArrayElement)
    (harray : FieldEncoding.isArray c.fieldType.encoding = true)
    (hstruct : FieldEncoding.withoutFlags c.fieldType.encoding ≠ FieldEncoding.struct)
    (hlt : c.stackTop.arrayIndex < c.stackTop.arrayCount)
    (hcomplex : arrayElementSize (FieldEncoding.withoutFlags c.fieldType.encoding) = .ok 0)
    (hstarted : ValueStarted data c result) : Moved data c result := by
  rcases hstarted with ⟨pos, size, cooked, raw, hcooked, hraw, hsize, rfl⟩ | ⟨pos, size, rfl⟩
  · have hsubstate' : (c.withItem pos size cooked raw).substate = .valueComplexArrayElement :=
      hsubstate
    have hstate' : (c.withItem pos size cooked raw).state = .value := hstate
    refine ⟨⟨h.of_frame rfl rfl rfl h.nextOffset_ge h.nextOffset_le h.dataPosRaw_le, ?_⟩, rfl, ?_,
      ?_, ?_⟩
    · unfold ItemInv
      simp only [hsubstate']
      exact
        { hnamed with
          raw_le := hraw
          cooked_le := hcooked
          state_eq := hstate
          array := harray
          notStruct := hstruct
          index_lt := hlt
          elementSize_eq := hsize hcomplex
          complex := hcomplex }
    · simp only [hstate']
      rfl
    · simp only [hstate']
      rfl
    · simp only [hsubstate']
      decide
  · have hpositioned : Positioned data (c.withItem pos size 0 0) :=
      h.of_frame rfl rfl rfl h.nextOffset_ge h.nextOffset_le h.dataPosRaw_le
    exact { moved_setErrorState hpositioned .invalidData with }

/-- The begin of an element of simple type; the elements from it on lie inside the event. -/
theorem moved_atSimpleElement (h : Positioned data c) (hnamed : NamedField data c)
    (harray : FieldEncoding.isArray c.fieldType.encoding = true)
    (hstruct : FieldEncoding.withoutFlags c.fieldType.encoding ≠ FieldEncoding.struct)
    (hlt : c.stackTop.arrayIndex < c.stackTop.arrayCount) (hsize : c.elementSize ≠ 0)
    (hrest : c.dataPosRaw + (c.stackTop.arrayCount - c.stackTop.arrayIndex) * c.elementSize ≤
      data.length) :
    Moved data c (true, c.atSimpleElement) := by
  refine ⟨⟨h.of_frame rfl rfl rfl h.nextOffset_ge h.nextOffset_le h.dataPosRaw_le, ?_⟩, rfl, rfl,
    rfl, by simp [atSimpleElement, setState]⟩
  show SimpleElement data c.atSimpleElement
  exact
    { hnamed with
      state_eq := rfl
      array := harray
      notStruct := hstruct
      index_lt := hlt
      elementSize_ne := hsize
      raw_eq := rfl
      cooked_eq := rfl
      pos_eq := rfl
      rest_le := hrest }

theorem Moved.of_frame (h : Moved data c result) (hframe : c.frame = c'.frame) :
    Moved data c' result :=
  { h with frame_eq := h.frame_eq.trans hframe }

/-- One `move_next` keeps the invariant. -/
theorem MoveStep.moved (h : EnumeratorInv data c) (hstep : MoveStep build data c result) :
    Moved data c result := by
  obtain ⟨hpos, hitem⟩ := h
  unfold ItemInv at hitem
  cases hstep with
  | exhausted => exact moved_setErrorState hpos _
  | first _ _ hstep => exact (hstep.moved hpos.spend).of_frame rfl
  | scalar _ hsubstate hstep =>
    simp only [hsubstate] at hitem
    exact (hstep.moved (hpos.spend.pastItem hitem.raw_le)).of_frame rfl
  | simpleNext _ hsubstate hmore =>
    simp only [hsubstate] at hitem
    have hlt := hitem.index_lt
    have hrest := hitem.rest_le
    have hraw := hitem.raw_eq
    have hmul : (c.stackTop.arrayCount - c.stackTop.arrayIndex) * c.elementSize =
        c.elementSize +
          (c.stackTop.arrayCount - (c.stackTop.arrayIndex + 1)) * c.elementSize := by
      rw [show c.stackTop.arrayCount - c.stackTop.arrayIndex =
        (c.stackTop.arrayCount - (c.stackTop.arrayIndex + 1)) + 1 by omega, Nat.succ_mul]
      omega
    refine (moved_atSimpleElement (c := c.spend.pastItem.nextElement)
      (hpos.spend.pastItem hitem.raw_le).nextElement { hitem.toNamedField with } hitem.array
      hitem.notStruct ?_ hitem.elementSize_ne ?_).of_frame rfl
    · show c.stackTop.arrayIndex + 1 < c.stackTop.arrayCount
      omega
    · show c.dataPosRaw + c.itemSizeRaw +
        (c.stackTop.arrayCount - (c.stackTop.arrayIndex + 1)) * c.elementSize ≤ data.length
      omega
  | elementsDone _ hsubstate hdone =>
    rcases hsubstate with hsubstate | hsubstate
    · simp only [hsubstate] at hitem
      exact (moved_atArrayEnd (c := c.spend.pastItem.nextElement)
        (hpos.spend.pastItem hitem.raw_le).nextElement { hitem.toNamedField with } hitem.array
        hdone).of_frame rfl
    · simp only [hsubstate] at hitem
      exact (moved_atArrayEnd (c := c.spend.pastItem.nextElement)
        (hpos.spend.pastItem hitem.raw_le).nextElement { hitem.toNamedField with } hitem.array
        hdone).of_frame rfl
  | complexNext _ hsubstate hmore hstarted =>
    simp only [hsubstate] at hitem
    have hlt := hitem.index_lt
    refine (ValueStarted.moved (c := c.spend.pastItem.nextElement)
      (hpos.spend.pastItem hitem.raw_le).nextElement { hitem.toNamedField with } hitem.state_eq
      hsubstate hitem.array hitem.notStruct ?_ hitem.complex hstarted).of_frame rfl
    show c.stackTop.arrayIndex + 1 < c.stackTop.arrayCount
    omega
  | arrayEmpty _ hsubstate hcount =>
    simp only [hsubstate] at hitem
    exact (moved_atArrayEnd (c := c.spend) hpos.spend { hitem.toNamedField with } hitem.array
      (hcount.trans hitem.index_eq.symm)).of_frame rfl
  | simpleFirst _ hsubstate hcount hsize =>
    simp only [hsubstate] at hitem
    have hindex := hitem.index_eq
    have hfits := hitem.array_le
    refine (moved_atSimpleElement (c := c.spend) hpos.spend { hitem.toNamedField with }
      hitem.array (hitem.notStruct hsize) ?_ hsize ?_).of_frame rfl
    · show c.stackTop.arrayIndex < c.stackTop.arrayCount
      omega
    · show c.dataPosRaw + (c.stackTop.arrayCount - c.stackTop.arrayIndex) * c.elementSize ≤
        data.length
      rw [hindex]
      exact hfits
  | complexFirst _ hsubstate hcount hsize hstruct hstarted =>
    simp only [hsubstate] at hitem
    have hindex := hitem.index_eq
    have helement := hitem.elementSize_eq
    rw [hsize] at helement
    refine (ValueStarted.moved (c := c.spend.setState .value .valueComplexArrayElement)
      (hpos.of_frame rfl rfl rfl hpos.nextOffset_ge hpos.nextOffset_le hpos.dataPosRaw_le)
      { hitem.toNamedField with } rfl rfl hitem.array hstruct ?_ helement hstarted).of_frame rfl
    show c.stackTop.arrayIndex < c.stackTop.arrayCount
    omega
  | structFirst _ hsubstate hcount hstruct =>
    simp only [hsubstate] at hitem
    have hindex := hitem.index_eq
    have harray := hitem.array
    refine (moved_atStructBegin (c := c.spend) hpos.spend { hitem.toNamedField with } hstruct ?_
      ?_).of_frame rfl
    · show c.stackTop.arrayIndex < c.stackTop.arrayCount
      omega
    · intro hscalar
      have hscalar' : FieldEncoding.isArray c.fieldType.encoding = false := hscalar
      rw [harray] at hscalar'
      cases hscalar'
  | arrayEnd _ _ _ hstep => exact (hstep.moved hpos.spend).of_frame rfl
  | skip _ _ _ _ hge hle _ hstep =>
    exact (hstep.moved (hpos.spend.withCursor (hpos.nextOffset_ge.trans hge) hle)).of_frame rfl
  | skipFailed _ _ hfailed => exact (hfailed.moved hpos.spend).of_frame rfl
  | stackOverflow => exact (moved_setErrorState hpos.spend _).of_frame rfl
  | push _ hsubstate hroom hstep =>
    simp only [hsubstate] at hitem
    have hpushed : Positioned data (c.spend.pushed hroom) :=
      hpos.spend.pushed { hitem.2 with } hroom
    exact (hstep.moved hpushed).of_frame rfl
  | structNext _ hsubstate hmore =>
    simp only [hsubstate] at hitem
    have hlt := hitem.2.index_lt
    refine (moved_atStructBegin (c := c.spend.nextElement) hpos.spend.nextElement
      { hitem.2.toNamedField with } hitem.2.isStruct ?_ hitem.2.count_eq).of_frame rfl
    show c.stackTop.arrayIndex + 1 < c.stackTop.arrayCount
    omega
  | structsDone _ hsubstate hdone harray =>
    simp only [hsubstate] at hitem
    exact (moved_atArrayEnd (c := c.spend.nextElement) hpos.spend.nextElement
      { hitem.2.toNamedField with } harray hdone).of_frame rfl
  | structEnd _ _ _ _ hstep => exact (hstep.moved hpos.spend.nextElement).of_frame rfl

/-! ### The budget -/

theorem FieldStarted.remaining_eq (hstarted : FieldStarted data c result) :
    result.2.moveNextRemaining = c.moveNextRemaining := by
  cases hstarted with
  | failed hfailed => exact hfailed.remaining_eq
  | _ => rfl

theorem PropertyStep.remaining_eq (hstep : PropertyStep data c result) :
    result.2.moveNextRemaining = c.moveNextRemaining := by
  cases hstep with
  | field _ _ hfield => exact hfield.remaining_eq
  | _ => rfl

theorem ValueStarted.remaining_eq (hstarted : ValueStarted data c result) :
    result.2.moveNextRemaining = c.moveNextRemaining := by
  rcases hstarted with ⟨_, _, _, _, _, _, _, rfl⟩ | ⟨_, _, rfl⟩ <;> rfl

/-- A move that the budget allows costs one. -/
theorem MoveStep.remaining_eq (hbudget : c.moveNextRemaining ≠ 0)
    (hstep : MoveStep build data c result) :
    result.2.moveNextRemaining + 1 = c.moveNextRemaining := by
  have hspend : c.moveNextRemaining - 1 + 1 = c.moveNextRemaining := by omega
  cases hstep with
  | exhausted hzero => exact absurd hzero hbudget
  | first _ _ hstep => exact hstep.remaining_eq ▸ hspend
  | scalar _ _ hstep => exact hstep.remaining_eq ▸ hspend
  | complexNext _ _ _ hstarted => exact hstarted.remaining_eq ▸ hspend
  | complexFirst _ _ _ _ _ hstarted => exact hstarted.remaining_eq ▸ hspend
  | arrayEnd _ _ _ hstep => exact hstep.remaining_eq ▸ hspend
  | skip _ _ _ _ _ _ _ hstep => exact hstep.remaining_eq ▸ hspend
  | skipFailed _ _ hfailed => exact hfailed.remaining_eq ▸ hspend
  | push _ _ _ hstep => exact hstep.remaining_eq ▸ hspend
  | structEnd _ _ _ _ hstep => exact hstep.remaining_eq ▸ hspend
  | _ => exact hspend

/-- A move to an item costs one. -/
theorem MoveStep.remaining_of_moved (hstep : MoveStep build data c result)
    (hmoved : result.1 = true) : result.2.moveNextRemaining + 1 = c.moveNextRemaining := by
  refine hstep.remaining_eq fun hzero ↦ ?_
  cases hstep <;> contradiction

/-! ### The sibling move -/

/-- The context behind an array of simple elements, paid for with one move. -/
def jumped (c : EventHeaderEnumeratorContext) : EventHeaderEnumeratorContext :=
  { c with
    dataPosRaw := c.dataPosRaw + c.stackTop.arrayCount * c.elementSize
    moveNextRemaining := c.moveNextRemaining - 1 }

/-- The state that goes with a substate of value enumeration. -/
def stateOf : SubState → EventHeaderEnumeratorState
  | .error => .error
  | .afterLastItem => .afterLastItem
  | .beforeFirstItem => .beforeFirstItem
  | .valueMetadata | .valueScalar | .valueSimpleArrayElement | .valueComplexArrayElement => .value
  | .arrayBegin => .arrayBegin
  | .arrayEnd => .arrayEnd
  | .structBegin => .structBegin
  | .structEnd => .structEnd

/-- Outside metadata enumeration the substate determines the state. -/
theorem EnumeratorInv.state_eq (h : EnumeratorInv data c) (hvalue : c.substate ≠ .valueMetadata) :
    c.state = stateOf c.substate := by
  have hitem := h.item
  unfold ItemInv at hitem
  cases hsubstate : c.substate with
  | valueMetadata => exact absurd hsubstate hvalue
  | error | afterLastItem | beforeFirstItem =>
    simp only [hsubstate] at hitem
    exact hitem
  | valueScalar | valueSimpleArrayElement | valueComplexArrayElement | arrayBegin | arrayEnd =>
    simp only [hsubstate] at hitem
    exact hitem.state_eq
  | structBegin | structEnd =>
    simp only [hsubstate] at hitem
    exact hitem.1

/-- Outside metadata enumeration the state `ArrayBegin` has one substate. -/
theorem EnumeratorInv.arrayBegin (h : EnumeratorInv data c) (hstate : c.state = .arrayBegin)
    (hvalue : c.substate ≠ .valueMetadata) :
    c.substate = .arrayBegin ∧ ArrayBeginItem data c := by
  have heq := h.state_eq hvalue
  have hitem := h.item
  rw [hstate] at heq
  have hsubstate : c.substate = .arrayBegin := by
    cases hsub : c.substate <;> rw [hsub] at heq <;> trivial
  unfold ItemInv at hitem
  simp only [hsubstate] at hitem
  exact ⟨hsubstate, hitem⟩

/-- Behind an array of simple elements the context is positioned. -/
theorem Positioned.jumped (h : Positioned data c) (hitem : ArrayBeginItem data c) :
    Positioned data c.jumped :=
  h.of_frame rfl rfl rfl h.nextOffset_ge h.nextOffset_le hitem.array_le

theorem jumpArray_returns (h : EnumeratorInv data c) (hvalue : c.substate ≠ .valueMetadata)
    (hjump : CanJumpArray c) :
    Returns (jumpArray build data c) fun result ↦
      PropertyStep data c.jumped result ∧ Moved data c result := by
  obtain ⟨hstate, hcan⟩ := hjump
  obtain ⟨hsize, _⟩ := not_or.mp hcan
  obtain ⟨hsubstate, hitem⟩ := h.arrayBegin hstate hvalue
  have hpos := h.positioned.jumped hitem
  unfold jumpArray
  rw [debugAssert_of hsubstate, ok_bind, debugAssert_of (hitem.notStruct hsize), ok_bind,
    debugAssert_of hitem.array, ok_bind, debugAssert_of hitem.index_eq, ok_bind]
  exact (nextProperty_returns build hpos).mono fun result hstep ↦
    ⟨hstep, (hstep.moved hpos).of_frame rfl⟩

/-- Assumes: the invariant, in a state that allows a move and is not one of metadata enumeration,
and more iterations than budget. -/
theorem moveNextSiblingLoop_returns (fuel : ℕ) (depth : ℤ) (h : EnumeratorInv data c)
    (hmove : c.state.canMoveNext = true) (hvalue : c.substate ≠ .valueMetadata)
    (hfuel : c.moveNextRemaining < fuel) :
    ReturnsUnless (CounterOverflow build) (moveNextSiblingLoop build data fuel depth c) (Moved data c) := by
  induction fuel generalizing depth c with
  | zero => omega
  | succ fuel ih =>
    rw [moveNextSiblingLoop]
    refine ReturnsUnless.ite (fun hjump ↦ ?_) (fun _ ↦ ?_)
    · have hbudget : c.moveNextRemaining ≠ 0 := (not_or.mp hjump.2).2
      refine ReturnsUnless.bind (.of_returns (jumpArray_returns h hvalue hjump)) ?_
      rintro ⟨movedToItem, next⟩ ⟨hstep, hmoved⟩
      refine ReturnsUnless.ite (fun _ ↦ .of_returns (Returns.ok hmoved)) (fun hmore ↦ ?_)
      have htrue : movedToItem = true := by simpa using (not_or.mp hmore).1
      have hremaining : next.moveNextRemaining = c.moveNextRemaining - 1 := hstep.remaining_eq
      refine (ih (c := next) depth hmoved.inv (hmoved.stops.trans htrue) hmoved.value ?_).mono ?_
      · omega
      · exact fun result hresult ↦ hresult.of_frame hmoved.frame_eq
    · refine ReturnsUnless.bind (moveNextImpl_returns h hmove hvalue) ?_
      rintro ⟨movedToItem, next⟩ hstep
      have hmoved := hstep.moved h
      refine ReturnsUnless.ite (fun _ ↦ .of_returns (Returns.ok hmoved)) (fun hmore ↦ ?_)
      have htrue : movedToItem = true := by simpa using (not_or.mp hmore).1
      have hremaining : next.moveNextRemaining + 1 = c.moveNextRemaining :=
        hstep.remaining_of_moved htrue
      refine (ih (c := next) (siblingDepth depth c.state) hmoved.inv (hmoved.stops.trans htrue)
        hmoved.value ?_).mono ?_
      · omega
      · exact fun result hresult ↦ hresult.of_frame hmoved.frame_eq

theorem moveNextSiblingImpl_returns (h : EnumeratorInv data c)
    (hmove : c.state.canMoveNext = true) (hvalue : c.substate ≠ .valueMetadata) :
    ReturnsUnless (CounterOverflow build) (moveNextSiblingImpl build data c) (Moved data c) := by
  unfold moveNextSiblingImpl
  rw [debugAssert_of hmove, ok_bind]
  exact moveNextSiblingLoop_returns _ 0 h hmove hvalue (Nat.lt_succ_self _)

/-! ### The metadata move -/

/-- The context that shows a field definition without its data. -/
structure ShowsMetadata (data : List UInt8) (c : EventHeaderEnumeratorContext) : Prop where
  cooked_eq : c.itemSizeCooked = 0
  pos_eq : c.dataPosCooked = data.length

/-- What a metadata move leaves behind: the invariant, the event, and no change of the data
position. -/
structure MovedMetadata (data : List UInt8) (c : EventHeaderEnumeratorContext)
    (result : Bool × EventHeaderEnumeratorContext) : Prop where
  inv : EnumeratorInv data result.2
  frame_eq : result.2.frame = c.frame

/-- Assumes: a positioned context that differs from `c` in the top of the stack and the field
type, with its metadata cursor in range, at a named field. -/
theorem movedMetadata_setState (h : Positioned data c) (hshows : ShowsMetadata data c)
    {top : StackEntry} {fieldType : FieldType} {state : EventHeaderEnumeratorState}
    (hnamed : NamedField data { c with stackTop := top, fieldType := fieldType })
    (hge : c.metaStart ≤ top.nextOffset) (hle : top.nextOffset ≤ c.metaEnd)
    (hstate : state = .value ∨ state = .arrayBegin) :
    MovedMetadata data c
      (true, { c with stackTop := top, fieldType := fieldType }.setState state .valueMetadata) := by
  refine ⟨⟨h.of_frame rfl rfl rfl hge hle h.dataPosRaw_le, ?_⟩, rfl⟩
  show MetadataItem data _
  exact
    { hnamed with
      state_eq := hstate
      cooked_eq := hshows.cooked_eq
      pos_eq := hshows.pos_eq }

theorem movedMetadata_setErrorState (h : Positioned data c) {top : StackEntry}
    {fieldType : FieldType} (hge : c.metaStart ≤ top.nextOffset)
    (hle : top.nextOffset ≤ c.metaEnd) (error : EventHeaderEnumeratorError) :
    MovedMetadata data c ({ c with stackTop := top, fieldType := fieldType }.setErrorState error) :=
  ⟨⟨h.of_frame rfl rfl rfl hge hle h.dataPosRaw_le, rfl⟩, rfl⟩

theorem nextFieldMetadata_returns (h : Positioned data c) (hshows : ShowsMetadata data c) :
    Returns (nextFieldMetadata build data c) (MovedMetadata data c) := by
  have hge := h.nextOffset_ge
  have hle := h.nextOffset_le
  have hmeta := h.metaEnd_le
  have hsize := h.metaSize_le
  unfold nextFieldMetadata
  dsimp only
  rw [readFieldNameAndType_eq build (by exact hle) (by exact hmeta), ok_bind]
  dsimp only
  cases hfield : fieldAt c.byteReader data c.metaEnd c.stackTop.nextOffset with
  | none =>
    dsimp only
    rw [if_pos rfl]
    exact Returns.ok (movedMetadata_setErrorState h (by exact hge) (by exact hle) .invalidData)
  | some field =>
    obtain ⟨htype, htypeEnd, htypeEnd_le, htypeAt⟩ := fieldAt_bounds hfield
    have hnameLen : field.nameLen % 65536 = field.nameLen := Nat.mod_eq_of_lt (by omega)
    have hfieldType : field.fieldType = fieldTypeAt data c
        (c.stackTop.nextOffset + field.nameLen + 1) := by
      unfold fieldTypeAt
      rw [htypeAt]
    have hstart : c.metaStart ≤ field.typeEnd := by omega
    dsimp only
    rw [hnameLen]
    refine Returns.ite (fun _ ↦ ?_) (fun hknown ↦ Returns.ite (fun _ ↦ ?_) (fun _ ↦
      Returns.ite (fun _ ↦ ?_) (fun _ ↦ Returns.ite (fun _ ↦ ?_) (fun _ ↦
        Returns.ite (fun _ ↦ ?_) (fun _ ↦ ?_)))))
    · exact Returns.ok (movedMetadata_setErrorState h hstart htypeEnd_le .invalidData)
    · exact Returns.ok (movedMetadata_setErrorState h hstart htypeEnd_le .invalidData)
    · exact Returns.ok (movedMetadata_setState h hshows ⟨hge, htype, hfieldType, hknown⟩ hstart
        htypeEnd_le (Or.inl rfl))
    · exact Returns.ok (movedMetadata_setState h hshows ⟨hge, htype, hfieldType, hknown⟩ hstart
        htypeEnd_le (Or.inr rfl))
    · rw [sub_of_le htypeEnd_le, ok_bind]
      refine Returns.ite (fun _ ↦ ?_) (fun hroom ↦ ?_)
      · exact Returns.ok (movedMetadata_setErrorState h hstart htypeEnd_le .invalidData)
      · rw [readUInt_of_le (by omega), ok_bind]
        refine Returns.ite (fun _ ↦ ?_) (fun _ ↦ ?_)
        · exact Returns.ok (movedMetadata_setErrorState h (by dsimp only; omega)
            (by dsimp only; omega) .invalidData)
        · exact Returns.ok (movedMetadata_setState h hshows ⟨hge, htype, hfieldType, hknown⟩
            (by dsimp only; omega) (by dsimp only; omega) (Or.inr rfl))
    · exact Returns.ok (movedMetadata_setErrorState h hstart htypeEnd_le .notSupported)

theorem EnumeratorInv.beforeFirstItem (h : EnumeratorInv data c)
    (hstate : c.state = .beforeFirstItem) (hvalue : c.substate ≠ .valueMetadata) :
    c.substate = .beforeFirstItem := by
  have heq := h.state_eq hvalue
  rw [hstate] at heq
  cases hsub : c.substate <;> rw [hsub] at heq <;> trivial

/-- Assumes: the invariant, before the first item or within metadata enumeration. -/
theorem startMetadata_returns (build : Build) (h : EnumeratorInv data c)
    (hstate : c.state = .beforeFirstItem ∨ c.substate = .valueMetadata) :
    Returns (startMetadata build data c) fun c' ↦
      Positioned data c' ∧ ShowsMetadata data c' ∧ c'.frame = c.frame ∧
        (c'.state = .value ∨ c'.state = .arrayBegin) := by
  have hpos := h.positioned
  unfold startMetadata
  refine Returns.ite (fun hvalue ↦ ?_) (fun hmetadata ↦ ?_)
  · have hbefore : c.state = .beforeFirstItem := hstate.resolve_right hvalue
    rw [debugAssert_of hbefore, ok_bind, debugAssert_of (h.beforeFirstItem hbefore hvalue), ok_bind]
    exact Returns.ok
      ⟨hpos.of_frame rfl rfl rfl hpos.nextOffset_ge hpos.nextOffset_le hpos.dataPosRaw_le,
        ⟨rfl, rfl⟩, rfl, Or.inl rfl⟩
  · have hitem := h.item
    unfold ItemInv at hitem
    simp only [not_not.mp hmetadata] at hitem
    exact Returns.ok ⟨hpos, ⟨hitem.cooked_eq, hitem.pos_eq⟩, rfl, hitem.state_eq⟩

/-- Assumes: the invariant, before the first item or within metadata enumeration. -/
theorem moveNextMetadataImpl_returns (h : EnumeratorInv data c)
    (hstate : c.state = .beforeFirstItem ∨ c.substate = .valueMetadata) :
    Returns (moveNextMetadataImpl build data c) (MovedMetadata data c) := by
  unfold moveNextMetadataImpl
  refine Returns.bind (startMetadata_returns build h hstate) ?_
  rintro c' ⟨hpos, hshows, hframe, hstate'⟩
  rw [debugAssert_of hstate', ok_bind]
  refine Returns.ite (fun _ ↦ ?_) (fun _ ↦ ?_)
  · exact (nextFieldMetadata_returns hpos hshows).mono fun result hresult ↦
      ⟨hresult.inv, hresult.frame_eq.trans hframe⟩
  · exact Returns.ok ⟨⟨hpos.of_frame rfl rfl rfl hpos.nextOffset_ge hpos.nextOffset_le
      hpos.dataPosRaw_le, rfl⟩, hframe⟩

/-! ### Runs -/

/-- A reset keeps the invariant. -/
theorem EnumeratorInv.resetImpl (h : EnumeratorInv data c) (limit : ℕ) :
    EnumeratorInv data (c.resetImpl limit) := by
  have hpos := h.positioned
  have hname := hpos.eventName_lt
  refine ⟨?_, rfl⟩
  refine ⟨hpos.length_ge, hpos.length_lt, hpos.eventName_lt, hpos.metaEnd_le, hpos.metaSize_le,
    hpos.activityId_le, hpos.dataStart_le, ?_, ?_, hpos.dataStart_le, Nat.zero_le _, ?_⟩
  · show c.metaStart ≤ c.metaStart + c.eventNameLen + 1
    omega
  · exact hname
  · intro index _ hlt
    exact absurd hlt (Nat.not_lt_zero index)

/-- Every permitted operation keeps the invariant and the event; it returns, unless the field
counter of `skip_struct_metadata` overflows. -/
theorem apply_returns (build : Build) (h : EnumeratorInv data c) {op : EnumeratorOp} (hop : op.Permitted c) :
    ReturnsUnless (CounterOverflow build) (op.apply build data c) fun result ↦
      EnumeratorInv data result.2 ∧ result.2.frame = c.frame := by
  cases op with
  | moveNext =>
    exact (moveNextImpl_returns h hop.1 hop.2).mono fun result hstep ↦
      ⟨(hstep.moved h).inv, (hstep.moved h).frame_eq⟩
  | moveNextSibling =>
    exact (moveNextSiblingImpl_returns h hop.1 hop.2).mono fun result hmoved ↦
      ⟨hmoved.inv, hmoved.frame_eq⟩
  | moveNextMetadata =>
    exact .of_returns ((moveNextMetadataImpl_returns h hop.2).mono fun result hmoved ↦
      ⟨hmoved.inv, hmoved.frame_eq⟩)
  | reset => exact .of_returns (Returns.ok ⟨h.resetImpl _, rfl⟩)
  | resetWithLimit limit => exact .of_returns (Returns.ok ⟨h.resetImpl limit, rfl⟩)

/-- Along every run of permitted operations the invariant holds and the event stays the same. -/
theorem EnumeratorInv.reaches {start : EventHeaderEnumeratorContext}
    (h : EnumeratorInv data start) (hreaches : EnumeratorReaches build data start c) :
    EnumeratorInv data c ∧ c.frame = start.frame := by
  induction hreaches with
  | refl => exact ⟨h, rfl⟩
  | step _ hop happly ih =>
    obtain ⟨hinv, hframe⟩ := (apply_returns build ih.1 hop).of_eq_ok happly
    exact ⟨hinv, hframe.trans ih.2⟩

/-! ### Accepted events -/

theorem findAttributes_returns (name : List UInt8) (pos : ℕ) (h : pos ≤ name.length) :
    Returns (findAttributes name pos) fun _ ↦ True := by
  induction pos with
  | zero => exact Returns.ok trivial
  | succ pos ih =>
    rw [findAttributes, byteAt_of_lt (by omega), ok_bind]
    exact Returns.ite (fun _ ↦ Returns.ok trivial) (fun _ ↦ ih (by omega))

/-- The check of the tracepoint name reads the name only within its bounds. -/
theorem validateTracepointName_returns (name : List UInt8) (level : UInt8) :
    Returns (validateTracepointName name level) fun _ ↦ True := by
  unfold validateTracepointName
  refine Returns.bind (findAttributes_returns name name.length le_rfl) ?_
  rintro (_ | attribPos) _
  · exact Returns.ok trivial
  · refine Returns.ite (fun _ ↦ Returns.ok trivial) (fun hlevel ↦ ?_)
    rw [byteAt_of_lt (by omega), ok_bind]
    refine Returns.ite (fun _ ↦ Returns.ok trivial) (fun _ ↦ Returns.ite (fun _ ↦ Returns.ok trivial)
      (fun _ ↦ Returns.ite (fun _ ↦ Returns.ok trivial) (fun hkeyword ↦ ?_)))
    rw [byteAt_of_lt (by omega), ok_bind]
    exact Returns.ite (fun _ ↦ Returns.ok trivial) (fun _ ↦ Returns.ok trivial)

/-- The extension blocks found so far lie inside the event. -/
structure ExtensionsInRange (data : List UInt8) (c : EventHeaderEnumeratorContext) : Prop where
  meta_le : c.metaStart ≤ c.metaEnd
  metaEnd_le : c.metaEnd ≤ data.length
  metaSize_le : c.metaEnd ≤ c.metaStart + 65535
  activityId_le : c.activityIdStart + c.activityIdLen ≤ data.length

theorem ExtensionsInRange.applyExtension (h : ExtensionsInRange data c) {kind pos size : ℕ}
    (hfits : pos + size ≤ data.length) (hsize : size < 65536)
    (happly : c.applyExtension kind pos size = some c') : ExtensionsInRange data c' := by
  unfold EventHeaderEnumeratorContext.applyExtension at happly
  split_ifs at happly
  · obtain rfl := Option.some.inj happly
    exact ⟨Nat.le_add_right _ _, hfits, by dsimp only; omega, h.activityId_le⟩
  · obtain rfl := Option.some.inj happly
    exact ⟨h.meta_le, h.metaEnd_le, h.metaSize_le, hfits⟩
  · obtain rfl := Option.some.inj happly
    exact h

/-- The loop over the extension blocks ends, and the blocks it accepts lie inside the event. -/
theorem parseExtensions_returns (fuel eventPos : ℕ) (h : ExtensionsInRange data c)
    (hpos : eventPos ≤ data.length) (hfuel : data.length < eventPos + fuel) :
    Returns (parseExtensions data fuel eventPos c) fun result ↦
      ∀ behind, result.1 = some behind → behind ≤ data.length ∧ ExtensionsInRange data result.2 := by
  induction fuel generalizing eventPos c with
  | zero => omega
  | succ fuel ih =>
    rw [parseExtensions, sub_of_le hpos, ok_bind]
    refine Returns.ite (fun _ ↦ Returns.ok (by simp)) (fun hroom ↦ ?_)
    obtain ⟨size, hsize⟩ : ∃ size, readUInt c.byteReader 2 data eventPos = .ok size :=
      ⟨_, readUInt_of_le (by omega)⟩
    have hlt := lt_of_readUInt hsize
    rw [hsize, ok_bind, readUInt_of_le (by omega), ok_bind]
    dsimp only
    rw [sub_of_le (by omega), ok_bind]
    refine Returns.ite (fun _ ↦ Returns.ok (by simp)) (fun hfits ↦ ?_)
    split
    · exact Returns.ok (by simp)
    · rename_i next happly
      have hnext := h.applyExtension (by omega) (by omega) happly
      refine Returns.ite (fun _ ↦ ?_) (fun _ ↦ ?_)
      · exact ih (eventPos + 4 + size) hnext (by omega) (by omega)
      · refine Returns.ok fun behind hbehind ↦ ?_
        obtain rfl : eventPos + 4 + size = behind := by simpa using hbehind
        exact ⟨by omega, hnext⟩

/-- Assumes: extension blocks inside an event of accepted length. -/
theorem startEvent_returns (h : ExtensionsInRange data c) {eventPos limit : ℕ}
    (hlength : 8 ≤ data.length) (hlength_lt : data.length < 0x80000000)
    (hpos : eventPos ≤ data.length) :
    Returns (startEvent data c eventPos limit) fun result ↦
      result.1 = .ok () → EnumeratorInv data result.2 ∧ result.2.state = .beforeFirstItem := by
  have hmeta := h.meta_le
  have hsize := h.metaSize_le
  unfold startEvent
  refine Returns.ite (fun _ ↦ Returns.ok (by simp)) (fun _ ↦ ?_)
  rw [findNul_eq hmeta h.metaEnd_le, ok_bind]
  refine Returns.ite (fun _ ↦ Returns.ok (by simp)) (fun hnul ↦ ?_)
  have hge := nulAt_ge data c.metaStart c.metaEnd
  rw [sub_of_le hge, ok_bind]
  refine Returns.ok fun _ ↦ ⟨⟨?_, rfl⟩, rfl⟩
  have hmod : (nulAt data c.metaStart c.metaEnd - c.metaStart) % 65536 =
      nulAt data c.metaStart c.metaEnd - c.metaStart := Nat.mod_eq_of_lt (by omega)
  refine ⟨hlength, hlength_lt, ?_, h.metaEnd_le, h.metaSize_le, h.activityId_le, hpos, ?_, ?_, hpos,
    Nat.zero_le _, fun index _ hlt ↦ absurd hlt (Nat.not_lt_zero index)⟩
  · show c.metaStart + (nulAt data c.metaStart c.metaEnd - c.metaStart) % 65536 < c.metaEnd
    omega
  · show c.metaStart ≤
      c.metaStart + (nulAt data c.metaStart c.metaEnd - c.metaStart) % 65536 + 1
    omega
  · show c.metaStart + (nulAt data c.metaStart c.metaEnd - c.metaStart) % 65536 + 1 ≤ c.metaEnd
    omega

theorem readEventHeader_returns (hlength : 8 ≤ data.length) :
    Returns (readEventHeader data c) fun _ ↦ True := by
  unfold readEventHeader
  rw [byteAt_of_lt (by omega), ok_bind, byteAt_of_lt (by omega), ok_bind,
    readUInt_of_le (by omega), ok_bind, readUInt_of_le (by omega), ok_bind,
    byteAt_of_lt (by omega), ok_bind, byteAt_of_lt (by omega), ok_bind]
  exact Returns.ok trivial

/-- `enumerate_with_name_and_data` returns for every name, event and limit, and an event that it
accepts starts with the invariant, before the first item. -/
theorem enumerateWithNameAndData_returns (name : List UInt8) (limit : ℕ) :
    Returns (enumerateWithNameAndData data c name limit) fun result ↦
      result.1 = .ok () → EnumeratorInv data result.2 ∧ result.2.state = .beforeFirstItem := by
  unfold enumerateWithNameAndData
  refine Returns.ite (fun _ ↦ Returns.ok (by simp)) (fun haccept ↦ ?_)
  obtain ⟨hlength, hrest⟩ := not_or.mp haccept
  obtain ⟨hlength_lt, _⟩ := not_or.mp hrest
  refine Returns.bind (readEventHeader_returns (by omega)) (fun header _ ↦ ?_)
  refine Returns.ite (fun _ ↦ Returns.ok (by simp)) (fun _ ↦ ?_)
  refine Returns.bind (validateTracepointName_returns name _) ?_
  rintro ⟨nameOk, keyword⟩ _
  refine Returns.ite (fun _ ↦ Returns.ok (by simp)) (fun _ ↦ Returns.ite (fun _ ↦ ?_) (fun _ ↦ ?_))
  · refine Returns.bind (parseExtensions_returns data.length 8
      ⟨le_rfl, Nat.zero_le _, Nat.zero_le _, Nat.zero_le _⟩ (by omega) (by omega)) ?_
    rintro ⟨_ | eventPos, next⟩ hresult
    · exact Returns.ok (by simp)
    · obtain ⟨hpos, hext⟩ := hresult eventPos rfl
      exact startEvent_returns hext (by omega) (by omega) hpos
  · exact startEvent_returns ⟨le_rfl, Nat.zero_le _, Nat.zero_le _, Nat.zero_le _⟩ (by omega)
      (by omega) (by omega)

/-! ### What holds in every reached state -/

/-- The bounds on the cursors. -/
structure CursorsInBounds (data : List UInt8) (c : EventHeaderEnumeratorContext) : Prop where
  meta_lt : c.metaStart < c.metaEnd
  metaEnd_le : c.metaEnd ≤ data.length
  nextOffset_ge : c.metaStart ≤ c.stackTop.nextOffset
  nextOffset_le : c.stackTop.nextOffset ≤ c.metaEnd
  dataPosRaw_le : c.dataPosRaw ≤ data.length
  stackIndex_le : c.stackIndex ≤ structNestLimit

/-- The bounds on the current item; its raw size counts in value enumeration only. -/
structure ItemInBounds (data : List UInt8) (c : EventHeaderEnumeratorContext) : Prop where
  raw_le : c.substate ≠ .valueMetadata → c.dataPosRaw + c.itemSizeRaw ≤ data.length
  cooked_le : c.dataPosCooked + c.itemSizeCooked ≤ data.length
  name_lt : c.stackTop.nameOffset + c.stackTop.nameLen < c.metaEnd

theorem Positioned.cursorsInBounds (h : Positioned data c) : CursorsInBounds data c :=
  ⟨by have := h.eventName_lt; omega, h.metaEnd_le, h.nextOffset_ge, h.nextOffset_le,
    h.dataPosRaw_le, h.stackIndex_le⟩

theorem NamedField.name_lt (h : NamedField data c) :
    c.stackTop.nameOffset + c.stackTop.nameLen < c.metaEnd := by
  have hlt := h.type_lt
  omega

theorem EmptyItem.itemInRange (h : EmptyItem c) (hpos : c.dataPosRaw ≤ data.length) :
    ItemInRange data c := by
  refine ⟨?_, ?_⟩
  · rw [h.raw_eq]
    exact hpos
  · rw [h.cooked_eq, h.pos_eq]
    exact hpos

/-- A state that shows an item has one inside the event. -/
theorem EnumeratorInv.itemInBounds (h : EnumeratorInv data c)
    (hshows : c.state.canItemInfo = true) : ItemInBounds data c := by
  have hpos := h.positioned.dataPosRaw_le
  have hitem := h.item
  unfold ItemInv at hitem
  cases hsubstate : c.substate with
  | error | afterLastItem | beforeFirstItem =>
    simp only [hsubstate] at hitem
    rw [hitem] at hshows
    cases hshows
  | valueMetadata =>
    simp only [hsubstate] at hitem
    refine ⟨fun hvalue ↦ absurd hsubstate hvalue, ?_, hitem.name_lt⟩
    rw [hitem.cooked_eq, hitem.pos_eq, Nat.add_zero]
  | valueScalar | valueComplexArrayElement =>
    simp only [hsubstate] at hitem
    exact ⟨fun _ ↦ hitem.raw_le, hitem.cooked_le, hitem.name_lt⟩
  | valueSimpleArrayElement =>
    simp only [hsubstate] at hitem
    have hraw := hitem.raw_le
    refine ⟨fun _ ↦ hraw, ?_, hitem.name_lt⟩
    rw [hitem.pos_eq, hitem.cooked_eq, ← hitem.raw_eq]
    exact hraw
  | arrayBegin =>
    simp only [hsubstate] at hitem
    have hfits := hitem.array_le
    refine ⟨fun _ ↦ ?_, ?_, hitem.name_lt⟩
    · rw [hitem.raw_eq]
      exact hfits
    · rw [hitem.pos_eq, hitem.cooked_eq]
      exact hfits
  | arrayEnd =>
    simp only [hsubstate] at hitem
    have hrange := hitem.toEmptyItem.itemInRange hpos
    exact ⟨fun _ ↦ hrange.raw_le, hrange.cooked_le, hitem.name_lt⟩
  | structBegin | structEnd =>
    simp only [hsubstate] at hitem
    have hrange := hitem.2.toEmptyItem.itemInRange hpos
    exact ⟨fun _ ↦ hrange.raw_le, hrange.cooked_le, hitem.2.name_lt⟩

/-- `PerfItemMetadata::new` faults in its assertions only. -/
theorem itemMetadataImpl_returns (hshows : c.state.canItemInfo = true) :
    ReturnsUnless (fun fault ↦ fault = .assertion ∧ build.debugAssertions = true)
      (itemMetadataImpl build c) fun _ ↦ True := by
  have hassert : ∀ (condition : Prop) [Decidable condition],
      ReturnsUnless (fun fault ↦ fault = .assertion ∧ build.debugAssertions = true)
        (debugAssert build condition) fun _ ↦ True := by
    intro condition _
    unfold debugAssert
    refine ReturnsUnless.ite (fun hfails ↦ .of_fault ⟨rfl, hfails.1⟩) (fun _ ↦ ?_)
    exact .of_returns (Returns.ok trivial)
  unfold itemMetadataImpl PerfItemMetadata.new
  rw [debugAssert_of hshows, ok_bind]
  refine (hassert _).bind fun _ _ ↦ (hassert _).bind fun _ _ ↦ (hassert _).bind fun _ _ ↦
    (hassert _).bind fun _ _ ↦ (hassert _).bind fun _ _ ↦ ?_
  exact .of_returns (Returns.ok trivial)

/-- Where a state shows an item, `item_info` faults in the assertions of `PerfItemMetadata::new`
only, and the name of the item it returns lies inside the event. -/
theorem itemInfo_returns (h : EnumeratorInv data c) (hshows : c.state.canItemInfo = true) :
    ReturnsUnless (fun fault ↦ fault = .assertion ∧ build.debugAssertions = true)
      (itemInfo build data c) fun info ↦ Returns (info.nameBytes data) fun _ ↦ True := by
  have hbounds := h.itemInBounds hshows
  have hmeta := h.positioned.metaEnd_le
  have hname := hbounds.name_lt
  unfold itemInfo itemBytes
  rw [debugAssert_of hshows, ok_bind, slice_of_le (Nat.le_add_right _ _) hbounds.cooked_le, ok_bind]
  refine (itemMetadataImpl_returns hshows).bind fun metadata _ ↦ .of_returns (Returns.ok ?_)
  exact ⟨_, slice_of_le (Nat.le_add_right _ _) (by dsimp only; omega), trivial⟩

/-- Assumes: an event that `enumerate_with_name_and_data` accepts, and a state that permitted
operations reach from there. The cursors and the current item lie inside the event. No operation
that is permitted there underflows, reads out of range, breaks an assertion or runs forever: the
only fault it may end in is the overflow of the byte that counts skipped fields, in a build that
checks for it. `item_info` may fault only in the assertions of `PerfItemMetadata::new`, and what
the enumerator shows of the event, the item's name and the rest of the data lies inside the
event. -/
theorem enumerator_inBounds (build : Build) (context : EventHeaderEnumeratorContext)
    (tracepointName data : List UInt8) (limit : ℕ) (start c : EventHeaderEnumeratorContext)
    (haccept : enumerateWithNameAndData data context tracepointName limit = .ok (.ok (), start))
    (hreaches : EnumeratorReaches build data start c) :
    CursorsInBounds data c ∧ (c.state.canItemInfo = true → ItemInBounds data c) ∧
      (∀ (op : EnumeratorOp) (fault : Fault), op.Permitted c →
        op.apply build data c = .error fault →
          fault = .overflow ∧ build.debugAssertions = true) ∧
      (c.state.canItemInfo = true →
        (∃ bytes, itemBytes data c = .ok bytes) ∧
        (∀ fault, itemInfo build data c = .error fault →
          fault = .assertion ∧ build.debugAssertions = true) ∧
        ∀ info, itemInfo build data c = .ok info → ∃ name, info.nameBytes data = .ok name) ∧
      (∃ name, c.eventInfo.nameBytes data = .ok name) ∧
      ∃ rest, rawDataPosition data c = .ok rest := by
  obtain ⟨hstart, _⟩ :=
    (enumerateWithNameAndData_returns tracepointName limit).of_eq_ok haccept rfl
  obtain ⟨hinv, _⟩ := hstart.reaches hreaches
  have hpos := hinv.positioned
  refine ⟨hpos.cursorsInBounds, hinv.itemInBounds, ?_, ?_, ?_, ?_⟩
  · intro op fault hop hfault
    exact (apply_returns build hinv hop).of_eq_error hfault
  · intro hshows
    refine ⟨⟨_, slice_of_le (Nat.le_add_right _ _) (hinv.itemInBounds hshows).cooked_le⟩, ?_, ?_⟩
    · exact fun fault hfault ↦ (itemInfo_returns hinv hshows).of_eq_error hfault
    · intro info hinfo
      obtain ⟨name, hname, _⟩ := (itemInfo_returns hinv hshows).of_eq_ok hinfo
      exact ⟨name, hname⟩
  · have hname := hpos.eventName_lt
    have hmeta := hpos.metaEnd_le
    exact ⟨_, slice_of_le (Nat.le_add_right _ _) (by dsimp only [eventInfo]; omega)⟩
  · exact ⟨_, slice_of_le hpos.dataPosRaw_le le_rfl⟩

/-- An event `n` with a `u8` field `a`, a string `b` and two bytes behind them, as a little-endian
target writes it. -/
def sampleEvent : List UInt8 :=
  [6, 0, 0, 0, 0, 0, 0, 5] ++ [8, 0, 1, 0] ++ [110, 0, 97, 0, 2, 98, 0, 7] ++ [42, 65, 0] ++ [1, 2]

/-- The name `P_L5K1`. -/
def sampleName : List UInt8 := [80, 95, 76, 53, 75, 49]

/-- The sample event before its first item. -/
def sampleStart : EventHeaderEnumeratorContext :=
  contextOf (enumerateWithNameAndData sampleEvent new sampleName 10)

/-- The sample event behind a number of moves. -/
def sampleMoved : ℕ → EventHeaderEnumeratorContext
  | 0 => sampleStart
  | count + 1 => contextOf (moveNextImpl ⟨true, .little, true⟩ sampleEvent (sampleMoved count))

/-- The sample event is accepted, its two fields are in bounds, and so is what is left behind them. -/
theorem sampleEvent_inBounds :
    enumerateWithNameAndData sampleEvent new sampleName 10 = .ok (.ok (), sampleStart) ∧
      (∀ count, count = 1 ∨ count = 2 →
        EnumeratorReaches ⟨true, .little, true⟩ sampleEvent sampleStart (sampleMoved count) ∧
        CursorsInBounds sampleEvent (sampleMoved count) ∧
        ItemInBounds sampleEvent (sampleMoved count)) ∧
      EnumeratorReaches ⟨true, .little, true⟩ sampleEvent sampleStart (sampleMoved 3) ∧
      CursorsInBounds sampleEvent (sampleMoved 3) ∧
      rawDataPosition sampleEvent (sampleMoved 3) = .ok [1, 2] := by
  have haccept : enumerateWithNameAndData sampleEvent new sampleName 10 =
      .ok (.ok (), sampleStart) := by decide +kernel
  have hmoves : ∀ count < 3, EnumeratorOp.moveNext.Permitted (sampleMoved count) ∧
      moveNextImpl ⟨true, .little, true⟩ sampleEvent (sampleMoved count) =
        .ok (decide (count < 2), sampleMoved (count + 1)) := by decide +kernel
  have hshows : (sampleMoved 1).state.canItemInfo = true ∧
      (sampleMoved 2).state.canItemInfo = true := by decide +kernel
  have hreaches (count : ℕ) (hcount : count ≤ 3) :
      EnumeratorReaches ⟨true, .little, true⟩ sampleEvent sampleStart (sampleMoved count) := by
    induction count with
    | zero => exact .refl
    | succ count ih => exact .step (ih (by omega)) (hmoves count hcount).1 (hmoves count hcount).2
  have hsound (count : ℕ) (hcount : count ≤ 3) := enumerator_inBounds ⟨true, .little, true⟩ new
    sampleName sampleEvent 10 sampleStart (sampleMoved count) haccept (hreaches count hcount)
  refine ⟨haccept, ?_, hreaches 3 le_rfl, (hsound 3 le_rfl).1, by decide +kernel⟩
  rintro count (rfl | rfl)
  · exact ⟨hreaches 1 (by decide), (hsound 1 (by decide)).1, (hsound 1 (by decide)).2.1 hshows.1⟩
  · exact ⟨hreaches 2 (by decide), (hsound 2 (by decide)).1, (hsound 2 (by decide)).2.1 hshows.2⟩

end EventHeaderEnumeratorContext

end Tracepoints
