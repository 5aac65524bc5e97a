import Tracepoints.Enumerator.Fresh
import Tracepoints.Enumerator.SingleSteps
import Tracepoints.Enumerator.StructArray

/-!
# Checks of a field definition

Two kinds of field definition are not allowed: a struct without fields, and the reserved array
encoding, which has both array flags. `next_property`, `move_next_metadata_impl` and
`skip_struct_metadata` each look at a definition on their own, and they do not make the same checks.
`nextProperty_emptyStruct`, `nextFieldMetadata_emptyStruct`, `nextProperty_reserved`,
`nextFieldMetadata_reserved` and `skipStructMetadataLoop_reserved` say exactly what each of them does
with such a definition. In every run in which they are all rejected no item shows one
(`stepReaches_showsAllowed`).
-/

set_option autoImplicit false
set_option relaxedAutoImplicit false

namespace Tracepoints

open Exec

/-- A struct without fields. -/
def FieldType.isEmptyStruct (typ : FieldType) : Bool :=
  FieldEncoding.withoutFlags typ.encoding = FieldEncoding.struct && typ.format = FieldFormat.default

namespace EventHeaderEnumeratorContext

/-- A computation goes to the error state with the given error. -/
def Rejects (error : EventHeaderEnumeratorError)
    (computation : Exec (Bool × EventHeaderEnumeratorContext)) : Prop :=
  ∃ c', computation = .ok (false, c') ∧ c'.state = .error ∧ c'.lastError = error

/-- The field definition that `next_property` decodes. -/
structure Decodes (data : List UInt8) (c : EventHeaderEnumeratorContext) (field : FieldDef) :
    Prop where
  remaining : c.stackTop.remainingFieldCount ≠ 0
  next : c.stackTop.nextOffset ≠ c.metaEnd
  definition : c.nextField data = some field

/-- The number of elements of an array is there, and is not a constant 0. -/
def hasElementCount (data : List UInt8) (c : EventHeaderEnumeratorContext) (field : FieldDef) :
    Bool :=
  if FieldEncoding.isVariableLengthArray field.fieldType.encoding then
    c.dataPosRaw + 2 ≤ data.length
  else
    FieldEncoding.isConstantLengthArray field.fieldType.encoding &&
      field.typeEnd + 2 ≤ c.metaEnd &&
      c.byteReader.ofBytes ((data.drop field.typeEnd).take 2) ≠ 0

variable {build : Build} {data : List UInt8} {c c' call : EventHeaderEnumeratorContext}
  {field : FieldDef}

/-! ### Rejection -/

theorem rejects_setErrorState (error : EventHeaderEnumeratorError)
    (c : EventHeaderEnumeratorContext) : Rejects error (.ok (c.setErrorState error)) :=
  ⟨_, rfl, rfl, rfl⟩

theorem rejects_setErrorState_iff {error other : EventHeaderEnumeratorError}
    {c : EventHeaderEnumeratorContext} :
    Rejects error (.ok (c.setErrorState other)) ↔ other = error := by
  constructor
  · rintro ⟨c', heq, _, herror⟩
    obtain ⟨_, rfl⟩ := Prod.mk.inj (Except.ok.inj heq)
    exact herror
  · rintro rfl
    exact rejects_setErrorState other c

theorem not_rejects_true {error : EventHeaderEnumeratorError} :
    ¬Rejects error (.ok (true, c)) := by
  rintro ⟨c', heq, _⟩
  cases heq

/-! ### What `next_property` does with a definition -/

theorem Decodes.nextProperty_eq (hdecodes : Decodes data c field) :
    nextProperty build data c = decodeField build data c :=
  if_pos ⟨hdecodes.remaining, hdecodes.next⟩

/-- The name of a field fits into the `u16` it is kept in. -/
theorem nameLen_mod (h : Positioned data c) (hfield : c.nextField data = some field) :
    field.nameLen % 65536 = field.nameLen := by
  obtain ⟨_, _, _, _⟩ := fieldAt_bounds hfield
  have hge := h.nextOffset_ge
  have hsize := h.metaSize_le
  exact Nat.mod_eq_of_lt (by omega)

/-- An array of variable length. Assumes: a positioned context. -/
theorem Decodes.nextProperty_variable (hdecodes : Decodes data c field) (h : Positioned data c)
    (hknown : field.fieldType.encoding ≠ readFieldError)
    (hvariable : FieldEncoding.isVariableLengthArray field.fieldType.encoding = true) :
    nextProperty build data c =
      if data.length - c.dataPosRaw < 2 then
        .ok ((c.atField field c.stackTop.arrayCount field.typeEnd).setErrorState .invalidData)
      else
        startArray
          { c.atField field (c.byteReader.ofBytes ((data.drop c.dataPosRaw).take 2))
              field.typeEnd with dataPosRaw := c.dataPosRaw + 2 } data.length := by
  have harray : FieldEncoding.isArray field.fieldType.encoding = true := by
    rw [FieldEncoding.isArray_eq, hvariable, Bool.or_true]
  have hdefinition : fieldAt c.byteReader data c.metaEnd c.stackTop.nextOffset = some field :=
    hdecodes.definition
  rw [hdecodes.nextProperty_eq]
  unfold decodeField
  dsimp only
  rw [readFieldNameAndType_eq build (by exact h.nextOffset_le) (by exact h.metaEnd_le), ok_bind]
  dsimp only
  rw [hdefinition]
  dsimp only
  rw [nameLen_mod h hdecodes.definition, if_neg hknown, if_neg (by rw [harray]; decide),
    if_pos hvariable, sub_of_le h.dataPosRaw_le, ok_bind]
  by_cases hshort : data.length - c.dataPosRaw < 2
  · rw [if_pos hshort, if_pos hshort]
    rfl
  · rw [if_neg hshort, if_neg hshort, readUInt_of_le (by omega), ok_bind]
    rfl

/-- An array of constant length. Assumes: a positioned context. -/
theorem Decodes.nextProperty_constant (hdecodes : Decodes data c field) (h : Positioned data c)
    (hknown : field.fieldType.encoding ≠ readFieldError)
    (hvariable : FieldEncoding.isVariableLengthArray field.fieldType.encoding = false)
    (hconstant : FieldEncoding.isConstantLengthArray field.fieldType.encoding = true) :
    nextProperty build data c =
      if c.metaEnd - field.typeEnd < 2 then
        .ok ((c.atField field c.stackTop.arrayCount field.typeEnd).setErrorState .invalidData)
      else if c.byteReader.ofBytes ((data.drop field.typeEnd).take 2) = 0 then
        .ok ((c.atField field (c.byteReader.ofBytes ((data.drop field.typeEnd).take 2))
          (field.typeEnd + 2)).setErrorState .invalidData)
      else
        startArray (c.atField field (c.byteReader.ofBytes ((data.drop field.typeEnd).take 2))
          (field.typeEnd + 2)) data.length := by
  have harray : FieldEncoding.isArray field.fieldType.encoding = true := by
    rw [FieldEncoding.isArray_eq, hconstant, Bool.true_or]
  have hdefinition : fieldAt c.byteReader data c.metaEnd c.stackTop.nextOffset = some field :=
    hdecodes.definition
  obtain ⟨_, _, htypeEnd_le, _⟩ := fieldAt_bounds hdefinition
  have hmeta := h.metaEnd_le
  rw [hdecodes.nextProperty_eq]
  unfold decodeField
  dsimp only
  rw [readFieldNameAndType_eq build (by exact h.nextOffset_le) (by exact h.metaEnd_le), ok_bind]
  dsimp only
  rw [hdefinition]
  dsimp only
  rw [nameLen_mod h hdecodes.definition, if_neg hknown, if_neg (by rw [harray]; decide),
    if_neg (by rw [hvariable]; decide), if_pos hconstant, sub_of_le htypeEnd_le, ok_bind]
  by_cases hshort : c.metaEnd - field.typeEnd < 2
  · rw [if_pos hshort, if_pos hshort]
    rfl
  · rw [if_neg hshort, if_neg hshort, readUInt_of_le (by omega), ok_bind]
    rfl

/-- A struct that is not an array and has no fields. Assumes: a positioned context. -/
theorem Decodes.nextProperty_scalar (hdecodes : Decodes data c field) (h : Positioned data c)
    (hscalar : FieldEncoding.isArray field.fieldType.encoding = false)
    (hempty : field.fieldType.isEmptyStruct = true) :
    nextProperty build data c =
      .ok ((c.atField field 1 field.typeEnd).setErrorState .invalidData) := by
  have hdefinition : fieldAt c.byteReader data c.metaEnd c.stackTop.nextOffset = some field :=
    hdecodes.definition
  unfold FieldType.isEmptyStruct at hempty
  rw [Bool.and_eq_true, decide_eq_true_eq, decide_eq_true_eq] at hempty
  obtain ⟨hstruct, hformat⟩ := hempty
  rw [withoutFlags_of_fieldAt hdefinition hscalar] at hstruct
  rw [hdecodes.nextProperty_eq]
  unfold decodeField
  dsimp only
  rw [readFieldNameAndType_eq build (by exact h.nextOffset_le) (by exact h.metaEnd_le), ok_bind]
  dsimp only
  rw [hdefinition]
  dsimp only
  rw [nameLen_mod h hdecodes.definition, if_neg (by rw [hstruct]; decide),
    if_pos (by rw [hscalar]; decide), if_neg (not_not.mpr hstruct.symm), if_pos hformat]
  rfl

/-- An array of structs is shown as soon as its element count is read. -/
theorem startArray_struct
    (hstruct : FieldEncoding.withoutFlags c.fieldType.encoding = FieldEncoding.struct) :
    startArray c data.length = .ok (true, c.atArrayBegin 0) := by
  unfold startArray
  dsimp only
  rw [hstruct, arrayElementSize_struct]
  simp only [atArrayBegin, withItem, setState, Nat.mul_zero]

/-- `start_array` rejects an array as not supported where its elements have an unknown encoding. -/
theorem startArray_notSupported (hpos : c.dataPosRaw ≤ data.length) :
    Rejects .notSupported (startArray c data.length) ↔
      arrayElementSize (FieldEncoding.withoutFlags c.fieldType.encoding) =
        .error .notSupported := by
  unfold startArray
  dsimp only
  split
  · rename_i error herror
    rw [rejects_setErrorState_iff, herror, Except.error.injEq]
  · rename_i hsize
    rw [hsize]
    exact iff_of_false not_rejects_true (fun heq ↦ by cases heq)
  · rename_i size _ hsize
    rw [hsize, sub_of_le hpos, ok_bind]
    refine iff_of_false ?_ (fun heq ↦ by cases heq)
    split_ifs
    · rw [rejects_setErrorState_iff]
      decide
    · exact not_rejects_true

/-- `next_property` rejects a struct without fields, except an array of them whose number of elements
is there. Assumes: a positioned context. -/
theorem nextProperty_emptyStruct (h : Positioned data c) (hdecodes : Decodes data c field)
    (hempty : field.fieldType.isEmptyStruct = true) :
    Rejects .invalidData (nextProperty build data c) ↔ hasElementCount data c field = false := by
  have hstruct : FieldEncoding.withoutFlags field.fieldType.encoding = FieldEncoding.struct := by
    unfold FieldType.isEmptyStruct at hempty
    rw [Bool.and_eq_true, decide_eq_true_eq] at hempty
    exact hempty.1
  have hknown : field.fieldType.encoding ≠ readFieldError := by
    intro herror
    rw [herror] at hstruct
    exact absurd hstruct (by decide)
  have hpos := h.dataPosRaw_le
  obtain ⟨_, _, htypeEnd_le, _⟩ := fieldAt_bounds hdecodes.definition
  unfold hasElementCount
  cases hvariable : FieldEncoding.isVariableLengthArray field.fieldType.encoding with
  | true =>
    rw [hdecodes.nextProperty_variable h hknown hvariable, if_pos rfl, decide_eq_false_iff_not]
    by_cases hshort : data.length - c.dataPosRaw < 2
    · rw [if_pos hshort]
      exact iff_of_true (rejects_setErrorState _ _) (by omega)
    · rw [if_neg hshort, startArray_struct (by exact hstruct)]
      exact iff_of_false not_rejects_true (by omega)
  | false =>
    rw [if_neg Bool.false_ne_true]
    cases hconstant : FieldEncoding.isConstantLengthArray field.fieldType.encoding with
    | true =>
      rw [hdecodes.nextProperty_constant h hknown hvariable hconstant, Bool.true_and]
      by_cases hshort : c.metaEnd - field.typeEnd < 2
      · have hcut : ¬field.typeEnd + 2 ≤ c.metaEnd := by omega
        rw [if_pos hshort, decide_eq_false hcut, Bool.false_and]
        exact iff_of_true (rejects_setErrorState _ _) rfl
      · have hroom : field.typeEnd + 2 ≤ c.metaEnd := by omega
        rw [if_neg hshort, decide_eq_true hroom, Bool.true_and, decide_eq_false_iff_not, not_not]
        by_cases hzero : c.byteReader.ofBytes ((data.drop field.typeEnd).take 2) = 0
        · rw [if_pos hzero]
          exact iff_of_true (rejects_setErrorState _ _) hzero
        · rw [if_neg hzero, startArray_struct (by exact hstruct)]
          exact iff_of_false not_rejects_true hzero
    | false =>
      have hscalar : FieldEncoding.isArray field.fieldType.encoding = false := by
        rw [FieldEncoding.isArray_eq, hvariable, hconstant]
        rfl
      rw [hdecodes.nextProperty_scalar h hscalar hempty]
      exact iff_of_true (rejects_setErrorState _ _) rfl

/-- `next_property` takes the reserved array encoding for an array of variable length: it is rejected
as not supported only where its elements have an unknown encoding, and its number of elements is there.
Assumes: a positioned context. -/
theorem nextProperty_reserved (h : Positioned data c) (hdecodes : Decodes data c field)
    (hreserved : field.fieldType.isReserved = true) :
    Rejects .notSupported (nextProperty build data c) ↔
      arrayElementSize (FieldEncoding.withoutFlags field.fieldType.encoding) = .error .notSupported ∧
        hasElementCount data c field = true := by
  unfold FieldType.isReserved at hreserved
  rw [Bool.and_eq_true] at hreserved
  obtain ⟨_, hvariable⟩ := hreserved
  have hknown : field.fieldType.encoding ≠ readFieldError := by
    intro herror
    rw [herror] at hvariable
    exact absurd hvariable (by decide)
  have hpos := h.dataPosRaw_le
  unfold hasElementCount
  rw [hdecodes.nextProperty_variable h hknown hvariable, if_pos hvariable, decide_eq_true_eq]
  by_cases hshort : data.length - c.dataPosRaw < 2
  · rw [if_pos hshort]
    refine iff_of_false ?_ (fun hcount ↦ by omega)
    rw [rejects_setErrorState_iff]
    decide
  · rw [if_neg hshort]
    have hcount : c.dataPosRaw + 2 ≤ data.length := by omega
    rw [and_iff_left hcount]
    exact startArray_notSupported (by exact hcount)

/-! ### What metadata enumeration does with a definition -/

/-- Metadata enumeration rejects every struct without fields. Assumes: a positioned context. -/
theorem nextFieldMetadata_emptyStruct (h : Positioned data c)
    (hfield : c.nextField data = some field) (hempty : field.fieldType.isEmptyStruct = true) :
    Rejects .invalidData (nextFieldMetadata build data c) := by
  have hdefinition : fieldAt c.byteReader data c.metaEnd c.stackTop.nextOffset = some field := hfield
  unfold FieldType.isEmptyStruct at hempty
  rw [Bool.and_eq_true, decide_eq_true_eq, decide_eq_true_eq] at hempty
  obtain ⟨hstruct, hformat⟩ := hempty
  unfold nextFieldMetadata
  dsimp only
  rw [readFieldNameAndType_eq build (by exact h.nextOffset_le) (by exact h.metaEnd_le), ok_bind]
  dsimp only
  rw [hdefinition]
  dsimp only
  split_ifs with herror hcheck
  · exact rejects_setErrorState _ _
  · exact rejects_setErrorState _ _
  · exact absurd ⟨hstruct.symm, hformat⟩ hcheck
  · exact absurd ⟨hstruct.symm, hformat⟩ hcheck
  · exact absurd ⟨hstruct.symm, hformat⟩ hcheck
  · exact absurd ⟨hstruct.symm, hformat⟩ hcheck

/-- Metadata enumeration takes the reserved array encoding for an array of variable length. Assumes: a
positioned context. -/
theorem nextFieldMetadata_reserved (h : Positioned data c) (hfield : c.nextField data = some field)
    (hreserved : field.fieldType.isReserved = true) :
    ¬Rejects .notSupported (nextFieldMetadata build data c) := by
  have hdefinition : fieldAt c.byteReader data c.metaEnd c.stackTop.nextOffset = some field := hfield
  unfold FieldType.isReserved at hreserved
  rw [Bool.and_eq_true] at hreserved
  obtain ⟨_, hvariable⟩ := hreserved
  have harray : FieldEncoding.isArray field.fieldType.encoding = true := by
    rw [FieldEncoding.isArray_eq, hvariable, Bool.or_true]
  unfold nextFieldMetadata
  dsimp only
  rw [readFieldNameAndType_eq build (by exact h.nextOffset_le) (by exact h.metaEnd_le), ok_bind]
  dsimp only
  rw [hdefinition]
  dsimp only
  rw [if_neg (not_not.mpr harray), if_pos hvariable]
  split_ifs
  · rw [rejects_setErrorState_iff]
    decide
  · rw [rejects_setErrorState_iff]
    decide
  · exact not_rejects_true

/-- A metadata move looks at the definition at the cursor. Assumes: the invariant, before the first item
or within metadata enumeration, and a definition that is left. -/
theorem moveNextMetadataImpl_eq (build : Build) (h : EnumeratorInv data c)
    (hstate : c.state = .beforeFirstItem ∨ c.substate = .valueMetadata)
    (hnext : c.stackTop.nextOffset ≠ c.metaEnd) :
    ∃ shown, Positioned data shown ∧ shown.nextField data = c.nextField data ∧
      shown.stack = c.stack ∧ shown.stackIndex = c.stackIndex ∧ shown.frame = c.frame ∧
      moveNextMetadataImpl build data c = nextFieldMetadata build data shown := by
  have hpos := h.positioned
  by_cases hvalue : c.substate = .valueMetadata
  · have hitem := h.item
    unfold ItemInv at hitem
    simp only [hvalue] at hitem
    refine ⟨c, hpos, rfl, rfl, rfl, rfl, ?_⟩
    unfold moveNextMetadataImpl startMetadata
    rw [if_neg (not_not.mpr hvalue), ok_bind, debugAssert_of hitem.state_eq, ok_bind, if_pos hnext]
  · have hbefore : c.state = .beforeFirstItem := hstate.resolve_right hvalue
    refine ⟨{ c with
        stackTop := { c.stackTop with arrayIndex := 0 }
        dataPosCooked := data.length
        itemSizeCooked := 0
        elementSize := 0
        state := .value
        substate := .valueMetadata }, ?_, rfl, rfl, rfl, rfl, ?_⟩
    · exact hpos.of_frame rfl rfl rfl hpos.nextOffset_ge hpos.nextOffset_le hpos.dataPosRaw_le
    · unfold moveNextMetadataImpl startMetadata
      rw [if_pos hvalue, debugAssert_of hbefore, ok_bind,
        debugAssert_of (h.beforeFirstItem hbefore hvalue), ok_bind, ok_bind,
        debugAssert_of (Or.inl rfl), ok_bind, if_pos (by exact hnext)]

/-! ### What the skip does with a definition -/

/-- The field counter of `skip_struct_metadata` overflows only where the build checks for it. -/
theorem addStructFields_cases (build : Build) (count : ℕ) (typ : FieldType) :
    (∃ total, addStructFields build count typ = .ok total ∧
        (build.debugAssertions = false ∨ count + typ.childCount < 256 ∨ typ.childCount = 0)) ∨
      addStructFields build count typ = .error .overflow ∧ build.debugAssertions = true ∧
        ¬count + typ.childCount < 256 := by
  unfold addStructFields FieldType.childCount addU8
  split_ifs with hstruct hfits hchecked
  · exact .inl ⟨_, rfl, .inr (.inl hfits)⟩
  · exact .inr ⟨rfl, hchecked, hfits⟩
  · exact .inl ⟨_, rfl, .inl (Bool.eq_false_of_not_eq_true hchecked)⟩
  · exact .inl ⟨_, rfl, .inr (.inr rfl)⟩

/-- The skip rejects the reserved array encoding as not supported, where its counter does not overflow.
Assumes: a positioned context, and a byte that counts fields. -/
theorem skipStructMetadataLoop_reserved (h : Positioned data c) {remaining : ℕ} (fuel : ℕ)
    (hremaining : remaining ≠ 0) (hbyte : remaining < 256)
    (hnext : c.stackTop.nextOffset ≠ c.metaEnd) (hfield : c.nextField data = some field)
    (hreserved : field.fieldType.isReserved = true) :
    Rejects .notSupported (skipStructMetadataLoop build data (fuel + 1) remaining c) ↔
      build.debugAssertions = false ∨ remaining + field.fieldType.childCount < 256 := by
  have hdefinition : fieldAt c.byteReader data c.metaEnd c.stackTop.nextOffset = some field := hfield
  unfold FieldType.isReserved at hreserved
  rw [Bool.and_eq_true] at hreserved
  obtain ⟨hconstant, hvariable⟩ := hreserved
  have hknown : field.fieldType.encoding ≠ readFieldError := by
    intro herror
    rw [herror] at hvariable
    exact absurd hvariable (by decide)
  rw [skipStructMetadataLoop, if_neg (by simp [hremaining, hnext])]
  dsimp only
  rw [readFieldNameAndType_eq build (by exact h.nextOffset_le) (by exact h.metaEnd_le), ok_bind]
  dsimp only
  rw [hdefinition]
  dsimp only
  rw [if_neg hknown]
  rcases addStructFields_cases build remaining field.fieldType with
    ⟨total, htotal, hcases⟩ | ⟨hfault, hchecked, hfits⟩
  · rw [htotal, ok_bind, if_neg (not_not.mpr hconstant), if_neg (not_not.mpr hvariable)]
    refine iff_of_true (rejects_setErrorState _ _) ?_
    rcases hcases with hrelease | hfits | hzero
    · exact .inl hrelease
    · exact .inr hfits
    · exact .inr (by omega)
  · rw [hfault, error_bind]
    refine iff_of_false ?_ ?_
    · rintro ⟨c', heq, _⟩
      cases heq
    · rintro (hrelease | hsmall)
      · rw [hrelease] at hchecked
        cases hchecked
      · exact hfits hsmall

/-! ### Runs -/

/-- No item shows a field type that is bad, and no open struct has one. -/
structure ShowsAllowed (bad : FieldType → Prop) (data : List UInt8)
    (c : EventHeaderEnumeratorContext) : Prop where
  item : c.state.canItemInfo = true → ¬bad c.fieldType
  entries : ∀ (index : ℕ) (h : index < 8), index < c.stackIndex →
    ¬bad (fieldTypeAt data c (c.stack[index].nameOffset + c.stack[index].nameLen + 1))

/-- A step that leaves the open structs alone and shows no other field. -/
structure KeepsField (c c' : EventHeaderEnumeratorContext) : Prop where
  frame_eq : c'.frame = c.frame
  stack_eq : c'.stack = c.stack
  stackIndex_eq : c'.stackIndex = c.stackIndex
  item : c'.state.canItemInfo = true → c.state.canItemInfo = true ∧ c'.fieldType = c.fieldType

variable {bad : FieldType → Prop}

theorem fieldTypeAt_of_frame (hframe : c'.frame = c.frame) (offset : ℕ) :
    fieldTypeAt data c' offset = fieldTypeAt data c offset := by
  unfold fieldTypeAt
  rw [show c'.byteReader = c.byteReader from congrArg EventFrame.byteReader hframe,
    show c'.metaEnd = c.metaEnd from congrArg EventFrame.metaEnd hframe]

/-- The open structs of a context with the same stack. -/
theorem ShowsAllowed.entries_of_eq (h : ShowsAllowed bad data c) (hframe : c'.frame = c.frame)
    (hstack : c'.stack = c.stack) (hindex : c'.stackIndex ≤ c.stackIndex) (index : ℕ)
    (hindex8 : index < 8) (hlt : index < c'.stackIndex) :
    ¬bad (fieldTypeAt data c'
      (c'.stack[index].nameOffset + c'.stack[index].nameLen + 1)) := by
  rw [fieldTypeAt_of_frame hframe, hstack]
  exact h.entries index hindex8 (Nat.lt_of_lt_of_le hlt hindex)

theorem ShowsAllowed.keeps (h : ShowsAllowed bad data c) (hkeeps : KeepsField c c') :
    ShowsAllowed bad data c' := by
  constructor
  · intro hshows
    obtain ⟨hshown, hfieldType⟩ := hkeeps.item hshows
    rw [hfieldType]
    exact h.item hshown
  · exact h.entries_of_eq hkeeps.frame_eq hkeeps.stack_eq (Nat.le_of_eq hkeeps.stackIndex_eq)

/-- A call of `next_property` shows no bad field. Assumes: a positioned context, no bad open structs,
and that no bad definition is taken. -/
theorem ShowsAllowed.nextProperty (hpos : Positioned data call)
    (hentries : ∀ (index : ℕ) (h : index < 8), index < call.stackIndex →
      ¬bad (fieldTypeAt data call
        (call.stack[index].nameOffset + call.stack[index].nameLen + 1)))
    (hrejects : ∀ field, Decodes data call field → bad field.fieldType →
      ∀ c', nextProperty build data call ≠ .ok (true, c'))
    {moved : Bool} (hmoved : nextProperty build data call = .ok (moved, c')) :
    ShowsAllowed bad data c' := by
  have hstep := (nextProperty_returns build hpos).of_eq_ok hmoved
  generalize hresult : (moved, c') = result at hstep
  cases hstep with
  | field hremaining hnext hfield =>
    -- a field that is shown is the one of the definition, which is not bad
    have hshown : ∀ field, call.nextField data = some field → moved = true →
        ¬bad field.fieldType := by
      rintro field hdefinition rfl hbad
      exact hrejects field ⟨hremaining, hnext, hdefinition⟩ hbad c' hmoved
    cases hfield with
    | value hdefinition =>
      obtain ⟨rfl, rfl⟩ := Prod.mk.inj hresult
      exact ⟨fun _ ↦ hshown _ hdefinition rfl, hentries⟩
    | struct hdefinition =>
      obtain ⟨rfl, rfl⟩ := Prod.mk.inj hresult
      exact ⟨fun _ ↦ hshown _ hdefinition rfl, hentries⟩
    | variableArray hdefinition =>
      obtain ⟨rfl, rfl⟩ := Prod.mk.inj hresult
      exact ⟨fun _ ↦ hshown _ hdefinition rfl, hentries⟩
    | constantArray hdefinition =>
      obtain ⟨rfl, rfl⟩ := Prod.mk.inj hresult
      exact ⟨fun _ ↦ hshown _ hdefinition rfl, hentries⟩
    | failed hfailed =>
      obtain ⟨_, rfl⟩ := Prod.mk.inj hresult
      constructor
      · intro hshows
        rw [hfailed.state_eq] at hshows
        cases hshows
      · intro index hindex8 hlt
        rw [fieldTypeAt_of_frame hfailed.frame_eq, hfailed.stack_eq]
        rw [hfailed.stackIndex_eq] at hlt
        exact hentries index hindex8 hlt
  | @pop index hdone hindex8 hindex =>
    obtain ⟨_, rfl⟩ := Prod.mk.inj hresult
    constructor
    · intro _
      exact hentries index hindex8 (by omega)
    · intro lower hlower8 hlt
      have hlt' : lower < index := hlt
      exact hentries lower hlower8 (by omega)
  | trailing =>
    obtain ⟨_, rfl⟩ := Prod.mk.inj hresult
    exact ⟨fun hshows ↦ (nomatch hshows), hentries⟩
  | finished =>
    obtain ⟨_, rfl⟩ := Prod.mk.inj hresult
    exact ⟨fun hshows ↦ (nomatch hshows), hentries⟩

theorem ValueStarted.keepsField {result : Bool × EventHeaderEnumeratorContext}
    (hstarted : ValueStarted data c result) (hshows : c.state.canItemInfo = true) :
    KeepsField c result.2 := by
  rcases hstarted with ⟨pos, size, cooked, raw, _, _, _, rfl⟩ | ⟨pos, size, rfl⟩
  · exact ⟨rfl, rfl, rfl, fun _ ↦ ⟨hshows, rfl⟩⟩
  · exact ⟨rfl, rfl, rfl, fun hshown ↦ nomatch hshown⟩

theorem SameField.keepsField (h : SameField c c') (hshows : c.state.canItemInfo = true) :
    KeepsField c c' :=
  ⟨h.frame_eq, h.stack_eq, h.stackIndex_eq, fun _ ↦ ⟨hshows, h.fieldType_eq⟩⟩

/-- A step from an item of the same field. -/
theorem KeepsField.of_sameField {before : EventHeaderEnumeratorContext} (h : KeepsField c c')
    (hsame : SameField before c) (hshows : before.state.canItemInfo = true) : KeepsField before c' :=
  ⟨h.frame_eq.trans hsame.frame_eq, h.stack_eq.trans hsame.stack_eq,
    h.stackIndex_eq.trans hsame.stackIndex_eq,
    fun hshown ↦ ⟨hshows, (h.item hshown).2.trans hsame.fieldType_eq⟩⟩

/-- A `move_next` calls `next_property`, or shows no other field. Assumes: the invariant. -/
theorem MoveStep.call_or_keeps {result : Bool × EventHeaderEnumeratorContext}
    (h : EnumeratorInv data c) (hvalue : c.substate ≠ .valueMetadata)
    (hstep : MoveStep build data c result) :
    (∃ call, PropertyCall build data c call) ∨ KeepsField c result.2 := by
  have hstate := h.state_eq hvalue
  have hshows : ∀ {substate : SubState}, c.substate = substate →
      (stateOf substate).canItemInfo = true → c.state.canItemInfo = true := by
    intro substate hsubstate hcan
    rw [hstate, hsubstate]
    exact hcan
  have hspend := SameField.spend c
  cases hstep with
  | exhausted => exact .inr ⟨rfl, rfl, rfl, fun hshown ↦ nomatch hshown⟩
  | first hbudget hsubstate => exact .inl ⟨_, .first hbudget hsubstate⟩
  | scalar hbudget hsubstate => exact .inl ⟨_, .scalar hbudget hsubstate⟩
  | simpleNext _ hsubstate =>
    have hsame := ((hspend.trans (.pastItem _)).trans (.nextElement _)).trans (.atSimpleElement _)
    exact .inr (hsame.keepsField (hshows hsubstate rfl))
  | elementsDone _ hsubstate =>
    have hsame := ((hspend.trans (.pastItem _)).trans (.nextElement _)).trans (.atArrayEnd _)
    rcases hsubstate with hsubstate | hsubstate
    · exact .inr (hsame.keepsField (hshows hsubstate rfl))
    · exact .inr (hsame.keepsField (hshows hsubstate rfl))
  | complexNext _ hsubstate _ hstarted =>
    have hsame := (hspend.trans (.pastItem _)).trans (.nextElement _)
    have hshown := hshows hsubstate rfl
    exact .inr ((ValueStarted.keepsField hstarted hshown).of_sameField hsame hshown)
  | arrayEmpty _ hsubstate =>
    exact .inr ((hspend.trans (.atArrayEnd _)).keepsField (hshows hsubstate rfl))
  | simpleFirst _ hsubstate =>
    exact .inr ((hspend.trans (.atSimpleElement _)).keepsField (hshows hsubstate rfl))
  | complexFirst _ hsubstate _ _ _ hstarted =>
    have hsame := hspend.trans (.setState _ .value .valueComplexArrayElement)
    exact .inr ((ValueStarted.keepsField hstarted rfl).of_sameField hsame (hshows hsubstate rfl))
  | structFirst _ hsubstate =>
    exact .inr ((hspend.trans (.atStructBegin _)).keepsField (hshows hsubstate rfl))
  | arrayEnd hbudget hsubstate hnoSkip => exact .inl ⟨_, .arrayEnd hbudget hsubstate hnoSkip⟩
  | skip hbudget hsubstate hstruct hcount _ _ hskip =>
    exact .inl ⟨_, .skip hbudget hsubstate hstruct hcount hskip⟩
  | skipFailed _ _ hfailed =>
    refine .inr ⟨hfailed.frame_eq, hfailed.stack_eq, hfailed.stackIndex_eq, fun hshown ↦ ?_⟩
    rw [hfailed.state_eq] at hshown
    cases hshown
  | stackOverflow => exact .inr ⟨rfl, rfl, rfl, fun hshown ↦ nomatch hshown⟩
  | push hbudget hsubstate hroom => exact .inl ⟨_, .push hbudget hsubstate hroom⟩
  | structNext _ hsubstate =>
    have hsame := (hspend.trans (.nextElement _)).trans (.atStructBegin _)
    exact .inr (hsame.keepsField (hshows hsubstate rfl))
  | structsDone _ hsubstate =>
    have hsame := (hspend.trans (.nextElement _)).trans (.atArrayEnd _)
    exact .inr (hsame.keepsField (hshows hsubstate rfl))
  | structEnd hbudget hsubstate hdone hscalar =>
    exact .inl ⟨_, .structEnd hbudget hsubstate hdone hscalar⟩

/-- A call of `next_property` has the open structs of the context before it, and the one that is
entered. Assumes: the invariant. -/
theorem ShowsAllowed.entries_call (hshows : ShowsAllowed bad data c) (h : EnumeratorInv data c)
    (hcall : PropertyCall build data c call) (index : ℕ) (hindex8 : index < 8)
    (hlt : index < call.stackIndex) :
    ¬bad (fieldTypeAt data call
      (call.stack[index].nameOffset + call.stack[index].nameLen + 1)) := by
  have hitem := h.item
  unfold ItemInv at hitem
  cases hcall with
  | first => exact hshows.entries index hindex8 hlt
  | scalar => exact hshows.entries index hindex8 hlt
  | arrayEnd => exact hshows.entries index hindex8 hlt
  | skip _ _ hstruct _ hskip =>
    have hskipped := (skipStructMetadata_returns build h.positioned.spend hstruct).of_eq_ok hskip
    rcases hskipped with ⟨_, _, _, _, _, heq⟩ | ⟨_, _, heq⟩
    · obtain ⟨_, rfl⟩ := Prod.mk.inj heq
      exact hshows.entries index hindex8 hlt
    · cases heq
  | push _ hsubstate hroom =>
    simp only [hsubstate] at hitem
    obtain ⟨hstate, hitem⟩ := hitem
    have hlt' : index < c.stackIndex + 1 := hlt
    change ¬bad (fieldTypeAt data c
      ((c.stack.set c.stackIndex c.stackTop)[index].nameOffset +
        (c.stack.set c.stackIndex c.stackTop)[index].nameLen + 1))
    by_cases hlast : c.stackIndex = index
    · subst hlast
      rw [Vector.getElem_set_self, ← hitem.fieldType_eq]
      exact hshows.item (by rw [hstate]; rfl)
    · rw [Vector.getElem_set_ne _ _ hlast]
      exact hshows.entries index hindex8 (by omega)
  | structEnd => exact hshows.entries index hindex8 hlt

/-- What metadata enumeration leaves: the open structs, and an item only of the definition at the
cursor, with the cursor behind it. Assumes: a positioned context. -/
theorem nextFieldMetadata_shows (build : Build) (h : Positioned data c) :
    Returns (nextFieldMetadata build data c) fun result ↦
      result.2.stack = c.stack ∧ result.2.stackIndex = c.stackIndex ∧ result.2.frame = c.frame ∧
        result.2.state.canItemInfo = result.1 ∧
        (result.1 = true → ∃ field, c.nextField data = some field ∧
          result.2.fieldType = field.fieldType ∧
          result.2.stackTop.nextOffset = field.definitionEnd) := by
  have hmeta := h.metaEnd_le
  unfold nextFieldMetadata
  dsimp only
  rw [readFieldNameAndType_eq build (by exact h.nextOffset_le) (by exact hmeta), ok_bind]
  dsimp only
  cases hfield : fieldAt c.byteReader data c.metaEnd c.stackTop.nextOffset with
  | none =>
    dsimp only
    rw [if_pos rfl]
    exact Returns.ok ⟨rfl, rfl, rfl, rfl, fun hshows ↦ nomatch hshows⟩
  | some field =>
    obtain ⟨_, _, htypeEnd_le, _⟩ := fieldAt_bounds hfield
    dsimp only
    refine Returns.ite (fun _ ↦ ?_) (fun _ ↦ Returns.ite (fun _ ↦ ?_) (fun _ ↦
      Returns.ite (fun hscalar ↦ ?_) (fun _ ↦ Returns.ite (fun hvariable ↦ ?_) (fun hvariable ↦
        Returns.ite (fun hconstant ↦ ?_) (fun _ ↦ ?_)))))
    · exact Returns.ok ⟨rfl, rfl, rfl, rfl, fun hshows ↦ nomatch hshows⟩
    · exact Returns.ok ⟨rfl, rfl, rfl, rfl, fun hshows ↦ nomatch hshows⟩
    · have hend := (definitionEnd_of_scalar (Bool.eq_false_of_not_eq_true hscalar)).2
      exact Returns.ok ⟨rfl, rfl, rfl, rfl, fun _ ↦ ⟨field, hfield, rfl, hend.symm⟩⟩
    · have hend := definitionEnd_of_variable hvariable
      exact Returns.ok ⟨rfl, rfl, rfl, rfl, fun _ ↦ ⟨field, hfield, rfl, hend.symm⟩⟩
    · rw [sub_of_le htypeEnd_le, ok_bind]
      refine Returns.ite (fun _ ↦ ?_) (fun hroom ↦ ?_)
      · exact Returns.ok ⟨rfl, rfl, rfl, rfl, fun hshows ↦ nomatch hshows⟩
      · rw [readUInt_of_le (by omega), ok_bind]
        have hend := definitionEnd_of_constant (Bool.eq_false_of_not_eq_true hvariable) hconstant
        refine Returns.ite (fun _ ↦ ?_) (fun _ ↦ ?_)
        · exact Returns.ok ⟨rfl, rfl, rfl, rfl, fun hshows ↦ nomatch hshows⟩
        · exact Returns.ok ⟨rfl, rfl, rfl, rfl, fun _ ↦ ⟨field, hfield, rfl, hend.symm⟩⟩
    · exact Returns.ok ⟨rfl, rfl, rfl, rfl, fun hshows ↦ nomatch hshows⟩

/-- A metadata move shows no bad field, if it does not take a bad definition. Assumes: the
invariant, before the first item or within metadata enumeration. -/
theorem ShowsAllowed.moveNextMetadata (hshows : ShowsAllowed bad data c) (h : EnumeratorInv data c)
    (hstate : c.state = .beforeFirstItem ∨ c.substate = .valueMetadata)
    (hrejects : ∀ field, c.stackTop.nextOffset ≠ c.metaEnd → c.nextField data = some field →
      bad field.fieldType → ∀ c', moveNextMetadataImpl build data c ≠ .ok (true, c'))
    {moved : Bool} (hmoved : moveNextMetadataImpl build data c = .ok (moved, c')) :
    ShowsAllowed bad data c' := by
  by_cases hnext : c.stackTop.nextOffset = c.metaEnd
  · unfold moveNextMetadataImpl at hmoved
    obtain ⟨shown, hshown, hmoved⟩ := bind_eq_ok.mp hmoved
    obtain ⟨_, _, hmoved⟩ := bind_eq_ok.mp hmoved
    have hsame : shown.stack = c.stack ∧ shown.stackIndex = c.stackIndex ∧ shown.frame = c.frame ∧
        shown.stackTop.nextOffset = c.stackTop.nextOffset := by
      unfold startMetadata at hshown
      split_ifs at hshown
      · obtain ⟨_, _, hshown⟩ := bind_eq_ok.mp hshown
        obtain ⟨_, _, hshown⟩ := bind_eq_ok.mp hshown
        obtain rfl := Except.ok.inj hshown
        exact ⟨rfl, rfl, rfl, rfl⟩
      · obtain rfl := Except.ok.inj hshown
        exact ⟨rfl, rfl, rfl, rfl⟩
    obtain ⟨hstack, hindex, hframe, hoffset⟩ := hsame
    have hend : ¬shown.stackTop.nextOffset ≠ shown.metaEnd := by
      rw [hoffset, show shown.metaEnd = c.metaEnd from congrArg EventFrame.metaEnd hframe]
      exact not_not.mpr hnext
    rw [if_neg hend] at hmoved
    obtain ⟨_, rfl⟩ := Prod.mk.inj (Except.ok.inj hmoved)
    have hkeeps : KeepsField c (shown.setEndState .afterLastItem .afterLastItem) :=
      ⟨hframe, hstack, hindex, fun hshown ↦ absurd hshown Bool.false_ne_true⟩
    exact hshows.keeps hkeeps
  · obtain ⟨shown, hpos, hfield, hstack, hindex, hframe, heq⟩ :=
      moveNextMetadataImpl_eq build h hstate hnext
    obtain ⟨hstack', hindex', hframe', hcan, hitem⟩ :=
      (nextFieldMetadata_shows build hpos).of_eq_ok (heq.symm.trans hmoved)
    constructor
    · intro hshown hbad
      obtain rfl : moved = true := hcan.symm.trans hshown
      obtain ⟨field, hdefinition, hfieldType, _⟩ := hitem rfl
      rw [hfieldType] at hbad
      exact hrejects field hnext (hfield.symm.trans hdefinition) hbad c' hmoved
    · exact hshows.entries_of_eq (hframe'.trans hframe) (hstack'.trans hstack)
        (Nat.le_of_eq (hindex'.trans hindex))

/-- In every run of single steps in which no bad definition is taken, no item shows one. Assumes: an
accepted start. -/
theorem stepReaches_showsAllowed {condition shown : EventHeaderEnumeratorContext → Prop}
    {start : EventHeaderEnumeratorContext} (h : EnumeratorInv data start)
    (hstart : ShowsAllowed bad data start)
    (hvalue : ∀ call, Positioned data call → condition call → ∀ field, Decodes data call field →
      bad field.fieldType → ∀ c', nextProperty build data call ≠ .ok (true, c'))
    (hmetadata : ∀ c, EnumeratorInv data c →
      (c.state = .beforeFirstItem ∨ c.substate = .valueMetadata) → shown c →
      c.stackTop.nextOffset ≠ c.metaEnd → ∀ field, c.nextField data = some field →
      bad field.fieldType → ∀ c', moveNextMetadataImpl build data c ≠ .ok (true, c'))
    (hreaches : StepReaches build data condition shown start c) : ShowsAllowed bad data c := by
  induction hreaches with
  | refl => exact hstart
  | @move c c' moved hreaches hmove hsubstate hcalls hmoved ih =>
    have hinv := (h.stepReaches hreaches).1
    have hstep := (moveNextImpl_returns hinv hmove hsubstate).of_eq_ok hmoved
    rcases hstep.call_or_keeps hinv hsubstate with ⟨call, hcall⟩ | hkeeps
    · have hpos := hcall.positioned hinv
      rw [hcall.moveNextImpl_eq hinv hmove] at hmoved
      exact ShowsAllowed.nextProperty hpos (ih.entries_call hinv hcall)
        (hvalue call hpos (hcalls call hcall)) hmoved
    · exact ih.keeps hkeeps
  | @jump c c' moved hreaches hsubstate hjump hcall hmoved ih =>
    have hinv := (h.stepReaches hreaches).1
    have hpos := hinv.positioned.jumped (hinv.arrayBegin hjump.1 hsubstate).2
    rw [jumpArray_eq hinv hsubstate hjump] at hmoved
    exact ShowsAllowed.nextProperty hpos ih.entries (hvalue _ hpos hcall) hmoved
  | @metadata c c' moved hreaches hmove hstate hshown hmoved ih =>
    have hinv := (h.stepReaches hreaches).1
    exact ih.moveNextMetadata hinv hstate
      (fun field hnext ↦ hmetadata c hinv hstate hshown hnext field) hmoved
  | reset _ limit ih =>
    exact ⟨fun hshows ↦ (nomatch hshows), fun index _ hlt ↦ absurd hlt (Nat.not_lt_zero index)⟩

/-- An accepted event starts with no item and no open struct. -/
theorem showsAllowed_start {start : EventHeaderEnumeratorContext} {limit : ℕ}
    (hstart : start = start.resetImpl limit) : ShowsAllowed bad data start := by
  rw [hstart]
  exact ⟨fun hshows ↦ (nomatch hshows), fun index _ hlt ↦ absurd hlt (Nat.not_lt_zero index)⟩

/-! ### Structs without fields -/

/-- No call of `next_property` is made at an array of structs without fields whose number of elements
is there. -/
def NoEmptyStructArray (data : List UInt8) (call : EventHeaderEnumeratorContext) : Prop :=
  ∀ field, Decodes data call field → field.fieldType.isEmptyStruct = true →
    hasElementCount data call field = false

/-- Assumes: an event that `enumerate_with_name_and_data` accepts. At every call of `next_property` in
a run, a struct without fields is rejected with `InvalidData` unless it is an array whose number of
elements is there; every metadata move rejects one; and in every run without calls at such an array no
item shows a struct without fields. -/
theorem emptyStructs_rejected (build : Build) (context : EventHeaderEnumeratorContext)
    (tracepointName data : List UInt8) (limit : ℕ) (start : EventHeaderEnumeratorContext)
    (haccept : enumerateWithNameAndData data context tracepointName limit = .ok (.ok (), start)) :
    (∀ c call field, AnyStepReaches build data start c → CallsProperty build data c call →
      Decodes data call field → field.fieldType.isEmptyStruct = true →
        (Rejects .invalidData (nextProperty build data call) ↔
          hasElementCount data call field = false)) ∧
    (∀ c field, AnyStepReaches build data start c →
      (c.state = .beforeFirstItem ∨ c.substate = .valueMetadata) →
      c.stackTop.nextOffset ≠ c.metaEnd → c.nextField data = some field →
      field.fieldType.isEmptyStruct = true →
        Rejects .invalidData (moveNextMetadataImpl build data c)) ∧
    ∀ c, StepReaches build data (NoEmptyStructArray data) (fun _ ↦ True) start c →
      c.state.canItemInfo = true →
      FieldEncoding.withoutFlags c.fieldType.encoding = FieldEncoding.struct →
        1 ≤ c.fieldType.format.toNat := by
  obtain ⟨hinv, _⟩ :=
    (enumerateWithNameAndData_returns tracepointName limit).of_eq_ok haccept rfl
  have hmetadata : ∀ c field, EnumeratorInv data c →
      (c.state = .beforeFirstItem ∨ c.substate = .valueMetadata) →
      c.stackTop.nextOffset ≠ c.metaEnd → c.nextField data = some field →
      field.fieldType.isEmptyStruct = true →
        Rejects .invalidData (moveNextMetadataImpl build data c) := by
    intro c field hc hstate hnext hfield hempty
    obtain ⟨shown, hpos, hsame, _, _, _, heq⟩ := moveNextMetadataImpl_eq build hc hstate hnext
    rw [heq]
    exact nextFieldMetadata_emptyStruct hpos (hsame.trans hfield) hempty
  refine ⟨?_, ?_, ?_⟩
  · intro c call field hreaches hcall hdecodes hempty
    exact nextProperty_emptyStruct (hcall.positioned (hinv.stepReaches hreaches).1) hdecodes hempty
  · intro c field hreaches hstate hnext hfield hempty
    exact hmetadata c field (hinv.stepReaches hreaches).1 hstate hnext hfield hempty
  · intro c hreaches hshows hstruct
    have hallowed : ShowsAllowed (fun typ ↦ typ.isEmptyStruct = true) data c := by
      refine stepReaches_showsAllowed hinv
        (showsAllowed_start (accepted_reset haccept)) ?_ ?_ hreaches
      · intro call hpos hcondition field hdecodes hempty c' hmoved
        have hrejects : Rejects .invalidData (nextProperty build data call) :=
          (nextProperty_emptyStruct hpos hdecodes hempty).mpr (hcondition field hdecodes hempty)
        rw [hmoved] at hrejects
        exact not_rejects_true hrejects
      · intro c hc hstate _ hnext field hfield hempty c' hmoved
        have hrejects := hmetadata c field hc hstate hnext hfield hempty
        rw [hmoved] at hrejects
        exact not_rejects_true hrejects
    by_contra hzero
    refine hallowed.item hshows ?_
    unfold FieldType.isEmptyStruct
    rw [Bool.and_eq_true, decide_eq_true_eq, decide_eq_true_eq]
    refine ⟨hstruct, UInt8.toNat_inj.mp ?_⟩
    change c.fieldType.format.toNat = 0
    omega

/-- An event `n` with one struct `s` without fields. -/
def emptyStructEvent : List UInt8 :=
  [6, 0, 0, 0, 0, 0, 0, 5] ++ [5, 0, 1, 0] ++ [110, 0, 115, 0, 1]

/-- The event with a struct without fields before its first item. -/
def emptyStructStart : EventHeaderEnumeratorContext :=
  contextOf (enumerateWithNameAndData emptyStructEvent new sampleName 20)

/-- The struct without fields is rejected. -/
theorem emptyStructEvent_rejected :
    enumerateWithNameAndData emptyStructEvent new sampleName 20 = .ok (.ok (), emptyStructStart) ∧
      Rejects .invalidData
        (nextProperty ⟨true, .little, true⟩ emptyStructEvent emptyStructStart.spend) := by
  have haccept : enumerateWithNameAndData emptyStructEvent new sampleName 20 =
      .ok (.ok (), emptyStructStart) := by decide +kernel
  refine ⟨haccept, ?_⟩
  have hcall : PropertyCall ⟨true, .little, true⟩ emptyStructEvent emptyStructStart
      emptyStructStart.spend := .first (by decide +kernel) (by decide +kernel)
  have hdecodes : Decodes emptyStructEvent emptyStructStart.spend
      ⟨1, ⟨FieldEncoding.struct, FieldFormat.default, 0⟩, 17⟩ :=
    ⟨by decide +kernel, by decide +kernel, by decide +kernel⟩
  exact ((emptyStructs_rejected ⟨true, .little, true⟩ new sampleName emptyStructEvent 20
    emptyStructStart haccept).1 _ _ _ .refl (.inl hcall) hdecodes (by decide +kernel)).mpr
      (by decide +kernel)

/-- An event `n` with an array `s` of two structs without fields, of variable length. -/
def emptyStructsEvent : List UInt8 :=
  [6, 0, 0, 0, 0, 0, 0, 5] ++ [5, 0, 1, 0] ++ [110, 0, 115, 0, 65] ++ [2, 0]

/-- The event with an array of structs without fields, after so many moves. -/
def emptyStructs (count : ℕ) : EventHeaderEnumeratorContext :=
  movedBy ⟨true, .little, true⟩ emptyStructsEvent
    (contextOf (enumerateWithNameAndData emptyStructsEvent new sampleName 20)) count

/-- An array of structs without fields is shown, and so are its elements; with assertions
`item_info` panics at them. -/
theorem emptyStructsEvent_shown :
    enumerateWithNameAndData emptyStructsEvent new sampleName 20 = .ok (.ok (), emptyStructs 0) ∧
      EnumeratorReaches ⟨true, .little, true⟩ emptyStructsEvent (emptyStructs 0) (emptyStructs 2) ∧
      (emptyStructs 1).state = .arrayBegin ∧ (emptyStructs 2).state = .structBegin ∧
      FieldEncoding.withoutFlags (emptyStructs 2).fieldType.encoding = FieldEncoding.struct ∧
      (emptyStructs 2).fieldType.format.toNat = 0 ∧
      itemInfo ⟨true, .little, true⟩ emptyStructsEvent (emptyStructs 2) = .error .assertion := by
  have hfirst : moveNextImpl ⟨true, .little, true⟩ emptyStructsEvent (emptyStructs 0) =
      .ok (true, emptyStructs 1) := by decide +kernel
  have hsecond : moveNextImpl ⟨true, .little, true⟩ emptyStructsEvent (emptyStructs 1) =
      .ok (true, emptyStructs 2) := by decide +kernel
  have hreaches : EnumeratorReaches ⟨true, .little, true⟩ emptyStructsEvent (emptyStructs 0)
      (emptyStructs 2) := by
    refine .step (.step .refl (show EnumeratorOp.moveNext.Permitted (emptyStructs 0) from ?_) hfirst)
      (show EnumeratorOp.moveNext.Permitted (emptyStructs 1) from ?_) hsecond
    · decide +kernel
    · decide +kernel
  exact ⟨by decide +kernel, hreaches, by decide +kernel, by decide +kernel, by decide +kernel,
    by decide +kernel, by decide +kernel⟩

/-! ### The reserved array encoding -/

/-- A call of `next_property` at the reserved array encoding is made only where that is rejected as not
supported: the elements have an unknown encoding and their number is there. -/
def ReservedUnknown (data : List UInt8) (call : EventHeaderEnumeratorContext) : Prop :=
  ∀ field, Decodes data call field → field.fieldType.isReserved = true →
    arrayElementSize (FieldEncoding.withoutFlags field.fieldType.encoding) = .error .notSupported ∧
      hasElementCount data call field = true

/-- A metadata move is made at another definition than one with the reserved array encoding. -/
def NotReservedNext (data : List UInt8) (c : EventHeaderEnumeratorContext) : Prop :=
  ∀ field, c.nextField data = some field → field.fieldType.isReserved = false

/-- A definition that `next_property` shows ends where the cursor is then. Assumes: a positioned
context. -/
theorem nextProperty_definitionEnd (h : Positioned data c) (hdecodes : Decodes data c field)
    (hmoved : nextProperty build data c = .ok (true, c')) :
    c'.stackTop.nextOffset = field.definitionEnd := by
  have hstep := (nextProperty_returns build h).of_eq_ok hmoved
  generalize hresult : (true, c') = result at hstep
  cases hstep with
  | field _ _ hfield =>
    subst hresult
    obtain ⟨other, hshown⟩ := hfield.fieldShown
    obtain ⟨hother, _⟩ := definitionAt_eq_some.mp hshown.definition
    obtain rfl : other = field := Option.some.inj (hother.symm.trans hdecodes.definition)
    exact hshown.next_eq
  | pop hdone =>
    exact absurd hdone (not_or.mpr ⟨hdecodes.remaining, hdecodes.next⟩)
  | trailing hremaining => exact absurd hremaining hdecodes.remaining
  | finished _ hnext => exact absurd hnext hdecodes.next

/-- What the three readers of a field definition do with the reserved array encoding, at any place of
an event. -/
structure ReservedHandling (build : Build) (data : List UInt8) : Prop where
  value : ∀ call field, Positioned data call → Decodes data call field →
    field.fieldType.isReserved = true →
      (Rejects .notSupported (nextProperty build data call) ↔
        arrayElementSize (FieldEncoding.withoutFlags field.fieldType.encoding) =
            .error .notSupported ∧ hasElementCount data call field = true)
  metadata : ∀ c field, EnumeratorInv data c →
    (c.state = .beforeFirstItem ∨ c.substate = .valueMetadata) →
    c.stackTop.nextOffset ≠ c.metaEnd → c.nextField data = some field →
    field.fieldType.isReserved = true →
      ¬Rejects .notSupported (moveNextMetadataImpl build data c)
  skip : ∀ c field fuel remaining, Positioned data c → remaining ≠ 0 → remaining < 256 →
    c.stackTop.nextOffset ≠ c.metaEnd → c.nextField data = some field →
    field.fieldType.isReserved = true →
      (Rejects .notSupported (skipStructMetadataLoop build data (fuel + 1) remaining c) ↔
        build.debugAssertions = false ∨ remaining + field.fieldType.childCount < 256)

theorem reservedHandling (build : Build) (data : List UInt8) : ReservedHandling build data := by
  constructor
  · intro call field hpos hdecodes hreserved
    exact nextProperty_reserved hpos hdecodes hreserved
  · intro c field hinv hstate hnext hfield hreserved
    obtain ⟨shown, hpos, hsame, _, _, _, heq⟩ := moveNextMetadataImpl_eq build hinv hstate hnext
    rw [heq]
    exact nextFieldMetadata_reserved hpos (hsame.trans hfield) hreserved
  · intro c field fuel remaining hpos hremaining hbyte hnext hfield hreserved
    exact skipStructMetadataLoop_reserved hpos fuel hremaining hbyte hnext hfield hreserved

/-- Where the three readers of a field definition go on, if they do: behind the definition. -/
structure ReadersAgree (build : Build) (data : List UInt8) : Prop where
  value : ∀ call field c', Positioned data call → Decodes data call field →
    nextProperty build data call = .ok (true, c') → c'.stackTop.nextOffset = field.definitionEnd
  metadata : ∀ c field c', EnumeratorInv data c →
    (c.state = .beforeFirstItem ∨ c.substate = .valueMetadata) →
    c.stackTop.nextOffset ≠ c.metaEnd → c.nextField data = some field →
    moveNextMetadataImpl build data c = .ok (true, c') →
      c'.stackTop.nextOffset = field.definitionEnd
  skip : ∀ c field fuel remaining, Positioned data c → remaining ≠ 0 →
    c.stackTop.nextOffset ≠ c.metaEnd →
    definitionAt c.byteReader data c.metaEnd c.stackTop.nextOffset = some field →
    field.fieldType.isReserved = false →
      skipStructMetadataLoop build data (fuel + 1) remaining c = (do
        let total ← addStructFields build remaining field.fieldType
        let left ← subU8 build total 1
        skipStructMetadataLoop build data fuel left
          (c.withCursor c.stackTop.nextOffset field.nameLen field.definitionEnd))

theorem readersAgree (build : Build) (data : List UInt8) : ReadersAgree build data := by
  constructor
  · intro call field c' hpos hdecodes hmoved
    exact nextProperty_definitionEnd hpos hdecodes hmoved
  · intro c field c' hinv hstate hnext hfield hmoved
    obtain ⟨shown, hpos, hsame, _, _, _, heq⟩ := moveNextMetadataImpl_eq build hinv hstate hnext
    obtain ⟨_, _, _, _, hitem⟩ :=
      (nextFieldMetadata_shows build hpos).of_eq_ok (heq.symm.trans hmoved)
    obtain ⟨other, hother, _, hend⟩ := hitem rfl
    obtain rfl : other = field := Option.some.inj (hother.symm.trans (hsame.trans hfield))
    exact hend
  · intro c field fuel remaining hpos hremaining hnext hdef hreserved
    exact skipStructMetadataLoop_step fuel hpos hremaining hnext hdef hreserved

/-- Assumes: an event that `enumerate_with_name_and_data` accepts. At every call of `next_property` in
a run the reserved array encoding is rejected as not supported exactly where its elements have an
unknown encoding and their number is there; a metadata move never rejects it so, and the skip does
unless its counter overflows. The readers that go on do so behind the definition. In every run in which
`next_property` is called only where it rejects the encoding, and no metadata move is made at one, no
item shows it. -/
theorem reservedArrays_rejected (build : Build) (context : EventHeaderEnumeratorContext)
    (tracepointName data : List UInt8) (limit : ℕ) (start : EventHeaderEnumeratorContext)
    (haccept : enumerateWithNameAndData data context tracepointName limit = .ok (.ok (), start)) :
    (∀ c, AnyStepReaches build data start c → EnumeratorInv data c ∧
      ∀ call, CallsProperty build data c call → Positioned data call) ∧
    ReservedHandling build data ∧ ReadersAgree build data ∧
    ∀ c, StepReaches build data (ReservedUnknown data) (NotReservedNext data) start c →
      c.state.canItemInfo = true → c.fieldType.isReserved = false := by
  obtain ⟨hinv, _⟩ :=
    (enumerateWithNameAndData_returns tracepointName limit).of_eq_ok haccept rfl
  refine ⟨?_, reservedHandling build data, readersAgree build data, ?_⟩
  · intro c hreaches
    have hc := (hinv.stepReaches hreaches).1
    exact ⟨hc, fun call hcall ↦ hcall.positioned hc⟩
  · intro c hreaches hshows
    have hallowed : ShowsAllowed (fun typ ↦ typ.isReserved = true) data c := by
      refine stepReaches_showsAllowed hinv
        (showsAllowed_start (accepted_reset haccept)) ?_ ?_ hreaches
      · intro call hpos hcondition field hdecodes hreserved c' hmoved
        have hrejects : Rejects .notSupported (nextProperty build data call) :=
          (nextProperty_reserved hpos hdecodes hreserved).mpr (hcondition field hdecodes hreserved)
        rw [hmoved] at hrejects
        exact not_rejects_true hrejects
      · intro c _ _ hshown _ field hfield hreserved
        rw [hshown field hfield] at hreserved
        cases hreserved
    exact Bool.eq_false_of_not_eq_true (hallowed.item hshows)

/-- An event `n` with an array `a` of the reserved encoding, of elements of an unknown encoding. -/
def unknownReservedEvent : List UInt8 :=
  [6, 0, 0, 0, 0, 0, 0, 5] ++ [5, 0, 1, 0] ++ [110, 0, 97, 0, 110] ++ [1, 0]

/-- The event with unknown elements before its first item. -/
def unknownReservedStart : EventHeaderEnumeratorContext :=
  contextOf (enumerateWithNameAndData unknownReservedEvent new sampleName 20)

/-- The array of unknown elements is rejected. -/
theorem unknownReservedEvent_rejected :
    enumerateWithNameAndData unknownReservedEvent new sampleName 20 =
        .ok (.ok (), unknownReservedStart) ∧
      Rejects .notSupported
        (nextProperty ⟨true, .little, true⟩ unknownReservedEvent unknownReservedStart.spend) := by
  have haccept : enumerateWithNameAndData unknownReservedEvent new sampleName 20 =
      .ok (.ok (), unknownReservedStart) := by decide +kernel
  refine ⟨haccept, ?_⟩
  obtain ⟨hreached, hhandling, _, _⟩ := reservedArrays_rejected ⟨true, .little, true⟩ new sampleName
    unknownReservedEvent 20 unknownReservedStart haccept
  have hcall : PropertyCall ⟨true, .little, true⟩ unknownReservedEvent unknownReservedStart
      unknownReservedStart.spend := .first (by decide +kernel) (by decide +kernel)
  have hdecodes : Decodes unknownReservedEvent unknownReservedStart.spend
      ⟨1, ⟨110, FieldFormat.default, 0⟩, 17⟩ :=
    ⟨by decide +kernel, by decide +kernel, by decide +kernel⟩
  exact (hhandling.value _ _ ((hreached _ .refl).2 _ (.inl hcall)) hdecodes (by decide +kernel)).mpr
    ⟨by decide +kernel, by decide +kernel⟩

/-- An event `n` with an array `a` of the reserved encoding, of one `u8`. -/
def reservedEvent : List UInt8 :=
  [6, 0, 0, 0, 0, 0, 0, 5] ++ [5, 0, 1, 0] ++ [110, 0, 97, 0, 98] ++ [1, 0, 7]

/-- The event with the reserved encoding before its first item. -/
def reservedStart : EventHeaderEnumeratorContext :=
  contextOf (enumerateWithNameAndData reservedEvent new sampleName 20)

/-- The event with the reserved encoding after its first item, or after its first definition. -/
def reservedItem (op : EnumeratorOp) : EventHeaderEnumeratorContext :=
  contextOf (op.apply ⟨true, .little, true⟩ reservedEvent reservedStart)

/-- Value enumeration and metadata enumeration both show the array; with assertions `item_info`
panics at it. -/
theorem reservedEvent_shown :
    enumerateWithNameAndData reservedEvent new sampleName 20 = .ok (.ok (), reservedStart) ∧
      ∀ op, op = EnumeratorOp.moveNext ∨ op = EnumeratorOp.moveNextMetadata →
        EnumeratorReaches ⟨true, .little, true⟩ reservedEvent reservedStart (reservedItem op) ∧
          (reservedItem op).state = .arrayBegin ∧ (reservedItem op).fieldType.isReserved = true ∧
          itemInfo ⟨true, .little, true⟩ reservedEvent (reservedItem op) = .error .assertion := by
  refine ⟨by decide +kernel, ?_⟩
  rintro op (rfl | rfl)
  · have hmoved : EnumeratorOp.moveNext.apply ⟨true, .little, true⟩ reservedEvent reservedStart =
        .ok (true, reservedItem .moveNext) := by decide +kernel
    exact ⟨.step .refl (by decide +kernel) hmoved, by decide +kernel, by decide +kernel,
      by decide +kernel⟩
  · have hmoved : EnumeratorOp.moveNextMetadata.apply ⟨true, .little, true⟩ reservedEvent
        reservedStart = .ok (true, reservedItem .moveNextMetadata) := by decide +kernel
    exact ⟨.step .refl (by decide +kernel) hmoved, by decide +kernel, by decide +kernel,
      by decide +kernel⟩

end EventHeaderEnumeratorContext

end Tracepoints
