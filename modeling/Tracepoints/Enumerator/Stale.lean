import Tracepoints.Enumerator.Bounds

/-!
# Fields of a context that no longer matter

Between items the enumerator keeps what described the last item: the element index, the position
and the sizes. Nothing reads them before they are written again, so two contexts that differ only
there (`restale`) move on alike: to the same item, or to an end that again differs only there
(`SameOutcome`). The remaining budget is treated the same way, apart from its comparison with
zero.
-/

set_option autoImplicit false
set_option relaxedAutoImplicit false

namespace Tracepoints

open Exec

namespace EventHeaderEnumeratorContext

variable {build : Build} {data : List UInt8} {c : EventHeaderEnumeratorContext}

/-- The context with another remaining budget. -/
def withBudget (c : EventHeaderEnumeratorContext) (budget : ℕ) : EventHeaderEnumeratorContext :=
  { c with moveNextRemaining := budget }

/-- The context with other values in the fields that describe the last item, and another
budget. -/
def restale (c : EventHeaderEnumeratorContext) (arrayIndex dataPosCooked itemSizeRaw
    itemSizeCooked budget : ℕ) : EventHeaderEnumeratorContext :=
  { c with
    stackTop := { c.stackTop with arrayIndex := arrayIndex }
    dataPosCooked := dataPosCooked
    itemSizeRaw := itemSizeRaw
    itemSizeCooked := itemSizeCooked
    moveNextRemaining := budget }

/-- Two contexts that differ in the fields of the last item and in the budget. -/
def Stale (left right : EventHeaderEnumeratorContext) : Prop :=
  ∃ arrayIndex dataPosCooked itemSizeRaw itemSizeCooked budget,
    right = left.restale arrayIndex dataPosCooked itemSizeRaw itemSizeCooked budget

/-- Two moves end alike: at the same item, the second with the given budget, or without an item
and with contexts that differ in stale fields. -/
inductive SameOutcome (budget : ℕ) : Bool × EventHeaderEnumeratorContext →
    Bool × EventHeaderEnumeratorContext → Prop
  | item (c : EventHeaderEnumeratorContext) :
      SameOutcome budget (true, c) (true, c.withBudget budget)
  | ended {left right : EventHeaderEnumeratorContext} (h : Stale left right) :
      SameOutcome budget (false, left) (false, right)

/-! ### Starting an item -/

section Start

variable (pos raw cooked budget : ℕ)

/-- The context with another description of its item and another budget, as `start_value` and
`start_array` may find it. -/
def withLastItem (c : EventHeaderEnumeratorContext) (pos raw cooked budget : ℕ) :
    EventHeaderEnumeratorContext :=
  { c with
    dataPosCooked := pos
    itemSizeRaw := raw
    itemSizeCooked := cooked
    moveNextRemaining := budget }

theorem finishValue_sameOutcome (remainingLen : ℕ) :
    SameOutcome budget (finishValue c remainingLen)
      (finishValue (c.withBudget budget) remainingLen) := by
  unfold finishValue withBudget
  dsimp only
  split_ifs
  · exact .ended ⟨_, _, _, _, _, rfl⟩
  · exact .item _

theorem startValueFixedLength_related (size : ℕ) :
    Related (SameOutcome budget) (startValueFixedLength data c size)
      (startValueFixedLength data { c with itemSizeRaw := raw, itemSizeCooked := cooked
                                           moveNextRemaining := budget } size) := by
  unfold startValueFixedLength
  refine Related.bind_same fun remaining ↦ Related.ite (fun _ ↦ ?_) (fun _ ↦ ?_)
  · exact .ok (.ended ⟨_, _, _, _, _, rfl⟩)
  · exact .ok (.item _)

theorem startValueZstring_related (elementSize remainingLen : ℕ) :
    Related (SameOutcome budget)
      (do return finishValue (← startValueZstring data c elementSize) remainingLen)
      (do return finishValue (← startValueZstring data
        { c with itemSizeRaw := raw, itemSizeCooked := cooked, moveNextRemaining := budget }
          elementSize) remainingLen) := by
  have hstart : Related (fun left right ↦ right = left.withBudget budget)
      (startValueZstring data c elementSize) (startValueZstring data
        { c with itemSizeRaw := raw, itemSizeCooked := cooked, moveNextRemaining := budget }
          elementSize) := by
    unfold startValueZstring
    refine Related.bind_same fun start ↦ Related.bind_same fun found ↦ ?_
    cases found with
    | some at0 => exact Related.bind_same fun size ↦ .ok rfl
    | none => exact Related.bind_same fun size ↦ .ok rfl
  refine hstart.bind ?_
  rintro left right rfl
  exact .ok (finishValue_sameOutcome budget remainingLen)

/-- A string whose length prefix does not fit is rejected, so that the size it leaves behind is not
used. -/
theorem startValueString_related (shift : ℕ) (hpos : c.dataPosRaw ≤ data.length) :
    Related (SameOutcome budget)
      (do return finishValue (← startValueString data c shift) (data.length - c.dataPosRaw))
      (do return finishValue (← startValueString data
        { c with itemSizeRaw := raw, itemSizeCooked := cooked, moveNextRemaining := budget }
          shift) (data.length - c.dataPosRaw)) := by
  unfold startValueString
  dsimp only
  rw [sub_of_le hpos]
  simp only [ok_bind]
  split_ifs with hshort
  · simp only [ok_bind]
    unfold finishValue
    dsimp only
    rw [if_pos hshort, if_pos hshort]
    exact .ok (.ended ⟨_, _, _, _, _, rfl⟩)
  · rw [readUInt_of_le (by omega)]
    simp only [ok_bind]
    exact .ok (finishValue_sameOutcome budget _)

theorem startValue_related (hpos : c.dataPosRaw ≤ data.length) :
    Related (SameOutcome budget) (startValue build data c)
      (startValue build data (c.withLastItem pos raw cooked budget)) := by
  unfold startValue withLastItem
  dsimp only
  rw [sub_of_le hpos]
  simp only [ok_bind]
  refine Related.bind_same fun _ ↦ Related.bind_same fun _ ↦ ?_
  refine Related.ite (fun _ ↦ ?_) (fun _ ↦ Related.ite (fun _ ↦ ?_) (fun _ ↦
    Related.ite (fun _ ↦ ?_) (fun _ ↦ Related.ite (fun _ ↦ ?_) (fun _ ↦
    Related.ite (fun _ ↦ ?_) (fun _ ↦ Related.ite (fun _ ↦ ?_) (fun _ ↦
    Related.ite (fun _ ↦ ?_) (fun _ ↦ Related.ite (fun _ ↦ ?_) (fun _ ↦
    Related.ite (fun _ ↦ ?_) (fun _ ↦ Related.ite (fun _ ↦ ?_) (fun _ ↦
    Related.ite (fun _ ↦ ?_) (fun _ ↦ ?_)))))))))))
  · exact startValueFixedLength_related raw cooked budget 1
  · exact startValueFixedLength_related raw cooked budget 2
  · exact startValueFixedLength_related raw cooked budget 4
  · exact startValueFixedLength_related raw cooked budget 8
  · exact startValueFixedLength_related raw cooked budget 16
  · exact startValueZstring_related raw cooked budget 1 _
  · exact startValueZstring_related raw cooked budget 2 _
  · exact startValueZstring_related raw cooked budget 4 _
  · exact startValueString_related raw cooked budget 0 hpos
  · exact startValueString_related raw cooked budget 1 hpos
  · exact startValueString_related raw cooked budget 2 hpos
  · exact Related.bind_same fun _ ↦ .ok (.ended ⟨_, _, _, _, _, rfl⟩)

theorem startArray_related (eventDataLen : ℕ) (state : EventHeaderEnumeratorState)
    (substate : SubState) :
    Related (SameOutcome budget) (startArray c eventDataLen)
      (startArray ((c.withLastItem pos raw cooked budget).setState state substate)
        eventDataLen) := by
  unfold startArray withLastItem setState
  dsimp only
  split
  · exact .ok (.ended ⟨_, _, _, _, _, rfl⟩)
  · exact .ok (.item _)
  · refine Related.bind_same fun remaining ↦ Related.ite (fun _ ↦ ?_) (fun _ ↦ ?_)
    · exact .ok (.ended ⟨_, _, _, _, _, rfl⟩)
    · exact .ok (.item _)

end Start

/-! ### The next property -/

section NextProperty

variable (arrayIndex pos raw cooked budget : ℕ) (state : EventHeaderEnumeratorState)
  (substate : SubState)

/-- A context between items, with other stale fields, another state and another budget. -/
def between (c : EventHeaderEnumeratorContext) (arrayIndex pos raw cooked budget : ℕ)
    (state : EventHeaderEnumeratorState) (substate : SubState) : EventHeaderEnumeratorContext :=
  (c.restale arrayIndex pos raw cooked budget).setState state substate

theorem decodeField_related (h : Positioned data c) :
    Related (SameOutcome budget) (decodeField build data c)
      (decodeField build data
        (c.between arrayIndex pos raw cooked budget state substate)) := by
  have hle := h.nextOffset_le
  have hmeta := h.metaEnd_le
  have hpos := h.dataPosRaw_le
  unfold decodeField between restale setState
  dsimp only
  rw [readFieldNameAndType_eq build (by exact hle) (by exact hmeta),
    readFieldNameAndType_eq build (by exact hle) (by exact hmeta)]
  simp only [ok_bind]
  cases fieldAt c.byteReader data c.metaEnd c.stackTop.nextOffset with
  | none =>
    dsimp only
    rw [if_pos rfl, if_pos rfl]
    exact .ok (.ended ⟨_, _, _, _, _, rfl⟩)
  | some field =>
    dsimp only
    refine Related.ite (fun _ ↦ ?_) (fun _ ↦ Related.ite (fun _ ↦ ?_) (fun _ ↦
      Related.ite (fun _ ↦ ?_) (fun _ ↦ Related.ite (fun _ ↦ ?_) (fun _ ↦ ?_))))
    · exact .ok (.ended ⟨_, _, _, _, _, rfl⟩)
    · refine Related.ite (fun _ ↦ ?_) (fun _ ↦ Related.ite (fun _ ↦ ?_) (fun _ ↦ ?_))
      · exact startValue_related pos raw cooked budget hpos
      · exact .ok (.ended ⟨_, _, _, _, _, rfl⟩)
      · refine @Related.bind _ _ _ _ (fun left right ↦ right = left.withBudget budget) _ _ _ _ _
          ?_ ?_
        · exact Related.bind_same fun _ ↦ .ok rfl
        · rintro left right rfl
          exact .ok (.item _)
    · refine Related.bind_same fun _ ↦ Related.ite (fun _ ↦ ?_) (fun _ ↦ ?_)
      · exact .ok (.ended ⟨_, _, _, _, _, rfl⟩)
      · exact Related.bind_same fun count ↦
          startArray_related pos raw cooked budget data.length state substate
    · refine Related.bind_same fun _ ↦ Related.ite (fun _ ↦ ?_) (fun _ ↦ ?_)
      · exact .ok (.ended ⟨_, _, _, _, _, rfl⟩)
      · refine Related.bind_same fun count ↦ Related.ite (fun _ ↦ ?_) (fun _ ↦ ?_)
        · exact .ok (.ended ⟨_, _, _, _, _, rfl⟩)
        · exact startArray_related pos raw cooked budget data.length state substate
    · exact .ok (.ended ⟨_, _, _, _, _, rfl⟩)

/-- What describes the last item does not matter between items. -/
theorem nextProperty_related (build : Build) (h : Positioned data c) :
    Related (SameOutcome budget) (nextProperty build data c)
      (nextProperty build data
        (c.between arrayIndex pos raw cooked budget state substate)) := by
  have hle : c.stackIndex ≤ 8 := h.stackIndex_le
  have hbetween : Positioned data (c.between arrayIndex pos raw cooked budget state substate) :=
    h.of_frame rfl rfl rfl h.nextOffset_ge h.nextOffset_le h.dataPosRaw_le
  unfold nextProperty
  refine Related.ite (fun _ ↦ ?_) (fun _ ↦ Related.ite (fun hopen ↦ ?_) (fun _ ↦
    Related.ite (fun _ ↦ ?_) (fun _ ↦ ?_)))
  · exact decodeField_related arrayIndex pos raw cooked budget state substate h
  · obtain ⟨index, hindex⟩ := Nat.exists_eq_succ_of_ne_zero hopen
    rw [popStruct_eq h (by omega) hindex, popStruct_eq hbetween (by omega) hindex]
    exact .ok (.item _)
  · exact .ok (.ended ⟨_, _, _, _, _, rfl⟩)
  · exact .ok (.ended ⟨_, _, _, _, _, rfl⟩)

end NextProperty

/-- The budget does not matter between items. -/
theorem nextProperty_withBudget_related (h : Positioned data c) (budget : ℕ) :
    Related (SameOutcome budget) (nextProperty build data c)
      (nextProperty build data (c.withBudget budget)) :=
  nextProperty_related c.stackTop.arrayIndex c.dataPosCooked c.itemSizeRaw c.itemSizeCooked budget
    c.state c.substate build h

/-! ### One move -/

section Move

variable (budget : ℕ)

/-- Two contexts after a skip of field definitions, apart from the budget. -/
def SameSkip (budget : ℕ) (left right : Bool × EventHeaderEnumeratorContext) : Prop :=
  right = (left.1, left.2.withBudget budget)

theorem skipStructMetadataLoop_related (fuel remaining : ℕ) (h : Positioned data c) :
    Related (SameSkip budget) (skipStructMetadataLoop build data fuel remaining c)
      (skipStructMetadataLoop build data fuel remaining (c.withBudget budget)) := by
  induction fuel generalizing remaining c with
  | zero =>
    rw [skipStructMetadataLoop, skipStructMetadataLoop]
    exact Related.ite (fun _ ↦ .ok rfl) (fun _ ↦ .error _)
  | succ fuel ih =>
    have hge := h.nextOffset_ge
    have hle := h.nextOffset_le
    have hmeta := h.metaEnd_le
    rw [skipStructMetadataLoop, skipStructMetadataLoop]
    refine Related.ite (fun _ ↦ .ok rfl) (fun _ ↦ ?_)
    unfold withBudget
    dsimp only
    rw [readFieldNameAndType_eq build (by exact hle) (by exact hmeta),
      readFieldNameAndType_eq build (by exact hle) (by exact hmeta)]
    simp only [ok_bind]
    cases hfield : fieldAt c.byteReader data c.metaEnd c.stackTop.nextOffset with
    | none =>
      dsimp only
      rw [if_pos rfl, if_pos rfl]
      exact .ok rfl
    | some field =>
      obtain ⟨_, htypeEnd, htypeEnd_le, _⟩ := fieldAt_bounds hfield
      dsimp only
      refine Related.ite (fun _ ↦ .ok rfl) (fun _ ↦ Related.bind_same fun count ↦ ?_)
      refine Related.ite (fun _ ↦ ?_) (fun _ ↦ Related.ite (fun _ ↦ ?_) (fun _ ↦ .ok rfl))
      · refine Related.bind_same fun left ↦ ?_
        exact ih (c := c.withCursor _ _ field.typeEnd) left (h.withCursor (by omega) htypeEnd_le)
      · rw [sub_of_le htypeEnd_le]
        simp only [ok_bind]
        refine Related.ite (fun _ ↦ .ok rfl) (fun hroom ↦ Related.bind_same fun left ↦ ?_)
        exact ih (c := c.withCursor _ _ (field.typeEnd + 2)) left
          (h.withCursor (by omega) (by omega))

theorem moveNextArrayEnd_related (h : Positioned data c) :
    Related (SameOutcome budget) (moveNextArrayEnd build data c)
      (moveNextArrayEnd build data (c.withBudget budget)) := by
  unfold moveNextArrayEnd
  refine Related.bind_same fun _ ↦ Related.bind_same fun _ ↦ Related.bind_same fun _ ↦ ?_
  refine Related.ite (fun hskip ↦ ?_) (fun _ ↦ nextProperty_withBudget_related h budget)
  have hskipped := skipStructMetadata_returns build h hskip.1
  have hrelated : Related (SameSkip budget) (skipStructMetadata build data c)
      (skipStructMetadata build data (c.withBudget budget)) := by
    unfold skipStructMetadata
    exact Related.bind_same fun _ ↦ skipStructMetadataLoop_related budget _ _ h
  generalize hleft : skipStructMetadata build data c = left at hrelated hskipped
  generalize skipStructMetadata build data (c.withBudget budget) = right at hrelated
  cases hrelated with
  | error fault => exact .error fault
  | @ok result other hsame =>
    obtain rfl : other = (result.1, result.2.withBudget budget) := hsame
    simp only [ok_bind]
    rcases hskipped.of_eq_ok rfl with ⟨_, _, _, hge, hle, rfl⟩ | ⟨_, _, rfl⟩
    · exact nextProperty_withBudget_related
        (h.withCursor (h.nextOffset_ge.trans hge) hle) budget
    · exact .ok (.ended ⟨_, _, _, _, _, rfl⟩)

theorem startStruct_related :
    Related (fun left right ↦ right = left.withBudget budget) (startStruct build c)
      (startStruct build (c.withBudget budget)) := by
  unfold startStruct
  exact Related.bind_same fun _ ↦ .ok rfl

theorem startValueSimple_related :
    Related (fun left right ↦ right = left.withBudget budget) (startValueSimple build c)
      (startValueSimple build (c.withBudget budget)) := by
  unfold startValueSimple
  refine Related.bind_same fun _ ↦ Related.bind_same fun _ ↦ Related.bind_same fun _ ↦ ?_
  refine Related.bind_same fun _ ↦ Related.bind_same fun _ ↦ Related.bind_same fun _ ↦ ?_
  exact Related.bind_same fun _ ↦ .ok rfl

/-- A context that differs in the budget shows the same item. -/
theorem item_related {left right : Exec EventHeaderEnumeratorContext}
    (h : Related (fun left right ↦ right = left.withBudget budget) left right) :
    Related (SameOutcome budget) (do return (true, ← left)) (do return (true, ← right)) := by
  refine Related.bind h ?_
  rintro _ _ rfl
  exact .ok (.item _)

theorem startValue_withBudget_related (hpos : c.dataPosRaw ≤ data.length) :
    Related (SameOutcome budget) (startValue build data c)
      (startValue build data (c.withBudget budget)) :=
  startValue_related c.dataPosCooked c.itemSizeRaw c.itemSizeCooked budget hpos

theorem moveNextArrayBegin_related (h : Positioned data c) :
    Related (SameOutcome budget) (moveNextArrayBegin build data c)
      (moveNextArrayBegin build data (c.withBudget budget)) := by
  unfold moveNextArrayBegin
  refine Related.bind_same fun _ ↦ Related.bind_same fun _ ↦ Related.bind_same fun _ ↦ ?_
  refine Related.ite (fun _ ↦ ?_) (fun _ ↦ Related.ite (fun _ ↦ ?_) (fun _ ↦
    Related.ite (fun _ ↦ ?_) (fun _ ↦ ?_)))
  · exact .ok (.item _)
  · exact Related.bind_same fun _ ↦ item_related budget (startValueSimple_related budget)
  · exact startValue_withBudget_related budget h.dataPosRaw_le
  · exact item_related budget (startStruct_related budget)

/-- Assumes: the invariant. The match of `move_next` on the substate treats two contexts alike
that differ in the budget. -/
theorem moveNextSubstate_related (h : EnumeratorInv data c) :
    Related (SameOutcome budget) (moveNextSubstate build data c)
      (moveNextSubstate build data (c.withBudget budget)) := by
  have hsame : (c.withBudget budget).substate = c.substate := rfl
  have hpos := h.positioned
  have hitem := h.item
  unfold ItemInv at hitem
  unfold moveNextSubstate
  rw [hsame]
  cases hsubstate : c.substate with
  | error | afterLastItem | valueMetadata =>
    exact Related.bind_same fun _ ↦ .ok (.ended ⟨_, _, _, _, _, rfl⟩)
  | beforeFirstItem => exact Related.bind_same fun _ ↦ nextProperty_withBudget_related hpos budget
  | valueScalar =>
    simp only [hsubstate] at hitem
    dsimp only
    unfold moveNextValueScalar
    refine Related.bind_same fun _ ↦ Related.bind_same fun _ ↦ Related.bind_same fun _ ↦
      Related.bind_same fun _ ↦ ?_
    exact nextProperty_withBudget_related (hpos.pastItem hitem.raw_le) budget
  | valueSimpleArrayElement =>
    dsimp only
    unfold moveNextSimpleArrayElement
    refine Related.bind_same fun _ ↦ Related.bind_same fun _ ↦ Related.bind_same fun _ ↦
      Related.bind_same fun _ ↦ Related.bind_same fun _ ↦ Related.bind_same fun _ ↦ ?_
    exact Related.ite (fun _ ↦ .ok (.item _)) fun _ ↦
      item_related budget (startValueSimple_related budget)
  | valueComplexArrayElement =>
    simp only [hsubstate] at hitem
    dsimp only
    unfold moveNextComplexArrayElement
    refine Related.bind_same fun _ ↦ Related.bind_same fun _ ↦ Related.bind_same fun _ ↦
      Related.bind_same fun _ ↦ Related.bind_same fun _ ↦ Related.bind_same fun _ ↦ ?_
    exact Related.ite (fun _ ↦ .ok (.item _)) fun _ ↦
      startValue_withBudget_related budget hitem.raw_le
  | arrayBegin => exact moveNextArrayBegin_related budget hpos
  | arrayEnd => exact moveNextArrayEnd_related budget hpos
  | structBegin =>
    simp only [hsubstate] at hitem
    dsimp only
    unfold moveNextStructBegin
    refine Related.bind_same fun _ ↦ Related.ite (fun _ ↦ ?_) (fun hroom ↦ ?_)
    · exact .ok (.ended ⟨_, _, _, _, _, rfl⟩)
    · have hroom' : c.stackIndex < 8 := not_le.mp hroom
      rw [dif_pos hroom', dif_pos (by exact hroom')]
      exact nextProperty_withBudget_related (hpos.pushed hitem.2 hroom') budget
  | structEnd =>
    dsimp only
    unfold moveNextStructEnd
    refine Related.bind_same fun _ ↦ Related.bind_same fun _ ↦ Related.bind_same fun _ ↦ ?_
    refine Related.ite (fun _ ↦ ?_) (fun _ ↦ Related.ite (fun _ ↦ .ok (.item _)) (fun _ ↦ ?_))
    · exact Related.bind_same fun _ ↦ Related.bind_same fun _ ↦
        item_related budget (startStruct_related budget)
    · exact nextProperty_withBudget_related hpos.nextElement budget

end Move

/-- The invariant does not speak of the budget. -/
theorem EnumeratorInv.withBudget (h : EnumeratorInv data c) (budget : ℕ) :
    EnumeratorInv data (c.withBudget budget) := by
  have hpos := h.positioned
  have hitem := h.item
  have hsame : (c.withBudget budget).substate = c.substate := rfl
  refine ⟨hpos.of_frame rfl rfl rfl hpos.nextOffset_ge hpos.nextOffset_le hpos.dataPosRaw_le, ?_⟩
  unfold ItemInv at hitem ⊢
  rw [hsame]
  cases hsubstate : c.substate with
  | error | afterLastItem | beforeFirstItem =>
    simp only [hsubstate] at hitem
    exact hitem
  | valueMetadata | valueScalar | valueSimpleArrayElement | valueComplexArrayElement | arrayEnd =>
    simp only [hsubstate] at hitem
    exact { hitem with }
  | arrayBegin =>
    simp only [hsubstate] at hitem
    obtain ⟨field, hfield⟩ := hitem.definition
    exact { hitem with definition := ⟨field, { hfield with }⟩ }
  | structBegin | structEnd =>
    simp only [hsubstate] at hitem
    exact ⟨hitem.1, { hitem.2 with }⟩

/-- Assumes: the invariant. With budget left, `move_next` treats two contexts alike that differ in
the budget. -/
theorem moveNextImpl_related (build : Build) (h : EnumeratorInv data c) {budget : ℕ}
    (hleft : c.moveNextRemaining ≠ 0) (hright : budget ≠ 0) :
    Related (SameOutcome (budget - 1)) (moveNextImpl build data c)
      (moveNextImpl build data (c.withBudget budget)) := by
  unfold moveNextImpl
  refine Related.bind_same fun _ ↦ ?_
  rw [if_neg hleft, if_neg (by exact hright)]
  exact moveNextSubstate_related (budget - 1) (h.withBudget (c.moveNextRemaining - 1))

end EventHeaderEnumeratorContext

end Tracepoints
