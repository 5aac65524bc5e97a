import Tracepoints.Enumerator.Fresh
import Tracepoints.Enumerator.JsonBulk

/-!
# A context that is used again

`reset_impl` writes the cursors and the state. The name, the element counters, the field type, the
position, the sizes and the stack (`Leftovers`) keep what an earlier enumeration left in them. None
of that is read before it is written: two contexts that differ in what is left over (`Reused`) stay
so under every operation, and a caller sees no difference (`callRun_reused`).

The relation distinguishes where an enumerator stands. At an item only the stack above the open
structs is left over, at a field definition also the raw size, and where there is no item
everything is.
-/

set_option autoImplicit false
set_option relaxedAutoImplicit false

namespace Tracepoints

open Exec

namespace EventHeaderEnumeratorContext

variable {build : Build} {data : List UInt8} {c left right : EventHeaderEnumeratorContext}

/-! ### What is left over -/

/-- The fields of a context that neither a new event nor a reset writes. -/
structure Leftovers where
  nameOffset : ℕ
  nameLen : ℕ
  arrayIndex : ℕ
  arrayCount : ℕ
  elementSize : ℕ
  fieldType : FieldType
  dataPosCooked : ℕ
  itemSizeRaw : ℕ
  itemSizeCooked : ℕ
  stack : Vector StackEntry 8

/-- The context with other leftovers. -/
def leftover (c : EventHeaderEnumeratorContext) (old : Leftovers) : EventHeaderEnumeratorContext :=
  { c with
    stackTop :=
      { c.stackTop with
        nameOffset := old.nameOffset
        nameLen := old.nameLen
        arrayIndex := old.arrayIndex
        arrayCount := old.arrayCount }
    elementSize := old.elementSize
    fieldType := old.fieldType
    dataPosCooked := old.dataPosCooked
    itemSizeRaw := old.itemSizeRaw
    itemSizeCooked := old.itemSizeCooked
    stack := old.stack }

/-- The context with another stack. -/
def withStack (c : EventHeaderEnumeratorContext) (stack : Vector StackEntry 8) :
    EventHeaderEnumeratorContext :=
  { c with stack := stack }

/-- Two stacks with the same open structs. -/
def SameBelow (index : ℕ) (first second : Vector StackEntry 8) : Prop :=
  ∀ (i : ℕ) (h : i < 8), i < index → first[i] = second[i]

/-- Two contexts that differ in leftovers. -/
inductive Reused : EventHeaderEnumeratorContext → EventHeaderEnumeratorContext → Prop
  | item {c : EventHeaderEnumeratorContext} {stack : Vector StackEntry 8}
      (hstack : SameBelow c.stackIndex c.stack stack) : Reused c (c.withStack stack)
  | idle {c : EventHeaderEnumeratorContext} (h : c.state.canItemInfo = false) (old : Leftovers)
      (hstack : SameBelow c.stackIndex c.stack old.stack) : Reused c (c.leftover old)
  | metadata {c : EventHeaderEnumeratorContext} {stack : Vector StackEntry 8}
      (h : c.substate = .valueMetadata) (raw : ℕ) (hstack : SameBelow c.stackIndex c.stack stack) :
      Reused c { c with itemSizeRaw := raw, stack := stack }

/-- Two operations end alike: with the same result in contexts that differ in leftovers. -/
def ReusedResults (first second : Bool × EventHeaderEnumeratorContext) : Prop :=
  first.1 = second.1 ∧ Reused first.2 second.2

/-- A push on two stacks with the same open structs. -/
theorem SameBelow.set {index : ℕ} {first second : Vector StackEntry 8}
    (h : SameBelow index first second) (hindex : index < 8) (entry : StackEntry) :
    SameBelow (index + 1) (first.set index entry) (second.set index entry) := by
  intro i hi hlt
  by_cases heq : index = i
  · subst heq
    rw [Vector.getElem_set_self, Vector.getElem_set_self]
  · rw [Vector.getElem_set_ne _ _ heq, Vector.getElem_set_ne _ _ heq]
    exact h i hi (by omega)

/-- A context with other leftovers is positioned where the first one is. -/
theorem Positioned.leftover (h : Positioned data c) {old : Leftovers}
    (hstack : SameBelow c.stackIndex c.stack old.stack) : Positioned data (c.leftover old) := by
  refine ⟨h.length_ge, h.length_lt, h.eventName_lt, h.metaEnd_le, h.metaSize_le, h.activityId_le,
    h.dataStart_le, h.nextOffset_ge, h.nextOffset_le, h.dataPosRaw_le, h.stackIndex_le, ?_⟩
  intro index hindex hlt
  have hentry := h.entries index hindex hlt
  rw [hstack index hindex hlt] at hentry
  exact { hentry with }

/-! ### Starting an item -/

section Start

variable {stack : Vector StackEntry 8} (pos size raw cooked : ℕ)

/-- The context with another description of its item and another stack, as `start_value` and
`start_array` may find it. -/
def withOldItem (c : EventHeaderEnumeratorContext) (pos size raw cooked : ℕ)
    (stack : Vector StackEntry 8) : EventHeaderEnumeratorContext :=
  { c with
    dataPosCooked := pos
    elementSize := size
    itemSizeRaw := raw
    itemSizeCooked := cooked
    stack := stack }

/-- Two contexts that differ in the stack above the open structs. -/
def OnlyStack (stack : Vector StackEntry 8) (first second : EventHeaderEnumeratorContext) : Prop :=
  second = first.withStack stack ∧ SameBelow first.stackIndex first.stack stack

/-- The item of two contexts that differ in the stack. -/
theorem item_reused {first second : Exec EventHeaderEnumeratorContext}
    (h : Related (OnlyStack stack) first second) :
    Related ReusedResults (do return (true, ← first)) (do return (true, ← second)) := by
  refine h.bind ?_
  rintro item _ ⟨rfl, hstack⟩
  exact .ok ⟨rfl, .item hstack⟩

theorem finishValue_reused (remainingLen : ℕ) (hstack : SameBelow c.stackIndex c.stack stack) :
    ReusedResults (finishValue c remainingLen) (finishValue (c.withStack stack) remainingLen) := by
  unfold finishValue withStack
  dsimp only
  split_ifs
  · exact ⟨rfl, .item hstack⟩
  · exact ⟨rfl, .item hstack⟩

theorem startValueFixedLength_reused (width : ℕ) (hstack : SameBelow c.stackIndex c.stack stack) :
    Related ReusedResults (startValueFixedLength data c width)
      (startValueFixedLength data { c with itemSizeRaw := raw, itemSizeCooked := cooked
                                           stack := stack } width) := by
  unfold startValueFixedLength
  refine Related.bind_same fun remaining ↦ Related.ite (fun _ ↦ ?_) (fun _ ↦ ?_)
  · exact .ok ⟨rfl, .item hstack⟩
  · exact .ok ⟨rfl, .item hstack⟩

theorem startValueZstring_reused (width remainingLen : ℕ)
    (hstack : SameBelow c.stackIndex c.stack stack) :
    Related ReusedResults
      (do return finishValue (← startValueZstring data c width) remainingLen)
      (do return finishValue (← startValueZstring data
        { c with itemSizeRaw := raw, itemSizeCooked := cooked, stack := stack }
          width) remainingLen) := by
  have hstart : Related (OnlyStack stack) (startValueZstring data c width)
      (startValueZstring data
        { c with itemSizeRaw := raw, itemSizeCooked := cooked, stack := stack } width) := by
    unfold startValueZstring
    refine Related.bind_same fun start ↦ Related.bind_same fun found ↦ ?_
    cases found with
    | some at0 => exact Related.bind_same fun _ ↦ .ok ⟨rfl, hstack⟩
    | none => exact Related.bind_same fun _ ↦ .ok ⟨rfl, hstack⟩
  refine hstart.bind ?_
  rintro first second ⟨rfl, hsame⟩
  exact .ok (finishValue_reused remainingLen hsame)

/-- A string whose length prefix does not fit is rejected, and the sizes it found are cleared. -/
theorem startValueString_reused (shift : ℕ) (hpos : c.dataPosRaw ≤ data.length)
    (hstack : SameBelow c.stackIndex c.stack stack) :
    Related ReusedResults
      (do return finishValue (← startValueString data c shift) (data.length - c.dataPosRaw))
      (do return finishValue (← startValueString data
        { c with itemSizeRaw := raw, itemSizeCooked := cooked, stack := stack }
          shift) (data.length - c.dataPosRaw)) := by
  unfold startValueString
  dsimp only
  rw [sub_of_le hpos]
  simp only [ok_bind]
  split_ifs with hshort
  · simp only [ok_bind]
    unfold finishValue
    dsimp only
    rw [if_pos hshort, if_pos hshort]
    exact .ok ⟨rfl, .item hstack⟩
  · rw [readUInt_of_le (by omega)]
    simp only [ok_bind]
    exact .ok (finishValue_reused _ hstack)

theorem startValue_reused (hpos : c.dataPosRaw ≤ data.length)
    (hstack : SameBelow c.stackIndex c.stack stack) :
    Related ReusedResults (startValue build data c)
      (startValue build data (c.withOldItem pos size raw cooked stack)) := by
  unfold startValue withOldItem
  dsimp only
  rw [sub_of_le hpos]
  simp only [ok_bind]
  refine Related.bind_same fun _ ↦ Related.bind_same fun _ ↦ ?_
  refine Related.ite (fun _ ↦ ?_) (fun _ ↦ Related.ite (fun _ ↦ ?_) (fun _ ↦
    Related.ite (fun _ ↦ ?_) (fun _ ↦ Related.ite (fun _ ↦ ?_) (fun _ ↦
    Related.ite (fun _ ↦ ?_) (fun _ ↦ Related.ite (fun _ ↦ ?_) (fun _ ↦
    Related.ite (fun _ ↦ ?_) (fun _ ↦ Related.ite (fun _ ↦ ?_) (fun _ ↦
    Related.ite (fun _ ↦ ?_) (fun _ ↦ Related.ite (fun _ ↦ ?_) (fun _ ↦
    Related.ite (fun _ ↦ ?_) (fun _ ↦ ?_)))))))))))
  · exact startValueFixedLength_reused raw cooked 1 hstack
  · exact startValueFixedLength_reused raw cooked 2 hstack
  · exact startValueFixedLength_reused raw cooked 4 hstack
  · exact startValueFixedLength_reused raw cooked 8 hstack
  · exact startValueFixedLength_reused raw cooked 16 hstack
  · exact startValueZstring_reused raw cooked 1 _ hstack
  · exact startValueZstring_reused raw cooked 2 _ hstack
  · exact startValueZstring_reused raw cooked 4 _ hstack
  · exact startValueString_reused raw cooked 0 hpos hstack
  · exact startValueString_reused raw cooked 1 hpos hstack
  · exact startValueString_reused raw cooked 2 hpos hstack
  · exact Related.bind_same fun _ ↦ .ok ⟨rfl, .item hstack⟩

theorem startArray_reused (eventDataLen : ℕ) (hstack : SameBelow c.stackIndex c.stack stack) :
    Related ReusedResults (startArray c eventDataLen)
      (startArray (c.withOldItem pos size raw cooked stack) eventDataLen) := by
  unfold startArray withOldItem
  dsimp only
  split
  · exact .ok ⟨rfl, .item hstack⟩
  · exact .ok ⟨rfl, .item hstack⟩
  · refine Related.bind_same fun remaining ↦ Related.ite (fun _ ↦ ?_) (fun _ ↦ ?_)
    · exact .ok ⟨rfl, .item hstack⟩
    · exact .ok ⟨rfl, .item hstack⟩

end Start

/-! ### The next property -/

theorem decodeField_reused (h : Positioned data c) {old : Leftovers}
    (hstack : SameBelow c.stackIndex c.stack old.stack) :
    Related ReusedResults (decodeField build data c) (decodeField build data (c.leftover old)) := by
  have hle := h.nextOffset_le
  have hmeta := h.metaEnd_le
  have hpos := h.dataPosRaw_le
  unfold decodeField leftover
  dsimp only
  rw [readFieldNameAndType_eq build (by exact hle) (by exact hmeta),
    readFieldNameAndType_eq build (by exact hle) (by exact hmeta)]
  simp only [ok_bind]
  cases fieldAt c.byteReader data c.metaEnd c.stackTop.nextOffset with
  | none =>
    dsimp only
    rw [if_pos rfl, if_pos rfl]
    exact .ok ⟨rfl, .idle rfl ⟨_, _, _, _, _, _, _, _, _, _⟩ hstack⟩
  | some field =>
    dsimp only
    refine Related.ite (fun _ ↦ ?_) (fun _ ↦ Related.ite (fun _ ↦ ?_) (fun _ ↦
      Related.ite (fun _ ↦ ?_) (fun _ ↦ Related.ite (fun _ ↦ ?_) (fun _ ↦ ?_))))
    · exact .ok ⟨rfl, .idle rfl ⟨_, _, _, _, _, _, _, _, _, _⟩ hstack⟩
    · refine Related.ite (fun _ ↦ ?_) (fun _ ↦ Related.ite (fun _ ↦ ?_) (fun _ ↦ ?_))
      · exact startValue_reused _ _ _ _ hpos hstack
      · exact .ok ⟨rfl, .idle rfl ⟨_, _, _, _, _, _, _, _, _, _⟩ hstack⟩
      · refine item_reused (?_ : Related (OnlyStack old.stack) _ _)
        unfold startStruct
        exact Related.bind_same fun _ ↦ .ok ⟨rfl, hstack⟩
    · refine Related.bind_same fun _ ↦ Related.ite (fun _ ↦ ?_) (fun _ ↦ ?_)
      · exact .ok ⟨rfl, .idle rfl ⟨_, _, _, _, _, _, _, _, _, _⟩ hstack⟩
      · exact Related.bind_same fun count ↦ startArray_reused _ _ _ _ data.length hstack
    · refine Related.bind_same fun _ ↦ Related.ite (fun _ ↦ ?_) (fun _ ↦ ?_)
      · exact .ok ⟨rfl, .idle rfl ⟨_, _, _, _, _, _, _, _, _, _⟩ hstack⟩
      · refine Related.bind_same fun count ↦ Related.ite (fun _ ↦ ?_) (fun _ ↦ ?_)
        · exact .ok ⟨rfl, .idle rfl ⟨_, _, _, _, _, _, _, _, _, _⟩ hstack⟩
        · exact startArray_reused _ _ _ _ data.length hstack
    · exact .ok ⟨rfl, .idle rfl ⟨_, _, _, _, _, _, _, _, _, _⟩ hstack⟩

/-- Assumes: a positioned context and another one with the same open structs. Between items nothing
that is left over is read. -/
theorem nextProperty_reused (build : Build) (h : Positioned data c) {old : Leftovers}
    (hstack : SameBelow c.stackIndex c.stack old.stack) :
    Related ReusedResults (nextProperty build data c)
      (nextProperty build data (c.leftover old)) := by
  have hle : c.stackIndex ≤ 8 := h.stackIndex_le
  have hother : Positioned data (c.leftover old) := h.leftover hstack
  unfold nextProperty
  refine Related.ite (fun _ ↦ ?_) (fun _ ↦ Related.ite (fun hopen ↦ ?_) (fun _ ↦
    Related.ite (fun _ ↦ ?_) (fun _ ↦ ?_)))
  · exact decodeField_reused h hstack
  · obtain ⟨index, hindex⟩ := Nat.exists_eq_succ_of_ne_zero hopen
    have hentry : c.stack[index] = (c.leftover old).stack[index] :=
      hstack index (by omega) (by omega)
    rw [popStruct_eq h (by omega) hindex, popStruct_eq hother (by omega) hindex, ← hentry]
    refine .ok ⟨rfl, .item ?_⟩
    exact fun i hi hlt ↦ hstack i hi (by rw [hindex]; exact Nat.lt_succ_of_lt hlt)
  · exact .ok ⟨rfl, .idle rfl ⟨_, _, _, _, _, _, _, _, _, _⟩ hstack⟩
  · exact .ok ⟨rfl, .idle (c := c.setEndState _ _) rfl
      ⟨_, _, _, _, _, _, c.dataPosRaw, 0, 0, _⟩ hstack⟩

/-! ### One move -/

section Move

variable {stack : Vector StackEntry 8}

theorem nextProperty_withStack (h : Positioned data c)
    (hstack : SameBelow c.stackIndex c.stack stack) :
    Related ReusedResults (nextProperty build data c)
      (nextProperty build data (c.withStack stack)) :=
  @nextProperty_reused data c build h ⟨_, _, _, _, _, _, _, _, _, stack⟩ hstack

theorem startValue_withStack (hpos : c.dataPosRaw ≤ data.length)
    (hstack : SameBelow c.stackIndex c.stack stack) :
    Related ReusedResults (startValue build data c)
      (startValue build data (c.withStack stack)) :=
  startValue_reused c.dataPosCooked c.elementSize c.itemSizeRaw c.itemSizeCooked hpos hstack

/-- A skip of field definitions does not read the stack. -/
theorem skipStructMetadataLoop_withStack (fuel remaining : ℕ) (h : Positioned data c) :
    Related (fun first second ↦ second = (first.1, first.2.withStack stack))
      (skipStructMetadataLoop build data fuel remaining c)
      (skipStructMetadataLoop build data fuel remaining (c.withStack stack)) := by
  induction fuel generalizing remaining c with
  | zero =>
    rw [skipStructMetadataLoop, skipStructMetadataLoop]
    exact Related.ite (fun _ ↦ .ok rfl) (fun _ ↦ .error _)
  | succ fuel ih =>
    have hge := h.nextOffset_ge
    have hle := h.nextOffset_le
    have hmeta := h.metaEnd_le
    rw [skipStructMetadataLoop, skipStructMetadataLoop]
    refine Related.ite (fun _ ↦ .ok rfl) (fun _ ↦ ?_)
    unfold withStack
    dsimp only
    rw [readFieldNameAndType_eq build (by exact hle) (by exact hmeta),
      readFieldNameAndType_eq build (by exact hle) (by exact hmeta)]
    simp only [ok_bind]
    cases hfield : fieldAt c.byteReader data c.metaEnd c.stackTop.nextOffset with
    | none =>
      dsimp only
      rw [if_pos rfl, if_pos rfl]
      exact .ok rfl
    | some field =>
      obtain ⟨_, htypeEnd, htypeEnd_le, _⟩ := fieldAt_bounds hfield
      dsimp only
      refine Related.ite (fun _ ↦ .ok rfl) (fun _ ↦ Related.bind_same fun count ↦ ?_)
      refine Related.ite (fun _ ↦ ?_) (fun _ ↦ Related.ite (fun _ ↦ ?_) (fun _ ↦ .ok rfl))
      · refine Related.bind_same fun rest ↦ ?_
        exact ih (c := c.withCursor _ _ field.typeEnd) rest (h.withCursor (by omega) htypeEnd_le)
      · rw [sub_of_le htypeEnd_le]
        simp only [ok_bind]
        refine Related.ite (fun _ ↦ .ok rfl) (fun hroom ↦ Related.bind_same fun rest ↦ ?_)
        exact ih (c := c.withCursor _ _ (field.typeEnd + 2)) rest
          (h.withCursor (by omega) (by omega))

theorem moveNextArrayEnd_withStack (h : Positioned data c)
    (hstack : SameBelow c.stackIndex c.stack stack) :
    Related ReusedResults (moveNextArrayEnd build data c)
      (moveNextArrayEnd build data (c.withStack stack)) := by
  unfold moveNextArrayEnd
  refine Related.bind_same fun _ ↦ Related.bind_same fun _ ↦ Related.bind_same fun _ ↦ ?_
  refine Related.ite (fun hskip ↦ ?_) (fun _ ↦ nextProperty_withStack h hstack)
  have hskipped := skipStructMetadata_returns build h hskip.1
  have hrelated : Related (fun first second ↦ second = (first.1, first.2.withStack stack))
      (skipStructMetadata build data c) (skipStructMetadata build data (c.withStack stack)) := by
    unfold skipStructMetadata
    exact Related.bind_same fun _ ↦ skipStructMetadataLoop_withStack _ _ h
  generalize skipStructMetadata build data c = first at hrelated hskipped
  generalize skipStructMetadata build data (c.withStack stack) = second at hrelated
  cases hrelated with
  | error fault => exact .error fault
  | @ok result other hsame =>
    obtain rfl : other = (result.1, result.2.withStack stack) := hsame
    simp only [ok_bind]
    rcases hskipped.of_eq_ok rfl with ⟨_, _, _, hge, hle, rfl⟩ | ⟨failed, hfailed, rfl⟩
    · exact nextProperty_withStack (h.withCursor (h.nextOffset_ge.trans hge) hle) hstack
    · refine .ok ⟨rfl, .item ?_⟩
      rw [hfailed.stackIndex_eq, hfailed.stack_eq]
      exact hstack

/-- A struct begins alike with every stack. -/
theorem startStruct_withStack (hstack : SameBelow c.stackIndex c.stack stack) :
    Related ReusedResults (do return (true, ← startStruct build c))
      (do return (true, ← startStruct build (c.withStack stack))) := by
  refine item_reused (?_ : Related (OnlyStack stack) _ _)
  unfold startStruct
  exact Related.bind_same fun _ ↦ .ok ⟨rfl, hstack⟩

/-- An element of a simple array begins alike with every stack. -/
theorem startValueSimple_withStack (hstack : SameBelow c.stackIndex c.stack stack) :
    Related ReusedResults (do return (true, ← startValueSimple build c))
      (do return (true, ← startValueSimple build (c.withStack stack))) := by
  refine item_reused (?_ : Related (OnlyStack stack) _ _)
  unfold startValueSimple
  refine Related.bind_same fun _ ↦ Related.bind_same fun _ ↦ Related.bind_same fun _ ↦ ?_
  refine Related.bind_same fun _ ↦ Related.bind_same fun _ ↦ Related.bind_same fun _ ↦ ?_
  exact Related.bind_same fun _ ↦ .ok ⟨rfl, hstack⟩

theorem moveNextArrayBegin_withStack (h : Positioned data c)
    (hstack : SameBelow c.stackIndex c.stack stack) :
    Related ReusedResults (moveNextArrayBegin build data c)
      (moveNextArrayBegin build data (c.withStack stack)) := by
  unfold moveNextArrayBegin
  refine Related.bind_same fun _ ↦ Related.bind_same fun _ ↦ Related.bind_same fun _ ↦ ?_
  refine Related.ite (fun _ ↦ ?_) (fun _ ↦ Related.ite (fun _ ↦ ?_) (fun _ ↦
    Related.ite (fun _ ↦ ?_) (fun _ ↦ ?_)))
  · exact .ok ⟨rfl, .item hstack⟩
  · exact Related.bind_same fun _ ↦ startValueSimple_withStack hstack
  · exact startValue_withStack h.dataPosRaw_le hstack
  · exact startStruct_withStack hstack

/-- Assumes: the invariant. The match of `move_next` on the substate reads the open structs of the
stack and nothing above them. -/
theorem moveNextSubstate_withStack (h : EnumeratorInv data c)
    (hstack : SameBelow c.stackIndex c.stack stack) :
    Related ReusedResults (moveNextSubstate build data c)
      (moveNextSubstate build data (c.withStack stack)) := by
  have hsame : (c.withStack stack).substate = c.substate := rfl
  have hpos := h.positioned
  have hitem := h.item
  unfold ItemInv at hitem
  unfold moveNextSubstate
  rw [hsame]
  cases hsubstate : c.substate with
  | error | afterLastItem | valueMetadata =>
    exact Related.bind_same fun _ ↦ .ok ⟨rfl, .item hstack⟩
  | beforeFirstItem => exact Related.bind_same fun _ ↦ nextProperty_withStack hpos hstack
  | valueScalar =>
    simp only [hsubstate] at hitem
    dsimp only
    unfold moveNextValueScalar
    refine Related.bind_same fun _ ↦ Related.bind_same fun _ ↦ Related.bind_same fun _ ↦
      Related.bind_same fun _ ↦ ?_
    exact nextProperty_withStack (hpos.pastItem hitem.raw_le) hstack
  | valueSimpleArrayElement =>
    dsimp only
    unfold moveNextSimpleArrayElement
    refine Related.bind_same fun _ ↦ Related.bind_same fun _ ↦ Related.bind_same fun _ ↦
      Related.bind_same fun _ ↦ Related.bind_same fun _ ↦ Related.bind_same fun _ ↦ ?_
    exact Related.ite (fun _ ↦ .ok ⟨rfl, .item hstack⟩) fun _ ↦ startValueSimple_withStack hstack
  | valueComplexArrayElement =>
    simp only [hsubstate] at hitem
    dsimp only
    unfold moveNextComplexArrayElement
    refine Related.bind_same fun _ ↦ Related.bind_same fun _ ↦ Related.bind_same fun _ ↦
      Related.bind_same fun _ ↦ Related.bind_same fun _ ↦ Related.bind_same fun _ ↦ ?_
    exact Related.ite (fun _ ↦ .ok ⟨rfl, .item hstack⟩) fun _ ↦
      startValue_withStack hitem.raw_le hstack
  | arrayBegin => exact moveNextArrayBegin_withStack hpos hstack
  | arrayEnd => exact moveNextArrayEnd_withStack hpos hstack
  | structBegin =>
    simp only [hsubstate] at hitem
    dsimp only
    unfold moveNextStructBegin
    refine Related.bind_same fun _ ↦ Related.ite (fun _ ↦ ?_) (fun hroom ↦ ?_)
    · exact .ok ⟨rfl, .item hstack⟩
    · have hroom' : c.stackIndex < 8 := not_le.mp hroom
      rw [dif_pos hroom', dif_pos (by exact hroom')]
      exact nextProperty_withStack (hpos.pushed hitem.2 hroom') (hstack.set hroom' c.stackTop)
  | structEnd =>
    dsimp only
    unfold moveNextStructEnd
    refine Related.bind_same fun _ ↦ Related.bind_same fun _ ↦ Related.bind_same fun _ ↦ ?_
    refine Related.ite (fun _ ↦ ?_) (fun _ ↦
      Related.ite (fun _ ↦ .ok ⟨rfl, .item hstack⟩) (fun _ ↦ ?_))
    · exact Related.bind_same fun _ ↦ Related.bind_same fun _ ↦ startStruct_withStack hstack
    · exact nextProperty_withStack hpos.nextElement hstack

end Move

/-- The states without an item that allow a move. -/
theorem beforeFirstItem_of_idle {state : EventHeaderEnumeratorState}
    (hidle : state.canItemInfo = false) (hmove : state.canMoveNext = true) :
    state = .beforeFirstItem := by
  cases state <;> trivial

/-- Assumes: the invariant in the first of two contexts that differ in leftovers, in a state of
value enumeration that allows a move. -/
theorem moveNextImpl_reused (build : Build) (h : EnumeratorInv data left)
    (hreused : Reused left right) (hmove : left.state.canMoveNext = true)
    (hvalue : left.substate ≠ .valueMetadata) :
    Related ReusedResults (moveNextImpl build data left) (moveNextImpl build data right) := by
  unfold moveNextImpl
  cases hreused with
  | item hstack =>
    refine Related.bind_same fun _ ↦ Related.ite (fun _ ↦ .ok ⟨rfl, .item hstack⟩) fun _ ↦ ?_
    exact moveNextSubstate_withStack (h.withBudget (left.moveNextRemaining - 1)) hstack
  | idle hidle old hstack =>
    have hsubstate := h.beforeFirstItem (beforeFirstItem_of_idle hidle hmove) hvalue
    refine Related.bind_same fun _ ↦ Related.ite (fun _ ↦ ?_) fun _ ↦ ?_
    · exact .ok ⟨rfl, .idle (c := (left.setErrorState _).2) rfl old hstack⟩
    · unfold moveNextSubstate
      dsimp only [leftover]
      rw [hsubstate]
      refine Related.bind_same fun _ ↦ ?_
      have hnext := @nextProperty_reused data left.spend build h.positioned.spend old hstack
      unfold EventHeaderEnumeratorContext.spend at hnext
      dsimp only [leftover] at hnext
      rw [hsubstate] at hnext
      exact hnext
  | metadata hmetadata => exact absurd hmetadata hvalue

/-! ### The other operations -/

/-- At an item of value enumeration only the stack is left over. -/
theorem Reused.onlyStack (h : Reused left right) (hshows : left.state.canItemInfo = true)
    (hvalue : left.substate ≠ .valueMetadata) : ∃ stack, OnlyStack stack left right := by
  cases h with
  | item hstack => exact ⟨_, rfl, hstack⟩
  | idle hidle =>
    rw [hshows] at hidle
    cases hidle
  | metadata hmetadata => exact absurd hmetadata hvalue

theorem Reused.canJumpArray_iff (h : Reused left right) (hvalue : left.substate ≠ .valueMetadata) :
    CanJumpArray left ↔ CanJumpArray right := by
  cases h with
  | item => exact Iff.rfl
  | idle hidle =>
    have hstate : left.state ≠ .arrayBegin := fun heq ↦ by
      rw [heq] at hidle
      cases hidle
    exact ⟨fun hjump ↦ absurd hjump.1 hstate, fun hjump ↦ absurd hjump.1 hstate⟩
  | metadata hmetadata => exact absurd hmetadata hvalue

/-- The jump over an array of simple elements. -/
theorem jumpArray_reused (build : Build) (h : EnumeratorInv data left) (hreused : Reused left right)
    (hvalue : left.substate ≠ .valueMetadata) (hjump : CanJumpArray left) :
    Related ReusedResults (jumpArray build data left) (jumpArray build data right) := by
  obtain ⟨stack, rfl, hstack⟩ := hreused.onlyStack (by rw [hjump.1]; rfl) hvalue
  obtain ⟨_, hitem⟩ := h.arrayBegin hjump.1 hvalue
  unfold jumpArray
  refine Related.bind_same fun _ ↦ Related.bind_same fun _ ↦ Related.bind_same fun _ ↦
    Related.bind_same fun _ ↦ ?_
  exact nextProperty_withStack (h.positioned.jumped hitem) hstack

/-- Assumes: the invariant in the first of two contexts that differ in leftovers, in a state of
value enumeration that allows a move. -/
theorem moveNextSiblingLoop_reused (fuel : ℕ) (depth : ℤ) (h : EnumeratorInv data left)
    (hreused : Reused left right) (hmove : left.state.canMoveNext = true)
    (hvalue : left.substate ≠ .valueMetadata) :
    Related ReusedResults (moveNextSiblingLoop build data fuel depth left)
      (moveNextSiblingLoop build data fuel depth right) := by
  induction fuel generalizing depth left right with
  | zero => exact .error _
  | succ fuel ih =>
    -- after either kind of move the loop stops in both contexts or goes on in both
    have hgoesOn (next : ℤ) (first second : Bool × EventHeaderEnumeratorContext)
        (hresults : ReusedResults first second) (hmoved : Moved data left first) :
        Related ReusedResults
          (if ¬first.1 = true ∨ next ≤ 0 then .ok (first.1, first.2)
            else moveNextSiblingLoop build data fuel next first.2)
          (if ¬second.1 = true ∨ next ≤ 0 then .ok (second.1, second.2)
            else moveNextSiblingLoop build data fuel next second.2) := by
      rw [← hresults.1]
      refine Related.ite (fun _ ↦ .ok ⟨rfl, hresults.2⟩) fun hmore ↦ ?_
      have htrue : first.1 = true := by simpa using (not_or.mp hmore).1
      exact ih next hmoved.inv hresults.2 (hmoved.stops.trans htrue) hmoved.value
    have hstate : right.state = left.state := by cases hreused <;> rfl
    rw [moveNextSiblingLoop, moveNextSiblingLoop, hstate]
    by_cases hjump : CanJumpArray left
    · rw [if_pos hjump, if_pos ((hreused.canJumpArray_iff hvalue).mp hjump)]
      have hrelated := jumpArray_reused build h hreused hvalue hjump
      refine (hrelated.and_left (.of_returns (jumpArray_returns h hvalue hjump)
        : ReturnsUnless (CounterOverflow build) _ _)).bind ?_
      rintro first second ⟨hresults, _, hmoved⟩
      exact hgoesOn depth first second hresults hmoved
    · rw [if_neg hjump, if_neg fun hright ↦ hjump ((hreused.canJumpArray_iff hvalue).mpr hright)]
      have hrelated := moveNextImpl_reused build h hreused hmove hvalue
      refine (hrelated.and_left (moveNextImpl_returns h hmove hvalue)).bind ?_
      rintro first second ⟨hresults, hstep⟩
      exact hgoesOn _ first second hresults (hstep.moved h)

theorem moveNextSiblingImpl_reused (build : Build) (h : EnumeratorInv data left)
    (hreused : Reused left right) (hmove : left.state.canMoveNext = true)
    (hvalue : left.substate ≠ .valueMetadata) :
    Related ReusedResults (moveNextSiblingImpl build data left)
      (moveNextSiblingImpl build data right) := by
  have hstate : right.state = left.state := by cases hreused <;> rfl
  have hbudget : right.moveNextRemaining = left.moveNextRemaining := by cases hreused <;> rfl
  unfold moveNextSiblingImpl
  rw [hstate, hbudget]
  exact Related.bind_same fun _ ↦ moveNextSiblingLoop_reused _ 0 h hreused hmove hvalue

/-- The context with another field definition, raw size and stack, as a metadata move may find
it. -/
def withOldField (c : EventHeaderEnumeratorContext) (old : Leftovers) :
    EventHeaderEnumeratorContext :=
  c.leftover
    { old with
      arrayIndex := c.stackTop.arrayIndex
      elementSize := c.elementSize
      dataPosCooked := c.dataPosCooked
      itemSizeCooked := c.itemSizeCooked }

/-- A metadata move within metadata enumeration reads neither the raw size nor the stack nor the
definition of the last field. -/
theorem nextFieldMetadata_reused (h : Positioned data c) {old : Leftovers}
    (hstack : SameBelow c.stackIndex c.stack old.stack) :
    Related ReusedResults (nextFieldMetadata build data c)
      (nextFieldMetadata build data (c.withOldField old)) := by
  have hle := h.nextOffset_le
  have hmeta := h.metaEnd_le
  unfold nextFieldMetadata withOldField leftover
  dsimp only
  rw [readFieldNameAndType_eq build (by exact hle) (by exact hmeta),
    readFieldNameAndType_eq build (by exact hle) (by exact hmeta)]
  simp only [ok_bind]
  cases fieldAt c.byteReader data c.metaEnd c.stackTop.nextOffset with
  | none =>
    dsimp only
    rw [if_pos rfl, if_pos rfl]
    exact .ok ⟨rfl, .idle rfl ⟨_, _, _, _, _, _, _, _, _, _⟩ hstack⟩
  | some field =>
    dsimp only
    refine Related.ite (fun _ ↦ ?_) (fun _ ↦ Related.ite (fun _ ↦ ?_) (fun _ ↦
      Related.ite (fun _ ↦ ?_) (fun _ ↦ Related.ite (fun _ ↦ ?_) (fun _ ↦
        Related.ite (fun _ ↦ ?_) (fun _ ↦ ?_)))))
    · exact .ok ⟨rfl, .idle rfl ⟨_, _, _, _, _, _, _, _, _, _⟩ hstack⟩
    · exact .ok ⟨rfl, .idle rfl ⟨_, _, _, _, _, _, _, _, _, _⟩ hstack⟩
    · exact .ok ⟨rfl, .metadata rfl old.itemSizeRaw hstack⟩
    · exact .ok ⟨rfl, .metadata rfl old.itemSizeRaw hstack⟩
    · refine Related.bind_same fun _ ↦ Related.ite (fun _ ↦ ?_) (fun _ ↦ ?_)
      · exact .ok ⟨rfl, .idle rfl ⟨_, _, _, _, _, _, _, _, _, _⟩ hstack⟩
      · refine Related.bind_same fun count ↦ Related.ite (fun _ ↦ ?_) (fun _ ↦ ?_)
        · exact .ok ⟨rfl, .idle rfl ⟨_, _, _, _, _, _, _, _, _, _⟩ hstack⟩
        · exact .ok ⟨rfl, .metadata rfl old.itemSizeRaw hstack⟩
    · exact .ok ⟨rfl, .idle rfl ⟨_, _, _, _, _, _, _, _, _, _⟩ hstack⟩

/-- The switch to metadata enumeration writes what is left over and what no field definition
writes. -/
theorem startMetadata_reused (build : Build) (h : EnumeratorInv data left)
    (hreused : Reused left right) :
    Related (fun first second ↦ ∃ old : Leftovers, second = first.withOldField old ∧
        SameBelow first.stackIndex first.stack old.stack)
      (startMetadata build data left) (startMetadata build data right) := by
  unfold startMetadata
  cases hreused with
  | @item stack hstack =>
    refine Related.ite (fun _ ↦ ?_) fun _ ↦ .ok ⟨⟨_, _, 0, _, 0, _, 0, _, 0, stack⟩, rfl, hstack⟩
    exact Related.bind_same fun _ ↦ Related.bind_same fun _ ↦
      .ok ⟨⟨_, _, 0, _, 0, _, 0, _, 0, stack⟩, rfl, hstack⟩
  | idle hidle old hstack =>
    refine Related.ite (fun _ ↦ ?_) fun hmetadata ↦ ?_
    · exact Related.bind_same fun _ ↦ Related.bind_same fun _ ↦ .ok ⟨old, rfl, hstack⟩
    · have hitem := h.item
      unfold ItemInv at hitem
      simp only [not_not.mp hmetadata] at hitem
      rcases hitem.state_eq with hstate | hstate <;> rw [hstate] at hidle <;> cases hidle
  | @metadata stack hmetadata raw hstack =>
    refine Related.ite (fun hvalue ↦ absurd hmetadata hvalue) fun _ ↦ ?_
    exact .ok ⟨⟨_, _, 0, _, 0, _, 0, raw, 0, stack⟩, rfl, hstack⟩

theorem moveNextMetadataImpl_reused (build : Build) (h : EnumeratorInv data left)
    (hreused : Reused left right) (hop : EnumeratorOp.moveNextMetadata.Permitted left) :
    Related ReusedResults (moveNextMetadataImpl build data left)
      (moveNextMetadataImpl build data right) := by
  obtain ⟨first, hfirst, hpos, _⟩ := startMetadata_returns build h hop.2
  obtain ⟨_, hsecond, old, rfl, hstack⟩ :=
    (startMetadata_reused build h hreused).of_left_ok hfirst
  unfold moveNextMetadataImpl
  rw [hfirst, hsecond]
  simp only [ok_bind]
  refine Related.bind_same fun _ ↦ Related.ite (fun _ ↦ ?_) fun _ ↦ ?_
  · exact nextFieldMetadata_reused hpos hstack
  · exact .ok ⟨rfl, .idle (c := first.setEndState _ _) rfl
      ⟨_, _, _, _, _, _, first.dataPosRaw, 0, 0, _⟩ hstack⟩

/-- Assumes: two contexts of the same event. After a reset they differ in leftovers. -/
theorem reused_of_frame_eq (hframe : left.frame = right.frame) (limit : ℕ) :
    Reused (left.resetImpl limit) (right.resetImpl limit) := by
  have hsame : right.resetImpl limit = (left.resetImpl limit).leftover
      ⟨right.stackTop.nameOffset, right.stackTop.nameLen, right.stackTop.arrayIndex,
        right.stackTop.arrayCount, right.elementSize, right.fieldType, right.dataPosCooked,
        right.itemSizeRaw, right.itemSizeCooked, right.stack⟩ := by
    obtain ⟨hinfo, horder, hmetaEnd, hdataStart⟩ := EventFrame.mk.inj hframe
    obtain ⟨hmetaStart, hnameLen, hidStart, hidLen, hheader, hkeyword⟩ :=
      EventHeaderEventInfo.mk.inj hinfo
    simp only [leftover, resetImpl, horder, hmetaEnd, hdataStart, hmetaStart, hnameLen, hidStart,
      hidLen, hheader, hkeyword]
  rw [hsame]
  exact .idle rfl _ fun i _ hlt ↦ absurd hlt (Nat.not_lt_zero i)

theorem Reused.frame_eq (h : Reused left right) : left.frame = right.frame := by
  cases h <;> rfl

/-- Assumes: the invariant in the first of two contexts that differ in leftovers. A permitted
operation ends alike in both. -/
theorem apply_reused (build : Build) (h : EnumeratorInv data left) (hreused : Reused left right)
    {op : EnumeratorOp} (hop : op.Permitted left) :
    Related ReusedResults (op.apply build data left) (op.apply build data right) := by
  cases op with
  | moveNext => exact moveNextImpl_reused build h hreused hop.1 hop.2
  | moveNextSibling => exact moveNextSiblingImpl_reused build h hreused hop.1 hop.2
  | moveNextMetadata => exact moveNextMetadataImpl_reused build h hreused hop
  | reset => exact .ok ⟨rfl, reused_of_frame_eq hreused.frame_eq _⟩
  | resetWithLimit limit => exact .ok ⟨rfl, reused_of_frame_eq hreused.frame_eq limit⟩

/-! ### JSON -/

section Json

variable (writers : ValueWriters)

/-- The text of an item does not depend on what is left over. -/
theorem Reused.writeJsonItem_eq (h : Reused left right) (hmove : left.state.canMoveNext = true)
    (hvalue : left.substate ≠ .valueMetadata) (simpleArrays wantName : Bool) (json : JsonWriter) :
    writeJsonItem build data writers simpleArrays wantName json right =
      writeJsonItem build data writers simpleArrays wantName json left := by
  cases h with
  | item => rfl
  | idle hidle old =>
    have hstate := beforeFirstItem_of_idle hidle hmove
    unfold writeJsonItem
    dsimp only [leftover]
    rw [hstate]
  | metadata hmetadata => exact absurd hmetadata hvalue

/-- What two loops over the items leave: the same result and text, in contexts that differ in
leftovers; the first keeps the invariant and the event. -/
structure ReusedJson (data : List UInt8) (c : EventHeaderEnumeratorContext)
    (first second : Option Bool × JsonWriter × EventHeaderEnumeratorContext) : Prop where
  result_eq : first.1 = second.1
  json_eq : first.2.1 = second.2.1
  reused : Reused first.2.2 second.2.2
  inv : EnumeratorInv data first.2.2
  frame_eq : first.2.2.frame = c.frame

/-- Assumes: the invariant in the first of two contexts that differ in leftovers, in a state of
value enumeration that allows a move. -/
theorem writeJsonLoop_reused (simpleArrays : Bool) (fuel : ℕ) (depth : ℤ) (wantName : Bool)
    (json : JsonWriter) (h : EnumeratorInv data left) (hreused : Reused left right)
    (hmove : left.state.canMoveNext = true) (hvalue : left.substate ≠ .valueMetadata) :
    Related (ReusedJson data left)
      (writeJsonLoop build data writers simpleArrays fuel depth wantName json left)
      (writeJsonLoop build data writers simpleArrays fuel depth wantName json right) := by
  induction fuel generalizing depth wantName json left right with
  | zero => exact .error _
  | succ fuel ih =>
    have hgoesOn (next : ℤ) (want : Bool) (written : JsonWriter)
        (first second : Bool × EventHeaderEnumeratorContext)
        (hresults : ReusedResults first second) (hmoved : Moved data left first) :
        Related (ReusedJson data left)
          (if ¬first.1 = true ∨ next ≤ 0 then .ok (some written.jsonComma, written, first.2)
            else writeJsonLoop build data writers simpleArrays fuel next want written first.2)
          (if ¬second.1 = true ∨ next ≤ 0 then .ok (some written.jsonComma, written, second.2)
            else writeJsonLoop build data writers simpleArrays fuel next want written
              second.2) := by
      rw [← hresults.1]
      refine Related.ite (fun _ ↦ ?_) fun hmore ↦ ?_
      · exact .ok ⟨rfl, rfl, hresults.2, hmoved.inv, hmoved.frame_eq⟩
      · have htrue : first.1 = true := by simpa using (not_or.mp hmore).1
        refine (ih next want written hmoved.inv hresults.2 (hmoved.stops.trans htrue)
          hmoved.value).mono ?_
        intro _ _ hrest
        exact { hrest with frame_eq := hrest.frame_eq.trans hmoved.frame_eq }
    have hstate : right.state = left.state := by cases hreused <;> rfl
    rw [writeJsonLoop, writeJsonLoop, hreused.writeJsonItem_eq writers hmove hvalue, hstate]
    refine Related.bind_same fun item ↦ ?_
    cases item with
    | invalid => exact .ok ⟨rfl, rfl, hreused, h, rfl⟩
    | array written =>
      have hrelated := moveNextSiblingImpl_reused build h hreused hmove hvalue
      refine (hrelated.and_left (moveNextSiblingImpl_returns h hmove hvalue)).bind ?_
      rintro first second ⟨hresults, hmoved⟩
      exact hgoesOn _ _ written first second hresults hmoved
    | item written =>
      have hrelated := moveNextImpl_reused build h hreused hmove hvalue
      refine (hrelated.and_left (moveNextImpl_returns h hmove hvalue)).bind ?_
      rintro first second ⟨hresults, hstep⟩
      exact hgoesOn _ _ written first second hresults (hstep.moved h)

end Json

end EventHeaderEnumeratorContext

/-! ### Runs of calls -/

/-- The calls on an enumerator that change its context. -/
inductive EnumeratorCall
  | operation (op : EnumeratorOp)
  /-- `write_json_item_and_move_next_sibling`, with the text already in the writer. -/
  | writeJson (dest : List UInt8) (addCommaBeforeFirstItem : Bool)
      (convertOptions : PerfConvertOptions)

/-- What a call returns to its caller. -/
inductive EnumeratorAnswer
  | operation (result : Bool)
  /-- Whether a comma is needed next, `none` for an error, and the text of the writer. -/
  | writeJson (result : Option Bool) (dest : List UInt8)
  deriving DecidableEq, Repr

namespace EnumeratorCall

open EventHeaderEnumeratorContext

/-- When a caller may make a call: JSON is written where `move_next` is permitted. -/
def Permitted (call : EnumeratorCall) (c : EventHeaderEnumeratorContext) : Prop :=
  match call with
  | operation op => op.Permitted c
  | writeJson _ _ _ => c.state.canMoveNext = true ∧ c.substate ≠ .valueMetadata

instance (call : EnumeratorCall) (c : EventHeaderEnumeratorContext) : Decidable (call.Permitted c) :=
  match call with
  | operation op => inferInstanceAs (Decidable (op.Permitted c))
  | writeJson _ _ _ => inferInstanceAs (Decidable (_ ∧ _))

/-- The answer to a call and the context it leaves. -/
def apply (build : Build) (data : List UInt8) (writers : ValueWriters) (call : EnumeratorCall)
    (c : EventHeaderEnumeratorContext) : Exec (EnumeratorAnswer × EventHeaderEnumeratorContext) :=
  match call with
  | operation op => do
    let (result, c) ← op.apply build data c
    .ok (.operation result, c)
  | writeJson dest addComma options => do
    let (result, json, c) ←
      writeJsonItemAndMoveNextSiblingImpl build data writers dest addComma options c
    .ok (.writeJson result json.dest, c)

end EnumeratorCall

namespace EventHeaderEnumeratorContext

variable {build : Build} {data : List UInt8} {c left right : EventHeaderEnumeratorContext}

section Calls

variable (build : Build) (data : List UInt8) (writers : ValueWriters)

/-- The contexts that permitted calls reach from `start`. -/
inductive CallReaches (start : EventHeaderEnumeratorContext) : EventHeaderEnumeratorContext → Prop
  | refl : CallReaches start start
  | step {c c' : EventHeaderEnumeratorContext} {call : EnumeratorCall}
      {answer : EnumeratorAnswer} :
      CallReaches start c → call.Permitted c →
        call.apply build data writers c = .ok (answer, c') → CallReaches start c'

/-- The answers and observations of a sequence of calls, up to the first one that is not
permitted. -/
def callRun : List EnumeratorCall → EventHeaderEnumeratorContext →
    Exec (List (EnumeratorAnswer × Observation))
  | [], _ => .ok []
  | call :: calls, c =>
    if call.Permitted c then do
      let (answer, c) ← call.apply build data writers c
      let rest ← callRun calls c
      .ok ((answer, observe build data c) :: rest)
    else .ok []

/-- Two contexts that a caller cannot tell apart: they show the same, and so does every sequence of
calls. -/
structure Indistinguishable (left right : EventHeaderEnumeratorContext) : Prop where
  observe_eq : observe build data left = observe build data right
  run_eq : ∀ calls : List EnumeratorCall,
    callRun build data writers calls left = callRun build data writers calls right

end Calls

variable {writers : ValueWriters}

theorem Reused.observe_eq (h : Reused left right) :
    observe build data left = observe build data right := by
  cases h with
  | item => rfl
  | idle hidle =>
    unfold observe
    rw [if_neg (by rw [hidle]; decide),
      if_neg (by show ¬left.state.canItemInfo = true; rw [hidle]; decide)]
    rfl
  | metadata => rfl

theorem Reused.permitted_iff (h : Reused left right) (call : EnumeratorCall) :
    call.Permitted left ↔ call.Permitted right := by
  have hstate : right.state = left.state := by cases h <;> rfl
  have hsubstate : right.substate = left.substate := by cases h <;> rfl
  cases call with
  | operation op =>
    unfold EnumeratorCall.Permitted EnumeratorOp.Permitted
    rw [hstate, hsubstate]
  | writeJson =>
    unfold EnumeratorCall.Permitted
    rw [hstate, hsubstate]

/-- Assumes: the invariant in the first of two contexts that differ in leftovers. A permitted call
gets the same answer in both; the first context keeps the invariant and its event. -/
theorem call_reused (build : Build) (writers : ValueWriters) (h : EnumeratorInv data left)
    (hreused : Reused left right) {call : EnumeratorCall} (hcall : call.Permitted left) :
    Related (fun first second ↦ first.1 = second.1 ∧ Reused first.2 second.2 ∧
        EnumeratorInv data first.2 ∧ first.2.frame = left.frame)
      (call.apply build data writers left) (call.apply build data writers right) := by
  cases call with
  | operation op =>
    have hrelated := apply_reused build h hreused hcall
    refine (hrelated.and_left (apply_returns build h hcall)).bind ?_
    rintro first second ⟨⟨hresult, hnext⟩, hinv, hframe⟩
    exact .ok ⟨congrArg EnumeratorAnswer.operation hresult, hnext, hinv, hframe⟩
  | writeJson dest addComma options =>
    have hstate : right.state = left.state := by cases hreused <;> rfl
    have hbudget : right.moveNextRemaining = left.moveNextRemaining := by cases hreused <;> rfl
    have hrelated : Related (ReusedJson data left)
        (writeJsonItemAndMoveNextSiblingImpl build data writers dest addComma options left)
        (writeJsonItemAndMoveNextSiblingImpl build data writers dest addComma options right) := by
      unfold writeJsonItemAndMoveNextSiblingImpl writeJsonItems
      rw [hstate, hbudget]
      exact Related.bind_same fun _ ↦
        writeJsonLoop_reused writers true _ 0 _ _ h hreused hcall.1 hcall.2
    refine hrelated.bind fun first second hjson ↦ .ok ⟨?_, hjson.reused, hjson.inv, hjson.frame_eq⟩
    rw [hjson.result_eq, hjson.json_eq]

/-- Along every run of permitted calls the invariant holds and the event stays the same. -/
theorem EnumeratorInv.callReaches {start : EventHeaderEnumeratorContext}
    (h : EnumeratorInv data start) (hreaches : CallReaches build data writers start c) :
    EnumeratorInv data c ∧ c.frame = start.frame := by
  induction hreaches with
  | refl => exact ⟨h, rfl⟩
  | @step before next call answer _ hcall happly ih =>
    have hself : Reused before before := @Reused.item before before.stack fun _ _ _ ↦ rfl
    obtain ⟨_, _, _, _, hinv, hframe⟩ :=
      (call_reused build writers ih.1 hself hcall).of_left_ok happly
    exact ⟨hinv, hframe.trans ih.2⟩

/-- Assumes: the invariant in the first of two contexts that differ in leftovers. Every sequence of
calls shows the same in both. -/
theorem callRun_reused (build : Build) (writers : ValueWriters) (calls : List EnumeratorCall)
    (h : EnumeratorInv data left) (hreused : Reused left right) :
    callRun build data writers calls left = callRun build data writers calls right := by
  induction calls generalizing left right with
  | nil => rfl
  | cons call calls ih =>
    rw [callRun, callRun]
    by_cases hcall : call.Permitted left
    · rw [if_pos hcall, if_pos ((hreused.permitted_iff call).mp hcall)]
      have hrelated := call_reused build writers h hreused hcall
      generalize call.apply build data writers left = first at hrelated ⊢
      generalize call.apply build data writers right = second at hrelated ⊢
      cases hrelated with
      | error fault => rfl
      | @ok result other hresults =>
        obtain ⟨hanswer, hnext, hinv, _⟩ := hresults
        simp only [ok_bind]
        rw [ih hinv hnext, hanswer, hnext.observe_eq]
    · rw [if_neg hcall, if_neg fun hright ↦ hcall ((hreused.permitted_iff call).mpr hright)]

theorem Reused.indistinguishable (build : Build) (writers : ValueWriters)
    (h : EnumeratorInv data left) (hreused : Reused left right) :
    Indistinguishable build data writers left right :=
  ⟨hreused.observe_eq, fun calls ↦ callRun_reused build writers calls h hreused⟩

/-! ### Another enumeration -/

/-- The limit of an enumeration is the budget it starts with, and nothing else. -/
theorem enumerate_limit (name : List UInt8) (limit other : ℕ) :
    Related (fun first second ↦ first.1 = second.1 ∧
        (first.1 = .ok () → second.2 = first.2.resetImpl other))
      (enumerateWithNameAndData data c name limit)
      (enumerateWithNameAndData data c name other) := by
  have hstart (next : EventHeaderEnumeratorContext) (eventPos : ℕ) :
      Related (fun first second ↦ first.1 = second.1 ∧
          (first.1 = .ok () → second.2 = first.2.resetImpl other))
        (startEvent data next eventPos limit) (startEvent data next eventPos other) := by
    unfold startEvent
    refine Related.ite (fun _ ↦ .ok ⟨rfl, nofun⟩) fun _ ↦ Related.bind_same fun namePos ↦ ?_
    refine Related.ite (fun _ ↦ .ok ⟨rfl, nofun⟩) fun _ ↦ Related.bind_same fun nameLen ↦ ?_
    exact .ok ⟨rfl, fun _ ↦ rfl⟩
  unfold enumerateWithNameAndData
  refine Related.ite (fun _ ↦ .ok ⟨rfl, nofun⟩) fun _ ↦ Related.bind_same fun header ↦ ?_
  refine Related.ite (fun _ ↦ .ok ⟨rfl, nofun⟩) fun _ ↦ Related.bind_same fun check ↦ ?_
  refine Related.ite (fun _ ↦ .ok ⟨rfl, nofun⟩) fun _ ↦ Related.ite (fun _ ↦ ?_) fun _ ↦ hstart _ 8
  refine Related.bind_same fun extensions ↦ ?_
  obtain ⟨found, next⟩ := extensions
  cases found with
  | none => exact .ok ⟨rfl, nofun⟩
  | some eventPos => exact hstart next eventPos

/-- Two starts of one event are at the same event. -/
theorem Restarted.frame_eq {limit : ℕ} (h : Restarted limit left right)
    (hkeyword : left.keyword = right.keyword) : left.frame = right.frame := by
  obtain ⟨hheader, horder, hmetaStart, hmetaEnd, hidStart, hidLen⟩ := EventParts.mk.inj h.parts_eq
  unfold frame eventInfo
  rw [hheader, horder, hmetaStart, hmetaEnd, hidStart, hidLen, h.nameLen_eq, h.dataStart_eq, hkeyword]

/-- A context behaves like a new one, whatever it was used for before: `used` is any context, so in
particular one that any history of enumerations left behind. An event is accepted in both or
rejected in both with the same error, and after it is accepted no sequence of permitted calls tells
the two apart. A reset, after any permitted calls, is not to be told apart from a first enumeration
of the same event with that limit. -/
theorem contextReuse_indistinguishable (build : Build) (writers : ValueWriters)
    (used : EventHeaderEnumeratorContext) (tracepointName data : List UInt8) (limit : ℕ) :
    Related (fun first second ↦ first.1 = second.1 ∧
        (first.1 = .ok () → Indistinguishable build data writers first.2 second.2))
      (enumerateWithNameAndData data used tracepointName limit)
      (enumerateWithNameAndData data new tracepointName limit) ∧
    ∀ start c : EventHeaderEnumeratorContext,
      enumerateWithNameAndData data used tracepointName limit = .ok (.ok (), start) →
      CallReaches build data writers start c →
      ∀ other, ∃ fresh,
        enumerateWithNameAndData data new tracepointName other = .ok (.ok (), fresh) ∧
          Indistinguishable build data writers (c.resetImpl other) fresh := by
  have hstarted := @enumerateWithNameAndData_returns data used tracepointName limit
  have hsame := @enumerate_sameName data used new tracepointName limit
  constructor
  · have hreturns : ReturnsUnless (fun _ ↦ True)
        (enumerateWithNameAndData data used tracepointName limit) _ := .of_returns hstarted
    refine (hsame.and_left hreturns).mono ?_
    rintro first second ⟨⟨hresult, hrestarted⟩, hinv⟩
    refine ⟨hresult, fun hok ↦ ?_⟩
    obtain ⟨hparts, hkeyword⟩ := hrestarted hok
    have hreused := reused_of_frame_eq (hparts.frame_eq hkeyword) limit
    rw [← hparts.left_reset, ← hparts.right_reset] at hreused
    exact hreused.indistinguishable build writers (hinv hok).1
  · intro start c haccept hreaches other
    obtain ⟨hinv, _⟩ := hstarted.of_eq_ok haccept rfl
    obtain ⟨hinv', hframe⟩ := hinv.callReaches hreaches
    obtain ⟨⟨result, second⟩, hsecond, hresult, hrestarted⟩ := hsame.of_left_ok haccept
    obtain rfl : .ok () = result := hresult
    obtain ⟨hparts, hkeyword⟩ := hrestarted rfl
    obtain ⟨⟨result, fresh⟩, hfresh, hresult, hreset⟩ :=
      (@enumerate_limit data new tracepointName limit other).of_left_ok hsecond
    obtain rfl : .ok () = result := hresult
    obtain rfl : fresh = second.resetImpl other := hreset rfl
    refine ⟨_, hfresh, ?_⟩
    exact (reused_of_frame_eq (hframe.trans (hparts.frame_eq hkeyword)) other).indistinguishable
      build writers (hinv'.resetImpl other)

/-- The context in which the sample array was abandoned at its begin, at the start of the sample
event. -/
def sampleReusedStart : EventHeaderEnumeratorContext :=
  contextOf (enumerateWithNameAndData sampleEvent sampleArrayBegin sampleName 10)

/-- A context that was abandoned at the begin of an array enumerates the sample event like a new
one, and so does a reset of it. -/
theorem sampleEvent_reused :
    sampleArrayBegin.state = .arrayBegin ∧
      enumerateWithNameAndData sampleEvent sampleArrayBegin sampleName 10 =
        .ok (.ok (), sampleReusedStart) ∧
      Indistinguishable ⟨true, .little, true⟩ sampleEvent sampleWriters sampleReusedStart
        sampleStart ∧
      ∃ fresh, enumerateWithNameAndData sampleEvent new sampleName 3 = .ok (.ok (), fresh) ∧
        Indistinguishable ⟨true, .little, true⟩ sampleEvent sampleWriters
          (sampleReusedStart.resetImpl 3) fresh := by
  have haccept : enumerateWithNameAndData sampleEvent sampleArrayBegin sampleName 10 =
      .ok (.ok (), sampleReusedStart) := by decide +kernel
  have hfresh : enumerateWithNameAndData sampleEvent new sampleName 10 =
      .ok (.ok (), sampleStart) := by decide +kernel
  obtain ⟨hsame, hreset⟩ := contextReuse_indistinguishable ⟨true, .little, true⟩ sampleWriters
    sampleArrayBegin sampleName sampleEvent 10
  refine ⟨by decide +kernel, haccept, ?_, hreset _ _ haccept .refl 3⟩
  rw [haccept, hfresh] at hsame
  cases hsame with
  | ok hresults => exact hresults.2 rfl

end EventHeaderEnumeratorContext

end Tracepoints
