import Tracepoints.Enumerator.FieldDef

/-!
# What starting an item does

The functions that start a value, an array or a struct change only the fields that describe the
current item (`withItem`) and the state. `startValue_returns` and `startArray_returns` say with
which bounds: a value they return lies inside the event, and what they do not accept is an error
that leaves the rest of the context alone.
-/

set_option autoImplicit false
set_option relaxedAutoImplicit false

namespace Tracepoints

open Exec

namespace EventHeaderEnumeratorContext

variable {build : Build} {data : List UInt8} {c : EventHeaderEnumeratorContext}

/-- The context with another description of its current item. -/
def withItem (c : EventHeaderEnumeratorContext) (dataPosCooked elementSize itemSizeCooked
    itemSizeRaw : ℕ) : EventHeaderEnumeratorContext :=
  { c with
    dataPosCooked := dataPosCooked
    elementSize := elementSize
    itemSizeCooked := itemSizeCooked
    itemSizeRaw := itemSizeRaw }

/-! ### Strings ended by a zero element -/

/-- Inside the event the search for a zero element does not fault, and what it finds lies in
range. -/
theorem findZeroElementLoop_returns {elementSize endPos : ℕ} (hsize : 0 < elementSize)
    (hend : endPos + elementSize ≤ data.length + 1) (count pos : ℕ) :
    Returns (findZeroElementLoop data elementSize endPos count pos) fun found ↦
      ∀ at0, found = some at0 → pos ≤ at0 ∧ at0 < endPos := by
  induction count generalizing pos with
  | zero =>
    refine Returns.ok ?_
    intro at0 hat0
    cases hat0
  | succ count ih =>
    rw [findZeroElementLoop]
    refine Returns.ite (fun hpos ↦ ?_) (fun _ ↦ ?_)
    · rw [slice_of_le (by omega) (by omega), ok_bind]
      refine Returns.ite (fun _ ↦ ?_) (fun _ ↦ ?_)
      · refine Returns.ok ?_
        intro at0 hat0
        obtain rfl : pos = at0 := by simpa using hat0
        exact ⟨le_rfl, hpos⟩
      · refine (ih (pos + elementSize)).mono ?_
        intro found hfound at0 hat0
        obtain ⟨hge, hlt⟩ := hfound at0 hat0
        exact ⟨by omega, hlt⟩
    · refine Returns.ok ?_
      intro at0 hat0
      cases hat0

/-- A zero-terminated string ends inside the event. -/
theorem startValueZstring_returns {elementSize : ℕ} (hsize : 0 < elementSize)
    (hlength : elementSize ≤ data.length) (hpos : c.dataPosRaw ≤ data.length) :
    Returns (startValueZstring data c elementSize) fun result ↦
      ∃ cooked raw, c.dataPosRaw + cooked ≤ data.length ∧ c.dataPosRaw + raw ≤ data.length ∧
        result = { c with itemSizeCooked := cooked, itemSizeRaw := raw } := by
  unfold startValueZstring
  rw [sub_of_le hlength, ok_bind]
  refine Returns.bind (findZeroElementLoop_returns hsize (by omega) _ _) ?_
  intro found hfound
  cases found with
  | some at0 =>
    obtain ⟨hge, hlt⟩ := hfound at0 rfl
    dsimp only
    rw [sub_of_le hge, ok_bind]
    exact Returns.ok ⟨at0 - c.dataPosRaw, at0 - c.dataPosRaw + elementSize, by omega, by omega, rfl⟩
  | none =>
    dsimp only
    rw [sub_of_le hpos, ok_bind]
    exact Returns.ok ⟨data.length - c.dataPosRaw, data.length - c.dataPosRaw, by omega, by omega, rfl⟩

/-! ### Values -/

/-- What `start_value` returns: the item inside the event, or `InvalidData`. -/
def ValueStarted (data : List UInt8) (c : EventHeaderEnumeratorContext)
    (result : Bool × EventHeaderEnumeratorContext) : Prop :=
  (∃ pos size cooked raw, pos + cooked ≤ data.length ∧ c.dataPosRaw + raw ≤ data.length ∧
      (arrayElementSize (FieldEncoding.withoutFlags c.fieldType.encoding) = .ok 0 → size = 0) ∧
      result = (true, c.withItem pos size cooked raw)) ∨
    ∃ pos size, result = (c.withItem pos size 0 0).setErrorState .invalidData

theorem ne_ok_zero_of_eq {encoding known : FieldEncoding} (h : encoding = known)
    (hknown : arrayElementSize known ≠ .ok 0) : arrayElementSize encoding ≠ .ok 0 := by
  rw [h]
  exact hknown

theorem startValueFixedLength_returns {size : ℕ} (hpos : c.dataPosRaw ≤ data.length)
    (hsimple : arrayElementSize (FieldEncoding.withoutFlags c.fieldType.encoding) ≠ .ok 0) :
    Returns (startValueFixedLength data
      { c with dataPosCooked := c.dataPosRaw, elementSize := 0 } size) (ValueStarted data c) := by
  unfold startValueFixedLength
  dsimp only
  rw [sub_of_le hpos, ok_bind]
  refine Returns.ite (fun _ ↦ ?_) (fun hsize ↦ ?_)
  · exact Returns.ok (Or.inr ⟨c.dataPosRaw, size, rfl⟩)
  · exact Returns.ok (Or.inl ⟨c.dataPosRaw, size, size, size, by omega, by omega,
      fun h ↦ absurd h hsimple, rfl⟩)

/-- The last check of `start_value` turns an item that may reach past the event into one that does
not. -/
theorem finishValue_started {pos cooked raw : ℕ} (hpos : c.dataPosRaw ≤ data.length)
    (hcooked : c.dataPosRaw + raw ≤ data.length → pos + cooked ≤ data.length) :
    ValueStarted data c (finishValue
      { c with dataPosCooked := pos, elementSize := 0, itemSizeCooked := cooked
               itemSizeRaw := raw } (data.length - c.dataPosRaw)) := by
  unfold finishValue
  dsimp only
  split_ifs with hlong
  · exact Or.inr ⟨pos, 0, rfl⟩
  · have hraw : c.dataPosRaw + raw ≤ data.length := by omega
    exact Or.inl ⟨pos, 0, cooked, raw, hcooked hraw, hraw, fun _ ↦ rfl, rfl⟩

theorem zstring_started {elementSize : ℕ} (hsize : 0 < elementSize)
    (hlength : elementSize ≤ data.length) (hpos : c.dataPosRaw ≤ data.length) :
    Returns (do
      return finishValue (← startValueZstring data
        { c with dataPosCooked := c.dataPosRaw, elementSize := 0 } elementSize)
          (data.length - c.dataPosRaw)) (ValueStarted data c) := by
  refine Returns.bind (startValueZstring_returns hsize hlength hpos) ?_
  rintro _ ⟨cooked, raw, hcooked, _, rfl⟩
  exact Returns.ok (finishValue_started hpos fun _ ↦ hcooked)

theorem string_started {shift : ℕ} (hpos : c.dataPosRaw ≤ data.length) :
    Returns (do
      return finishValue (← startValueString data
        { c with dataPosCooked := c.dataPosRaw, elementSize := 0 } shift)
          (data.length - c.dataPosRaw)) (ValueStarted data c) := by
  unfold startValueString
  dsimp only
  rw [sub_of_le hpos, ok_bind]
  split_ifs with hshort
  · rw [ok_bind]
    refine Returns.ok (Or.inr ⟨c.dataPosRaw, 0, ?_⟩)
    unfold finishValue
    dsimp only
    rw [if_pos hshort]
    rfl
  · rw [readUInt_of_le (by omega), ok_bind, ok_bind]
    exact Returns.ok (finishValue_started hpos fun _ ↦ by omega)

/-- Assumes: a data position inside an event of at least eight bytes, at a value whose type is the
one in the metadata. `start_value` does not fault; what it returns lies inside the event. -/
theorem startValue_returns (hlength : 8 ≤ data.length) (hpos : c.dataPosRaw ≤ data.length)
    (hstate : c.state = .value)
    (htype : data[c.stackTop.nameOffset + c.stackTop.nameLen + 1]?.map
      FieldEncoding.withoutChainFlag = some c.fieldType.encoding)
    (hstruct : FieldEncoding.withoutFlags c.fieldType.encoding ≠ FieldEncoding.struct) :
    Returns (startValue build data c) (ValueStarted data c) := by
  unfold startValue
  rw [sub_of_le hpos, ok_bind, debugAssert_of hstate, ok_bind, debugAssert_of htype, ok_bind]
  refine Returns.ite (fun h ↦ ?_) (fun _ ↦ Returns.ite (fun h ↦ ?_) (fun _ ↦
    Returns.ite (fun h ↦ ?_) (fun _ ↦ Returns.ite (fun h ↦ ?_) (fun _ ↦
    Returns.ite (fun h ↦ ?_) (fun _ ↦ Returns.ite (fun _ ↦ ?_) (fun _ ↦
    Returns.ite (fun _ ↦ ?_) (fun _ ↦ Returns.ite (fun _ ↦ ?_) (fun _ ↦
    Returns.ite (fun _ ↦ ?_) (fun _ ↦ Returns.ite (fun _ ↦ ?_) (fun _ ↦
    Returns.ite (fun _ ↦ ?_) (fun _ ↦ ?_)))))))))))
  · exact startValueFixedLength_returns hpos (ne_ok_zero_of_eq h (by decide))
  · exact startValueFixedLength_returns hpos (ne_ok_zero_of_eq h (by decide))
  · exact startValueFixedLength_returns hpos (ne_ok_zero_of_eq h (by decide))
  · exact startValueFixedLength_returns hpos (ne_ok_zero_of_eq h (by decide))
  · exact startValueFixedLength_returns hpos (ne_ok_zero_of_eq h (by decide))
  · exact zstring_started (by decide) (by omega) hpos
  · exact zstring_started (by decide) (by omega) hpos
  · exact zstring_started (by decide) (by omega) hpos
  · exact string_started hpos
  · exact string_started hpos
  · exact string_started hpos
  · rw [debugAssert_of hstruct, ok_bind]
    exact Returns.ok (Or.inr ⟨c.dataPosRaw, 0, rfl⟩)

/-! ### Arrays -/

/-- The context at the begin of an array. -/
def atArrayBegin (c : EventHeaderEnumeratorContext) (elementSize : ℕ) :
    EventHeaderEnumeratorContext :=
  (c.withItem c.dataPosRaw elementSize (c.stackTop.arrayCount * elementSize)
    (c.stackTop.arrayCount * elementSize)).setState .arrayBegin .arrayBegin

theorem arrayElementSize_error {encoding : FieldEncoding} {error : EventHeaderEnumeratorError}
    (h : arrayElementSize encoding = .error error) : error ≠ .implementationLimit := by
  unfold arrayElementSize at h
  split_ifs at h <;> cases h <;> decide

/-- `start_array` either stands at the begin of an array whose simple elements lie inside the
event, or ends in an error. -/
theorem startArray_returns (hpos : c.dataPosRaw ≤ data.length) :
    Returns (startArray c data.length) fun result ↦
      (∃ size, arrayElementSize (FieldEncoding.withoutFlags c.fieldType.encoding) = .ok size ∧
          c.dataPosRaw + c.stackTop.arrayCount * size ≤ data.length ∧
          result = (true, c.atArrayBegin size)) ∨
        ∃ size error, error ≠ .implementationLimit ∧
          result = ((c.withItem c.dataPosRaw size 0 0).setState .arrayBegin
            .arrayBegin).setErrorState error := by
  unfold startArray
  dsimp only
  split
  · rename_i error herror
    exact Returns.ok (Or.inr ⟨0, error, arrayElementSize_error herror, rfl⟩)
  · rename_i hsize
    refine Returns.ok (Or.inl ⟨0, hsize, by omega, ?_⟩)
    simp only [atArrayBegin, withItem, setState, Nat.mul_zero]
  · rename_i size _ hsize
    rw [sub_of_le hpos, ok_bind]
    refine Returns.ite (fun _ ↦ ?_) (fun hfits ↦ ?_)
    · exact Returns.ok (Or.inr ⟨size, .invalidData, by decide, rfl⟩)
    · exact Returns.ok (Or.inl ⟨size, hsize, by omega, rfl⟩)

/-- A struct is a complex element. -/
theorem arrayElementSize_struct : arrayElementSize FieldEncoding.struct = .ok 0 := rfl

end EventHeaderEnumeratorContext

end Tracepoints
