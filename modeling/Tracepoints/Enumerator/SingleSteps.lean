import Tracepoints.Enumerator.Bounds
import Tracepoints.Enumerator.JsonWriter

/-!
# Single steps of the enumerator

`move_next_sibling` and the JSON writer pass over items that a caller does not see. `StepReaches`
splits every operation into single steps: a `move_next`, the jump of `move_next_sibling` over an array
of simple elements, a metadata move, a reset. `PropertyCall` is the context with which a `move_next`
calls `next_property`, so that a condition may be asked of every call in a run. Every run of
operations is one of single steps (`EnumeratorReaches.stepReaches`), and so is every call of the JSON
writer (`writeJsonItems_stepReaches`).
-/

set_option autoImplicit false
set_option relaxedAutoImplicit false

namespace Tracepoints

open Exec

namespace EventHeaderEnumeratorContext

/-! ### Calls of `next_property` -/

/-- The context with which a `move_next` calls `next_property`. -/
inductive PropertyCall (build : Build) (data : List UInt8) (c : EventHeaderEnumeratorContext) :
    EventHeaderEnumeratorContext → Prop
  | first (hbudget : c.moveNextRemaining ≠ 0) (hsubstate : c.substate = .beforeFirstItem) :
      PropertyCall build data c c.spend
  | scalar (hbudget : c.moveNextRemaining ≠ 0) (hsubstate : c.substate = .valueScalar) :
      PropertyCall build data c c.spend.pastItem
  | arrayEnd (hbudget : c.moveNextRemaining ≠ 0) (hsubstate : c.substate = .arrayEnd)
      (hnoSkip : ¬(FieldEncoding.withoutFlags c.fieldType.encoding = FieldEncoding.struct ∧
        c.stackTop.arrayCount = 0)) : PropertyCall build data c c.spend
  | skip {skipped : EventHeaderEnumeratorContext} (hbudget : c.moveNextRemaining ≠ 0)
      (hsubstate : c.substate = .arrayEnd)
      (hstruct : FieldEncoding.withoutFlags c.fieldType.encoding = FieldEncoding.struct)
      (hcount : c.stackTop.arrayCount = 0)
      (hskip : skipStructMetadata build data c.spend = .ok (true, skipped)) :
      PropertyCall build data c skipped
  | push (hbudget : c.moveNextRemaining ≠ 0) (hsubstate : c.substate = .structBegin)
      (hroom : c.stackIndex < 8) : PropertyCall build data c (c.spend.pushed hroom)
  | structEnd (hbudget : c.moveNextRemaining ≠ 0) (hsubstate : c.substate = .structEnd)
      (hdone : c.stackTop.arrayCount = c.stackTop.arrayIndex + 1)
      (hscalar : FieldEncoding.isArray c.fieldType.encoding = false) :
      PropertyCall build data c c.spend.nextElement

/-- The contexts that single steps reach from `start`, where one condition holds at every call of
`next_property` and another one before every metadata move. -/
inductive StepReaches (build : Build) (data : List UInt8)
    (condition shown : EventHeaderEnumeratorContext → Prop) (start : EventHeaderEnumeratorContext) :
    EventHeaderEnumeratorContext → Prop
  | refl : StepReaches build data condition shown start start
  | move {c c' : EventHeaderEnumeratorContext} {moved : Bool}
      (hreaches : StepReaches build data condition shown start c) (hmove : c.state.canMoveNext = true)
      (hvalue : c.substate ≠ .valueMetadata)
      (hcalls : ∀ call, PropertyCall build data c call → condition call)
      (hmoved : moveNextImpl build data c = .ok (moved, c')) :
      StepReaches build data condition shown start c'
  | jump {c c' : EventHeaderEnumeratorContext} {moved : Bool}
      (hreaches : StepReaches build data condition shown start c) (hvalue : c.substate ≠ .valueMetadata)
      (hjump : CanJumpArray c) (hcall : condition c.jumped)
      (hmoved : jumpArray build data c = .ok (moved, c')) :
      StepReaches build data condition shown start c'
  | metadata {c c' : EventHeaderEnumeratorContext} {moved : Bool}
      (hreaches : StepReaches build data condition shown start c) (hmove : c.state.canMoveNext = true)
      (hstate : c.state = .beforeFirstItem ∨ c.substate = .valueMetadata) (hshown : shown c)
      (hmoved : moveNextMetadataImpl build data c = .ok (moved, c')) :
      StepReaches build data condition shown start c'
  | reset {c : EventHeaderEnumeratorContext} (hreaches : StepReaches build data condition shown start c)
      (limit : ℕ) : StepReaches build data condition shown start (c.resetImpl limit)

/-- The contexts that single steps reach. -/
def AnyStepReaches (build : Build) (data : List UInt8) :
    EventHeaderEnumeratorContext → EventHeaderEnumeratorContext → Prop :=
  StepReaches build data (fun _ ↦ True) (fun _ ↦ True)

variable {build : Build} {data : List UInt8}
  {condition shown : EventHeaderEnumeratorContext → Prop}
  {start c c' call : EventHeaderEnumeratorContext} {moved : Bool}

/-- A single step calls `next_property` with a context: a `move_next` does, or the jump over an
array. -/
def CallsProperty (build : Build) (data : List UInt8) (c call : EventHeaderEnumeratorContext) :
    Prop :=
  PropertyCall build data c call ∨ c.substate ≠ .valueMetadata ∧ CanJumpArray c ∧ call = c.jumped

/-- A call of `next_property` is made where its context is positioned. -/
theorem PropertyCall.positioned (hcall : PropertyCall build data c call)
    (h : EnumeratorInv data c) : Positioned data call := by
  have hitem := h.item
  unfold ItemInv at hitem
  cases hcall with
  | first => exact h.positioned.spend
  | scalar _ hsubstate =>
    simp only [hsubstate] at hitem
    exact h.positioned.spend.pastItem hitem.raw_le
  | arrayEnd => exact h.positioned.spend
  | skip _ _ hstruct _ hskip =>
    have hskipped := (skipStructMetadata_returns build h.positioned.spend hstruct).of_eq_ok hskip
    rcases hskipped with ⟨nameOffset, nameLen, nextOffset, hge, hle, heq⟩ | ⟨_, _, heq⟩
    · obtain ⟨_, rfl⟩ := Prod.mk.inj heq
      exact h.positioned.spend.withCursor (h.positioned.nextOffset_ge.trans hge) hle
    · cases heq
  | push _ hsubstate hroom =>
    simp only [hsubstate] at hitem
    obtain ⟨_, hitem⟩ := hitem
    exact h.positioned.spend.pushed { hitem with } hroom
  | structEnd => exact h.positioned.spend.nextElement

/-- A `move_next` with budget left is a match on the substate. -/
theorem moveNextImpl_of_budget (hmove : c.state.canMoveNext = true)
    (hbudget : c.moveNextRemaining ≠ 0) :
    moveNextImpl build data c = moveNextSubstate build data c.spend := by
  unfold moveNextImpl
  rw [debugAssert_of hmove, ok_bind, if_neg hbudget]
  rfl

/-- A `move_next` that calls `next_property` returns what that returns. -/
theorem PropertyCall.moveNextImpl_eq (hcall : PropertyCall build data c call)
    (h : EnumeratorInv data c) (hmove : c.state.canMoveNext = true) :
    moveNextImpl build data c = nextProperty build data call := by
  have hitem := h.item
  unfold ItemInv at hitem
  have hspend : c.spend.substate = c.substate := rfl
  cases hcall with
  | first hbudget hsubstate =>
    simp only [hsubstate] at hitem
    rw [moveNextImpl_of_budget hmove hbudget, moveNextSubstate, hspend, hsubstate]
    dsimp only
    rw [debugAssert_of (by exact hitem), ok_bind]
  | scalar hbudget hsubstate =>
    simp only [hsubstate] at hitem
    have hpos := h.positioned.dataPosRaw_le
    have hraw := hitem.raw_le
    have hrange : ValueInRange data c.spend := by
      refine ⟨hpos, ?_⟩
      change c.itemSizeRaw ≤ data.length - c.dataPosRaw
      omega
    rw [moveNextImpl_of_budget hmove hbudget, moveNextSubstate, hspend, hsubstate]
    dsimp only
    unfold moveNextValueScalar
    rw [debugAssert_of (by exact hitem.state_eq), ok_bind,
      debugAssert_of (by exact hitem.notStruct), ok_bind,
      debugAssert_of (by rw [Bool.not_eq_true]; exact hitem.scalar), ok_bind,
      debugAssert_of hrange, ok_bind]
    rfl
  | arrayEnd hbudget hsubstate hnoSkip =>
    simp only [hsubstate] at hitem
    rw [moveNextImpl_of_budget hmove hbudget, moveNextSubstate, hspend, hsubstate]
    dsimp only
    unfold moveNextArrayEnd
    rw [debugAssert_of (by exact hitem.state_eq), ok_bind, debugAssert_of (by exact hitem.array),
      ok_bind, debugAssert_of (by exact hitem.count_eq), ok_bind, if_neg (by exact hnoSkip)]
  | skip hbudget hsubstate hstruct hcount hskip =>
    simp only [hsubstate] at hitem
    rw [moveNextImpl_of_budget hmove hbudget, moveNextSubstate, hspend, hsubstate]
    dsimp only
    unfold moveNextArrayEnd
    rw [debugAssert_of (by exact hitem.state_eq), ok_bind, debugAssert_of (by exact hitem.array),
      ok_bind, debugAssert_of (by exact hitem.count_eq), ok_bind,
      if_pos (by exact ⟨hstruct, hcount⟩), hskip, ok_bind]
    rfl
  | push hbudget hsubstate hroom =>
    simp only [hsubstate] at hitem
    rw [moveNextImpl_of_budget hmove hbudget, moveNextSubstate, hspend, hsubstate]
    dsimp only
    unfold moveNextStructBegin
    rw [debugAssert_of (by exact hitem.1), ok_bind, if_neg (by exact not_le.mpr hroom),
      dif_pos (by exact hroom)]
    rfl
  | structEnd hbudget hsubstate hdone hscalar =>
    simp only [hsubstate] at hitem
    obtain ⟨hstate, hitem⟩ := hitem
    rw [moveNextImpl_of_budget hmove hbudget, moveNextSubstate, hspend, hsubstate]
    dsimp only
    unfold moveNextStructEnd
    rw [debugAssert_of (by exact hstate), ok_bind, debugAssert_of (by exact hitem.isStruct), ok_bind,
      debugAssert_of (by exact hitem.raw_eq), ok_bind]
    dsimp only
    rw [if_neg (by exact not_not.mpr hdone), if_neg (by rw [Bool.not_eq_true]; exact hscalar)]
    rfl

/-- The jump over an array is a call of `next_property` behind it. -/
theorem jumpArray_eq (h : EnumeratorInv data c) (hvalue : c.substate ≠ .valueMetadata)
    (hjump : CanJumpArray c) : jumpArray build data c = nextProperty build data c.jumped := by
  obtain ⟨hstate, hcan⟩ := hjump
  obtain ⟨hsize, _⟩ := not_or.mp hcan
  obtain ⟨hsubstate, hitem⟩ := h.arrayBegin hstate hvalue
  unfold jumpArray
  rw [debugAssert_of hsubstate, ok_bind, debugAssert_of (hitem.notStruct hsize), ok_bind,
    debugAssert_of hitem.array, ok_bind, debugAssert_of hitem.index_eq, ok_bind]
  rfl

/-! ### Runs of single steps -/

/-- Along every run of single steps the invariant holds and the event stays the same. -/
theorem EnumeratorInv.stepReaches (h : EnumeratorInv data start)
    (hreaches : StepReaches build data condition shown start c) :
    EnumeratorInv data c ∧ c.frame = start.frame := by
  induction hreaches with
  | refl => exact ⟨h, rfl⟩
  | move _ hmove hvalue _ hmoved ih =>
    have hstep := ((moveNextImpl_returns ih.1 hmove hvalue).of_eq_ok hmoved).moved ih.1
    exact ⟨hstep.inv, hstep.frame_eq.trans ih.2⟩
  | jump _ hvalue hjump _ hmoved ih =>
    obtain ⟨_, hstep⟩ := (jumpArray_returns ih.1 hvalue hjump).of_eq_ok hmoved
    exact ⟨hstep.inv, hstep.frame_eq.trans ih.2⟩
  | metadata _ _ hstate _ hmoved ih =>
    have hstep := (moveNextMetadataImpl_returns ih.1 hstate).of_eq_ok hmoved
    exact ⟨hstep.inv, hstep.frame_eq.trans ih.2⟩
  | reset _ limit ih => exact ⟨ih.1.resetImpl limit, ih.2⟩

/-- A call of `next_property` in a run is made where its context is positioned. -/
theorem CallsProperty.positioned (hcall : CallsProperty build data c call)
    (h : EnumeratorInv data c) : Positioned data call := by
  rcases hcall with hcall | ⟨hvalue, hjump, rfl⟩
  · exact hcall.positioned h
  · exact h.positioned.jumped (h.arrayBegin hjump.1 hvalue).2

/-- The loop of `move_next_sibling` makes single steps. Assumes: an accepted start. -/
theorem moveNextSiblingLoop_stepReaches (h : EnumeratorInv data start) (fuel : ℕ) (depth : ℤ)
    (hreaches : AnyStepReaches build data start c)
    (hmove : c.state.canMoveNext = true) (hvalue : c.substate ≠ .valueMetadata)
    (hmoved : moveNextSiblingLoop build data fuel depth c = .ok (moved, c')) :
    AnyStepReaches build data start c' := by
  induction fuel generalizing depth c with
  | zero => cases hmoved
  | succ fuel ih =>
    have hinv := (h.stepReaches hreaches).1
    rw [moveNextSiblingLoop] at hmoved
    by_cases hjump : CanJumpArray c
    · rw [if_pos hjump] at hmoved
      obtain ⟨⟨more, next⟩, hnext, hmoved⟩ := bind_eq_ok.mp hmoved
      have hstep := (jumpArray_returns hinv hvalue hjump).of_eq_ok hnext
      have hnextReaches : AnyStepReaches build data start next :=
        StepReaches.jump hreaches hvalue hjump trivial hnext
      dsimp only at hmoved
      split_ifs at hmoved with hdone
      · obtain ⟨_, rfl⟩ := Prod.mk.inj (Except.ok.inj hmoved)
        exact hnextReaches
      · have hmore : more = true := by simpa using (not_or.mp hdone).1
        exact ih depth hnextReaches (hstep.2.stops.trans hmore) hstep.2.value hmoved
    · rw [if_neg hjump] at hmoved
      obtain ⟨⟨more, next⟩, hnext, hmoved⟩ := bind_eq_ok.mp hmoved
      have hstep := ((moveNextImpl_returns hinv hmove hvalue).of_eq_ok hnext).moved hinv
      have hnextReaches : AnyStepReaches build data start next :=
        StepReaches.move hreaches hmove hvalue (fun _ _ ↦ trivial) hnext
      dsimp only at hmoved
      split_ifs at hmoved with hdone
      · obtain ⟨_, rfl⟩ := Prod.mk.inj (Except.ok.inj hmoved)
        exact hnextReaches
      · have hmore : more = true := by simpa using (not_or.mp hdone).1
        exact ih _ hnextReaches (hstep.stops.trans hmore) hstep.value hmoved

theorem moveNextSiblingImpl_stepReaches (h : EnumeratorInv data start)
    (hreaches : AnyStepReaches build data start c)
    (hmove : c.state.canMoveNext = true) (hvalue : c.substate ≠ .valueMetadata)
    (hmoved : moveNextSiblingImpl build data c = .ok (moved, c')) :
    AnyStepReaches build data start c' := by
  unfold moveNextSiblingImpl at hmoved
  rw [debugAssert_of hmove, ok_bind] at hmoved
  exact moveNextSiblingLoop_stepReaches h _ _ hreaches hmove hvalue hmoved

/-- Every run of operations is one of single steps. Assumes: an accepted start. -/
theorem EnumeratorReaches.stepReaches (h : EnumeratorInv data start)
    (hreaches : EnumeratorReaches build data start c) :
    AnyStepReaches build data start c := by
  induction hreaches with
  | refl => exact StepReaches.refl
  | @step c c' op result _ hop happly ih =>
    cases op with
    | moveNext => exact StepReaches.move ih hop.1 hop.2 (fun _ _ ↦ trivial) happly
    | moveNextSibling => exact moveNextSiblingImpl_stepReaches h ih hop.1 hop.2 happly
    | moveNextMetadata => exact StepReaches.metadata ih hop.1 hop.2 trivial happly
    | reset =>
      obtain ⟨_, rfl⟩ := Prod.mk.inj (Except.ok.inj happly)
      exact StepReaches.reset ih _
    | resetWithLimit limit =>
      obtain ⟨_, rfl⟩ := Prod.mk.inj (Except.ok.inj happly)
      exact StepReaches.reset ih limit

/-- The loop of the JSON writer makes single steps. Assumes: an accepted start. -/
theorem writeJsonLoop_stepReaches {writers : ValueWriters} {simpleArrays : Bool}
    (h : EnumeratorInv data start) (fuel : ℕ) {depth : ℤ} {wantName : Bool} {json : JsonWriter}
    {written : Option Bool × JsonWriter × EventHeaderEnumeratorContext}
    (hreaches : AnyStepReaches build data start c)
    (hmove : c.state.canMoveNext = true) (hvalue : c.substate ≠ .valueMetadata)
    (hwritten : writeJsonLoop build data writers simpleArrays fuel depth wantName json c =
      .ok written) :
    AnyStepReaches build data start written.2.2 := by
  induction fuel generalizing depth wantName json c with
  | zero => cases hwritten
  | succ fuel ih =>
    have hinv := (h.stepReaches hreaches).1
    rw [writeJsonLoop] at hwritten
    obtain ⟨item, _, hwritten⟩ := bind_eq_ok.mp hwritten
    cases item with
    | invalid =>
      obtain rfl := Except.ok.inj hwritten
      exact hreaches
    | array json =>
      obtain ⟨⟨more, next⟩, hnext, hwritten⟩ := bind_eq_ok.mp hwritten
      have hstep := (moveNextSiblingImpl_returns hinv hmove hvalue).of_eq_ok hnext
      have hnextReaches := moveNextSiblingImpl_stepReaches h hreaches hmove hvalue hnext
      dsimp only at hwritten
      split_ifs at hwritten with hdone
      · obtain rfl := Except.ok.inj hwritten
        exact hnextReaches
      · have hmore : more = true := by simpa using (not_or.mp hdone).1
        exact ih hnextReaches (hstep.stops.trans hmore) hstep.value hwritten
    | item json =>
      obtain ⟨⟨more, next⟩, hnext, hwritten⟩ := bind_eq_ok.mp hwritten
      have hstep := ((moveNextImpl_returns hinv hmove hvalue).of_eq_ok hnext).moved hinv
      have hnextReaches : AnyStepReaches build data start next :=
        StepReaches.move hreaches hmove hvalue (fun _ _ ↦ trivial) hnext
      dsimp only at hwritten
      split_ifs at hwritten with hdone
      · obtain rfl := Except.ok.inj hwritten
        exact hnextReaches
      · have hmore : more = true := by simpa using (not_or.mp hdone).1
        exact ih hnextReaches (hstep.stops.trans hmore) hstep.value hwritten

/-- A call of the JSON writer makes single steps. Assumes: an accepted start. -/
theorem writeJsonItems_stepReaches {writers : ValueWriters} {simpleArrays comma : Bool}
    {dest : List UInt8} {options : PerfConvertOptions}
    {written : Option Bool × JsonWriter × EventHeaderEnumeratorContext}
    (h : EnumeratorInv data start) (hreaches : AnyStepReaches build data start c)
    (hmove : c.state.canMoveNext = true) (hvalue : c.substate ≠ .valueMetadata)
    (hwritten : writeJsonItems build data writers simpleArrays dest comma options c = .ok written) :
    AnyStepReaches build data start written.2.2 := by
  unfold writeJsonItems at hwritten
  rw [debugAssert_of hmove, ok_bind] at hwritten
  exact writeJsonLoop_stepReaches h _ hreaches hmove hvalue hwritten

end EventHeaderEnumeratorContext

end Tracepoints
