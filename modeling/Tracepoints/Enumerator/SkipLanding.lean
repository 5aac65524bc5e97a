import Tracepoints.Enumerator.Fresh
import Tracepoints.Enumerator.SingleSteps
import Tracepoints.Enumerator.StructArray

/-!
# Where skipping an empty array of structs lands

A move from the end of an empty array of structs skips the fields of the struct with one counter, a
byte, where a traversal keeps a stack of counters. `skipStructMetadata_lands_iff` says that the skip
returns, and lands where the traversals of non-empty arrays of the same field end, exactly where the
counter stays a byte (`counterFits`). The events compared have the same metadata and any data:
`definitionAt_take` says that field definitions are read from the metadata alone.
-/

set_option autoImplicit false
set_option relaxedAutoImplicit false

namespace Tracepoints

open Exec

/-! ### Definitions are read from the metadata -/

section Metadata

variable {order : ByteOrder} {data : List UInt8} {metaEnd : ℕ}

theorem nulAt_take (offset : ℕ) : nulAt (data.take metaEnd) offset metaEnd =
    nulAt data offset metaEnd := by
  unfold nulAt
  rw [List.drop_take, List.take_take, Nat.min_self]

theorem getD_take {offset : ℕ} (h : offset < metaEnd) :
    (data.take metaEnd).getD offset 0 = data.getD offset 0 := by
  rw [List.getD_eq_getElem?_getD, List.getD_eq_getElem?_getD, List.getElem?_take_of_lt h]

/-- Assumes: a type that starts inside the metadata. -/
theorem typeAt_take {offset : ℕ} (h : offset < metaEnd) :
    typeAt order (data.take metaEnd) metaEnd offset = typeAt order data metaEnd offset := by
  unfold typeAt
  dsimp only
  rw [getD_take h]
  by_cases hchain : FieldEncoding.hasChainFlag (data.getD offset 0) = true
  · rw [if_pos hchain, if_pos hchain]
    by_cases hlast : metaEnd = offset + 1
    · rw [if_pos hlast, if_pos hlast]
    · rw [if_neg hlast, if_neg hlast, getD_take (by omega)]
      by_cases htag : FieldFormat.hasChainFlag (data.getD (offset + 1) 0) = true
      · rw [if_pos htag, if_pos htag]
        by_cases hcut : metaEnd - (offset + 2) < 2
        · rw [if_pos hcut, if_pos hcut]
        · rw [if_neg hcut, if_neg hcut, List.drop_take, List.take_take,
            Nat.min_eq_left (Nat.le_of_not_lt hcut)]
      · rw [if_neg htag, if_neg htag]
  · rw [if_neg hchain, if_neg hchain]

/-- A complete field definition is read from the metadata. -/
theorem definitionAt_take (offset : ℕ) :
    definitionAt order (data.take metaEnd) metaEnd offset =
      definitionAt order data metaEnd offset := by
  have hfield : fieldAt order (data.take metaEnd) metaEnd offset =
      fieldAt order data metaEnd offset := by
    unfold fieldAt
    dsimp only
    rw [nulAt_take]
    by_cases hcut : metaEnd - nulAt data offset metaEnd < 2
    · rw [if_pos hcut, if_pos hcut]
    · rw [if_neg hcut, if_neg hcut, typeAt_take (by omega)]
  unfold definitionAt
  rw [hfield]

theorem skipFields_take (count offset : ℕ) :
    skipFields order (data.take metaEnd) metaEnd count offset =
      skipFields order data metaEnd count offset := by
  induction hsize : metaEnd - offset using Nat.strong_induction_on generalizing count offset with
  | _ size ih =>
    by_cases hdone : count = 0 ∨ offset = metaEnd
    · rw [skipFields_of_done hdone, skipFields_of_done hdone]
    · obtain ⟨hcount, hoffset⟩ := not_or.mp hdone
      obtain ⟨count, rfl⟩ := Nat.exists_eq_succ_of_ne_zero hcount
      cases hdef : definitionAt order data metaEnd offset with
      | none =>
        rw [skipFields_of_none hoffset hdef,
          skipFields_of_none hoffset ((definitionAt_take offset).trans hdef)]
      | some field =>
        have hbounds := definitionAt_bounds hdef
        rw [skipFields_of_definitionAt hoffset hdef,
          skipFields_of_definitionAt hoffset ((definitionAt_take offset).trans hdef)]
        exact ih (metaEnd - field.definitionEnd) (by omega) _ _ rfl

/-- Events with the same metadata have their fields at the same places. -/
theorem skipFields_congr {data' : List UInt8} (h : data'.take metaEnd = data.take metaEnd)
    (count offset : ℕ) :
    skipFields order data' metaEnd count offset = skipFields order data metaEnd count offset := by
  rw [← skipFields_take, h, skipFields_take]

theorem definitionAt_congr {data' : List UInt8} (h : data'.take metaEnd = data.take metaEnd)
    (offset : ℕ) :
    definitionAt order data' metaEnd offset = definitionAt order data metaEnd offset := by
  rw [← definitionAt_take, h, definitionAt_take]

end Metadata

section Grammar

variable (order : ByteOrder) (data : List UInt8) (metaEnd : ℕ)

/-- Every definition among a number of fields and all they contain is complete, and none has the
reserved array encoding. -/
def fieldsComplete (count offset : ℕ) : Bool :=
  if count = 0 ∨ offset = metaEnd then true
  else
    match h : definitionAt order data metaEnd offset with
    | none => false
    | some field =>
      !field.fieldType.isReserved &&
        fieldsComplete (count - 1 + field.fieldType.childCount) field.definitionEnd
termination_by metaEnd - offset
decreasing_by
  have hbounds := definitionAt_bounds h
  omega

end Grammar

variable {order : ByteOrder} {data : List UInt8} {metaEnd : ℕ}

/-- The first of some complete fields. -/
theorem fieldsComplete_succ {count offset : ℕ} (hoffset : offset ≠ metaEnd)
    (h : fieldsComplete order data metaEnd (count + 1) offset = true) :
    ∃ field, definitionAt order data metaEnd offset = some field ∧
      field.fieldType.isReserved = false ∧
      fieldsComplete order data metaEnd (count + field.fieldType.childCount)
        field.definitionEnd = true := by
  rw [fieldsComplete, if_neg (by simp [hoffset])] at h
  split at h
  · cases h
  · rename_i field hfield
    rw [Bool.and_eq_true, Bool.not_eq_true'] at h
    exact ⟨field, hfield, h.1, h.2⟩

/-- Complete fields can be skipped. -/
theorem skipFields_of_complete {count offset : ℕ}
    (h : fieldsComplete order data metaEnd count offset = true) :
    ∃ stop, skipFields order data metaEnd count offset = some stop := by
  induction hsize : metaEnd - offset using Nat.strong_induction_on generalizing count offset with
  | _ size ih =>
    by_cases hdone : count = 0 ∨ offset = metaEnd
    · exact ⟨offset, skipFields_of_done hdone⟩
    · obtain ⟨hcount, hoffset⟩ := not_or.mp hdone
      obtain ⟨count, rfl⟩ := Nat.exists_eq_succ_of_ne_zero hcount
      obtain ⟨field, hdef, _, hrest⟩ := fieldsComplete_succ hoffset h
      have hbounds := definitionAt_bounds hdef
      rw [skipFields_of_definitionAt hoffset hdef]
      exact ih (metaEnd - field.definitionEnd) (by omega) hrest rfl

theorem counterFits_of_done {count offset : ℕ} (h : count = 0 ∨ offset = metaEnd) :
    counterFits order data metaEnd count offset = true := by
  rw [counterFits, if_pos h]

theorem counterFits_succ {count offset : ℕ} {field : FieldDef} (hoffset : offset ≠ metaEnd)
    (hdef : definitionAt order data metaEnd offset = some field)
    (hlt : count + 1 + field.fieldType.childCount < 256)
    (hrest : counterFits order data metaEnd (count + field.fieldType.childCount)
      field.definitionEnd = true) :
    counterFits order data metaEnd (count + 1) offset = true := by
  rw [counterFits, if_neg (by simp [hoffset])]
  split
  · rfl
  · rename_i other hother
    rw [hdef] at hother
    obtain rfl := Option.some.inj hother
    rw [Bool.and_eq_true, decide_eq_true_eq]
    exact ⟨hlt, hrest⟩

namespace EventHeaderEnumeratorContext

variable {build : Build} {c c' : EventHeaderEnumeratorContext}

/-! ### The skip -/

/-- Assumes: complete fields, and a counter that stays a byte. The skip returns, behind the fields. -/
theorem skipStructMetadataLoop_lands (fuel : ℕ) {remaining : ℕ} (h : Positioned data c)
    (hfuel : c.metaEnd - c.stackTop.nextOffset ≤ fuel)
    (hcomplete : fieldsComplete c.byteReader data c.metaEnd remaining c.stackTop.nextOffset = true)
    (hfits : counterFits c.byteReader data c.metaEnd remaining c.stackTop.nextOffset = true) :
    ∃ nameOffset nameLen stop,
      skipStructMetadataLoop build data fuel remaining c =
        .ok (true, c.withCursor nameOffset nameLen stop) ∧
      skipFields c.byteReader data c.metaEnd remaining c.stackTop.nextOffset = some stop := by
  induction fuel generalizing remaining c with
  | zero =>
    have hle := h.nextOffset_le
    have hdone : remaining = 0 ∨ c.stackTop.nextOffset = c.metaEnd := .inr (by omega)
    refine ⟨c.stackTop.nameOffset, c.stackTop.nameLen, c.stackTop.nextOffset, ?_,
      skipFields_of_done hdone⟩
    rw [skipStructMetadataLoop, if_pos hdone]
    rfl
  | succ fuel ih =>
    have hge := h.nextOffset_ge
    by_cases hdone : remaining = 0 ∨ c.stackTop.nextOffset = c.metaEnd
    · refine ⟨c.stackTop.nameOffset, c.stackTop.nameLen, c.stackTop.nextOffset, ?_,
        skipFields_of_done hdone⟩
      rw [skipStructMetadataLoop, if_pos hdone]
      rfl
    · obtain ⟨hremaining, hnext⟩ := not_or.mp hdone
      obtain ⟨count, rfl⟩ := Nat.exists_eq_succ_of_ne_zero hremaining
      obtain ⟨field, hdef, hreserved, hrest⟩ := fieldsComplete_succ hnext hcomplete
      obtain ⟨hlt, hfits'⟩ := counterFits_of_definitionAt hnext hdef hfits
      have hbounds := definitionAt_bounds hdef
      have hpos : Positioned data
          (c.withCursor c.stackTop.nextOffset field.nameLen field.definitionEnd) :=
        h.withCursor (by omega) hbounds.2
      obtain ⟨nameOffset, nameLen, stop, hskip, hstop⟩ := ih hpos
        (by dsimp only [withCursor]; omega) hrest hfits'
      refine ⟨nameOffset, nameLen, stop, ?_, ?_⟩
      · rw [skipStructMetadataLoop_step fuel h hremaining hnext hdef hreserved,
          addStructFields_of_lt hlt, ok_bind, Nat.add_right_comm, subU8_succ, ok_bind]
        exact hskip
      · rw [skipFields_of_definitionAt hnext hdef]
        exact hstop

/-- In a build that checks for overflows, a skip that returns kept its counter a byte. Assumes:
complete fields. -/
theorem counterFits_of_skip (fuel : ℕ) {remaining : ℕ} (hchecked : build.debugAssertions = true)
    (h : Positioned data c)
    (hcomplete : fieldsComplete c.byteReader data c.metaEnd remaining c.stackTop.nextOffset = true)
    (hbyte : remaining < 256)
    (hskip : skipStructMetadataLoop build data fuel remaining c = .ok (true, c')) :
    counterFits c.byteReader data c.metaEnd remaining c.stackTop.nextOffset = true := by
  induction fuel generalizing remaining c with
  | zero =>
    rw [skipStructMetadataLoop] at hskip
    split_ifs at hskip with hdone
    exact counterFits_of_done hdone
  | succ fuel ih =>
    have hge := h.nextOffset_ge
    by_cases hdone : remaining = 0 ∨ c.stackTop.nextOffset = c.metaEnd
    · exact counterFits_of_done hdone
    · obtain ⟨hremaining, hnext⟩ := not_or.mp hdone
      obtain ⟨count, rfl⟩ := Nat.exists_eq_succ_of_ne_zero hremaining
      obtain ⟨field, hdef, hreserved, hrest⟩ := fieldsComplete_succ hnext hcomplete
      have hbounds := definitionAt_bounds hdef
      rw [skipStructMetadataLoop_step fuel h hremaining hnext hdef hreserved] at hskip
      obtain ⟨total, htotal, hskip⟩ := bind_eq_ok.mp hskip
      have hlt : count + 1 + field.fieldType.childCount < 256 := by
        unfold addStructFields FieldType.childCount addU8 at *
        split_ifs at htotal ⊢ with hstruct hfits
        · exact hfits
        · omega
      rw [addStructFields_of_lt hlt] at htotal
      obtain rfl := Except.ok.inj htotal
      rw [Nat.add_right_comm, subU8_succ, ok_bind] at hskip
      have hpos : Positioned data
          (c.withCursor c.stackTop.nextOffset field.nameLen field.definitionEnd) :=
        h.withCursor (by omega) hbounds.2
      exact counterFits_succ hnext hdef hlt (ih hpos hrest (by omega) hskip)

/-! ### The end of an empty array -/

/-- At the end of an empty array the metadata cursor is behind the definition of the field. -/
def EmptyEnd (data : List UInt8) (c : EventHeaderEnumeratorContext) : Prop :=
  c.substate = .arrayEnd → c.stackTop.arrayCount = 0 → ∃ field, AtDefinition data c field

/-- `next_property` does not lead to the end of an array. -/
theorem PropertyStep.emptyEnd {result : Bool × EventHeaderEnumeratorContext}
    (hstep : PropertyStep data c result) : EmptyEnd data result.2 := by
  intro hsubstate
  cases hstep with
  | field _ _ hfield =>
    cases hfield with
    | value => cases hsubstate
    | struct => cases hsubstate
    | variableArray => cases hsubstate
    | constantArray => cases hsubstate
    | failed hfailed => cases hfailed.substate_eq.symm.trans hsubstate
  | pop => cases hsubstate
  | trailing => cases hsubstate
  | finished => cases hsubstate

theorem ValueStarted.emptyEnd {result : Bool × EventHeaderEnumeratorContext}
    (hstarted : ValueStarted data c result) (hvalue : c.substate ≠ .arrayEnd) :
    EmptyEnd data result.2 := by
  intro hsubstate
  rcases hstarted with ⟨_, _, _, _, _, _, _, rfl⟩ | ⟨_, _, rfl⟩
  · exact absurd hsubstate hvalue
  · cases hsubstate

/-- Assumes: the invariant. -/
theorem MoveStep.emptyEnd {result : Bool × EventHeaderEnumeratorContext}
    (h : EnumeratorInv data c) (hstep : MoveStep build data c result) :
    EmptyEnd data result.2 := by
  have hitem := h.item
  unfold ItemInv at hitem
  cases hstep with
  | exhausted => exact fun hsubstate ↦ nomatch hsubstate
  | first _ _ hstep => exact hstep.emptyEnd
  | scalar _ _ hstep => exact hstep.emptyEnd
  | simpleNext => exact fun hsubstate ↦ nomatch hsubstate
  | elementsDone _ _ hdone =>
    intro _ hcount
    have hzero : c.stackTop.arrayCount = 0 := hcount
    omega
  | complexNext _ hsubstate _ hstarted =>
    refine ValueStarted.emptyEnd hstarted ?_
    change c.substate ≠ .arrayEnd
    rw [hsubstate]
    decide
  | arrayEmpty _ hsubstate =>
    intro _ _
    simp only [hsubstate] at hitem
    obtain ⟨field, hfield⟩ := hitem.definition
    exact ⟨field, hfield.definition, hfield.nameLen_eq, hfield.fieldType_eq, hfield.next_eq⟩
  | simpleFirst => exact fun hsubstate ↦ nomatch hsubstate
  | complexFirst _ _ _ _ _ hstarted =>
    refine ValueStarted.emptyEnd hstarted ?_
    exact fun hsubstate ↦ nomatch hsubstate
  | structFirst => exact fun hsubstate ↦ nomatch hsubstate
  | arrayEnd _ _ _ hstep => exact hstep.emptyEnd
  | skip _ _ _ _ _ _ _ hstep => exact hstep.emptyEnd
  | skipFailed _ _ hfailed =>
    intro hsubstate
    cases hfailed.substate_eq.symm.trans hsubstate
  | stackOverflow => exact fun hsubstate ↦ nomatch hsubstate
  | push _ _ _ hstep => exact hstep.emptyEnd
  | structNext => exact fun hsubstate ↦ nomatch hsubstate
  | structsDone _ _ hdone =>
    intro _ hcount
    have hzero : c.stackTop.arrayCount = 0 := hcount
    omega
  | structEnd _ _ _ _ hstep => exact hstep.emptyEnd

/-- Metadata enumeration does not lead to the end of an array. -/
theorem moveNextMetadataImpl_emptyEnd {moved : Bool}
    (hmoved : moveNextMetadataImpl build data c = .ok (moved, c')) : EmptyEnd data c' := by
  have hleaves {moved : Bool} {next : EventHeaderEnumeratorContext}
      (hnext : next.substate ≠ .arrayEnd) :
      ReturnsUnless (fun _ ↦ True) (.ok (moved, next)) fun result :
        Bool × EventHeaderEnumeratorContext ↦ result.2.substate ≠ .arrayEnd :=
    .of_returns (Returns.ok hnext)
  suffices hsubstate : ReturnsUnless (fun _ ↦ True) (moveNextMetadataImpl build data c)
      fun result ↦ result.2.substate ≠ .arrayEnd from
    fun hend ↦ absurd hend (hsubstate.of_eq_ok hmoved)
  unfold moveNextMetadataImpl
  refine .bind (.any _) fun first _ ↦ .bind (.any _) fun _ _ ↦ .ite (fun _ ↦ ?_)
    fun _ ↦ hleaves fun h ↦ nomatch h
  unfold nextFieldMetadata
  refine .bind (.any _) fun field _ ↦ .ite (fun _ ↦ hleaves fun h ↦ nomatch h) fun _ ↦
    .ite (fun _ ↦ hleaves fun h ↦ nomatch h) fun _ ↦ .ite (fun _ ↦ hleaves fun h ↦ nomatch h)
      fun _ ↦ .ite (fun _ ↦ hleaves fun h ↦ nomatch h) fun _ ↦ .ite (fun _ ↦ ?_)
        fun _ ↦ hleaves fun h ↦ nomatch h
  refine .bind (.any _) fun room _ ↦ .ite (fun _ ↦ hleaves fun h ↦ nomatch h) fun _ ↦ ?_
  exact .bind (.any _) fun count _ ↦ .ite (fun _ ↦ hleaves fun h ↦ nomatch h)
    fun _ ↦ hleaves fun h ↦ nomatch h

/-- In every run of single steps. Assumes: an accepted start. -/
theorem emptyEnd_of_stepReaches {condition shown : EventHeaderEnumeratorContext → Prop}
    {start : EventHeaderEnumeratorContext} (h : EnumeratorInv data start)
    (hstart : start.substate = .beforeFirstItem)
    (hreaches : StepReaches build data condition shown start c) : EmptyEnd data c := by
  cases hreaches with
  | refl =>
    intro hsubstate
    cases hstart.symm.trans hsubstate
  | move hreaches hmove hvalue _ hmoved =>
    have hinv := (h.stepReaches hreaches).1
    exact ((moveNextImpl_returns hinv hmove hvalue).of_eq_ok hmoved).emptyEnd hinv
  | jump hreaches hvalue hjump _ hmoved =>
    have hinv := (h.stepReaches hreaches).1
    exact ((jumpArray_returns hinv hvalue hjump).of_eq_ok hmoved).1.emptyEnd
  | metadata _ _ _ _ hmoved => exact moveNextMetadataImpl_emptyEnd hmoved
  | reset => exact fun hsubstate ↦ nomatch hsubstate

/-! ### Skips and traversals -/

/-- The skip returns in every build, with the metadata cursor at `stop`. -/
def LandsAt (data : List UInt8) (c : EventHeaderEnumeratorContext) (stop : ℕ) : Prop :=
  ∀ build, ∃ c', skipStructMetadata build data c = .ok (true, c') ∧ c'.stackTop.nextOffset = stop

/-- Every traversal of a non-empty array of the field of `c`, in any event with the same metadata,
ends with the metadata cursor at `stop`. -/
def TraversalsEndAt (data : List UInt8) (c : EventHeaderEnumeratorContext) (stop : ℕ) : Prop :=
  ∀ (build : Build) (context : EventHeaderEnumeratorContext) (tracepointName data' : List UInt8)
    (limit : ℕ) (start first last : EventHeaderEnumeratorContext)
    (inner : List EventHeaderEnumeratorContext),
    enumerateWithNameAndData data' context tracepointName limit = .ok (.ok (), start) →
    EnumeratorReaches build data' start first →
    first.byteReader = c.byteReader → first.metaEnd = c.metaEnd →
    data'.take c.metaEnd = data.take c.metaEnd →
    first.stackTop.nameOffset = c.stackTop.nameOffset →
    first.substate = .arrayBegin → 1 ≤ first.stackTop.arrayCount →
    MoveRun build data' first inner last →
    (∀ item ∈ first :: inner, Regular data' item) →
    (∀ item ∈ inner.dropLast, ¬isArrayEndAt first.stackIndex item) →
    isArrayEndAt first.stackIndex last →
      last.stackTop.nextOffset = stop

/-- The skip lands behind the fields of the struct, where traversals end. -/
def SkipLands (data : List UInt8) (c : EventHeaderEnumeratorContext) : Prop :=
  ∃ stop, skipFields c.byteReader data c.metaEnd c.fieldType.format.toNat c.stackTop.nextOffset =
      some stop ∧
    LandsAt data c stop ∧ TraversalsEndAt data c stop

/-- Traversals of the field of an empty array end behind the fields of its struct. -/
theorem AtDefinition.traversalsEndAt {field : FieldDef} {stop : ℕ} (hdef : AtDefinition data c field)
    (hstruct : FieldEncoding.withoutFlags c.fieldType.encoding = FieldEncoding.struct)
    (hstop : skipFields c.byteReader data c.metaEnd c.fieldType.format.toNat
      c.stackTop.nextOffset = some stop) : TraversalsEndAt data c stop := by
  intro build context tracepointName data' limit start first last inner haccept hreaches hreader
    hmetaEnd htake hname hbegin hcount hrun hregular hinner hlast
  obtain ⟨hstart, _⟩ :=
    (enumerateWithNameAndData_returns tracepointName limit).of_eq_ok haccept rfl
  obtain ⟨hinv, _⟩ := hstart.reaches hreaches
  have hitem := hinv.item
  unfold ItemInv at hitem
  simp only [hbegin] at hitem
  obtain ⟨other, hother⟩ := hitem.definition
  have hsame : other = field := by
    have hdefinition := hother.definition
    rw [hreader, hmetaEnd, hname, definitionAt_congr htake, hdef.definition] at hdefinition
    exact (Option.some.inj hdefinition).symm
  subst hsame
  have hfieldType : first.fieldType = c.fieldType := hother.fieldType_eq.trans hdef.fieldType_eq.symm
  obtain ⟨array, rfl, harray⟩ := hinv.followedArray hbegin (hfieldType ▸ hstruct) hcount
  obtain ⟨hfollowing, hinvLast, hvalue, _⟩ :=
    FollowedArray.following_run hinv hbegin hrun hregular hinner
  have hsubstate : last.substate = .arrayEnd := by
    have heq := hinvLast.state_eq hvalue
    rw [hlast.1] at heq
    cases hsub : last.substate <;> rw [hsub] at heq <;> trivial
  have hvisited := hfollowing.structArrayVisited hsubstate hlast.2 harray
  have hfield : array.field = other :=
    Option.some.inj (array.definition.symm.trans hother.definition)
  have hnext := hvisited.last_next
  rw [hreader, hmetaEnd, skipFields_congr htake, hfieldType, hfield, ← hdef.next_eq, hstop] at hnext
  exact (Option.some.inj hnext).symm

/-- Assumes: an event that `enumerate_with_name_and_data` accepts, and a reachable end of an empty
array of structs whose body is complete. The skip of the body returns in every build and lands where
the traversals of non-empty arrays of the field end, exactly if the fields that are still to be
skipped are never more than a byte counts. -/
theorem skipStructMetadata_lands_iff (build : Build) (context : EventHeaderEnumeratorContext)
    (tracepointName data : List UInt8) (limit : ℕ) (start c : EventHeaderEnumeratorContext)
    (haccept : enumerateWithNameAndData data context tracepointName limit = .ok (.ok (), start))
    (hreaches : EnumeratorReaches build data start c) (hend : c.substate = .arrayEnd)
    (hstruct : FieldEncoding.withoutFlags c.fieldType.encoding = FieldEncoding.struct)
    (hcount : c.stackTop.arrayCount = 0)
    (hcomplete : fieldsComplete c.byteReader data c.metaEnd c.fieldType.format.toNat
      c.stackTop.nextOffset = true) :
    SkipLands data c ↔ counterFits c.byteReader data c.metaEnd c.fieldType.format.toNat
      c.stackTop.nextOffset = true := by
  obtain ⟨hstart, _⟩ :=
    (enumerateWithNameAndData_returns tracepointName limit).of_eq_ok haccept rfl
  obtain ⟨hinv, _⟩ := hstart.reaches hreaches
  have hbefore : start.substate = .beforeFirstItem := by
    rw [accepted_reset haccept]
    rfl
  obtain ⟨field, hdef⟩ :=
    emptyEnd_of_stepReaches hstart hbefore (EnumeratorReaches.stepReaches hstart hreaches) hend hcount
  have hskip (build : Build) : skipStructMetadata build data c =
      skipStructMetadataLoop build data (c.metaEnd - c.stackTop.nextOffset)
        c.fieldType.format.toNat c := by
    unfold skipStructMetadata
    rw [debugAssert_of hstruct, ok_bind]
  constructor
  · rintro ⟨stop, _, hlands, _⟩
    -- A build that checks for overflows returns only where the counter stays a byte.
    obtain ⟨c', hskipped, _⟩ := hlands ⟨true, .little, true⟩
    rw [hskip] at hskipped
    have hbyte : c.fieldType.format.toNat < 256 := UInt8.toNat_lt _
    exact counterFits_of_skip _ rfl hinv.positioned hcomplete hbyte hskipped
  · intro hfits
    obtain ⟨stop, hstop⟩ := skipFields_of_complete hcomplete
    refine ⟨stop, hstop, fun build ↦ ?_, hdef.traversalsEndAt hstruct hstop⟩
    obtain ⟨nameOffset, nameLen, other, hskipped, hother⟩ :=
      @skipStructMetadataLoop_lands data build c _ _ hinv.positioned le_rfl hcomplete hfits
    refine ⟨_, (hskip build).trans hskipped, ?_⟩
    exact Option.some.inj (hother.symm.trans hstop)

/-- An event `n` with an empty array `s` of structs of one `u8` field `b`, and a `u8` field `x`. -/
def emptyArrayEvent : List UInt8 :=
  [6, 0, 0, 0, 0, 0, 0, 5] ++ [12, 0, 1, 0] ++ [110, 0, 115, 0, 193, 1, 98, 0, 2, 120, 0, 2] ++
    [0, 0, 7]

/-- The event of the empty array before its first item. -/
def emptyArrayStart : EventHeaderEnumeratorContext :=
  contextOf (enumerateWithNameAndData emptyArrayEvent new sampleName 20)

/-- The event of the empty array after so many moves. -/
def emptyArray (count : ℕ) : EventHeaderEnumeratorContext :=
  movedBy ⟨true, .little, true⟩ emptyArrayEvent emptyArrayStart count

/-- The skip of the empty array lands where traversals end. -/
theorem emptyArrayEvent_lands :
    (emptyArray 2).substate = .arrayEnd ∧ (emptyArray 2).stackTop.arrayCount = 0 ∧
      SkipLands emptyArrayEvent (emptyArray 2) := by
  have haccept : enumerateWithNameAndData emptyArrayEvent new sampleName 20 =
      .ok (.ok (), emptyArrayStart) := by decide +kernel
  have hbegin : moveNextImpl ⟨true, .little, true⟩ emptyArrayEvent (emptyArray 0) =
      .ok (true, emptyArray 1) := by decide +kernel
  have hend : moveNextImpl ⟨true, .little, true⟩ emptyArrayEvent (emptyArray 1) =
      .ok (true, emptyArray 2) := by decide +kernel
  have hpermitted : EnumeratorOp.moveNext.Permitted (emptyArray 0) := by decide +kernel
  have hpermitted' : EnumeratorOp.moveNext.Permitted (emptyArray 1) := by decide +kernel
  have hreaches : EnumeratorReaches ⟨true, .little, true⟩ emptyArrayEvent emptyArrayStart
      (emptyArray 2) := .step (.step .refl hpermitted hbegin) hpermitted' hend
  have hfits : counterFits (emptyArray 2).byteReader emptyArrayEvent (emptyArray 2).metaEnd
      (emptyArray 2).fieldType.format.toNat (emptyArray 2).stackTop.nextOffset = true := by
    decide +kernel
  refine ⟨by decide +kernel, by decide +kernel, ?_⟩
  exact (skipStructMetadata_lands_iff ⟨true, .little, true⟩ new sampleName emptyArrayEvent 20
    emptyArrayStart (emptyArray 2) haccept hreaches (by decide +kernel) (by decide +kernel)
    (by decide +kernel) (by decide +kernel)).mpr hfits

/-- An event `n` with an empty array `s` of structs of 127 fields. The metadata ends with the first
fields of nested structs, `a` of 127 fields and in it `b` of 4, whose first one is the `u8` field
`x`. -/
def manyFieldsEvent : List UInt8 :=
  [6, 0, 0, 0, 0, 0, 0, 5] ++ [17, 0, 1, 0] ++
    [110, 0, 115, 0, 193, 127, 97, 0, 129, 127, 98, 0, 129, 4, 120, 0, 2] ++ [0, 0, 7]

/-- The event of many fields before its first item. -/
def manyFieldsStart : EventHeaderEnumeratorContext :=
  contextOf (enumerateWithNameAndData manyFieldsEvent new sampleName 20)

/-- The event of many fields after so many moves. -/
def manyFields (count : ℕ) : EventHeaderEnumeratorContext :=
  movedBy ⟨true, .little, true⟩ manyFieldsEvent manyFieldsStart count

/-- The skip of the array of many fields overflows its counter at `b`. Where overflows are not
checked for it lands at `x`, which the next move shows as a field of the event; the traversal of one
element ends behind `x`. -/
theorem manyFieldsEvent_not_lands :
    enumerateWithNameAndData manyFieldsEvent new sampleName 20 = .ok (.ok (), manyFieldsStart) ∧
      EnumeratorReaches ⟨true, .little, true⟩ manyFieldsEvent manyFieldsStart (manyFields 2) ∧
      (manyFields 2).substate = .arrayEnd ∧
      FieldEncoding.withoutFlags (manyFields 2).fieldType.encoding = FieldEncoding.struct ∧
      (manyFields 2).stackTop.arrayCount = 0 ∧
      fieldsComplete (manyFields 2).byteReader manyFieldsEvent (manyFields 2).metaEnd
        (manyFields 2).fieldType.format.toNat (manyFields 2).stackTop.nextOffset = true ∧
      skipStructMetadata ⟨true, .little, true⟩ manyFieldsEvent (manyFields 2) =
        .error .overflow ∧
      (contextOf (skipStructMetadata ⟨false, .little, true⟩ manyFieldsEvent
        (manyFields 2))).stackTop.nextOffset = 26 ∧
      skipFields (manyFields 2).byteReader manyFieldsEvent (manyFields 2).metaEnd
        (manyFields 2).fieldType.format.toNat (manyFields 2).stackTop.nextOffset = some 29 ∧
      ¬SkipLands manyFieldsEvent (manyFields 2) := by
  have hbegin : moveNextImpl ⟨true, .little, true⟩ manyFieldsEvent (manyFields 0) =
      .ok (true, manyFields 1) := by decide +kernel
  have hend : moveNextImpl ⟨true, .little, true⟩ manyFieldsEvent (manyFields 1) =
      .ok (true, manyFields 2) := by decide +kernel
  have hpermitted : EnumeratorOp.moveNext.Permitted (manyFields 0) := by decide +kernel
  have hpermitted' : EnumeratorOp.moveNext.Permitted (manyFields 1) := by decide +kernel
  have hoverflow : skipStructMetadata ⟨true, .little, true⟩ manyFieldsEvent (manyFields 2) =
      .error .overflow := by decide +kernel
  refine ⟨by decide +kernel, .step (.step .refl hpermitted hbegin) hpermitted' hend,
    by decide +kernel, by decide +kernel, by decide +kernel, by decide +kernel, hoverflow,
    by decide +kernel, by decide +kernel, ?_⟩
  rintro ⟨stop, _, hlands, _⟩
  obtain ⟨c', hskipped, _⟩ := hlands ⟨true, .little, true⟩
  rw [hoverflow] at hskipped
  cases hskipped

end EventHeaderEnumeratorContext

end Tracepoints
