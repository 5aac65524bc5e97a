import Tracepoints.Enumerator.Steps

/-!
# The extent of a field in the metadata

A field definition is a name, a type and, for an array of constant length, the element count; a
struct is followed by the definitions of its fields. `skipFields` passes a number of fields with
all they contain, `behind` one field, and `bodyFields` lists the fields directly inside a struct.
They describe the metadata alone. Skipping fields composes (`skipFields_add`), and
`skip_struct_metadata` computes it as long as its counter, a byte, does not overflow
(`skipStructMetadataLoop_eq_skipFields`).
-/

set_option autoImplicit false
set_option relaxedAutoImplicit false

namespace Tracepoints

open Exec

/-- The number of fields directly inside a field: those of a struct, and none of other types. -/
def FieldType.childCount (typ : FieldType) : ℕ :=
  if FieldEncoding.withoutFlags typ.encoding = FieldEncoding.struct then typ.format.toNat else 0

section Grammar

variable (order : ByteOrder) (data : List UInt8) (metaEnd : ℕ)

/-- The offset behind a number of fields and all they contain, or the end of the metadata if that
comes first. -/
def skipFields (count offset : ℕ) : Option ℕ :=
  if count = 0 ∨ offset = metaEnd then some offset
  else
    match h : definitionAt order data metaEnd offset with
    | none => none
    | some field => skipFields (count - 1 + field.fieldType.childCount) field.definitionEnd
termination_by metaEnd - offset
decreasing_by
  have hbounds := definitionAt_bounds h
  omega

/-- The offset behind the field at an offset and all it contains. -/
def behind (offset : ℕ) : Option ℕ :=
  (definitionAt order data metaEnd offset).bind fun field ↦
    skipFields order data metaEnd field.fieldType.childCount field.definitionEnd

/-- Whether the field counter, which counts the nested fields too, stays a byte while so many
fields are skipped. -/
def counterFits (count offset : ℕ) : Bool :=
  if count = 0 ∨ offset = metaEnd then true
  else
    match h : definitionAt order data metaEnd offset with
    | none => true
    | some field =>
      count + field.fieldType.childCount < 256 &&
        counterFits (count - 1 + field.fieldType.childCount) field.definitionEnd
termination_by metaEnd - offset
decreasing_by
  have hbounds := definitionAt_bounds h
  omega

/-- A field directly inside a struct: where its definition is and what it says. -/
structure ChildField where
  offset : ℕ
  nameLen : ℕ
  fieldType : FieldType
  deriving DecidableEq, Repr

/-- The fields directly inside a struct with so many of them, whose definitions start at an
offset. -/
def bodyFields : ℕ → ℕ → List ChildField
  | 0, _ => []
  | count + 1, offset =>
    if offset = metaEnd then []
    else
      match definitionAt order data metaEnd offset with
      | none => []
      | some field =>
        ⟨offset, field.nameLen, field.fieldType⟩ ::
          match behind order data metaEnd offset with
          | none => []
          | some next => bodyFields count next

end Grammar

variable {order : ByteOrder} {data : List UInt8} {metaEnd : ℕ}

/-! ### Skipping fields -/

theorem skipFields_of_done {count offset : ℕ} (h : count = 0 ∨ offset = metaEnd) :
    skipFields order data metaEnd count offset = some offset := by
  rw [skipFields, if_pos h]

theorem skipFields_of_definitionAt {count offset : ℕ} {field : FieldDef} (hoffset : offset ≠ metaEnd)
    (h : definitionAt order data metaEnd offset = some field) :
    skipFields order data metaEnd (count + 1) offset =
      skipFields order data metaEnd (count + field.fieldType.childCount) field.definitionEnd := by
  rw [skipFields, if_neg (by simp [hoffset])]
  split
  · rename_i hnone
    rw [h] at hnone
    cases hnone
  · rename_i other hother
    rw [h] at hother
    obtain rfl := Option.some.inj hother
    rfl

theorem skipFields_of_none {count offset : ℕ} (hoffset : offset ≠ metaEnd)
    (h : definitionAt order data metaEnd offset = none) :
    skipFields order data metaEnd (count + 1) offset = none := by
  rw [skipFields, if_neg (by simp [hoffset])]
  split
  · rfl
  · rename_i other hother
    rw [h] at hother
    cases hother

/-- Skipping fields composes. -/
theorem skipFields_add (first second offset : ℕ) :
    skipFields order data metaEnd (first + second) offset =
      (skipFields order data metaEnd first offset).bind
        (skipFields order data metaEnd second) := by
  induction hsize : metaEnd - offset using Nat.strong_induction_on generalizing first offset with
  | _ size ih =>
    by_cases hoffset : offset = metaEnd
    · rw [skipFields_of_done (Or.inr hoffset), skipFields_of_done (Or.inr hoffset), Option.bind_some,
        skipFields_of_done (Or.inr hoffset)]
    cases first with
    | zero => rw [Nat.zero_add, skipFields_of_done (Or.inl rfl), Option.bind_some]
    | succ first =>
      rw [Nat.add_right_comm]
      cases hfield : definitionAt order data metaEnd offset with
      | none => rw [skipFields_of_none hoffset hfield, skipFields_of_none hoffset hfield, Option.bind_none]
      | some field =>
        have hbounds := definitionAt_bounds hfield
        rw [skipFields_of_definitionAt hoffset hfield, skipFields_of_definitionAt hoffset hfield,
          Nat.add_right_comm first second]
        exact ih (metaEnd - field.definitionEnd) (by omega) _ _ rfl

/-- Skipping fields starts with the first of them. -/
theorem skipFields_succ {count offset : ℕ} (hoffset : offset ≠ metaEnd) :
    skipFields order data metaEnd (count + 1) offset =
      (behind order data metaEnd offset).bind (skipFields order data metaEnd count) := by
  cases hfield : definitionAt order data metaEnd offset with
  | none => rw [skipFields_of_none hoffset hfield, behind, hfield, Option.bind_none, Option.bind_none]
  | some field =>
    rw [skipFields_of_definitionAt hoffset hfield, behind, hfield, Option.bind_some,
      Nat.add_comm count, skipFields_add]

/-- A field that is not a struct ends with its definition. -/
theorem behind_of_not_struct {offset : ℕ} {field : FieldDef}
    (h : definitionAt order data metaEnd offset = some field)
    (hstruct : FieldEncoding.withoutFlags field.fieldType.encoding ≠ FieldEncoding.struct) :
    behind order data metaEnd offset = some field.definitionEnd := by
  rw [behind, h, Option.bind_some, skipFields_of_done]
  left
  rw [FieldType.childCount, if_neg hstruct]

/-- A struct ends where its fields do. -/
theorem behind_of_struct {offset : ℕ} {field : FieldDef}
    (h : definitionAt order data metaEnd offset = some field)
    (hstruct : FieldEncoding.withoutFlags field.fieldType.encoding = FieldEncoding.struct) :
    behind order data metaEnd offset =
      skipFields order data metaEnd field.fieldType.format.toNat field.definitionEnd := by
  rw [behind, h, Option.bind_some, FieldType.childCount, if_pos hstruct]

theorem bodyFields_of_done {count offset : ℕ} (h : count = 0 ∨ offset = metaEnd) :
    bodyFields order data metaEnd count offset = [] := by
  rcases h with rfl | h
  · rfl
  · cases count with
    | zero => rfl
    | succ count => rw [bodyFields, if_pos h]

theorem bodyFields_succ {count offset : ℕ} {field : FieldDef} (hoffset : offset ≠ metaEnd)
    (h : definitionAt order data metaEnd offset = some field) :
    bodyFields order data metaEnd (count + 1) offset =
      ⟨offset, field.nameLen, field.fieldType⟩ ::
        (behind order data metaEnd offset).elim [] (bodyFields order data metaEnd count) := by
  rw [bodyFields, if_neg hoffset, h]
  cases behind order data metaEnd offset <;> rfl

/-! ### The skip of the enumerator -/

namespace EventHeaderEnumeratorContext

variable {build : Build} {c c' : EventHeaderEnumeratorContext}

theorem counterFits_of_definitionAt {order : ByteOrder} {metaEnd count offset : ℕ}
    {field : FieldDef} (hoffset : offset ≠ metaEnd)
    (h : definitionAt order data metaEnd offset = some field)
    (hfits : counterFits order data metaEnd (count + 1) offset = true) :
    count + 1 + field.fieldType.childCount < 256 ∧
      counterFits order data metaEnd (count + field.fieldType.childCount)
        field.definitionEnd = true := by
  rw [counterFits, if_neg (by simp [hoffset])] at hfits
  split at hfits
  · rename_i hnone
    rw [h] at hnone
    cases hnone
  · rename_i other hother
    rw [h] at hother
    obtain rfl := Option.some.inj hother
    simpa using hfits

/-- Below 256 the field counter is exact. -/
theorem addStructFields_of_lt {count : ℕ} {typ : FieldType}
    (h : count + typ.childCount < 256) :
    addStructFields build count typ = .ok (count + typ.childCount) := by
  unfold FieldType.childCount at h ⊢
  unfold addStructFields addU8
  split_ifs at h ⊢
  · rfl
  · rfl

theorem subU8_succ (count : ℕ) : subU8 build (count + 1) 1 = .ok count := by
  unfold subU8
  rw [if_pos (by omega), Nat.add_sub_cancel]

/-- One field of the skip: its fields are counted, and the cursor is moved behind its definition.
Assumes: a positioned context, at a complete definition without the reserved array encoding. -/
theorem skipStructMetadataLoop_step {field : FieldDef} {remaining : ℕ} (fuel : ℕ)
    (h : Positioned data c) (hremaining : remaining ≠ 0)
    (hnext : c.stackTop.nextOffset ≠ c.metaEnd)
    (hdef : definitionAt c.byteReader data c.metaEnd c.stackTop.nextOffset = some field)
    (hreserved : field.fieldType.isReserved = false) :
    skipStructMetadataLoop build data (fuel + 1) remaining c = (do
      let total ← addStructFields build remaining field.fieldType
      let left ← subU8 build total 1
      skipStructMetadataLoop build data fuel left
        (c.withCursor c.stackTop.nextOffset field.nameLen field.definitionEnd)) := by
  obtain ⟨hfield, hknown, hdefinition⟩ := definitionAt_eq_some.mp hdef
  obtain ⟨_, _, htypeEnd_le, _⟩ := fieldAt_bounds hfield
  have hge := h.nextOffset_ge
  have hsize := h.metaSize_le
  have hnameLen : field.nameLen % 65536 = field.nameLen := Nat.mod_eq_of_lt (by omega)
  rw [skipStructMetadataLoop, if_neg (by simp [hremaining, hnext])]
  dsimp only
  rw [readFieldNameAndType_eq build (by exact h.nextOffset_le) (by exact h.metaEnd_le), ok_bind]
  dsimp only
  rw [hfield]
  dsimp only
  rw [if_neg hknown, hnameLen]
  cases hconstant : FieldEncoding.isConstantLengthArray field.fieldType.encoding with
  | false =>
    have hend : field.definitionEnd = field.typeEnd := by
      simp [FieldDef.definitionEnd, FieldType.hasCount, hconstant]
    simp only [Bool.false_eq_true, not_false_eq_true, if_true]
    rw [hend]
    rfl
  | true =>
    have hvariable : FieldEncoding.isVariableLengthArray field.fieldType.encoding = false := by
      unfold FieldType.isReserved at hreserved
      rw [hconstant, Bool.true_and] at hreserved
      exact hreserved
    have hend : field.definitionEnd = field.typeEnd + 2 := by
      simp [FieldDef.definitionEnd, FieldType.hasCount, hconstant, hvariable]
    have hroom : ¬c.metaEnd - field.typeEnd < 2 := by omega
    cases addStructFields build remaining field.fieldType with
    | error fault => rfl
    | ok total =>
      simp only [ok_bind, not_true_eq_false, if_false, hvariable, Bool.false_eq_true,
        not_false_eq_true, if_true]
      rw [sub_of_le (by exact htypeEnd_le), ok_bind, if_neg hroom, hend]
      rfl

/-- Assumes: a positioned context and a counter that stays a byte. A skip that succeeds ends behind
the fields it counts. -/
theorem skipStructMetadataLoop_eq_skipFields (fuel remaining : ℕ) (h : Positioned data c)
    (hfits : counterFits c.byteReader data c.metaEnd remaining c.stackTop.nextOffset = true)
    (hskip : skipStructMetadataLoop build data fuel remaining c = .ok (true, c')) :
    skipFields c.byteReader data c.metaEnd remaining c.stackTop.nextOffset =
      some c'.stackTop.nextOffset := by
  induction fuel generalizing remaining c with
  | zero =>
    rw [skipStructMetadataLoop] at hskip
    split_ifs at hskip with hdone
    obtain rfl : c = c' := by simpa using hskip
    exact skipFields_of_done hdone
  | succ fuel ih =>
    have hge := h.nextOffset_ge
    have hle := h.nextOffset_le
    rw [skipStructMetadataLoop] at hskip
    by_cases hdone : remaining = 0 ∨ c.stackTop.nextOffset = c.metaEnd
    · rw [if_pos hdone] at hskip
      obtain rfl : c = c' := by simpa using hskip
      exact skipFields_of_done hdone
    rw [if_neg hdone] at hskip
    obtain ⟨hremaining, hnext⟩ := not_or.mp hdone
    obtain ⟨count, rfl⟩ := Nat.exists_eq_succ_of_ne_zero hremaining
    dsimp only at hskip
    rw [readFieldNameAndType_eq build (by exact hle) (by exact h.metaEnd_le), ok_bind] at hskip
    dsimp only at hskip
    cases hfield : fieldAt c.byteReader data c.metaEnd c.stackTop.nextOffset with
    | none =>
      rw [hfield] at hskip
      dsimp only at hskip
      rw [if_pos rfl] at hskip
      cases hskip
    | some field =>
      obtain ⟨_, htypeEnd, htypeEnd_le, _⟩ := fieldAt_bounds hfield
      rw [hfield] at hskip
      dsimp only at hskip
      by_cases hknown : field.fieldType.encoding = readFieldError
      · rw [if_pos hknown] at hskip
        cases hskip
      rw [if_neg hknown] at hskip
      -- the next field, once its complete definition is known to fit
      have hgo : ∀ nameOffset nameLen : ℕ, field.definitionEnd ≤ c.metaEnd →
          (∀ left, subU8 build (count + 1 + field.fieldType.childCount) 1 = .ok left →
            skipStructMetadataLoop build data fuel left
              (c.withCursor nameOffset nameLen field.definitionEnd) = .ok (true, c')) →
          skipFields c.byteReader data c.metaEnd (count + 1) c.stackTop.nextOffset =
            some c'.stackTop.nextOffset := by
        intro nameOffset nameLen hdefinition hrest
        have hdef : definitionAt c.byteReader data c.metaEnd c.stackTop.nextOffset = some field :=
          definitionAt_eq_some.mpr ⟨hfield, hknown, hdefinition⟩
        have hbounds := definitionAt_bounds hdef
        obtain ⟨_, hfits'⟩ := counterFits_of_definitionAt hnext hdef hfits
        rw [skipFields_of_definitionAt hnext hdef]
        refine ih (c := c.withCursor nameOffset nameLen field.definitionEnd) _
          (h.withCursor (by omega) hdefinition) hfits' (hrest _ ?_)
        rw [Nat.add_right_comm]
        exact subU8_succ _
      have hcounter : field.definitionEnd ≤ c.metaEnd →
          addStructFields build (count + 1) field.fieldType =
            .ok (count + 1 + field.fieldType.childCount) := by
        intro hdefinition
        have hdef := definitionAt_eq_some.mpr ⟨hfield, hknown, hdefinition⟩
        exact addStructFields_of_lt (counterFits_of_definitionAt hnext hdef hfits).1
      by_cases hconstant : FieldEncoding.isConstantLengthArray field.fieldType.encoding = true
      · by_cases hvariable : FieldEncoding.isVariableLengthArray field.fieldType.encoding = true
        · obtain ⟨_, _, hrest⟩ := bind_eq_ok.mp hskip
          rw [if_neg (not_not.mpr hconstant), if_neg (not_not.mpr hvariable)] at hrest
          cases hrest
        · have hend : field.definitionEnd = field.typeEnd + 2 := by
            simp [FieldDef.definitionEnd, FieldType.hasCount, hconstant, hvariable]
          obtain ⟨_, _, hrest⟩ := bind_eq_ok.mp hskip
          rw [if_neg (not_not.mpr hconstant), if_pos hvariable, sub_of_le htypeEnd_le, ok_bind]
            at hrest
          by_cases hroom : c.metaEnd - field.typeEnd < 2
          · rw [if_pos hroom] at hrest
            cases hrest
          · have hdefinition : field.definitionEnd ≤ c.metaEnd := by omega
            rw [hcounter hdefinition, ok_bind, if_neg (not_not.mpr hconstant), if_pos hvariable,
              sub_of_le htypeEnd_le, ok_bind, if_neg hroom] at hskip
            refine hgo c.stackTop.nextOffset (field.nameLen % 65536) hdefinition
              fun left hleft ↦ ?_
            rw [hleft, ok_bind] at hskip
            rw [hend]
            exact hskip
      · have hend : field.definitionEnd = field.typeEnd := by
          simp [FieldDef.definitionEnd, FieldType.hasCount, hconstant]
        have hdefinition : field.definitionEnd ≤ c.metaEnd := by omega
        rw [hcounter hdefinition, ok_bind, if_pos hconstant] at hskip
        refine hgo c.stackTop.nextOffset (field.nameLen % 65536) hdefinition fun left hleft ↦ ?_
        rw [hleft, ok_bind] at hskip
        rw [hend]
        exact hskip

end EventHeaderEnumeratorContext

end Tracepoints
