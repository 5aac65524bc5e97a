import Tracepoints.Enumerator.Grammar
import Tracepoints.Enumerator.Bounds

/-!
# Arrays of structs

What `move_next` shows between the begin and the end of an array of structs. `StructArrayVisited`
is the intended traversal: the body is visited once for each element, every visit starts behind
the complete definition of the array field and shows the same fields, and behind the end of the
array the metadata cursor is behind the body.

The code does not always do so. Where a struct ends and its array has more elements, the metadata
cursor is set back by reading the type of the array field again, which stops before the element
count of an array of constant length; such an array of two or more structs goes wrong. The byte
that counts the fields of a skipped struct is the other place. In every run without these two
(`Regular`) the traversal is the intended one.

The proof follows the stack. `Progress` says of the open structs, innermost first, that what is
behind each of them is behind its current field and its remaining ones.
-/

set_option autoImplicit false
set_option relaxedAutoImplicit false

namespace Tracepoints

open Exec

namespace EventHeaderEnumeratorContext

/-! ### Runs of moves -/

/-- The items that moves show after `first`, in order, and the last of them. -/
inductive MoveRun (build : Build) (data : List UInt8) (first : EventHeaderEnumeratorContext) :
    List EventHeaderEnumeratorContext → EventHeaderEnumeratorContext → Prop
  | nil : MoveRun build data first [] first
  | snoc {shown : List EventHeaderEnumeratorContext} {c c' : EventHeaderEnumeratorContext}
      (hrun : MoveRun build data first shown c)
      (hmove : moveNextImpl build data c = .ok (true, c')) :
      MoveRun build data first (shown ++ [c']) c'

/-- The item is the first one that a field definition shows. -/
def startsField (c : EventHeaderEnumeratorContext) : Bool :=
  c.substate = .valueScalar || c.substate = .arrayBegin ||
    (c.substate = .structBegin && !FieldEncoding.isArray c.fieldType.encoding)

/-- The field that an item belongs to. -/
def childField (c : EventHeaderEnumeratorContext) : ChildField :=
  ⟨c.stackTop.nameOffset, c.stackTop.nameLen, c.fieldType⟩

/-- The stack entry of an open struct. -/
def entryAt (c : EventHeaderEnumeratorContext) (depth : ℕ) : StackEntry :=
  c.stack.toList.getD depth .zero

/-- The begins of structs at a depth. -/
def visits (depth : ℕ) (shown : List EventHeaderEnumeratorContext) :
    List EventHeaderEnumeratorContext :=
  shown.filter fun c ↦ c.stackIndex = depth ∧ c.state = .structBegin

/-- The fields shown directly inside an element of the array at a depth. -/
def elementFields (depth index : ℕ) (shown : List EventHeaderEnumeratorContext) :
    List ChildField :=
  (shown.filter fun c ↦ c.stackIndex = depth + 1 ∧ c.startsField = true ∧
    (c.entryAt depth).arrayIndex = index).map childField

/-- The item is the end of an array at a depth. -/
def isArrayEndAt (depth : ℕ) (c : EventHeaderEnumeratorContext) : Prop :=
  c.state = .arrayEnd ∧ c.stackIndex = depth

instance (depth : ℕ) (c : EventHeaderEnumeratorContext) : Decidable (isArrayEndAt depth c) :=
  inferInstanceAs (Decidable (_ ∧ _))

/-- The intended traversal of the array of structs that `first` is the begin of and whose
definition is `field`: `shown` are the items up to its end `last`. -/
structure StructArrayVisited (data : List UInt8) (first : EventHeaderEnumeratorContext)
    (field : FieldDef) (shown : List EventHeaderEnumeratorContext)
    (last : EventHeaderEnumeratorContext) : Prop where
  /-- One visit for each element, in order. -/
  visits_eq : (visits first.stackIndex shown).map (·.stackTop.arrayIndex) =
    List.range first.stackTop.arrayCount
  /-- Every visit starts behind the complete definition of the field. -/
  visits_start : ∀ c ∈ visits first.stackIndex shown,
    c.stackTop.nextOffset = field.definitionEnd
  /-- Every element shows the fields of the struct. -/
  fields_eq : ∀ index < first.stackTop.arrayCount,
    elementFields first.stackIndex index shown =
      bodyFields first.byteReader data first.metaEnd first.fieldType.format.toNat
        field.definitionEnd
  /-- The end of the array is the one of the field, and leaves the cursor behind the body. -/
  last_name : last.stackTop.nameOffset = first.stackTop.nameOffset
  last_next : skipFields first.byteReader data first.metaEnd first.fieldType.format.toNat
    field.definitionEnd = some last.stackTop.nextOffset

/-- A state from which the code keeps the metadata cursor right: not the begin of an array of two
or more structs of constant length, and not the end of an empty array of structs whose nested
fields are too many for a byte. -/
structure Regular (data : List UInt8) (c : EventHeaderEnumeratorContext) : Prop where
  array : c.substate = .arrayBegin →
    FieldEncoding.withoutFlags c.fieldType.encoding = FieldEncoding.struct →
      c.fieldType.hasCount = true → c.stackTop.arrayCount ≤ 1
  skip : c.substate = .arrayEnd →
    FieldEncoding.withoutFlags c.fieldType.encoding = FieldEncoding.struct →
      c.stackTop.arrayCount = 0 →
        counterFits c.byteReader data c.metaEnd c.fieldType.format.toNat
          c.stackTop.nextOffset = true

variable {build : Build} {data : List UInt8} {c c' : EventHeaderEnumeratorContext}

/-! ### Open structs -/

/-- The open structs from a depth on, innermost first. -/
def opened (depth : ℕ) (c : EventHeaderEnumeratorContext) : List StackEntry :=
  ((c.stack.toList.take c.stackIndex).drop depth).reverse

theorem opened_of_le {depth : ℕ} (h : c.stackIndex ≤ depth) : opened depth c = [] := by
  unfold opened
  rw [List.drop_eq_nil_of_le (by rw [List.length_take]; omega), List.reverse_nil]

theorem opened_succ (c' : EventHeaderEnumeratorContext) {depth index : ℕ} (hindex8 : index < 8) (hindex : c.stackIndex = index + 1)
    (hdepth : depth ≤ index) (hstack : c'.stack = c.stack) (hindex' : c'.stackIndex = index) :
    opened depth c = c.stack[index] :: opened depth c' := by
  have hlength : c.stack.toList.length = 8 := Vector.length_toList
  have htake : c.stack.toList.take (index + 1) =
      c.stack.toList.take index ++ [c.stack[index]] := by
    rw [List.take_add_one, List.getElem?_eq_getElem (by omega)]
    simp
  unfold opened
  rw [hindex, hstack, hindex', htake, List.drop_append_of_le_length (by
    rw [List.length_take]; omega), List.reverse_append]
  rfl

theorem opened_pushed {depth : ℕ} (hroom : c.stackIndex < 8) (hdepth : depth ≤ c.stackIndex) :
    opened depth (c.pushed hroom) = c.stackTop :: opened depth c := by
  have hlength : c.stack.toList.length = 8 := Vector.length_toList
  have htake : (c.stack.set c.stackIndex c.stackTop).toList.take (c.stackIndex + 1) =
      c.stack.toList.take c.stackIndex ++ [c.stackTop] := by
    rw [Vector.toList_set, List.take_add_one, List.take_set_of_le le_rfl,
      List.getElem?_set_self (by omega)]
    rfl
  unfold opened
  show ((((c.stack.set c.stackIndex c.stackTop).toList.take (c.stackIndex + 1)).drop
    depth).reverse) = _
  rw [htake, List.drop_append_of_le_length (by rw [List.length_take]; omega),
    List.reverse_append]
  rfl

theorem opened_eq_singleton {depth : ℕ} (hdepth : depth < 8) (hindex : c.stackIndex = depth + 1) :
    opened depth c = [c.entryAt depth] := by
  have hlength : c.stack.toList.length = 8 := Vector.length_toList
  have hnil : opened depth { c with stackIndex := depth } = [] := opened_of_le le_rfl
  rw [opened_succ { c with stackIndex := depth } hdepth hindex le_rfl rfl rfl, hnil, entryAt,
    List.getD_eq_getElem?_getD, List.getElem?_eq_getElem (by omega)]
  simp

theorem length_opened (depth : ℕ) (h : c.stackIndex ≤ 8) :
    (opened depth c).length = c.stackIndex - depth := by
  have hlength : c.stack.toList.length = 8 := Vector.length_toList
  rw [opened, List.length_reverse, List.length_drop, List.length_take]
  omega

/-! ### Progress through the open structs -/

section Progress

variable (order : ByteOrder) (data : List UInt8) (metaEnd : ℕ)

/-- An open struct of the metadata. What is behind it is behind its current field, whose end is
`current`, and `remaining` more. -/
structure OpenEntry (current : Option ℕ) (remaining : ℕ) (entry : StackEntry)
    (field : FieldDef) : Prop where
  definition : definitionAt order data metaEnd entry.nameOffset = some field
  nameLen_eq : entry.nameLen = field.nameLen
  isStruct : FieldEncoding.withoutFlags field.fieldType.encoding = FieldEncoding.struct
  regular : field.fieldType.hasCount = true → entry.arrayCount ≤ 1
  behind_eq : behind order data metaEnd entry.nameOffset =
    current.bind (skipFields order data metaEnd remaining)

/-- The open structs, innermost first; `outermost` is what holds of the last one. -/
def Progress (outermost : Option ℕ → ℕ → StackEntry → Prop) :
    Option ℕ → ℕ → List StackEntry → Prop
  | _, _, [] => True
  | current, remaining, [entry] =>
    (∃ field, OpenEntry order data metaEnd current remaining entry field) ∧
      outermost current remaining entry
  | current, remaining, entry :: next :: rest =>
    (∃ field, OpenEntry order data metaEnd current remaining entry field) ∧
      Progress outermost (behind order data metaEnd entry.nameOffset) entry.remainingFieldCount
        (next :: rest)

end Progress

/-- The metadata cursor at an item of a field. -/
def CursorOk (data : List UInt8) (c : EventHeaderEnumeratorContext) (field : FieldDef) : Prop :=
  match c.substate with
  | .structBegin =>
    c.stackTop.nextOffset = field.definitionEnd ∧
      (field.fieldType.hasCount = true → c.stackTop.arrayCount ≤ 1)
  | .structEnd =>
    (field.fieldType.hasCount = true → c.stackTop.arrayCount ≤ 1) ∧
      if c.stackTop.arrayIndex + 1 = c.stackTop.arrayCount then
        behind c.byteReader data c.metaEnd c.stackTop.nameOffset = some c.stackTop.nextOffset
      else c.stackTop.nextOffset = field.definitionEnd
  | .arrayEnd =>
    if FieldEncoding.withoutFlags field.fieldType.encoding = FieldEncoding.struct ∧
        c.stackTop.arrayCount = 0 then
      c.stackTop.nextOffset = field.definitionEnd
    else behind c.byteReader data c.metaEnd c.stackTop.nameOffset = some c.stackTop.nextOffset
  | _ => c.stackTop.nextOffset = field.definitionEnd

/-- The current item belongs to a field of the metadata, and the cursor is where that field
says. -/
structure TopOk (data : List UInt8) (c : EventHeaderEnumeratorContext) (field : FieldDef) :
    Prop where
  definition : definitionAt c.byteReader data c.metaEnd c.stackTop.nameOffset = some field
  nameLen_eq : c.stackTop.nameLen = field.nameLen
  fieldType_eq : c.fieldType = field.fieldType
  cursor : CursorOk data c field

/-- Two items of the same field, with the metadata cursor at the same place. -/
structure SameField (c c' : EventHeaderEnumeratorContext) : Prop where
  frame_eq : c'.frame = c.frame
  stack_eq : c'.stack = c.stack
  stackIndex_eq : c'.stackIndex = c.stackIndex
  name_eq : c'.stackTop.nameOffset = c.stackTop.nameOffset
  nameLen_eq : c'.stackTop.nameLen = c.stackTop.nameLen
  next_eq : c'.stackTop.nextOffset = c.stackTop.nextOffset
  count_eq : c'.stackTop.arrayCount = c.stackTop.arrayCount
  remaining_eq : c'.stackTop.remainingFieldCount = c.stackTop.remainingFieldCount
  fieldType_eq : c'.fieldType = c.fieldType

namespace SameField

theorem trans {c'' : EventHeaderEnumeratorContext} (h : SameField c c') (h' : SameField c' c'') :
    SameField c c'' :=
  ⟨h'.frame_eq.trans h.frame_eq, h'.stack_eq.trans h.stack_eq,
    h'.stackIndex_eq.trans h.stackIndex_eq, h'.name_eq.trans h.name_eq,
    h'.nameLen_eq.trans h.nameLen_eq, h'.next_eq.trans h.next_eq, h'.count_eq.trans h.count_eq,
    h'.remaining_eq.trans h.remaining_eq, h'.fieldType_eq.trans h.fieldType_eq⟩

theorem spend (c : EventHeaderEnumeratorContext) : SameField c c.spend :=
  ⟨rfl, rfl, rfl, rfl, rfl, rfl, rfl, rfl, rfl⟩

theorem pastItem (c : EventHeaderEnumeratorContext) : SameField c c.pastItem :=
  ⟨rfl, rfl, rfl, rfl, rfl, rfl, rfl, rfl, rfl⟩

theorem nextElement (c : EventHeaderEnumeratorContext) : SameField c c.nextElement :=
  ⟨rfl, rfl, rfl, rfl, rfl, rfl, rfl, rfl, rfl⟩

theorem withItem (c : EventHeaderEnumeratorContext) (pos size cooked raw : ℕ) :
    SameField c (c.withItem pos size cooked raw) :=
  ⟨rfl, rfl, rfl, rfl, rfl, rfl, rfl, rfl, rfl⟩

theorem setState (c : EventHeaderEnumeratorContext) (state : EventHeaderEnumeratorState)
    (substate : SubState) : SameField c (c.setState state substate) :=
  ⟨rfl, rfl, rfl, rfl, rfl, rfl, rfl, rfl, rfl⟩

theorem atSimpleElement (c : EventHeaderEnumeratorContext) : SameField c c.atSimpleElement :=
  (withItem c _ _ _ _).trans (setState _ _ _)

theorem atStructBegin (c : EventHeaderEnumeratorContext) : SameField c c.atStructBegin :=
  (withItem c _ _ _ _).trans (setState _ _ _)

theorem atArrayEnd (c : EventHeaderEnumeratorContext) : SameField c c.atArrayEnd :=
  ⟨rfl, rfl, rfl, rfl, rfl, rfl, rfl, rfl, rfl⟩

theorem byteReader_eq (h : SameField c c') : c'.byteReader = c.byteReader :=
  congrArg EventFrame.byteReader h.frame_eq

theorem metaEnd_eq (h : SameField c c') : c'.metaEnd = c.metaEnd :=
  congrArg EventFrame.metaEnd h.frame_eq

theorem opened_eq (h : SameField c c') (depth : ℕ) : opened depth c' = opened depth c := by
  unfold opened
  rw [h.stack_eq, h.stackIndex_eq]

/-- The field of one item is the field of the other, if the cursor says so. -/
theorem topOk (h : SameField c c') {field : FieldDef} (htop : TopOk data c field)
    (hcursor : CursorOk data c' field) : TopOk data c' field := by
  refine ⟨?_, h.nameLen_eq.trans htop.nameLen_eq, h.fieldType_eq.trans htop.fieldType_eq, hcursor⟩
  rw [h.byteReader_eq, h.metaEnd_eq, h.name_eq]
  exact htop.definition

theorem behind_eq (h : SameField c c') :
    behind c'.byteReader data c'.metaEnd c'.stackTop.nameOffset =
      behind c.byteReader data c.metaEnd c.stackTop.nameOffset := by
  rw [h.byteReader_eq, h.metaEnd_eq, h.name_eq]

/-- The end of an array that is not an empty array of structs, behind its field. -/
theorem cursorOk_arrayEnd (h : SameField c c') {field : FieldDef}
    (hsubstate : c'.substate = .arrayEnd)
    (hbehind : behind c.byteReader data c.metaEnd c.stackTop.nameOffset =
      some c.stackTop.nextOffset)
    (hskip : ¬(FieldEncoding.withoutFlags field.fieldType.encoding = FieldEncoding.struct ∧
      c.stackTop.arrayCount = 0)) : CursorOk data c' field := by
  unfold CursorOk
  simp only [hsubstate]
  rw [h.count_eq, if_neg hskip, h.behind_eq, h.next_eq]
  exact hbehind

end SameField

/-- The array of structs whose traversal is followed: its begin, its definition, and the fields of
its struct. -/
structure FollowedArray (data : List UInt8) where
  first : EventHeaderEnumeratorContext
  field : FieldDef
  depth_lt : first.stackIndex ≤ 8
  definition : definitionAt first.byteReader data first.metaEnd first.stackTop.nameOffset =
    some field
  isStruct : FieldEncoding.withoutFlags field.fieldType.encoding = FieldEncoding.struct
  isArray : FieldEncoding.isArray field.fieldType.encoding = true
  count_ne : first.stackTop.arrayCount ≠ 0

namespace FollowedArray

variable (array : FollowedArray data)

/-- The fields of the struct. -/
def body : List ChildField :=
  bodyFields array.first.byteReader data array.first.metaEnd array.field.fieldType.format.toNat
    array.field.definitionEnd

/-- So many visits were shown, and the elements below an index were shown as a whole, those from
there on not at all. -/
structure Visited (shown : List EventHeaderEnumeratorContext) (started complete : ℕ) : Prop where
  visits_eq : (visits array.first.stackIndex shown).map (·.stackTop.arrayIndex) =
    List.range started
  visits_start : ∀ c ∈ visits array.first.stackIndex shown,
    c.stackTop.nextOffset = array.field.definitionEnd
  fields_eq : ∀ index, elementFields array.first.stackIndex index shown =
    if index < complete then array.body else []

/-- The traversal at the array itself. -/
structure AtArray (shown : List EventHeaderEnumeratorContext) (c : EventHeaderEnumeratorContext) :
    Prop where
  name_eq : c.stackTop.nameOffset = array.first.stackTop.nameOffset
  count_eq : c.stackTop.arrayCount = array.first.stackTop.arrayCount
  visited :
    match c.substate with
    | .arrayBegin => shown = []
    | .structBegin => array.Visited shown (c.stackTop.arrayIndex + 1) c.stackTop.arrayIndex
    | .structEnd => array.Visited shown (c.stackTop.arrayIndex + 1) (c.stackTop.arrayIndex + 1)
    | .arrayEnd => array.Visited shown c.stackTop.arrayCount c.stackTop.arrayCount
    | _ => False

/-- The traversal inside an element, whose stack entry is `entry`: the fields shown so far and
those that follow are the fields of the struct. -/
structure InElement (shown : List EventHeaderEnumeratorContext) (current : Option ℕ)
    (remaining : ℕ) (entry : StackEntry) : Prop where
  name_eq : entry.nameOffset = array.first.stackTop.nameOffset
  count_eq : entry.arrayCount = array.first.stackTop.arrayCount
  visits_eq : (visits array.first.stackIndex shown).map (·.stackTop.arrayIndex) =
    List.range (entry.arrayIndex + 1)
  visits_start : ∀ c ∈ visits array.first.stackIndex shown,
    c.stackTop.nextOffset = array.field.definitionEnd
  others_eq : ∀ index, index ≠ entry.arrayIndex →
    elementFields array.first.stackIndex index shown =
      if index < entry.arrayIndex then array.body else []
  fields_eq : elementFields array.first.stackIndex entry.arrayIndex shown ++
    current.elim [] (bodyFields array.first.byteReader data array.first.metaEnd remaining) =
      array.body

/-- The progress of the open structs from the array on. -/
def Inside (shown : List EventHeaderEnumeratorContext) (current : Option ℕ) (remaining : ℕ)
    (entries : List StackEntry) : Prop :=
  Progress array.first.byteReader data array.first.metaEnd (array.InElement shown) current
    remaining entries

/-- The invariant of the traversal at an item. -/
structure Following (shown : List EventHeaderEnumeratorContext)
    (c : EventHeaderEnumeratorContext) : Prop where
  frame_eq : c.frame = array.first.frame
  shows : c.state.canItemInfo = true
  depth_le : array.first.stackIndex ≤ c.stackIndex
  top : ∃ field, TopOk data c field
  atArray : c.stackIndex = array.first.stackIndex → array.AtArray shown c
  inside : array.first.stackIndex < c.stackIndex →
    array.Inside shown (behind c.byteReader data c.metaEnd c.stackTop.nameOffset)
      c.stackTop.remainingFieldCount (opened array.first.stackIndex c)

/-- The invariant of the traversal between fields, inside an element. -/
structure Ready (shown : List EventHeaderEnumeratorContext) (c : EventHeaderEnumeratorContext) :
    Prop where
  frame_eq : c.frame = array.first.frame
  depth_lt : array.first.stackIndex < c.stackIndex
  inside : array.Inside shown (some c.stackTop.nextOffset) c.stackTop.remainingFieldCount
    (opened array.first.stackIndex c)

end FollowedArray

/-- The item that a started field shows: at the start of a field of the metadata, with the cursor
behind its complete definition. -/
structure FieldShown (data : List UInt8) (c c' : EventHeaderEnumeratorContext)
    (field : FieldDef) : Prop where
  frame_eq : c'.frame = c.frame
  stack_eq : c'.stack = c.stack
  stackIndex_eq : c'.stackIndex = c.stackIndex
  definition : definitionAt c.byteReader data c.metaEnd c.stackTop.nextOffset = some field
  child_eq : c'.childField = ⟨c.stackTop.nextOffset, field.nameLen, field.fieldType⟩
  starts : c'.startsField = true
  next_eq : c'.stackTop.nextOffset = field.definitionEnd
  remaining_eq : c'.stackTop.remainingFieldCount = c.stackTop.remainingFieldCount - 1
  scalar : c'.substate = .structBegin → field.fieldType.hasCount = false
  kind : c'.substate = .valueScalar ∨ c'.substate = .arrayBegin ∨ c'.substate = .structBegin

theorem FieldStarted.fieldShown (hstarted : FieldStarted data c (true, c')) :
    ∃ field, FieldShown data c c' field := by
  cases hstarted with
  | @value field pos size cooked raw hfield hknown hscalar hvalue hcooked hraw =>
    obtain ⟨hcount, hend⟩ := definitionEnd_of_scalar hscalar
    have hle := (fieldAt_bounds hfield).2.2.1
    exact ⟨field, rfl, rfl, rfl, definitionAt_eq_some.mpr ⟨hfield, hknown, by omega⟩, rfl, rfl,
      hend.symm, rfl, fun _ ↦ hcount, Or.inl rfl⟩
  | @struct field hfield hstruct hformat =>
    have hscalar : FieldEncoding.isArray field.fieldType.encoding = false := by
      rw [hstruct]
      decide
    obtain ⟨hcount, hend⟩ := definitionEnd_of_scalar hscalar
    have hknown : field.fieldType.encoding ≠ readFieldError := by
      rw [hstruct]
      decide
    have hle := (fieldAt_bounds hfield).2.2.1
    refine ⟨field, rfl, rfl, rfl, definitionAt_eq_some.mpr ⟨hfield, hknown, by omega⟩, rfl, ?_,
      hend.symm, rfl, fun _ ↦ hcount, Or.inr (Or.inr rfl)⟩
    show (_ || _ || (_ && !FieldEncoding.isArray field.fieldType.encoding)) = true
    rw [hscalar]
    rfl
  | @variableArray field count size hfield hknown harray hsize hfits =>
    have hend := definitionEnd_of_variable harray
    have hle := (fieldAt_bounds hfield).2.2.1
    exact ⟨field, rfl, rfl, rfl, definitionAt_eq_some.mpr ⟨hfield, hknown, by omega⟩, rfl, rfl,
      hend.symm, rfl, (fun hsubstate ↦ by cases hsubstate), Or.inr (Or.inl rfl)⟩
  | @constantArray field count size hfield hknown hvariable harray hmeta hcount hsize hfits =>
    have hend := definitionEnd_of_constant hvariable harray
    exact ⟨field, rfl, rfl, rfl, definitionAt_eq_some.mpr ⟨hfield, hknown, by omega⟩, rfl, rfl,
      hend.symm, rfl, (fun hsubstate ↦ by cases hsubstate), Or.inr (Or.inl rfl)⟩

/-! ### One more item -/

section Append

variable {depth : ℕ} {shown : List EventHeaderEnumeratorContext}

theorem visits_append_of_not (h : ¬(c'.stackIndex = depth ∧ c'.state = .structBegin)) :
    visits depth (shown ++ [c']) = visits depth shown := by
  unfold visits
  rw [List.filter_append, List.filter_singleton, decide_eq_false h]
  simp

theorem visits_append_of (h : c'.stackIndex = depth ∧ c'.state = .structBegin) :
    visits depth (shown ++ [c']) = visits depth shown ++ [c'] := by
  unfold visits
  rw [List.filter_append, List.filter_singleton, decide_eq_true h]
  rfl

theorem elementFields_append_of_not (index : ℕ)
    (h : ¬(c'.stackIndex = depth + 1 ∧ c'.startsField = true)) :
    elementFields depth index (shown ++ [c']) = elementFields depth index shown := by
  unfold elementFields
  rw [List.filter_append, List.filter_singleton,
    decide_eq_false fun hchild ↦ h ⟨hchild.1, hchild.2.1⟩]
  simp

theorem elementFields_append_of_ne {index : ℕ} (h : (c'.entryAt depth).arrayIndex ≠ index) :
    elementFields depth index (shown ++ [c']) = elementFields depth index shown := by
  unfold elementFields
  rw [List.filter_append, List.filter_singleton, decide_eq_false fun hchild ↦ h hchild.2.2]
  simp

theorem elementFields_append_of {index : ℕ} (hdepth : c'.stackIndex = depth + 1)
    (hfield : c'.startsField = true) (hindex : (c'.entryAt depth).arrayIndex = index) :
    elementFields depth index (shown ++ [c']) =
      elementFields depth index shown ++ [c'.childField] := by
  unfold elementFields
  rw [List.filter_append, List.filter_singleton, decide_eq_true ⟨hdepth, hfield, hindex⟩,
    List.map_append]
  rfl

end Append

namespace FollowedArray

variable {array : FollowedArray data} {shown : List EventHeaderEnumeratorContext}

/-- An item deeper than the array that does not start a field of its struct leaves what was shown
of the elements as it is. -/
theorem InElement.append {current : Option ℕ} {remaining : ℕ} {entry : StackEntry}
    (h : array.InElement shown current remaining entry)
    (hdepth : array.first.stackIndex < c'.stackIndex)
    (hfield : ¬(c'.stackIndex = array.first.stackIndex + 1 ∧ c'.startsField = true)) :
    array.InElement (shown ++ [c']) current remaining entry := by
  have hvisits : visits array.first.stackIndex (shown ++ [c']) =
      visits array.first.stackIndex shown := visits_append_of_not fun hvisit ↦ by omega
  refine ⟨h.name_eq, h.count_eq, ?_, ?_, ?_, ?_⟩
  · rw [hvisits]
    exact h.visits_eq
  · rw [hvisits]
    exact h.visits_start
  · intro index hindex
    rw [elementFields_append_of_not index hfield]
    exact h.others_eq index hindex
  · rw [elementFields_append_of_not _ hfield]
    exact h.fields_eq

/-- The open structs but the outermost do not depend on what was shown. -/
theorem Inside.append {entries : List StackEntry} {current : Option ℕ} {remaining : ℕ}
    (h : array.Inside shown current remaining entries)
    (hdepth : array.first.stackIndex < c'.stackIndex)
    (hfield : ¬(c'.stackIndex = array.first.stackIndex + 1 ∧ c'.startsField = true)) :
    array.Inside (shown ++ [c']) current remaining entries := by
  induction entries generalizing current remaining with
  | nil => trivial
  | cons entry rest ih =>
    cases rest with
    | nil => exact ⟨h.1, h.2.append hdepth hfield⟩
    | cons next rest => exact ⟨h.1, ih h.2⟩

/-- The next field of the innermost struct. -/
theorem Inside.field {entries : List StackEntry} {remaining offset : ℕ} {field : FieldDef}
    (h : array.Inside shown (some offset) (remaining + 1) entries)
    (hoffset : offset ≠ array.first.metaEnd)
    (hdef : definitionAt array.first.byteReader data array.first.metaEnd offset = some field)
    (hentries : opened array.first.stackIndex c' = entries)
    (hdepth : array.first.stackIndex < c'.stackIndex) (hstack : c'.stackIndex ≤ 8)
    (hfield : c'.startsField = true)
    (hchild : c'.childField = ⟨offset, field.nameLen, field.fieldType⟩) :
    array.Inside (shown ++ [c']) (behind array.first.byteReader data array.first.metaEnd offset)
      remaining entries := by
  have hopen : ∀ {entry : StackEntry}, (∃ other, OpenEntry array.first.byteReader data
      array.first.metaEnd (some offset) (remaining + 1) entry other) →
      ∃ other, OpenEntry array.first.byteReader data array.first.metaEnd
        (behind array.first.byteReader data array.first.metaEnd offset) remaining entry other := by
    rintro entry ⟨other, hother⟩
    refine ⟨other, { hother with behind_eq := ?_ }⟩
    rw [hother.behind_eq, Option.bind_some, skipFields_succ hoffset]
  cases entries with
  | nil => trivial
  | cons entry rest =>
    cases rest with
    | nil =>
      -- the field is one of the array's struct
      have hlength := length_opened array.first.stackIndex hstack
      rw [hentries, List.length_singleton] at hlength
      have hindex : c'.stackIndex = array.first.stackIndex + 1 := by omega
      have hentry : c'.entryAt array.first.stackIndex = entry := by
        rw [opened_eq_singleton (by omega) hindex] at hentries
        exact (List.cons.inj hentries).1
      obtain ⟨hopenEntry, hin⟩ := h
      have hvisits : visits array.first.stackIndex (shown ++ [c']) =
          visits array.first.stackIndex shown := visits_append_of_not fun hvisit ↦ by omega
      refine ⟨hopen hopenEntry, hin.name_eq, hin.count_eq, ?_, ?_, ?_, ?_⟩
      · rw [hvisits]
        exact hin.visits_eq
      · rw [hvisits]
        exact hin.visits_start
      · intro index hne
        rw [elementFields_append_of_ne (by rw [hentry]; exact hne.symm)]
        exact hin.others_eq index hne
      · rw [elementFields_append_of hindex hfield (by rw [hentry]), hchild, ← hin.fields_eq,
          Option.elim_some, bodyFields_succ hoffset hdef, List.append_assoc]
        rfl
    | cons next rest =>
      have hlength := length_opened array.first.stackIndex hstack
      rw [hentries, List.length_cons, List.length_cons] at hlength
      refine ⟨hopen h.1, ?_⟩
      exact Inside.append h.2 hdepth fun hdirect ↦ by omega

theorem Following.byteReader_eq (h : array.Following shown c) :
    c.byteReader = array.first.byteReader := congrArg EventFrame.byteReader h.frame_eq

theorem Following.metaEnd_eq (h : array.Following shown c) : c.metaEnd = array.first.metaEnd :=
  congrArg EventFrame.metaEnd h.frame_eq

theorem Ready.byteReader_eq (h : array.Ready shown c) :
    c.byteReader = array.first.byteReader := congrArg EventFrame.byteReader h.frame_eq

theorem Ready.metaEnd_eq (h : array.Ready shown c) : c.metaEnd = array.first.metaEnd :=
  congrArg EventFrame.metaEnd h.frame_eq

/-- A field started inside an element. -/
theorem Ready.field (h : array.Ready shown c) (hpos : Positioned data c)
    (hremaining : c.stackTop.remainingFieldCount ≠ 0) (hnext : c.stackTop.nextOffset ≠ c.metaEnd)
    (hstarted : FieldStarted data c (true, c')) : array.Following (shown ++ [c']) c' := by
  obtain ⟨field, hshown⟩ := hstarted.fieldShown
  have hmoved := hstarted.moved hpos
  have hindex := hshown.stackIndex_eq
  have hdepth := h.depth_lt
  have hname : c'.stackTop.nameOffset = c.stackTop.nextOffset :=
    congrArg ChildField.offset hshown.child_eq
  have horder : c'.byteReader = c.byteReader := congrArg EventFrame.byteReader hshown.frame_eq
  have hmeta : c'.metaEnd = c.metaEnd := congrArg EventFrame.metaEnd hshown.frame_eq
  have hopened : opened array.first.stackIndex c' = opened array.first.stackIndex c := by
    unfold opened
    rw [hshown.stack_eq, hindex]
  have hcursor : CursorOk data c' field := by
    unfold CursorOk
    rcases hshown.kind with hkind | hkind | hkind
    · simp only [hkind]
      exact hshown.next_eq
    · simp only [hkind]
      exact hshown.next_eq
    · simp only [hkind]
      refine ⟨hshown.next_eq, fun hcount ↦ ?_⟩
      rw [hshown.scalar hkind] at hcount
      cases hcount
  refine ⟨hshown.frame_eq.trans h.frame_eq, hmoved.shows, by omega, ⟨field, ?_,
    congrArg ChildField.nameLen hshown.child_eq, congrArg ChildField.fieldType hshown.child_eq,
    hcursor⟩, fun heq ↦ by omega, fun _ ↦ ?_⟩
  · rw [horder, hmeta, hname]
    exact hshown.definition
  · obtain ⟨remaining, hremaining'⟩ := Nat.exists_eq_succ_of_ne_zero hremaining
    have hinside := h.inside
    have hdefinition := hshown.definition
    rw [hremaining'] at hinside
    rw [h.byteReader_eq, h.metaEnd_eq] at hdefinition
    rw [h.metaEnd_eq] at hnext
    rw [hname, horder, hmeta, hshown.remaining_eq, hremaining', hopened, h.byteReader_eq,
      h.metaEnd_eq]
    exact hinside.field hnext hdefinition hopened (by omega) (by
      rw [hindex]
      exact hpos.stackIndex_le) hshown.starts hshown.child_eq

theorem Inside.head {entries : List StackEntry} {current : Option ℕ} {remaining : ℕ}
    {entry : StackEntry} (h : array.Inside shown current remaining (entry :: entries)) :
    ∃ field, OpenEntry array.first.byteReader data array.first.metaEnd current remaining entry
      field := by
  cases entries with
  | nil => exact h.1
  | cons next rest => exact h.1

/-- What remains of the element when its struct ends. -/
theorem InElement.visited {current remaining : ℕ} {entry : StackEntry}
    (h : array.InElement shown (some current) remaining entry)
    (hdone : remaining = 0 ∨ current = array.first.metaEnd) :
    array.Visited shown (entry.arrayIndex + 1) (entry.arrayIndex + 1) := by
  refine ⟨h.visits_eq, h.visits_start, fun index ↦ ?_⟩
  by_cases hindex : index = entry.arrayIndex
  · subst hindex
    have hfields := h.fields_eq
    rw [Option.elim_some, bodyFields_of_done hdone, List.append_nil] at hfields
    rw [if_pos (Nat.lt_succ_self _), hfields]
  · rw [h.others_eq index hindex]
    exact if_congr (by omega) rfl rfl

/-- An item that is neither a visit nor a field of an element leaves the visits as they are. -/
theorem Visited.append {started complete : ℕ} (h : array.Visited shown started complete)
    (hdepth : c'.stackIndex = array.first.stackIndex) (hstate : c'.state ≠ .structBegin) :
    array.Visited (shown ++ [c']) started complete := by
  have hvisits : visits array.first.stackIndex (shown ++ [c']) =
      visits array.first.stackIndex shown := visits_append_of_not fun hvisit ↦ hstate hvisit.2
  refine ⟨?_, ?_, fun index ↦ ?_⟩
  · rw [hvisits]
    exact h.visits_eq
  · rw [hvisits]
    exact h.visits_start
  · rw [elementFields_append_of_not index fun hfield ↦ by omega]
    exact h.fields_eq index

/-- The popped struct is the one of its stack entry, and the cursor is behind it if this was its
last element, at its first field otherwise. -/
theorem Ready.topOk_popped (h : array.Ready shown c) {index : ℕ} {entry : StackEntry}
    {field : FieldDef} (hentry : EntryOk data c entry)
    (hopen : OpenEntry array.first.byteReader data array.first.metaEnd
      (some c.stackTop.nextOffset) c.stackTop.remainingFieldCount entry field)
    (hbehind : behind array.first.byteReader data array.first.metaEnd entry.nameOffset =
      some c.stackTop.nextOffset) :
    TopOk data (c.popped data index entry) field := by
  have hdefinition := hopen.definition
  rw [← h.byteReader_eq, ← h.metaEnd_eq] at hdefinition hbehind
  obtain ⟨hfield, _, _⟩ := definitionAt_eq_some.mp hdefinition
  obtain ⟨_, _, _, htype⟩ := fieldAt_bounds hfield
  rw [← hopen.nameLen_eq] at htype
  have hlt := hentry.index_lt
  refine ⟨hdefinition, hopen.nameLen_eq, ?_, hopen.regular, ?_⟩
  · show (typeAt c.byteReader data c.metaEnd (entry.nameOffset + entry.nameLen + 1)).1 = _
    rw [htype]
  · show if entry.arrayIndex + 1 = entry.arrayCount then
        behind c.byteReader data c.metaEnd entry.nameOffset =
          some (if entry.arrayIndex + 1 = entry.arrayCount then c.stackTop.nextOffset else
            (typeAt c.byteReader data c.metaEnd (entry.nameOffset + entry.nameLen + 1)).2)
      else (if entry.arrayIndex + 1 = entry.arrayCount then c.stackTop.nextOffset else
        (typeAt c.byteReader data c.metaEnd (entry.nameOffset + entry.nameLen + 1)).2) =
          field.definitionEnd
    split_ifs with hlast
    · exact hbehind
    · -- more elements follow, so that the array is not one of constant length
      have hcount : field.fieldType.hasCount = false := by
        by_contra hcount
        have hone := hopen.regular (by simpa using hcount)
        omega
      rw [htype, FieldDef.definitionEnd, hcount]
      rfl

/-- A struct popped inside the array, or one of its own. -/
theorem Ready.pop (h : array.Ready shown c) (hpos : Positioned data c) {index : ℕ}
    (hdone : c.stackTop.remainingFieldCount = 0 ∨ c.stackTop.nextOffset = c.metaEnd)
    (hindex8 : index < 8) (hindex : c.stackIndex = index + 1) :
    array.Following (shown ++ [c.popped data index c.stack[index]])
      (c.popped data index c.stack[index]) := by
  have hmoved := moved_popped hpos hindex8 hindex
  have hdepth := h.depth_lt
  have hinside := h.inside
  have hentry := hpos.entries index hindex8 (by omega)
  have hpopped : (c.popped data index c.stack[index]).stackIndex = index := rfl
  rw [opened_succ (c.popped data index c.stack[index]) hindex8 hindex (by omega) rfl rfl]
    at hinside
  obtain ⟨field, hopen⟩ := hinside.head
  have hdone' : c.stackTop.remainingFieldCount = 0 ∨
      c.stackTop.nextOffset = array.first.metaEnd := by
    rw [← h.metaEnd_eq]
    exact hdone
  have hbehind : behind array.first.byteReader data array.first.metaEnd
      c.stack[index].nameOffset = some c.stackTop.nextOffset := by
    rw [hopen.behind_eq, Option.bind_some, skipFields_of_done hdone']
  refine ⟨hmoved.frame_eq.trans h.frame_eq, rfl, by omega, ⟨field, h.topOk_popped hentry hopen
    hbehind⟩, fun heq ↦ ?_, fun hlt ↦ ?_⟩
  · rw [opened_of_le heq.le] at hinside
    have hvisited := hinside.2.visited hdone'
    exact ⟨hinside.2.name_eq, hinside.2.count_eq, hvisited.append heq (by
      show EventHeaderEnumeratorState.structEnd ≠ .structBegin
      decide)⟩
  · refine Inside.append ?_ hlt fun hfield ↦ ?_
    · show array.Inside shown (behind c.byteReader data c.metaEnd c.stack[index].nameOffset)
        c.stack[index].remainingFieldCount _
      rw [h.byteReader_eq, h.metaEnd_eq]
      generalize hrest : opened array.first.stackIndex (c.popped data index c.stack[index]) = rest
        at hinside
      cases rest with
      | nil => trivial
      | cons next rest => exact hinside.2
    · have hstarts : (c.popped data index c.stack[index]).startsField = false := rfl
      rw [hstarts] at hfield
      cases hfield.2

theorem Ready.step (h : array.Ready shown c) (hpos : Positioned data c)
    (hstep : PropertyStep data c (true, c')) : array.Following (shown ++ [c']) c' := by
  have hdepth := h.depth_lt
  generalize hresult : (true, c') = result at hstep
  cases hstep with
  | field hremaining hnext hfield =>
    subst hresult
    exact h.field hpos hremaining hnext hfield
  | pop hdone hindex8 hindex =>
    obtain rfl : c' = c.popped data _ c.stack[_] := (Prod.mk.inj hresult).2
    exact h.pop hpos hdone hindex8 hindex
  | trailing _ hindex => omega
  | finished hindex => omega

/-- Another item of the same field, inside an element, that does not start a field. -/
theorem Following.stay (h : array.Following shown c) (hsame : SameField c c')
    (hdepth : array.first.stackIndex < c.stackIndex) (hstarts : c'.startsField = false)
    (hshows : c'.state.canItemInfo = true) {field : FieldDef} (htop : TopOk data c' field) :
    array.Following (shown ++ [c']) c' := by
  have hindex := hsame.stackIndex_eq
  refine ⟨hsame.frame_eq.trans h.frame_eq, hshows, by omega, ⟨field, htop⟩, fun heq ↦ by omega,
    fun hlt ↦ ?_⟩
  rw [hsame.opened_eq, hsame.byteReader_eq, hsame.metaEnd_eq, hsame.name_eq, hsame.remaining_eq]
  refine (h.inside hdepth).append hlt fun hfield ↦ ?_
  rw [hstarts] at hfield
  cases hfield.2

/-- Behind a complete field, inside an element. -/
theorem Following.ready (h : array.Following shown c) (hsame : SameField c c')
    (hdepth : array.first.stackIndex < c.stackIndex)
    (hbehind : behind c.byteReader data c.metaEnd c.stackTop.nameOffset =
      some c.stackTop.nextOffset) : array.Ready shown c' := by
  have hindex := hsame.stackIndex_eq
  refine ⟨hsame.frame_eq.trans h.frame_eq, by omega, ?_⟩
  rw [hsame.opened_eq, hsame.remaining_eq, hsame.next_eq, ← hbehind]
  exact h.inside hdepth

/-- At the array itself the current field is the array's. -/
theorem Following.field_eq (h : array.Following shown c)
    (hdepth : c.stackIndex = array.first.stackIndex) {field : FieldDef}
    (htop : TopOk data c field) : field = array.field := by
  have hdefinition := htop.definition
  rw [(h.atArray hdepth).name_eq, h.byteReader_eq, h.metaEnd_eq, array.definition] at hdefinition
  exact (Option.some.inj hdefinition).symm

theorem Following.depth_cases (h : array.Following shown c) :
    c.stackIndex = array.first.stackIndex ∨ array.first.stackIndex < c.stackIndex :=
  h.depth_le.eq_or_lt.imp Eq.symm id

theorem Following.canMoveNext (h : array.Following shown c) : c.state.canMoveNext = true := by
  have hshows := h.shows
  cases hstate : c.state <;> simp_all [EventHeaderEnumeratorState.canItemInfo,
    EventHeaderEnumeratorState.canMoveNext]

/-- An item other than of the array itself is deeper. -/
theorem Following.deeper (h : array.Following shown c)
    (hsubstate : c.substate ≠ .arrayBegin ∧ c.substate ≠ .structBegin ∧
      c.substate ≠ .structEnd ∧ c.substate ≠ .arrayEnd) :
    array.first.stackIndex < c.stackIndex := by
  rcases h.depth_cases with heq | hlt
  · exfalso
    have hvisited := (h.atArray heq).visited
    split at hvisited <;> simp_all
  · exact hlt

/-- A field that is not a struct ends where its definition does. -/
theorem TopOk_behind_of_value {field : FieldDef} (htop : TopOk data c field)
    (hstruct : FieldEncoding.withoutFlags c.fieldType.encoding ≠ FieldEncoding.struct) :
    behind c.byteReader data c.metaEnd c.stackTop.nameOffset = some field.definitionEnd := by
  refine behind_of_not_struct htop.definition ?_
  rw [← htop.fieldType_eq]
  exact hstruct

/-- One more visit. -/
theorem Visited.visit {started complete : ℕ} (h : array.Visited shown started complete)
    (hdepth : c'.stackIndex = array.first.stackIndex) (hstate : c'.state = .structBegin)
    (hindex : c'.stackTop.arrayIndex = started)
    (hnext : c'.stackTop.nextOffset = array.field.definitionEnd) :
    array.Visited (shown ++ [c']) (started + 1) complete := by
  have hvisits : visits array.first.stackIndex (shown ++ [c']) =
      visits array.first.stackIndex shown ++ [c'] := visits_append_of ⟨hdepth, hstate⟩
  refine ⟨?_, ?_, fun index ↦ ?_⟩
  · rw [hvisits, List.map_append, h.visits_eq, List.range_succ, List.map_singleton, hindex]
  · rw [hvisits]
    intro c hc
    rcases List.mem_append.mp hc with hold | hnew
    · exact h.visits_start c hold
    · rw [List.mem_singleton.mp hnew]
      exact hnext
  · rw [elementFields_append_of_not index fun hfield ↦ by omega]
    exact h.fields_eq index

/-- No visit before the first. -/
theorem visited_nil : array.Visited [] 0 0 :=
  ⟨rfl, (fun c hc ↦ by cases hc), fun index ↦ rfl⟩

/-- The first struct of an array, which is the followed one or inside one of its elements. -/
theorem Following.structFirst (h : array.Following shown c) (hregular : Regular data c)
    (hitem : ArrayBeginItem data c) (hsubstate : c.substate = .arrayBegin)
    (hstruct : FieldEncoding.withoutFlags c.fieldType.encoding = FieldEncoding.struct) :
    array.Following (shown ++ [c.spend.atStructBegin]) c.spend.atStructBegin := by
  obtain ⟨field, htop⟩ := h.top
  have hsame : SameField c c.spend.atStructBegin := (SameField.spend c).trans (.atStructBegin _)
  have hcursor := htop.cursor
  unfold CursorOk at hcursor
  simp only [hsubstate] at hcursor
  have htop' : TopOk data c.spend.atStructBegin field := by
    refine hsame.topOk htop ⟨hsame.next_eq.trans hcursor, fun hcount ↦ ?_⟩
    rw [← htop.fieldType_eq] at hcount
    exact hregular.array hsubstate hstruct hcount
  rcases h.depth_cases with hdepth | hdepth
  · have hat := h.atArray hdepth
    have hshown := hat.visited
    simp only [hsubstate] at hshown
    subst hshown
    have hfield := h.field_eq hdepth htop
    refine ⟨hsame.frame_eq.trans h.frame_eq, rfl, h.depth_le, ⟨field, htop'⟩, fun _ ↦
      ⟨hsame.name_eq.trans hat.name_eq, hsame.count_eq.trans hat.count_eq, ?_⟩, fun hlt ↦ ?_⟩
    · have hindex : c.spend.atStructBegin.stackTop.arrayIndex = 0 := hitem.index_eq
      show array.Visited _ (c.spend.atStructBegin.stackTop.arrayIndex + 1)
        c.spend.atStructBegin.stackTop.arrayIndex
      rw [hindex]
      refine visited_nil.visit hdepth rfl hindex ?_
      rw [hsame.next_eq, hcursor, hfield]
    · have hindex := hsame.stackIndex_eq
      omega
  · have hstarts : c.spend.atStructBegin.startsField = false := by
      show (_ || _ || (_ && !FieldEncoding.isArray c.fieldType.encoding)) = false
      rw [hitem.array]
      rfl
    exact h.stay hsame hdepth hstarts rfl htop'

/-- Into a struct: the fields that follow are those of the struct. -/
theorem Following.push (h : array.Following shown c) (hitem : StructItem data c)
    (hsubstate : c.substate = .structBegin) (hroom : c.stackIndex < 8) :
    array.Ready shown (c.spend.pushed hroom) := by
  obtain ⟨field, htop⟩ := h.top
  have hdepth := h.depth_le
  have hcursor := htop.cursor
  unfold CursorOk at hcursor
  simp only [hsubstate] at hcursor
  have hstruct : FieldEncoding.withoutFlags field.fieldType.encoding = FieldEncoding.struct := by
    rw [← htop.fieldType_eq]
    exact hitem.isStruct
  have hdefinition := htop.definition
  rw [h.byteReader_eq, h.metaEnd_eq] at hdefinition
  have hopen : OpenEntry array.first.byteReader data array.first.metaEnd
      (some c.stackTop.nextOffset) c.fieldType.format.toNat c.stackTop field := by
    refine ⟨hdefinition, htop.nameLen_eq, hstruct, hcursor.2, ?_⟩
    rw [behind_of_struct hdefinition hstruct, Option.bind_some, hcursor.1, htop.fieldType_eq]
  refine ⟨h.frame_eq, Nat.lt_succ_of_le hdepth, ?_⟩
  rw [opened_pushed (c := c.spend) hroom hdepth, (SameField.spend c).opened_eq]
  show array.Inside shown (some c.stackTop.nextOffset) c.fieldType.format.toNat
    (c.stackTop :: opened array.first.stackIndex c)
  rcases h.depth_cases with heq | hlt
  · have hat := h.atArray heq
    have hvisited := hat.visited
    simp only [hsubstate] at hvisited
    have hfield := h.field_eq heq htop
    rw [opened_of_le heq.le]
    refine ⟨⟨field, hopen⟩, hat.name_eq, hat.count_eq, hvisited.visits_eq, hvisited.visits_start,
      fun index _ ↦ hvisited.fields_eq index, ?_⟩
    rw [hvisited.fields_eq, if_neg (lt_irrefl _), List.nil_append, Option.elim_some,
      htop.fieldType_eq, hcursor.1, hfield]
    rfl
  · have hinside := h.inside hlt
    rw [h.byteReader_eq, h.metaEnd_eq] at hinside
    have hlength : (opened array.first.stackIndex c).length = _ :=
      length_opened array.first.stackIndex (by omega)
    generalize opened array.first.stackIndex c = rest at hinside hlength ⊢
    cases rest with
    | nil =>
      rw [List.length_nil] at hlength
      omega
    | cons next rest => exact ⟨⟨field, hopen⟩, hinside⟩

/-- The next struct of an array. -/
theorem Following.structNext (h : array.Following shown c) (hitem : StructItem data c)
    (hsubstate : c.substate = .structEnd)
    (hmore : c.stackTop.arrayCount ≠ c.stackTop.arrayIndex + 1) :
    array.Following (shown ++ [c.spend.nextElement.atStructBegin])
      c.spend.nextElement.atStructBegin := by
  obtain ⟨field, htop⟩ := h.top
  have hlt := hitem.index_lt
  have hsame : SameField c c.spend.nextElement.atStructBegin :=
    ((SameField.spend c).trans (.nextElement _)).trans (.atStructBegin _)
  have hcursor := htop.cursor
  unfold CursorOk at hcursor
  simp only [hsubstate] at hcursor
  rw [if_neg (by omega)] at hcursor
  have htop' : TopOk data c.spend.nextElement.atStructBegin field :=
    hsame.topOk htop ⟨hsame.next_eq.trans hcursor.2, hcursor.1⟩
  rcases h.depth_cases with hdepth | hdepth
  · have hat := h.atArray hdepth
    have hvisited := hat.visited
    simp only [hsubstate] at hvisited
    have hfield := h.field_eq hdepth htop
    refine ⟨hsame.frame_eq.trans h.frame_eq, rfl, h.depth_le, ⟨field, htop'⟩, fun _ ↦
      ⟨hsame.name_eq.trans hat.name_eq, hsame.count_eq.trans hat.count_eq, ?_⟩, fun hlt' ↦ ?_⟩
    · refine hvisited.visit hdepth rfl rfl ?_
      rw [hsame.next_eq, hcursor.2, hfield]
    · have hindex := hsame.stackIndex_eq
      omega
  · have hstarts : c.spend.nextElement.atStructBegin.startsField = false := by
      have harray : FieldEncoding.isArray c.fieldType.encoding = true := by
        by_contra hscalar
        have hone := hitem.count_eq (by simpa using hscalar)
        omega
      show (_ || _ || (_ && !FieldEncoding.isArray c.fieldType.encoding)) = false
      rw [harray]
      rfl
    exact h.stay hsame hdepth hstarts rfl htop'

/-- The end of an array behind its last struct. -/
theorem Following.structsDone (h : array.Following shown c) (hsubstate : c.substate = .structEnd)
    (hdone : c.stackTop.arrayCount = c.stackTop.arrayIndex + 1) :
    array.Following (shown ++ [c.spend.nextElement.atArrayEnd])
      c.spend.nextElement.atArrayEnd := by
  obtain ⟨field, htop⟩ := h.top
  have hsame : SameField c c.spend.nextElement.atArrayEnd :=
    ((SameField.spend c).trans (.nextElement _)).trans (.atArrayEnd _)
  have hcursor := htop.cursor
  unfold CursorOk at hcursor
  simp only [hsubstate] at hcursor
  rw [if_pos hdone.symm] at hcursor
  have htop' : TopOk data c.spend.nextElement.atArrayEnd field :=
    hsame.topOk htop (hsame.cursorOk_arrayEnd rfl hcursor.2 fun hskip ↦ by omega)
  rcases h.depth_cases with hdepth | hdepth
  · have hat := h.atArray hdepth
    have hvisited := hat.visited
    simp only [hsubstate] at hvisited
    refine ⟨hsame.frame_eq.trans h.frame_eq, rfl, h.depth_le, ⟨field, htop'⟩, fun _ ↦
      ⟨hsame.name_eq.trans hat.name_eq, hsame.count_eq.trans hat.count_eq, ?_⟩, fun hlt ↦ ?_⟩
    · show array.Visited _ c.stackTop.arrayCount c.stackTop.arrayCount
      rw [hdone]
      refine hvisited.append hdepth ?_
      show EventHeaderEnumeratorState.arrayEnd ≠ .structBegin
      decide
    · have hindex := hsame.stackIndex_eq
      omega
  · exact h.stay hsame hdepth rfl rfl htop'

/-- A value of the array's element type, inside an element of the followed array. -/
theorem Following.valueStarted (h : array.Following shown c) (hsame : SameField c c')
    (hdepth : array.first.stackIndex < c.stackIndex) (hstate : c'.state = .value)
    (hsubstate : c'.substate = .valueComplexArrayElement) {field : FieldDef}
    (htop : TopOk data c field) (hnext : c.stackTop.nextOffset = field.definitionEnd)
    {next : EventHeaderEnumeratorContext} (hstarted : ValueStarted data c' (true, next)) :
    array.Following (shown ++ [next]) next := by
  rcases hstarted with ⟨pos, size, cooked, raw, _, _, _, hnextEq⟩ | ⟨_, _, hfailed⟩
  · obtain rfl := (Prod.mk.inj hnextEq).2
    have hsame' : SameField c (c'.withItem pos size cooked raw) := hsame.trans (.withItem _ _ _ _ _)
    have hstate' : (c'.withItem pos size cooked raw).state = .value := hstate
    have hsubstate' : (c'.withItem pos size cooked raw).substate = .valueComplexArrayElement :=
      hsubstate
    refine h.stay hsame' hdepth ?_ (by rw [hstate']; rfl) (hsame'.topOk htop ?_)
    · unfold startsField
      rw [hsubstate']
      rfl
    · unfold CursorOk
      simp only [hsubstate']
      exact hsame'.next_eq.trans hnext
  · cases hfailed

/-- A field that is not the followed array is deeper. -/
theorem Following.deeper_of_value (h : array.Following shown c) {field : FieldDef}
    (htop : TopOk data c field)
    (hstruct : FieldEncoding.withoutFlags c.fieldType.encoding ≠ FieldEncoding.struct) :
    array.first.stackIndex < c.stackIndex := by
  rcases h.depth_cases with heq | hlt
  · exfalso
    rw [htop.fieldType_eq, h.field_eq heq htop] at hstruct
    exact hstruct array.isStruct
  · exact hlt

/-- The skip of an empty array of structs ends behind the field. -/
theorem TopOk_behind_skipped {field : FieldDef} (htop : TopOk data c field) (hregular : Regular data c) (hpos : Positioned data c)
    (hsubstate : c.substate = .arrayEnd)
    (hstruct : FieldEncoding.withoutFlags c.fieldType.encoding = FieldEncoding.struct)
    (hcount : c.stackTop.arrayCount = 0) {nameOffset nameLen nextOffset : ℕ}
    (hskip : skipStructMetadata build data c.spend =
      .ok (true, c.spend.withCursor nameOffset nameLen nextOffset)) :
    behind c.byteReader data c.metaEnd c.stackTop.nameOffset = some nextOffset := by
  have hcursor := htop.cursor
  have hstruct' := hstruct
  rw [htop.fieldType_eq] at hstruct'
  unfold CursorOk at hcursor
  simp only [hsubstate] at hcursor
  rw [if_pos ⟨hstruct', hcount⟩] at hcursor
  unfold skipStructMetadata at hskip
  rw [debugAssert_of (by exact hstruct), ok_bind] at hskip
  have hfields := skipStructMetadataLoop_eq_skipFields _ _ hpos.spend
    (hregular.skip hsubstate hstruct hcount) hskip
  rw [behind_of_struct htop.definition hstruct', ← htop.fieldType_eq, ← hcursor]
  exact hfields

/-- Assumes: the followed traversal, in a regular state that is not the end of the array. One move
goes on with the traversal. -/
theorem Following.step (h : array.Following shown c) (hinv : EnumeratorInv data c)
    (hend : ¬isArrayEndAt array.first.stackIndex c) (hregular : Regular data c)
    (hstep : MoveStep build data c (true, c')) : array.Following (shown ++ [c']) c' := by
  have hpos := hinv.positioned
  have hitem := hinv.item
  obtain ⟨field, htop⟩ := h.top
  have hcursor := htop.cursor
  unfold CursorOk at hcursor
  unfold ItemInv at hitem
  generalize hresult : (true, c') = result at hstep
  cases hstep with
  | exhausted => cases hresult
  | first _ hsubstate hstep =>
    exfalso
    have hshows := h.shows
    simp only [hsubstate] at hitem
    rw [hitem] at hshows
    cases hshows
  | scalar _ hsubstate hstep =>
    subst hresult
    have hdepth := h.deeper (by rw [hsubstate]; decide)
    simp only [hsubstate] at hitem hcursor
    refine (h.ready ((SameField.spend c).trans (.pastItem _)) hdepth ?_).step
      (hpos.spend.pastItem hitem.raw_le) hstep
    rw [TopOk_behind_of_value htop hitem.notStruct, hcursor]
  | simpleNext _ hsubstate hmore =>
    obtain rfl := (Prod.mk.inj hresult).2
    have hdepth := h.deeper (by rw [hsubstate]; decide)
    simp only [hsubstate] at hcursor
    have hsame : SameField c c.spend.pastItem.nextElement.atSimpleElement :=
      (((SameField.spend c).trans (.pastItem _)).trans (.nextElement _)).trans (.atSimpleElement _)
    exact h.stay hsame hdepth rfl rfl (hsame.topOk htop (hsame.next_eq.trans hcursor))
  | elementsDone _ hsubstate hdone =>
    obtain rfl := (Prod.mk.inj hresult).2
    have hdepth := h.deeper (by rcases hsubstate with hsub | hsub <;> rw [hsub] <;> decide)
    have hsame : SameField c c.spend.pastItem.nextElement.atArrayEnd :=
      (((SameField.spend c).trans (.pastItem _)).trans (.nextElement _)).trans (.atArrayEnd _)
    have hvalue : FieldEncoding.withoutFlags c.fieldType.encoding ≠ FieldEncoding.struct ∧
        c.stackTop.nextOffset = field.definitionEnd := by
      rcases hsubstate with hsub | hsub
      · simp only [hsub] at hitem hcursor
        exact ⟨hitem.notStruct, hcursor⟩
      · simp only [hsub] at hitem hcursor
        exact ⟨hitem.notStruct, hcursor⟩
    have hbehind := TopOk_behind_of_value htop hvalue.1
    rw [← hvalue.2] at hbehind
    refine h.stay hsame hdepth rfl rfl (hsame.topOk htop
      (hsame.cursorOk_arrayEnd rfl hbehind fun hskip ↦ ?_))
    rw [← htop.fieldType_eq] at hskip
    exact hvalue.1 hskip.1
  | complexNext _ hsubstate hmore hstarted =>
    subst hresult
    have hdepth := h.deeper (by rw [hsubstate]; decide)
    simp only [hsubstate] at hitem hcursor
    exact h.valueStarted (((SameField.spend c).trans (.pastItem _)).trans (.nextElement _)) hdepth
      hitem.state_eq hsubstate htop hcursor hstarted
  | arrayEmpty _ hsubstate hcount =>
    obtain rfl := (Prod.mk.inj hresult).2
    simp only [hsubstate] at hitem hcursor
    have hsame : SameField c c.spend.atArrayEnd := (SameField.spend c).trans (.atArrayEnd _)
    have hdepth : array.first.stackIndex < c.stackIndex := by
      refine h.depth_cases.resolve_left fun heq ↦ array.count_ne ?_
      rw [← (h.atArray heq).count_eq]
      exact hcount
    refine h.stay hsame hdepth rfl rfl (hsame.topOk htop ?_)
    by_cases hstruct : FieldEncoding.withoutFlags c.fieldType.encoding = FieldEncoding.struct
    · rw [htop.fieldType_eq] at hstruct
      show if _ then _ else _
      rw [if_pos ⟨hstruct, hcount⟩]
      exact hsame.next_eq.trans hcursor
    · have hbehind := TopOk_behind_of_value htop hstruct
      rw [← hcursor] at hbehind
      rw [htop.fieldType_eq] at hstruct
      exact hsame.cursorOk_arrayEnd rfl hbehind fun hskip ↦ hstruct hskip.1
  | simpleFirst _ hsubstate hcount hsize =>
    obtain rfl := (Prod.mk.inj hresult).2
    simp only [hsubstate] at hitem hcursor
    have hsame : SameField c c.spend.atSimpleElement :=
      (SameField.spend c).trans (.atSimpleElement _)
    exact h.stay hsame (h.deeper_of_value htop (hitem.notStruct hsize)) rfl rfl
      (hsame.topOk htop (hsame.next_eq.trans hcursor))
  | complexFirst _ hsubstate hcount hsize hstruct hstarted =>
    subst hresult
    simp only [hsubstate] at hitem hcursor
    exact h.valueStarted ((SameField.spend c).trans (.setState _ _ _))
      (h.deeper_of_value htop hstruct) rfl rfl htop hcursor hstarted
  | structFirst _ hsubstate hcount hstruct =>
    obtain rfl := (Prod.mk.inj hresult).2
    simp only [hsubstate] at hitem
    exact h.structFirst hregular hitem hsubstate hstruct
  | arrayEnd _ hsubstate hnoSkip hstep =>
    subst hresult
    simp only [hsubstate] at hitem hcursor
    have hdepth : array.first.stackIndex < c.stackIndex :=
      h.depth_cases.resolve_left fun heq ↦ hend ⟨hitem.state_eq, heq⟩
    rw [htop.fieldType_eq] at hnoSkip
    rw [if_neg hnoSkip] at hcursor
    exact (h.ready (.spend c) hdepth hcursor).step hpos.spend hstep
  | @skip _ nameOffset nameLen nextOffset _ hsubstate hstruct hcount hge hle hskip hstep =>
    subst hresult
    simp only [hsubstate] at hitem hcursor
    have hdepth : array.first.stackIndex < c.stackIndex :=
      h.depth_cases.resolve_left fun heq ↦ hend ⟨hitem.state_eq, heq⟩
    have hbehind := TopOk_behind_skipped htop hregular hpos hsubstate hstruct hcount hskip
    have hready : array.Ready shown (c.spend.withCursor nameOffset nameLen nextOffset) := by
      refine ⟨h.frame_eq, hdepth, ?_⟩
      show array.Inside shown (some nextOffset) c.stackTop.remainingFieldCount
        (opened array.first.stackIndex c)
      rw [← hbehind]
      exact h.inside hdepth
    exact hready.step (hpos.spend.withCursor (hpos.nextOffset_ge.trans hge) hle) hstep
  | skipFailed => cases hresult
  | stackOverflow => cases hresult
  | push _ hsubstate hroom hstep =>
    subst hresult
    simp only [hsubstate] at hitem
    exact (h.push hitem.2 hsubstate hroom).step (hpos.spend.pushed { hitem.2 with } hroom) hstep
  | structNext _ hsubstate hmore =>
    obtain rfl := (Prod.mk.inj hresult).2
    simp only [hsubstate] at hitem
    exact h.structNext hitem.2 hsubstate hmore
  | structsDone _ hsubstate hdone harray =>
    obtain rfl := (Prod.mk.inj hresult).2
    exact h.structsDone hsubstate hdone
  | structEnd _ hsubstate hdone hscalar hstep =>
    subst hresult
    simp only [hsubstate] at hcursor
    have hdepth : array.first.stackIndex < c.stackIndex := by
      refine h.depth_cases.resolve_left fun heq ↦ ?_
      have harray := array.isArray
      rw [← h.field_eq heq htop, ← htop.fieldType_eq, hscalar] at harray
      cases harray
    rw [if_pos hdone.symm] at hcursor
    exact (h.ready ((SameField.spend c).trans (.nextElement _)) hdepth hcursor.2).step
      hpos.spend.nextElement hstep

/-- The begin of the array starts the traversal. -/
theorem following_first (h : EnumeratorInv data array.first)
    (hsubstate : array.first.substate = .arrayBegin) : array.Following [] array.first := by
  have hitem := h.item
  unfold ItemInv at hitem
  simp only [hsubstate] at hitem
  obtain ⟨field, hfield⟩ := hitem.definition
  refine ⟨rfl, ?_, le_rfl, ⟨field, hfield.definition, hfield.nameLen_eq, hfield.fieldType_eq, ?_⟩,
    fun _ ↦ ⟨rfl, rfl, ?_⟩, fun hlt ↦ absurd hlt (lt_irrefl _)⟩
  · rw [hitem.state_eq]
    rfl
  · unfold CursorOk
    simp only [hsubstate]
    exact hfield.next_eq
  · simp only [hsubstate]

/-- Along a run of moves from the begin of the array, in regular states and before its end, the
traversal is followed. -/
theorem following_run (h : EnumeratorInv data array.first)
    (hsubstate : array.first.substate = .arrayBegin)
    (hrun : MoveRun build data array.first shown c)
    (hregular : ∀ item ∈ array.first :: shown, Regular data item)
    (hinner : ∀ item ∈ shown.dropLast, ¬isArrayEndAt array.first.stackIndex item) :
    array.Following shown c ∧ EnumeratorInv data c ∧ c.substate ≠ .valueMetadata ∧
      c ∈ array.first :: shown := by
  have hvalue : array.first.substate ≠ .valueMetadata := by
    rw [hsubstate]
    decide
  induction hrun with
  | nil => exact ⟨following_first h hsubstate, h, hvalue, List.mem_cons_self⟩
  | @snoc shown c c' hrun hmove ih =>
    rw [List.dropLast_concat] at hinner
    have hsubset : ∀ item ∈ array.first :: shown, item ∈ array.first :: (shown ++ [c']) := by
      intro item hitem
      rcases List.mem_cons.mp hitem with rfl | hshown
      · exact List.mem_cons_self
      · exact List.mem_cons_of_mem _ (List.mem_append_left _ hshown)
    obtain ⟨hfollowing, hinv, hvalue', hmem⟩ := ih
      (fun item hitem ↦ hregular item (hsubset item hitem))
      (fun item hitem ↦ hinner item (List.dropLast_subset _ hitem))
    have hstep : MoveStep build data c (true, c') :=
      (moveNextImpl_returns hinv hfollowing.canMoveNext hvalue').of_eq_ok hmove
    have hend : ¬isArrayEndAt array.first.stackIndex c := by
      rcases List.mem_cons.mp hmem with rfl | hshown
      · rintro ⟨hstate, _⟩
        rw [h.state_eq hvalue, hsubstate] at hstate
        cases hstate
      · exact hinner c hshown
    have hmoved := hstep.moved hinv
    exact ⟨hfollowing.step hinv hend (hregular c (hsubset c hmem)) hstep, hmoved.inv, hmoved.value,
      List.mem_cons_of_mem _ (List.mem_append_right _ (List.mem_singleton.mpr rfl))⟩

end FollowedArray

/-! ### The traversal of an array of structs -/

/-- From the end of an array that is not empty, a move within the same struct starts the field at
the metadata cursor. -/
theorem MoveStep.behindArrayEnd (hstep : MoveStep build data c (true, c'))
    (hsubstate : c.substate = .arrayEnd) (hcount : c.stackTop.arrayCount ≠ 0)
    (hdepth : c'.stackIndex = c.stackIndex) :
    c'.startsField = true ∧ c'.stackTop.nameOffset = c.stackTop.nextOffset := by
  have hproperty : PropertyStep data c.spend (true, c') := by
    generalize hresult : (true, c') = result at hstep
    cases hstep with
    | arrayEnd _ _ _ hstep => exact hresult ▸ hstep
    | exhausted => cases hresult
    | skipFailed => cases hresult
    | stackOverflow => cases hresult
    | _ => simp_all
  generalize hresult : (true, c') = result at hproperty
  cases hproperty with
  | field _ _ hfield =>
    subst hresult
    obtain ⟨field, hshown⟩ := hfield.fieldShown
    exact ⟨hshown.starts, congrArg ChildField.offset hshown.child_eq⟩
  | @pop index _ _ hindex =>
    obtain rfl := (Prod.mk.inj hresult).2
    have hindex' : c.stackIndex = index + 1 := hindex
    have hdepth' : index = c.stackIndex := hdepth
    omega
  | trailing => cases hresult
  | finished => cases hresult

/-- A step to the next property that returns `false` without an error is at the outermost level. -/
theorem PropertyStep.outermost (hstep : PropertyStep data c (false, c'))
    (hstate : c'.state ≠ .error) : c.stackIndex = 0 := by
  generalize hresult : (false, c') = result at hstep
  cases hstep with
  | field _ _ hfield =>
    cases hfield with
    | failed hfailed =>
      obtain rfl := (Prod.mk.inj hresult).2
      exact absurd hfailed.state_eq hstate
    | _ => cases hresult
  | pop => cases hresult
  | trailing _ hindex => exact hindex
  | finished hindex => exact hindex

theorem ValueStarted.state_eq_error (hstarted : ValueStarted data c (false, c')) :
    c'.state = .error := by
  rcases hstarted with ⟨_, _, _, _, _, _, _, heq⟩ | ⟨_, _, heq⟩
  · cases heq
  · obtain rfl := (Prod.mk.inj heq).2
    rfl

/-- A move that returns `false` without an error is at the outermost level, and behind a whole
field. -/
theorem MoveStep.outermost (hstep : MoveStep build data c (false, c'))
    (hstate : c'.state ≠ .error) :
    c.stackIndex = 0 ∧ (c.substate = .beforeFirstItem ∨ c.substate = .valueScalar ∨
      c.substate = .arrayEnd ∨
      c.substate = .structEnd ∧ FieldEncoding.isArray c.fieldType.encoding = false) := by
  generalize hresult : (false, c') = result at hstep
  cases hstep with
  | exhausted =>
    obtain rfl := (Prod.mk.inj hresult).2
    exact absurd rfl hstate
  | first _ hsubstate hstep =>
    subst hresult
    exact ⟨hstep.outermost hstate, Or.inl hsubstate⟩
  | scalar _ hsubstate hstep =>
    subst hresult
    exact ⟨hstep.outermost hstate, Or.inr (Or.inl hsubstate)⟩
  | complexNext _ _ _ hstarted =>
    subst hresult
    exact absurd (ValueStarted.state_eq_error hstarted) hstate
  | complexFirst _ _ _ _ _ hstarted =>
    subst hresult
    exact absurd (ValueStarted.state_eq_error hstarted) hstate
  | arrayEnd _ hsubstate _ hstep =>
    subst hresult
    exact ⟨hstep.outermost hstate, Or.inr (Or.inr (Or.inl hsubstate))⟩
  | skip _ hsubstate _ _ _ _ _ hstep =>
    subst hresult
    exact ⟨hstep.outermost hstate, Or.inr (Or.inr (Or.inl hsubstate))⟩
  | skipFailed _ _ hfailed =>
    obtain rfl := (Prod.mk.inj hresult).2
    exact absurd hfailed.state_eq hstate
  | stackOverflow =>
    obtain rfl := (Prod.mk.inj hresult).2
    exact absurd rfl hstate
  | push _ _ _ hstep =>
    subst hresult
    exact absurd (hstep.outermost hstate) (Nat.succ_ne_zero _)
  | structEnd _ hsubstate _ hscalar hstep =>
    subst hresult
    exact ⟨hstep.outermost hstate, Or.inr (Or.inr (Or.inr ⟨hsubstate, hscalar⟩))⟩
  | _ => cases hresult

/-- Before the end of a followed array, the enumeration does not end without an error. -/
theorem FollowedArray.Following.ends_in_error {array : FollowedArray data}
    {shown : List EventHeaderEnumeratorContext} (h : array.Following shown c)
    (hinv : EnumeratorInv data c) (hend : ¬isArrayEndAt array.first.stackIndex c)
    (hstep : MoveStep build data c (false, c')) : c'.state = .error := by
  by_contra hstate
  obtain ⟨hzero, hkind⟩ := hstep.outermost hstate
  have heq : c.stackIndex = array.first.stackIndex := by
    have hle := h.depth_le
    omega
  have hitem := hinv.item
  unfold ItemInv at hitem
  rcases hkind with hsubstate | hsubstate | hsubstate | ⟨hsubstate, hscalar⟩
  · have hdeeper := h.deeper (by rw [hsubstate]; decide)
    omega
  · have hdeeper := h.deeper (by rw [hsubstate]; decide)
    omega
  · simp only [hsubstate] at hitem
    exact hend ⟨hitem.state_eq, heq⟩
  · obtain ⟨field, htop⟩ := h.top
    have harray := array.isArray
    rw [← h.field_eq heq htop, ← htop.fieldType_eq, hscalar] at harray
    cases harray

/-- The array of structs that a reachable begin shows. -/
theorem EnumeratorInv.followedArray (hinv : EnumeratorInv data c)
    (hbegin : c.substate = .arrayBegin)
    (hstruct : FieldEncoding.withoutFlags c.fieldType.encoding = FieldEncoding.struct)
    (hcount : 1 ≤ c.stackTop.arrayCount) :
    ∃ array : FollowedArray data, array.first = c ∧ array.field.fieldType = c.fieldType := by
  have hitem := hinv.item
  unfold ItemInv at hitem
  simp only [hbegin] at hitem
  obtain ⟨field, hfield⟩ := hitem.definition
  have hfieldType := hfield.fieldType_eq
  exact ⟨{ first := c
           field := field
           depth_lt := hinv.positioned.stackIndex_le
           definition := hfield.definition
           isStruct := by rw [← hfieldType]; exact hstruct
           isArray := by rw [← hfieldType]; exact hitem.array
           count_ne := by omega }, rfl, hfieldType.symm⟩

/-- At the end of a followed array the traversal is the intended one. -/
theorem FollowedArray.Following.structArrayVisited {array : FollowedArray data}
    {shown : List EventHeaderEnumeratorContext} (h : array.Following shown c)
    (hsubstate : c.substate = .arrayEnd) (hdepth : c.stackIndex = array.first.stackIndex)
    (hfieldType : array.field.fieldType = array.first.fieldType) :
    StructArrayVisited data array.first array.field shown c := by
  have hat := h.atArray hdepth
  have hcountLast : c.stackTop.arrayCount = array.first.stackTop.arrayCount := hat.count_eq
  have hcount := array.count_ne
  have hvisited := hat.visited
  simp only [hsubstate] at hvisited
  rw [hcountLast] at hvisited
  refine ⟨hvisited.visits_eq, hvisited.visits_start, fun index hindex ↦ ?_, hat.name_eq, ?_⟩
  · rw [hvisited.fields_eq, if_pos hindex, ← hfieldType]
    rfl
  · obtain ⟨fieldLast, htop⟩ := h.top
    have hcursor := htop.cursor
    unfold CursorOk at hcursor
    simp only [hsubstate] at hcursor
    rw [if_neg (by omega), hat.name_eq, h.byteReader_eq, h.metaEnd_eq,
      behind_of_struct array.definition array.isStruct] at hcursor
    rw [← hfieldType]
    exact hcursor

/-- Assumes: an event that `enumerate_with_name_and_data` accepts, and a reachable state at the
begin of an array of structs with at least one element. In every run of moves from there through
regular states, up to the first end of an array at that depth: the enumeration does not end
earlier except in an error, at that end the array was traversed as intended, and the next item at
that depth is the field behind the body. -/
theorem structArray_visited (build : Build) (context : EventHeaderEnumeratorContext)
    (tracepointName data : List UInt8) (limit : ℕ) (start first : EventHeaderEnumeratorContext)
    (haccept : enumerateWithNameAndData data context tracepointName limit = .ok (.ok (), start))
    (hreaches : EnumeratorReaches build data start first) (hbegin : first.substate = .arrayBegin)
    (hstruct : FieldEncoding.withoutFlags first.fieldType.encoding = FieldEncoding.struct)
    (hcount : 1 ≤ first.stackTop.arrayCount) :
    ∃ field, definitionAt first.byteReader data first.metaEnd first.stackTop.nameOffset =
        some field ∧
      field.fieldType = first.fieldType ∧
      ∀ inner last, MoveRun build data first inner last →
        (∀ item ∈ first :: inner, Regular data item) →
        (∀ item ∈ inner.dropLast, ¬isArrayEndAt first.stackIndex item) →
          (¬isArrayEndAt first.stackIndex last → ∀ stopped,
            moveNextImpl build data last = .ok (false, stopped) → stopped.state = .error) ∧
          (isArrayEndAt first.stackIndex last →
            StructArrayVisited data first field inner last ∧
            ∀ next, moveNextImpl build data last = .ok (true, next) →
              next.stackIndex = last.stackIndex →
                next.startsField = true ∧
                  next.stackTop.nameOffset = last.stackTop.nextOffset) := by
  obtain ⟨hstart, _⟩ :=
    (enumerateWithNameAndData_returns tracepointName limit).of_eq_ok haccept rfl
  obtain ⟨hinv, _⟩ := hstart.reaches hreaches
  obtain ⟨array, rfl, hfieldType⟩ := hinv.followedArray hbegin hstruct hcount
  refine ⟨array.field, array.definition, hfieldType, fun inner last hrun hregular hinner ↦ ?_⟩
  obtain ⟨hfollowing, hinvLast, hvalue, _⟩ :=
    FollowedArray.following_run hinv hbegin hrun hregular hinner
  have hcanMove := hfollowing.canMoveNext
  refine ⟨fun hend stopped hstopped ↦ ?_, fun hlast ↦ ?_⟩
  · have hstep := (moveNextImpl_returns hinvLast hcanMove hvalue).of_eq_ok hstopped
    exact hfollowing.ends_in_error hinvLast hend hstep
  · have hsubstate : last.substate = .arrayEnd := by
      have heq := hinvLast.state_eq hvalue
      rw [hlast.1] at heq
      cases hsub : last.substate <;> rw [hsub] at heq <;> trivial
    refine ⟨hfollowing.structArrayVisited hsubstate hlast.2 hfieldType, fun next hnext hdepth ↦ ?_⟩
    have hstep := (moveNextImpl_returns hinvLast hcanMove hvalue).of_eq_ok hnext
    have hcountLast : last.stackTop.arrayCount = array.first.stackTop.arrayCount :=
      (hfollowing.atArray hlast.2).count_eq
    exact hstep.behindArrayEnd hsubstate (by omega) hdepth

/-- The context after so many moves. -/
def movedBy (build : Build) (data : List UInt8) (c : EventHeaderEnumeratorContext) :
    ℕ → EventHeaderEnumeratorContext
  | 0 => c
  | count + 1 => contextOf (moveNextImpl build data (movedBy build data c count))

/-- The items that so many moves show. -/
def shownBy (build : Build) (data : List UInt8) (c : EventHeaderEnumeratorContext) (count : ℕ) :
    List EventHeaderEnumeratorContext :=
  (List.range count).map fun index ↦ movedBy build data c (index + 1)

theorem moveRun_shownBy (c : EventHeaderEnumeratorContext) (count : ℕ)
    (h : ∀ index < count, moveNextImpl build data (movedBy build data c index) =
      .ok (true, movedBy build data c (index + 1))) :
    MoveRun build data c (shownBy build data c count) (movedBy build data c count) := by
  induction count with
  | zero => exact .nil
  | succ count ih =>
    rw [shownBy, List.range_succ, List.map_append]
    exact .snoc (ih fun index hindex ↦ h index (by omega)) (h count (by omega))

/-- An event `n` with an array `s` of two structs of one `u8` field `b`, of variable length. -/
def sampleStructsEvent : List UInt8 :=
  [6, 0, 0, 0, 0, 0, 0, 5] ++ [9, 0, 1, 0] ++ [110, 0, 115, 0, 193, 1, 98, 0, 2] ++ [2, 0, 7, 8]

/-- The event of structs before its first item. -/
def sampleStructsStart : EventHeaderEnumeratorContext :=
  contextOf (enumerateWithNameAndData sampleStructsEvent new sampleName 20)

/-- The event of structs after so many moves from the begin of its array. -/
def sampleStructs (count : ℕ) : EventHeaderEnumeratorContext :=
  movedBy ⟨true, .little, true⟩ sampleStructsEvent
    (movedBy ⟨true, .little, true⟩ sampleStructsEvent sampleStructsStart 1) count

instance (data : List UInt8) (c : EventHeaderEnumeratorContext) : Decidable (Regular data c) :=
  decidable_of_iff
    ((c.substate = .arrayBegin →
      FieldEncoding.withoutFlags c.fieldType.encoding = FieldEncoding.struct →
        c.fieldType.hasCount = true → c.stackTop.arrayCount ≤ 1) ∧
    (c.substate = .arrayEnd →
      FieldEncoding.withoutFlags c.fieldType.encoding = FieldEncoding.struct →
        c.stackTop.arrayCount = 0 →
          counterFits c.byteReader data c.metaEnd c.fieldType.format.toNat
            c.stackTop.nextOffset = true))
    ⟨fun h ↦ ⟨h.1, h.2⟩, fun h ↦ ⟨h.array, h.skip⟩⟩

/-- The two structs of the array are visited as intended by seven moves. -/
theorem sampleStructsEvent_visited :
    (sampleStructs 0).stackTop.arrayCount = 2 ∧ isArrayEndAt 0 (sampleStructs 7) ∧
      ∃ field, StructArrayVisited sampleStructsEvent (sampleStructs 0) field
        (shownBy ⟨true, .little, true⟩ sampleStructsEvent (sampleStructs 0) 7)
        (sampleStructs 7) := by
  have haccept : enumerateWithNameAndData sampleStructsEvent new sampleName 20 =
      .ok (.ok (), sampleStructsStart) := by decide +kernel
  have hfirst : moveNextImpl ⟨true, .little, true⟩ sampleStructsEvent sampleStructsStart =
      .ok (true, sampleStructs 0) := by decide +kernel
  have hpermitted : EnumeratorOp.moveNext.Permitted sampleStructsStart := by decide +kernel
  have hend : isArrayEndAt (sampleStructs 0).stackIndex (sampleStructs 7) := by decide +kernel
  have hrun : MoveRun ⟨true, .little, true⟩ sampleStructsEvent (sampleStructs 0)
      (shownBy ⟨true, .little, true⟩ sampleStructsEvent (sampleStructs 0) 7)
      (sampleStructs 7) := moveRun_shownBy _ _ (by decide +kernel)
  obtain ⟨field, _, _, hvisited⟩ := structArray_visited ⟨true, .little, true⟩ new sampleName
    sampleStructsEvent 20 sampleStructsStart (sampleStructs 0) haccept
    (.step .refl hpermitted hfirst) (by decide +kernel) (by decide +kernel) (by decide +kernel)
  obtain ⟨_, hlast⟩ := hvisited _ _ hrun (by decide +kernel) (by decide +kernel)
  exact ⟨by decide +kernel, by decide +kernel, field, (hlast hend).1⟩

/-- An event `n` with an array `s` of two structs of one `u8` field `\x04`, of constant length. -/
def constantStructsEvent : List UInt8 :=
  [6, 0, 0, 0, 0, 0, 0, 5] ++ [11, 0, 1, 0] ++ [110, 0, 115, 0, 161, 1, 2, 0, 4, 0, 2] ++
    [7, 1, 2, 3, 4, 9]

/-- The event of constant length before its first item. -/
def constantStructsStart : EventHeaderEnumeratorContext :=
  contextOf (enumerateWithNameAndData constantStructsEvent new sampleName 20)

/-- The event of constant length after so many moves from the begin of its array. -/
def constantStructs (count : ℕ) : EventHeaderEnumeratorContext :=
  movedBy ⟨true, .little, true⟩ constantStructsEvent
    (movedBy ⟨true, .little, true⟩ constantStructsEvent constantStructsStart 1) count

/-- The second visit of the array of constant length starts at the element count, two bytes early,
and shows another field; the enumeration ends without an error. -/
theorem constantStructsEvent_not_visited :
    enumerateWithNameAndData constantStructsEvent new sampleName 20 =
        .ok (.ok (), constantStructsStart) ∧
      EnumeratorReaches ⟨true, .little, true⟩ constantStructsEvent constantStructsStart
        (constantStructs 0) ∧
      (constantStructs 0).substate = .arrayBegin ∧
      FieldEncoding.withoutFlags (constantStructs 0).fieldType.encoding = FieldEncoding.struct ∧
      (constantStructs 0).stackTop.arrayCount = 2 ∧
      (constantStructs 0).fieldType.format.toNat = 1 ∧
      MoveRun ⟨true, .little, true⟩ constantStructsEvent (constantStructs 0)
        (shownBy ⟨true, .little, true⟩ constantStructsEvent (constantStructs 0) 7)
        (constantStructs 7) ∧
      isArrayEndAt 0 (constantStructs 7) ∧
      (constantStructs 9).state = .afterLastItem ∧
      ∀ field, definitionAt (constantStructs 0).byteReader constantStructsEvent
          (constantStructs 0).metaEnd (constantStructs 0).stackTop.nameOffset = some field →
        ¬StructArrayVisited constantStructsEvent (constantStructs 0) field
          (shownBy ⟨true, .little, true⟩ constantStructsEvent (constantStructs 0) 7)
          (constantStructs 7) := by
  have haccept : enumerateWithNameAndData constantStructsEvent new sampleName 20 =
      .ok (.ok (), constantStructsStart) := by decide +kernel
  have hfirst : moveNextImpl ⟨true, .little, true⟩ constantStructsEvent constantStructsStart =
      .ok (true, constantStructs 0) := by decide +kernel
  have hpermitted : EnumeratorOp.moveNext.Permitted constantStructsStart := by decide +kernel
  refine ⟨haccept, .step .refl hpermitted hfirst, by decide +kernel, by decide +kernel,
    by decide +kernel, by decide +kernel, moveRun_shownBy _ _ (by decide +kernel),
    by decide +kernel, by decide +kernel, fun field _ hvisited ↦ ?_⟩
  have hsecond : constantStructs 4 ∈ visits (constantStructs 0).stackIndex
      (shownBy ⟨true, .little, true⟩ constantStructsEvent (constantStructs 0) 7) := by
    decide +kernel
  have hinitial : constantStructs 1 ∈ visits (constantStructs 0).stackIndex
      (shownBy ⟨true, .little, true⟩ constantStructsEvent (constantStructs 0) 7) := by
    decide +kernel
  have heq := (hvisited.visits_start _ hsecond).trans (hvisited.visits_start _ hinitial).symm
  revert heq
  decide +kernel

end EventHeaderEnumeratorContext

end Tracepoints
