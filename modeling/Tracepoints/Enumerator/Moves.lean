import Tracepoints.Enumerator.Context

/-!
# The moves of the EventHeader enumerator

`next_property`, `skip_struct_metadata`, `move_next_impl`, `move_next_sibling_impl` and
`move_next_metadata_impl` of `tracepoint_decode/src/enumerator.rs`, what an enumerator shows of its
context, and the operations a caller may apply in a state.

A loop of the source is a recursion on the number of iterations it is allowed; the loop over field
definitions is allowed one for every metadata byte left, the sibling loop one more than the
remaining budget. Running out would be the fault `unfinished`.
-/

set_option autoImplicit false
set_option relaxedAutoImplicit false

namespace Tracepoints

open Exec

namespace EventHeaderEnumeratorContext

variable (build : Build) (data : List UInt8) (c : EventHeaderEnumeratorContext)

/-! ### Properties -/

/-- The field counter of `skip_struct_metadata` with the fields of a nested struct added to it. -/
def addStructFields (remainingFieldCount : ℕ) (typ : FieldType) : Exec ℕ :=
  if FieldEncoding.withoutFlags typ.encoding = FieldEncoding.struct then
    addU8 build remainingFieldCount typ.format.toNat
  else .ok remainingFieldCount

/-- The loop of `skip_struct_metadata`. The counter is a `u8`: it may overflow. -/
def skipStructMetadataLoop : ℕ → ℕ → EventHeaderEnumeratorContext →
    Exec (Bool × EventHeaderEnumeratorContext)
  | fuel, remainingFieldCount, c =>
    if remainingFieldCount = 0 ∨ c.stackTop.nextOffset = c.metaEnd then .ok (true, c)
    else
      match fuel with
      | 0 => .error .unfinished
      | fuel + 1 => do
        let c := { c with stackTop := { c.stackTop with nameOffset := c.stackTop.nextOffset } }
        let (typ, c) ← readFieldNameAndType build data c
        if typ.encoding = readFieldError then .ok (c.setErrorState .invalidData)
        else do
          let remainingFieldCount ← addStructFields build remainingFieldCount typ
          if ¬FieldEncoding.isConstantLengthArray typ.encoding then do
            skipStructMetadataLoop fuel (← subU8 build remainingFieldCount 1) c
          else if ¬FieldEncoding.isVariableLengthArray typ.encoding then
            if (← sub c.metaEnd c.stackTop.nextOffset) < 2 then
              .ok (c.setErrorState .invalidData)
            else do
              let c := { c with
                stackTop := { c.stackTop with nextOffset := c.stackTop.nextOffset + 2 } }
              skipStructMetadataLoop fuel (← subU8 build remainingFieldCount 1) c
          else .ok (c.setErrorState .notSupported)

/-- `skip_struct_metadata`. -/
def skipStructMetadata : Exec (Bool × EventHeaderEnumeratorContext) := do
  debugAssert build (FieldEncoding.withoutFlags c.fieldType.encoding = FieldEncoding.struct)
  skipStructMetadataLoop build data (c.metaEnd - c.stackTop.nextOffset)
    c.fieldType.format.toNat c

/-- The first branch of `next_property`: decode the field definition at `nextOffset`. -/
def decodeField : Exec (Bool × EventHeaderEnumeratorContext) := do
  let c := { c with
    stackTop :=
      { c.stackTop with
        remainingFieldCount := c.stackTop.remainingFieldCount - 1
        arrayIndex := 0
        nameOffset := c.stackTop.nextOffset } }
  let (fieldType, c) ← readFieldNameAndType build data c
  let c := { c with fieldType := fieldType }
  if c.fieldType.encoding = readFieldError then .ok (c.setErrorState .invalidData)
  else if ¬FieldEncoding.isArray c.fieldType.encoding then
    let c := { c with stackTop := { c.stackTop with arrayCount := 1 } }
    if FieldEncoding.struct ≠ c.fieldType.encoding then
      startValue build data (c.setState .value .valueScalar)
    else if c.fieldType.format = FieldFormat.default then .ok (c.setErrorState .invalidData)
    else return (true, ← startStruct build c)
  else if FieldEncoding.isVariableLengthArray c.fieldType.encoding then
    if (← sub data.length c.dataPosRaw) < 2 then .ok (c.setErrorState .invalidData)
    else do
      let arrayCount ← readUInt c.byteReader 2 data c.dataPosRaw
      let c := { c with
        stackTop := { c.stackTop with arrayCount := arrayCount }
        dataPosRaw := c.dataPosRaw + 2 }
      startArray c data.length
  else if FieldEncoding.isConstantLengthArray c.fieldType.encoding then
    if (← sub c.metaEnd c.stackTop.nextOffset) < 2 then .ok (c.setErrorState .invalidData)
    else do
      let arrayCount ← readUInt c.byteReader 2 data c.stackTop.nextOffset
      let c := { c with
        stackTop :=
          { c.stackTop with
            arrayCount := arrayCount
            nextOffset := c.stackTop.nextOffset + 2 } }
      if c.stackTop.arrayCount = 0 then .ok (c.setErrorState .invalidData)
      else startArray c data.length
  else .ok (c.setErrorState .notSupported)

/-- The second branch of `next_property`: pop the struct whose fields are done. -/
def popStruct : Exec (Bool × EventHeaderEnumeratorContext) := do
  let stackIndex := c.stackIndex - 1
  let childMetadataOffset := c.stackTop.nextOffset
  if h : stackIndex < 8 then do
    let c := { c with stackIndex := stackIndex, stackTop := c.stack[stackIndex] }
    let (fieldType, c) ← readFieldType build data c
      (c.stackTop.nameOffset + c.stackTop.nameLen + 1)
    let c := { c with fieldType := fieldType }
    debugAssert build (FieldEncoding.struct = FieldEncoding.withoutFlags c.fieldType.encoding)
    let c := { c with elementSize := 0 }
    debugAssert build (c.stackTop.arrayIndex < c.stackTop.arrayCount)
    let c :=
      if c.stackTop.arrayIndex + 1 = c.stackTop.arrayCount then
        { c with stackTop := { c.stackTop with nextOffset := childMetadataOffset } }
      else c
    .ok (true, c.setEndState .structEnd .structEnd)
  else .error .indexOutOfRange

/-- `next_property`. -/
def nextProperty : Exec (Bool × EventHeaderEnumeratorContext) :=
  if c.stackTop.remainingFieldCount ≠ 0 ∧ c.stackTop.nextOffset ≠ c.metaEnd then
    decodeField build data c
  else if c.stackIndex ≠ 0 then
    popStruct build data c
  else if c.stackTop.nextOffset ≠ c.metaEnd then
    .ok (c.setErrorState .notSupported)
  else
    .ok (false, c.setEndState .afterLastItem .afterLastItem)

/-! ### Moves -/

/-- The bound that `move_next_impl` asserts of the current value. -/
def ValueInRange : Prop :=
  c.dataPosRaw ≤ data.length ∧ c.itemSizeRaw ≤ data.length - c.dataPosRaw

instance : Decidable (ValueInRange data c) := inferInstanceAs (Decidable (_ ∧ _))

/-- `move_next_impl` from `ValueScalar`. -/
def moveNextValueScalar : Exec (Bool × EventHeaderEnumeratorContext) := do
  debugAssert build (c.state = .value)
  debugAssert build (FieldEncoding.withoutFlags c.fieldType.encoding ≠ FieldEncoding.struct)
  debugAssert build (¬FieldEncoding.isArray c.fieldType.encoding)
  debugAssert build (ValueInRange data c)
  nextProperty build data { c with dataPosRaw := c.dataPosRaw + c.itemSizeRaw }

/-- `move_next_impl` from `ValueSimpleArrayElement`. -/
def moveNextSimpleArrayElement : Exec (Bool × EventHeaderEnumeratorContext) := do
  debugAssert build (c.state = .value)
  debugAssert build (FieldEncoding.withoutFlags c.fieldType.encoding ≠ FieldEncoding.struct)
  debugAssert build (FieldEncoding.isArray c.fieldType.encoding)
  debugAssert build (c.stackTop.arrayIndex < c.stackTop.arrayCount)
  debugAssert build (c.elementSize ≠ 0)
  debugAssert build (ValueInRange data c)
  let c := { c with
    dataPosRaw := c.dataPosRaw + c.itemSizeRaw
    stackTop := { c.stackTop with arrayIndex := c.stackTop.arrayIndex + 1 } }
  if c.stackTop.arrayCount = c.stackTop.arrayIndex then
    .ok (true, c.setEndState .arrayEnd .arrayEnd)
  else return (true, ← startValueSimple build c)

/-- `move_next_impl` from `ValueComplexArrayElement`. -/
def moveNextComplexArrayElement : Exec (Bool × EventHeaderEnumeratorContext) := do
  debugAssert build (c.state = .value)
  debugAssert build (FieldEncoding.withoutFlags c.fieldType.encoding ≠ FieldEncoding.struct)
  debugAssert build (FieldEncoding.isArray c.fieldType.encoding)
  debugAssert build (c.stackTop.arrayIndex < c.stackTop.arrayCount)
  debugAssert build (c.elementSize = 0)
  debugAssert build (ValueInRange data c)
  let c := { c with
    dataPosRaw := c.dataPosRaw + c.itemSizeRaw
    stackTop := { c.stackTop with arrayIndex := c.stackTop.arrayIndex + 1 } }
  if c.stackTop.arrayCount = c.stackTop.arrayIndex then
    .ok (true, c.setEndState .arrayEnd .arrayEnd)
  else startValue build data c

/-- `move_next_impl` from `ArrayBegin`. -/
def moveNextArrayBegin : Exec (Bool × EventHeaderEnumeratorContext) := do
  debugAssert build (c.state = .arrayBegin)
  debugAssert build (FieldEncoding.isArray c.fieldType.encoding)
  debugAssert build (c.stackTop.arrayIndex = 0)
  if c.stackTop.arrayCount = 0 then
    .ok (true, c.setEndState .arrayEnd .arrayEnd)
  else if c.elementSize ≠ 0 then do
    debugAssert build (FieldEncoding.withoutFlags c.fieldType.encoding ≠ FieldEncoding.struct)
    let c := { c with itemSizeCooked := c.elementSize, itemSizeRaw := c.elementSize }
    return (true, ← startValueSimple build (c.setState .value .valueSimpleArrayElement))
  else if FieldEncoding.withoutFlags c.fieldType.encoding ≠ FieldEncoding.struct then
    startValue build data (c.setState .value .valueComplexArrayElement)
  else return (true, ← startStruct build c)

/-- `move_next_impl` from `ArrayEnd`. -/
def moveNextArrayEnd : Exec (Bool × EventHeaderEnumeratorContext) := do
  debugAssert build (c.state = .arrayEnd)
  debugAssert build (FieldEncoding.isArray c.fieldType.encoding)
  debugAssert build (c.stackTop.arrayCount = c.stackTop.arrayIndex)
  if FieldEncoding.withoutFlags c.fieldType.encoding = FieldEncoding.struct ∧
      c.stackTop.arrayCount = 0 then do
    let (skipped, c) ← skipStructMetadata build data c
    if skipped then nextProperty build data c else .ok (false, c)
  else nextProperty build data c

/-- `move_next_impl` from `StructBegin`. -/
def moveNextStructBegin : Exec (Bool × EventHeaderEnumeratorContext) := do
  debugAssert build (c.state = .structBegin)
  if c.stackIndex ≥ structNestLimit then .ok (c.setErrorState .stackOverflow)
  else if h : c.stackIndex < 8 then
    nextProperty build data
      { c with
        stack := c.stack.set c.stackIndex c.stackTop
        stackIndex := c.stackIndex + 1
        stackTop := { c.stackTop with remainingFieldCount := c.fieldType.format.toNat } }
  else .error .indexOutOfRange

/-- `move_next_impl` from `StructEnd`. -/
def moveNextStructEnd : Exec (Bool × EventHeaderEnumeratorContext) := do
  debugAssert build (c.state = .structEnd)
  debugAssert build (FieldEncoding.withoutFlags c.fieldType.encoding = FieldEncoding.struct)
  debugAssert build (c.itemSizeRaw = 0)
  let c := { c with stackTop := { c.stackTop with arrayIndex := c.stackTop.arrayIndex + 1 } }
  if c.stackTop.arrayCount ≠ c.stackTop.arrayIndex then do
    debugAssert build (FieldEncoding.isArray c.fieldType.encoding)
    debugAssert build (c.stackTop.arrayIndex < c.stackTop.arrayCount)
    return (true, ← startStruct build c)
  else if FieldEncoding.isArray c.fieldType.encoding then
    .ok (true, c.setEndState .arrayEnd .arrayEnd)
  else nextProperty build data c

/-- The match of `move_next_impl` on the substate. -/
def moveNextSubstate : Exec (Bool × EventHeaderEnumeratorContext) :=
  match c.substate with
  | .beforeFirstItem => do
    debugAssert build (c.state = .beforeFirstItem)
    nextProperty build data c
  | .valueScalar => moveNextValueScalar build data c
  | .valueSimpleArrayElement => moveNextSimpleArrayElement build data c
  | .valueComplexArrayElement => moveNextComplexArrayElement build data c
  | .arrayBegin => moveNextArrayBegin build data c
  | .arrayEnd => moveNextArrayEnd build data c
  | .structBegin => moveNextStructBegin build data c
  | .structEnd => moveNextStructEnd build data c
  | .error | .afterLastItem | .valueMetadata => do
    debugAssert build False
    .ok (false, c)

/-- `move_next_impl`. -/
def moveNextImpl : Exec (Bool × EventHeaderEnumeratorContext) := do
  debugAssert build c.state.canMoveNext
  if c.moveNextRemaining = 0 then .ok (c.setErrorState .implementationLimit)
  else moveNextSubstate build data { c with moveNextRemaining := c.moveNextRemaining - 1 }

/-- The array that `move_next_sibling_impl` jumps over: simple elements and budget left. -/
def CanJumpArray : Prop :=
  c.state = .arrayBegin ∧ ¬(c.elementSize = 0 ∨ c.moveNextRemaining = 0)

instance : Decidable (CanJumpArray c) := inferInstanceAs (Decidable (_ ∧ _))

/-- The jump of `move_next_sibling_impl` over an array of simple elements. -/
def jumpArray : Exec (Bool × EventHeaderEnumeratorContext) := do
  debugAssert build (c.substate = .arrayBegin)
  debugAssert build (FieldEncoding.withoutFlags c.fieldType.encoding ≠ FieldEncoding.struct)
  debugAssert build (FieldEncoding.isArray c.fieldType.encoding)
  debugAssert build (c.stackTop.arrayIndex = 0)
  nextProperty build data
    { c with
      dataPosRaw := c.dataPosRaw + c.stackTop.arrayCount * c.elementSize
      moveNextRemaining := c.moveNextRemaining - 1 }

/-- The depth after the current item, as `move_next_sibling_impl` counts it. -/
def siblingDepth (depth : ℤ) : EventHeaderEnumeratorState → ℤ
  | .arrayEnd | .structEnd => depth - 1
  | .structBegin | .arrayBegin => depth + 1
  | _ => depth

/-- The loop of `move_next_sibling_impl`. -/
def moveNextSiblingLoop : ℕ → ℤ → EventHeaderEnumeratorContext →
    Exec (Bool × EventHeaderEnumeratorContext)
  | 0, _, _ => .error .unfinished
  | fuel + 1, depth, c =>
    if CanJumpArray c then do
      let (movedToItem, c) ← jumpArray build data c
      if ¬movedToItem ∨ depth ≤ 0 then .ok (movedToItem, c)
      else moveNextSiblingLoop fuel depth c
    else do
      let depth := siblingDepth depth c.state
      let (movedToItem, c) ← moveNextImpl build data c
      if ¬movedToItem ∨ depth ≤ 0 then .ok (movedToItem, c)
      else moveNextSiblingLoop fuel depth c

/-- `move_next_sibling_impl`. -/
def moveNextSiblingImpl : Exec (Bool × EventHeaderEnumeratorContext) := do
  debugAssert build c.state.canMoveNext
  moveNextSiblingLoop build data (c.moveNextRemaining + 1) 0 c

/-- The field definition that `move_next_metadata_impl` shows next. -/
def nextFieldMetadata : Exec (Bool × EventHeaderEnumeratorContext) := do
  let c := { c with stackTop := { c.stackTop with nameOffset := c.stackTop.nextOffset } }
  let (fieldType, c) ← readFieldNameAndType build data c
  let c := { c with fieldType := fieldType }
  if c.fieldType.encoding = readFieldError then .ok (c.setErrorState .invalidData)
  else if FieldEncoding.struct = FieldEncoding.withoutFlags c.fieldType.encoding ∧
      c.fieldType.format = FieldFormat.default then .ok (c.setErrorState .invalidData)
  else if ¬FieldEncoding.isArray c.fieldType.encoding then
    let c := { c with stackTop := { c.stackTop with arrayCount := 1 } }
    .ok (true, c.setState .value .valueMetadata)
  else if FieldEncoding.isVariableLengthArray c.fieldType.encoding then
    let c := { c with stackTop := { c.stackTop with arrayCount := 0 } }
    .ok (true, c.setState .arrayBegin .valueMetadata)
  else if FieldEncoding.isConstantLengthArray c.fieldType.encoding then
    if (← sub c.metaEnd c.stackTop.nextOffset) < 2 then .ok (c.setErrorState .invalidData)
    else do
      let arrayCount ← readUInt c.byteReader 2 data c.stackTop.nextOffset
      let c := { c with
        stackTop :=
          { c.stackTop with
            arrayCount := arrayCount
            nextOffset := c.stackTop.nextOffset + 2 } }
      if c.stackTop.arrayCount = 0 then .ok (c.setErrorState .invalidData)
      else .ok (true, c.setState .arrayBegin .valueMetadata)
  else .ok (c.setErrorState .notSupported)

/-- The begin of `move_next_metadata_impl`: the switch to metadata enumeration. -/
def startMetadata : Exec EventHeaderEnumeratorContext :=
  if c.substate ≠ .valueMetadata then do
    debugAssert build (c.state = .beforeFirstItem)
    debugAssert build (c.substate = .beforeFirstItem)
    .ok
      { c with
        stackTop := { c.stackTop with arrayIndex := 0 }
        dataPosCooked := data.length
        itemSizeCooked := 0
        elementSize := 0
        state := .value
        substate := .valueMetadata }
  else .ok c

/-- `move_next_metadata_impl`. -/
def moveNextMetadataImpl : Exec (Bool × EventHeaderEnumeratorContext) := do
  let c ← startMetadata build data c
  debugAssert build (c.state = .value ∨ c.state = .arrayBegin)
  if c.stackTop.nextOffset ≠ c.metaEnd then nextFieldMetadata build data c
  else .ok (false, c.setEndState .afterLastItem .afterLastItem)

end EventHeaderEnumeratorContext

end Tracepoints
