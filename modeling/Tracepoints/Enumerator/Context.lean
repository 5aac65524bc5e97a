import Tracepoints.Enumerator.Types

/-!
# The state of the EventHeader enumerator

The enumerator context of `tracepoint_decode/src/enumerator.rs`: its state, substate and stack
entries, the readers of a field definition, and the functions that start a value, an array or a
struct. Offsets are natural numbers; an accepted event is shorter than 2 GiB, so the `u32` casts of
the source are exact, and the casts to `u16` are written out. Indexing, subtractions and debug
assertions are the checked primitives of `Exec`.
-/

set_option autoImplicit false
set_option relaxedAutoImplicit false

namespace Tracepoints

open Exec

/-- `EventHeaderEnumeratorError`. -/
inductive EventHeaderEnumeratorError
  | success
  | invalidParameter
  | notSupported
  | implementationLimit
  | invalidData
  | stackOverflow
  | notEventHeader
  deriving DecidableEq, Repr

/-- `EventHeaderEnumeratorState`. -/
inductive EventHeaderEnumeratorState
  | error
  | afterLastItem
  | beforeFirstItem
  | value
  | arrayBegin
  | arrayEnd
  | structBegin
  | structEnd
  deriving DecidableEq, Repr

namespace EventHeaderEnumeratorState

/-- `can_move_next`: the states from `BeforeFirstItem` on. -/
def canMoveNext : EventHeaderEnumeratorState → Bool
  | error | afterLastItem => false
  | _ => true

/-- `can_item_info`: the states from `Value` on. -/
def canItemInfo : EventHeaderEnumeratorState → Bool
  | error | afterLastItem | beforeFirstItem => false
  | _ => true

end EventHeaderEnumeratorState

/-- `SubState`. -/
inductive SubState
  | error
  | afterLastItem
  | beforeFirstItem
  | valueMetadata
  | valueScalar
  | valueSimpleArrayElement
  | valueComplexArrayElement
  | arrayBegin
  | arrayEnd
  | structBegin
  | structEnd
  deriving DecidableEq, Repr

/-- `StackEntry`. -/
structure StackEntry where
  /-- Offset of the next field's name. -/
  nextOffset : ℕ
  /-- Offset of the current field's name. -/
  nameOffset : ℕ
  nameLen : ℕ
  arrayIndex : ℕ
  arrayCount : ℕ
  /-- Number of `nextProperty` calls before popping the stack. -/
  remainingFieldCount : ℕ
  deriving DecidableEq, Repr

/-- `StackEntry::ZERO`. -/
def StackEntry.zero : StackEntry := ⟨0, 0, 0, 0, 0, 0⟩

/-- `EventHeaderEnumeratorContext`. -/
structure EventHeaderEnumeratorContext where
  header : EventHeader
  keyword : ℕ
  metaStart : ℕ
  metaEnd : ℕ
  activityIdStart : ℕ
  activityIdLen : ℕ
  byteReader : ByteOrder
  eventNameLen : ℕ
  dataStart : ℕ
  dataPosRaw : ℕ
  moveNextRemaining : ℕ
  stackTop : StackEntry
  stackIndex : ℕ
  state : EventHeaderEnumeratorState
  substate : SubState
  lastError : EventHeaderEnumeratorError
  elementSize : ℕ
  fieldType : FieldType
  dataPosCooked : ℕ
  itemSizeRaw : ℕ
  itemSizeCooked : ℕ
  stack : Vector StackEntry 8
  deriving DecidableEq, Repr

namespace EventHeaderEnumeratorContext

def readFieldError : FieldEncoding := FieldEncoding.invalid

def moveNextLimitDefault : ℕ := 4096

def structNestLimit : ℕ := 8

/-- `EventHeaderEnumeratorContext::new`. -/
def new : EventHeaderEnumeratorContext where
  header := ⟨0, 0, 0, 0, 0, 0⟩
  keyword := 0
  metaStart := 0
  metaEnd := 0
  activityIdStart := 0
  activityIdLen := 0
  byteReader := .little
  eventNameLen := 0
  dataStart := 0
  dataPosRaw := 0
  moveNextRemaining := 0
  stackTop := .zero
  stackIndex := 0
  state := .error
  substate := .error
  lastError := .success
  elementSize := 0
  fieldType := ⟨FieldEncoding.invalid, FieldFormat.default, 0⟩
  dataPosCooked := 0
  itemSizeRaw := 0
  itemSizeCooked := 0
  stack := Vector.replicate 8 .zero

variable (build : Build) (data : List UInt8) (c : EventHeaderEnumeratorContext)

/-! ### State changes -/

/-- `set_state`. -/
def setState (state : EventHeaderEnumeratorState) (substate : SubState) :
    EventHeaderEnumeratorContext :=
  { c with state := state, substate := substate }

/-- `set_end_state`. -/
def setEndState (state : EventHeaderEnumeratorState) (substate : SubState) :
    EventHeaderEnumeratorContext :=
  { c with
    dataPosCooked := c.dataPosRaw
    itemSizeRaw := 0
    itemSizeCooked := 0
    state := state
    substate := substate }

/-- `set_error_state`. -/
def setErrorState (error : EventHeaderEnumeratorError) : Bool × EventHeaderEnumeratorContext :=
  (false, { c with lastError := error, state := .error, substate := .error })

/-- `reset_impl`. -/
def resetImpl (moveNextLimit : ℕ) : EventHeaderEnumeratorContext :=
  { c with
    dataPosRaw := c.dataStart
    moveNextRemaining := moveNextLimit
    stackTop :=
      { c.stackTop with
        nextOffset := c.metaStart + c.eventNameLen + 1
        remainingFieldCount := 255 }
    stackIndex := 0
    state := .beforeFirstItem
    substate := .beforeFirstItem
    lastError := .success }

/-! ### Field definitions -/

/-- The loop `while pos < stop && data[pos] != 0`, over the positions left. -/
def findNulLoop : ℕ → ℕ → Exec ℕ
  | 0, pos => .ok pos
  | count + 1, pos => do
    let byte ← byteAt data pos
    if byte = 0 then .ok pos else findNulLoop count (pos + 1)

/-- The position of the first NUL from `start` on, or `stop`. -/
def findNul (start stop : ℕ) : Exec ℕ :=
  findNulLoop data (stop - start) start

/-- `read_field_type`: the field type at an offset; moves `nextOffset` behind it. -/
def readFieldType (typeOffset : ℕ) : Exec (FieldType × EventHeaderEnumeratorContext) := do
  debugAssert build (c.metaEnd > typeOffset)
  let encoding ← byteAt data typeOffset
  let pos := typeOffset + 1
  let finish (encoding : FieldEncoding) (format : FieldFormat) (tag pos : ℕ) :
      Exec (FieldType × EventHeaderEnumeratorContext) :=
    .ok (⟨FieldEncoding.withoutChainFlag encoding, FieldFormat.withoutFlags format, tag⟩,
      { c with stackTop := { c.stackTop with nextOffset := pos } })
  if FieldEncoding.hasChainFlag encoding then
    if c.metaEnd = pos then
      finish readFieldError FieldFormat.default 0 pos
    else do
      let format ← byteAt data pos
      let pos := pos + 1
      if FieldFormat.hasChainFlag format then
        if (← sub c.metaEnd pos) < 2 then
          finish readFieldError format 0 pos
        else do
          let tag ← readUInt c.byteReader 2 data pos
          finish encoding format tag (pos + 2)
      else
        finish encoding format 0 pos
  else
    finish encoding FieldFormat.default 0 pos

/-- `read_field_name_and_type`: the field definition at `nameOffset`. -/
def readFieldNameAndType : Exec (FieldType × EventHeaderEnumeratorContext) := do
  let nameBegin := c.stackTop.nameOffset
  debugAssert build (c.metaEnd ≥ nameBegin)
  let nameEnd ← findNul data nameBegin c.metaEnd
  if (← sub c.metaEnd nameEnd) < 2 then
    .ok (⟨readFieldError, FieldFormat.default, 0⟩, c)
  else do
    let nameLen ← sub nameEnd nameBegin
    let c := { c with stackTop := { c.stackTop with nameLen := nameLen % 65536 } }
    readFieldType build data c (nameEnd + 1)

/-! ### Starting items -/

/-- `start_struct`. -/
def startStruct : Exec EventHeaderEnumeratorContext := do
  debugAssert build (FieldEncoding.withoutFlags c.fieldType.encoding = FieldEncoding.struct)
  .ok
    { c with
      elementSize := 0
      itemSizeRaw := 0
      dataPosCooked := c.dataPosRaw
      itemSizeCooked := 0
      state := .structBegin
      substate := .structBegin }

/-- The element size `start_array` gives a simple encoding, 0 for a complex one, and the error of
an unknown one. -/
def arrayElementSize (encoding : FieldEncoding) : Except EventHeaderEnumeratorError ℕ :=
  if encoding = FieldEncoding.struct then .ok 0
  else if encoding = FieldEncoding.value8 then .ok 1
  else if encoding = FieldEncoding.value16 then .ok 2
  else if encoding = FieldEncoding.value32 then .ok 4
  else if encoding = FieldEncoding.value64 then .ok 8
  else if encoding = FieldEncoding.value128 then .ok 16
  else if encoding = FieldEncoding.zStringChar8 ∨ encoding = FieldEncoding.zStringChar16 ∨
      encoding = FieldEncoding.zStringChar32 ∨ encoding = FieldEncoding.stringLength16Char8 ∨
      encoding = FieldEncoding.stringLength16Char16 ∨
      encoding = FieldEncoding.stringLength16Char32 ∨
      encoding = FieldEncoding.binaryLength16Char8 then .ok 0
  else if encoding = FieldEncoding.invalid then .error .invalidData
  else .error .notSupported

/-- `start_array`. -/
def startArray (eventDataLen : ℕ) : Exec (Bool × EventHeaderEnumeratorContext) :=
  let c := { c with
    elementSize := 0
    itemSizeRaw := 0
    dataPosCooked := c.dataPosRaw
    itemSizeCooked := 0
    state := .arrayBegin
    substate := .arrayBegin }
  match arrayElementSize (FieldEncoding.withoutFlags c.fieldType.encoding) with
  | .error error => .ok (c.setErrorState error)
  | .ok 0 => .ok (true, c)
  | .ok elementSize => do
    let c := { c with elementSize := elementSize }
    let remainingLen ← sub eventDataLen c.dataPosRaw
    let arrayLen := c.stackTop.arrayCount * c.elementSize
    if remainingLen < arrayLen then .ok (c.setErrorState .invalidData)
    else .ok (true, { c with itemSizeCooked := arrayLen, itemSizeRaw := arrayLen })

/-- `start_value_simple`. -/
def startValueSimple : Exec EventHeaderEnumeratorContext := do
  debugAssert build (c.stackTop.arrayIndex < c.stackTop.arrayCount)
  debugAssert build (FieldEncoding.isArray c.fieldType.encoding)
  debugAssert build (FieldEncoding.withoutFlags c.fieldType.encoding ≠ FieldEncoding.struct)
  debugAssert build (c.elementSize ≠ 0)
  debugAssert build (c.itemSizeCooked = c.elementSize)
  debugAssert build (c.itemSizeRaw = c.elementSize)
  debugAssert build (c.state = .value)
  .ok { c with dataPosCooked := c.dataPosRaw }

/-- `start_value_fixed_length`. -/
def startValueFixedLength (size : ℕ) : Exec (Bool × EventHeaderEnumeratorContext) := do
  let c := { c with elementSize := size }
  let remainingLen ← sub data.length c.dataPosRaw
  if size > remainingLen then
    .ok ({ c with itemSizeCooked := 0, itemSizeRaw := 0 }.setErrorState .invalidData)
  else
    .ok (true, { c with itemSizeCooked := size, itemSizeRaw := size })

/-- The loop of `start_value_zstring{8,16,32}`: the first element of zero bytes, in steps of
`elementSize`, over the positions left below `endPos`. -/
def findZeroElementLoop (elementSize endPos : ℕ) : ℕ → ℕ → Exec (Option ℕ)
  | 0, _ => .ok none
  | count + 1, pos =>
    if pos < endPos then do
      let element ← slice data pos (pos + elementSize)
      if element.all (· = 0) then .ok (some pos)
      else findZeroElementLoop elementSize endPos count (pos + elementSize)
    else .ok none

/-- `start_value_zstring8`, `start_value_zstring16` and `start_value_zstring32`, which differ in
the element size. -/
def startValueZstring (elementSize : ℕ) : Exec EventHeaderEnumeratorContext := do
  let endPos := (← sub data.length elementSize) + 1
  let pos := c.dataPosRaw
  match ← findZeroElementLoop data elementSize endPos (endPos - pos) pos with
  | some pos => do
    let itemSizeCooked ← sub pos c.dataPosRaw
    .ok { c with itemSizeCooked := itemSizeCooked, itemSizeRaw := itemSizeCooked + elementSize }
  | none => do
    let remaining ← sub data.length c.dataPosRaw
    .ok { c with itemSizeCooked := remaining, itemSizeRaw := remaining }

/-- `start_value_string`. -/
def startValueString (charSizeShift : ℕ) : Exec EventHeaderEnumeratorContext := do
  let remaining ← sub data.length c.dataPosRaw
  if remaining < 2 then
    .ok { c with itemSizeRaw := 2 }
  else do
    let c := { c with dataPosCooked := c.dataPosRaw + 2 }
    let cch ← readUInt c.byteReader 2 data c.dataPosRaw
    .ok { c with itemSizeCooked := cch * 2 ^ charSizeShift
                 itemSizeRaw := cch * 2 ^ charSizeShift + 2 }

/-- The check at the end of `start_value`, on the sizes a string encoding gave. -/
def finishValue (remainingLen : ℕ) : Bool × EventHeaderEnumeratorContext :=
  if remainingLen < c.itemSizeRaw then
    { c with itemSizeCooked := 0, itemSizeRaw := 0 }.setErrorState .invalidData
  else (true, c)

/-- `start_value`. -/
def startValue : Exec (Bool × EventHeaderEnumeratorContext) := do
  let remainingLen ← sub data.length c.dataPosRaw
  debugAssert build (c.state = .value)
  debugAssert build
    (data[c.stackTop.nameOffset + c.stackTop.nameLen + 1]?.map FieldEncoding.withoutChainFlag =
      some c.fieldType.encoding)
  let c := { c with dataPosCooked := c.dataPosRaw, elementSize := 0 }
  let encoding := FieldEncoding.withoutFlags c.fieldType.encoding
  if encoding = FieldEncoding.value8 then startValueFixedLength data c 1
  else if encoding = FieldEncoding.value16 then startValueFixedLength data c 2
  else if encoding = FieldEncoding.value32 then startValueFixedLength data c 4
  else if encoding = FieldEncoding.value64 then startValueFixedLength data c 8
  else if encoding = FieldEncoding.value128 then startValueFixedLength data c 16
  else if encoding = FieldEncoding.zStringChar8 then
    return finishValue (← startValueZstring data c 1) remainingLen
  else if encoding = FieldEncoding.zStringChar16 then
    return finishValue (← startValueZstring data c 2) remainingLen
  else if encoding = FieldEncoding.zStringChar32 then
    return finishValue (← startValueZstring data c 4) remainingLen
  else if encoding = FieldEncoding.stringLength16Char8 ∨
      encoding = FieldEncoding.binaryLength16Char8 then
    return finishValue (← startValueString data c 0) remainingLen
  else if encoding = FieldEncoding.stringLength16Char16 then
    return finishValue (← startValueString data c 1) remainingLen
  else if encoding = FieldEncoding.stringLength16Char32 then
    return finishValue (← startValueString data c 2) remainingLen
  else do
    debugAssert build (encoding ≠ FieldEncoding.struct)
    .ok ({ c with itemSizeCooked := 0, itemSizeRaw := 0 }.setErrorState .invalidData)

end EventHeaderEnumeratorContext

end Tracepoints
