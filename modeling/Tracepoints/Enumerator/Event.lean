import Tracepoints.Enumerator.Moves

/-!
# Starting an enumeration and looking at it

`enumerate_with_name_and_data` of `tracepoint_decode/src/enumerator.rs` (header, tracepoint name,
extension blocks, event name), the information an enumerator shows of the event and of its current
item, and the runs of operations a caller may make.

A rejected event leaves its traces in the context, as in the source, so
`enumerateWithNameAndData` returns the context beside the result.
-/

set_option autoImplicit false
set_option relaxedAutoImplicit false

namespace Tracepoints

open Exec

/-! ### The tracepoint name -/

def isAsciiDigit (ch : UInt8) : Bool := 48 ≤ ch && ch ≤ 57
def isAsciiLowercase (ch : UInt8) : Bool := 97 ≤ ch && ch ≤ 122
def isAsciiUppercase (ch : UInt8) : Bool := 65 ≤ ch && ch ≤ 90

/-- The loop of `lowercase_hex_to_int`; the value is a `u64`, whose high bits are shifted out. -/
def lowercaseHexLoop : List UInt8 → ℕ → ℕ → ℕ × ℕ
  | [], val, pos => (val, pos)
  | ch :: rest, val, pos =>
    if isAsciiDigit ch then
      lowercaseHexLoop rest (val * 16 % 2 ^ 64 + (ch.toNat - 48)) (pos + 1)
    else if 97 ≤ ch ∧ ch ≤ 102 then
      lowercaseHexLoop rest (val * 16 % 2 ^ 64 + (ch.toNat - 97 + 10)) (pos + 1)
    else (val, pos)

/-- `lowercase_hex_to_int`: the value and the position after it. -/
def lowercaseHexToInt (str : List UInt8) (startPos : ℕ) : ℕ × ℕ :=
  lowercaseHexLoop (str.drop startPos) 0 startPos

/-- The backward search for `_`: the position after it, counting down from a position. -/
def findAttributes (name : List UInt8) : ℕ → Exec (Option ℕ)
  | 0 => .ok none
  | pos + 1 => do
    let ch ← byteAt name pos
    if ch = 95 then .ok (some (pos + 1)) else findAttributes name pos

/-- The loop over the remaining attributes, inside the value of one of them. -/
def attributeValuesOk : List UInt8 → Bool
  | [] => true
  | ch :: rest =>
    if isAsciiDigit ch || isAsciiLowercase ch then attributeValuesOk rest
    else isAsciiUppercase ch && attributeValuesOk rest

/-- The loop over the remaining attributes. -/
def otherAttributesOk : List UInt8 → Bool
  | [] => true
  | ch :: rest => isAsciiUppercase ch && attributeValuesOk rest

/-- The check of the tracepoint name (`ProviderName_L1K2...`) against the header's level. The
keyword, when the check gets that far, is stored even if a later attribute is rejected. -/
def validateTracepointName (name : List UInt8) (level : UInt8) : Exec (Bool × Option ℕ) := do
  match ← findAttributes name name.length with
  | none => .ok (false, none)
  | some attribPos =>
    if attribPos ≥ name.length then .ok (false, none)
    else if (← byteAt name attribPos) ≠ 76 then .ok (false, none)
    else
      let (attribLevel, attribPos) := lowercaseHexToInt name (attribPos + 1)
      if attribLevel ≠ level.toNat then .ok (false, none)
      else if attribPos ≥ name.length then .ok (false, none)
      else if (← byteAt name attribPos) ≠ 75 then .ok (false, none)
      else
        let (keyword, attribPos) := lowercaseHexToInt name (attribPos + 1)
        .ok (otherAttributesOk (name.drop attribPos), some keyword)

namespace EventHeaderEnumeratorContext

variable (build : Build) (data : List UInt8) (c : EventHeaderEnumeratorContext)

/-! ### The event header and its extensions -/

/-- The header part of `enumerate_with_name_and_data`. -/
def readEventHeader : Exec EventHeaderEnumeratorContext := do
  let flags ← byteAt data 0
  let byteReader := if HeaderFlags.hasFlag flags HeaderFlags.littleEndian then
    ByteOrder.little else ByteOrder.big
  let version ← byteAt data 1
  let id ← readUInt byteReader 2 data 2
  let tag ← readUInt byteReader 2 data 4
  let opcode ← byteAt data 6
  let level ← byteAt data 7
  .ok { c with header := ⟨flags, version, id, tag, opcode, level⟩, byteReader := byteReader }

/-- What an extension block does to the context: `none` is `InvalidData`. -/
def applyExtension (kind pos size : ℕ) : Option EventHeaderEnumeratorContext :=
  if ExtensionKind.value kind = ExtensionKind.invalid then none
  else if ExtensionKind.value kind = ExtensionKind.metadata then
    if c.metaStart ≠ 0 then none
    else some { c with metaStart := pos, metaEnd := pos + size }
  else if ExtensionKind.value kind = ExtensionKind.activityId then
    if c.activityIdStart ≠ 0 ∨ (size ≠ 16 ∧ size ≠ 32) then none
    else some { c with activityIdStart := pos, activityIdLen := size }
  else some c

/-- The loop over the extension blocks: the position behind the last one, or `InvalidData`. -/
def parseExtensions : ℕ → ℕ → EventHeaderEnumeratorContext →
    Exec (Option ℕ × EventHeaderEnumeratorContext)
  | 0, _, _ => .error .unfinished
  | fuel + 1, eventPos, c => do
    if (← sub data.length eventPos) < 4 then .ok (none, c)
    else
      let extSize ← readUInt c.byteReader 2 data eventPos
      let extKind ← readUInt c.byteReader 2 data (eventPos + 2)
      let eventPos := eventPos + 4
      if (← sub data.length eventPos) < extSize then .ok (none, c)
      else
        match c.applyExtension extKind eventPos extSize with
        | none => .ok (none, c)
        | some c =>
          let eventPos := eventPos + extSize
          if ExtensionKind.hasChainFlag extKind then parseExtensions fuel eventPos c
          else .ok (some eventPos, c)

/-- `KNOWN_FLAGS`. -/
def knownFlags : UInt8 :=
  HeaderFlags.pointer64 ||| HeaderFlags.littleEndian ||| HeaderFlags.extension

/-- The part of `enumerate_with_name_and_data` after the extension blocks: find the end of the
event name and position the enumerator before the first item. -/
def startEvent (eventPos moveNextLimit : ℕ) :
    Exec (Except EventHeaderEnumeratorError Unit × EventHeaderEnumeratorContext) :=
  if c.metaStart = 0 then .ok (.error .notSupported, c)
  else do
    let namePos ← findNul data c.metaStart c.metaEnd
    if namePos ≥ c.metaEnd then .ok (.error .invalidData, c)
    else do
      let eventNameLen ← sub namePos c.metaStart
      let c := { c with eventNameLen := eventNameLen % 65536, dataStart := eventPos }
      .ok (.ok (), c.resetImpl moveNextLimit)

/-- `enumerate_with_name_and_data`. -/
def enumerateWithNameAndData (tracepointName : List UInt8) (moveNextLimit : ℕ) :
    Exec (Except EventHeaderEnumeratorError Unit × EventHeaderEnumeratorContext) :=
  if data.length < 8 ∨ data.length ≥ 0x80000000 ∨ tracepointName.length ≥ 256 then
    .ok (.error .invalidParameter, c)
  else do
    let c ← c.readEventHeader data
    if c.header.flags ≠ c.header.flags &&& knownFlags then .ok (.error .notSupported, c)
    else do
      let (nameOk, keyword) ← validateTracepointName tracepointName c.header.level
      let c := { c with keyword := keyword.getD c.keyword }
      if ¬nameOk then .ok (.error .notSupported, c)
      else
        let c := { c with metaStart := 0, metaEnd := 0, activityIdStart := 0, activityIdLen := 0 }
        if HeaderFlags.hasFlag c.header.flags HeaderFlags.extension then do
          match ← parseExtensions data data.length 8 c with
          | (none, c) => .ok (.error .invalidData, c)
          | (some eventPos, c) => startEvent data c eventPos moveNextLimit
        else startEvent data c 8 moveNextLimit

end EventHeaderEnumeratorContext

/-! ### What an enumerator shows -/

/-- `PerfItemMetadata`. -/
structure PerfItemMetadata where
  elementCount : ℕ
  fieldTag : ℕ
  typeSize : ℕ
  encodingAndArrayFlagAndIsScalar : FieldEncoding
  format : FieldFormat
  byteReader : ByteOrder
  deriving DecidableEq, Repr

namespace PerfItemMetadata

/-- `PerfItemMetadata::new`. -/
def new (build : Build) (byteReader : ByteOrder) (encodingAndArrayFlag : FieldEncoding)
    (format : FieldFormat) (isScalar : Bool) (typeSize elementCount fieldTag : ℕ) :
    Exec PerfItemMetadata := do
  debugAssert build (¬FieldEncoding.hasChainFlag encodingAndArrayFlag)
  debugAssert build (¬FieldFormat.hasChainFlag format)
  debugAssert build
    (FieldEncoding.arrayFlags encodingAndArrayFlag ≠ FieldEncoding.arrayFlagMask)
  debugAssert build (if isScalar then elementCount = 1 else FieldEncoding.isArray encodingAndArrayFlag)
  debugAssert build
    (FieldEncoding.withoutFlags encodingAndArrayFlag = FieldEncoding.struct →
      typeSize = 0 ∧ format ≠ 0)
  .ok
    { elementCount := elementCount
      fieldTag := fieldTag
      typeSize := typeSize
      encodingAndArrayFlagAndIsScalar :=
        encodingAndArrayFlag ||| (if isScalar then FieldEncoding.chainFlag else 0)
      format := format
      byteReader := byteReader }

/-- `PerfItemMetadata::encoding`. -/
def encoding (m : PerfItemMetadata) : FieldEncoding :=
  FieldEncoding.withoutFlags m.encodingAndArrayFlagAndIsScalar

/-- `PerfItemMetadata::array_flag`. -/
def arrayFlag (m : PerfItemMetadata) : UInt8 :=
  FieldEncoding.arrayFlags m.encodingAndArrayFlagAndIsScalar

/-- `PerfItemMetadata::is_scalar`. -/
def isScalar (m : PerfItemMetadata) : Bool :=
  FieldEncoding.hasChainFlag m.encodingAndArrayFlagAndIsScalar

end PerfItemMetadata

/-- `EventHeaderItemInfo`, with the bytes and metadata of its value. -/
structure EventHeaderItemInfo where
  nameStart : ℕ
  nameLen : ℕ
  bytes : List UInt8
  metadata : PerfItemMetadata
  deriving DecidableEq, Repr

/-- `EventHeaderItemInfo::name_bytes`. -/
def EventHeaderItemInfo.nameBytes (info : EventHeaderItemInfo) (data : List UInt8) :
    Exec (List UInt8) :=
  slice data info.nameStart (info.nameStart + info.nameLen)

/-- `EventHeaderEventInfo`, without the two slices it was made from. -/
structure EventHeaderEventInfo where
  nameStart : ℕ
  nameLen : ℕ
  activityIdStart : ℕ
  activityIdLen : ℕ
  header : EventHeader
  keyword : ℕ
  deriving DecidableEq, Repr

namespace EventHeaderEventInfo

variable (info : EventHeaderEventInfo) (data : List UInt8)

/-- `EventHeaderEventInfo::name_bytes`. -/
def nameBytes : Exec (List UInt8) :=
  slice data info.nameStart (info.nameStart + info.nameLen)

/-- `EventHeaderEventInfo::activity_id`. -/
def activityId : Exec (Option (List UInt8)) :=
  if info.activityIdLen < 16 then .ok none
  else return some (← slice data info.activityIdStart (info.activityIdStart + 16))

/-- `EventHeaderEventInfo::related_activity_id`. -/
def relatedActivityId : Exec (Option (List UInt8)) :=
  if info.activityIdLen < 32 then .ok none
  else return some (← slice data (info.activityIdStart + 16) (info.activityIdStart + 16 + 16))

end EventHeaderEventInfo

namespace EventHeaderEnumeratorContext

variable (build : Build) (data : List UInt8) (c : EventHeaderEnumeratorContext)

/-- `event_info`. -/
def eventInfo : EventHeaderEventInfo where
  nameStart := c.metaStart
  nameLen := c.eventNameLen
  activityIdStart := c.activityIdStart
  activityIdLen := c.activityIdLen
  header := c.header
  keyword := c.keyword

/-- Whether the current item is not the begin or the end of an array. -/
def isScalarItem : Bool := c.state ≠ .arrayBegin && c.state ≠ .arrayEnd

/-- `item_metadata_impl`. -/
def itemMetadataImpl : Exec PerfItemMetadata := do
  debugAssert build c.state.canItemInfo
  PerfItemMetadata.new build c.byteReader c.fieldType.encoding c.fieldType.format c.isScalarItem
    c.elementSize (if c.isScalarItem then 1 else c.stackTop.arrayCount) c.fieldType.tag

/-- The bytes that `item_info` cuts out of the event. -/
def itemBytes : Exec (List UInt8) :=
  slice data c.dataPosCooked (c.dataPosCooked + c.itemSizeCooked)

/-- `item_info`. -/
def itemInfo : Exec EventHeaderItemInfo := do
  debugAssert build c.state.canItemInfo
  let bytes ← itemBytes data c
  let metadata ← itemMetadataImpl build c
  .ok ⟨c.stackTop.nameOffset, c.stackTop.nameLen, bytes, metadata⟩

/-- `raw_data_position`. -/
def rawDataPosition : Exec (List UInt8) := slice data c.dataPosRaw data.length

end EventHeaderEnumeratorContext

/-- The context that an operation leaves, a new one after a fault. -/
def EventHeaderEnumeratorContext.contextOf {α : Type}
    (computation : Exec (α × EventHeaderEnumeratorContext)) : EventHeaderEnumeratorContext :=
  match computation with
  | .ok (_, c) => c
  | .error _ => .new

/-! ### Runs -/

/-- The operations of an enumerator that change its context. -/
inductive EnumeratorOp
  | moveNext
  | moveNextSibling
  | moveNextMetadata
  | reset
  | resetWithLimit (limit : ℕ)
  deriving DecidableEq, Repr

namespace EnumeratorOp

open EventHeaderEnumeratorContext

/-- When a caller may apply an operation: a value move where the state allows a move and is not
one of metadata enumeration, a metadata move at the start or within metadata enumeration. -/
def Permitted (op : EnumeratorOp) (c : EventHeaderEnumeratorContext) : Prop :=
  match op with
  | moveNext | moveNextSibling => c.state.canMoveNext = true ∧ c.substate ≠ .valueMetadata
  | moveNextMetadata =>
    c.state.canMoveNext = true ∧ (c.state = .beforeFirstItem ∨ c.substate = .valueMetadata)
  | reset | resetWithLimit _ => True

instance (op : EnumeratorOp) (c : EventHeaderEnumeratorContext) : Decidable (op.Permitted c) :=
  match op with
  | moveNext | moveNextSibling => inferInstanceAs (Decidable (_ ∧ _))
  | moveNextMetadata => inferInstanceAs (Decidable (_ ∧ _))
  | reset | resetWithLimit _ => inferInstanceAs (Decidable True)

/-- What an operation returns (`true` for the resets) and the context it leaves. -/
def apply (build : Build) (data : List UInt8) (op : EnumeratorOp)
    (c : EventHeaderEnumeratorContext) : Exec (Bool × EventHeaderEnumeratorContext) :=
  match op with
  | moveNext => moveNextImpl build data c
  | moveNextSibling => moveNextSiblingImpl build data c
  | moveNextMetadata => moveNextMetadataImpl build data c
  | reset => .ok (true, c.resetImpl moveNextLimitDefault)
  | resetWithLimit limit => .ok (true, c.resetImpl limit)

end EnumeratorOp

/-- The contexts that permitted operations reach from `start`. -/
inductive EnumeratorReaches (build : Build) (data : List UInt8)
    (start : EventHeaderEnumeratorContext) : EventHeaderEnumeratorContext → Prop
  | refl : EnumeratorReaches build data start start
  | step {c c' : EventHeaderEnumeratorContext} {op : EnumeratorOp} {result : Bool} :
      EnumeratorReaches build data start c → op.Permitted c →
        op.apply build data c = .ok (result, c') → EnumeratorReaches build data start c'

end Tracepoints
