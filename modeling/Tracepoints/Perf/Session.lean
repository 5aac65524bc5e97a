import Tracepoints.Perf.Abi
import Tracepoints.Perf.EventFormat

/-!
# Session information and event descriptions

The clock of a session (`tracepoint_decode/src/perf_session.rs`), the descriptions of events
(`perf_event_desc.rs`) and `ReaderAttrs` with `add_attr` (`tracepoint_perf/src/file_reader.rs`),
which collects the descriptions and the offsets of id and time that they agree on. A hash map is a
list of entries, the latest first.
-/

set_option autoImplicit false
set_option relaxedAutoImplicit false

namespace Tracepoints

open Exec

/-! ### Session -/

/-- `PerfSessionInfo`; the byte reader is the byte order of the source. -/
structure PerfSessionInfo where
  clockOffsetSeconds : ℤ
  clockOffsetNanoseconds : ℕ
  clockId : ℕ
  clockOffsetKnown : Bool
  byteReader : ByteOrder
  deriving DecidableEq, Repr

namespace PerfSessionInfo

def billion : ℕ := 1000000000

/-- `PerfSessionInfo::new`. -/
def new (byteReader : ByteOrder) : PerfSessionInfo := ⟨0, 0, 0, false, byteReader⟩

/-- `byte_swap_needed` of the byte reader. -/
def byteSwapNeeded (build : Build) (session : PerfSessionInfo) : Bool :=
  session.byteReader ≠ build.targetEndian

/-- `set_clock_id`. -/
def setClockId (session : PerfSessionInfo) (clockId : ℕ) : PerfSessionInfo :=
  { session with clockId := clockId }

/-- `set_clock_data`. -/
def setClockData (session : PerfSessionInfo) (clockId wallClockNs clockIdTimeNs : ℕ) :
    PerfSessionInfo :=
  if clockId = 2 ^ 32 - 1 then
    { session with
      clockOffsetSeconds := 0
      clockOffsetNanoseconds := 0
      clockId := clockId
      clockOffsetKnown := false }
  else if clockIdTimeNs ≤ wallClockNs then
    let offset := wallClockNs - clockIdTimeNs
    { session with
      clockOffsetSeconds := (offset / billion : ℕ)
      clockOffsetNanoseconds := offset % billion
      clockId := clockId
      clockOffsetKnown := true }
  else
    let offset := clockIdTimeNs - wallClockNs
    let seconds : ℤ := -(offset / billion : ℕ) - 1
    let nanoseconds := billion - offset % billion
    { session with
      clockOffsetSeconds := if nanoseconds = billion then seconds + 1 else seconds
      clockOffsetNanoseconds := if nanoseconds = billion then 0 else nanoseconds
      clockId := clockId
      clockOffsetKnown := true }

end PerfSessionInfo

/-! ### Event descriptions -/

/-- `assign_latin1`: the UTF-8 text of Latin-1 bytes. -/
def fromLatin1 (bytes : List UInt8) : List UInt8 :=
  bytes.flatMap fun byte ↦
    if byte < 0x80 then [byte] else [(0xC0 : UInt8) ||| byte >>> 6, (0x80 : UInt8) ||| byte &&& 0x3F]

/-- `PerfEventDesc`. -/
structure PerfEventDesc where
  attr : PerfEventAttr
  name : List UInt8
  format : Option PerfEventFormat
  ids : List UInt64
  deriving DecidableEq, Repr

namespace PerfEventDesc

/-- `update_name`: an empty name is taken from the format. -/
def updateName (desc : PerfEventDesc) : PerfEventDesc :=
  match desc.format with
  | some format =>
    if desc.name = [] then
      { desc with name := format.systemName ++ [Text.colon] ++ format.name }
    else desc
  | none => desc

/-- `PerfEventDesc::new`. -/
def new (attr : PerfEventAttr) (name : List UInt8) (format : Option PerfEventFormat)
    (ids : List UInt64) : PerfEventDesc :=
  updateName ⟨attr, name, format, ids⟩

/-- `set_format`. -/
def setFormat (desc : PerfEventDesc) (format : PerfEventFormat) : PerfEventDesc :=
  updateName { desc with format := some format }

end PerfEventDesc

/-! ### Attributes of a reader -/

/-- The offsets of id and time in sample and non-sample events. -/
structure EventOffsets where
  sampleId : ℤ
  nonSampleId : ℤ
  sampleTime : ℤ
  nonSampleTime : ℤ
  deriving DecidableEq, Repr

namespace EventOffsets

def offsetUnset : ℤ := -1
def offsetNotPresent : ℤ := -2

/-- Before the first attribute. -/
def unset : EventOffsets := ⟨offsetUnset, offsetUnset, offsetUnset, offsetUnset⟩

open PerfEventAttrSampleType in
/-- The offsets of the id that a sample type implies. -/
def idOffsets (sampleType : UInt64) : ℤ × ℤ :=
  if hasFlag sampleType identifier then (8, 8)
  else if !hasFlag sampleType id then (offsetNotPresent, offsetNotPresent)
  else
    (8 * (1 + (hasFlag sampleType ip).toNat + (hasFlag sampleType tid).toNat +
        (hasFlag sampleType time).toNat + (hasFlag sampleType addr).toNat),
      8 * (1 + (hasFlag sampleType cpu).toNat + (hasFlag sampleType streamId).toNat))

open PerfEventAttrSampleType in
/-- The offsets of the time that a sample type implies. -/
def timeOffsets (sampleType : UInt64) : ℤ × ℤ :=
  if !hasFlag sampleType time then (offsetNotPresent, offsetNotPresent)
  else
    (8 * (1 + (hasFlag sampleType identifier).toNat + (hasFlag sampleType ip).toNat +
        (hasFlag sampleType tid).toNat),
      8 * (1 + (hasFlag sampleType identifier).toNat + (hasFlag sampleType cpu).toNat +
        (hasFlag sampleType streamId).toNat + (hasFlag sampleType id).toNat))

/-- The offsets that an attribute implies. -/
def ofAttr (attr : PerfEventAttr) : EventOffsets :=
  let sampleIdAll := hasFlag attr.options PerfEventAttrOptions.sampleIdAll
  { sampleId := (idOffsets attr.sampleType).1
    nonSampleId := if sampleIdAll then (idOffsets attr.sampleType).2 else offsetNotPresent
    sampleTime := (timeOffsets attr.sampleType).1
    nonSampleTime := if sampleIdAll then (timeOffsets attr.sampleType).2 else offsetNotPresent }

/-- One of the four checks of `add_attr`: an offset is set once and must then stay. -/
def agree (old new : ℤ) : Option ℤ :=
  if new ≠ old then if old ≠ offsetUnset then none else some new else some old

end EventOffsets

/-- `ReaderAttrs`. -/
structure ReaderAttrs where
  eventDescList : List PerfEventDesc
  eventDescIdToIndex : List (UInt64 × ℕ)
  formatById : List (ℕ × PerfEventFormat)
  offsets : EventOffsets
  deriving DecidableEq, Repr

namespace ReaderAttrs

/-- `ReaderAttrs::new`. -/
def new : ReaderAttrs := ⟨[], [], [], .unset⟩

/-- The four checks of the offsets, in order. The offsets in front of a check that fails stay
set. -/
def agreeOffsets (old new : EventOffsets) : Bool × EventOffsets :=
  match EventOffsets.agree old.sampleId new.sampleId with
  | none => (false, old)
  | some sampleId =>
    match EventOffsets.agree old.nonSampleId new.nonSampleId with
    | none => (false, { old with sampleId })
    | some nonSampleId =>
      match EventOffsets.agree old.sampleTime new.sampleTime with
      | none => (false, { old with sampleId, nonSampleId })
      | some sampleTime =>
        match EventOffsets.agree old.nonSampleTime new.nonSampleTime with
        | none => (false, { old with sampleId, nonSampleId, sampleTime })
        | some nonSampleTime => (true, ⟨sampleId, nonSampleId, sampleTime, nonSampleTime⟩)

/-- The ids in bytes, `chunks_exact` of eight. -/
def readIds (order : ByteOrder) (bytes : List UInt8) : List UInt64 :=
  (List.range (bytes.length / 8)).map fun index ↦
    .ofNat (order.ofBytes ((bytes.drop (8 * index)).take 8))

/-- The attribute in bytes that may be cut off, in the byte order of the source. -/
def readAttr (build : Build) (byteReader : ByteOrder) (attrBytes : List UInt8) : PerfEventAttr :=
  let attr := PerfEventAttr.ofBytes build.targetEndian
    (attrBytes ++ List.replicate (PerfEventAttr.byteSize - attrBytes.length) 0)
  { (if byteReader ≠ build.targetEndian then attr.byteSwap else attr) with
    size := .ofNat attrBytes.length }

/-- `event_desc_id_to_index` with the ids of a description. -/
def insertIds (map : List (UInt64 × ℕ)) (ids : List UInt64) (index : ℕ) : List (UInt64 × ℕ) :=
  ids.foldl (fun map id ↦ (id, index) :: map) map

/-- The format of an attribute, if one is known. -/
def formatOf (attrs : ReaderAttrs) (attr : PerfEventAttr) : Option PerfEventFormat :=
  if attr.attrType ≠ PerfEventAttrType.tracepoint then none
  else attrs.formatById.lookup (attr.config.toNat % 2 ^ 32)

/-- `add_attr`; its result is not used by any caller. -/
def addAttr (build : Build) (byteReader : ByteOrder) (attrBytes name idsBytes : List UInt8)
    (attrs : ReaderAttrs) : Exec ReaderAttrs :=
  if PerfEventAttr.byteSize < attrBytes.length then .error .indexOutOfRange
  else
    let attr := readAttr build byteReader attrBytes
    match agreeOffsets attrs.offsets (.ofAttr attr) with
    | (false, offsets) => .ok { attrs with offsets }
    | (true, offsets) =>
      let ids := readIds byteReader idsBytes
      .ok
        { attrs with
          offsets
          eventDescList := attrs.eventDescList ++
            [.new attr (fromLatin1 name) (attrs.formatOf attr) ids]
          eventDescIdToIndex :=
            insertIds attrs.eventDescIdToIndex ids attrs.eventDescList.length }

/-- `event_desc_by_id`. -/
def eventDescById (attrs : ReaderAttrs) (id : UInt64) : Option PerfEventDesc :=
  (attrs.eventDescIdToIndex.lookup id).bind fun index ↦ attrs.eventDescList[index]?

end ReaderAttrs

end Tracepoints
