import Tracepoints.Perf.CurrentEvent

/-!
# Information about events

`get_sample_event_info` and `get_non_sample_event_info` of `PerfDataFileReader`
(`tracepoint_perf/src/file_reader.rs`): they find the description of an event by the id in it and walk
over the parts that the sample type of the description selects, forwards behind the header of a sample
and backwards from the end of any other event. The accessors of the ranges are those of
`PerfSampleEventInfo` (`tracepoint_decode/src/perf_event_data.rs`).
-/

set_option autoImplicit false
set_option relaxedAutoImplicit false

namespace Tracepoints

open Exec

/-- `PerfDataFileError`. -/
inductive PerfDataFileError
  | invalidData
  | idNotFound
  | notSupported
  | noData
  deriving DecidableEq, Repr

/-- `a - b` of `u16`: an underflow faults where the build checks for it. -/
def subU16 (build : Build) (left right : ℕ) : Exec ℕ :=
  if right ≤ left then .ok (left - right)
  else if build.debugAssertions then .error .underflow
  else .ok (left + 2 ^ 16 - right)

/-- `PerfSampleEventInfo`. -/
structure PerfSampleEventInfo where
  data : List UInt8
  sessionInfo : PerfSessionInfo
  eventDesc : PerfEventDesc
  id : ℕ
  ip : ℕ
  pid : ℕ
  tid : ℕ
  time : ℕ
  addr : ℕ
  streamId : ℕ
  cpu : ℕ
  cpuReserved : ℕ
  period : ℕ
  readRange : ByteRange
  callchainRange : ByteRange
  rawRange : ByteRange
  deriving DecidableEq, Repr

namespace PerfSampleEventInfo

variable (info : PerfSampleEventInfo)

/-- `read_format`. -/
def readFormat : Exec (List UInt8) := slice info.data info.readRange.start info.readRange.stop

/-- `callchain`. -/
def callchain : Exec (List UInt8) :=
  slice info.data info.callchainRange.start info.callchainRange.stop

/-- `raw_data`. -/
def rawData : Exec (List UInt8) := slice info.data info.rawRange.start info.rawRange.stop

/-- `user_data`: the raw data behind the common fields. -/
def userData (build : Build) : Exec (List UInt8) :=
  match info.eventDesc.format with
  | none => .ok []
  | some format => do
    let rawLen ← subU16 build info.rawRange.stop info.rawRange.start
    if format.commonFieldsSize ≤ rawLen then
      let start ← PerfEventFormat.addU16 build info.rawRange.start format.commonFieldsSize
      slice info.data start info.rawRange.stop
    else .ok []

end PerfSampleEventInfo

/-- `PerfNonSampleEventInfo`. -/
structure PerfNonSampleEventInfo where
  data : List UInt8
  sessionInfo : PerfSessionInfo
  eventDesc : PerfEventDesc
  id : ℕ
  cpu : ℕ
  cpuReserved : ℕ
  streamId : ℕ
  time : ℕ
  pid : ℕ
  tid : ℕ
  deriving DecidableEq, Repr

/-- A part of the two functions: the state is the position in the event, and it may leave with an
error. -/
abbrev InfoReader := Act ℕ PerfDataFileError

namespace InfoReader

/-! ### Forwards -/

section Forwards

variable (build : Build) (order : ByteOrder) (data : List UInt8) (sampleType : UInt64) (endPos : ℕ)

/-- The identifier, which was read to find the description. -/
def identifierPart : InfoReader Unit :=
  if hasFlag sampleType PerfEventAttrSampleType.identifier then do
    let pos ← Act.read
    Act.compute (debugAssert build (pos ≠ endPos))
    Act.update (· + 8)
  else pure ()

/-- An optional `u64`; 0 where the sample type does not select it. -/
def u64Part (flag : UInt64) : InfoReader ℕ :=
  if hasFlag sampleType flag then do
    let pos ← Act.read
    if pos = endPos then Act.leave .invalidData
    else
      let value ← Act.compute (readUInt order 8 data pos)
      Act.update (· + 8)
      pure value
  else pure 0

/-- Two optional `u32`. -/
def u32Part (flag : UInt64) : InfoReader (ℕ × ℕ) :=
  if hasFlag sampleType flag then do
    let pos ← Act.read
    if pos = endPos then Act.leave .invalidData
    else
      let first ← Act.compute (readUInt order 4 data pos)
      let second ← Act.compute (readUInt order 4 data (pos + 4))
      Act.update (· + 8)
      pure (first, second)
  else pure (0, 0)

/-- The id, which was read to find the description. -/
def idPart : InfoReader Unit :=
  if hasFlag sampleType PerfEventAttrSampleType.id then do
    let pos ← Act.read
    if pos = endPos then Act.leave .invalidData else Act.update (· + 8)
  else pure ()

/-- `SUPPORTED_READ_FORMATS`. -/
def supportedReadFormats : UInt64 :=
  PerfEventAttrReadFormat.totalTimeEnabled ||| PerfEventAttrReadFormat.totalTimeRunning |||
    PerfEventAttrReadFormat.id ||| PerfEventAttrReadFormat.group ||| PerfEventAttrReadFormat.lost

/-- The number of values in front of the counters. -/
def timeCount (readFormat : UInt64) : ℕ :=
  (hasFlag readFormat PerfEventAttrReadFormat.totalTimeEnabled).toNat +
    (hasFlag readFormat PerfEventAttrReadFormat.totalTimeRunning).toNat

/-- The number of values of a counter behind its value. -/
def counterCount (readFormat : UInt64) : ℕ :=
  (hasFlag readFormat PerfEventAttrReadFormat.id).toNat +
    (hasFlag readFormat PerfEventAttrReadFormat.lost).toNat

/-- The values of `PERF_SAMPLE_READ`. -/
def readPart (readFormat : UInt64) : InfoReader ByteRange :=
  if hasFlag sampleType PerfEventAttrSampleType.read then do
    let start ← Act.read
    if readFormat &&& ~~~supportedReadFormats ≠ 0 then Act.leave .notSupported
    else if !hasFlag readFormat PerfEventAttrReadFormat.group then
      let size := (1 + timeCount readFormat + counterCount readFormat) * 8
      let left ← Act.compute (subUsize build endPos start)
      if left < size then Act.leave .invalidData
      else
        Act.update (· + size)
        pure ⟨start % 2 ^ 16, (start + size) % 2 ^ 16⟩
    else if start = endPos then Act.leave .invalidData
    else
      let nr ← Act.compute (readUInt order 8 data start)
      if 0x10000 / 8 ≤ nr then Act.leave .invalidData
      else
        let size := 8 * (1 + timeCount readFormat + nr * (1 + counterCount readFormat))
        let left ← Act.compute (subUsize build endPos start)
        if left < size then Act.leave .invalidData
        else
          Act.update (· + size)
          pure ⟨start % 2 ^ 16, (start + size) % 2 ^ 16⟩
  else pure ⟨0, 0⟩

/-- The call chain, with its length. -/
def callchainPart : InfoReader ByteRange :=
  if hasFlag sampleType PerfEventAttrSampleType.callchain then do
    let start ← Act.read
    if start = endPos then Act.leave .invalidData
    else
      let nr ← Act.compute (readUInt order 8 data start)
      if 0x10000 / 8 ≤ nr then Act.leave .invalidData
      else
        let size := 8 * (1 + nr)
        let left ← Act.compute (subUsize build endPos start)
        if left < size then Act.leave .invalidData
        else
          Act.update (· + size)
          pure ⟨start % 2 ^ 16, (start + size) % 2 ^ 16⟩
  else pure ⟨0, 0⟩

/-- The raw data, without its size. -/
def rawPart : InfoReader ByteRange :=
  if hasFlag sampleType PerfEventAttrSampleType.raw then do
    let pos ← Act.read
    if pos = endPos then Act.leave .invalidData
    else
      let rawSize ← Act.compute (readUInt order 4 data pos)
      let left ← Act.compute (subUsize build endPos pos)
      let left ← Act.compute (subUsize build left 4)
      if left % 2 ^ 32 < rawSize then Act.leave .invalidData
      else
        let start := (pos + 4) % 2 ^ 16
        let stop ← Act.compute (PerfEventFormat.addU16 build start (rawSize % 2 ^ 16))
        Act.update (· + (4 + rawSize + 7) / 8 * 8)
        pure ⟨start, stop⟩
  else pure ⟨0, 0⟩

end Forwards

/-! ### Backwards -/

section Backwards

variable (build : Build) (order : ByteOrder) (data : List UInt8) (sampleType : UInt64)

/-- One step back. -/
def stepBack (count : ℕ) : InfoReader ℕ := do
  Act.updateM fun pos ↦ subUsize build pos count
  Act.read

/-- Leave at the start of the event. -/
def expectBehind (pos : ℕ) : InfoReader Unit :=
  if pos = 0 then Act.leave .invalidData else pure ()

/-- The identifier, which was read to find the description. -/
def identifierBack : InfoReader Unit :=
  if hasFlag sampleType PerfEventAttrSampleType.identifier then do
    let pos ← stepBack build 8
    Act.compute (debugAssert build (pos ≠ 0))
  else pure ()

/-- The cpu and the reserved `u32` behind it, which is read first. -/
def cpuBack : InfoReader (ℕ × ℕ) :=
  if hasFlag sampleType PerfEventAttrSampleType.cpu then do
    let pos ← stepBack build 4
    let reserved ← Act.compute (readUInt order 4 data pos)
    let pos ← stepBack build 4
    let cpu ← Act.compute (readUInt order 4 data pos)
    expectBehind pos
    pure (cpu, reserved)
  else pure (0, 0)

/-- An optional `u64`. -/
def u64Back (flag : UInt64) : InfoReader ℕ :=
  if hasFlag sampleType flag then do
    let pos ← stepBack build 8
    let value ← Act.compute (readUInt order 8 data pos)
    expectBehind pos
    pure value
  else pure 0

/-- The id, which was read to find the description. -/
def idBack : InfoReader Unit :=
  if hasFlag sampleType PerfEventAttrSampleType.id then do
    let pos ← stepBack build 8
    expectBehind pos
  else pure ()

/-- The process and the thread. -/
def tidBack : InfoReader (ℕ × ℕ) :=
  if hasFlag sampleType PerfEventAttrSampleType.tid then do
    let pos ← stepBack build 8
    let pid ← Act.compute (readUInt order 4 data pos)
    let tid ← Act.compute (readUInt order 4 data (pos + 4))
    expectBehind pos
    pure (pid, tid)
  else pure (0, 0)

end Backwards

end InfoReader

namespace ReaderState

open InfoReader

variable (build : Build) (state : ReaderState)

/-- The description for an id. -/
def findDesc (id : ℕ) : Exec (Option PerfEventDesc) :=
  match state.attrs.eventDescIdToIndex.lookup (.ofNat id) with
  | none => .ok none
  | some index =>
    match state.attrs.eventDescList[index]? with
    | none => .error .indexOutOfRange
    | some desc => .ok (some desc)

/-- The parts of a sample, in order. -/
def sampleParts (data : List UInt8) (desc : PerfEventDesc) (id : ℕ) :
    InfoReader PerfSampleEventInfo := do
  let order := state.sessionInfo.byteReader
  let sampleType := desc.attr.sampleType
  let endPos := data.length / 8 * 8
  identifierPart build sampleType endPos
  let ip ← u64Part order data sampleType endPos PerfEventAttrSampleType.ip
  let (pid, tid) ← u32Part order data sampleType endPos PerfEventAttrSampleType.tid
  let time ← u64Part order data sampleType endPos PerfEventAttrSampleType.time
  let addr ← u64Part order data sampleType endPos PerfEventAttrSampleType.addr
  idPart sampleType endPos
  let streamId ← u64Part order data sampleType endPos PerfEventAttrSampleType.streamId
  let (cpu, cpuReserved) ← u32Part order data sampleType endPos PerfEventAttrSampleType.cpu
  let period ← u64Part order data sampleType endPos PerfEventAttrSampleType.period
  let readRange ← readPart build order data sampleType endPos desc.attr.readFormat
  let callchainRange ← callchainPart build order data sampleType endPos
  let rawRange ← rawPart build order data sampleType endPos
  let pos ← Act.read
  Act.compute (debugAssert build (pos ≤ endPos))
  pure
    { data := data
      sessionInfo := state.sessionInfo
      eventDesc := desc
      id := id
      ip := ip
      pid := pid
      tid := tid
      time := time
      addr := addr
      streamId := streamId
      cpu := cpu
      cpuReserved := cpuReserved
      period := period
      readRange := readRange
      callchainRange := callchainRange
      rawRange := rawRange }

/-- `get_sample_event_info`. -/
def getSampleEventInfo (event : PerfEventBytes) :
    Exec (Except PerfDataFileError PerfSampleEventInfo) :=
  let offset := state.attrs.offsets.sampleId
  if offset < 8 then .ok (.error .noData)
  else if event.data.length < offset.toNat + 8 then .ok (.error .invalidData)
  else do
    let id ← readUInt state.sessionInfo.byteReader 8 event.data offset.toNat
    match ← state.findDesc id with
    | none => .ok (.error .idNotFound)
    | some desc => do
      debugAssert build (2 * 8 ≤ event.data.length)
      let (outcome, _) ← sampleParts build state event.data desc id PerfEventHeader.byteSize
      .ok outcome

/-- The parts at the end of an event that is not a sample, from the last one on. -/
def nonSampleParts (data : List UInt8) (desc : PerfEventDesc) (id : ℕ) :
    InfoReader PerfNonSampleEventInfo := do
  let order := state.sessionInfo.byteReader
  let sampleType := desc.attr.sampleType
  identifierBack build sampleType
  let (cpu, cpuReserved) ← cpuBack build order data sampleType
  let streamId ← u64Back build order data sampleType PerfEventAttrSampleType.streamId
  idBack build sampleType
  let time ← u64Back build order data sampleType PerfEventAttrSampleType.time
  let (pid, tid) ← tidBack build order data sampleType
  let pos ← Act.read
  Act.compute (debugAssert build (8 ≤ pos))
  Act.compute (debugAssert build (pos < 0x10000 / 8))
  pure
    { data := data
      sessionInfo := state.sessionInfo
      eventDesc := desc
      id := id
      cpu := cpu
      cpuReserved := cpuReserved
      streamId := streamId
      time := time
      pid := pid
      tid := tid }

/-- `get_non_sample_event_info`. -/
def getNonSampleEventInfo (event : PerfEventBytes) :
    Exec (Except PerfDataFileError PerfNonSampleEventInfo) :=
  let offset := state.attrs.offsets.nonSampleId
  if PerfEventHeaderType.userTypeStart ≤ event.header.ty then .ok (.error .idNotFound)
  else if offset < 8 then .ok (.error .noData)
  else if event.data.length < offset.toNat then .ok (.error .invalidData)
  else do
    let id ← readUInt state.sessionInfo.byteReader 8 event.data
      (event.data.length - offset.toNat)
    match ← state.findDesc id with
    | none => .ok (.error .idNotFound)
    | some desc => do
      debugAssert build (8 * 2 ≤ event.data.length)
      let (outcome, _) ←
        nonSampleParts build state event.data desc id (event.data.length / 8 * 8)
      .ok outcome

end ReaderState

end Tracepoints
