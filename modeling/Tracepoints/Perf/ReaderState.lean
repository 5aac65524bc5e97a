import Tracepoints.Lib.Act
import Tracepoints.Perf.Session

/-!
# What a reader learns from headers

`ReaderState` is the part of `DataFileReader` (`tracepoint_perf/src/file_reader.rs`) that the
parsers of the headers read and change: everything but the buffers of events and their queue. The
parsers return nothing; where the source has `return; // Unexpected`, the changes made so far stay.
-/

set_option autoImplicit false
set_option relaxedAutoImplicit false

namespace Tracepoints

open Exec

namespace PerfHeaderIndex

def tracingData : Fin 32 := 1
def buildId : Fin 32 := 2
def hostname : Fin 32 := 3
def osRelease : Fin 32 := 4
def arch : Fin 32 := 6
def nrCpus : Fin 32 := 7
def eventDesc : Fin 32 := 12
def sampleTime : Fin 32 := 21
def clockId : Fin 32 := 23
def clockData : Fin 32 := 29

end PerfHeaderIndex

/-- The headers of a file, one for each index below `LastFeature`. -/
abbrev Headers := Vector (List UInt8) 32

/-- The headers with another value of one of them. -/
abbrev Headers.put (headers : Headers) (index : Fin 32) (value : List UInt8) : Headers :=
  headers.set index value

/-- The value of a header. -/
abbrev Headers.value (headers : Headers) (index : Fin 32) : List UInt8 := headers[index]

/-- A range of bytes. -/
structure ByteRange where
  start : ℕ
  stop : ℕ
  deriving DecidableEq, Repr

/-- The part of `DataFileReader` that does not depend on how events are buffered. -/
structure ReaderState where
  dataBeginFilePos : ℕ
  dataEndFilePos : ℕ
  attrs : ReaderAttrs
  headers : Headers
  sessionInfo : PerfSessionInfo
  parsedHeaderEventDesc : Bool
  commonTypeSize : ℕ
  commonTypeOffset : ℤ
  parsedTracingData : Bool
  tracingDataLongSize : ℕ
  tracingDataPageSize : ℕ
  headerPage : ByteRange
  headerEvent : ByteRange
  ftraces : List ByteRange
  kallsyms : ByteRange
  printk : ByteRange
  cmdLine : ByteRange
  deriving DecidableEq, Repr

namespace ReaderState

/-- A state that is not associated with a file. -/
def new : ReaderState where
  dataBeginFilePos := 0
  dataEndFilePos := 0
  attrs := .new
  headers := .replicate 32 []
  sessionInfo := .new .little
  parsedHeaderEventDesc := false
  commonTypeSize := 0
  commonTypeOffset := EventOffsets.offsetUnset
  parsedTracingData := false
  tracingDataLongSize := 0
  tracingDataPageSize := 0
  headerPage := ⟨0, 0⟩
  headerEvent := ⟨0, 0⟩
  ftraces := []
  kallsyms := ⟨0, 0⟩
  printk := ⟨0, 0⟩
  cmdLine := ⟨0, 0⟩

/-- `header`. -/
abbrev header (state : ReaderState) (index : Fin 32) : List UInt8 := state.headers[index]

/-- `set_header`. -/
def setHeader (state : ReaderState) (index : Fin 32) (value : List UInt8) : ReaderState :=
  { state with headers := state.headers.set index value }

/-! ### Clocks -/

/-- `parse_header_clockid`. -/
def parseHeaderClockid (state : ReaderState) : ReaderState :=
  let data := state.header PerfHeaderIndex.clockId
  if 8 ≤ data.length then
    let clockId := state.sessionInfo.byteReader.ofBytes (data.take 8) % 2 ^ 32
    { state with sessionInfo := state.sessionInfo.setClockId clockId }
  else state

/-- `parse_header_clock_data`. -/
def parseHeaderClockData (build : Build) (state : ReaderState) : ReaderState :=
  let data := state.header PerfHeaderIndex.clockData
  if data.length < ClockData.byteSize then state
  else
    let hostClock := ClockData.ofBytes build.targetEndian (data.take ClockData.byteSize)
    let clock := if state.sessionInfo.byteSwapNeeded build then hostClock.byteSwap else hostClock
    if 1 ≤ clock.version then
      { state with
        sessionInfo := state.sessionInfo.setClockData clock.clockid clock.wallClockNs
          clock.clockidTimeNs }
    else state

/-! ### Event descriptions -/

/-- The loop over the records of an `EVENT_DESC` header. -/
def eventDescLoop (build : Build) (byteReader : ByteOrder) (data : List UInt8) (attrSize : ℕ) :
    ℕ → ℕ → ReaderAttrs → Exec ReaderAttrs
  | 0, _, attrs => .ok attrs
  | count + 1, pos, attrs => do
    let left ← sub data.length pos
    if left < attrSize + 4 + 4 then .ok attrs
    else
      let idsCount ← readUInt byteReader 4 data (pos + attrSize)
      let stringSize ← readUInt byteReader 4 data (pos + attrSize + 4)
      let recordSize ← readUInt byteReader 4 data (pos + PerfEventAttr.sizeOffset)
      let stringPos := pos + attrSize + 8
      let left ← sub data.length stringPos
      if attrSize ≠ recordSize ∨ 0x10000 < idsCount ∨ 0x10000 < stringSize ∨
          left < stringSize + idsCount * 8 then .ok attrs
      else
        let string ← slice data stringPos (stringPos + stringSize)
        if 0 ∉ string then .ok attrs
        else
          let idsPos := stringPos + stringSize
          let idsBytes ← slice data idsPos (idsPos + idsCount * 8)
          let attrBytes ← slice data pos (pos + min attrSize PerfEventAttr.byteSize)
          let attrs ← attrs.addAttr build byteReader attrBytes (string.takeWhile (· ≠ 0)) idsBytes
          eventDescLoop build byteReader data attrSize count (idsPos + idsBytes.length) attrs

/-- `parse_header_event_desc`. -/
def parseHeaderEventDesc (build : Build) (state : ReaderState) : Exec ReaderState := do
  let data := state.header PerfHeaderIndex.eventDesc
  if state.parsedHeaderEventDesc ∨ data.length < 4 + 4 then .ok state
  else
    let byteReader := state.sessionInfo.byteReader
    let eventCount ← readUInt byteReader 4 data 0
    let attrSize ← readUInt byteReader 4 data 4
    if attrSize < PerfEventAttrSize.ver0 ∨ 0x10000 < attrSize then
      .ok { state with parsedHeaderEventDesc := true }
    else
      let attrs ← eventDescLoop build byteReader data attrSize eventCount 8 state.attrs
      .ok { state with parsedHeaderEventDesc := true, attrs := attrs }

/-! ### Tracing data -/

/-- `read_sz`: the bytes up to the next NUL. -/
def readSz (data : List UInt8) (pos : ℕ) : Option (List UInt8) :=
  if 0 ∈ data.drop pos then some ((data.drop pos).takeWhile (· ≠ 0)) else none

/-- `read_section` with a size of four or eight bytes; the range ends at 0 where it fails. -/
def readSection (build : Build) (sizeOfSectionSize : ℕ) (order : ByteOrder) (data : List UInt8)
    (pos : ℕ) : Exec ByteRange := do
  debugAssert build (pos ≤ data.length)
  let left ← sub data.length pos
  if left < sizeOfSectionSize then .ok ⟨0, 0⟩
  else
    let sectionSize ← readUInt order sizeOfSectionSize data pos
    let left ← sub data.length (pos + sizeOfSectionSize)
    if left < sectionSize then .ok ⟨0, 0⟩
    else .ok ⟨pos + sizeOfSectionSize, pos + sizeOfSectionSize + sectionSize⟩

/-- `read_named_section_64`: where the name does not match, an empty range at the position. -/
def readNamedSection64 (build : Build) (order : ByteOrder) (data : List UInt8) (pos : ℕ)
    (expectedName : List UInt8) : Exec ByteRange := do
  debugAssert build (pos ≤ data.length)
  let left ← sub data.length pos
  if left < expectedName.length ∨ (data.drop pos).take expectedName.length ≠ expectedName then
    .ok ⟨pos, pos⟩
  else readSection build 8 order data (pos + expectedName.length)

/-! #### The version of the tracing data -/

/-- The value of decimal digits. -/
def digitsValue (digits : List UInt8) : ℕ :=
  digits.foldl (fun value digit ↦ value * 10 + (digit.toNat - 48)) 0

/-- The exponent behind `e` or `E`, if it is well formed. -/
def exponentOf (text : List UInt8) : Option ℤ :=
  match text with
  | [] => some 0
  | e :: rest =>
    if e = 101 ∨ e = 69 then
      let (negative, digits) :=
        match rest with
        | 43 :: digits => (false, digits)
        | 45 :: digits => (true, digits)
        | digits => (false, digits)
      if digits ≠ [] ∧ digits.all Text.isAsciiDigit then
        some (if negative then -(digitsValue digits : ℤ) else digitsValue digits)
      else none
    else none

/-- The lower-case letter of an ASCII letter. -/
def toLower (c : UInt8) : UInt8 := if 65 ≤ c ∧ c ≤ 90 then c + 32 else c

/-- Whether a decimal number without a sign, as `parse::<f64>` reads it, is at least the `f64`
nearest to 0.6. The `f64` below that one has an even significand, so the numbers up to the middle
between the two are rounded down. -/
def decimalAtLeast06 (text : List UInt8) : Bool :=
  let whole := text.takeWhile Text.isAsciiDigit
  let behind := text.drop whole.length
  let (fraction, behind) :=
    match behind with
    | 46 :: rest =>
      (rest.takeWhile Text.isAsciiDigit, rest.drop (rest.takeWhile Text.isAsciiDigit).length)
    | rest => ([], rest)
  if whole = [] ∧ fraction = [] then false
  else
    match exponentOf behind with
    | none => false
    | some exponent =>
      let mantissa := digitsValue (whole ++ fraction)
      let exponent := exponent - fraction.length
      10808639105689189 * 10 ^ (-exponent).toNat < mantissa * 2 ^ 54 * 10 ^ exponent.toNat

/-- `parse::<f64>().unwrap_or(0.0) >= 0.6`. -/
def versionAtLeast06 (text : List UInt8) : Bool :=
  match text with
  | 45 :: _ => false
  | _ =>
    let unsigned := if text.head? = some 43 then text.tail else text
    if unsigned.map toLower = ascii "inf" ∨ unsigned.map toLower = ascii "infinity" then true
    else decimalAtLeast06 unsigned

/-! #### The parser -/

/-- A part of `parse_tracing_data`: it leaves early where the data is not as expected. -/
abbrev TracingParser := Act ReaderState Unit

/-- Leave where a section did not end behind 0. -/
def expectSection (range : ByteRange) : TracingParser Unit :=
  if range.stop = 0 then Act.leave () else pure ()

/-- A `u32` at a position, or leave. -/
def expectU32 (order : ByteOrder) (data : List UInt8) (pos : ℕ) : TracingParser ℕ := do
  let left ← Act.compute (sub data.length pos)
  if left < 4 then Act.leave () else Act.compute (readUInt order 4 data pos)

/-- The text at a position up to a NUL, or leave. -/
def expectSz (data : List UInt8) (pos : ℕ) : TracingParser (List UInt8) :=
  match readSz data pos with
  | some text => pure text
  | none => Act.leave ()

/-- A section with its size in front, or leave. -/
def expectSized (build : Build) (sizeOfSectionSize : ℕ) (order : ByteOrder) (data : List UInt8)
    (pos : ℕ) : TracingParser ByteRange := do
  let range ← Act.compute (readSection build sizeOfSectionSize order data pos)
  expectSection range
  pure range

/-- The loop over the ftraces. -/
def ftracesLoop (build : Build) (order : ByteOrder) (data : List UInt8) :
    ℕ → ℕ → TracingParser ℕ
  | 0, pos => pure pos
  | count + 1, pos => do
    let range ← expectSized build 8 order data pos
    Act.update fun state ↦ { state with ftraces := state.ftraces ++ [range] }
    ftracesLoop build order data count range.stop

/-- The offset and size of a usable `common_type` among the common fields: the first field of that
name decides. -/
def commonType : ℕ → List PerfFieldFormat → Exec (Option (ℤ × ℕ))
  | 0, _ => .ok none
  | _ + 1, [] => .error .indexOutOfRange
  | count + 1, field :: fields => do
    let name ← field.name
    if name = ascii "common_type" then
      if field.offset ≤ 127 ∧ (field.size = 1 ∨ field.size = 2 ∨ field.size = 4) ∧
          field.array = .none then
        .ok (some (field.offset, field.size))
      else .ok none
    else commonType count fields

/-- What a parsed format does to the state. -/
def addFormat (state : ReaderState) (format : PerfEventFormat) : Exec ReaderState := do
  match ← commonType format.commonFieldCount format.fields with
  | none => .ok state
  | some (offset, size) =>
    if state.commonTypeOffset = EventOffsets.offsetUnset then
      .ok
        { state with
          commonTypeOffset := offset
          commonTypeSize := size
          attrs := { state.attrs with
            formatById := (format.id, format) :: state.attrs.formatById } }
    else if state.commonTypeOffset ≠ offset ∨ state.commonTypeSize ≠ size then .ok state
    else
      .ok
        { state with
          attrs := { state.attrs with
            formatById := (format.id, format) :: state.attrs.formatById } }

/-- The loop over the events of a system. -/
def eventsLoop (build : Build) (order : ByteOrder) (data systemName : List UInt8) :
    ℕ → ℕ → TracingParser ℕ
  | 0, pos => pure pos
  | count + 1, pos => do
    let range ← expectSized build 8 order data pos
    let bytes ← Act.compute (slice data range.start range.stop)
    let state ← Act.read
    let format ← Act.compute (PerfEventFormat.parse build (state.tracingDataLongSize ≠ 4)
      systemName (fromLatin1 bytes))
    match format with
    | some format => Act.updateM fun state ↦ addFormat state format
    | none => pure ()
    eventsLoop build order data systemName count range.stop

/-- The loop over the systems. -/
def systemsLoop (build : Build) (order : ByteOrder) (data : List UInt8) :
    ℕ → ℕ → TracingParser ℕ
  | 0, pos => pure pos
  | count + 1, pos => do
    let system ← expectSz data pos
    let pos := pos + system.length + 1
    let eventCount ← expectU32 order data pos
    let pos ← eventsLoop build order data (fromLatin1 system) eventCount (pos + 4)
    systemsLoop build order data count pos

/-- The descriptions get the formats that are new. -/
def updateFormats (attrs : ReaderAttrs) : ReaderAttrs :=
  { attrs with
    eventDescList := attrs.eventDescList.map fun desc ↦
      match desc.format, attrs.formatOf desc.attr with
      | none, some format => desc.setFormat format
      | _, _ => desc }

def tracingSignature : List UInt8 := [0x17, 0x08, 0x44] ++ ascii "tracing"

/-- `parse_tracing_data` behind the signature. -/
def tracingBody (build : Build) (data : List UInt8) : TracingParser Unit := do
  Act.update fun state ↦ { state with parsedTracingData := true }
  let version ← expectSz data tracingSignature.length
  let pos := tracingSignature.length + version.length + 1
  let left ← Act.compute (sub data.length pos)
  if left < 1 + 1 + 4 then Act.leave ()
  let bigEndian ← Act.compute (byteAt data pos)
  let order : ByteOrder := if bigEndian ≠ 0 then .big else .little
  let longSize ← Act.compute (byteAt data (pos + 1))
  Act.update fun state ↦ { state with tracingDataLongSize := longSize.toNat }
  let pageSize ← Act.compute (readUInt order 4 data (pos + 2))
  Act.update fun state ↦ { state with tracingDataPageSize := pageSize }
  let headerPage ← Act.compute (readNamedSection64 build order data (pos + 6)
    (ascii "header_page" ++ [0]))
  expectSection headerPage
  Act.update fun state ↦ { state with headerPage := headerPage }
  let headerEvent ← Act.compute (readNamedSection64 build order data headerPage.stop
    (ascii "header_event" ++ [0]))
  expectSection headerEvent
  Act.update fun state ↦ { state with headerEvent := headerEvent }
  let ftraceCount ← expectU32 order data headerEvent.stop
  let pos := headerEvent.stop + 4
  let left ← Act.compute (sub data.length pos)
  if left % 2 ^ 32 / 8 < ftraceCount then Act.leave ()
  let pos ← ftracesLoop build order data ftraceCount pos
  let systemCount ← expectU32 order data pos
  let pos ← systemsLoop build order data systemCount (pos + 4)
  Act.update fun state ↦ { state with attrs := updateFormats state.attrs }
  let kallsyms ← expectSized build 4 order data pos
  Act.update fun state ↦ { state with kallsyms := kallsyms }
  let printk ← expectSized build 4 order data kallsyms.stop
  Act.update fun state ↦ { state with printk := printk }
  if versionAtLeast06 version then
    let cmdLine ← expectSized build 8 order data printk.stop
    Act.update fun state ↦ { state with cmdLine := cmdLine }

/-- `parse_tracing_data`. -/
def parseTracingData (build : Build) (state : ReaderState) : Exec ReaderState :=
  let data := state.header PerfHeaderIndex.tracingData
  if data.take tracingSignature.length ≠ tracingSignature then .ok state
  else do
    let (_, state) ← tracingBody build data state
    .ok state

end ReaderState

end Tracepoints
