import Tracepoints.Perf.ReaderState

/-!
# Reading a perf.data file

`InputFile` (`tracepoint_perf/src/input_file.rs`) and the operations of `DataFileReader`
(`file_reader.rs`): `open` with `load_attrs` and `load_headers`, `read_one_event`, and the two orders
in which `move_next_event` returns events. A file is its bytes; the only errors it gives are ends of
file. `current_buffer` is a number without a bound: it counts buffers of 64 KiB that are all in
memory, so that its 32 bits do not overflow.
-/

set_option autoImplicit false
set_option relaxedAutoImplicit false

namespace Tracepoints

open Exec

/-- The kinds of `io::Error` that occur. -/
inductive IoError
  | invalidInput
  | invalidData
  | unexpectedEof
  deriving DecidableEq, Repr

/-! ### The file -/

/-- `InputFile`: the bytes of the file, where the operating system reads next, and the position and
length that are tracked. -/
structure InputFile where
  content : List UInt8
  cursor : ℕ
  innerPos : ℕ
  innerLen : ℕ
  deriving DecidableEq, Repr

namespace InputFile

/-- `InputFile::new`. -/
def new (content : List UInt8) : InputFile := ⟨content, 0, 0, 0⟩

/-- `update_len`. -/
def updateLen (file : InputFile) : InputFile := { file with innerLen := file.content.length }

/-- `seek_absolute`. -/
def seekAbsolute (newPos : ℕ) : Act InputFile IoError Unit := fun file ↦
  if newPos = file.innerPos then .ok (.ok (), file)
  else if file.innerLen < newPos then .ok (.error .unexpectedEof, file)
  else .ok (.ok (), { file with cursor := newPos, innerPos := newPos })

/-- `read_exact`. A read that fails has consumed the rest of the file, and does not change the
position that is tracked. -/
def readExact (count : ℕ) : Act InputFile IoError (List UInt8) := fun file ↦
  if file.cursor + count ≤ file.content.length then
    .ok (.ok ((file.content.drop file.cursor).take count),
      { file with cursor := file.cursor + count, innerPos := file.innerPos + count })
  else .ok (.error .unexpectedEof, { file with cursor := file.content.length })

end InputFile

/-! ### Opening a file -/

/-- What `open` works on: the parsed part of the reader, its first buffer, and the file. -/
structure OpenState where
  state : ReaderState
  buffer0 : List UInt8
  file : InputFile
  deriving DecidableEq, Repr

/-- A part of `open`: it leaves early with an error. -/
abbrev Opening := Act OpenState IoError

namespace OpenState

/-- An operation of the file. -/
def onFile {α : Type} (action : Act InputFile IoError α) : Opening α := fun s ↦
  match action s.file with
  | .error fault => .error fault
  | .ok (outcome, file) => .ok (outcome, { s with file := file })

/-- Change the parsed part. -/
def onState (change : ReaderState → Exec ReaderState) : Opening Unit :=
  Act.updateM fun s ↦ do
    let state ← change s.state
    .ok { s with state := state }

/-- `section_valid`. -/
def sectionValid (file : InputFile) (s : PerfFileSection) : Bool :=
  s.offset < file.innerLen && s.size ≤ file.innerLen - s.offset

/-- `read_assign_vec` into the first buffer. -/
def readBuffer0 (count : ℕ) : Opening Unit := do
  Act.update fun s ↦ { s with buffer0 := [] }
  let bytes ← onFile (InputFile.readExact count)
  Act.update fun s ↦ { s with buffer0 := bytes }

/-- One iteration of the loop of `load_attrs`. The section of the ids is used as it is read. -/
def loadAttr (build : Build) (attrSizeInFile attrFilePos : ℕ) : Opening Unit := do
  onFile (InputFile.seekAbsolute attrFilePos)
  let attrBytes ← onFile (InputFile.readExact (min attrSizeInFile PerfEventAttr.byteSize))
  onFile (InputFile.seekAbsolute (attrFilePos + attrSizeInFile))
  let sectionBytes ← onFile (InputFile.readExact PerfFileSection.byteSize)
  let ids := PerfFileSection.ofBytes build.targetEndian sectionBytes
  let s ← Act.read
  if !sectionValid s.file ids || ids.size % 8 ≠ 0 || 0x80000000 ≤ ids.size then
    Act.leave .invalidData
  else
    onFile (InputFile.seekAbsolute ids.offset)
    readBuffer0 ids.size
    let s ← Act.read
    onState fun state ↦ do
      let attrs ← state.attrs.addAttr build state.sessionInfo.byteReader attrBytes [] s.buffer0
      .ok { state with attrs := attrs }

/-- The loop of `load_attrs`. -/
def loadAttrsLoop (build : Build) (attrSizeInFile attrFilePosEnd : ℕ) : ℕ → ℕ → Opening Unit
  | 0, _ => Act.compute (.error .unfinished)
  | fuel + 1, attrFilePos =>
    if attrFilePos < attrFilePosEnd then do
      loadAttr build attrSizeInFile attrFilePos
      loadAttrsLoop build attrSizeInFile attrFilePosEnd fuel
        (attrFilePos + attrSizeInFile + PerfFileSection.byteSize)
    else pure ()

/-- `load_attrs`. -/
def loadAttrs (build : Build) (attrsSection : PerfFileSection) (attrAndIdSectionSize : ℕ) :
    Opening Unit := do
  let s ← Act.read
  Act.compute (debugAssert build (s.buffer0 = []))
  if 0x80000000 ≤ attrsSection.size ∨
      attrAndIdSectionSize < PerfEventAttrSize.ver0 + PerfFileSection.byteSize ∨
      0x10000 < attrAndIdSectionSize then
    Act.leave .invalidData
  else
    loadAttrsLoop build (attrAndIdSectionSize - PerfFileSection.byteSize)
      (attrsSection.offset + attrsSection.size) (attrsSection.size + 1) attrsSection.offset

/-- What a loaded header does to the parsed part. -/
def parseHeader (build : Build) (index : Fin 32) (state : ReaderState) : Exec ReaderState :=
  if index = PerfHeaderIndex.clockId then .ok state.parseHeaderClockid
  else if index = PerfHeaderIndex.clockData then .ok (state.parseHeaderClockData build)
  else if index = PerfHeaderIndex.eventDesc then state.parseHeaderEventDesc build
  else if index = PerfHeaderIndex.tracingData then state.parseTracingData build
  else .ok state

/-- The part of the loop of `load_headers` for a header that is present. The section of the header
is used as it is read. -/
def loadHeader (build : Build) (filePos : ℕ) (index : Fin 32) : Opening Unit := do
  onFile (InputFile.seekAbsolute filePos)
  let sectionBytes ← onFile (InputFile.readExact PerfFileSection.byteSize)
  let header := PerfFileSection.ofBytes build.targetEndian sectionBytes
  let s ← Act.read
  if !sectionValid s.file header || 0x80000000 ≤ header.size then Act.leave .invalidData
  else
    onFile (InputFile.seekAbsolute header.offset)
    let bytes ← onFile (InputFile.readExact header.size)
    onState fun state ↦ parseHeader build index (state.setHeader index bytes)

/-- The loop of `load_headers` over the indexes. -/
def loadHeadersLoop (build : Build) (flags : ℕ) : List (Fin 32) → ℕ → Opening Unit
  | [], _ => pure ()
  | index :: indexes, filePos =>
    if flags.testBit index then do
      loadHeader build filePos index
      loadHeadersLoop build flags indexes (filePos + PerfFileSection.byteSize)
    else loadHeadersLoop build flags indexes filePos

/-- `load_headers`. -/
def loadHeaders (build : Build) (dataSection : PerfFileSection) (flags : ℕ) : Opening Unit :=
  loadHeadersLoop build flags (List.finRange 32) (dataSection.offset + dataSection.size)

/-- The byte order that the magic of a file tells, and the header size as `open` reads it:
`from_be` of the swapped size, which swaps only on a little-endian host. -/
def byteOrderOf (build : Build) (pipe : PerfFileHeaderPipe) : Option (ByteOrder × ℕ) :=
  if pipe.magic = perfile2MagicHostEndian then some (build.targetEndian, pipe.size)
  else if pipe.magic = perfile2MagicSwapEndian then
    some (build.targetEndian.flip,
      match build.targetEndian with
      | .little => ByteOrder.swapBytes 8 pipe.size
      | .big => pipe.size)
  else none

/-- `open` for a file that is not in pipe mode, behind its first sixteen bytes. -/
def openNormal (build : Build) (order : ByteOrder) : Opening Unit := do
  Act.update fun s ↦ { s with file := s.file.updateLen }
  let restBytes ← onFile (InputFile.readExact PerfFileHeaderRest.byteSize)
  let hostRest := PerfFileHeaderRest.ofBytes build.targetEndian restBytes
  let rest := if order ≠ build.targetEndian then hostRest.byteSwap else hostRest
  let s ← Act.read
  if !sectionValid s.file rest.attrs || !sectionValid s.file rest.data ||
      !sectionValid s.file rest.eventTypes then
    Act.leave .invalidData
  else
    loadAttrs build rest.attrs rest.attrSize
    loadHeaders build rest.data (rest.flags.getD 0 0)
    onFile (InputFile.seekAbsolute rest.data.offset)
    Act.update fun s ↦
      { s with
        state := { s.state with
          dataBeginFilePos := rest.data.offset
          dataEndFilePos := rest.data.offset + rest.data.size } }

/-- `DataFileReader::open`. -/
def open_ (build : Build) : Opening Unit := do
  let pipeBytes ← onFile (InputFile.readExact PerfFileHeaderPipe.byteSize)
  let pipe := PerfFileHeaderPipe.ofBytes build.targetEndian pipeBytes
  match byteOrderOf build pipe with
  | none => Act.leave .invalidData
  | some (order, headerSize) =>
    Act.update fun s ↦ { s with state := { s.state with sessionInfo := .new order } }
    let s ← Act.read
    Act.compute (debugAssert build (s.buffer0 = []))
    if headerSize = PerfFileHeaderPipe.byteSize then
      Act.update fun s ↦
        { s with
          state := { s.state with
            dataBeginFilePos := PerfFileHeaderPipe.byteSize
            dataEndFilePos := 2 ^ 64 - 1 } }
    else if headerSize < perfFileHeaderSize then Act.leave .invalidData
    else openNormal build order

end OpenState

/-! ### The reader -/

/-- `PerfDataFileEventOrder`. -/
inductive PerfDataFileEventOrder
  | file
  | time
  deriving DecidableEq, Repr

/-- `EventBytesRef`. -/
structure EventBytesRef where
  bufferIndex : ℕ
  start : ℕ
  stop : ℕ
  deriving DecidableEq, Repr

namespace EventBytesRef

/-- `EventBytesRef::default`. -/
def default : EventBytesRef := ⟨0, 0, 0⟩

end EventBytesRef

/-- `QueueEntry`. -/
structure QueueEntry where
  time : ℕ
  roundSequence : ℕ
  bytesRef : EventBytesRef
  deriving DecidableEq, Repr

/-- `DataFileReader`, with the file that `PerfDataFileReader` keeps beside it. -/
structure DataFileReader extends ReaderState where
  file : InputFile
  buffers : List (List UInt8)
  currentBuffer : ℕ
  eventOrder : PerfDataFileEventOrder
  eventQueue : List QueueEntry
  eventQueueConsumed : ℕ
  eventQueuePendingResult : Option (Except IoError Bool)
  deriving DecidableEq, Repr

namespace DataFileReader

/-- A reader that was closed and has `spare` cleared buffers behind its first one. -/
def closed (spare : ℕ) (content : List UInt8) : DataFileReader where
  toReaderState := .new
  file := .new content
  buffers := [] :: List.replicate spare []
  currentBuffer := 0
  eventOrder := .file
  eventQueue := []
  eventQueueConsumed := 0
  eventQueuePendingResult := none

/-- `open_file` of a reader that was closed. -/
def openFile (build : Build) (spare : ℕ) (content : List UInt8)
    (eventOrder : PerfDataFileEventOrder) : Exec (Except IoError Unit × DataFileReader) := do
  let reader := closed spare content
  let (outcome, s) ← OpenState.open_ build ⟨reader.toReaderState, [], reader.file⟩
  .ok (outcome,
    { reader with
      toReaderState := s.state
      file := s.file
      buffers := s.buffer0 :: List.replicate spare []
      eventOrder := eventOrder })

/-! ### Reading one event -/

def normalEventMaxSize : ℕ := 0x10000

/-- A result of `read_one_event`: what it returns, the event it leaves, and the reader. -/
structure ReadResult where
  result : Except IoError Bool
  eventBytes : EventBytesRef
  reader : DataFileReader
  deriving DecidableEq, Repr

/-- The buffer at an index, checked. -/
def buffer (reader : DataFileReader) (index : ℕ) : Exec (List UInt8) :=
  match reader.buffers[index]? with
  | some bytes => .ok bytes
  | none => .error .indexOutOfRange

/-- The header of an event, in the byte order of the host. -/
def eventHeader (build : Build) (state : ReaderState) (bytes : List UInt8) : PerfEventHeader :=
  let header := PerfEventHeader.ofBytes build.targetEndian bytes
  if state.sessionInfo.byteSwapNeeded build then header.byteSwap else header

/-- The switch to the next buffer where an event does not fit into the current one. -/
def selectBuffer (build : Build) (reader : DataFileReader) (size : ℕ) : Exec DataFileReader := do
  let bytes ← reader.buffer reader.currentBuffer
  let room ← subUsize build normalEventMaxSize bytes.length
  if room < size then
    debugAssert build (reader.eventOrder = .time)
    let next := reader.currentBuffer + 1
    let reader :=
      { reader with
        currentBuffer := next
        buffers :=
          if reader.buffers.length ≤ next then reader.buffers ++ [[]] else reader.buffers }
    debugAssert build (reader.buffers[next]? = some [])
    .ok reader
  else .ok reader

/-- The current buffer with bytes behind it. -/
def append (reader : DataFileReader) (bytes : List UInt8) : DataFileReader :=
  { reader with buffers := reader.buffers.modify reader.currentBuffer (· ++ bytes) }

/-- `read_append_vec` into the current buffer. -/
def readAppend (reader : DataFileReader) (count : ℕ) :
    Exec (Except IoError Unit × DataFileReader) := do
  match ← InputFile.readExact count reader.file with
  | (.error error, file) => .ok (.error error, { reader with file := file })
  | (.ok bytes, file) => .ok (.ok (), { reader with file := file }.append bytes)

/-- `read_post_event_data`; a size that is not acceptable is an error of invalid data for its
callers. -/
def readPostEventData (reader : DataFileReader) (dataSize : ℕ) :
    Exec (Except IoError Unit × DataFileReader) := do
  let left ← sub reader.dataEndFilePos reader.file.innerPos
  let bytes ← reader.buffer reader.currentBuffer
  if 0x80000000 ≤ dataSize ∨ dataSize % 8 ≠ 0 ∨ left < dataSize then
    .ok (.error .invalidData, reader)
  else if 0x80000000 ≤ bytes.length + dataSize then .ok (.error .invalidData, reader)
  else readAppend reader dataSize

/-- The effect of a `HeaderAttr` event with the given data. -/
def headerAttr (build : Build) (state : ReaderState) (data : List UInt8) : Exec ReaderState := do
  if data.length < PerfEventAttrSize.ver0 then .ok state
  else
    let byteReader := state.sessionInfo.byteReader
    let attrSize ← readUInt byteReader 4 data PerfEventAttr.sizeOffset
    if PerfEventAttrSize.ver0 ≤ attrSize ∧ attrSize < data.length then
      let attrBytes ← slice data 0 (min attrSize PerfEventAttr.byteSize)
      let idsBytes ← slice data attrSize data.length
      let attrs ← state.attrs.addAttr build byteReader attrBytes [] idsBytes
      .ok { state with attrs := attrs }
    else .ok state

/-- The effect of a `HeaderFeature` event with the given data. -/
def headerFeature (build : Build) (state : ReaderState) (data : List UInt8) : Exec ReaderState := do
  if data.length < 8 then .ok state
  else
    let index ← readUInt state.sessionInfo.byteReader 8 data 0
    if h : index < 32 then
      let state := state.setHeader ⟨index, h⟩ (data.drop 8)
      if index = PerfHeaderIndex.clockId then .ok state.parseHeaderClockid
      else if index = PerfHeaderIndex.clockData then .ok (state.parseHeaderClockData build)
      else .ok state
    else .ok state

/-- The effect of an event without data behind it. -/
def plainEvent (build : Build) (state : ReaderState) (ty : ℕ) (data : List UInt8) :
    Exec ReaderState :=
  if ty = PerfEventHeaderType.headerAttr then headerAttr build state data
  else if ty = PerfEventHeaderType.headerBuildId then
    .ok (state.setHeader PerfHeaderIndex.buildId data)
  else if ty = PerfEventHeaderType.headerFeature then headerFeature build state data
  else if ty = PerfEventHeaderType.finishedInit ∧
      state.header PerfHeaderIndex.eventDesc ≠ [] then
    state.parseHeaderEventDesc build
  else .ok state

/-- The effect of the tracing data behind a `HeaderTracingData` event. -/
def tracingDataEvent (build : Build) (state : ReaderState) (data : List UInt8) :
    Exec ReaderState :=
  if state.parsedTracingData then .ok state
  else (state.setHeader PerfHeaderIndex.tracingData data).parseTracingData build

/-- The special cases of `read_one_event` for the type of an event, whose header is at `headerPos`
of the current buffer. -/
def processEvent (build : Build) (reader : DataFileReader) (header : PerfEventHeader)
    (headerPos : ℕ) : Exec (Except IoError Unit × DataFileReader) := do
  let bytes ← reader.buffer reader.currentBuffer
  let data := bytes.drop (headerPos + PerfEventHeader.byteSize)
  let dataLen := header.size - PerfEventHeader.byteSize
  let byteReader := reader.sessionInfo.byteReader
  if header.ty = PerfEventHeaderType.headerTracingData then
    if dataLen < 4 then .ok (.error .invalidData, reader)
    else
      let dataSize ← readUInt byteReader 4 data 0
      match ← readPostEventData reader dataSize with
      | (.error error, reader) => .ok (.error error, reader)
      | (.ok (), reader) => do
        let bytes ← reader.buffer reader.currentBuffer
        let state ← tracingDataEvent build reader.toReaderState
          (bytes.drop (headerPos + header.size))
        .ok (.ok (), { reader with toReaderState := state })
  else if header.ty = PerfEventHeaderType.auxtrace then
    if dataLen < 8 then .ok (.error .invalidData, reader)
    else
      let dataSize ← readUInt byteReader 8 data 0
      readPostEventData reader dataSize
  else
    let state ← plainEvent build reader.toReaderState header.ty data
    .ok (.ok (), { reader with toReaderState := state })

/-- `read_one_event` once the header of the event is checked. -/
def readEventData (build : Build) (reader : DataFileReader) (eventBytes : EventBytesRef)
    (headerBytes : List UInt8) (header : PerfEventHeader) : Exec ReadResult := do
  let reader ← selectBuffer build reader header.size
  let headerPos := (← reader.buffer reader.currentBuffer).length
  let reader := reader.append headerBytes
  match ← readAppend reader (header.size - PerfEventHeader.byteSize) with
  -- an error here leaves the event as it was
  | (.error error, reader) => .ok ⟨.error error, eventBytes, reader⟩
  | (.ok (), reader) =>
    match ← processEvent build reader header headerPos with
    | (.error error, reader) => .ok ⟨.error error, .default, reader⟩
    | (.ok (), reader) => do
      debugAssert build (reader.file.innerPos ≤ reader.dataEndFilePos)
      let bytes ← reader.buffer reader.currentBuffer
      .ok ⟨.ok true, ⟨reader.currentBuffer, headerPos % 2 ^ 32, bytes.length % 2 ^ 32⟩, reader⟩

/-- `read_one_event`. -/
def readOneEvent (build : Build) (reader : DataFileReader) (eventBytes : EventBytesRef) :
    Exec ReadResult := do
  let bytes ← reader.buffer reader.currentBuffer
  debugAssert build (bytes.length ≤ normalEventMaxSize)
  let start := reader.file.innerPos
  if reader.dataEndFilePos ≤ start then .ok ⟨.ok false, .default, reader⟩
  else if reader.dataEndFilePos - start < PerfEventHeader.byteSize then
    .ok ⟨.error .invalidData, .default, reader⟩
  else
    match ← InputFile.readExact PerfEventHeader.byteSize reader.file with
    | (.error error, file) =>
      let result := if error = .unexpectedEof ∧ reader.dataEndFilePos = 2 ^ 64 - 1 then .ok false
        else .error error
      .ok ⟨result, .default, { reader with file := file }⟩
    | (.ok headerBytes, file) =>
      let reader := { reader with file := file }
      let header := eventHeader build reader.toReaderState headerBytes
      if header.size < PerfEventHeader.byteSize then
        .ok ⟨.error .invalidData, .default, reader⟩
      else
        let left ← sub reader.dataEndFilePos reader.file.innerPos
        if left < header.size - PerfEventHeader.byteSize then
          .ok ⟨.error .invalidData, .default, reader⟩
        else readEventData build reader eventBytes headerBytes header

/-! ### File order and time order -/

/-- `read_event_file_order`. -/
def readEventFileOrder (build : Build) (reader : DataFileReader) (eventBytes : EventBytesRef) :
    Exec ReadResult := do
  debugAssert build (reader.currentBuffer = 0)
  readOneEvent build { reader with buffers := reader.buffers.modify 0 fun _ ↦ [] } eventBytes

/-- The time of an event, or 0, from the offsets known when it is read. -/
def eventTime (state : ReaderState) (bytes : List UInt8) : Exec ℕ := do
  let byteReader := state.sessionInfo.byteReader
  let ty ← readUInt byteReader 4 bytes 0
  let offsets := state.attrs.offsets
  if ty = PerfEventHeaderType.sample then
    if offsets.sampleTime < 8 ∨ bytes.length < offsets.sampleTime + 8 then .ok 0
    else readUInt byteReader 8 bytes offsets.sampleTime.toNat
  else if PerfEventHeaderType.userTypeStart ≤ ty ∨ offsets.nonSampleTime < 8 ∨
      bytes.length < offsets.nonSampleTime then .ok 0
  else
    let pos ← sub bytes.length offsets.nonSampleTime.toNat
    readUInt byteReader 8 bytes pos

/-- Whether an event closes a round. -/
def closesRound (state : ReaderState) (bytes : List UInt8) : Exec Bool := do
  let ty ← readUInt state.sessionInfo.byteReader 4 bytes 0
  .ok (ty = PerfEventHeaderType.finishedRound ∨ ty = PerfEventHeaderType.finishedInit)

/-- The bytes that a reference denotes, checked. -/
def bytesOf (reader : DataFileReader) (ref : EventBytesRef) : Exec (List UInt8) := do
  let bytes ← reader.buffer ref.bufferIndex
  slice bytes ref.start ref.stop

/-- The inner loop of `read_event_time_order`: it fills the queue with the events of a round. -/
def fillQueue (build : Build) : ℕ → DataFileReader → Exec DataFileReader
  | 0, _ => .error .unfinished
  | fuel + 1, reader => do
    let read ← readOneEvent build reader .default
    match read.result with
    | .ok true => do
      let reader := read.reader
      let bytes ← reader.bytesOf read.eventBytes
      let time ← eventTime reader.toReaderState bytes
      let closes ← closesRound reader.toReaderState bytes
      let sequence := reader.eventQueue.length % 2 ^ 32
      let entry : QueueEntry := ⟨if closes then 2 ^ 64 - 1 else time, sequence, read.eventBytes⟩
      let reader := { reader with eventQueue := reader.eventQueue ++ [entry] }
      if closes then .ok reader else fillQueue build fuel reader
    | result => .ok { read.reader with eventQueuePendingResult := some result }

/-- The order of queue entries. -/
def entryLe (left right : QueueEntry) : Bool :=
  left.time < right.time || left.time = right.time && left.roundSequence ≤ right.roundSequence

/-- What the outer loop of `read_event_time_order` returns without reading. -/
def takeQueued (reader : DataFileReader) : Option ReadResult :=
  match reader.eventQueue[reader.eventQueueConsumed]? with
  | some entry =>
    some ⟨.ok true, entry.bytesRef,
      { reader with eventQueueConsumed := reader.eventQueueConsumed + 1 }⟩
  | none =>
    match reader.eventQueuePendingResult with
    | some result => some ⟨result, .default, { reader with eventQueuePendingResult := none }⟩
    | none => none

/-- The next round of `read_event_time_order`, sorted. -/
def nextRound (build : Build) (reader : DataFileReader) : Exec DataFileReader := do
  let reader ← fillQueue build (reader.file.content.length + 1)
    { reader with eventQueue := [], eventQueueConsumed := 0 }
  .ok { reader with eventQueue := reader.eventQueue.mergeSort entryLe }

/-- `read_event_time_order`: a round that was read has an event or a pending result. -/
def readEventTimeOrder (build : Build) (reader : DataFileReader) : Exec ReadResult := do
  match reader.takeQueued with
  | some result => .ok result
  | none =>
    let reader ← nextRound build reader
    match reader.takeQueued with
    | some result => .ok result
    | none => .error .unfinished

/-- `move_next_event` of a reader with an open file. -/
def moveNextEvent (build : Build) (reader : DataFileReader) (current : EventBytesRef) :
    Exec ReadResult :=
  match reader.eventOrder with
  | .file => readEventFileOrder build reader current
  | .time => readEventTimeOrder build reader

/-- The bytes of `current_event`. -/
def currentEventBytes (reader : DataFileReader) (current : EventBytesRef) : Exec (List UInt8) :=
  if current.stop - current.start < PerfEventHeader.byteSize then .ok []
  else reader.bytesOf current

end DataFileReader

end Tracepoints
