import Tracepoints.Lib.OrderedMap
import Tracepoints.Lib.Utf8
import Tracepoints.Perf.Clock

/-!
# Writing a perf.data file

`OutputFile` (`tracepoint_perf/src/output_file.rs`) and `PerfDataFileWriter` (`file_writer.rs`): the
setters, which only collect data, and `finalize_and_close`, which makes the two headers that are
synthesized, writes the headers and attributes behind the events, and last writes the header of the
file over its first bytes.

`WriterCall` is one call of the writer and `WriterCall.runAll` a sequence of them.
-/

set_option autoImplicit false
set_option relaxedAutoImplicit false

namespace Tracepoints

open Exec

/-! ### The file -/

/-- The kinds of `io::Error` that the writer gives. -/
inductive WriteError
  | invalidInput
  | fileTooLarge
  deriving DecidableEq, Repr

/-- `OutputFile`: the bytes of the file and the position that is tracked. -/
structure OutputFile where
  content : List UInt8
  innerPos : ℕ
  deriving DecidableEq, Repr

/-- A part of writing a file. -/
abbrev Writing := Act OutputFile WriteError

namespace OutputFile

/-- The most bytes of a file: the operating system counts them in an `i64`. -/
def maxSize : ℕ := 2 ^ 63 - 1

/-- `OutputFile::new`. -/
def new : OutputFile := ⟨[], 0⟩

/-- `seek_absolute`, within the file. -/
def seekAbsolute (newPos : ℕ) : Writing Unit :=
  Act.update fun file ↦ { file with innerPos := newPos }

/-- The file with bytes at its position in place of those that are there. -/
def put (file : OutputFile) (data : List UInt8) : OutputFile where
  content := file.content.take file.innerPos ++ data ++
    file.content.drop (file.innerPos + data.length)
  innerPos := file.innerPos + data.length

/-- `write_all`. It fails where the file would become too large. -/
def writeAll (data : List UInt8) : Writing Unit := fun file ↦
  if maxSize < file.innerPos + data.length then .ok (.error .fileTooLarge, file)
  else .ok (.ok (), file.put data)

end OutputFile

/-! ### What is collected -/

/-- `EventDesc`. -/
structure WriterEventDesc where
  name : List UInt8
  sampleIds : List UInt64
  attr : PerfEventAttr
  deriving DecidableEq, Repr

/-- `DataFileWriter`. -/
structure DataFileWriter where
  eventDescs : List WriterEventDesc
  eventFormatByCommonType : OrderedMap ℕ PerfEventFormat
  headers : Headers
  tracingDataHeaderPage : List UInt8
  tracingDataHeaderEvent : List UInt8
  tracingDataFtraces : List (List UInt8)
  tracingDataKallsyms : List UInt8
  tracingDataPrintk : List UInt8
  tracingDataCmdLine : List UInt8
  tracingDataPageSize : UInt32
  tracingDataLongSize : UInt8

/-- `strlen`, as the bytes in front of the first NUL. -/
def untilNul (value : List UInt8) : List UInt8 := value.takeWhile (· ≠ 0)

/-- `as_latin1`. -/
def asLatin1 (value : List UInt8) : List UInt8 :=
  if ∀ c ∈ value, c ≤ 0x7F then value
  else ((decodeUtf8 value).getD []).map fun c ↦ if 0xFF < c.toNat then 63 else .ofNat c.toNat

namespace DataFileWriter

/-- `DataFileWriter::new`, and what `close` leaves. -/
def new : DataFileWriter where
  eventDescs := []
  eventFormatByCommonType := .empty
  headers := .replicate 32 []
  tracingDataHeaderPage := []
  tracingDataHeaderEvent := []
  tracingDataFtraces := []
  tracingDataKallsyms := []
  tracingDataPrintk := []
  tracingDataCmdLine := []
  tracingDataPageSize := 0
  tracingDataLongSize := 0

/-- A header. -/
abbrev header (writer : DataFileWriter) (index : Fin 32) : List UInt8 := writer.headers.value index

/-- The writer with another value of a header. -/
def putHeader (writer : DataFileWriter) (index : Fin 32) (value : List UInt8) : DataFileWriter :=
  { writer with headers := writer.headers.put index value }

/-- `add_event_desc`. -/
def addEventDesc (writer : DataFileWriter) (name : List UInt8) (ids : List UInt64)
    (attr : PerfEventAttr) : DataFileWriter :=
  { writer with eventDescs := writer.eventDescs ++ [⟨untilNul name, ids, attr⟩] }

/-! ### Setters -/

/-- `set_header`: an index out of range changes nothing. -/
def setHeader (writer : DataFileWriter) (index : UInt8) (data : List UInt8) :
    Bool × DataFileWriter :=
  if h : index.toNat < 32 then (true, writer.putHeader ⟨index.toNat, h⟩ data) else (false, writer)

/-- The header that `set_string_header` makes: the size, the text up to a NUL, and zeros up to a
multiple of eight. -/
def stringHeader (build : Build) (data : List UInt8) : List UInt8 :=
  let value := untilNul data
  let headerLen := (4 + value.length + 1 + 7) / 8 * 8
  let text := build.targetEndian.toBytes 4 (value.length + 1) ++ value
  text ++ List.replicate (headerLen - text.length) 0

/-- `set_string_header`. -/
def setStringHeader (build : Build) (writer : DataFileWriter) (index : UInt8) (data : List UInt8) :
    Bool × DataFileWriter :=
  writer.setHeader index (stringHeader build data)

/-- `set_nr_cpus_header`. -/
def setNrCpusHeader (build : Build) (writer : DataFileWriter) (available online : UInt32) :
    DataFileWriter :=
  writer.putHeader PerfHeaderIndex.nrCpus
    (Record.encode build.targetEndian [(4, available.toNat), (4, online.toNat)])

/-- `set_sample_time_header`. -/
def setSampleTimeHeader (build : Build) (writer : DataFileWriter) (first last : UInt64) :
    DataFileWriter :=
  writer.putHeader PerfHeaderIndex.sampleTime
    (Record.encode build.targetEndian [(8, first.toNat), (8, last.toNat)])

/-- `set_utsname_headers`. -/
def setUtsnameHeaders (build : Build) (writer : DataFileWriter)
    (hostname osRelease arch : List UInt8) : Bool × DataFileWriter :=
  if 0x80000000 ≤ hostname.length ∨ 0x80000000 ≤ osRelease.length ∨ 0x80000000 ≤ arch.length then
    (false, writer)
  else
    (true, ((writer.putHeader PerfHeaderIndex.hostname (stringHeader build hostname)).putHeader
      PerfHeaderIndex.osRelease (stringHeader build osRelease)).putHeader
        PerfHeaderIndex.arch (stringHeader build arch))

/-- `set_tracing_data_required`. -/
def setTracingDataRequired (writer : DataFileWriter) (longSize : UInt8) (pageSize : UInt32) :
    DataFileWriter :=
  { writer with tracingDataLongSize := longSize, tracingDataPageSize := pageSize }

/-- One of the setters `set_tracing_data_*`: data of 2 GiB or more changes nothing. -/
def setTracingData (writer : DataFileWriter) (data : List UInt8) (change : DataFileWriter) :
    Bool × DataFileWriter :=
  if 0x80000000 ≤ data.length then (false, writer) else (true, change)

/-- `set_tracing_data_header_page`. -/
def setTracingDataHeaderPage (writer : DataFileWriter) (data : List UInt8) :
    Bool × DataFileWriter :=
  writer.setTracingData data { writer with tracingDataHeaderPage := data }

/-- `set_tracing_data_header_event`. -/
def setTracingDataHeaderEvent (writer : DataFileWriter) (data : List UInt8) :
    Bool × DataFileWriter :=
  writer.setTracingData data { writer with tracingDataHeaderEvent := data }

/-- `set_tracing_data_kallsyms`. -/
def setTracingDataKallsyms (writer : DataFileWriter) (data : List UInt8) : Bool × DataFileWriter :=
  writer.setTracingData data { writer with tracingDataKallsyms := data }

/-- `set_tracing_data_printk`. -/
def setTracingDataPrintk (writer : DataFileWriter) (data : List UInt8) : Bool × DataFileWriter :=
  writer.setTracingData data { writer with tracingDataPrintk := data }

/-- `set_tracing_data_saved_cmd_line`. -/
def setTracingDataSavedCmdLine (writer : DataFileWriter) (data : List UInt8) :
    Bool × DataFileWriter :=
  writer.setTracingData data { writer with tracingDataCmdLine := data }

/-- `set_tracing_data_clear_ftraces`. -/
def setTracingDataClearFtraces (writer : DataFileWriter) : DataFileWriter :=
  { writer with tracingDataFtraces := [] }

/-- `set_tracing_data_add_ftrace`. -/
def setTracingDataAddFtrace (writer : DataFileWriter) (ftrace : List UInt8) :
    Bool × DataFileWriter :=
  if 0x80000000 ≤ ftrace.length ∨ 0x80000000 ≤ writer.tracingDataFtraces.length then
    (false, writer)
  else (true, { writer with tracingDataFtraces := writer.tracingDataFtraces ++ [ftrace] })

def nameMaxSize : ℕ := 64 * 1024
def sampleIdsMaxSize : ℕ := 0xFFFFFFFF

/-- The checks of `add_event_desc` and `add_tracepoint_event_desc`. -/
def RefusesDesc (writer : DataFileWriter) (ids : List UInt64) (name : List UInt8) : Prop :=
  nameMaxSize ≤ name.length ∨ sampleIdsMaxSize ≤ ids.length ∨
    0xFFFFFFFF ≤ writer.eventDescs.length

instance (writer : DataFileWriter) (ids : List UInt64) (name : List UInt8) :
    Decidable (writer.RefusesDesc ids name) :=
  inferInstanceAs (Decidable (_ ∨ _ ∨ _))

/-- `PerfDataFileWriter::add_event_desc`. -/
def tryAddEventDesc (writer : DataFileWriter) (ids : List UInt64) (attr : PerfEventAttr)
    (name : List UInt8) : Bool × DataFileWriter :=
  if writer.RefusesDesc ids name then (false, writer) else (true, writer.addEventDesc name ids attr)

/-- `add_tracepoint_event_desc`. -/
def addTracepointEventDesc (writer : DataFileWriter) (ids : List UInt64) (attr : PerfEventAttr)
    (name : List UInt8) (format : PerfEventFormat) : Bool × DataFileWriter :=
  if writer.RefusesDesc ids name then (false, writer)
  else
    match writer.eventFormatByCommonType.find? format.id with
    | some _ => (false, writer)
    | none =>
      (true, { writer with
        eventFormatByCommonType := writer.eventFormatByCommonType.upsert format.id fun _ ↦ format
        }.addEventDesc name ids attr)

/-! ### Synthesized headers -/

/-- `append_string_z`. -/
def appendStringZ (buf value : List UInt8) : List UInt8 := buf ++ value ++ [0]

/-- `append_section32`. -/
def appendSection32 (build : Build) (buf value : List UInt8) : Exec (List UInt8) := do
  debugAssert build (value.length ≤ 2 ^ 32 - 1)
  .ok (buf ++ build.targetEndian.toBytes 4 value.length ++ value)

/-- `append_section64`. -/
def appendSection64 (build : Build) (buf value : List UInt8) : List UInt8 :=
  buf ++ build.targetEndian.toBytes 8 value.length ++ value

/-- `append_named_section64`. -/
def appendNamedSection64 (build : Build) (buf name defaultValue value : List UInt8) : List UInt8 :=
  appendSection64 build (appendStringZ buf name) (if value = [] then defaultValue else value)

/-- `DEFAULT_HEADER_PAGE`. -/
def defaultHeaderPage : List UInt8 :=
  ascii ("\tfield: u64 timestamp;\toffset:0;\tsize:8;\tsigned:0;\n" ++
    "\tfield: local_t commit;\toffset:8;\tsize:8;\tsigned:1;\n" ++
    "\tfield: int overwrite;\toffset:8;\tsize:1;\tsigned:1;\n" ++
    "\tfield: char data;\toffset:16;\tsize:4080;\tsigned:0;\n")

/-- `DEFAULT_HEADER_EVENT`. -/
def defaultHeaderEvent : List UInt8 :=
  ascii ("# compressed entry header\n" ++ "\ttype_len    :    5 bits\n" ++
    "\ttime_delta  :   27 bits\n" ++ "\tarray       :   32 bits\n" ++ "\n" ++
    "\tpadding     : type == 29\n" ++ "\ttime_extend : type == 30\n" ++
    "\ttime_stamp : type == 31\n" ++ "\tdata max type_len  == 28\n")

/-- The formats of the writer by the name of their system. -/
def formatsBySystem (writer : DataFileWriter) : OrderedMap (List UInt8) (List PerfEventFormat) :=
  writer.eventFormatByCommonType.values.foldl
    (fun map format ↦ map.upsert format.systemName fun formats ↦ formats.getD [] ++ [format])
    .empty

/-- What is written for a system: its name, the number of its events, and their formats. -/
def appendSystem (build : Build) (buf : List UInt8)
    (system : List UInt8 × List PerfEventFormat) : List UInt8 :=
  system.2.foldl (fun buf format ↦ appendSection64 build buf (asLatin1 format.writeTo))
    (appendStringZ buf (asLatin1 system.1) ++ build.targetEndian.toBytes 4 system.2.length)

/-- The start of a `TRACING_DATA` header, up to the sections. -/
def tracingDataStart (build : Build) (writer : DataFileWriter) : List UInt8 :=
  appendStringZ [] ([0x17, 0x08, 0x44] ++ ascii "tracing0.6") ++
    [if build.targetEndian = .big then 1 else 0] ++ [writer.tracingDataLongSize] ++
    build.targetEndian.toBytes 4 writer.tracingDataPageSize.toNat

/-- The `TRACING_DATA` header up to the formats. -/
def tracingDataFront (build : Build) (writer : DataFileWriter) : List UInt8 :=
  let header := appendNamedSection64 build (tracingDataStart build writer) (ascii "header_page")
    defaultHeaderPage writer.tracingDataHeaderPage
  let header := appendNamedSection64 build header (ascii "header_event") defaultHeaderEvent
    writer.tracingDataHeaderEvent
  let header := header ++ build.targetEndian.toBytes 4 writer.tracingDataFtraces.length
  let header := writer.tracingDataFtraces.foldl (appendSection64 build) header
  let systems := writer.formatsBySystem.entries
  systems.foldl (appendSystem build) (header ++ build.targetEndian.toBytes 4 systems.length)

/-- `synthesize_tracing_data`. -/
def synthesizeTracingData (build : Build) (writer : DataFileWriter) : Exec DataFileWriter :=
  if writer.tracingDataLongSize = 0 ∨ writer.tracingDataPageSize = 0 then .ok writer
  else do
    debugAssert build (writer.header PerfHeaderIndex.tracingData = [])
    let header ← appendSection32 build (tracingDataFront build writer) writer.tracingDataKallsyms
    let header ← appendSection32 build header writer.tracingDataPrintk
    .ok (writer.putHeader PerfHeaderIndex.tracingData
      (appendSection64 build header writer.tracingDataCmdLine))

/-- The bytes of ids. -/
def idsBytes (build : Build) (ids : List UInt64) : List UInt8 :=
  ids.flatMap fun id ↦ build.targetEndian.toBytes 8 id.toNat

/-- What is written for a description. The text is cut at the length of the UTF-8 name. -/
def appendEventDesc (build : Build) (buf : List UInt8) (desc : WriterEventDesc) :
    Exec (List UInt8) := do
  let name := asLatin1 desc.name
  debugAssert build (desc.name.length ≤ nameMaxSize)
  let nameSize := desc.name.length
  let namePad := 8 - nameSize % 8
  debugAssert build (desc.sampleIds.length ≤ sampleIdsMaxSize)
  let text ← slice name 0 nameSize
  .ok (buf ++ desc.attr.toBytes build.targetEndian ++
    build.targetEndian.toBytes 4 desc.sampleIds.length ++
    build.targetEndian.toBytes 4 (nameSize + namePad) ++ text ++ List.replicate namePad 0 ++
    idsBytes build desc.sampleIds)

/-- `synthesize_event_desc`. -/
def synthesizeEventDesc (build : Build) (writer : DataFileWriter) : Exec DataFileWriter := do
  debugAssert build (writer.header PerfHeaderIndex.eventDesc = [])
  debugAssert build (writer.eventDescs.length ≤ 0xFFFFFFFF)
  let header := build.targetEndian.toBytes 4 writer.eventDescs.length ++
    build.targetEndian.toBytes 4 PerfEventAttr.byteSize
  let header ← writer.eventDescs.foldlM (appendEventDesc build) header
  .ok (writer.putHeader PerfHeaderIndex.eventDesc header)

/-! ### Headers and attributes -/

/-- The first loop of `write_headers`: the flags, and the offset behind the sections. -/
def flagsLoop (headers : Headers) : List (Fin 32) → ℕ × ℕ → ℕ × ℕ
  | [], found => found
  | index :: indexes, (flags, offset) =>
    if headers.value index = [] then flagsLoop headers indexes (flags, offset)
    else flagsLoop headers indexes (flags ||| 1 <<< index.val, offset + PerfFileSection.byteSize)

/-- The second loop of `write_headers`: the section of each header; it ends at the offset behind the
last header. -/
def sectionsLoop (build : Build) (headers : Headers) : List (Fin 32) → ℕ → Writing ℕ
  | [], offset => pure offset
  | index :: indexes, offset =>
    if headers.value index = [] then sectionsLoop build headers indexes offset
    else do
      OutputFile.writeAll (PerfFileSection.toBytes build.targetEndian
        ⟨offset, (headers.value index).length⟩)
      sectionsLoop build headers indexes (offset + (headers.value index).length)

/-- The third loop of `write_headers`: the data of each header. -/
def headerDataLoop (headers : Headers) : List (Fin 32) → Writing Unit
  | [] => pure ()
  | index :: indexes =>
    if headers.value index = [] then headerDataLoop headers indexes
    else do
      OutputFile.writeAll (headers.value index)
      headerDataLoop headers indexes

/-- `write_headers`. -/
def writeHeaders (build : Build) (headers : Headers) : Writing ℕ := do
  let file ← Act.read
  let (flags0, firstOffset) := flagsLoop headers (List.finRange 32) (0, file.innerPos)
  let offset ← sectionsLoop build headers (List.finRange 32) firstOffset
  headerDataLoop headers (List.finRange 32)
  let file ← Act.read
  if file.innerPos ≠ offset then Act.compute (.error .assertion)
  pure flags0

/-- The size of an attribute and the section of its ids. -/
def attrEntrySize : ℕ := PerfEventAttr.byteSize + PerfFileSection.byteSize

/-- The first loop of `write_attrs`: the attributes with the sections of their ids. -/
def attrsLoop (build : Build) : List WriterEventDesc → ℕ → Writing Unit
  | [], _ => pure ()
  | desc :: descs, offset => do
    OutputFile.writeAll (desc.attr.toBytes build.targetEndian)
    let ids : PerfFileSection := ⟨offset, desc.sampleIds.length * 8⟩
    OutputFile.writeAll (ids.toBytes build.targetEndian)
    attrsLoop build descs (offset + ids.size)

/-- The second loop of `write_attrs`: the ids. -/
def idsLoop (build : Build) : List WriterEventDesc → Writing Unit
  | [] => pure ()
  | desc :: descs => do
    OutputFile.writeAll (idsBytes build desc.sampleIds)
    idsLoop build descs

/-- `write_attrs`. -/
def writeAttrs (build : Build) (descs : List WriterEventDesc) : Writing PerfFileSection := do
  let file ← Act.read
  let attrs : PerfFileSection := ⟨file.innerPos, attrEntrySize * descs.length⟩
  attrsLoop build descs (attrs.offset + attrs.size)
  idsLoop build descs
  pure attrs

/-- The header of a file whose data starts behind it. -/
def fileHeader (build : Build) (attrs : PerfFileSection) (dataSize flags0 : ℕ) : List UInt8 :=
  PerfFileHeaderPipe.toBytes build.targetEndian ⟨perfile2MagicHostEndian, perfFileHeaderSize⟩ ++
    PerfFileHeaderRest.toBytes build.targetEndian
      { attrSize := attrEntrySize
        attrs := attrs
        data := ⟨perfFileHeaderSize, dataSize⟩
        eventTypes := ⟨0, 0⟩
        flags := [flags0, 0, 0, 0] }

/-- `finalize_and_close` behind the synthesized headers. -/
def writeFooter (build : Build) (writer : DataFileWriter) : Writing Unit := do
  let file ← Act.read
  let dataSize ← Act.compute (sub file.innerPos perfFileHeaderSize)
  let flags0 ← writeHeaders build writer.headers
  let attrs ← writeAttrs build writer.eventDescs
  OutputFile.seekAbsolute 0
  OutputFile.writeAll (fileHeader build attrs dataSize flags0)

end DataFileWriter

/-! ### The writer -/

/-- `PerfDataFileWriter`. -/
structure PerfDataFileWriter where
  inner : DataFileWriter
  file : Option OutputFile

namespace PerfDataFileWriter

/-- `PerfDataFileWriter::new`, and what `close_no_finalize` leaves. -/
def new : PerfDataFileWriter := ⟨.new, none⟩

/-- `finalize_and_close`, with the file that is closed. -/
def finalizeAndClose (build : Build) (writer : PerfDataFileWriter) :
    Exec (Except WriteError OutputFile × PerfDataFileWriter) :=
  match writer.file with
  | none => .ok (.error .invalidInput, writer)
  | some file => do
    let inner ← writer.inner.synthesizeTracingData build
    let inner ← inner.synthesizeEventDesc build
    match ← inner.writeFooter build file with
    | (.error error, file) => .ok (.error error, ⟨inner, some file⟩)
    | (.ok (), file) => .ok (.ok file, new)

/-- A part of writing the file that is open. -/
def onFile (writer : PerfDataFileWriter) (action : Writing Unit) :
    Exec (Except WriteError Unit × PerfDataFileWriter) :=
  match writer.file with
  | none => .ok (.error .invalidInput, writer)
  | some file => do
    let (outcome, file) ← action file
    .ok (outcome, { writer with file := some file })

/-- `create_file`. -/
def createFile : Exec (Except WriteError Unit × PerfDataFileWriter) :=
  onFile ⟨.new, some .new⟩ (OutputFile.writeAll (List.replicate perfFileHeaderSize 0))

/-- `write_finished_init` and `write_finished_round`: the header of an event without data. -/
def finishedEvent (build : Build) (ty : ℕ) : List UInt8 :=
  PerfEventHeader.toBytes build.targetEndian ⟨ty, 0, PerfEventHeader.byteSize⟩

end PerfDataFileWriter

/-! ### Calls -/

/-- The calls of a writer that change it. Of the buffers of a vectored call, `written` bytes are
written. -/
inductive WriterCall
  | closeNoFinalize
  | finalizeAndClose
  | createFile
  | writeEventData (data : List UInt8)
  | writeEventDataVectored (bufs : List (List UInt8)) (written : ℕ)
  | writeFinishedInit
  | writeFinishedRound
  | setHeader (index : UInt8) (data : List UInt8)
  | setStringHeader (index : UInt8) (data : List UInt8)
  | setNrCpusHeader (available online : UInt32)
  | setSampleTimeHeader (first last : UInt64)
  | setClockidHeader (clockid : UInt32)
  | setClockDataHeader (clockid : UInt32) (wallClockNs clockidTimeNs : UInt64)
  | setSessionInfoHeaders (session : PerfSessionInfo)
  | setUtsnameHeaders (hostname osRelease arch : List UInt8)
  | setTracingDataRequired (longSize : UInt8) (pageSize : UInt32)
  | setTracingDataHeaderPage (data : List UInt8)
  | setTracingDataHeaderEvent (data : List UInt8)
  | setTracingDataKallsyms (data : List UInt8)
  | setTracingDataPrintk (data : List UInt8)
  | setTracingDataSavedCmdLine (data : List UInt8)
  | setTracingDataClearFtraces
  | setTracingDataAddFtrace (ftrace : List UInt8)
  | addEventDesc (ids : List UInt64) (attr : PerfEventAttr) (name : List UInt8)
  | addTracepointEventDesc (ids : List UInt64) (attr : PerfEventAttr) (name : List UInt8)
      (format : PerfEventFormat)

namespace WriterCall

/-- A setter that tells whether it was successful. -/
def tell (writer : PerfDataFileWriter) (result : Bool × DataFileWriter) :
    Exec (Bool × PerfDataFileWriter) :=
  .ok (result.1, { writer with inner := result.2 })

/-- A setter that is always successful. -/
def change (writer : PerfDataFileWriter) (inner : DataFileWriter) :
    Exec (Bool × PerfDataFileWriter) :=
  .ok (true, { writer with inner := inner })

/-- A call that writes is successful where it returns no error. -/
def written (result : Exec (Except WriteError Unit × PerfDataFileWriter)) :
    Exec (Bool × PerfDataFileWriter) := do
  let (outcome, writer) ← result
  .ok (outcome.isOk, writer)

/-- What a call does: whether it is successful, and the writer behind it. -/
def run (build : Build) (writer : PerfDataFileWriter) : WriterCall → Exec (Bool × PerfDataFileWriter)
  | closeNoFinalize => .ok (true, .new)
  | finalizeAndClose => do
    let (outcome, writer) ← writer.finalizeAndClose build
    .ok (outcome.isOk, writer)
  | createFile => written PerfDataFileWriter.createFile
  | writeEventData data => written (writer.onFile (OutputFile.writeAll data))
  | writeEventDataVectored bufs count =>
    written (writer.onFile (OutputFile.writeAll (bufs.flatten.take count)))
  | writeFinishedInit =>
    written (writer.onFile (OutputFile.writeAll
      (PerfDataFileWriter.finishedEvent build PerfEventHeaderType.finishedInit)))
  | writeFinishedRound =>
    written (writer.onFile (OutputFile.writeAll
      (PerfDataFileWriter.finishedEvent build PerfEventHeaderType.finishedRound)))
  | setHeader index data => tell writer (writer.inner.setHeader index data)
  | setStringHeader index data => tell writer (writer.inner.setStringHeader build index data)
  | setNrCpusHeader available online =>
    change writer (writer.inner.setNrCpusHeader build available online)
  | setSampleTimeHeader first last => change writer (writer.inner.setSampleTimeHeader build first last)
  | setClockidHeader clockid =>
    change writer { writer.inner with
      headers := PerfDataFileWriter.setClockidHeader build writer.inner.headers clockid.toNat }
  | setClockDataHeader clockid wallClockNs clockidTimeNs =>
    change writer { writer.inner with
      headers := PerfDataFileWriter.setClockDataHeader build writer.inner.headers clockid.toNat
        wallClockNs.toNat clockidTimeNs.toNat }
  | setSessionInfoHeaders session => do
    let headers ← PerfDataFileWriter.setSessionInfoHeaders build writer.inner.headers session
    change writer { writer.inner with headers := headers }
  | setUtsnameHeaders hostname osRelease arch =>
    tell writer (writer.inner.setUtsnameHeaders build hostname osRelease arch)
  | setTracingDataRequired longSize pageSize =>
    change writer (writer.inner.setTracingDataRequired longSize pageSize)
  | setTracingDataHeaderPage data => tell writer (writer.inner.setTracingDataHeaderPage data)
  | setTracingDataHeaderEvent data => tell writer (writer.inner.setTracingDataHeaderEvent data)
  | setTracingDataKallsyms data => tell writer (writer.inner.setTracingDataKallsyms data)
  | setTracingDataPrintk data => tell writer (writer.inner.setTracingDataPrintk data)
  | setTracingDataSavedCmdLine data => tell writer (writer.inner.setTracingDataSavedCmdLine data)
  | setTracingDataClearFtraces => change writer writer.inner.setTracingDataClearFtraces
  | setTracingDataAddFtrace ftrace => tell writer (writer.inner.setTracingDataAddFtrace ftrace)
  | addEventDesc ids attr name => tell writer (writer.inner.tryAddEventDesc ids attr name)
  | addTracepointEventDesc ids attr name format =>
    tell writer (writer.inner.addTracepointEventDesc ids attr name format)

/-- What a sequence of calls does, each behind the one before: whether all of them are successful, and
the writer they leave. -/
def runAll (build : Build) : List WriterCall → PerfDataFileWriter → Exec (Bool × PerfDataFileWriter)
  | [], writer => .ok (true, writer)
  | call :: calls, writer => do
    let (first, writer) ← run build writer call
    let (others, writer) ← runAll build calls writer
    .ok (first && others, writer)

end WriterCall

end Tracepoints
