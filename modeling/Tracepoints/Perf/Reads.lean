import Tracepoints.Perf.TimeOrder

/-!
# What one read does

`read_one_event` reads a record into a buffer and lets it change what is known from headers. Here
that is said once (`ReadEvent`), for every record, for events with data behind them and for the ways
it fails: the buffers grow, an event that is returned refers to the bytes that were taken from the
file, and the parsed part changes by at most one event (`StateEffect`).

A call of `move_next_event` makes one such read in file order and, in time order, those of a round
(`ReadsAt`).
-/

set_option autoImplicit false
set_option relaxedAutoImplicit false

namespace Tracepoints

open Exec

namespace InputFile

/-- The bytes that were taken from a file between two of its states. -/
def consumed (before after : InputFile) : List UInt8 :=
  (before.content.drop before.cursor).take (after.cursor - before.cursor)

/-- The file behind a read of `count` bytes. -/
def advance (file : InputFile) (count : ℕ) : InputFile :=
  { file with cursor := file.cursor + count, innerPos := file.innerPos + count }

/-- The bytes of a read. -/
def bytesAt (file : InputFile) (count : ℕ) : List UInt8 := (file.content.drop file.cursor).take count

/-- A read returns the bytes at the cursor, or ends at the end of the file. -/
theorem readExact_cases (count : ℕ) (file : InputFile) :
    (file.cursor + count ≤ file.content.length ∧
        readExact count file = .ok (.ok (file.bytesAt count), file.advance count)) ∨
      (file.content.length < file.cursor + count ∧
        readExact count file =
          .ok (.error .unexpectedEof, { file with cursor := file.content.length })) := by
  unfold readExact
  by_cases h : file.cursor + count ≤ file.content.length
  · exact .inl ⟨h, if_pos h⟩
  · exact .inr ⟨not_le.mp h, if_neg h⟩

theorem length_bytesAt {count : ℕ} {file : InputFile}
    (h : file.cursor + count ≤ file.content.length) : (file.bytesAt count).length = count := by
  rw [bytesAt, List.length_take, List.length_drop]
  omega

/-- Two reads take the bytes of one. -/
theorem bytesAt_append (file : InputFile) (first second : ℕ) :
    file.bytesAt first ++ (file.advance first).bytesAt second = file.bytesAt (first + second) := by
  unfold bytesAt advance
  rw [List.take_add, List.drop_drop]

theorem consumed_advance (file : InputFile) (count : ℕ) :
    consumed file (file.advance count) = file.bytesAt count := by
  unfold consumed advance bytesAt
  rw [Nat.add_sub_cancel_left]

theorem advance_advance (file : InputFile) (first second : ℕ) :
    (file.advance first).advance second = file.advance (first + second) := by
  simp only [advance, Nat.add_assoc]

end InputFile

namespace DataFileReader

variable {build : Build} {reader : DataFileReader}

/-! ### The record that is read -/

/-- The data of a record of the given size at the cursor of a file. -/
def recordData (file : InputFile) (size : ℕ) : List UInt8 :=
  (file.advance PerfEventHeader.byteSize).bytesAt (size - PerfEventHeader.byteSize)

/-- The data of a record in a buffer that it was read into. -/
theorem drop_append_bytesAt (old : List UInt8) (file : InputFile) (size : ℕ) :
    (old ++ file.bytesAt size).drop (old.length + PerfEventHeader.byteSize)
      = recordData file size := by
  unfold recordData
  rw [← List.drop_drop, List.drop_left]
  unfold InputFile.bytesAt InputFile.advance
  rw [List.drop_take, List.drop_drop]

/-- The tracing data behind an event whose record is at the cursor of a file: as many bytes as the
event says. -/
def tracingDataBehind (state : ReaderState) (file : InputFile) (header : PerfEventHeader) :
    List UInt8 :=
  (file.advance header.size).bytesAt
    (state.sessionInfo.byteReader.ofBytes ((recordData file header.size).take 4))

/-- What a read does to the parsed part: nothing, what the event at the cursor does, or what the
tracing data behind it does. -/
inductive StateEffect (build : Build) (state : ReaderState) (file : InputFile) : ReaderState → Prop
  | same : StateEffect build state file state
  | event {header : PerfEventHeader} {state' : ReaderState}
      (hrecord : nextRecord build state file = some header)
      (hevent : plainEvent build state header.ty (recordData file header.size) = .ok state') :
      StateEffect build state file state'
  | tracingData {header : PerfEventHeader} {state' : ReaderState}
      (hrecord : nextRecord build state file = some header)
      (hty : header.ty = PerfEventHeaderType.headerTracingData)
      (hevent : tracingDataEvent build state (tracingDataBehind state file header) = .ok state') :
      StateEffect build state file state'

/-- The record at the cursor goes beyond the end of the file, though not beyond the end of the event
data. -/
def TruncatedNext (build : Build) (state : ReaderState) (file : InputFile) : Prop :=
  ∃ header, nextRecord build state file = some header ∧
    file.content.length < file.cursor + header.size

/-- The record at the cursor fits behind the bytes of the current buffer, as far as positions of 32
bits reach. -/
def Addressable (build : Build) (reader : DataFileReader) : Prop :=
  ∀ bytes header, reader.buffers[reader.currentBuffer]? = some bytes →
    nextRecord build reader.toReaderState reader.file = some header →
    bytes.length + header.size < 2 ^ 32

/-- The buffers behind the current one are empty. -/
def SpareEmpty (reader : DataFileReader) : Prop :=
  ∀ (index : ℕ) (bytes : List UInt8), reader.currentBuffer < index →
    reader.buffers[index]? = some bytes → bytes = []

/-- What `read_one_event` does, given the event that was current before. -/
structure ReadEvent (build : Build) (reader : DataFileReader) (eventBytes : EventBytesRef)
    (read : ReadResult) : Prop where
  rest : read.reader = { reader with
    toReaderState := read.reader.toReaderState, file := read.reader.file
    buffers := read.reader.buffers, currentBuffer := read.reader.currentBuffer }
  content : read.reader.file.content = reader.file.content
  effect : StateEffect build reader.toReaderState reader.file read.reader.toReaderState
  grows : Grows reader.buffers read.reader.buffers
  current : read.reader.currentBuffer < read.reader.buffers.length
  spare : SpareEmpty reader → SpareEmpty read.reader
  stays : reader.buffers[reader.currentBuffer]? = some [] →
    read.reader.currentBuffer = reader.currentBuffer
  event : read.result = .ok true → SpareEmpty reader → Addressable build reader →
    read.reader.bytesOf read.eventBytes =
        .ok (InputFile.consumed reader.file read.reader.file) ∧
      PerfEventHeader.byteSize ≤ (InputFile.consumed reader.file read.reader.file).length
  other : read.result ≠ .ok true → read.eventBytes = .default ∨
    read.eventBytes = eventBytes ∧ TruncatedNext build reader.toReaderState reader.file

/-! ### Buffers -/

/-- The reader with other buffers. -/
def withBuffers (reader : DataFileReader) (buffers : List (List UInt8)) (current : ℕ) :
    DataFileReader :=
  { reader with buffers := buffers, currentBuffer := current }

/-- What `selectBuffer` chooses: the current buffer, or the next one. -/
theorem selectBuffer_cases {size : ℕ} {next : DataFileReader}
    (h : selectBuffer build reader size = .ok next) :
    (next = reader ∧ reader.currentBuffer < reader.buffers.length) ∨
      next = reader.withBuffers
          (if reader.buffers.length ≤ reader.currentBuffer + 1 then reader.buffers ++ [[]]
            else reader.buffers) (reader.currentBuffer + 1) ∧
        reader.currentBuffer < reader.buffers.length := by
  unfold selectBuffer buffer at h
  cases hbuffer : reader.buffers[reader.currentBuffer]? with
  | none =>
    rw [hbuffer] at h
    cases h
  | some bytes =>
    have hlt := (List.getElem?_eq_some_iff.mp hbuffer).1
    rw [hbuffer] at h
    dsimp only at h
    rw [ok_bind] at h
    obtain ⟨room, _, h⟩ := bind_eq_ok.1 h
    split_ifs at h with hfull hnew
    · obtain ⟨_, _, h⟩ := bind_eq_ok.1 h
      obtain ⟨_, _, h⟩ := bind_eq_ok.1 h
      exact .inr ⟨by rw [if_pos hnew]; exact (Except.ok.inj h).symm, hlt⟩
    · obtain ⟨_, _, h⟩ := bind_eq_ok.1 h
      obtain ⟨_, _, h⟩ := bind_eq_ok.1 h
      exact .inr ⟨by rw [if_neg hnew]; exact (Except.ok.inj h).symm, hlt⟩
    · exact .inl ⟨(Except.ok.inj h).symm, hlt⟩

/-- An event always fits into an empty buffer. -/
theorem selectBuffer_empty {size : ℕ} (hbuffer : reader.buffers[reader.currentBuffer]? = some [])
    (hsize : size ≤ normalEventMaxSize) : selectBuffer build reader size = .ok reader := by
  unfold selectBuffer buffer
  rw [hbuffer]
  dsimp only
  rw [ok_bind, List.length_nil, subUsize_of_le (Nat.zero_le _), ok_bind, Nat.sub_zero,
    if_neg (not_lt.mpr hsize)]

theorem nextRecord_size_lt {state : ReaderState} {file : InputFile} {header : PerfEventHeader}
    (h : nextRecord build state file = some header) : header.size < 2 ^ 16 := by
  unfold nextRecord at h
  dsimp only at h
  obtain ⟨hchecks, heq⟩ := Option.ite_none_right_eq_some.mp h
  obtain rfl := Option.some.inj heq
  refine eventHeader_size_lt build state ?_
  rw [List.length_take, List.length_drop]
  omega

/-- The buffer that was chosen for an event. -/
structure Selected (reader next : DataFileReader) (old : List UInt8) : Prop where
  rest : next = reader.withBuffers next.buffers next.currentBuffer
  old_eq : next.buffers[next.currentBuffer]? = some old
  grows : Grows reader.buffers next.buffers
  spare : SpareEmpty reader → SpareEmpty next
  length_le : SpareEmpty reader → ∀ bytes, reader.buffers[reader.currentBuffer]? = some bytes →
    old.length ≤ bytes.length

theorem selectBuffer_selected {size : ℕ} {next : DataFileReader}
    (h : selectBuffer build reader size = .ok next) : ∃ old, Selected reader next old := by
  rcases selectBuffer_cases h with ⟨rfl, hlt⟩ | ⟨rfl, hlt⟩
  · have hold := List.getElem?_eq_getElem hlt
    refine ⟨_, rfl, hold, .refl _, id, fun _ bytes hbytes ↦ ?_⟩
    rw [hold] at hbytes
    rw [Option.some.inj hbytes]
  · by_cases hnew : reader.buffers.length ≤ reader.currentBuffer + 1
    · have hlast : reader.currentBuffer + 1 = reader.buffers.length := by omega
      refine ⟨[], rfl, ?_, ?_, ?_, fun _ bytes _ ↦ Nat.zero_le _⟩
      · simp only [withBuffers, if_pos hnew]
        rw [List.getElem?_append_right hnew, hlast, Nat.sub_self]
        rfl
      · simp only [withBuffers, if_pos hnew]
        exact .concat _ _
      · intro _ index bytes hindex hget
        simp only [withBuffers, if_pos hnew] at hindex hget
        have hbound := (List.getElem?_eq_some_iff.mp hget).1
        rw [List.length_append, List.length_singleton] at hbound
        omega
    · have hold := List.getElem?_eq_getElem (not_le.mp hnew)
      refine ⟨reader.buffers[reader.currentBuffer + 1], rfl, ?_, ?_, ?_, fun hspare bytes _ ↦ ?_⟩
      · simp only [withBuffers, if_neg hnew]
        exact hold
      · simp only [withBuffers, if_neg hnew]
        exact .refl _
      · intro hspare index bytes hindex hget
        simp only [withBuffers, if_neg hnew] at hindex hget
        exact hspare index bytes (by omega) hget
      · rw [hspare _ _ (Nat.lt_succ_self _) hold]
        exact Nat.zero_le _

/-- The reader behind a read that took bytes from the file into the current buffer. -/
def taken (reader : DataFileReader) (count : ℕ) : DataFileReader :=
  { reader with
    file := reader.file.advance count
    buffers := reader.buffers.modify reader.currentBuffer (· ++ reader.file.bytesAt count) }

/-- The reader behind a read that ended at the end of the file. -/
def atEnd (reader : DataFileReader) : DataFileReader :=
  { reader with file := { reader.file with cursor := reader.file.content.length } }

theorem readAppend_cases (reader : DataFileReader) (count : ℕ) :
    (reader.file.cursor + count ≤ reader.file.content.length ∧
        readAppend reader count = .ok (.ok (), reader.taken count)) ∨
      (reader.file.content.length < reader.file.cursor + count ∧
        readAppend reader count = .ok (.error .unexpectedEof, reader.atEnd)) := by
  rcases InputFile.readExact_cases count reader.file with ⟨hle, heq⟩ | ⟨hlt, heq⟩
  · refine .inl ⟨hle, ?_⟩
    unfold readAppend
    rw [heq]
    rfl
  · refine .inr ⟨hlt, ?_⟩
    unfold readAppend
    rw [heq]
    rfl

/-- Bytes are appended to the current buffer. -/
theorem getElem?_modify_current {buffers : List (List UInt8)} {current : ℕ} {old bytes : List UInt8}
    (hold : buffers[current]? = some old) :
    (buffers.modify current (· ++ bytes))[current]? = some (old ++ bytes) := by
  rw [List.getElem?_modify, hold]
  simp

theorem spareEmpty_modify {current : ℕ} {buffers : List (List UInt8)} {bytes : List UInt8}
    (h : ∀ (index : ℕ) (old : List UInt8), current < index → buffers[index]? = some old → old = [])
    (index : ℕ) (old : List UInt8) (hindex : current < index)
    (hget : (buffers.modify current (· ++ bytes))[index]? = some old) : old = [] := by
  rw [List.getElem?_modify_ne _ _ hindex.ne] at hget
  exact h index old hindex hget

theorem taken_zero (reader : DataFileReader) : reader.taken 0 = reader := by
  have hbuffers : reader.buffers.modify reader.currentBuffer
      (fun bytes ↦ bytes ++ reader.file.bytesAt 0) = reader.buffers := by
    apply List.ext_getElem?
    intro index
    rw [List.getElem?_modify]
    cases reader.buffers[index]? with
    | none => rfl
    | some bytes =>
      have hnone : reader.file.bytesAt 0 = [] := List.take_zero
      simp [hnone]
  unfold taken
  rw [hbuffers]
  rfl

/-- Two reads into the current buffer take the bytes of one. -/
theorem taken_taken (reader : DataFileReader) (first second : ℕ) :
    (reader.taken first).taken second = reader.taken (first + second) := by
  unfold taken
  dsimp only
  have hbuffers : (reader.buffers.modify reader.currentBuffer
        (fun bytes ↦ bytes ++ reader.file.bytesAt first)).modify reader.currentBuffer
          (fun bytes ↦ bytes ++ (reader.file.advance first).bytesAt second) =
      reader.buffers.modify reader.currentBuffer
        (fun bytes ↦ bytes ++ reader.file.bytesAt (first + second)) := by
    apply List.ext_getElem?
    intro index
    rw [List.getElem?_modify, List.getElem?_modify, List.getElem?_modify,
      ← InputFile.bytesAt_append]
    cases reader.buffers[index]? with
    | none => rfl
    | some bytes =>
      by_cases hindex : reader.currentBuffer = index
      · simp [hindex]
      · simp [hindex]
  rw [hbuffers, InputFile.advance_advance]

/-- The bytes of a read, behind those that were in the buffer. -/
theorem bytesOf_taken {old : List UInt8} {total : ℕ}
    (hold : reader.buffers[reader.currentBuffer]? = some old)
    (htotal : reader.file.cursor + total ≤ reader.file.content.length)
    (hsmall : old.length + total < 2 ^ 32) :
    (reader.taken total).bytesOf
        ⟨reader.currentBuffer, old.length % 2 ^ 32, (old.length + total) % 2 ^ 32⟩ =
      .ok (reader.file.bytesAt total) := by
  have hlength := InputFile.length_bytesAt htotal
  have hbuffer : (reader.taken total).buffer reader.currentBuffer =
      .ok (old ++ reader.file.bytesAt total) := by
    unfold buffer taken
    dsimp only
    rw [getElem?_modify_current hold]
  unfold bytesOf
  dsimp only
  rw [hbuffer, ok_bind, Nat.mod_eq_of_lt (by omega), Nat.mod_eq_of_lt hsmall,
    slice_of_le (by omega) (by rw [List.length_append]; omega), Nat.add_sub_cancel_left,
    List.drop_left, List.take_of_length_le hlength.le]

/-! ### The parts of a read -/

theorem readPostEventData_cases {dataSize : ℕ} {bytes : List UInt8}
    (hbytes : reader.buffers[reader.currentBuffer]? = some bytes)
    {result : Except IoError Unit × DataFileReader}
    (h : readPostEventData reader dataSize = .ok result) :
    (reader.file.cursor + dataSize ≤ reader.file.content.length ∧
        bytes.length + dataSize < 2 ^ 31 ∧ result = (.ok (), reader.taken dataSize)) ∨
      ∃ error, result = (.error error, reader) ∨ result = (.error error, reader.atEnd) := by
  unfold readPostEventData buffer at h
  rw [hbytes] at h
  obtain ⟨left, _, h⟩ := bind_eq_ok.1 h
  dsimp only at h
  rw [ok_bind] at h
  split_ifs at h with hrejected hlong
  · exact .inr ⟨_, .inl (Except.ok.inj h).symm⟩
  · exact .inr ⟨_, .inl (Except.ok.inj h).symm⟩
  · rcases readAppend_cases reader dataSize with ⟨hle, heq⟩ | ⟨_, heq⟩
    · rw [heq] at h
      exact .inl ⟨hle, by omega, (Except.ok.inj h).symm⟩
    · rw [heq] at h
      exact .inr ⟨_, .inr (Except.ok.inj h).symm⟩

/-- Assumes: a reader whose current buffer holds an event without the data behind it. The special
cases take that data into the buffer and change the parsed part, or fail. -/
theorem processEvent_cases {header : PerfEventHeader} {headerPos : ℕ} {bytes : List UInt8}
    (hbytes : reader.buffers[reader.currentBuffer]? = some bytes)
    (hlength : bytes.length = headerPos + header.size)
    (hcursor : reader.file.cursor ≤ reader.file.content.length)
    {result : Except IoError Unit × DataFileReader}
    (h : processEvent build reader header headerPos = .ok result) :
    (∃ post state, reader.file.cursor + post ≤ reader.file.content.length ∧
        (post ≠ 0 → bytes.length + post < 2 ^ 31) ∧
        (state = reader.toReaderState ∨
          (header.ty = PerfEventHeaderType.headerTracingData ∧
            tracingDataEvent build reader.toReaderState
              (reader.file.bytesAt (reader.sessionInfo.byteReader.ofBytes
                ((bytes.drop (headerPos + PerfEventHeader.byteSize)).take 4))) = .ok state) ∨
          plainEvent build reader.toReaderState header.ty
            (bytes.drop (headerPos + PerfEventHeader.byteSize)) = .ok state) ∧
        result = (.ok (), { reader.taken post with toReaderState := state })) ∨
      ∃ error, result = (.error error, reader) ∨ result = (.error error, reader.atEnd) := by
  unfold processEvent buffer at h
  rw [hbytes] at h
  dsimp only at h
  rw [ok_bind] at h
  split_ifs at h with htracing hshort haux hshort'
  · exact .inr ⟨_, .inl (Except.ok.inj h).symm⟩
  · obtain ⟨dataSize, hdataSize, h⟩ := bind_eq_ok.1 h
    obtain ⟨post, hpost, h⟩ := bind_eq_ok.1 h
    rcases readPostEventData_cases hbytes hpost with ⟨hle, hsmall, rfl⟩ | ⟨error, rfl | rfl⟩
    · dsimp only at h
      obtain ⟨after, hafter, h⟩ := bind_eq_ok.1 h
      obtain ⟨state, hstate, h⟩ := bind_eq_ok.1 h
      have hdata : 0 + 4 ≤ (bytes.drop (headerPos + PerfEventHeader.byteSize)).length := by
        rw [List.length_drop]
        omega
      rw [readUInt_of_le hdata, List.drop_zero] at hdataSize
      -- the data is all that is behind the record in the buffer
      have hbehind : after.drop (headerPos + header.size) = reader.file.bytesAt dataSize := by
        unfold taken at hafter
        dsimp only at hafter
        rw [getElem?_modify_current hbytes] at hafter
        rw [← Except.ok.inj hafter, ← hlength, List.drop_left]
      rw [hbehind, ← Except.ok.inj hdataSize] at hstate
      exact .inl ⟨dataSize, state, hle, fun _ ↦ hsmall, .inr (.inl ⟨htracing, hstate⟩),
        (Except.ok.inj h).symm⟩
    · exact .inr ⟨error, .inl (Except.ok.inj h).symm⟩
    · exact .inr ⟨error, .inr (Except.ok.inj h).symm⟩
  · exact .inr ⟨_, .inl (Except.ok.inj h).symm⟩
  · obtain ⟨dataSize, _, h⟩ := bind_eq_ok.1 h
    rcases readPostEventData_cases hbytes h with ⟨hle, hsmall, rfl⟩ | hfailed
    · exact .inl ⟨dataSize, _, hle, fun _ ↦ hsmall, .inl rfl, rfl⟩
    · exact .inr hfailed
  · obtain ⟨state, hstate, h⟩ := bind_eq_ok.1 h
    refine .inl ⟨0, state, hcursor, fun hne ↦ absurd rfl hne, .inr (.inr hstate), ?_⟩
    rw [taken_zero]
    exact (Except.ok.inj h).symm

/-! ### The whole read -/

/-- A read that changes nothing but the cursor and returns no event. -/
theorem readEvent_none (result : Except IoError Bool) (file : InputFile)
    (eventBytes : EventBytesRef) (hcurrent : reader.currentBuffer < reader.buffers.length)
    (hcontent : file.content = reader.file.content) (hresult : result ≠ .ok true) :
    ReadEvent build reader eventBytes ⟨result, .default, { reader with file := file }⟩ where
  rest := rfl
  content := hcontent
  effect := .same
  grows := .refl _
  current := hcurrent
  spare := id
  stays _ := rfl
  event heq := absurd heq hresult
  other _ := .inl rfl

/-- The buffers behind a read of a part of an event. -/
theorem Selected.taken {next : DataFileReader} {old : List UInt8} (h : Selected reader next old)
    (count : ℕ) :
    Grows reader.buffers (next.taken count).buffers ∧
      next.currentBuffer < (next.taken count).buffers.length ∧
      (SpareEmpty reader → SpareEmpty (next.taken count)) := by
  refine ⟨h.grows.trans (.modify _ _ _), ?_, fun hspare ↦ ?_⟩
  · rw [DataFileReader.taken, List.length_modify]
    exact (List.getElem?_eq_some_iff.mp h.old_eq).1
  · exact spareEmpty_modify (h.spare hspare)

/-- The choice of the buffer does not depend on the file. -/
theorem selectBuffer_withFile {size : ℕ} {file : InputFile} {next : DataFileReader}
    (h : selectBuffer build { reader with file := file } size = .ok next) :
    ∃ base, selectBuffer build reader size = .ok base ∧ next = { base with file := file } := by
  unfold selectBuffer buffer at h ⊢
  dsimp only at h ⊢
  obtain ⟨bytes, hbytes, h⟩ := bind_eq_ok.1 h
  obtain ⟨room, hroom, h⟩ := bind_eq_ok.1 h
  rw [hbytes, ok_bind, hroom, ok_bind]
  by_cases hfull : room < size
  · rw [if_pos hfull] at h ⊢
    obtain ⟨_, horder, h⟩ := bind_eq_ok.1 h
    obtain ⟨_, hempty, h⟩ := bind_eq_ok.1 h
    rw [horder, ok_bind, hempty, ok_bind]
    exact ⟨_, rfl, (Except.ok.inj h).symm⟩
  · rw [if_neg hfull] at h ⊢
    exact ⟨_, rfl, (Except.ok.inj h).symm⟩

/-- The header of a record at the cursor is in the file, and is part of the record. -/
theorem nextRecord_bounds {state : ReaderState} {file : InputFile} {header : PerfEventHeader}
    (h : nextRecord build state file = some header) :
    file.cursor + PerfEventHeader.byteSize ≤ file.content.length ∧
      PerfEventHeader.byteSize ≤ header.size := by
  unfold nextRecord at h
  dsimp only at h
  obtain ⟨hchecks, heq⟩ := Option.ite_none_right_eq_some.mp h
  obtain rfl := Option.some.inj heq
  exact ⟨hchecks.2.1, hchecks.2.2.1⟩

/-- The parts of a read: a buffer is chosen, and the record is taken into it as far as the file goes.
Assumes: a record at the cursor, whose header was read. -/
theorem readEventData_cases {eventBytes : EventBytesRef} {header : PerfEventHeader}
    {read : ReadResult} (hrecord : nextRecord build reader.toReaderState reader.file = some header)
    (hread : readEventData build
      { reader with file := reader.file.advance PerfEventHeader.byteSize } eventBytes
        (reader.file.bytesAt PerfEventHeader.byteSize) header = .ok read) :
    ∃ base old, selectBuffer build reader header.size = .ok base ∧ Selected reader base old ∧
      ((reader.file.cursor + header.size ≤ reader.file.content.length ∧
          ∃ processed, processEvent build (base.taken header.size) header old.length = .ok processed ∧
            read.reader = processed.2 ∧
            ((∃ error, processed.1 = .error error ∧ read.result = .error error ∧
                read.eventBytes = .default) ∨
              processed.1 = .ok () ∧ read.result = .ok true ∧ ∃ bytes,
                processed.2.buffer processed.2.currentBuffer = .ok bytes ∧
                read.eventBytes = ⟨processed.2.currentBuffer, old.length % 2 ^ 32,
                  bytes.length % 2 ^ 32⟩)) ∨
        reader.file.content.length < reader.file.cursor + header.size ∧
          read = ⟨.error .unexpectedEof, eventBytes,
            (base.taken PerfEventHeader.byteSize).atEnd⟩) := by
  have hsize := (nextRecord_bounds hrecord).2
  unfold readEventData at hread
  obtain ⟨next, hselect, hread⟩ := bind_eq_ok.1 hread
  obtain ⟨base, hbase, rfl⟩ := selectBuffer_withFile hselect
  obtain ⟨old, hselected⟩ := selectBuffer_selected hbase
  have hfile : base.file = reader.file := by
    rw [hselected.rest]
    rfl
  have hbuffer : base.buffer base.currentBuffer = .ok old := by
    unfold buffer
    rw [hselected.old_eq]
  have hnext : append { base with file := reader.file.advance PerfEventHeader.byteSize }
      (reader.file.bytesAt PerfEventHeader.byteSize) = base.taken PerfEventHeader.byteSize := by
    unfold append taken
    rw [hfile]
  have htaken : (base.taken PerfEventHeader.byteSize).taken
      (header.size - PerfEventHeader.byteSize) = base.taken header.size := by
    rw [taken_taken, Nat.add_sub_cancel' hsize]
  have hcursor : (base.taken PerfEventHeader.byteSize).file.cursor
      = reader.file.cursor + PerfEventHeader.byteSize := by
    rw [← hfile]
    rfl
  have hcontent : (base.taken PerfEventHeader.byteSize).file.content = reader.file.content := by
    rw [← hfile]
    rfl
  rw [show buffer { base with file := reader.file.advance PerfEventHeader.byteSize }
    base.currentBuffer = .ok old from hbuffer, ok_bind, hnext] at hread
  obtain ⟨data, hdata, hread⟩ := bind_eq_ok.1 hread
  refine ⟨base, old, hbase, hselected, ?_⟩
  rcases readAppend_cases (base.taken PerfEventHeader.byteSize)
      (header.size - PerfEventHeader.byteSize) with ⟨hle, heq⟩ | ⟨hlt, heq⟩
  · rw [heq, htaken] at hdata
    obtain rfl : (.ok (), base.taken header.size) = data := Except.ok.inj hdata
    rw [hcursor, hcontent] at hle
    refine .inl ⟨by omega, ?_⟩
    dsimp only at hread
    obtain ⟨processed, hprocessed, hread⟩ := bind_eq_ok.1 hread
    refine ⟨processed, hprocessed, ?_⟩
    obtain ⟨outcome, after⟩ := processed
    cases outcome with
    | error error =>
      obtain rfl := Except.ok.inj hread
      exact ⟨rfl, .inl ⟨error, rfl, rfl, rfl⟩⟩
    | ok _ =>
      dsimp only at hread
      obtain ⟨_, _, hread⟩ := bind_eq_ok.1 hread
      obtain ⟨bytes, hbytes, hread⟩ := bind_eq_ok.1 hread
      obtain rfl := Except.ok.inj hread
      exact ⟨rfl, .inr ⟨rfl, rfl, bytes, hbytes, rfl⟩⟩
  · rw [heq] at hdata
    obtain rfl := Except.ok.inj hdata
    obtain rfl := Except.ok.inj hread
    rw [hcursor, hcontent] at hlt
    exact .inr ⟨by omega, rfl⟩

/-- Assumes: a record at the cursor that is not beyond the end of the event data, whose header was
read. -/
theorem readEventData_readEvent {eventBytes : EventBytesRef} {header : PerfEventHeader}
    {read : ReadResult} (hrecord : nextRecord build reader.toReaderState reader.file = some header)
    (hread : readEventData build
      { reader with file := reader.file.advance PerfEventHeader.byteSize } eventBytes
        (reader.file.bytesAt PerfEventHeader.byteSize) header = .ok read) :
    ReadEvent build reader eventBytes read := by
  have hbyteSize : PerfEventHeader.byteSize = 8 := rfl
  have hsize := (nextRecord_bounds hrecord).2
  obtain ⟨next, old, hselect, hselected, hcases⟩ := readEventData_cases hrecord hread
  have hstays : reader.buffers[reader.currentBuffer]? = some [] →
      next.currentBuffer = reader.currentBuffer := by
    intro hempty
    rw [selectBuffer_empty hempty (nextRecord_size_lt hrecord).le] at hselect
    rw [← Except.ok.inj hselect]
  -- the chosen buffer is all that is new
  set base : DataFileReader := reader.withBuffers next.buffers next.currentBuffer with hbase
  have hnext : next = base := hselected.rest
  rw [hnext] at hselected hcases
  have hold : base.buffers[base.currentBuffer]? = some old := hselected.old_eq
  rcases hcases with ⟨hcursor, processed, hprocessed, hreader, hresult⟩ | ⟨hlt, rfl⟩
  · have hbytes : (base.taken header.size).buffers[(base.taken header.size).currentBuffer]? =
        some (old ++ reader.file.bytesAt header.size) := getElem?_modify_current hold
    have hlength : (reader.file.bytesAt header.size).length = header.size :=
      InputFile.length_bytesAt hcursor
    obtain ⟨result, ref, after⟩ := read
    obtain rfl : after = processed.2 := hreader
    have hrecordLength : (old ++ reader.file.bytesAt header.size).length =
        old.length + header.size := by
      rw [List.length_append, hlength]
    rcases processEvent_cases hbytes hrecordLength hcursor hprocessed with
      ⟨post, state, hpost, hsmall, heffect, rfl⟩ | ⟨error, rfl | rfl⟩
    · rcases hresult with ⟨error, hfailed, _⟩ | ⟨_, rfl, bytes, hget, rfl⟩
      · cases hfailed
      dsimp only at hget ⊢
      rw [taken_taken] at hget ⊢
      have htotal : (base.taken (header.size + post)).buffers[base.currentBuffer]? =
          some (old ++ reader.file.bytesAt (header.size + post)) := getElem?_modify_current hold
      have hend : reader.file.cursor + (header.size + post) ≤ reader.file.content.length := by
        have hpost' : reader.file.cursor + header.size + post ≤ reader.file.content.length := hpost
        omega
      have htotalLength : (old ++ reader.file.bytesAt (header.size + post)).length =
          old.length + (header.size + post) := by
        rw [List.length_append, InputFile.length_bytesAt hend]
      have hfinal : bytes = old ++ reader.file.bytesAt (header.size + post) := by
        unfold buffer at hget
        dsimp only at hget
        rw [show (base.taken (header.size + post)).currentBuffer = base.currentBuffer from rfl,
          htotal] at hget
        exact (Except.ok.inj hget).symm
      obtain ⟨hgrows, hcurrent, hspare⟩ := hselected.taken (header.size + post)
      refine ⟨rfl, rfl, ?_, hgrows, hcurrent, hspare, hstays, fun _ hempty haddressable ↦ ?_,
        fun hne ↦ absurd rfl hne⟩
      · rcases heffect with rfl | ⟨hty, hstate⟩ | hstate
        · exact .same
        · refine .tracingData hrecord hty ?_
          unfold tracingDataBehind
          rw [← drop_append_bytesAt old reader.file header.size]
          exact hstate
        · refine .event hrecord ?_
          rw [← drop_append_bytesAt old reader.file header.size]
          exact hstate
      · have hbound : old.length + (header.size + post) < 2 ^ 32 := by
          obtain ⟨bytes', hbytes'⟩ : ∃ bytes', reader.buffers[reader.currentBuffer]? =
              some bytes' := by
            rcases selectBuffer_cases hselect with ⟨_, hlt⟩ | ⟨_, hlt⟩
            · exact ⟨_, List.getElem?_eq_getElem hlt⟩
            · exact ⟨_, List.getElem?_eq_getElem hlt⟩
          have hold_le := hselected.length_le hempty bytes' hbytes'
          have hfits := haddressable bytes' header hbytes' hrecord
          by_cases hpost0 : post = 0
          · omega
          · have hsmall' := hsmall hpost0
            rw [List.length_append, hlength] at hsmall'
            omega
        have hconsumed : InputFile.consumed reader.file (base.taken (header.size + post)).file =
            reader.file.bytesAt (header.size + post) :=
          InputFile.consumed_advance reader.file (header.size + post)
        constructor
        · dsimp only
          rw [hfinal, htotalLength, hconsumed]
          exact @bytesOf_taken base old (header.size + post) hold hend hbound
        · dsimp only
          rw [hconsumed, InputFile.length_bytesAt hend]
          omega
    · rcases hresult with ⟨_, _, rfl, rfl⟩ | ⟨hok, _⟩
      · obtain ⟨hgrows, hcurrent, hspare⟩ := hselected.taken header.size
        exact ⟨rfl, rfl, .same, hgrows, hcurrent, hspare, hstays, nofun, fun _ ↦ .inl rfl⟩
      · cases hok
    · rcases hresult with ⟨_, _, rfl, rfl⟩ | ⟨hok, _⟩
      · obtain ⟨hgrows, hcurrent, hspare⟩ := hselected.taken header.size
        exact ⟨rfl, rfl, .same, hgrows, hcurrent, hspare, hstays, nofun, fun _ ↦ .inl rfl⟩
      · cases hok
  · obtain ⟨hgrows, hcurrent, hspare⟩ := hselected.taken PerfEventHeader.byteSize
    exact ⟨rfl, rfl, .same, hgrows, hcurrent, hspare, hstays, nofun,
      fun _ ↦ .inr ⟨rfl, header, hrecord, hlt⟩⟩

/-- Where `read_one_event` returns, it has changed nothing but the cursor, or it has read the record
at the cursor. -/
theorem readOneEvent_cases {eventBytes : EventBytesRef} {read : ReadResult}
    (h : readOneEvent build reader eventBytes = .ok read) :
    reader.currentBuffer < reader.buffers.length ∧
      ((∃ result file, file.content = reader.file.content ∧ result ≠ .ok true ∧
          read = ⟨result, .default, { reader with file := file }⟩) ∨
        ∃ header, nextRecord build reader.toReaderState reader.file = some header ∧
          readEventData build { reader with file := reader.file.advance PerfEventHeader.byteSize }
            eventBytes (reader.file.bytesAt PerfEventHeader.byteSize) header = .ok read) := by
  unfold readOneEvent at h
  obtain ⟨bytes, hbytes, h⟩ := bind_eq_ok.1 h
  have hcurrent : reader.currentBuffer < reader.buffers.length := by
    unfold buffer at hbytes
    cases hget : reader.buffers[reader.currentBuffer]? with
    | none =>
      rw [hget] at hbytes
      cases hbytes
    | some _ => exact (List.getElem?_eq_some_iff.mp hget).1
  obtain ⟨_, _, h⟩ := bind_eq_ok.1 h
  dsimp only at h
  refine ⟨hcurrent, ?_⟩
  split_ifs at h with hdone hshort
  · obtain rfl := Except.ok.inj h
    exact .inl ⟨.ok false, reader.file, rfl, nofun, rfl⟩
  · obtain rfl := Except.ok.inj h
    exact .inl ⟨.error .invalidData, reader.file, rfl, nofun, rfl⟩
  obtain ⟨⟨outcome, file⟩, hfile, h⟩ := bind_eq_ok.1 h
  rcases InputFile.readExact_cases PerfEventHeader.byteSize reader.file with
    ⟨hheader, heq⟩ | ⟨_, heq⟩
  · rw [heq] at hfile
    obtain ⟨rfl, rfl⟩ := Prod.mk.inj (Except.ok.inj hfile)
    have hcontent : (reader.file.advance PerfEventHeader.byteSize).content =
        reader.file.content := rfl
    dsimp only at h
    split_ifs at h with hsize
    · obtain rfl := Except.ok.inj h
      exact .inl ⟨.error .invalidData, _, hcontent, nofun, rfl⟩
    obtain ⟨left, hleft, h⟩ := bind_eq_ok.1 h
    have hbyteSize : PerfEventHeader.byteSize = 8 := rfl
    have hpos : reader.file.innerPos + PerfEventHeader.byteSize ≤ reader.dataEndFilePos := by omega
    rw [show (reader.file.advance PerfEventHeader.byteSize).innerPos =
      reader.file.innerPos + PerfEventHeader.byteSize from rfl, sub_of_le hpos] at hleft
    obtain rfl := Except.ok.inj hleft
    split_ifs at h with hlong
    · obtain rfl := Except.ok.inj h
      exact .inl ⟨.error .invalidData, _, hcontent, nofun, rfl⟩
    refine .inr ⟨_, ?_, h⟩
    unfold nextRecord
    exact if_pos ⟨hpos, hheader, not_lt.mp hsize, by
      show reader.file.innerPos + (eventHeader build reader.toReaderState
        (reader.file.bytesAt PerfEventHeader.byteSize)).size ≤ reader.dataEndFilePos
      omega⟩
  · rw [heq] at hfile
    obtain ⟨rfl, rfl⟩ := Prod.mk.inj (Except.ok.inj hfile)
    dsimp only at h
    obtain rfl := Except.ok.inj h
    refine .inl ⟨_, { reader.file with cursor := reader.file.content.length }, rfl, ?_, rfl⟩
    split_ifs
    · exact nofun
    · exact nofun

/-- What `read_one_event` does where it returns. -/
theorem readOneEvent_readEvent {eventBytes : EventBytesRef} {read : ReadResult}
    (h : readOneEvent build reader eventBytes = .ok read) :
    ReadEvent build reader eventBytes read := by
  obtain ⟨hcurrent, ⟨result, file, hcontent, hresult, rfl⟩ | ⟨header, hrecord, hread⟩⟩ :=
    readOneEvent_cases h
  · exact readEvent_none result file eventBytes hcurrent hcontent hresult
  · exact readEventData_readEvent hrecord hread

/-- The parsed part that one read leaves. -/
def ReadLeaves (build : Build) (reader : DataFileReader) (state : ReaderState) : Prop :=
  ∃ eventBytes read, readOneEvent build reader eventBytes = .ok read ∧
    read.reader.toReaderState = state

theorem ReadLeaves.effect {state : ReaderState} (h : ReadLeaves build reader state) :
    StateEffect build reader.toReaderState reader.file state := by
  obtain ⟨eventBytes, read, hread, rfl⟩ := h
  exact (readOneEvent_readEvent hread).effect

/-! ### The reads of a call -/

/-- One iteration of the loop that fills the queue: whether it goes on, and the reader. -/
def fillStep (build : Build) (reader : DataFileReader) : Exec (Bool × DataFileReader) := do
  let read ← readOneEvent build reader .default
  match read.result with
  | .ok true => do
    let reader := read.reader
    let bytes ← reader.bytesOf read.eventBytes
    let time ← eventTime reader.toReaderState bytes
    let closes ← closesRound reader.toReaderState bytes
    let sequence := reader.eventQueue.length % 2 ^ 32
    let entry : QueueEntry := ⟨if closes then 2 ^ 64 - 1 else time, sequence, read.eventBytes⟩
    .ok (!closes, { reader with eventQueue := reader.eventQueue ++ [entry] })
  | result => .ok (false, { read.reader with eventQueuePendingResult := some result })

theorem fillQueue_succ (build : Build) (fuel : ℕ) (reader : DataFileReader) :
    fillQueue build (fuel + 1) reader = (do
      let step ← fillStep build reader
      if step.1 then fillQueue build fuel step.2 else .ok step.2) := by
  rw [fillQueue, fillStep]
  cases readOneEvent build reader .default with
  | error fault => rfl
  | ok read =>
    simp only [ok_bind]
    rcases hresult : read.result with error | _ | _
    · rfl
    · rfl
    · dsimp only
      cases read.reader.bytesOf read.eventBytes with
      | error fault => rfl
      | ok bytes =>
        simp only [ok_bind]
        cases eventTime read.reader.toReaderState bytes with
        | error fault => rfl
        | ok time =>
          simp only [ok_bind]
          cases closesRound read.reader.toReaderState bytes with
          | error fault => rfl
          | ok closes => cases closes <;> rfl

/-- The readers at which the loop that fills the queue reads an event. -/
inductive FillReads (build : Build) : DataFileReader → DataFileReader → Prop
  | first (reader : DataFileReader) : FillReads build reader reader
  | later {reader next last : DataFileReader} (hstep : fillStep build reader = .ok (true, next))
      (hrest : FillReads build next last) : FillReads build reader last

/-- The reader that file order reads with: its first buffer is cleared. -/
def cleared (reader : DataFileReader) : DataFileReader :=
  { reader with buffers := reader.buffers.modify 0 fun _ ↦ [] }

/-- The reader that time order fills its queue with: the queue is cleared. -/
def drained (reader : DataFileReader) : DataFileReader :=
  { reader with eventQueue := [], eventQueueConsumed := 0 }

/-- The readers at which a call of `move_next_event` reads an event. -/
def ReadsAt (build : Build) (reader last : DataFileReader) : Prop :=
  match reader.eventOrder with
  | .file => last = reader.cleared
  | .time => reader.takeQueued = none ∧ FillReads build reader.drained last

/-- What an iteration does: it keeps an event in the queue, or the result that ends the round. -/
theorem fillStep_cases {step : Bool × DataFileReader} (h : fillStep build reader = .ok step) :
    ∃ read, readOneEvent build reader .default = .ok read ∧
      ((∃ time sequence, read.result = .ok true ∧
          step.2 = { read.reader with
            eventQueue := reader.eventQueue ++ [⟨time, sequence, read.eventBytes⟩] }) ∨
        read.result ≠ .ok true ∧ step.1 = false ∧
          step.2 = { read.reader with eventQueuePendingResult := some read.result }) := by
  unfold fillStep at h
  obtain ⟨read, hread, h⟩ := bind_eq_ok.1 h
  have hqueue : read.reader.eventQueue = reader.eventQueue := by
    rw [(readOneEvent_readEvent hread).rest]
  refine ⟨read, hread, ?_⟩
  match hresult : read.result with
  | .ok true =>
    rw [hresult] at h
    dsimp only at h
    obtain ⟨bytes, _, h⟩ := bind_eq_ok.1 h
    obtain ⟨time, _, h⟩ := bind_eq_ok.1 h
    obtain ⟨closes, _, h⟩ := bind_eq_ok.1 h
    obtain rfl := Except.ok.inj h
    exact .inl ⟨_, _, rfl, by rw [hqueue]⟩
  | .ok false =>
    rw [hresult] at h
    obtain rfl := Except.ok.inj h
    exact .inr ⟨nofun, rfl, rfl⟩
  | .error error =>
    rw [hresult] at h
    obtain rfl := Except.ok.inj h
    exact .inr ⟨nofun, rfl, rfl⟩

theorem fillStep_leaves {step : Bool × DataFileReader} (h : fillStep build reader = .ok step) :
    ReadLeaves build reader step.2.toReaderState := by
  obtain ⟨read, hread, ⟨_, _, _, heq⟩ | ⟨_, _, heq⟩⟩ := fillStep_cases h
  · rw [heq]
    exact ⟨_, read, hread, rfl⟩
  · rw [heq]
    exact ⟨_, read, hread, rfl⟩

/-- What holds of the parsed part and is kept by each read of the loop holds behind the loop. -/
theorem fillQueue_state {Inv : ReaderState → Prop} (fuel : ℕ) {last : DataFileReader}
    (hkept : ∀ r state, FillReads build reader r → ReadLeaves build r state →
      Inv r.toReaderState → Inv state)
    (h : fillQueue build fuel reader = .ok last) (hinv : Inv reader.toReaderState) :
    Inv last.toReaderState := by
  induction fuel generalizing reader with
  | zero => cases h
  | succ fuel ih =>
    rw [fillQueue_succ] at h
    obtain ⟨⟨goesOn, next⟩, hstep, h⟩ := bind_eq_ok.1 h
    have hnext : Inv next.toReaderState := hkept reader _ (.first reader) (fillStep_leaves hstep) hinv
    cases goesOn with
    | false =>
      obtain rfl := Except.ok.inj h
      exact hnext
    | true => exact ih (fun r state hreads ↦ hkept r state (.later hstep hreads)) h hnext

/-- What a queue that is not empty, or a pending result, gives without a read. -/
theorem takeQueued_state {read : ReadResult} (h : reader.takeQueued = some read) :
    read.reader.toReaderState = reader.toReaderState := by
  unfold takeQueued at h
  split at h
  · obtain rfl := Option.some.inj h
    rfl
  · split at h
    · obtain rfl := Option.some.inj h
      rfl
    · cases h

theorem readEventTimeOrder_cases {read : ReadResult}
    (h : readEventTimeOrder build reader = .ok read) :
    reader.takeQueued = some read ∨
      ∃ filled, reader.takeQueued = none ∧
        fillQueue build (reader.file.content.length + 1) reader.drained = .ok filled ∧
        { filled with eventQueue := filled.eventQueue.mergeSort entryLe }.takeQueued =
          some read := by
  unfold readEventTimeOrder at h
  cases htake : reader.takeQueued with
  | some result =>
    rw [htake] at h
    obtain rfl := Except.ok.inj h
    exact .inl rfl
  | none =>
    rw [htake] at h
    unfold nextRound at h
    dsimp only at h
    obtain ⟨sorted, hround, h⟩ := bind_eq_ok.1 h
    obtain ⟨filled, hfilled, hsorted⟩ := bind_eq_ok.1 hround
    obtain rfl := Except.ok.inj hsorted
    refine .inr ⟨filled, rfl, hfilled, ?_⟩
    cases htake' : takeQueued { filled with
        eventQueue := filled.eventQueue.mergeSort entryLe } with
    | some result =>
      rw [htake'] at h
      exact congrArg some (Except.ok.inj h)
    | none =>
      rw [htake'] at h
      cases h

/-- What holds of the parsed part and is kept by each read of a call holds behind the call. -/
theorem moveNextEvent_state {Inv : ReaderState → Prop} {current : EventBytesRef} {read : ReadResult}
    (hkept : ∀ r state, ReadsAt build reader r → ReadLeaves build r state →
      Inv r.toReaderState → Inv state)
    (h : moveNextEvent build reader current = .ok read) (hinv : Inv reader.toReaderState) :
    Inv read.reader.toReaderState := by
  unfold moveNextEvent at h
  unfold ReadsAt at hkept
  cases horder : reader.eventOrder with
  | file =>
    rw [horder] at h hkept
    unfold readEventFileOrder at h
    obtain ⟨_, _, h⟩ := bind_eq_ok.1 h
    exact hkept _ _ rfl ⟨_, read, h, rfl⟩ hinv
  | time =>
    rw [horder] at h hkept
    rcases readEventTimeOrder_cases h with htake | ⟨filled, hnone, hfilled, htake⟩
    · rw [takeQueued_state htake]
      exact hinv
    · have hfilledInv : Inv filled.toReaderState :=
        fillQueue_state _ (fun r state hreads ↦ hkept r state ⟨hnone, hreads⟩) hfilled hinv
      rw [takeQueued_state htake]
      exact hfilledInv

end DataFileReader

end Tracepoints
