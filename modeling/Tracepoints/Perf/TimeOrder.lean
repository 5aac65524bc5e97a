import Tracepoints.Lib.Rounds
import Tracepoints.Perf.EventStream
import Tracepoints.Perf.Opening

/-!
# Time order is a stable sort of each round

A caller opens the same file in file order and in time order and calls `move_next_event` again and
again. File order returns the stream of events as it is (`calls_fileOrder`). Time order reads a
round ahead into a queue, sorts it, and returns the queue and then the result that ended the round
(`calls_round`); its buffers only grow, so the events of a round stay as they were read. Together:
the calls in time order return the rounds of the calls in file order, each sorted.
-/

set_option autoImplicit false
set_option relaxedAutoImplicit false

namespace Tracepoints

open Exec

/-! ### Calls of `move_next_event` -/

/-- `PerfDataFileReader`: the reader, and the event that the last call moved to. -/
structure PerfDataFileReader where
  reader : DataFileReader
  currentEvent : EventBytesRef
  deriving DecidableEq, Repr

/-- What a call returned, the time of its event from the offsets known when it returned, and whether
it ends a round: it is a `FinishedInit` or `FinishedRound` event, or not an event. -/
structure Reading where
  returned : DataFileReader.Returned
  time : ℕ
  ends : Bool
  deriving DecidableEq, Repr

namespace PerfDataFileReader

open DataFileReader

/-- What a result of `move_next_event` returns, with the bytes of `current_event`. -/
def returnedOf (read : ReadResult) : Exec Returned :=
  match read.result with
  | .ok true => do
    let bytes ← read.reader.currentEventBytes read.eventBytes
    .ok (.event bytes)
  | .ok false => .ok .finished
  | .error error => .ok (.failed error)

/-- What was returned, with the time that the parsed part gives it. -/
def readingOf (state : ReaderState) (returned : Returned) : Exec Reading :=
  match returned with
  | .event bytes => do
    let time ← eventTime state bytes
    let closes ← closesRound state bytes
    .ok ⟨returned, time, closes⟩
  | _ => .ok ⟨returned, 0, true⟩

/-- Successive calls of `move_next_event`. -/
def calls (build : Build) : ℕ → PerfDataFileReader → Exec (List Reading × PerfDataFileReader)
  | 0, reader => .ok ([], reader)
  | count + 1, reader => do
    let read ← moveNextEvent build reader.reader reader.currentEvent
    let returned ← returnedOf read
    let reading ← readingOf read.reader.toReaderState returned
    let (readings, reader) ← calls build count ⟨read.reader, read.eventBytes⟩
    .ok (reading :: readings, reader)

/-- The calls behind the first ones. -/
theorem calls_add {build : Build} {m n : ℕ} {reader mid last : PerfDataFileReader}
    {first second : List Reading} (hfirst : calls build m reader = .ok (first, mid))
    (hsecond : calls build n mid = .ok (second, last)) :
    calls build (m + n) reader = .ok (first ++ second, last) := by
  induction m generalizing reader first with
  | zero =>
    obtain ⟨rfl, rfl⟩ : [] = first ∧ reader = mid := by simpa [calls] using hfirst
    rwa [Nat.zero_add, List.nil_append]
  | succ m ih =>
    rw [calls] at hfirst
    obtain ⟨read, hread, hfirst⟩ := bind_eq_ok.mp hfirst
    obtain ⟨returned, hreturned, hfirst⟩ := bind_eq_ok.mp hfirst
    obtain ⟨reading, hreading, hfirst⟩ := bind_eq_ok.mp hfirst
    obtain ⟨⟨readings, mid'⟩, hrest, hfirst⟩ := bind_eq_ok.mp hfirst
    obtain ⟨rfl, rfl⟩ : reading :: readings = first ∧ mid' = mid := by simpa using hfirst
    rw [Nat.succ_add, calls, hread, ok_bind, hreturned, ok_bind, hreading, ok_bind, ih hrest,
      ok_bind, List.cons_append]

/-! ### Runs of the stream -/

/-- The readings of the stream of a file. -/
def streamRun (build : Build) : ℕ → ReaderState → InputFile →
    Exec (List Reading × ReaderState × InputFile)
  | 0, state, file => .ok ([], state, file)
  | count + 1, state, file => do
    let (returned, state, file) ← nextEvent build state file
    let reading ← readingOf state returned
    let (readings, state, file) ← streamRun build count state file
    .ok (reading :: readings, state, file)

/-- No record of the stream has data behind it. -/
def PlainStream (build : Build) (state : ReaderState) (file : InputFile) : Prop :=
  ∀ n readings state' file', streamRun build n state file = .ok (readings, state', file') →
    PlainNext build state' file'

/-- The time of an event fits 64 bits and does not depend on bytes outside the event. -/
theorem eventTime_returns (state : ReaderState) {bytes : List UInt8}
    (hlength : PerfEventHeader.byteSize ≤ bytes.length) :
    Returns (eventTime state bytes) fun time ↦ time < 2 ^ 64 := by
  have hbyteSize : PerfEventHeader.byteSize = 8 := rfl
  have hread : ∀ pos, pos + 8 ≤ bytes.length →
      Returns (readUInt state.sessionInfo.byteReader 8 bytes pos) fun time ↦ time < 2 ^ 64 := by
    intro pos hpos
    rw [readUInt_of_le hpos]
    exact .ok (lt_of_readUInt (readUInt_of_le hpos))
  unfold eventTime
  dsimp only
  rw [readUInt_of_le (by omega), ok_bind]
  refine Returns.ite (fun _ ↦ Returns.ite (fun _ ↦ .ok (by decide)) fun hoffset ↦ ?_) fun _ ↦
    Returns.ite (fun _ ↦ .ok (by decide)) fun hoffset ↦ ?_
  · exact hread _ (by omega)
  · rw [not_or, not_or] at hoffset
    rw [sub_of_le (by omega), ok_bind]
    exact hread _ (by omega)

theorem readingOf_returns (state : ReaderState) {returned : Returned} (hfull : returned.Full) :
    Returns (readingOf state returned) fun reading ↦
      reading.returned = returned ∧ reading.time < 2 ^ 64 ∧
        (reading.ends = false → ∃ bytes, returned = .event bytes) := by
  cases returned with
  | event bytes =>
    have hlength : PerfEventHeader.byteSize ≤ bytes.length := hfull
    have hbyteSize : PerfEventHeader.byteSize = 8 := rfl
    obtain ⟨time, htime, hlt⟩ := eventTime_returns state hlength
    unfold readingOf closesRound
    dsimp only
    rw [htime, ok_bind, readUInt_of_le (by omega), ok_bind, ok_bind]
    exact .ok ⟨rfl, hlt, fun _ ↦ ⟨bytes, rfl⟩⟩
  | finished => exact .ok ⟨rfl, Nat.two_pow_pos 64, by simp⟩
  | failed error => exact .ok ⟨rfl, Nat.two_pow_pos 64, by simp⟩

/-- Each event moves the file by at least a header. -/
theorem nextEvent_returns (build : Build) (state : ReaderState) (file : InputFile) :
    Returns (nextEvent build state file) fun next ↦
      next.1.Full ∧ next.2.2.content = file.content ∧
        ∀ bytes, next.1 = .event bytes → file.cursor < next.2.2.cursor ∧
          next.2.2.cursor ≤ file.content.length := by
  have hbyteSize : PerfEventHeader.byteSize = 8 := rfl
  unfold nextEvent
  refine Returns.ite (fun _ ↦ .ok ⟨trivial, rfl, by simp⟩) fun _ ↦ ?_
  refine Returns.ite (fun _ ↦ .ok ⟨trivial, rfl, by simp⟩) fun _ ↦ ?_
  unfold nextEventData InputFile.readExact
  split_ifs with hread
  · rw [ok_bind]
    dsimp only
    refine Returns.ite (fun _ ↦ .ok ⟨trivial, rfl, by simp⟩) fun _ ↦ ?_
    refine Returns.ite (fun _ ↦ .ok ⟨trivial, rfl, by simp⟩) fun _ ↦ ?_
    split_ifs with hdata
    · rw [ok_bind]
      dsimp only
      obtain ⟨state', hstate', -⟩ := plainEvent_returns build state
        (eventHeader build state ((file.content.drop file.cursor).take PerfEventHeader.byteSize)).ty
        (((file.content.drop (file.cursor + PerfEventHeader.byteSize))).take
          ((eventHeader build state
            ((file.content.drop file.cursor).take PerfEventHeader.byteSize)).size -
            PerfEventHeader.byteSize))
      rw [hstate', ok_bind]
      refine .ok ⟨?_, rfl, fun _ _ ↦ ⟨?_, hdata⟩⟩
      · show _ ≤ _
        rw [List.length_append, List.length_take, List.length_drop]
        omega
      · dsimp only
        omega
    · exact .ok ⟨trivial, rfl, by simp⟩
  · rw [ok_bind]
    dsimp only
    split_ifs
    · exact .ok ⟨trivial, rfl, by simp⟩
    · exact .ok ⟨trivial, rfl, by simp⟩

/-- What holds of each reading of the stream. -/
structure SoundReading (reading : Reading) : Prop where
  full : reading.returned.Full
  time_lt : reading.time < 2 ^ 64
  event_of_ends : reading.ends = false → ∃ bytes, reading.returned = .event bytes

/-- One step of the stream. -/
theorem streamRun_succ {build : Build} {count : ℕ} {state state'' : ReaderState}
    {file file'' : InputFile} {readings : List Reading} :
    streamRun build (count + 1) state file = .ok (readings, state'', file'') ↔
      ∃ reading rest state' file', readings = reading :: rest ∧
        nextEvent build state file = .ok (reading.returned, state', file') ∧
        readingOf state' reading.returned = .ok reading ∧
        streamRun build count state' file' = .ok (rest, state'', file'') := by
  rw [streamRun]
  constructor
  · intro h
    obtain ⟨⟨returned, state', file'⟩, hnext, h⟩ := bind_eq_ok.mp h
    obtain ⟨reading, hreading, h⟩ := bind_eq_ok.mp h
    obtain ⟨⟨rest, last⟩, hrest, h⟩ := bind_eq_ok.mp h
    obtain ⟨rfl, rfl⟩ : reading :: rest = readings ∧ last = (state'', file'') := by simpa using h
    have hfull := ((nextEvent_returns build state file).of_eq_ok hnext).1
    have hreturned := ((readingOf_returns state' hfull).of_eq_ok hreading).1
    exact ⟨reading, rest, state', file', rfl, by rw [hnext, hreturned], by rw [hreturned, hreading],
      hrest⟩
  · rintro ⟨reading, rest, state', file', rfl, hnext, hreading, hrest⟩
    rw [hnext, ok_bind]
    dsimp only
    rw [hreading, ok_bind, hrest, ok_bind]

theorem streamRun_returns (build : Build) (count : ℕ) (state : ReaderState) (file : InputFile) :
    Returns (streamRun build count state file) fun run ↦
      run.1.length = count ∧ run.2.2.content = file.content ∧
        ∀ reading ∈ run.1, SoundReading reading := by
  induction count generalizing state file with
  | zero => exact .ok ⟨rfl, rfl, by simp⟩
  | succ count ih =>
    obtain ⟨⟨returned, state', file'⟩, hnext, hfull, hcontent, -⟩ :=
      nextEvent_returns build state file
    obtain ⟨reading, hreading, hreturned, htime, hevent⟩ := readingOf_returns state' hfull
    obtain ⟨⟨rest, state'', file''⟩, hrest, hlength, hcontent', hsound⟩ := ih state' file'
    refine ⟨(reading :: rest, state'', file''), ?_, by simpa using hlength,
      hcontent'.trans hcontent, ?_⟩
    · subst hreturned
      exact streamRun_succ.mpr ⟨reading, rest, state', file', rfl, hnext, hreading, hrest⟩
    · rintro reading' hmem
      rcases List.mem_cons.mp hmem with rfl | hmem
      · exact ⟨by rw [hreturned]; exact hfull, htime, fun hends ↦ by
          rw [hreturned]; exact hevent hends⟩
      · exact hsound reading' hmem

/-- A run of the stream is cut where its readings are. -/
theorem streamRun_append {build : Build} {first second : List Reading}
    {state state'' : ReaderState} {file file'' : InputFile} {count : ℕ}
    (h : streamRun build count state file = .ok (first ++ second, state'', file'')) :
    ∃ state' file', streamRun build first.length state file = .ok (first, state', file') ∧
      streamRun build second.length state' file' = .ok (second, state'', file'') := by
  obtain rfl : (first ++ second).length = count :=
    ((streamRun_returns build count state file).of_eq_ok h).1
  induction first generalizing state file with
  | nil => exact ⟨state, file, rfl, h⟩
  | cons reading first ih =>
    rw [List.cons_append, List.length_cons, streamRun_succ] at h
    obtain ⟨reading', rest, state', file', hcons, hnext, hreading, hrest⟩ := h
    obtain ⟨rfl, rfl⟩ : reading = reading' ∧ first ++ second = rest := by simpa using hcons
    obtain ⟨mid, midFile, hfirst, hsecond⟩ := ih hrest
    exact ⟨mid, midFile,
      streamRun_succ.mpr ⟨reading, first, state', file', rfl, hnext, hreading, hfirst⟩, hsecond⟩

/-- Two runs of the stream one behind the other. -/
theorem streamRun_add {build : Build} {m n : ℕ} {first second : List Reading}
    {state state' state'' : ReaderState} {file file' file'' : InputFile}
    (hfirst : streamRun build m state file = .ok (first, state', file'))
    (hsecond : streamRun build n state' file' = .ok (second, state'', file'')) :
    streamRun build (m + n) state file = .ok (first ++ second, state'', file'') := by
  induction m generalizing state file first with
  | zero =>
    obtain ⟨rfl, rfl, rfl⟩ : [] = first ∧ state = state' ∧ file = file' := by
      simpa [streamRun] using hfirst
    rwa [Nat.zero_add, List.nil_append]
  | succ m ih =>
    obtain ⟨reading, rest, mid, midFile, rfl, hnext, hreading, hrest⟩ := streamRun_succ.mp hfirst
    rw [Nat.succ_add]
    exact streamRun_succ.mpr ⟨reading, rest ++ second, mid, midFile, rfl, hnext, hreading, ih hrest⟩

theorem PlainStream.after {build : Build} {n : ℕ} {readings : List Reading}
    {state state' : ReaderState} {file file' : InputFile} (hplain : PlainStream build state file)
    (h : streamRun build n state file = .ok (readings, state', file')) :
    PlainStream build state' file' :=
  fun _ _ _ _ h' ↦ hplain _ _ _ _ (streamRun_add h h')

theorem PlainStream.next {build : Build} {state : ReaderState} {file : InputFile}
    (hplain : PlainStream build state file) : PlainNext build state file :=
  hplain 0 _ _ _ rfl

/-- A run of events moves the file with each event and stays within it. -/
theorem events_length_le {build : Build} {events : List Reading} {state state' : ReaderState}
    {file file' : InputFile} (hevents : ∀ reading ∈ events, reading.ends = false)
    (h : streamRun build events.length state file = .ok (events, state', file')) :
    file.cursor + events.length ≤ max file.cursor file.content.length := by
  induction events generalizing state file with
  | nil => simp
  | cons reading events ih =>
    rw [List.length_cons] at h
    obtain ⟨reading', rest, mid, midFile, hcons, hnext, hreading, hrest⟩ := streamRun_succ.mp h
    obtain ⟨rfl, rfl⟩ : reading = reading' ∧ events = rest := by simpa using hcons
    obtain ⟨hfull, hcontent, hmoves⟩ := (nextEvent_returns build state file).of_eq_ok hnext
    obtain ⟨bytes, hbytes⟩ := ((readingOf_returns mid hfull).of_eq_ok hreading).2.2
      (hevents reading List.mem_cons_self)
    obtain ⟨hlt, hle⟩ := hmoves bytes hbytes
    have hrec := ih (fun r hr ↦ hevents r (List.mem_cons_of_mem _ hr)) hrest
    simp only at hcontent hlt hle
    rw [hcontent] at hrec
    rw [List.length_cons]
    omega

/-- Each stream has a complete round in front. -/
theorem exists_round (build : Build) (state : ReaderState) (file : InputFile) :
    ∃ round last state' file', streamRun build (round.length + 1) state file =
        .ok (round ++ [last], state', file') ∧ (∀ reading ∈ round, Reading.ends reading = false) ∧
      Reading.ends last = true := by
  obtain ⟨⟨readings, state', file'⟩, hrun, hlength, -⟩ :=
    streamRun_returns build (file.content.length + 1) state file
  rcases Rounds.split_round Reading.ends readings with
    hopen | ⟨round, last, rest, rfl, hround, hlast⟩
  · rw [← hlength] at hrun
    have := events_length_le hopen hrun
    simp only at hlength
    rw [hlength] at this
    omega
  · rw [← List.singleton_append, ← List.append_assoc] at hrun
    obtain ⟨mid, midFile, hfirst, -⟩ := streamRun_append hrun
    rw [List.length_append, List.length_singleton] at hfirst
    exact ⟨round, last, mid, midFile, hfirst, hround, hlast⟩

/-! ### File order -/

/-- A reader in file order uses only its first buffer. -/
structure FileReady (reader : DataFileReader) : Prop where
  order : reader.eventOrder = .file
  current : reader.currentBuffer = 0
  nonempty : reader.buffers ≠ []
  behind : ∀ (index : ℕ) (bytes : List UInt8), 0 < index → reader.buffers[index]? = some bytes →
    bytes = []

/-- What a result returns where it is known what it denotes. -/
theorem returnedOf_denotes {read : ReadResult} {returned : Returned} (hfull : returned.Full)
    (h : Denotes read returned) : returnedOf read = .ok returned := by
  cases returned with
  | event bytes =>
    obtain ⟨hresult, hbytes⟩ := h
    have hlength : PerfEventHeader.byteSize ≤ bytes.length := hfull
    unfold returnedOf currentEventBytes
    rw [hresult]
    dsimp only
    rw [if_neg, hbytes, ok_bind]
    -- the bytes that a reference denotes have the length of its range
    obtain ⟨buffer, -, hslice⟩ := bind_eq_ok.mp hbytes
    unfold slice at hslice
    split_ifs at hslice with hrange
    obtain rfl : (buffer.drop read.eventBytes.start).take
        (read.eventBytes.stop - read.eventBytes.start) = bytes := by simpa using hslice
    rw [List.length_take] at hlength
    omega
  | finished =>
    have hresult : read.result = .ok false := h
    unfold returnedOf
    rw [hresult]
  | failed error =>
    have hresult : read.result = .error error := h
    unfold returnedOf
    rw [hresult]

/-- One call in front of others. -/
theorem calls_succ {build : Build} {reader last : PerfDataFileReader} {read : ReadResult}
    {returned : Returned} {reading : Reading} {count : ℕ} {readings : List Reading}
    (hread : moveNextEvent build reader.reader reader.currentEvent = .ok read)
    (hfull : returned.Full) (hdenotes : Denotes read returned)
    (hreading : readingOf read.reader.toReaderState returned = .ok reading)
    (hrest : calls build count ⟨read.reader, read.eventBytes⟩ = .ok (readings, last)) :
    calls build (count + 1) reader = .ok (reading :: readings, last) := by
  rw [calls, hread, ok_bind, returnedOf_denotes hfull hdenotes, ok_bind, hreading, ok_bind, hrest,
    ok_bind]

/-- A call in file order is a step of the stream. -/
theorem moveNextEvent_fileOrder (build : Build) {reader : DataFileReader} (current : EventBytesRef)
    (hready : FileReady reader) (hplain : PlainNext build reader.toReaderState reader.file) :
    Returns (moveNextEvent build reader current) fun read ↦
      ∃ returned, nextEvent build reader.toReaderState reader.file =
          .ok (returned, read.reader.toReaderState, read.reader.file) ∧
        Denotes read returned ∧ FileReady read.reader := by
  unfold moveNextEvent readEventFileOrder
  rw [hready.order]
  dsimp only
  rw [debugAssert_of hready.current, ok_bind]
  have hempty : (reader.buffers.modify 0 fun _ ↦ [])[reader.currentBuffer]? = some [] := by
    rw [hready.current]
    cases hbuffers : reader.buffers with
    | nil => exact absurd hbuffers hready.nonempty
    | cons first rest => rfl
  have hbehind : ∀ (index : ℕ) (bytes : List UInt8), reader.currentBuffer < index →
      (reader.buffers.modify 0 fun _ ↦ [])[index]? = some bytes → bytes = [] := by
    intro index bytes hindex hget
    rw [hready.current] at hindex
    rw [List.getElem?_modify_ne _ _ hindex.ne] at hget
    exact hready.behind index bytes hindex hget
  refine (readOneEvent_nextEvent build current ?_ ?_ ?_).mono ?_
  · exact ⟨⟨[], hempty, by decide⟩, hbehind⟩
  · exact .inr hempty
  · exact hplain
  rintro read ⟨returned, state, file, hnext, hdenotes, hadvanced⟩
  have hcurrent : read.reader.currentBuffer = 0 :=
    (hadvanced.fileOrder rfl).trans hready.current
  obtain ⟨bytes, hbytes, -⟩ := hadvanced.room.exists_current
  refine ⟨returned, ?_, hdenotes, ⟨?_, hcurrent, ?_, ?_⟩⟩
  · rw [hadvanced.rest]
    exact hnext
  · rw [hadvanced.rest]
  · intro hnil
    simp [hnil] at hbytes
  · have := hadvanced.room.behind
    rwa [hcurrent] at this

/-- Calls in file order are a run of the stream, where no record has data behind it. -/
theorem calls_fileOrder (build : Build) (count : ℕ) {reader : PerfDataFileReader}
    (hready : FileReady reader.reader)
    (hplain : ∀ n readings last, calls build n reader = .ok (readings, last) →
      PlainNext build last.reader.toReaderState last.reader.file) :
    Returns (calls build count reader) fun run ↦
      streamRun build count reader.reader.toReaderState reader.reader.file =
        .ok (run.1, run.2.reader.toReaderState, run.2.reader.file) := by
  induction count generalizing reader with
  | zero => exact .ok rfl
  | succ count ih =>
    obtain ⟨read, hread, returned, hnext, hdenotes, hready'⟩ :=
      moveNextEvent_fileOrder build reader.currentEvent hready (hplain 0 _ _ rfl)
    have hfull := ((nextEvent_returns build _ _).of_eq_ok hnext).1
    obtain ⟨reading, hreading, rfl, -⟩ := readingOf_returns read.reader.toReaderState hfull
    have hcall : ∀ n readings last, calls build n ⟨read.reader, read.eventBytes⟩ =
        .ok (readings, last) → calls build (n + 1) reader = .ok (reading :: readings, last) :=
      fun _ _ _ hrest ↦ calls_succ hread hfull hdenotes hreading hrest
    obtain ⟨⟨readings, last⟩, hrest, hrun⟩ := @ih ⟨read.reader, read.eventBytes⟩ hready'
      fun n readings last h ↦ hplain (n + 1) _ last (hcall n readings last h)
    refine ⟨(reading :: readings, last), hcall count readings last hrest, ?_⟩
    exact streamRun_succ.mpr ⟨reading, readings, _, _, rfl, hnext, hreading, hrun⟩

/-! ### Filling the queue -/

/-- A reader in time order that is at a point of the stream. -/
structure TimeReady (state : ReaderState) (file : InputFile) (reader : DataFileReader) : Prop where
  order : reader.eventOrder = .time
  state_eq : reader.toReaderState = state
  file_eq : reader.file = file
  room : Room 0 reader.buffers reader.currentBuffer

/-- The key of a queued event: an event that closes its round comes last. -/
def queueKey (reading : Reading) : ℕ := if reading.ends then 2 ^ 64 - 1 else reading.time

/-- The entry of the queue for the event with the given number in its round. -/
def stamp (item : (Reading × EventBytesRef) × ℕ) : QueueEntry :=
  ⟨queueKey item.1.1, item.2, item.1.2⟩

/-- The reader still has the bytes of a queued event. -/
def Holds (reader : DataFileReader) (item : Reading × EventBytesRef) : Prop :=
  ∃ bytes, item.1.returned = .event bytes ∧ PerfEventHeader.byteSize ≤ bytes.length ∧
    reader.bytesOf item.2 = .ok bytes

theorem Holds.of_grows {before after : DataFileReader} {item : Reading × EventBytesRef}
    (hgrows : Grows before.buffers after.buffers) (h : Holds before item) : Holds after item := by
  obtain ⟨bytes, hreturned, hlength, hbytes⟩ := h
  exact ⟨bytes, hreturned, hlength, bytesOf_of_grows hgrows hbytes⟩

/-- The queue holds the given events of the current round. -/
structure Queue (held : List (Reading × EventBytesRef)) (reader : DataFileReader) : Prop where
  entries : reader.eventQueue = held.zipIdx.map stamp
  holds : ∀ item ∈ held, Holds reader item

/-- The events of a reading: itself, if it is one. -/
def eventsOf (reading : Reading) : List Reading :=
  match reading.returned with
  | .event _ => [reading]
  | _ => []

/-- The result that stays pending when a reading ends a round. -/
def pendingOf (returned : Returned) : Option (Except IoError Bool) :=
  match returned with
  | .event _ => none
  | .finished => some (.ok false)
  | .failed error => some (.error error)

theorem readingOf_event {state : ReaderState} {bytes : List UInt8} {reading : Reading}
    (h : readingOf state (.event bytes) = .ok reading) :
    eventTime state bytes = .ok reading.time ∧ closesRound state bytes = .ok reading.ends := by
  obtain ⟨time, htime, h⟩ := bind_eq_ok.mp h
  obtain ⟨closes, hcloses, h⟩ := bind_eq_ok.mp h
  obtain rfl : (⟨.event bytes, time, closes⟩ : Reading) = reading := by simpa using h
  exact ⟨htime, hcloses⟩

/-- Reading an event puts it at the end of the queue. -/
theorem fillQueue_event (build : Build) (fuel : ℕ) {reader : DataFileReader}
    {state state' : ReaderState} {file file' : InputFile} {held : List (Reading × EventBytesRef)}
    {reading : Reading} {bytes : List UInt8} (hready : TimeReady state file reader)
    (hplain : PlainNext build state file) (hqueue : Queue held reader)
    (hbound : held.length < 2 ^ 32) (hevent : reading.returned = .event bytes)
    (hnext : nextEvent build state file = .ok (reading.returned, state', file'))
    (hreading : readingOf state' reading.returned = .ok reading) :
    ∃ reader' ref, TimeReady state' file' reader' ∧ Queue (held ++ [(reading, ref)]) reader' ∧
      reader'.eventQueueConsumed = reader.eventQueueConsumed ∧
      reader'.eventQueuePendingResult = reader.eventQueuePendingResult ∧
      fillQueue build (fuel + 1) reader =
        if reading.ends then .ok reader' else fillQueue build fuel reader' := by
  obtain ⟨horder, rfl, rfl, hroom⟩ := hready
  obtain ⟨read, hread, returned, state, file, hnext', hdenotes, hadvanced⟩ :=
    readOneEvent_nextEvent build .default hroom (.inl horder) hplain
  rw [hnext] at hnext'
  obtain ⟨rfl, rfl, rfl⟩ : reading.returned = returned ∧ state' = state ∧ file' = file := by
    simpa using hnext'
  have hfull : PerfEventHeader.byteSize ≤ bytes.length := by
    have h := ((nextEvent_returns build _ _).of_eq_ok hnext).1
    rwa [hevent] at h
  rw [hevent] at hdenotes hreading
  obtain ⟨hresult, hbytes⟩ := hdenotes
  obtain ⟨htime, hcloses⟩ := readingOf_event hreading
  obtain ⟨hrest, hroom', hgrows, -⟩ := hadvanced
  have hstate : read.reader.toReaderState = state' := by rw [hrest]
  have hentries : read.reader.eventQueue = held.zipIdx.map stamp := by
    rw [hrest]
    exact hqueue.entries
  have hlength : read.reader.eventQueue.length % 2 ^ 32 = held.length := by
    rw [hentries, List.length_map, List.length_zipIdx, Nat.mod_eq_of_lt hbound]
  refine ⟨{ read.reader with eventQueue := read.reader.eventQueue ++
    [⟨queueKey reading, held.length, read.eventBytes⟩] }, read.eventBytes,
    ⟨?_, hstate, ?_, hroom'⟩, ⟨?_, ?_⟩, ?_, ?_, ?_⟩
  · rw [hrest]
    exact horder
  · rw [hrest]
  · rw [hentries, List.zipIdx_append, List.map_append]
    simp [stamp]
  · intro item hitem
    rcases List.mem_append.mp hitem with hitem | hitem
    · exact (hqueue.holds item hitem).of_grows hgrows
    · obtain rfl := List.mem_singleton.mp hitem
      exact ⟨bytes, hevent, hfull, hbytes⟩
  · rw [hrest]
  · rw [hrest]
  · rw [fillQueue, hread, ok_bind, hresult]
    dsimp only
    rw [hbytes, ok_bind, hstate, htime, ok_bind, hcloses, ok_bind, hlength]
    rfl

/-- Reading something else than an event leaves it pending. -/
theorem fillQueue_other (build : Build) (fuel : ℕ) {reader : DataFileReader}
    {state state' : ReaderState} {file file' : InputFile} {held : List (Reading × EventBytesRef)}
    {returned : Returned} (hready : TimeReady state file reader)
    (hplain : PlainNext build state file) (hqueue : Queue held reader)
    (hother : ∀ bytes, returned ≠ .event bytes)
    (hnext : nextEvent build state file = .ok (returned, state', file')) :
    ∃ reader', TimeReady state' file' reader' ∧ Queue held reader' ∧
      reader'.eventQueueConsumed = reader.eventQueueConsumed ∧
      reader'.eventQueuePendingResult = pendingOf returned ∧
      fillQueue build (fuel + 1) reader = .ok reader' := by
  obtain ⟨horder, rfl, rfl, hroom⟩ := hready
  obtain ⟨read, hread, returned', state, file, hnext', hdenotes, hadvanced⟩ :=
    readOneEvent_nextEvent build .default hroom (.inl horder) hplain
  rw [hnext] at hnext'
  obtain ⟨rfl, rfl, rfl⟩ : returned = returned' ∧ state' = state ∧ file' = file := by
    simpa using hnext'
  obtain ⟨hrest, hroom', hgrows, -⟩ := hadvanced
  have hpending : fillQueue build (fuel + 1) reader =
      .ok { read.reader with eventQueuePendingResult := pendingOf returned } := by
    rw [fillQueue, hread, ok_bind]
    cases returned with
    | event bytes => exact absurd rfl (hother bytes)
    | finished =>
      have hresult : read.result = .ok false := hdenotes
      rw [hresult]
      rfl
    | failed error =>
      have hresult : read.result = .error error := hdenotes
      rw [hresult]
      rfl
  refine ⟨{ read.reader with eventQueuePendingResult := pendingOf returned },
    ⟨?_, ?_, ?_, hroom'⟩, ⟨?_, ?_⟩, ?_, rfl, hpending⟩
  · rw [hrest]
    exact horder
  · rw [hrest]
  · rw [hrest]
  · rw [hrest]
    exact hqueue.entries
  · intro item hitem
    exact (hqueue.holds item hitem).of_grows hgrows
  · rw [hrest]

/-- The inner loop of `read_event_time_order` queues a round of the stream. -/
theorem fillQueue_round (build : Build) {round : List Reading} {last : Reading}
    (hround : ∀ reading ∈ round, Reading.ends reading = false) (hlast : last.ends = true)
    {fuel : ℕ} {reader : DataFileReader} {state state' : ReaderState} {file file' : InputFile}
    {held : List (Reading × EventBytesRef)} (hready : TimeReady state file reader)
    (hplain : PlainStream build state file) (hqueue : Queue held reader)
    (hpending : reader.eventQueuePendingResult = none)
    (hrun : streamRun build (round.length + 1) state file = .ok (round ++ [last], state', file'))
    (hbound : held.length + round.length + 1 ≤ 2 ^ 32) (hfuel : round.length < fuel) :
    ∃ reader' held', fillQueue build fuel reader = .ok reader' ∧ TimeReady state' file' reader' ∧
      Queue held' reader' ∧ held'.map Prod.fst = held.map Prod.fst ++ (round ++ eventsOf last) ∧
      reader'.eventQueueConsumed = reader.eventQueueConsumed ∧
      reader'.eventQueuePendingResult = pendingOf last.returned := by
  induction round generalizing fuel reader state file held with
  | nil =>
    obtain ⟨fuel, rfl⟩ := Nat.exists_eq_succ_of_ne_zero (Nat.ne_zero_of_lt hfuel)
    obtain ⟨reading, rest, mid, midFile, hcons, hnext, hreading, hrest⟩ := streamRun_succ.mp hrun
    obtain ⟨rfl, rfl⟩ : last = reading ∧ [] = rest := by simpa using hcons
    obtain ⟨rfl, rfl⟩ : mid = state' ∧ midFile = file' := by simpa [streamRun] using hrest
    by_cases hevent : ∃ bytes, last.returned = .event bytes
    · obtain ⟨bytes, hevent⟩ := hevent
      obtain ⟨reader', ref, hready', hqueue', hconsumed, hpending', hfill⟩ :=
        fillQueue_event build fuel hready hplain.next hqueue (by omega) hevent hnext hreading
      rw [if_pos hlast] at hfill
      refine ⟨reader', _, hfill, hready', hqueue', ?_, hconsumed, ?_⟩
      · simp [eventsOf, hevent]
      · rw [hpending', hpending, hevent]
        rfl
    · have hother : ∀ bytes, last.returned ≠ .event bytes := fun bytes h ↦ hevent ⟨bytes, h⟩
      obtain ⟨reader', hready', hqueue', hconsumed, hpending', hfill⟩ :=
        fillQueue_other build fuel hready hplain.next hqueue hother hnext
      refine ⟨reader', held, hfill, hready', hqueue', ?_, hconsumed, hpending'⟩
      unfold eventsOf
      split
      · next bytes h => exact absurd h (hother bytes)
      · simp
  | cons first round ih =>
    obtain ⟨fuel, rfl⟩ := Nat.exists_eq_succ_of_ne_zero (Nat.ne_zero_of_lt hfuel)
    rw [List.length_cons] at hrun hbound hfuel
    obtain ⟨reading, rest, mid, midFile, hcons, hnext, hreading, hrest⟩ := streamRun_succ.mp hrun
    obtain ⟨rfl, rfl⟩ : first = reading ∧ round ++ [last] = rest := by simpa using hcons
    have hopen : first.ends = false := hround first List.mem_cons_self
    have hfull := ((nextEvent_returns build state file).of_eq_ok hnext).1
    obtain ⟨bytes, hevent⟩ := ((readingOf_returns mid hfull).of_eq_ok hreading).2.2 hopen
    obtain ⟨reader', ref, hready', hqueue', hconsumed, hpending', hfill⟩ :=
      fillQueue_event build fuel hready hplain.next hqueue (by omega) hevent hnext hreading
    have hstep : streamRun build 1 state file = .ok ([first], mid, midFile) :=
      streamRun_succ.mpr ⟨first, [], mid, midFile, rfl, hnext, hreading, rfl⟩
    obtain ⟨reader'', held', hfill', hready'', hqueue'', hheld, hconsumed', hpending''⟩ :=
      ih (fun r hr ↦ hround r (List.mem_cons_of_mem _ hr)) hready' (hplain.after hstep) hqueue'
        (hpending'.trans hpending) hrest (by simp; omega) (Nat.lt_of_succ_lt_succ hfuel)
    refine ⟨reader'', held', ?_, hready'', hqueue'', ?_, hconsumed'.trans hconsumed, hpending''⟩
    · rw [hfill, if_neg (by simp [hopen]), hfill']
    · rw [hheld]
      simp

/-! ### Delivering the queue -/

/-- The reader will return the given events and then the pending result. -/
structure Delivers (events : List Returned) (pending : Option (Except IoError Bool))
    (reader : DataFileReader) : Prop where
  order : reader.eventOrder = .time
  pending_eq : reader.eventQueuePendingResult = pending
  events_eq : List.Forall₂ (fun entry returned ↦ ∃ bytes, returned = Returned.event bytes ∧
      PerfEventHeader.byteSize ≤ bytes.length ∧
      reader.bytesOf (QueueEntry.bytesRef entry) = .ok bytes)
    (reader.eventQueue.drop reader.eventQueueConsumed) events

/-- A reader that has nothing more to return without reading. -/
theorem Delivers.takeQueued {reader : DataFileReader} (h : Delivers [] none reader) :
    reader.takeQueued = none := by
  have hdrop := List.forall₂_nil_right_iff.mp h.events_eq
  have hget : reader.eventQueue[reader.eventQueueConsumed]? = none := by
    rw [List.getElem?_eq_none_iff]
    exact List.drop_eq_nil_iff.mp hdrop
  unfold DataFileReader.takeQueued
  rw [hget, h.pending_eq]

/-- A reader that has something to return without reading. -/
theorem Delivers.exists_takeQueued {reader : DataFileReader} {events : List Returned}
    {pending : Option (Except IoError Bool)} (h : Delivers events pending reader)
    (hsome : events ≠ [] ∨ pending ≠ none) : ∃ read, reader.takeQueued = some read := by
  unfold DataFileReader.takeQueued
  cases hget : reader.eventQueue[reader.eventQueueConsumed]? with
  | some entry => exact ⟨_, rfl⟩
  | none =>
    have hempty : events = [] := by
      have hdrop : reader.eventQueue.drop reader.eventQueueConsumed = [] :=
        List.drop_eq_nil_iff.mpr (List.getElem?_eq_none_iff.mp hget)
      have hevents := h.events_eq
      rw [hdrop] at hevents
      exact List.forall₂_nil_left_iff.mp hevents
    rw [h.pending_eq]
    cases pending with
    | some result => exact ⟨_, rfl⟩
    | none => exact absurd hempty (hsome.resolve_right (not_not.mpr rfl))

/-- Returning the next event of the queue. -/
theorem Delivers.event {reader : DataFileReader} {returned : Returned} {events : List Returned}
    {pending : Option (Except IoError Bool)} (h : Delivers (returned :: events) pending reader) :
    ∃ read, reader.takeQueued = some read ∧ Denotes read returned ∧ returned.Full ∧
      Delivers events pending read.reader ∧
      read.reader = { reader with eventQueueConsumed := reader.eventQueueConsumed + 1 } := by
  obtain ⟨entry, rest, ⟨bytes, rfl, hlength, hbytes⟩, hrest, hdrop⟩ :=
    List.forall₂_cons_right_iff.mp h.events_eq
  have hget : reader.eventQueue[reader.eventQueueConsumed]? = some entry := by
    rw [← List.head?_drop, hdrop]
    rfl
  have htail : reader.eventQueue.drop (reader.eventQueueConsumed + 1) = rest := by
    rw [← List.tail_drop, hdrop]
    rfl
  refine ⟨⟨.ok true, entry.bytesRef,
    { reader with eventQueueConsumed := reader.eventQueueConsumed + 1 }⟩, ?_, ⟨rfl, hbytes⟩,
    hlength, ⟨h.order, h.pending_eq, ?_⟩, rfl⟩
  · unfold DataFileReader.takeQueued
    rw [hget]
  · dsimp only
    rw [htail]
    exact hrest

/-- Returning the pending result. -/
theorem Delivers.pending {reader : DataFileReader} {returned : Returned}
    (hother : ∀ bytes, returned ≠ .event bytes)
    (h : Delivers [] (pendingOf returned) reader) :
    ∃ read, reader.takeQueued = some read ∧ Denotes read returned ∧ returned.Full ∧
      Delivers [] none read.reader ∧
      read.reader = { reader with eventQueuePendingResult := none } := by
  have hdrop := List.forall₂_nil_right_iff.mp h.events_eq
  have hget : reader.eventQueue[reader.eventQueueConsumed]? = none := by
    rw [List.getElem?_eq_none_iff]
    exact List.drop_eq_nil_iff.mp hdrop
  unfold DataFileReader.takeQueued
  rw [hget, h.pending_eq]
  cases returned with
  | event bytes => exact absurd rfl (hother bytes)
  | finished => exact ⟨_, rfl, rfl, trivial, ⟨h.order, rfl, h.events_eq⟩, rfl⟩
  | failed error => exact ⟨_, rfl, rfl, trivial, ⟨h.order, rfl, h.events_eq⟩, rfl⟩

/-- A call returns what the reader has queued. -/
theorem calls_queued {build : Build} {reader : PerfDataFileReader} {read : ReadResult}
    {returned : Returned} (horder : reader.reader.eventOrder = .time)
    (htake : reader.reader.takeQueued = some read) (hdenotes : Denotes read returned)
    (hfull : returned.Full) :
    ∃ reading, reading.returned = returned ∧ calls build 1 reader =
      .ok ([reading], ⟨read.reader, read.eventBytes⟩) := by
  have hread : moveNextEvent build reader.reader reader.currentEvent = .ok read := by
    unfold moveNextEvent readEventTimeOrder
    rw [horder]
    dsimp only
    rw [htake]
  obtain ⟨reading, hreading, hreturned, -⟩ := readingOf_returns read.reader.toReaderState hfull
  exact ⟨reading, hreturned, calls_succ hread hfull hdenotes hreading rfl⟩

/-- Calls return the queued events one after the other. -/
theorem calls_deliver (build : Build) {events : List Returned}
    {pending : Option (Except IoError Bool)} {reader : PerfDataFileReader}
    (h : Delivers events pending reader.reader) :
    ∃ readings last, calls build events.length reader = .ok (readings, last) ∧
      readings.map Reading.returned = events ∧ Delivers [] pending last.reader ∧
      last.reader = { reader.reader with
        eventQueueConsumed := last.reader.eventQueueConsumed } := by
  induction events generalizing reader with
  | nil => exact ⟨[], reader, rfl, rfl, h, rfl⟩
  | cons returned events ih =>
    obtain ⟨read, htake, hdenotes, hfull, hdelivers, hreader⟩ := h.event
    obtain ⟨reading, hreturned, hcall⟩ := calls_queued h.order htake hdenotes hfull
    obtain ⟨readings, last, hcalls, hreadings, hdone, hlast⟩ :=
      @ih ⟨read.reader, read.eventBytes⟩ hdelivers
    refine ⟨reading :: readings, last, ?_, ?_, hdone, ?_⟩
    · rw [List.length_cons, Nat.add_comm]
      exact calls_add hcall hcalls
    · rw [List.map_cons, hreturned, hreadings]
    · rw [hlast, hreader]

/-! ### A round in time order -/

/-- The queue is sorted as the round it holds. -/
theorem sortedQueue {reader : DataFileReader} {held : List (Reading × EventBytesRef)}
    (hqueue : Queue held reader) :
    (reader.eventQueue.mergeSort entryLe).map QueueEntry.bytesRef =
      (held.mergeSort (Rounds.keyLe fun item ↦ queueKey item.1)).map Prod.snd := by
  have hplain : (held.zipIdx.mergeSort
      (List.zipIdxLE (Rounds.keyLe fun item ↦ queueKey item.1))).map Prod.fst =
      held.mergeSort (Rounds.keyLe fun item ↦ queueKey item.1) := List.mergeSort_zipIdx
  rw [hqueue.entries, Rounds.mergeSort_stamped (fun item : Reading × EventBytesRef ↦
    queueKey item.1) (fun _ _ _ _ ↦ rfl), ← hplain, List.map_map, List.map_map]
  rfl

/-- The events of a round in the order of the queue: the event that closes it is the last one. -/
theorem sortedEvents {round : List Reading} {last : Reading}
    (hround : ∀ reading ∈ round, SoundReading reading ∧ reading.ends = false)
    (hlast : last.ends = true) :
    (round ++ eventsOf last).mergeSort (Rounds.keyLe queueKey) =
      round.mergeSort (Rounds.keyLe Reading.time) ++ eventsOf last := by
  have hkey : ∀ reading ∈ round, queueKey reading = reading.time := by
    intro reading hreading
    unfold queueKey
    rw [if_neg (by simp [(hround reading hreading).2])]
  have hcongr := Rounds.mergeSort_congr hkey
  unfold eventsOf
  split
  · rw [Rounds.mergeSort_concat, hcongr]
    intro reading hreading
    have hlt := (hround reading hreading).1.time_lt
    have hmax : queueKey last = 2 ^ 64 - 1 := if_pos hlast
    rw [hkey reading hreading, hmax]
    omega
  · rw [List.append_nil, List.append_nil, hcongr]

/-- What is queued is delivered in the order of the queue. -/
theorem delivers_sorted {reader : DataFileReader} {held : List (Reading × EventBytesRef)}
    {pending : Option (Except IoError Bool)} (horder : reader.eventOrder = .time)
    (hqueue : Queue held reader) (hconsumed : reader.eventQueueConsumed = 0)
    (hpending : reader.eventQueuePendingResult = pending) :
    Delivers (((held.map Prod.fst).mergeSort (Rounds.keyLe queueKey)).map Reading.returned) pending
      { reader with eventQueue := reader.eventQueue.mergeSort entryLe } := by
  refine ⟨horder, hpending, ?_⟩
  have hfst : (held.map Prod.fst).mergeSort (Rounds.keyLe queueKey) =
      (held.mergeSort (Rounds.keyLe fun item ↦ queueKey item.1)).map Prod.fst :=
    (List.map_mergeSort (f := Prod.fst) fun _ _ _ _ ↦ rfl).symm
  rw [hconsumed, List.drop_zero, hfst]
  -- the entries matter only through the bytes they refer to
  apply (List.forall₂_map_left_iff (f := QueueEntry.bytesRef)
    (R := fun ref returned ↦ ∃ bytes, returned = Returned.event bytes ∧
      PerfEventHeader.byteSize ≤ bytes.length ∧ reader.bytesOf ref = .ok bytes)).mp
  rw [sortedQueue hqueue, List.forall₂_map_left_iff, List.forall₂_map_right_iff,
    List.forall₂_map_right_iff, List.forall₂_same]
  intro item hitem
  exact hqueue.holds item (List.mem_mergeSort.mp hitem)

/-- A call that has nothing queued reads the next round and goes on from there. -/
theorem calls_nextRound {build : Build} {reader next : DataFileReader} {read : ReadResult}
    (count : ℕ) (current : EventBytesRef) (horder : reader.eventOrder = .time)
    (hempty : reader.takeQueued = none) (hround : nextRound build reader = .ok next)
    (horder' : next.eventOrder = .time) (htake : next.takeQueued = some read) :
    calls build (count + 1) ⟨reader, current⟩ = calls build (count + 1) ⟨next, current⟩ := by
  have hmove : moveNextEvent build reader current = moveNextEvent build next current := by
    unfold moveNextEvent readEventTimeOrder
    rw [horder, horder']
    dsimp only
    rw [hempty, htake]
    dsimp only
    rw [hround, ok_bind, htake]
  rw [calls, calls, hmove]

/-- Assumes: a reader in time order with nothing queued, at a point of a stream that goes on with
a round. As many calls as the round has readings return the round, sorted, with the reading that
ends it last, and leave the reader with nothing queued behind the round. -/
theorem calls_round (build : Build) {round : List Reading} {last : Reading}
    {reader : PerfDataFileReader} {state state' : ReaderState} {file file' : InputFile}
    (hround : ∀ reading ∈ round, Reading.ends reading = false) (hlast : last.ends = true)
    (hready : TimeReady state file reader.reader) (hdrained : Delivers [] none reader.reader)
    (hplain : PlainStream build state file)
    (hrun : streamRun build (round.length + 1) state file = .ok (round ++ [last], state', file'))
    (hbound : round.length + 1 ≤ 2 ^ 32) :
    ∃ readings reader', calls build (round.length + 1) reader = .ok (readings, reader') ∧
      readings.map Reading.returned =
        (round.mergeSort (Rounds.keyLe Reading.time) ++ [last]).map Reading.returned ∧
      TimeReady state' file' reader'.reader ∧ Delivers [] none reader'.reader := by
  obtain ⟨reader, current⟩ := reader
  have hsound := ((streamRun_returns build _ _ _).of_eq_ok hrun).2.2
  have hroundSound : ∀ reading ∈ round, SoundReading reading ∧ reading.ends = false :=
    fun reading hreading ↦
      ⟨hsound reading (List.mem_append_left _ hreading), hround reading hreading⟩
  have hfuel : round.length < file.content.length + 1 := by
    obtain ⟨mid, midFile, hevents, -⟩ := streamRun_append hrun
    have := events_length_le hround hevents
    omega
  -- the round is read into the queue and sorted
  set cleared := { reader with eventQueue := [], eventQueueConsumed := 0 } with hcleared
  have hready0 : TimeReady state file cleared :=
    ⟨hready.order, hready.state_eq, hready.file_eq, hready.room⟩
  have hqueue0 : Queue [] cleared := ⟨rfl, by simp⟩
  obtain ⟨filled, held, hfill, hready', hqueue, hheld, hconsumed, hpending⟩ :=
    fillQueue_round build hround hlast hready0 hplain hqueue0 hdrained.pending_eq hrun
      (by simpa using hbound) hfuel
  rw [List.map_nil, List.nil_append] at hheld
  have hdelivers := delivers_sorted hready'.order hqueue hconsumed hpending
  rw [hheld, sortedEvents hroundSound hlast] at hdelivers
  set next := { filled with eventQueue := filled.eventQueue.mergeSort entryLe } with hnext
  have hnextRound : nextRound build reader = .ok next := by
    have hlength : reader.file.content.length + 1 = file.content.length + 1 := by
      rw [show reader.file = file from hready.file_eq]
    unfold nextRound
    rw [hlength, show fillQueue build (file.content.length + 1) _ = .ok filled from hfill, ok_bind]
  have hready'' : TimeReady state' file' next :=
    ⟨hready'.order, hready'.state_eq, hready'.file_eq, hready'.room⟩
  have hlength : (round.mergeSort (Rounds.keyLe Reading.time)).length = round.length :=
    List.length_mergeSort _
  obtain ⟨read, htake⟩ : ∃ read, next.takeQueued = some read := by
    refine hdelivers.exists_takeQueued ?_
    unfold eventsOf pendingOf
    cases last.returned with
    | event bytes => exact .inl (by simp)
    | finished => exact .inr (by simp)
    | failed error => exact .inr (by simp)
  rw [calls_nextRound round.length current hready.order hdrained.takeQueued hnextRound
    hready''.order htake]
  obtain ⟨readings, reader', hcalls, hreadings, hdone, hreader'⟩ :=
    @calls_deliver build _ _ ⟨next, current⟩ hdelivers
  have hreadyLast : TimeReady state' file' reader'.reader := by
    rw [hreader']
    exact ⟨hready''.order, hready''.state_eq, hready''.file_eq, hready''.room⟩
  by_cases hevent : ∃ bytes, last.returned = .event bytes
  · obtain ⟨bytes, hevent⟩ := hevent
    have hevents : eventsOf last = [last] := by simp [eventsOf, hevent]
    rw [hevents] at hcalls hreadings
    rw [hevent] at hdone
    rw [List.length_map, List.length_append, List.length_singleton, hlength] at hcalls
    exact ⟨readings, reader', hcalls, hreadings, hreadyLast, hdone⟩
  · have hother : ∀ bytes, last.returned ≠ .event bytes := fun bytes h ↦ hevent ⟨bytes, h⟩
    have hevents : eventsOf last = [] := by
      unfold eventsOf
      split
      · next bytes h => exact absurd h (hother bytes)
      · rfl
    rw [hevents, List.append_nil] at hcalls hreadings
    rw [List.length_map, hlength] at hcalls
    -- the result that ended the round is the last one
    obtain ⟨readLast, htakeLast, hdenotes, hfull, hdrained', hreadLast⟩ := hdone.pending hother
    obtain ⟨reading, hreturned, hcallLast⟩ := calls_queued hdone.order htakeLast hdenotes hfull
    refine ⟨readings ++ [reading], _, calls_add hcalls hcallLast, ?_, ?_, hdrained'⟩
    · rw [List.map_append, List.map_append, hreadings, List.map_singleton, List.map_singleton,
        hreturned]
    · rw [hreadLast]
      exact ⟨hreadyLast.order, hreadyLast.state_eq, hreadyLast.file_eq, hreadyLast.room⟩

/-! ### Whole runs in time order -/

/-- The rounds of readings in file order, each sorted by time with the reading that ends it last. -/
def timeOrdered (readings : List Reading) : List Reading :=
  Rounds.sortedRounds Reading.time Reading.ends [] readings

/-- Assumes: a reader in time order with nothing queued, at a point of a stream. For every number of
readings of the stream, calls in time order return their complete rounds, sorted. -/
theorem calls_timeOrdered (build : Build) {count : ℕ} {readings : List Reading}
    {reader : PerfDataFileReader} {state state' : ReaderState} {file file' : InputFile}
    (hready : TimeReady state file reader.reader) (hdrained : Delivers [] none reader.reader)
    (hplain : PlainStream build state file)
    (hrun : streamRun build count state file = .ok (readings, state', file'))
    (hbound : Rounds.longestRound Reading.ends 0 readings ≤ 2 ^ 32) :
    ∃ delivered last, calls build (timeOrdered readings).length reader = .ok (delivered, last) ∧
      delivered.map Reading.returned = (timeOrdered readings).map Reading.returned := by
  induction hcount : readings.length using Nat.strong_induction_on
    generalizing count readings reader state file with
  | _ length ih =>
    rcases Rounds.split_round Reading.ends readings with
      hopen | ⟨round, last, rest, rfl, hround, hlast⟩
    · have hnone : timeOrdered readings = [] := Rounds.sortedRounds_open [] hopen
      rw [hnone]
      exact ⟨[], reader, rfl, rfl⟩
    · rw [Rounds.longestRound_round 0 rest hround hlast, max_le_iff, Nat.zero_add] at hbound
      rw [← List.singleton_append, ← List.append_assoc] at hrun
      obtain ⟨mid, midFile, hfirst, hrest⟩ := streamRun_append hrun
      rw [List.length_append, List.length_singleton] at hfirst
      obtain ⟨delivered, reader', hcalls, hdelivered, hready', hdrained'⟩ :=
        calls_round build hround hlast hready hdrained hplain hfirst hbound.1
      obtain ⟨delivered', last', hcalls', hdelivered'⟩ :=
        ih rest.length (by rw [← hcount]; simp; omega) hready' hdrained' (hplain.after hfirst)
          hrest hbound.2 rfl
      have hordered : timeOrdered (round ++ last :: rest) =
          round.mergeSort (Rounds.keyLe Reading.time) ++ [last] ++ timeOrdered rest := by
        unfold timeOrdered
        rw [Rounds.sortedRounds_round [] rest hround hlast, List.nil_append, List.append_assoc,
          List.singleton_append]
      refine ⟨delivered ++ delivered', last', ?_, ?_⟩
      · rw [hordered, List.length_append, List.length_append, List.length_mergeSort,
          List.length_singleton]
        exact calls_add hcalls hcalls'
      · rw [hordered, List.map_append, List.map_append, hdelivered, hdelivered']

/-- Every number of calls in time order is reached by enough readings. -/
theorem exists_timeOrdered_length (build : Build) (m : ℕ) (state : ReaderState)
    (file : InputFile) :
    ∃ count readings state' file', streamRun build count state file =
      .ok (readings, state', file') ∧ m ≤ (timeOrdered readings).length := by
  induction m generalizing state file with
  | zero => exact ⟨0, [], state, file, rfl, Nat.zero_le _⟩
  | succ m ih =>
    obtain ⟨round, last, mid, midFile, hfirst, hround, hlast⟩ := exists_round build state file
    obtain ⟨count, readings, state', file', hrest, hle⟩ := ih mid midFile
    refine ⟨_, _, state', file', streamRun_add hfirst hrest, ?_⟩
    unfold timeOrdered at hle ⊢
    rw [List.append_assoc, List.singleton_append,
      Rounds.sortedRounds_round [] readings hround hlast, List.length_append, List.length_cons]
    omega

/-! ### Readers of the same file -/

/-- A reader that was opened and has no current event. -/
def opened (reader : DataFileReader) : PerfDataFileReader := ⟨reader, .default⟩

/-- `open_file` in terms of `open`. -/
theorem openFile_eq_ok {build : Build} {spare : ℕ} {content : List UInt8}
    {eventOrder : PerfDataFileEventOrder} {reader : DataFileReader} :
    openFile build spare content eventOrder = .ok (.ok (), reader) ↔
      ∃ s, OpenState.open_ build (Loading.openStart content) = .ok (.ok (), s) ∧
        reader = { closed spare content with
          toReaderState := s.state
          file := s.file
          buffers := s.buffer0 :: List.replicate spare []
          eventOrder := eventOrder } := by
  unfold openFile
  dsimp only
  constructor
  · intro h
    obtain ⟨⟨outcome, s⟩, hopen, h⟩ := bind_eq_ok.mp h
    obtain ⟨rfl, rfl⟩ : outcome = .ok () ∧ _ = reader := by simpa using h
    exact ⟨s, hopen, rfl⟩
  · rintro ⟨s, hopen, rfl⟩
    change (OpenState.open_ build (Loading.openStart content) >>= _) = _
    rw [hopen, ok_bind]

/-- The buffers behind the first one are empty. -/
theorem spare_empty {first bytes : List UInt8} {spare index : ℕ} (hindex : 0 < index)
    (hget : (first :: List.replicate spare [])[index]? = some bytes) : bytes = [] := by
  obtain ⟨index, rfl⟩ := Nat.exists_eq_succ_of_ne_zero hindex.ne'
  rw [List.getElem?_cons_succ, List.getElem?_replicate] at hget
  split_ifs at hget
  simpa using hget.symm

/-- Assumes: a file that opens in file order, whose id lists have at most 64 KiB, whose records as
file order meets them have no data behind them, and whose rounds have at most `2 ^ 32` readings.

It opens in time order too. For every number of calls in file order, as many calls in time order as
the complete rounds have readings return these rounds one after the other, each stably sorted by the
time of its readings with the reading that ends it last; every number of calls in time order is
covered. The readings that are returned are a permutation of those in file order. -/
theorem timeOrder_deliversRounds (build : Build) (spare spare' : ℕ) (content : List UInt8)
    {fileReader : DataFileReader}
    (hopen : openFile build spare content .file = .ok (.ok (), fileReader))
    (hids : Loading.IdListsWithin 0x10000 build content)
    (hplain : ∀ n readings last, calls build n (opened fileReader) = .ok (readings, last) →
      PlainNext build last.reader.toReaderState last.reader.file)
    (hrounds : ∀ n readings last, calls build n (opened fileReader) = .ok (readings, last) →
      Rounds.longestRound Reading.ends 0 readings ≤ 2 ^ 32) :
    ∃ timeReader, openFile build spare' content .time = .ok (.ok (), timeReader) ∧
      (∀ n, ∃ readings last, calls build n (opened fileReader) = .ok (readings, last) ∧
        (∃ delivered last', calls build (timeOrdered readings).length (opened timeReader) =
            .ok (delivered, last') ∧
          delivered.map Reading.returned = (timeOrdered readings).map Reading.returned) ∧
        (timeOrdered readings).Perm (readings.take (timeOrdered readings).length)) ∧
      ∀ m, ∃ n readings last, calls build n (opened fileReader) = .ok (readings, last) ∧
        m ≤ (timeOrdered readings).length := by
  obtain ⟨s, hs, rfl⟩ := openFile_eq_ok.mp hopen
  set fileReader : DataFileReader := { closed spare content with
    toReaderState := s.state
    file := s.file
    buffers := s.buffer0 :: List.replicate spare []
    eventOrder := .file } with hfileReader
  set timeReader : DataFileReader := { closed spare' content with
    toReaderState := s.state
    file := s.file
    buffers := s.buffer0 :: List.replicate spare' []
    eventOrder := .time } with htimeReader
  have hbuffer : s.buffer0.length ≤ 0x10000 := by
    obtain ⟨order, headerSize, hkind, hpipe | ⟨hsize, l, hload, rfl⟩⟩ := Loading.open_cases hs
    · rw [hpipe]
      exact Nat.zero_le _
    · exact Loading.loadNormal_buffer0 hids.last hkind hsize hload
  have hfileReady : FileReady (opened fileReader).reader :=
    ⟨rfl, rfl, List.cons_ne_nil _ _, fun index bytes hindex hget ↦ spare_empty hindex hget⟩
  have htimeReady : TimeReady s.state s.file (opened timeReader).reader :=
    ⟨rfl, rfl, rfl, ⟨s.buffer0, rfl, hbuffer⟩,
      fun index bytes hindex hget ↦ spare_empty hindex hget⟩
  have hdrained : Delivers [] none (opened timeReader).reader := ⟨rfl, rfl, .nil⟩
  have hstream : PlainStream build s.state s.file := by
    intro n readings state' file' hrun
    obtain ⟨⟨readings', last⟩, hcalls, hrun'⟩ := calls_fileOrder build n hfileReady hplain
    rw [show streamRun build n s.state s.file = _ from hrun'] at hrun
    cases hrun
    exact hplain n readings' last hcalls
  refine ⟨timeReader, openFile_eq_ok.mpr ⟨s, hs, rfl⟩, fun n ↦ ?_, fun m ↦ ?_⟩
  · obtain ⟨⟨readings, last⟩, hcalls, hrun⟩ := calls_fileOrder build n hfileReady hplain
    exact ⟨readings, last, hcalls,
      calls_timeOrdered build htimeReady hdrained hstream hrun (hrounds n readings last hcalls),
      Rounds.sortedRounds_perm readings⟩
  · obtain ⟨n, readings, state', file', hrun, hle⟩ :=
      exists_timeOrdered_length build m s.state s.file
    obtain ⟨⟨readings', last⟩, hcalls, hrun'⟩ := calls_fileOrder build n hfileReady hplain
    rw [show streamRun build n s.state s.file = _ from hrun'] at hrun
    cases hrun
    exact ⟨n, readings', last, hcalls, hle⟩

end PerfDataFileReader

end Tracepoints
