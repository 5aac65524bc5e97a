import Mathlib.Data.Set.Basic
import Tracepoints.Perf.Handle

/-!
# The current event of a reader

The current event is a reference into buffers that are cleared or grow while the next event is read.
A run of calls (`HandleCalls`) carries along the events that were read: for each the reference that was
returned for it and the bytes that were taken from the file. After each call `current_event` returns the
bytes of the event, or a default-constructed `PerfEventBytes` where there is none
(`currentEvent_consistent`), in a build without assertions, as long as file order does not come from an
event to a record that the end of the file cuts off, and positions in a buffer fit into 32 bits.
-/

set_option autoImplicit false
set_option relaxedAutoImplicit false

namespace Tracepoints

open Exec DataFileReader

/-- An event that was read: the reference to it, and the bytes that were taken from the file. -/
abbrev EventRead := EventBytesRef × List UInt8

/-- A read of one event returns the event. -/
def DataFileReader.Takes (build : Build) (reader : DataFileReader) (eventBytes : EventBytesRef)
    (event : EventRead) : Prop :=
  ∃ read, readOneEvent build reader eventBytes = .ok read ∧ read.result = .ok true ∧
    event = (read.eventBytes, InputFile.consumed reader.file read.reader.file)

namespace ReaderHandle

variable (build : Build) (handle : ReaderHandle)

/-- The reference that a read of a call starts with. -/
def startRef : EventBytesRef :=
  match handle.reader.eventOrder with
  | .file => handle.currentEvent
  | .time => .default

/-- The events that a call of `move_next_event` reads. -/
def eventsOf : Set EventRead :=
  {event | handle.isOpen = true ∧
    ∃ r, ReadsAt build handle.reader r ∧ r.Takes build handle.startRef event}

/-- The events in the buffers behind a call of `move_next_event`: in file order the event is read over
the one before. -/
def eventsAfter (events : Set EventRead) : Set EventRead :=
  match handle.reader.eventOrder with
  | .file => handle.eventsOf build
  | .time => events ∪ handle.eventsOf build

/-- Behind a call with the given result of `move_next_event`, or behind another call, `current_event`
returns the bytes of the event that was read, or nothing. -/
def CurrentConsistent (events : Set EventRead) (last : Option (Except IoError Bool)) : Prop :=
  match last with
  | some (.ok true) => ∃ bytes, (handle.currentEvent, bytes) ∈ events ∧
      (∀ other, (handle.currentEvent, other) ∈ events → other = bytes) ∧
      handle.currentEventBytes build =
        .ok ⟨eventHeader build handle.reader.toReaderState (bytes.take PerfEventHeader.byteSize),
          bytes⟩
  | _ => handle.currentEventBytes build = .ok .default

/-- The condition on a read of a call: in file order it does not come from an event to a record that
the end of the file cuts off, and in time order positions in the buffer fit into 32 bits. -/
def CurrentKept (reader : DataFileReader) : Prop :=
  match handle.reader.eventOrder with
  | .file => handle.currentEvent = .default ∨
      ¬TruncatedNext build reader.toReaderState reader.file
  | .time => Addressable build reader

end ReaderHandle

/-- The runs of calls from a new reader whose reads all meet a condition: the handle, the events in its
buffers, and what the last call returned if it was `move_next_event`. -/
inductive HandleCalls (build : Build) (condition : ReaderHandle → DataFileReader → Prop) :
    ReaderHandle → Set EventRead → Option (Except IoError Bool) → Prop
  | new : HandleCalls build condition .new ∅ none
  | openFile {handle opened : ReaderHandle} {events : Set EventRead}
      {last : Option (Except IoError Bool)} {outcome : Except IoError Unit}
      (hcalls : HandleCalls build condition handle events last)
      (content : Except IoError (List UInt8)) (eventOrder : PerfDataFileEventOrder)
      (hopen : handle.openFile build content eventOrder = .ok (outcome, opened)) :
      HandleCalls build condition opened ∅ none
  | close {handle : ReaderHandle} {events : Set EventRead} {last : Option (Except IoError Bool)}
      (hcalls : HandleCalls build condition handle events last) :
      HandleCalls build condition handle.close ∅ none
  | moved {handle next : ReaderHandle} {events : Set EventRead}
      {last : Option (Except IoError Bool)} {result : Except IoError Bool}
      (hcalls : HandleCalls build condition handle events last)
      (hreads : handle.isOpen = true → ∀ reader, ReadsAt build handle.reader reader →
        condition handle reader)
      (hmoved : handle.moveNextEvent build = .ok (result, next)) :
      HandleCalls build condition next (handle.eventsAfter build events) (some result)

/-! ### What a reference denotes -/

variable {build : Build} {reader : DataFileReader}

namespace ReaderHandle

variable {handle : ReaderHandle}

theorem currentEventBytes_default (hrelease : build.debugAssertions = false)
    (h : handle.currentEvent = .default) :
    handle.currentEventBytes build = .ok .default := by
  unfold currentEventBytes PerfEventBytes.new
  rw [h, if_pos (by decide), debugAssert_release hrelease]
  rfl

/-- A reference to the bytes of an event. -/
theorem currentEventBytes_of_bytesOf (hrelease : build.debugAssertions = false) {bytes : List UInt8}
    (h : handle.reader.bytesOf handle.currentEvent = .ok bytes)
    (hlength : PerfEventHeader.byteSize ≤ bytes.length) :
    handle.currentEventBytes build =
      .ok ⟨eventHeader build handle.reader.toReaderState (bytes.take PerfEventHeader.byteSize),
        bytes⟩ := by
  have hrange : handle.currentEvent.stop - handle.currentEvent.start = bytes.length := by
    unfold bytesOf at h
    obtain ⟨buffer, _, hslice⟩ := bind_eq_ok.1 h
    unfold slice at hslice
    split_ifs at hslice with hbounds
    rw [← Except.ok.inj hslice, List.length_take, List.length_drop]
    omega
  unfold currentEventBytes PerfEventBytes.new
  rw [if_neg (by omega), h, ok_bind, slice_of_le (Nat.zero_le _) hlength, ok_bind,
    debugAssert_release hrelease]
  rfl

end ReaderHandle

namespace DataFileReader

/-- One read returns one event. -/
theorem Takes.eq {eventBytes : EventBytesRef} {event : EventRead} {read : ReadResult}
    (h : reader.Takes build eventBytes event)
    (hread : readOneEvent build reader eventBytes = .ok read) :
    read.result = .ok true ∧
      event = (read.eventBytes, InputFile.consumed reader.file read.reader.file) := by
  obtain ⟨other, hother, hresult, heq⟩ := h
  rw [hread] at hother
  obtain rfl := Except.ok.inj hother
  exact ⟨hresult, heq⟩

/-! ### Time order -/

/-- The buffers hold the events that were read, and the queue refers to them. -/
structure Buffered (reader : DataFileReader) (events : Set EventRead) : Prop where
  spare : SpareEmpty reader
  holds : ∀ event ∈ events, reader.bytesOf event.1 = .ok event.2 ∧
    PerfEventHeader.byteSize ≤ event.2.length
  queued : ∀ entry ∈ reader.eventQueue, ∃ bytes, (entry.bytesRef, bytes) ∈ events
  pending : reader.eventQueuePendingResult ≠ some (.ok true)

/-- One iteration of the loop that fills the queue. -/
theorem Buffered.fillStep {events : Set EventRead} {step : Bool × DataFileReader}
    (hbuffered : Buffered reader events) (haddressable : Addressable build reader)
    (h : fillStep build reader = .ok step) :
    Buffered step.2 (events ∪ {event | reader.Takes build .default event}) ∧
      step.2.eventOrder = reader.eventOrder := by
  obtain ⟨read, hread, hcases⟩ := fillStep_cases h
  have hevent := readOneEvent_readEvent hread
  have holds : ∀ event ∈ events ∪ {event | reader.Takes build .default event},
      read.reader.bytesOf event.1 = .ok event.2 ∧
        PerfEventHeader.byteSize ≤ event.2.length := by
    rintro event (hold | hnew)
    · obtain ⟨hbytes, hlength⟩ := hbuffered.holds event hold
      exact ⟨bytesOf_of_grows hevent.grows hbytes, hlength⟩
    · obtain ⟨hresult, rfl⟩ := Takes.eq hnew hread
      exact hevent.event hresult hbuffered.spare haddressable
  have horder : read.reader.eventOrder = reader.eventOrder := by
    rw [hevent.rest]
  rcases hcases with ⟨time, sequence, hresult, heq⟩ | ⟨hresult, _, heq⟩
  · rw [heq]
    refine ⟨⟨hevent.spare hbuffered.spare, holds, ?_, ?_⟩, horder⟩
    · intro entry hentry
      rcases List.mem_append.mp hentry with hold | hnew
      · obtain ⟨bytes, hbytes⟩ := hbuffered.queued entry hold
        exact ⟨bytes, .inl hbytes⟩
      · rw [List.mem_singleton.mp hnew]
        exact ⟨_, .inr ⟨read, hread, hresult, rfl⟩⟩
    · dsimp only
      rw [hevent.rest]
      exact hbuffered.pending
  · rw [heq]
    refine ⟨⟨hevent.spare hbuffered.spare, holds, ?_, ?_⟩, horder⟩
    · intro entry hentry
      dsimp only at hentry
      rw [hevent.rest] at hentry
      obtain ⟨bytes, hbytes⟩ := hbuffered.queued entry hentry
      exact ⟨bytes, .inl hbytes⟩
    · exact fun hpending ↦ hresult (Option.some.inj hpending)

/-- The whole loop. -/
theorem Buffered.fillQueue {events : Set EventRead} {last : DataFileReader} (fuel : ℕ)
    (hbuffered : Buffered reader events)
    (haddressable : ∀ r, FillReads build reader r → Addressable build r)
    (h : fillQueue build fuel reader = .ok last) :
    Buffered last
        (events ∪ {event | ∃ r, FillReads build reader r ∧ r.Takes build .default event}) ∧
      last.eventOrder = reader.eventOrder := by
  induction fuel generalizing reader events with
  | zero => cases h
  | succ fuel ih =>
    rw [fillQueue_succ] at h
    obtain ⟨⟨goesOn, next⟩, hstep, h⟩ := bind_eq_ok.1 h
    obtain ⟨hnext, horder⟩ := hbuffered.fillStep (haddressable _ (.first reader)) hstep
    cases goesOn with
    | false =>
      obtain rfl := Except.ok.inj h
      refine ⟨?_, horder⟩
      rw [show {event | ∃ r, FillReads build reader r ∧ r.Takes build .default event} =
          {event | reader.Takes build .default event} from ?_]
      · exact hnext
      · ext event
        constructor
        · rintro ⟨r, hreads, htakes⟩
          cases hreads with
          | first => exact htakes
          | later hlater _ =>
            rw [hlater] at hstep
            cases hstep
        · exact fun htakes ↦ ⟨reader, .first reader, htakes⟩
    | true =>
      obtain ⟨hlast, horder'⟩ := ih hnext (fun r hr ↦ haddressable r (.later hstep hr)) h
      refine ⟨?_, horder'.trans horder⟩
      rw [show {event | ∃ r, FillReads build reader r ∧ r.Takes build .default event} =
          {event | reader.Takes build .default event} ∪
            {event | ∃ r, FillReads build next r ∧ r.Takes build .default event} from ?_]
      · rw [← Set.union_assoc]
        exact hlast
      · ext event
        constructor
        · rintro ⟨r, hreads, htakes⟩
          cases hreads with
          | first => exact .inl htakes
          | later hlater hrest =>
            rw [hlater] at hstep
            obtain ⟨_, rfl⟩ := Prod.mk.inj (Except.ok.inj hstep)
            exact .inr ⟨r, hrest, htakes⟩
        · rintro (htakes | ⟨r, hrest, htakes⟩)
          · exact ⟨reader, .first reader, htakes⟩
          · exact ⟨r, .later hstep hrest, htakes⟩

/-- Taking an event from the queue, or the pending result. -/
theorem Buffered.takeQueued {events : Set EventRead} {read : ReadResult}
    (hbuffered : Buffered reader events) (h : reader.takeQueued = some read) :
    Buffered read.reader events ∧ read.reader.eventOrder = reader.eventOrder ∧
      (read.result = .ok true ∧ (∃ bytes, (read.eventBytes, bytes) ∈ events) ∨
        read.result ≠ .ok true ∧ read.eventBytes = .default) := by
  unfold DataFileReader.takeQueued at h
  split at h
  next entry hentry =>
    obtain rfl := Option.some.inj h
    have hmem : entry ∈ reader.eventQueue := List.mem_of_getElem? hentry
    exact ⟨⟨hbuffered.spare, hbuffered.holds, hbuffered.queued, hbuffered.pending⟩, rfl,
      .inl ⟨rfl, hbuffered.queued entry hmem⟩⟩
  next =>
    split at h
    next result hresult =>
      obtain rfl := Option.some.inj h
      refine ⟨⟨hbuffered.spare, hbuffered.holds, hbuffered.queued, nofun⟩, rfl, .inr ⟨?_, rfl⟩⟩
      intro heq
      dsimp only at heq
      rw [heq] at hresult
      exact hbuffered.pending hresult
    next => cases h

end DataFileReader

/-! ### The invariant of a handle -/

namespace ReaderHandle

/-- What holds between calls. -/
structure CurrentInv (handle : ReaderHandle) (events : Set EventRead) : Prop where
  closed : handle.isOpen = false → handle.currentEvent = .default
  fileOrder : handle.reader.eventOrder = .file → SpareEmpty handle.reader ∧
    handle.reader.currentBuffer = 0 ∧ 0 < handle.reader.buffers.length
  timeOrder : handle.reader.eventOrder = .time → Buffered handle.reader events

variable {handle next : ReaderHandle} {events : Set EventRead} {result : Except IoError Bool}

theorem CurrentConsistent.of_default (hrelease : build.debugAssertions = false)
    {last : Option (Except IoError Bool)} (hlast : last ≠ some (.ok true))
    (h : handle.currentEvent = .default) : handle.CurrentConsistent build events last := by
  unfold CurrentConsistent
  split
  · exact absurd rfl hlast
  · exact currentEventBytes_default hrelease h

theorem CurrentConsistent.of_event (hrelease : build.debugAssertions = false) {bytes : List UInt8}
    (hmem : (handle.currentEvent, bytes) ∈ events)
    (hholds : ∀ other, (handle.currentEvent, other) ∈ events →
      handle.reader.bytesOf handle.currentEvent = .ok other ∧
        PerfEventHeader.byteSize ≤ other.length) :
    handle.CurrentConsistent build events (some (.ok true)) := by
  obtain ⟨hbytes, hlength⟩ := hholds bytes hmem
  refine ⟨bytes, hmem, fun other hother ↦ ?_, currentEventBytes_of_bytesOf hrelease hbytes hlength⟩
  exact Except.ok.inj ((hholds other hother).1.symm.trans hbytes)

theorem eventsOf_closed (hclosed : ¬handle.isOpen = true) : handle.eventsOf build = ∅ := by
  ext event
  exact ⟨fun h ↦ hclosed h.1, fun h ↦ absurd h (Set.notMem_empty event)⟩

/-- A call without a file changes nothing. -/
theorem CurrentInv.closed_kept (hinv : CurrentInv handle events) (hclosed : ¬handle.isOpen = true) :
    CurrentInv handle (handle.eventsAfter build events) := by
  refine ⟨hinv.closed, hinv.fileOrder, fun horder ↦ ?_⟩
  unfold eventsAfter
  rw [horder, eventsOf_closed hclosed, Set.union_empty]
  exact hinv.timeOrder horder

theorem cleared_spareEmpty (h : SpareEmpty reader) (hcurrent : reader.currentBuffer = 0) :
    SpareEmpty reader.cleared := by
  intro index bytes hindex hget
  have hindex' : 0 < index := hcurrent ▸ hindex
  rw [show reader.cleared.buffers[index]? = reader.buffers[index]? from
    List.getElem?_modify_ne _ _ hindex'.ne] at hget
  exact h index bytes hindex hget

theorem cleared_current (hcurrent : reader.currentBuffer = 0) (hlength : 0 < reader.buffers.length) :
    reader.cleared.buffers[reader.cleared.currentBuffer]? = some [] := by
  show (reader.buffers.modify 0 fun _ ↦ [])[reader.currentBuffer]? = some []
  rw [hcurrent, List.getElem?_modify, List.getElem?_eq_getElem hlength]
  rfl

/-- Positions in an empty buffer fit into 32 bits. -/
theorem addressable_empty (h : reader.buffers[reader.currentBuffer]? = some []) :
    Addressable build reader := by
  intro bytes header hbytes hrecord
  have hsize := nextRecord_size_lt hrecord
  rw [h] at hbytes
  rw [← Option.some.inj hbytes, List.length_nil]
  omega

/-- A call in file order. -/
theorem CurrentInv.fileOrder_moved (hrelease : build.debugAssertions = false)
    (hinv : CurrentInv handle events) (hopen : handle.isOpen = true)
    (horder : handle.reader.eventOrder = .file)
    (hkept : handle.currentEvent = .default ∨
      ¬TruncatedNext build handle.reader.toReaderState handle.reader.file)
    {read : ReadResult}
    (h : readOneEvent build handle.reader.cleared handle.currentEvent = .ok read) :
    CurrentInv ⟨⟨read.reader, read.eventBytes⟩, true⟩ (handle.eventsAfter build events) ∧
      CurrentConsistent build ⟨⟨read.reader, read.eventBytes⟩, true⟩
        (handle.eventsAfter build events) (some read.result) := by
  obtain ⟨hspare, hcurrent, hlength⟩ := hinv.fileOrder horder
  have hread := readOneEvent_readEvent h
  have hempty := cleared_current hcurrent hlength
  have hclearedSpare := cleared_spareEmpty hspare hcurrent
  have horder' : read.reader.eventOrder = .file := by
    rw [hread.rest]
    exact horder
  have hevents : handle.eventsAfter build events =
      {event | handle.reader.cleared.Takes build handle.currentEvent event} := by
    unfold eventsAfter eventsOf ReadsAt startRef
    rw [horder]
    ext event
    constructor
    · rintro ⟨_, r, rfl, htakes⟩
      exact htakes
    · exact fun htakes ↦ ⟨hopen, _, rfl, htakes⟩
  constructor
  · refine ⟨nofun, fun _ ↦ ⟨hread.spare hclearedSpare, (hread.stays hempty).trans hcurrent, ?_⟩,
      fun htime ↦ ?_⟩
    · exact (Nat.zero_le _).trans_lt hread.current
    · exact absurd (horder'.symm.trans htime) nofun
  · by_cases hresult : read.result = .ok true
    · rw [hresult, hevents]
      refine .of_event hrelease ⟨read, h, hresult, rfl⟩ fun other hother ↦ ?_
      obtain ⟨_, heq⟩ := Takes.eq hother h
      rw [(Prod.mk.inj heq).2]
      exact hread.event hresult hclearedSpare (addressable_empty hempty)
    · refine .of_default hrelease (fun heq ↦ hresult (Option.some.inj heq)) ?_
      rcases hread.other hresult with hdefault | ⟨hstale, htruncated⟩
      · exact hdefault
      · rcases hkept with hdefault | hnot
        · exact hstale.trans hdefault
        · exact absurd htruncated hnot

/-- A call in time order. -/
theorem CurrentInv.timeOrder_moved (hrelease : build.debugAssertions = false)
    (hinv : CurrentInv handle events) (hopen : handle.isOpen = true)
    (horder : handle.reader.eventOrder = .time)
    (hkept : ∀ r, ReadsAt build handle.reader r → Addressable build r) {read : ReadResult}
    (h : readEventTimeOrder build handle.reader = .ok read) :
    CurrentInv ⟨⟨read.reader, read.eventBytes⟩, true⟩ (handle.eventsAfter build events) ∧
      CurrentConsistent build ⟨⟨read.reader, read.eventBytes⟩, true⟩
        (handle.eventsAfter build events) (some read.result) := by
  have hbuffered := hinv.timeOrder horder
  have hevents : handle.eventsAfter build events = events ∪ {event |
      handle.reader.takeQueued = none ∧ ∃ r, FillReads build handle.reader.drained r ∧
        r.Takes build .default event} := by
    unfold eventsAfter eventsOf ReadsAt startRef
    rw [horder]
    refine congrArg (events ∪ ·) ?_
    ext event
    constructor
    · rintro ⟨_, r, ⟨hnone, hreads⟩, htakes⟩
      exact ⟨hnone, r, hreads, htakes⟩
    · rintro ⟨hnone, r, hreads, htakes⟩
      exact ⟨hopen, r, ⟨hnone, hreads⟩, htakes⟩
  -- what is in the queue when the call takes the event from it
  obtain ⟨full, hfull, hfullOrder, htake⟩ : ∃ full : DataFileReader,
      Buffered full (handle.eventsAfter build events) ∧ full.eventOrder = .time ∧
        full.takeQueued = some read := by
    rcases readEventTimeOrder_cases h with htake | ⟨filled, hnone, hfilled, htake⟩
    · refine ⟨handle.reader, ?_, horder, htake⟩
      rw [hevents, htake]
      simpa using hbuffered
    · have hdrained : Buffered handle.reader.drained events :=
        ⟨hbuffered.spare, hbuffered.holds, nofun, hbuffered.pending⟩
      have haddressable : ∀ r, FillReads build handle.reader.drained r → Addressable build r := by
        intro r hreads
        refine hkept r ?_
        unfold ReadsAt
        rw [horder]
        exact ⟨hnone, hreads⟩
      obtain ⟨hlast, hlastOrder⟩ := hdrained.fillQueue _ haddressable hfilled
      have hall : handle.eventsAfter build events = events ∪ {event |
          ∃ r, FillReads build handle.reader.drained r ∧ r.Takes build .default event} := by
        rw [hevents, hnone]
        simp only [true_and]
      refine ⟨{ filled with eventQueue := filled.eventQueue.mergeSort entryLe }, ?_,
        hlastOrder.trans horder, htake⟩
      rw [hall]
      exact ⟨hlast.spare, hlast.holds,
        fun entry hentry ↦ hlast.queued entry (List.mem_mergeSort.mp hentry), hlast.pending⟩
  obtain ⟨hafter, horder', hread⟩ := hfull.takeQueued htake
  constructor
  · refine ⟨nofun, fun hfile ↦ ?_, fun _ ↦ hafter⟩
    exact absurd ((horder'.trans hfullOrder).symm.trans hfile) nofun
  · rcases hread with ⟨hresult, bytes, hbytes⟩ | ⟨hresult, hdefault⟩
    · rw [hresult]
      exact .of_event hrelease hbytes fun other hother ↦ hafter.holds _ hother
    · exact .of_default hrelease (fun heq ↦ hresult (Option.some.inj heq)) hdefault

/-- A call of `move_next_event`. -/
theorem CurrentInv.moved (hrelease : build.debugAssertions = false)
    (hinv : CurrentInv handle events)
    (hreads : handle.isOpen = true → ∀ r, ReadsAt build handle.reader r →
      CurrentKept build handle r)
    (h : handle.moveNextEvent build = .ok (result, next)) :
    CurrentInv next (handle.eventsAfter build events) ∧
      next.CurrentConsistent build (handle.eventsAfter build events) (some result) := by
  unfold moveNextEvent at h
  by_cases hopen : handle.isOpen = true
  · rw [if_pos hopen] at h
    obtain ⟨read, hread, h⟩ := bind_eq_ok.1 h
    obtain ⟨rfl, rfl⟩ := Prod.mk.inj (Except.ok.inj h)
    have hreads := hreads hopen
    unfold DataFileReader.moveNextEvent at hread
    unfold CurrentKept at hreads
    cases horder : handle.reader.eventOrder with
    | file =>
      rw [horder] at hread hreads
      unfold readEventFileOrder at hread
      obtain ⟨_, _, hread⟩ := bind_eq_ok.1 hread
      refine hinv.fileOrder_moved hrelease hopen horder ?_ hread
      refine hreads handle.reader.cleared ?_
      unfold ReadsAt
      rw [horder]
    | time =>
      rw [horder] at hread hreads
      exact hinv.timeOrder_moved hrelease hopen horder hreads hread
  · rw [if_neg hopen] at h
    obtain ⟨rfl, rfl⟩ := Prod.mk.inj (Except.ok.inj h)
    refine ⟨hinv.closed_kept hopen, .of_default hrelease nofun ?_⟩
    exact hinv.closed (Bool.eq_false_iff.mpr hopen)

/-- A reader with empty buffers behind the first one. -/
theorem CurrentInv.fresh {reader : DataFileReader} {first : List UInt8} {spare : ℕ} (isOpen : Bool)
    (hbuffers : reader.buffers = first :: List.replicate spare []) (hcurrent : reader.currentBuffer = 0)
    (hqueue : reader.eventQueue = []) (hpending : reader.eventQueuePendingResult = none) :
    CurrentInv ⟨⟨reader, .default⟩, isOpen⟩ ∅ := by
  have hspare : SpareEmpty reader := by
    intro index bytes hindex hget
    rw [hcurrent] at hindex
    obtain ⟨index, rfl⟩ := Nat.exists_eq_succ_of_ne_zero hindex.ne'
    rw [hbuffers, List.getElem?_cons_succ] at hget
    exact List.eq_of_mem_replicate (List.mem_of_getElem? hget)
  refine ⟨fun _ ↦ rfl, fun _ ↦ ⟨hspare, hcurrent, ?_⟩, fun _ ↦ ⟨hspare, ?_, ?_, ?_⟩⟩
  · show 0 < reader.buffers.length
    rw [hbuffers]
    exact Nat.succ_pos _
  · exact fun event hevent ↦ absurd hevent (Set.notMem_empty event)
  · intro entry hentry
    rw [show reader.eventQueue = [] from hqueue] at hentry
    cases hentry
  · show reader.eventQueuePendingResult ≠ some (.ok true)
    rw [hpending]
    exact nofun

/-- `open_file`, whether it succeeds or not. -/
theorem openFile_currentInv {opened : ReaderHandle} {content : Except IoError (List UInt8)}
    {eventOrder : PerfDataFileEventOrder} {outcome : Except IoError Unit}
    (h : handle.openFile build content eventOrder = .ok (outcome, opened)) :
    CurrentInv opened ∅ ∧ opened.currentEvent = .default := by
  unfold ReaderHandle.openFile at h
  cases content with
  | error error =>
    obtain ⟨_, rfl⟩ := Prod.mk.inj (Except.ok.inj h)
    exact ⟨.fresh false rfl rfl rfl rfl, rfl⟩
  | ok content =>
    dsimp only at h
    obtain ⟨⟨result, reader⟩, hopen, h⟩ := bind_eq_ok.1 h
    obtain ⟨_, rfl⟩ := Prod.mk.inj (Except.ok.inj h)
    unfold DataFileReader.openFile at hopen
    dsimp only at hopen
    obtain ⟨⟨result, s⟩, _, hreader⟩ := bind_eq_ok.1 hopen
    obtain ⟨_, rfl⟩ := Prod.mk.inj (Except.ok.inj hreader)
    exact ⟨.fresh _ rfl rfl rfl rfl, rfl⟩

end ReaderHandle

/-- The invariant holds behind every call, and the current event is consistent. -/
theorem HandleCalls.currentInv {handle : ReaderHandle} {events : Set EventRead}
    {last : Option (Except IoError Bool)} (hrelease : build.debugAssertions = false)
    (h : HandleCalls build (ReaderHandle.CurrentKept build) handle events last) :
    handle.CurrentInv events ∧ handle.CurrentConsistent build events last := by
  induction h with
  | new => exact ⟨.fresh false rfl rfl rfl rfl, .of_default hrelease nofun rfl⟩
  | openFile _ content eventOrder hopen _ =>
    obtain ⟨hinv, hdefault⟩ := ReaderHandle.openFile_currentInv hopen
    exact ⟨hinv, .of_default hrelease nofun hdefault⟩
  | close _ _ => exact ⟨.fresh false rfl rfl rfl rfl, .of_default hrelease nofun rfl⟩
  | moved _ hreads hmoved ih => exact ih.1.moved hrelease hreads hmoved

/-- Behind every call of a run, in a build without assertions: `current_event` returns the bytes of the
event that `move_next_event` moved to, and a default-constructed `PerfEventBytes` behind every other
call. Assumes: no call in file order comes from an event to a record that the end of the file cuts off,
and no buffer of time order grows beyond positions of 32 bits. -/
theorem currentEvent_consistent {handle : ReaderHandle} {events : Set EventRead}
    {last : Option (Except IoError Bool)} (hrelease : build.debugAssertions = false)
    (h : HandleCalls build (ReaderHandle.CurrentKept build) handle events last) :
    handle.CurrentConsistent build events last :=
  (h.currentInv hrelease).2

/-! ### A record that is cut off -/

/-- A stream in pipe mode: a sample with eight bytes of data, and some bytes behind it. -/
def sampleThen (behind : List UInt8) : List UInt8 :=
  PerfFileHeaderPipe.toBytes .little ⟨perfile2MagicHostEndian, PerfFileHeaderPipe.byteSize⟩ ++
    PerfEventHeader.toBytes .little ⟨PerfEventHeaderType.sample, 0, 16⟩ ++ [1, 2, 3, 4, 5, 6, 7, 8] ++
    behind

/-- The handle that opened such a stream, behind a number of calls of `move_next_event`. -/
def sampleHandle (behind : List UInt8) : ℕ → ReaderHandle
  | 0 =>
    match ReaderHandle.new.openFile releaseBuild (.ok (sampleThen behind)) .file with
    | .ok (_, opened) => opened
    | .error _ => .new
  | count + 1 =>
    match (sampleHandle behind count).moveNextEvent releaseBuild with
    | .ok (_, next) => next
    | .error _ => .new

/-- The header of a sample whose data is missing. -/
def cutOff : List UInt8 := PerfEventHeader.toBytes .little ⟨PerfEventHeaderType.sample, 0, 16⟩

/-- In file order a call reads once. -/
theorem HandleCalls.next {condition : ReaderHandle → DataFileReader → Prop}
    {handle next : ReaderHandle} {events : Set EventRead} {last : Option (Except IoError Bool)}
    {result : Except IoError Bool} (hcalls : HandleCalls build condition handle events last)
    (horder : handle.reader.eventOrder = .file) (hcondition : condition handle handle.reader.cleared)
    (hmoved : handle.moveNextEvent build = .ok (result, next)) :
    HandleCalls build condition next (handle.eventsAfter build events) (some result) := by
  refine .moved hcalls (fun _ reader hreads ↦ ?_) hmoved
  unfold ReadsAt at hreads
  rw [horder] at hreads
  rw [hreads]
  exact hcondition

/-- The sample is the current event behind the first call, and there is none behind the second one. -/
theorem sampleThen_consistent :
    (∃ events, HandleCalls releaseBuild (ReaderHandle.CurrentKept releaseBuild) (sampleHandle [] 1)
        events (some (.ok true)) ∧
      (sampleHandle [] 1).CurrentConsistent releaseBuild events (some (.ok true))) ∧
    ∃ events, HandleCalls releaseBuild (ReaderHandle.CurrentKept releaseBuild) (sampleHandle [] 2)
        events (some (.ok false)) ∧
      (sampleHandle [] 2).CurrentConsistent releaseBuild events (some (.ok false)) := by
  have hopened : HandleCalls releaseBuild (ReaderHandle.CurrentKept releaseBuild)
      (sampleHandle [] 0) ∅ none :=
    .openFile .new (.ok (sampleThen [])) .file
      (show ReaderHandle.new.openFile releaseBuild (.ok (sampleThen [])) .file =
        .ok (.ok (), sampleHandle [] 0) by decide +kernel)
  have hfirst := hopened.next (show (sampleHandle [] 0).reader.eventOrder = .file by decide +kernel)
    (Or.inl (show (sampleHandle [] 0).currentEvent = .default by decide +kernel))
    (show (sampleHandle [] 0).moveNextEvent releaseBuild = .ok (.ok true, sampleHandle [] 1) by
      decide +kernel)
  have hend : nextRecord releaseBuild (sampleHandle [] 1).reader.cleared.toReaderState
      (sampleHandle [] 1).reader.cleared.file = none := by decide +kernel
  have hkept : ReaderHandle.CurrentKept releaseBuild (sampleHandle [] 1)
      (sampleHandle [] 1).reader.cleared := by
    refine .inr ?_
    rintro ⟨header, hheader, _⟩
    cases hend.symm.trans hheader
  have hsecond := hfirst.next (show (sampleHandle [] 1).reader.eventOrder = .file by decide +kernel)
    hkept
    (show (sampleHandle [] 1).moveNextEvent releaseBuild = .ok (.ok false, sampleHandle [] 2) by
      decide +kernel)
  exact ⟨⟨_, hfirst, currentEvent_consistent rfl hfirst⟩, _, hsecond,
    currentEvent_consistent rfl hsecond⟩

/-- A header without its data behind the sample: the second call fails, and the reference to the sample
stays, beyond what is left in the buffer. With assertions `current_event` panics where there is no
event. -/
theorem sampleThen_stale :
    (∃ events, HandleCalls releaseBuild (fun _ _ ↦ True)
        (sampleHandle cutOff 2) events (some (.error .unexpectedEof)) ∧
      (sampleHandle cutOff 2).currentEventBytes releaseBuild =
        .error .indexOutOfRange ∧
      ¬(sampleHandle cutOff 2).CurrentConsistent releaseBuild events
        (some (.error .unexpectedEof))) ∧
    HandleCalls ⟨true, .little, true⟩ (fun _ _ ↦ True) ReaderHandle.new.close ∅ none ∧
      ReaderHandle.new.close.currentEventBytes ⟨true, .little, true⟩ = .error .assertion := by
  have hopened : HandleCalls releaseBuild (fun _ _ ↦ True)
      (sampleHandle cutOff 0) ∅ none :=
    .openFile .new (.ok (sampleThen cutOff)) .file
      (show ReaderHandle.new.openFile releaseBuild (.ok (sampleThen cutOff)) .file =
        .ok (.ok (), sampleHandle cutOff 0) by decide +kernel)
  have hfirst := hopened.next
    (show (sampleHandle cutOff 0).reader.eventOrder = .file by decide +kernel)
    trivial
    (show (sampleHandle cutOff 0).moveNextEvent releaseBuild = .ok (.ok true, sampleHandle cutOff 1) by
      decide +kernel)
  have hsecond := hfirst.next
    (show (sampleHandle cutOff 1).reader.eventOrder = .file by decide +kernel)
    trivial
    (show (sampleHandle cutOff 1).moveNextEvent releaseBuild =
        .ok (.error .unexpectedEof, sampleHandle cutOff 2) by decide +kernel)
  have hpanics : (sampleHandle cutOff 2).currentEventBytes releaseBuild =
      .error .indexOutOfRange := by decide +kernel
  refine ⟨⟨_, hsecond, hpanics, fun hconsistent ↦ ?_⟩, .close .new, by decide +kernel⟩
  cases hpanics.symm.trans hconsistent

end Tracepoints
