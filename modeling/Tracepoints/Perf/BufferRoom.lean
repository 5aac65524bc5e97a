import Tracepoints.Perf.AttrOffsets

/-!
# The room in the buffers

`read_one_event` (`tracepoint_perf/src/file_reader.rs`) relies on a current buffer of at most 64 KiB
with a capacity of at least 64 KiB, and on empty buffers behind it. Three things fill a buffer:
records, which are placed only where they fit; data behind a record (`trailingSize`); and the id
list that `load_attrs` leaves in the first buffer. `readOneEvent_room` is the step lemma, `BufferRun` are
the runs in which neither of the last two outgrows a buffer and no buffer is trimmed, and
`bufferRun_entryOk` says that in those every read starts as it should. `auxStream_overfull` is a stream
in which one does not.

Capacities are not part of the reader here. They are numbers beside the buffers, of which only the
documented behaviour of `Vec` is used: all operations but `shrink_to_fit` keep or raise them.
-/

set_option autoImplicit false
set_option relaxedAutoImplicit false

namespace Tracepoints

open Exec

namespace DataFileReader

variable (build : Build) (reader : DataFileReader)

/-! ### Data behind a record -/

/-- Where a record of a size is placed: behind what is in the current buffer, or at the start of the
next one. -/
def placed (bytes : List UInt8) (size : ℕ) : ℕ :=
  if normalEventMaxSize - bytes.length < size then 0 else bytes.length

/-- The width of the size of the data behind a record of the given type. -/
def trailingWidth (ty : ℕ) : ℕ :=
  if ty = PerfEventHeaderType.headerTracingData then 4
  else if ty = PerfEventHeaderType.auxtrace then 8
  else 0

/-- The size of the data behind the record at the cursor that is read into the buffer, where the record
is placed at a position. -/
def trailingSize (header : PerfEventHeader) (position : ℕ) : ℕ :=
  let width := trailingWidth header.ty
  let dataSize := reader.sessionInfo.byteReader.ofBytes
    ((recordData reader.file header.size).take width)
  if width ≤ header.size - PerfEventHeader.byteSize ∧ dataSize < 2 ^ 31 ∧ dataSize % 8 = 0 ∧
      reader.file.innerPos + header.size + dataSize ≤ reader.dataEndFilePos ∧
      position + header.size + dataSize < 2 ^ 31 ∧
      reader.file.cursor + header.size + dataSize ≤ reader.file.content.length then dataSize
  else 0

/-- The record at the cursor, with the data behind it, fits into the buffer it is placed in. -/
def TrailingFits : Prop :=
  ∀ bytes header, reader.buffers[reader.currentBuffer]? = some bytes →
    nextRecord build reader.toReaderState reader.file = some header →
    placed bytes header.size + header.size +
      reader.trailingSize header (placed bytes header.size) ≤ normalEventMaxSize

/-! ### One read -/

variable {build reader}

/-- What `read_post_event_data` takes into the current buffer: nothing, or the data of an acceptable
size. -/
theorem readPostEventData_post {dataSize : ℕ} {bytes : List UInt8}
    (hbytes : reader.buffers[reader.currentBuffer]? = some bytes)
    {result : Except IoError Unit × DataFileReader}
    (h : readPostEventData reader dataSize = .ok result) :
    ∃ post, result.2.buffers = (reader.taken post).buffers ∧
      result.2.currentBuffer = reader.currentBuffer ∧
      (post ≠ 0 → post = dataSize ∧ dataSize < 2 ^ 31 ∧ dataSize % 8 = 0 ∧
        reader.file.innerPos + dataSize ≤ reader.dataEndFilePos ∧
        bytes.length + dataSize < 2 ^ 31 ∧
        reader.file.cursor + dataSize ≤ reader.file.content.length) := by
  have hnothing : ∀ after : DataFileReader, after.buffers = reader.buffers →
      after.currentBuffer = reader.currentBuffer →
      ∃ post, after.buffers = (reader.taken post).buffers ∧
        after.currentBuffer = reader.currentBuffer ∧
        (post ≠ 0 → post = dataSize ∧ dataSize < 2 ^ 31 ∧ dataSize % 8 = 0 ∧
          reader.file.innerPos + dataSize ≤ reader.dataEndFilePos ∧
          bytes.length + dataSize < 2 ^ 31 ∧
          reader.file.cursor + dataSize ≤ reader.file.content.length) := by
    intro after hbuffers hcurrent
    refine ⟨0, ?_, hcurrent, fun hne ↦ absurd rfl hne⟩
    rw [taken_zero]
    exact hbuffers
  unfold readPostEventData buffer at h
  rw [hbytes] at h
  obtain ⟨left, hleft, h⟩ := bind_eq_ok.1 h
  dsimp only at h
  rw [ok_bind] at h
  split_ifs at h with hrejected hlong
  · obtain rfl := Except.ok.inj h
    exact hnothing reader rfl rfl
  · obtain rfl := Except.ok.inj h
    exact hnothing reader rfl rfl
  · have hend : left = reader.dataEndFilePos - reader.file.innerPos ∧
        reader.file.innerPos ≤ reader.dataEndFilePos := by
      unfold sub at hleft
      split_ifs at hleft with hle
      exact ⟨(Except.ok.inj hleft).symm, hle⟩
    rcases readAppend_cases reader dataSize with ⟨hle, heq⟩ | ⟨_, heq⟩
    · rw [heq] at h
      obtain rfl := Except.ok.inj h
      exact ⟨dataSize, rfl, rfl, fun _ ↦ ⟨rfl, by omega, by omega, by omega, by omega, hle⟩⟩
    · rw [heq] at h
      obtain rfl := Except.ok.inj h
      exact hnothing reader.atEnd rfl rfl

/-- What the special cases take into the current buffer behind an event. Assumes: a reader whose current
buffer holds the event. -/
theorem processEvent_post {header : PerfEventHeader} {headerPos : ℕ} {bytes : List UInt8}
    (hbytes : reader.buffers[reader.currentBuffer]? = some bytes)
    {result : Except IoError Unit × DataFileReader}
    (h : processEvent build reader header headerPos = .ok result) :
    ∃ post, result.2.buffers = (reader.taken post).buffers ∧
      result.2.currentBuffer = reader.currentBuffer ∧
      (post ≠ 0 → trailingWidth header.ty ≤ header.size - PerfEventHeader.byteSize ∧
        post = reader.sessionInfo.byteReader.ofBytes
          ((bytes.drop (headerPos + PerfEventHeader.byteSize)).take (trailingWidth header.ty)) ∧
        post < 2 ^ 31 ∧ post % 8 = 0 ∧ reader.file.innerPos + post ≤ reader.dataEndFilePos ∧
        bytes.length + post < 2 ^ 31 ∧ reader.file.cursor + post ≤ reader.file.content.length) := by
  have hread : ∀ {width dataSize : ℕ} {data : List UInt8},
      readUInt reader.sessionInfo.byteReader width data 0 = .ok dataSize →
      dataSize = reader.sessionInfo.byteReader.ofBytes (data.take width) := by
    intro width dataSize data hread
    unfold readUInt at hread
    split_ifs at hread
    exact (Except.ok.inj hread).symm
  unfold processEvent buffer at h
  rw [hbytes] at h
  dsimp only at h
  rw [ok_bind] at h
  unfold trailingWidth
  by_cases htracing : header.ty = PerfEventHeaderType.headerTracingData
  · rw [if_pos htracing] at h ⊢
    split_ifs at h with hshort
    · obtain rfl := Except.ok.inj h
      exact ⟨0, by rw [taken_zero], rfl, fun hne ↦ absurd rfl hne⟩
    · obtain ⟨dataSize, hdataSize, h⟩ := bind_eq_ok.1 h
      obtain ⟨⟨outcome, after⟩, hafter, h⟩ := bind_eq_ok.1 h
      obtain ⟨post, hbuffers, hcurrent, hpost⟩ := readPostEventData_post hbytes hafter
      have hresult : result.2.buffers = after.buffers ∧
          result.2.currentBuffer = after.currentBuffer := by
        cases outcome with
        | error error =>
          obtain rfl := Except.ok.inj h
          exact ⟨rfl, rfl⟩
        | ok _ =>
          dsimp only at h
          obtain ⟨_, _, h⟩ := bind_eq_ok.1 h
          obtain ⟨state, _, h⟩ := bind_eq_ok.1 h
          obtain rfl := Except.ok.inj h
          exact ⟨rfl, rfl⟩
      refine ⟨post, hresult.1.trans hbuffers, hresult.2.trans hcurrent, fun hne ↦ ?_⟩
      obtain ⟨rfl, hpost⟩ := hpost hne
      exact ⟨not_lt.1 hshort, hread hdataSize, hpost⟩
  · rw [if_neg htracing] at h ⊢
    by_cases haux : header.ty = PerfEventHeaderType.auxtrace
    · rw [if_pos haux] at h ⊢
      split_ifs at h with hshort
      · obtain rfl := Except.ok.inj h
        exact ⟨0, by rw [taken_zero], rfl, fun hne ↦ absurd rfl hne⟩
      · obtain ⟨dataSize, hdataSize, h⟩ := bind_eq_ok.1 h
        obtain ⟨post, hbuffers, hcurrent, hpost⟩ := readPostEventData_post hbytes h
        refine ⟨post, hbuffers, hcurrent, fun hne ↦ ?_⟩
        obtain ⟨rfl, hpost⟩ := hpost hne
        exact ⟨not_lt.1 hshort, hread hdataSize, hpost⟩
    · rw [if_neg haux] at h
      obtain ⟨state, _, h⟩ := bind_eq_ok.1 h
      obtain rfl := Except.ok.inj h
      exact ⟨0, by rw [taken_zero], rfl, fun hne ↦ absurd rfl hne⟩

/-- The buffer that is chosen for a record holds what the record is placed behind. -/
theorem selectBuffer_placed {size : ℕ} {base : DataFileReader} {bytes old : List UInt8}
    (hselect : selectBuffer build reader size = .ok base) (hselected : Selected reader base old)
    (hspare : SpareEmpty reader) (hbytes : reader.buffers[reader.currentBuffer]? = some bytes)
    (hroom : bytes.length ≤ normalEventMaxSize) : old.length = placed bytes size := by
  have hold := hselected.old_eq
  unfold selectBuffer buffer at hselect
  rw [hbytes] at hselect
  dsimp only at hselect
  rw [ok_bind, subUsize_of_le hroom, ok_bind] at hselect
  unfold placed
  by_cases hfull : normalEventMaxSize - bytes.length < size
  · rw [if_pos hfull] at hselect ⊢
    obtain ⟨_, _, hselect⟩ := bind_eq_ok.1 hselect
    obtain ⟨_, _, hselect⟩ := bind_eq_ok.1 hselect
    obtain rfl := Except.ok.inj hselect
    dsimp only at hold
    by_cases hnew : reader.buffers.length ≤ reader.currentBuffer + 1
    · have hlast : reader.currentBuffer + 1 = reader.buffers.length := by
        have hlt := (List.getElem?_eq_some_iff.1 hbytes).1
        omega
      rw [if_pos hnew, List.getElem?_append_right hnew, hlast, Nat.sub_self] at hold
      obtain rfl : [] = old := Option.some.inj hold
      rfl
    · rw [if_neg hnew] at hold
      rw [hspare _ _ (Nat.lt_succ_self _) hold]
      rfl
  · rw [if_neg hfull] at hselect ⊢
    obtain rfl := Except.ok.inj hselect
    rw [hbytes] at hold
    rw [Option.some.inj hold]

/-- What is taken from the file is no longer than asked for. -/
theorem taken_buffer {old : List UInt8} (count : ℕ)
    (hold : reader.buffers[reader.currentBuffer]? = some old) :
    ∃ after, (reader.taken count).buffers[reader.currentBuffer]? = some after ∧
      after.length ≤ old.length + count := by
  refine ⟨_, getElem?_modify_current hold, ?_⟩
  rw [List.length_append]
  exact Nat.add_le_add_left (List.length_take_le _ _) _

/-- A read keeps the current buffer within its size. Assumes: empty buffers behind it, and that the
record at the cursor fits with the data behind it. -/
theorem readOneEvent_room {eventBytes : EventBytesRef} {read : ReadResult} {bytes : List UInt8}
    (h : readOneEvent build reader eventBytes = .ok read) (hspare : SpareEmpty reader)
    (hbytes : reader.buffers[reader.currentBuffer]? = some bytes)
    (hroom : bytes.length ≤ normalEventMaxSize) (hfits : TrailingFits build reader) :
    ∃ after, read.reader.buffers[read.reader.currentBuffer]? = some after ∧
      after.length ≤ normalEventMaxSize := by
  obtain ⟨_, ⟨result, file, _, _, rfl⟩ | ⟨header, hrecord, hread⟩⟩ := readOneEvent_cases h
  · exact ⟨bytes, hbytes, hroom⟩
  obtain ⟨base, old, hselect, hselected, hcases⟩ := readEventData_cases hrecord hread
  have hplaced := selectBuffer_placed hselect hselected hspare hbytes hroom
  have hsize := (nextRecord_bounds hrecord).2
  have hfit := hfits bytes header hbytes hrecord
  have hold := hselected.old_eq
  have hfile : base.file = reader.file := by
    rw [hselected.rest]
    rfl
  have hstate : base.toReaderState = reader.toReaderState := by
    rw [hselected.rest]
    rfl
  rcases hcases with ⟨hcursor, processed, hprocessed, hreader, _⟩ | ⟨_, rfl⟩
  · have hevent : (base.taken header.size).buffers[base.currentBuffer]?
        = some (old ++ reader.file.bytesAt header.size) := by
      rw [← hfile]
      exact getElem?_modify_current hold
    have hlength : (old ++ reader.file.bytesAt header.size).length = old.length + header.size := by
      rw [List.length_append, InputFile.length_bytesAt hcursor]
    obtain ⟨post, hbuffers, hcurrent, hpost⟩ := processEvent_post hevent hprocessed
    obtain ⟨after, hafter, hle⟩ := taken_buffer post hevent
    rw [hreader, hbuffers, hcurrent]
    refine ⟨after, hafter, ?_⟩
    rw [hlength] at hle
    by_cases hpost0 : post = 0
    · omega
    · obtain ⟨hwidth, hdata, hsmall, hwhole, hpos, hnewEnd, hcontent⟩ := hpost hpost0
      rw [drop_append_bytesAt] at hdata
      have hreaderState : (base.taken header.size).toReaderState = reader.toReaderState := hstate
      have hinnerPos : (base.taken header.size).file.innerPos
          = reader.file.innerPos + header.size := by
        rw [← hfile]
        rfl
      have hfileCursor : (base.taken header.size).file.cursor
          = reader.file.cursor + header.size := by
        rw [← hfile]
        rfl
      have hfileContent : (base.taken header.size).file.content = reader.file.content := by
        rw [← hfile]
        rfl
      rw [hreaderState] at hdata hpos
      rw [hinnerPos] at hpos
      rw [hfileCursor, hfileContent] at hcontent
      rw [hlength, hplaced] at hnewEnd
      have htrailing : reader.trailingSize header (placed bytes header.size) = post := by
        unfold trailingSize
        dsimp only
        rw [← hdata]
        exact if_pos ⟨hwidth, hsmall, hwhole, hpos, hnewEnd, hcontent⟩
      omega
  · obtain ⟨after, hafter, hle⟩ := taken_buffer PerfEventHeader.byteSize hold
    exact ⟨after, hafter, by omega⟩

/-! ### The reads of a call -/

/-- The current buffer has at most the size it should have, and those behind it are empty. -/
structure RoomInv (reader : DataFileReader) : Prop where
  spare : SpareEmpty reader
  room : ∃ bytes, reader.buffers[reader.currentBuffer]? = some bytes ∧
    bytes.length ≤ normalEventMaxSize

/-- Buffers that grow do not become fewer. -/
theorem Grows.length_le {before after : List (List UInt8)} (h : Grows before after) :
    before.length ≤ after.length := by
  by_contra hshort
  have hlt : after.length < before.length := Nat.lt_of_not_le hshort
  obtain ⟨more, hmore⟩ := h after.length _ (List.getElem?_eq_getElem hlt)
  exact absurd (List.getElem?_eq_some_iff.1 hmore).1 (Nat.lt_irrefl _)

/-- What a part of a call in time order keeps. -/
structure RoomKept (before after : DataFileReader) : Prop where
  inv : RoomInv after
  order : after.eventOrder = before.eventOrder
  count : before.buffers.length ≤ after.buffers.length

/-- One iteration of the loop that fills the queue. -/
theorem RoomInv.fillStep {step : Bool × DataFileReader} (hinv : RoomInv reader)
    (hfits : TrailingFits build reader) (h : fillStep build reader = .ok step) :
    RoomKept reader step.2 := by
  obtain ⟨read, hread, hcases⟩ := fillStep_cases h
  have hevent := readOneEvent_readEvent hread
  obtain ⟨bytes, hbytes, hroom⟩ := hinv.room
  have hafter : RoomInv read.reader :=
    ⟨hevent.spare hinv.spare, readOneEvent_room hread hinv.spare hbytes hroom hfits⟩
  have horder : read.reader.eventOrder = reader.eventOrder := by
    rw [hevent.rest]
  rcases hcases with ⟨time, sequence, _, heq⟩ | ⟨_, _, heq⟩
  · rw [heq]
    exact ⟨⟨hafter.spare, hafter.room⟩, horder, hevent.grows.length_le⟩
  · rw [heq]
    exact ⟨⟨hafter.spare, hafter.room⟩, horder, hevent.grows.length_le⟩

/-- The whole loop. -/
theorem RoomInv.fillQueue (fuel : ℕ) {last : DataFileReader} (hinv : RoomInv reader)
    (hfits : ∀ r, FillReads build reader r → TrailingFits build r)
    (h : fillQueue build fuel reader = .ok last) : RoomKept reader last := by
  induction fuel generalizing reader with
  | zero => cases h
  | succ fuel ih =>
    rw [fillQueue_succ] at h
    obtain ⟨⟨goesOn, next⟩, hstep, h⟩ := bind_eq_ok.1 h
    have hnext := hinv.fillStep (hfits reader (.first reader)) hstep
    cases goesOn with
    | false =>
      obtain rfl := Except.ok.inj h
      exact hnext
    | true =>
      have hlast := ih hnext.inv (fun r hreads ↦ hfits r (.later hstep hreads)) h
      exact ⟨hlast.inv, hlast.order.trans hnext.order, hnext.count.trans hlast.count⟩

/-- Taking an event from the queue, or the pending result. -/
theorem RoomInv.takeQueued {read : ReadResult} (hinv : RoomInv reader)
    (h : reader.takeQueued = some read) : RoomKept reader read.reader := by
  unfold DataFileReader.takeQueued at h
  split at h
  · obtain rfl := Option.some.inj h
    exact ⟨⟨hinv.spare, hinv.room⟩, rfl, Nat.le_refl _⟩
  · split at h
    · obtain rfl := Option.some.inj h
      exact ⟨⟨hinv.spare, hinv.room⟩, rfl, Nat.le_refl _⟩
    · cases h

/-- A call in time order. -/
theorem RoomInv.readEventTimeOrder {read : ReadResult} (hinv : RoomInv reader)
    (hfits : reader.takeQueued = none → ∀ r, FillReads build reader.drained r →
      TrailingFits build r)
    (h : readEventTimeOrder build reader = .ok read) : RoomKept reader read.reader := by
  rcases readEventTimeOrder_cases h with htake | ⟨filled, hnone, hfilled, htake⟩
  · exact hinv.takeQueued htake
  · have hdrained : RoomInv reader.drained := ⟨hinv.spare, hinv.room⟩
    have hkept := hdrained.fillQueue _ (hfits hnone) hfilled
    have hsorted : RoomInv { filled with eventQueue := filled.eventQueue.mergeSort entryLe } :=
      ⟨hkept.inv.spare, hkept.inv.room⟩
    have htaken := hsorted.takeQueued htake
    exact ⟨htaken.inv, htaken.order.trans hkept.order, hkept.count.trans htaken.count⟩

/-- The readers at which the loop that fills the queue reads an event, behind reads of records that
fit. -/
inductive FittingReads (build : Build) : DataFileReader → DataFileReader → Prop
  | first (reader : DataFileReader) : FittingReads build reader reader
  | later {reader next last : DataFileReader} (hfits : TrailingFits build reader)
      (hstep : fillStep build reader = .ok (true, next)) (hrest : FittingReads build next last) :
      FittingReads build reader last

theorem FittingReads.roomKept {last : DataFileReader} (h : FittingReads build reader last)
    (hinv : RoomInv reader) : RoomKept reader last := by
  induction h with
  | first => exact ⟨hinv, rfl, Nat.le_refl _⟩
  | later hfits hstep _ ih =>
    have hnext := hinv.fillStep hfits hstep
    have hlast := ih hnext.inv
    exact ⟨hlast.inv, hlast.order.trans hnext.order, hnext.count.trans hlast.count⟩

/-- The readers with which a call of `move_next_event` enters `read_one_event`, behind reads of records
that fit. -/
def EntersAt (build : Build) (reader last : DataFileReader) : Prop :=
  match reader.eventOrder with
  | .file => last = reader.cleared
  | .time => reader.takeQueued = none ∧ FittingReads build reader.drained last

end DataFileReader

/-! ### Capacities -/

/-- `FREE_BUFFER_LARGER_THAN`. -/
def freeBufferLargerThan : ℕ := DataFileReader.normalEventMaxSize

/-- The capacities of some buffers behind operations that append, reserve or clear: none is lowered,
and a buffer that is new was made with the size of a buffer. -/
structure CapacitiesGrow (before after : List ℕ) (count : ℕ) : Prop where
  length : after.length = count
  keeps : ∀ (index capacity : ℕ), before[index]? = some capacity →
    ∃ more, after[index]? = some more ∧ capacity ≤ more
  fresh : ∀ (index capacity : ℕ), before.length ≤ index → after[index]? = some capacity →
    DataFileReader.normalEventMaxSize ≤ capacity

/-- The capacities behind `close`: it trims buffers behind the first one whose capacity is more than
they need. -/
structure Trimmed (before after : List ℕ) : Prop where
  length : after.length = before.length
  first : after[0]? = before[0]?
  keeps : ∀ (index capacity : ℕ), before[index]? = some capacity →
    capacity ≤ freeBufferLargerThan → after[index]? = some capacity

/-- The capacities behind `open_file`: it closes first, and a file that opens has a first buffer that
was reserved. -/
structure OpenCapacities (outcome : Except IoError Unit) (before after : List ℕ) : Prop where
  closed : ∃ trimmed, Trimmed before trimmed ∧ CapacitiesGrow trimmed after before.length
  reserved : outcome = .ok () → ∃ capacity, after[0]? = some capacity ∧
    DataFileReader.normalEventMaxSize ≤ capacity

/-- No buffer would be trimmed. -/
def NothingTrimmed (capacities : List ℕ) : Prop :=
  ∀ (index capacity : ℕ), 0 < index → capacities[index]? = some capacity →
    capacity ≤ freeBufferLargerThan

/-- The buffers behind the first one are large enough. -/
def LargeBehind (capacities : List ℕ) : Prop :=
  ∀ (index capacity : ℕ), 0 < index → capacities[index]? = some capacity →
    DataFileReader.normalEventMaxSize ≤ capacity

/-- There is no capacity behind a single one. -/
theorem getElem?_singleton_behind {first index capacity : ℕ} (hindex : 0 < index) :
    [first][index]? ≠ some capacity := by
  intro hget
  have hlt := (List.getElem?_eq_some_iff.1 hget).1
  simp only [List.length_singleton] at hlt
  omega

/-- One buffer, with as much room as before or more. -/
theorem CapacitiesGrow.singleton {before after : ℕ} (hle : before ≤ after) :
    CapacitiesGrow [before] [after] 1 := by
  refine ⟨rfl, fun index capacity hget ↦ ?_, fun index capacity hindex hget ↦
    absurd hget (getElem?_singleton_behind hindex)⟩
  cases index with
  | zero =>
    obtain rfl := Option.some.inj hget
    exact ⟨after, rfl, hle⟩
  | succ index => exact absurd hget (getElem?_singleton_behind index.succ_pos)

theorem CapacitiesGrow.largeBehind {before after : List ℕ} {count : ℕ}
    (h : CapacitiesGrow before after count) (hbefore : LargeBehind before) : LargeBehind after := by
  intro index capacity hindex hget
  by_cases hnew : before.length ≤ index
  · exact h.fresh index capacity hnew hget
  · have hold := List.getElem?_eq_getElem (Nat.lt_of_not_le hnew)
    obtain ⟨more, hmore, hle⟩ := h.keeps index _ hold
    rw [hget] at hmore
    obtain rfl := Option.some.inj hmore
    exact Nat.le_trans (hbefore index _ hindex hold) hle

theorem Trimmed.largeBehind {before after : List ℕ} (h : Trimmed before after)
    (htrim : NothingTrimmed before) (hbefore : LargeBehind before) : LargeBehind after := by
  intro index capacity hindex hget
  have hlt : index < before.length := by
    rw [← h.length]
    exact (List.getElem?_eq_some_iff.1 hget).1
  have hold := List.getElem?_eq_getElem hlt
  have hkept := h.keeps index _ hold (htrim index _ hindex hold)
  rw [hget] at hkept
  obtain rfl := Option.some.inj hkept
  exact hbefore index _ hindex hold

/-! ### Runs -/

open DataFileReader

/-- The runs of calls from a new reader, with the capacities of its buffers, in which a file that is
opened in time order leaves a last id list of at most 64 KiB, in time order every record fits into a
buffer with the data behind it, and no buffer has to be trimmed. -/
inductive BufferRun (build : Build) : ReaderHandle → List ℕ → Prop
  | new : BufferRun build .new [0]
  | openFile {handle opened : ReaderHandle} {capacities capacities' : List ℕ}
      {outcome : Except IoError Unit} (hrun : BufferRun build handle capacities)
      (content : Except IoError (List UInt8)) (eventOrder : PerfDataFileEventOrder)
      (hids : eventOrder = .time → ∀ bytes, content = .ok bytes →
        Loading.LastIdListWithin normalEventMaxSize build bytes)
      (htrim : NothingTrimmed capacities)
      (hopen : handle.openFile build content eventOrder = .ok (outcome, opened))
      (hcapacities : OpenCapacities outcome capacities capacities') :
      BufferRun build opened capacities'
  | close {handle : ReaderHandle} {capacities capacities' : List ℕ}
      (hrun : BufferRun build handle capacities) (htrim : NothingTrimmed capacities)
      (hcapacities : Trimmed capacities capacities') : BufferRun build handle.close capacities'
  | moved {handle next : ReaderHandle} {capacities capacities' : List ℕ}
      {result : Except IoError Bool} (hrun : BufferRun build handle capacities)
      (hfits : handle.isOpen = true → handle.reader.eventOrder = .time →
        ∀ reader, ReadsAt build handle.reader reader → TrailingFits build reader)
      (hmoved : handle.moveNextEvent build = .ok (result, next))
      (hcapacities : CapacitiesGrow capacities capacities' next.reader.buffers.length) :
      BufferRun build next capacities'

/-- What the assertions of `read_one_event` and `read_event_file_order` ask of the buffers at the entry
to a read, and what the choice of the buffer does there for a record of any size: the subtraction does
not underflow, only time order switches, and it switches to an empty buffer that is large enough. -/
structure EntryOk (build : Build) (reader : DataFileReader) (capacities : List ℕ) : Prop where
  length : ∃ bytes, reader.buffers[reader.currentBuffer]? = some bytes ∧
    bytes.length ≤ normalEventMaxSize
  capacity : ∃ capacity, capacities[reader.currentBuffer]? = some capacity ∧
    normalEventMaxSize ≤ capacity
  fileOrder : reader.eventOrder = .file → reader.currentBuffer = 0
  switch : ∀ size, size < 2 ^ 16 → ∃ next, selectBuffer build reader size = .ok next ∧
    (next = reader ∨
      reader.eventOrder = .time ∧ next.currentBuffer = reader.currentBuffer + 1 ∧
        next.currentBuffer ≤ reader.buffers.length ∧ next.buffers[next.currentBuffer]? = some [] ∧
        ∀ capacity, capacities[next.currentBuffer]? = some capacity →
          normalEventMaxSize ≤ capacity)

/-- What holds between calls. -/
structure BufferInv (handle : ReaderHandle) (capacities : List ℕ) : Prop where
  count : capacities.length = handle.reader.buffers.length
  current : handle.reader.currentBuffer < handle.reader.buffers.length
  spare : SpareEmpty handle.reader
  fileOrder : handle.reader.eventOrder = .file → handle.reader.currentBuffer = 0
  room : handle.isOpen = true → handle.reader.eventOrder = .time → RoomInv handle.reader
  behind : LargeBehind capacities
  first : handle.isOpen = true → ∃ capacity, capacities[0]? = some capacity ∧
    normalEventMaxSize ≤ capacity

/-! ### The invariant -/

variable {build : Build} {handle next : ReaderHandle} {capacities capacities' : List ℕ}

namespace BufferInv

/-- A reader with empty buffers behind the first one. -/
theorem fresh {reader : DataFileReader} {first : List UInt8} {spare : ℕ} {isOpen : Bool}
    (hbuffers : reader.buffers = first :: List.replicate spare [])
    (hcurrent : reader.currentBuffer = 0)
    (hcount : capacities.length = spare + 1) (hbehind : LargeBehind capacities)
    (hroom : isOpen = true → reader.eventOrder = .time → first.length ≤ normalEventMaxSize)
    (hfirst : isOpen = true → ∃ capacity, capacities[0]? = some capacity ∧
      normalEventMaxSize ≤ capacity) :
    BufferInv ⟨⟨reader, .default⟩, isOpen⟩ capacities := by
  have hspare : SpareEmpty reader := by
    intro index bytes hindex hget
    rw [hcurrent] at hindex
    obtain ⟨index, rfl⟩ := Nat.exists_eq_succ_of_ne_zero hindex.ne'
    rw [hbuffers, List.getElem?_cons_succ] at hget
    exact List.eq_of_mem_replicate (List.mem_of_getElem? hget)
  have hlength : reader.buffers.length = spare + 1 := by
    rw [hbuffers, List.length_cons, List.length_replicate]
  constructor
  · exact hcount.trans hlength.symm
  · change reader.currentBuffer < reader.buffers.length
    omega
  · exact hspare
  · exact fun _ ↦ hcurrent
  · intro hopen horder
    refine ⟨hspare, first, ?_, hroom hopen horder⟩
    change reader.buffers[reader.currentBuffer]? = some first
    rw [hcurrent, hbuffers]
    rfl
  · exact hbehind
  · exact hfirst

/-- The number of buffers behind the first one. -/
theorem length_eq (hinv : BufferInv handle capacities) :
    capacities.length = handle.reader.buffers.length - 1 + 1 := by
  have hcount := hinv.count
  have hcurrent := hinv.current
  omega

theorem close (hinv : BufferInv handle capacities) (htrim : NothingTrimmed capacities)
    (hcapacities : Trimmed capacities capacities') : BufferInv handle.close capacities' :=
  fresh rfl rfl (hcapacities.length.trans hinv.length_eq) (hcapacities.largeBehind htrim hinv.behind)
    (fun hopen ↦ nomatch hopen) (fun hopen ↦ nomatch hopen)

/-- What a file that opens leaves in the first buffer. -/
theorem open_buffer0 {content : List UInt8} {s : OpenState}
    (hids : Loading.LastIdListWithin normalEventMaxSize build content)
    (hopen : OpenState.open_ build (Loading.openStart content) = .ok (.ok (), s)) :
    s.buffer0.length ≤ normalEventMaxSize := by
  obtain ⟨order, headerSize, hkind, hpipe | ⟨hsize, l, hload, rfl⟩⟩ := Loading.open_cases hopen
  · rw [hpipe]
    exact Nat.zero_le _
  · exact Loading.loadNormal_buffer0 hids hkind hsize hload

theorem openFile {content : Except IoError (List UInt8)} {eventOrder : PerfDataFileEventOrder}
    {outcome : Except IoError Unit} {opened : ReaderHandle} (hinv : BufferInv handle capacities)
    (hids : eventOrder = .time → ∀ bytes, content = .ok bytes →
      Loading.LastIdListWithin normalEventMaxSize build bytes)
    (htrim : NothingTrimmed capacities)
    (hopen : handle.openFile build content eventOrder = .ok (outcome, opened))
    (hcapacities : OpenCapacities outcome capacities capacities') :
    BufferInv opened capacities' := by
  obtain ⟨trimmed, htrimmed, hgrow⟩ := hcapacities.closed
  have hcount : capacities'.length = handle.reader.buffers.length - 1 + 1 :=
    hgrow.length.trans hinv.length_eq
  have hbehind : LargeBehind capacities' :=
    hgrow.largeBehind (htrimmed.largeBehind htrim hinv.behind)
  unfold ReaderHandle.openFile at hopen
  cases content with
  | error error =>
    obtain ⟨_, rfl⟩ := Prod.mk.inj (Except.ok.inj hopen)
    exact fresh rfl rfl hcount hbehind (fun h ↦ nomatch h) (fun h ↦ nomatch h)
  | ok content =>
    dsimp only at hopen
    obtain ⟨⟨result, reader⟩, hread, hopen⟩ := bind_eq_ok.1 hopen
    obtain ⟨rfl, rfl⟩ := Prod.mk.inj (Except.ok.inj hopen)
    unfold DataFileReader.openFile at hread
    dsimp only at hread
    obtain ⟨⟨result', s⟩, hstate, hread⟩ := bind_eq_ok.1 hread
    obtain ⟨rfl, rfl⟩ := Prod.mk.inj (Except.ok.inj hread)
    have hok : result'.isOk = true → result' = .ok () := by
      intro h
      cases result' with
      | ok _ => rfl
      | error _ => cases h
    refine fresh rfl rfl hcount hbehind (fun h horder ↦ ?_) (fun h ↦ hcapacities.reserved (hok h))
    rw [hok h] at hstate
    exact open_buffer0 (hids horder content rfl) hstate

/-- A call of `move_next_event`. -/
theorem moved {result : Except IoError Bool} (hinv : BufferInv handle capacities)
    (hfits : handle.isOpen = true → handle.reader.eventOrder = .time →
      ∀ reader, ReadsAt build handle.reader reader → TrailingFits build reader)
    (hmoved : handle.moveNextEvent build = .ok (result, next))
    (hcapacities : CapacitiesGrow capacities capacities' next.reader.buffers.length) :
    BufferInv next capacities' := by
  have hbehind := hcapacities.largeBehind hinv.behind
  have hfirst : handle.isOpen = true → ∃ capacity, capacities'[0]? = some capacity ∧
      normalEventMaxSize ≤ capacity := by
    intro hopen
    obtain ⟨capacity, hget, hle⟩ := hinv.first hopen
    obtain ⟨more, hmore, hgrown⟩ := hcapacities.keeps 0 capacity hget
    exact ⟨more, hmore, hle.trans hgrown⟩
  unfold ReaderHandle.moveNextEvent at hmoved
  by_cases hopen : handle.isOpen = true
  · rw [if_pos hopen] at hmoved
    obtain ⟨read, hread, hmoved⟩ := bind_eq_ok.1 hmoved
    obtain ⟨rfl, rfl⟩ := Prod.mk.inj (Except.ok.inj hmoved)
    unfold DataFileReader.moveNextEvent at hread
    unfold ReadsAt at hfits
    cases horder : handle.reader.eventOrder with
    | file =>
      rw [horder] at hread
      unfold readEventFileOrder at hread
      obtain ⟨_, _, hread⟩ := bind_eq_ok.1 hread
      have hevent := readOneEvent_readEvent hread
      have hcurrent := hinv.fileOrder horder
      have hempty := ReaderHandle.cleared_current hcurrent (Nat.lt_of_le_of_lt (Nat.zero_le _) hinv.current)
      have hstays : read.reader.currentBuffer = 0 := (hevent.stays hempty).trans hcurrent
      have horder' : read.reader.eventOrder = .file := by
        rw [hevent.rest]
        exact horder
      constructor
      · exact hcapacities.length
      · exact hevent.current
      · exact hevent.spare (ReaderHandle.cleared_spareEmpty hinv.spare hcurrent)
      · exact fun _ ↦ hstays
      · intro _ htime
        exact absurd (horder'.symm.trans htime) (by decide)
      · exact hbehind
      · exact fun _ ↦ hfirst hopen
    | time =>
      rw [horder] at hread hfits
      have hkept := (hinv.room hopen horder).readEventTimeOrder
        (fun hnone r hreads ↦ hfits hopen rfl r ⟨hnone, hreads⟩) hread
      obtain ⟨bytes, hbytes, _⟩ := hkept.inv.room
      constructor
      · exact hcapacities.length
      · exact (List.getElem?_eq_some_iff.1 hbytes).1
      · exact hkept.inv.spare
      · intro hfile
        exact absurd ((hkept.order.trans horder).symm.trans hfile) (by decide)
      · exact fun _ _ ↦ hkept.inv
      · exact hbehind
      · exact fun _ ↦ hfirst hopen
  · rw [if_neg hopen] at hmoved
    obtain ⟨_, rfl⟩ := Prod.mk.inj (Except.ok.inj hmoved)
    exact ⟨hcapacities.length, hinv.current, hinv.spare, hinv.fileOrder, hinv.room, hbehind, hfirst⟩

end BufferInv

/-- The invariant holds in every run. -/
theorem BufferRun.bufferInv (h : BufferRun build handle capacities) :
    BufferInv handle capacities := by
  induction h with
  | new =>
    refine BufferInv.fresh rfl rfl rfl ?_ (fun h ↦ nomatch h) (fun h ↦ nomatch h)
    intro index capacity hindex hget
    exact absurd hget (getElem?_singleton_behind hindex)
  | openFile _ content eventOrder hids htrim hopen hcapacities ih =>
    exact ih.openFile hids htrim hopen hcapacities
  | close _ htrim hcapacities ih => exact ih.close htrim hcapacities
  | moved _ hfits hmoved hcapacities ih => exact ih.moved hfits hmoved hcapacities

/-! ### Entries -/

/-- The choice of a buffer where the current one has room: it does not fault, and it switches only to
an empty buffer. Assumes: time order, or an empty current buffer. -/
theorem DataFileReader.RoomInv.selectBuffer {reader : DataFileReader} (hinv : RoomInv reader)
    (horder : reader.eventOrder = .time ∨ reader.buffers[reader.currentBuffer]? = some [])
    {size : ℕ} (hsize : size < 2 ^ 16) :
    ∃ next, selectBuffer build reader size = .ok next ∧
      (next = reader ∨
        reader.eventOrder = .time ∧ next.currentBuffer = reader.currentBuffer + 1 ∧
          next.currentBuffer ≤ reader.buffers.length ∧
          next.buffers[next.currentBuffer]? = some []) := by
  obtain ⟨bytes, hbytes, hroom⟩ := hinv.room
  have hlt := (List.getElem?_eq_some_iff.1 hbytes).1
  unfold DataFileReader.selectBuffer buffer
  rw [hbytes]
  dsimp only
  rw [ok_bind, subUsize_of_le hroom, ok_bind]
  by_cases hfull : normalEventMaxSize - bytes.length < size
  · rw [if_pos hfull]
    have htime : reader.eventOrder = .time := by
      rcases horder with htime | hempty
      · exact htime
      · rw [hempty] at hbytes
        obtain rfl := Option.some.inj hbytes
        exact absurd hfull (not_lt.2 hsize.le)
    have hnext : (if reader.buffers.length ≤ reader.currentBuffer + 1 then reader.buffers ++ [[]]
        else reader.buffers)[reader.currentBuffer + 1]? = some [] := by
      by_cases hnew : reader.buffers.length ≤ reader.currentBuffer + 1
      · have hlast : reader.currentBuffer + 1 = reader.buffers.length := by omega
        rw [if_pos hnew, List.getElem?_append_right hnew, hlast, Nat.sub_self]
        rfl
      · have hold := List.getElem?_eq_getElem (Nat.lt_of_not_le hnew)
        rw [if_neg hnew, hold, hinv.spare _ _ (Nat.lt_succ_self _) hold]
    rw [debugAssert_of htime, ok_bind, debugAssert_of hnext, ok_bind]
    exact ⟨_, rfl, Or.inr ⟨htime, rfl, hlt, hnext⟩⟩
  · rw [if_neg hfull]
    exact ⟨reader, rfl, Or.inl rfl⟩

/-- A read may be entered with a reader that has room and capacities that have grown. -/
theorem BufferInv.entryOk {reader : DataFileReader} (hinv : BufferInv handle capacities)
    (hopen : handle.isOpen = true) (hroom : RoomInv reader)
    (hfile : reader.eventOrder = .file → reader.currentBuffer = 0)
    (horder : reader.eventOrder = .time ∨ reader.buffers[reader.currentBuffer]? = some [])
    (hcapacities : CapacitiesGrow capacities capacities' reader.buffers.length) :
    EntryOk build reader capacities' := by
  have hbehind := hcapacities.largeBehind hinv.behind
  constructor
  · exact hroom.room
  · by_cases hzero : reader.currentBuffer = 0
    · obtain ⟨capacity, hfirst, hle⟩ := hinv.first hopen
      obtain ⟨more, hmore, hgrown⟩ := hcapacities.keeps 0 capacity hfirst
      rw [hzero]
      exact ⟨more, hmore, hle.trans hgrown⟩
    · obtain ⟨bytes, hbytes, _⟩ := hroom.room
      have hlt := (List.getElem?_eq_some_iff.1 hbytes).1
      rw [← hcapacities.length] at hlt
      have hget := List.getElem?_eq_getElem hlt
      exact ⟨_, hget, hbehind _ _ (Nat.pos_of_ne_zero hzero) hget⟩
  · exact hfile
  · intro size hsize
    obtain ⟨next, hnext, hcases⟩ := hroom.selectBuffer horder hsize
    refine ⟨next, hnext, ?_⟩
    rcases hcases with hsame | ⟨htime, hcurrent, hle, hempty⟩
    · exact Or.inl hsame
    · refine Or.inr ⟨htime, hcurrent, hle, hempty, ?_⟩
      intro capacity hget
      exact hbehind _ capacity (by omega) hget

/-- In every run in which no id list and no data behind a record outgrows a buffer and no buffer is
trimmed, every read is entered with a current buffer of at most 64 KiB and the capacity for that, its
subtraction does not underflow, and it switches only in time order and to an empty buffer. -/
theorem bufferRun_entryOk (h : BufferRun build handle capacities) (hopen : handle.isOpen = true)
    {reader : DataFileReader} (henters : EntersAt build handle.reader reader)
    (hcapacities : CapacitiesGrow capacities capacities' reader.buffers.length) :
    EntryOk build reader capacities' := by
  have hinv := h.bufferInv
  unfold EntersAt at henters
  cases horder : handle.reader.eventOrder with
  | file =>
    rw [horder] at henters
    obtain rfl := henters
    have hcurrent := hinv.fileOrder horder
    have hpositive : 0 < handle.reader.buffers.length := Nat.lt_of_le_of_lt (Nat.zero_le _) hinv.current
    have hempty := ReaderHandle.cleared_current hcurrent hpositive
    have hroom : RoomInv handle.reader.cleared :=
      ⟨ReaderHandle.cleared_spareEmpty hinv.spare hcurrent, [], hempty, Nat.zero_le _⟩
    exact hinv.entryOk hopen hroom (fun _ ↦ hcurrent) (Or.inr hempty) hcapacities
  | time =>
    rw [horder] at henters
    obtain ⟨_, hreads⟩ := henters
    have hroom := hinv.room hopen horder
    have hdrained : RoomInv handle.reader.drained := ⟨hroom.spare, hroom.room⟩
    have hkept := hreads.roomKept hdrained
    have htime : reader.eventOrder = .time := hkept.order.trans horder
    refine hinv.entryOk hopen hkept.inv (fun hfile ↦ ?_) (Or.inl htime) hcapacities
    exact absurd (htime.symm.trans hfile) (by decide)

/-! ### An event with data that fills a buffer -/

/-- A stream in pipe mode: an `Auxtrace` event with data behind it. -/
def auxStreamOf (size : ℕ) : List UInt8 :=
  PerfFileHeaderPipe.toBytes .little ⟨perfile2MagicHostEndian, PerfFileHeaderPipe.byteSize⟩ ++
    PerfEventHeader.toBytes .little ⟨PerfEventHeaderType.auxtrace, 0, 16⟩ ++
    ByteOrder.little.toBytes 8 size ++ List.replicate size 0

/-- The reader that opened such a stream in time order. -/
def auxReader (size : ℕ) : DataFileReader :=
  { closed 0 (auxStreamOf size) with
    sessionInfo := .new .little
    dataBeginFilePos := 16
    dataEndFilePos := 2 ^ 64 - 1
    file := ⟨auxStreamOf size, 16, 16, 0⟩
    eventOrder := .time }

/-- The handle of that reader. -/
def auxHandle (size : ℕ) : ReaderHandle := ⟨⟨auxReader size, .default⟩, true⟩

/-- The reader behind the event. -/
def auxFilled (size : ℕ) : DataFileReader :=
  { (auxReader size).taken (16 + size) with eventQueue := [⟨0, 0, ⟨0, 0, 16 + size⟩⟩] }

/-- Data behind which the event takes exactly a buffer, and data of 64 KiB. -/
def AuxSize (size : ℕ) : Prop := size = 0xFFF0 ∨ size = 0x10000

/-- Data of an acceptable size is read into the current buffer. -/
theorem readPostEventData_accepted {reader : DataFileReader} {dataSize : ℕ} {bytes : List UInt8}
    (hbytes : reader.buffers[reader.currentBuffer]? = some bytes) (height : dataSize % 8 = 0)
    (hend : reader.file.innerPos + dataSize ≤ reader.dataEndFilePos)
    (hsmall : bytes.length + dataSize < 2 ^ 31) :
    readPostEventData reader dataSize = readAppend reader dataSize := by
  unfold readPostEventData buffer
  rw [sub_of_le (by omega), ok_bind, hbytes]
  dsimp only
  rw [ok_bind, if_neg (by omega), if_neg (by omega)]

section AuxEvent

variable {size : ℕ} (hsize : AuxSize size)
include hsize

theorem length_auxStreamOf : (auxStreamOf size).length = 0x20 + size := by
  have h : (PerfFileHeaderPipe.toBytes .little ⟨perfile2MagicHostEndian, PerfFileHeaderPipe.byteSize⟩ ++
      PerfEventHeader.toBytes .little ⟨PerfEventHeaderType.auxtrace, 0, 16⟩ ++
      ByteOrder.little.toBytes 8 size).length = 0x20 := by
    rcases hsize with rfl | rfl <;> decide +kernel
  unfold auxStreamOf
  rw [List.length_append, List.length_replicate, h]

theorem auxStreamOf_kind : Loading.fileKind debugBuild (auxStreamOf size) = some (.little, 16) := by
  rcases hsize with rfl | rfl <;> decide +kernel

theorem auxReader_opened : ReaderHandle.new.openFile debugBuild (.ok (auxStreamOf size)) .time =
    .ok (.ok (), auxHandle size) := by
  have hlength : PerfFileHeaderPipe.byteSize ≤ (auxStreamOf size).length := by
    rw [length_auxStreamOf hsize]
    show 16 ≤ 0x20 + size
    omega
  have hopen := Loading.open_of_fileKind hlength (auxStreamOf_kind hsize)
  unfold Loading.openStart at hopen
  unfold ReaderHandle.openFile DataFileReader.openFile
  have hstate : (closed (ReaderHandle.new.reader.buffers.length - 1)
      (auxStreamOf size)).toReaderState = .new := rfl
  have hfile : (closed (ReaderHandle.new.reader.buffers.length - 1) (auxStreamOf size)).file =
      InputFile.new (auxStreamOf size) := rfl
  dsimp only
  rw [hstate, hfile, hopen]
  rfl

theorem auxReader_room : (auxReader size).file.cursor + (16 + size) ≤
    (auxReader size).file.content.length := by
  rw [show (auxReader size).file.content = auxStreamOf size from rfl, length_auxStreamOf hsize]
  exact le_of_eq (by show 16 + (16 + size) = _; omega)

theorem auxReader_readAppend {first second : ℕ} (hle : first + second ≤ 16 + size) :
    readAppend ((auxReader size).taken first) second =
      .ok (.ok (), (auxReader size).taken (first + second)) := by
  rcases readAppend_cases ((auxReader size).taken first) second with ⟨_, heq⟩ | ⟨hlt, _⟩
  · rw [heq, taken_taken]
  · change (auxStreamOf size).length < 16 + first + second at hlt
    rw [length_auxStreamOf hsize] at hlt
    omega

theorem length_auxBytes : ((auxReader size).file.bytesAt (16 + size)).length = 16 + size :=
  InputFile.length_bytesAt (auxReader_room hsize)

theorem auxReader_header : eventHeader debugBuild (auxReader size).toReaderState
    ((auxReader size).file.bytesAt 8) = ⟨PerfEventHeaderType.auxtrace, 0, 16⟩ := by
  rcases hsize with rfl | rfl <;> decide +kernel

theorem auxReader_processEvent :
    processEvent debugBuild ((auxReader size).taken 16) ⟨PerfEventHeaderType.auxtrace, 0, 16⟩ 0 =
      .ok (.ok (), (auxReader size).taken (16 + size)) := by
  have hbuffer : ((auxReader size).taken 16).buffer ((auxReader size).taken 16).currentBuffer =
    .ok ((auxReader size).file.bytesAt 16) := rfl
  have hdata : readUInt ((auxReader size).taken 16).sessionInfo.byteReader 8
      (((auxReader size).file.bytesAt 16).drop (0 + PerfEventHeader.byteSize)) 0 = .ok size := by
    rcases hsize with rfl | rfl <;> decide +kernel
  have hlength : ((auxReader size).file.bytesAt 16).length = 16 := by
    rcases hsize with rfl | rfl <;> decide +kernel
  have hbound : size % 8 = 0 ∧ 16 + size < 2 ^ 31 ∧ 16 + 16 + size ≤ 2 ^ 64 - 1 := by
    rcases hsize with rfl | rfl <;> decide
  unfold processEvent
  rw [hbuffer, ok_bind]
  dsimp only
  rw [if_neg (by decide), if_pos rfl, if_neg (by decide), hdata, ok_bind,
    @readPostEventData_accepted ((auxReader size).taken 16) _ ((auxReader size).file.bytesAt 16) rfl
      hbound.1 hbound.2.2 (by rw [hlength]; exact hbound.2.1)]
  exact auxReader_readAppend hsize le_rfl

theorem auxReader_readOneEvent : readOneEvent debugBuild (auxReader size) .default =
    .ok ⟨.ok true, ⟨0, 0, 16 + size⟩, (auxReader size).taken (16 + size)⟩ := by
  have hheader : InputFile.readExact PerfEventHeader.byteSize (auxReader size).file =
      .ok (.ok ((auxReader size).file.bytesAt 8), (auxReader size).file.advance 8) := by
    rcases InputFile.readExact_cases 8 (auxReader size).file with ⟨_, heq⟩ | ⟨hlt, _⟩
    · exact heq
    · change (auxStreamOf size).length < 16 + 8 at hlt
      rw [length_auxStreamOf hsize] at hlt
      omega
  have hbuffer : (auxReader size).buffer (auxReader size).currentBuffer = .ok [] := rfl
  have htaken : ({ auxReader size with file := (auxReader size).file.advance 8 } :
      DataFileReader).append ((auxReader size).file.bytesAt 8) = (auxReader size).taken 8 := rfl
  have hselect : selectBuffer debugBuild
      { auxReader size with file := (auxReader size).file.advance 8 } 16 =
        .ok { auxReader size with file := (auxReader size).file.advance 8 } := rfl
  have hstop : (16 + size) % 2 ^ 32 = 16 + size := by
    rcases hsize with rfl | rfl <;> decide
  have hinside : ((auxReader size).taken (16 + size)).file.innerPos ≤
      ((auxReader size).taken (16 + size)).dataEndFilePos := by
    rcases hsize with rfl | rfl <;> decide
  have hend : ¬(auxReader size).dataEndFilePos ≤ (auxReader size).file.innerPos ∧
      ¬(auxReader size).dataEndFilePos - (auxReader size).file.innerPos <
        PerfEventHeader.byteSize := by
    rcases hsize with rfl | rfl <;> decide
  have hdata : ((auxReader size).file.advance 8).innerPos ≤ (auxReader size).dataEndFilePos ∧
      ¬(auxReader size).dataEndFilePos - ((auxReader size).file.advance 8).innerPos <
        16 - PerfEventHeader.byteSize := by
    rcases hsize with rfl | rfl <;> decide
  unfold readOneEvent
  rw [hbuffer, ok_bind, debugAssert_of (by decide), ok_bind]
  dsimp only
  rw [if_neg hend.1, if_neg hend.2, hheader, ok_bind]
  dsimp only
  rw [auxReader_header hsize, if_neg (by decide), sub_of_le hdata.1, ok_bind, if_neg hdata.2]
  unfold readEventData
  dsimp only
  rw [hselect, ok_bind]
  change (do
    let bytes ← (auxReader size).buffer (auxReader size).currentBuffer
    _) = _
  rw [hbuffer, ok_bind, htaken]
  change (do
    let step ← readAppend ((auxReader size).taken 8) 8
    _) = _
  rw [auxReader_readAppend hsize (by omega), ok_bind]
  dsimp only
  rw [List.length_nil, auxReader_processEvent hsize, ok_bind]
  dsimp only
  have hfilled : ((auxReader size).taken (16 + size)).buffer
      ((auxReader size).taken (16 + size)).currentBuffer =
        .ok ((auxReader size).file.bytesAt (16 + size)) := rfl
  rw [debugAssert_of hinside, ok_bind, hfilled, ok_bind, length_auxBytes hsize, hstop]
  rfl

theorem auxReader_fillStep :
    fillStep debugBuild (auxReader size) = .ok (true, auxFilled size) := by
  have hstop : (([] : List UInt8).length + (16 + size)) % 2 ^ 32 = 16 + size ∧
      ([] : List UInt8).length + (16 + size) < 2 ^ 32 := by
    rcases hsize with rfl | rfl <;> decide
  have hbytes : ((auxReader size).taken (16 + size)).bytesOf ⟨0, 0, 16 + size⟩ =
      .ok ((auxReader size).file.bytesAt (16 + size)) := by
    have hold : (auxReader size).buffers[(auxReader size).currentBuffer]? = some [] := rfl
    have htaken := bytesOf_taken hold (auxReader_room hsize) hstop.2
    rw [show ([] : List UInt8).length % 2 ^ 32 = 0 from rfl, hstop.1] at htaken
    exact htaken
  have hty : readUInt ((auxReader size).taken (16 + size)).sessionInfo.byteReader 4
      ((auxReader size).file.bytesAt (16 + size)) 0 = .ok PerfEventHeaderType.auxtrace := by
    have hvalue : ((auxReader size).taken (16 + size)).sessionInfo.byteReader.ofBytes
        ((((auxReader size).file.bytesAt (16 + size)).drop 0).take 4) =
          PerfEventHeaderType.auxtrace := by
      rcases hsize with rfl | rfl <;> decide +kernel
    unfold readUInt
    rw [length_auxBytes hsize, if_pos (by omega), hvalue]
  have htime : eventTime ((auxReader size).taken (16 + size)).toReaderState
      ((auxReader size).file.bytesAt (16 + size)) = .ok 0 := by
    unfold eventTime
    dsimp only
    rw [hty, ok_bind, if_neg (by decide), if_pos (Or.inl (by decide))]
  have hcloses : closesRound ((auxReader size).taken (16 + size)).toReaderState
      ((auxReader size).file.bytesAt (16 + size)) = .ok false := by
    unfold closesRound
    rw [hty, ok_bind]
    exact congrArg Except.ok (decide_eq_false (by decide))
  unfold fillStep
  rw [auxReader_readOneEvent hsize, ok_bind]
  dsimp only
  rw [hbytes, ok_bind, htime, ok_bind, hcloses, ok_bind]
  rfl

end AuxEvent

/-! #### Data that fits -/

/-- With the data behind it the event takes exactly a buffer. -/
theorem auxReader_trailingFits : TrailingFits debugBuild (auxReader 0xFFF0) := by
  intro bytes header hbytes hrecord
  obtain rfl : [] = bytes := Option.some.inj hbytes
  unfold nextRecord at hrecord
  dsimp only at hrecord
  obtain ⟨_, hheader⟩ := Option.ite_none_right_eq_some.mp hrecord
  obtain rfl : ⟨PerfEventHeaderType.auxtrace, 0, 16⟩ = header :=
    (auxReader_header (.inl rfl)).symm.trans (Option.some.inj hheader)
  have hdata : (auxReader 0xFFF0).sessionInfo.byteReader.ofBytes
      ((recordData (auxReader 0xFFF0).file 16).take 8) = 0xFFF0 := by decide +kernel
  have htrailing : (auxReader 0xFFF0).trailingSize ⟨PerfEventHeaderType.auxtrace, 0, 16⟩ 0 ≤
      0xFFF0 := by
    unfold trailingSize
    dsimp only
    split_ifs
    · exact hdata.le
    · exact Nat.zero_le _
  have hplaced : placed [] 16 = 0 := rfl
  dsimp only
  rw [hplaced]
  exact (Nat.add_le_add_left htrailing _).trans (by decide)

/-- A read is entered with a buffer that is full; it switches to the next one. -/
theorem fullBuffer_entryOk : ∃ next,
    ReaderHandle.new.openFile debugBuild (.ok (auxStreamOf 0xFFF0)) .time =
        .ok (.ok (), auxHandle 0xFFF0) ∧
      BufferRun debugBuild (auxHandle 0xFFF0) [0x10000] ∧
      EntersAt debugBuild (auxHandle 0xFFF0).reader (auxFilled 0xFFF0) ∧
      EntryOk debugBuild (auxFilled 0xFFF0) [0x10000] ∧
      selectBuffer debugBuild (auxFilled 0xFFF0) 8 = .ok next ∧ next.currentBuffer = 1 := by
  have hopen : ReaderHandle.new.openFile debugBuild (.ok (auxStreamOf 0xFFF0)) .time =
      .ok (.ok (), auxHandle 0xFFF0) := auxReader_opened (.inl rfl)
  have hrun : BufferRun debugBuild (auxHandle 0xFFF0) [0x10000] := by
    refine .openFile .new (.ok (auxStreamOf 0xFFF0)) .time ?_ ?_ hopen ?_
    · intro _ bytes hbytes order headerSize hkind hnormal
      obtain rfl := Except.ok.inj hbytes
      rw [auxStreamOf_kind (.inl rfl)] at hkind
      obtain ⟨_, rfl⟩ := Prod.mk.inj (Option.some.inj hkind)
      exact absurd hnormal (by decide)
    · intro index capacity hindex hget
      exact absurd hget (getElem?_singleton_behind hindex)
    · exact ⟨⟨[0], ⟨rfl, rfl, fun _ _ hget _ ↦ hget⟩, .singleton (Nat.zero_le _)⟩,
        fun _ ↦ ⟨_, rfl, Nat.le_refl _⟩⟩
  have henters : EntersAt debugBuild (auxHandle 0xFFF0).reader (auxFilled 0xFFF0) :=
    ⟨rfl, .later auxReader_trailingFits (auxReader_fillStep (.inl rfl)) (.first _)⟩
  have hgrows : CapacitiesGrow [0x10000] [0x10000] (auxFilled 0xFFF0).buffers.length :=
    .singleton (Nat.le_refl _)
  have hselect : selectBuffer debugBuild (auxFilled 0xFFF0) 8 = .ok
      { auxFilled 0xFFF0 with currentBuffer := 1, buffers := (auxFilled 0xFFF0).buffers ++ [[]] } := by
    have hbuffer : (auxFilled 0xFFF0).buffer (auxFilled 0xFFF0).currentBuffer =
        .ok ((auxReader 0xFFF0).file.bytesAt (16 + 0xFFF0)) := rfl
    unfold selectBuffer
    rw [hbuffer, ok_bind, length_auxBytes (.inl rfl), subUsize_of_le (by decide), ok_bind,
      if_pos (by decide)]
    rfl
  exact ⟨_, hopen, hrun, henters, bufferRun_entryOk hrun rfl henters hgrows, hselect, rfl⟩

/-! #### Data that does not fit -/

/-- A stream in pipe mode: an `Auxtrace` event with 64 KiB of data behind it. -/
def auxStream : List UInt8 := auxStreamOf 0x10000

/-- Data behind an `Auxtrace` event takes the first buffer beyond its size in time order: the next read
is entered with a buffer of more than 64 KiB, and with assertions the call panics there. -/
theorem auxStream_overfull :
    ∃ handle reader, ReaderHandle.new.openFile debugBuild (.ok auxStream) .time =
        .ok (.ok (), handle) ∧
      ReadsAt debugBuild handle.reader reader ∧
      (∀ capacities, ¬EntryOk debugBuild reader capacities) ∧
      readOneEvent debugBuild reader .default = .error .assertion ∧
      handle.moveNextEvent debugBuild = .error .assertion := by
  have hsize : AuxSize 0x10000 := .inr rfl
  have hbuffer : (auxFilled 0x10000).buffer (auxFilled 0x10000).currentBuffer =
      .ok ((auxReader 0x10000).file.bytesAt (16 + 0x10000)) := rfl
  have hpanics : readOneEvent debugBuild (auxFilled 0x10000) .default = .error .assertion := by
    unfold readOneEvent
    rw [hbuffer, ok_bind, length_auxBytes hsize]
    rfl
  refine ⟨_, _, auxReader_opened hsize,
    ⟨rfl, .later (auxReader_fillStep hsize) (.first _)⟩, ?_, hpanics, ?_⟩
  · intro capacities hentry
    obtain ⟨bytes, hbytes, hlength⟩ := hentry.length
    obtain rfl : (auxReader 0x10000).file.bytesAt (16 + 0x10000) = bytes := Option.some.inj hbytes
    rw [length_auxBytes hsize] at hlength
    exact absurd hlength (by decide)
  · have hfill : ∀ fuel, fillQueue debugBuild (fuel + 2) (auxReader 0x10000) =
        .error .assertion := by
      intro fuel
      rw [fillQueue_succ, auxReader_fillStep hsize, ok_bind]
      dsimp only
      rw [if_pos rfl, fillQueue, hpanics]
      rfl
    have hfuel : (auxReader 0x10000).file.content.length + 1 = 0x1001f + 2 := by
      rw [show (auxReader 0x10000).file.content = auxStreamOf 0x10000 from rfl,
        length_auxStreamOf hsize]
    have hround : nextRound debugBuild (auxReader 0x10000) = .error .assertion := by
      unfold nextRound
      rw [hfuel]
      change (do
        let reader ← fillQueue debugBuild (0x1001f + 2) (auxReader 0x10000)
        _) = _
      rw [hfill]
      rfl
    have hread : readEventTimeOrder debugBuild (auxReader 0x10000) = .error .assertion := by
      unfold readEventTimeOrder
      rw [show (auxReader 0x10000).takeQueued = none from rfl, hround]
      rfl
    unfold ReaderHandle.moveNextEvent DataFileReader.moveNextEvent
    have hisOpen : (auxHandle 0x10000).isOpen = true := rfl
    rw [if_pos hisOpen]
    change (do
      let read ← readEventTimeOrder debugBuild (auxReader 0x10000)
      _) = _
    rw [hread]
    rfl

end Tracepoints
