import Tracepoints.Perf.Reader

/-!
# The events of a file as a stream

`nextEvent` reads the next event of a file without any buffer: it depends only on the parsed part
of the reader and on the file. `readOneEvent_nextEvent` says that `read_one_event` gives the result
and the bytes of `nextEvent`, whatever its buffers hold, as long as they are `Ready`, and that the
events read before stay where they are (`Grows`). Events with data behind them
(`HeaderTracingData`, `Auxtrace`) are not part of such a stream.
-/

set_option autoImplicit false
set_option relaxedAutoImplicit false

namespace Tracepoints

open Exec

/-! ### Parsing does not fault -/

theorem ReaderAttrs.addAttr_returns (build : Build) (byteReader : ByteOrder)
    {attrBytes : List UInt8} (name idsBytes : List UInt8) (attrs : ReaderAttrs)
    (hlength : attrBytes.length ≤ PerfEventAttr.byteSize) :
    Returns (attrs.addAttr build byteReader attrBytes name idsBytes) fun _ ↦ True := by
  unfold ReaderAttrs.addAttr
  rw [if_neg (by omega)]
  dsimp only
  split
  · exact .ok trivial
  · exact .ok trivial

namespace ReaderState

theorem eventDescLoop_returns (build : Build) (byteReader : ByteOrder) {data : List UInt8}
    {attrSize : ℕ} (hattrSize : PerfEventAttrSize.ver0 ≤ attrSize) (count : ℕ) {pos : ℕ}
    (attrs : ReaderAttrs) (hpos : pos ≤ data.length) :
    Returns (eventDescLoop build byteReader data attrSize count pos attrs) fun _ ↦ True := by
  have hver0 : PerfEventAttrSize.ver0 = 64 := rfl
  have hsizeOffset : PerfEventAttr.sizeOffset = 4 := rfl
  induction count generalizing pos attrs with
  | zero => exact .ok trivial
  | succ count ih =>
    unfold eventDescLoop
    rw [sub_of_le hpos, ok_bind]
    refine Returns.ite (fun _ ↦ .ok trivial) fun hroom ↦ ?_
    rw [readUInt_of_le (by omega), ok_bind, readUInt_of_le (by omega), ok_bind,
      readUInt_of_le (by omega), ok_bind]
    dsimp only
    rw [sub_of_le (by omega), ok_bind]
    refine Returns.ite (fun _ ↦ .ok trivial) fun hchecks ↦ ?_
    simp only [not_or, not_lt] at hchecks
    rw [slice_of_le (by omega) (by omega), ok_bind]
    refine Returns.ite (fun _ ↦ .ok trivial) fun _ ↦ ?_
    rw [slice_of_le (by omega) (by omega), ok_bind, slice_of_le (by omega) (by omega), ok_bind]
    refine Returns.bind (attrs.addAttr_returns build byteReader _ _ ?_) fun attrs' _ ↦ ih attrs' ?_
    · simp only [List.length_take, List.length_drop]
      omega
    · simp only [List.length_take, List.length_drop]
      omega

/-- What the parsers of event data keep: where the data ends and its byte order. -/
structure SameSource (before after : ReaderState) : Prop where
  dataEndFilePos : after.dataEndFilePos = before.dataEndFilePos
  byteReader : after.sessionInfo.byteReader = before.sessionInfo.byteReader

theorem SameSource.refl (state : ReaderState) : SameSource state state := ⟨rfl, rfl⟩

theorem parseHeaderEventDesc_returns (build : Build) (state : ReaderState) :
    Returns (state.parseHeaderEventDesc build) (SameSource state) := by
  unfold parseHeaderEventDesc
  dsimp only
  refine Returns.ite (fun _ ↦ .ok (.refl state)) fun hdata ↦ ?_
  rw [not_or, not_lt] at hdata
  rw [readUInt_of_le (by omega), ok_bind, readUInt_of_le (by omega), ok_bind]
  refine Returns.ite (fun _ ↦ .ok ⟨rfl, rfl⟩) fun hattrSize ↦ ?_
  rw [not_or, not_lt] at hattrSize
  exact (eventDescLoop_returns build _ hattrSize.1 _ _ hdata.2).bind fun _ _ ↦ .ok ⟨rfl, rfl⟩

theorem setHeader_sameSource (state : ReaderState) (index : Fin 32) (value : List UInt8) :
    SameSource state (state.setHeader index value) := ⟨rfl, rfl⟩

theorem parseHeaderClockid_sameSource (state : ReaderState) :
    SameSource state state.parseHeaderClockid := by
  unfold parseHeaderClockid
  dsimp only
  split_ifs
  · exact ⟨rfl, rfl⟩
  · exact .refl state

theorem setClockData_byteReader (session : PerfSessionInfo) (clockId wallClockNs time : ℕ) :
    (session.setClockData clockId wallClockNs time).byteReader = session.byteReader := by
  unfold PerfSessionInfo.setClockData
  split_ifs <;> rfl

theorem parseHeaderClockData_sameSource (build : Build) (state : ReaderState) :
    SameSource state (state.parseHeaderClockData build) := by
  unfold parseHeaderClockData
  dsimp only
  split
  · exact .refl state
  · generalize (if state.sessionInfo.byteSwapNeeded build then _ else _ : ClockData) = clock
    split_ifs
    · exact ⟨rfl, setClockData_byteReader _ _ _ _⟩
    · exact .refl state

theorem SameSource.trans {a b c : ReaderState} (hab : SameSource a b) (hbc : SameSource b c) :
    SameSource a c :=
  ⟨hbc.1.trans hab.1, hbc.2.trans hab.2⟩

end ReaderState

namespace DataFileReader

open ReaderState

theorem headerAttr_returns (build : Build) (state : ReaderState) (data : List UInt8) :
    Returns (headerAttr build state data) (SameSource state) := by
  have hver0 : PerfEventAttrSize.ver0 = 64 := rfl
  have hsizeOffset : PerfEventAttr.sizeOffset = 4 := rfl
  unfold headerAttr
  dsimp only
  refine Returns.ite (fun _ ↦ .ok (.refl state)) fun hlength ↦ ?_
  rw [readUInt_of_le (by omega), ok_bind]
  refine Returns.ite (fun hsize ↦ ?_) fun _ ↦ .ok (.refl state)
  rw [slice_of_le (by omega) (by omega), ok_bind, slice_of_le (by omega) (by omega), ok_bind]
  refine Returns.bind (state.attrs.addAttr_returns build _ _ _ ?_) fun _ _ ↦ .ok ⟨rfl, rfl⟩
  simp only [List.length_take, List.length_drop]
  omega

theorem headerFeature_returns (build : Build) (state : ReaderState) (data : List UInt8) :
    Returns (headerFeature build state data) (SameSource state) := by
  unfold headerFeature
  refine Returns.ite (fun _ ↦ .ok (.refl state)) fun hlength ↦ ?_
  rw [readUInt_of_le (by omega), ok_bind]
  split
  · next hindex =>
    dsimp only
    have hset := state.setHeader_sameSource ⟨_, hindex⟩ (data.drop 8)
    refine Returns.ite (fun _ ↦ .ok (hset.trans (parseHeaderClockid_sameSource _))) fun _ ↦ ?_
    exact Returns.ite (fun _ ↦ .ok (hset.trans (parseHeaderClockData_sameSource build _)))
      fun _ ↦ .ok hset
  · exact .ok (.refl state)

/-- What an event does to the parsed part does not fault. -/
theorem plainEvent_returns (build : Build) (state : ReaderState) (ty : ℕ) (data : List UInt8) :
    Returns (plainEvent build state ty data) (SameSource state) := by
  unfold plainEvent
  refine Returns.ite (fun _ ↦ headerAttr_returns build state data) fun _ ↦ ?_
  refine Returns.ite (fun _ ↦ .ok (setHeader_sameSource state _ _)) fun _ ↦ ?_
  refine Returns.ite (fun _ ↦ headerFeature_returns build state data) fun _ ↦ ?_
  exact Returns.ite (fun _ ↦ parseHeaderEventDesc_returns build state) fun _ ↦ .ok (.refl state)

/-! ### The stream -/

/-- What a call of `move_next_event` returns, with the bytes of the event it moves to. -/
inductive Returned
  | event (bytes : List UInt8)
  | finished
  | failed (error : IoError)
  deriving DecidableEq, Repr

/-- What is returned for an event has at least a header. -/
def Returned.Full : Returned → Prop
  | .event bytes => PerfEventHeader.byteSize ≤ bytes.length
  | _ => True

/-- The rest of an event with the given header. -/
def nextEventData (build : Build) (state : ReaderState) (file : InputFile)
    (headerBytes : List UInt8) (header : PerfEventHeader) :
    Exec (Returned × ReaderState × InputFile) := do
  match ← InputFile.readExact (header.size - PerfEventHeader.byteSize) file with
  | (.error error, file) => .ok (.failed error, state, file)
  | (.ok data, file) => do
    let state ← plainEvent build state header.ty data
    .ok (.event (headerBytes ++ data), state, file)

/-- The next event of a file: what is returned, and the parsed part and the file behind it. -/
def nextEvent (build : Build) (state : ReaderState) (file : InputFile) :
    Exec (Returned × ReaderState × InputFile) :=
  if state.dataEndFilePos ≤ file.innerPos then .ok (.finished, state, file)
  else if state.dataEndFilePos - file.innerPos < PerfEventHeader.byteSize then
    .ok (.failed .invalidData, state, file)
  else do
    match ← InputFile.readExact PerfEventHeader.byteSize file with
    | (.error error, file) =>
      .ok (if error = .unexpectedEof ∧ state.dataEndFilePos = 2 ^ 64 - 1 then .finished
        else .failed error, state, file)
    | (.ok headerBytes, file) =>
      let header := eventHeader build state headerBytes
      if header.size < PerfEventHeader.byteSize then .ok (.failed .invalidData, state, file)
      else if state.dataEndFilePos - file.innerPos < header.size - PerfEventHeader.byteSize then
        .ok (.failed .invalidData, state, file)
      else nextEventData build state file headerBytes header

/-- The header of the next record of a file, if there is one with a size that is acceptable. -/
def nextRecord (build : Build) (state : ReaderState) (file : InputFile) : Option PerfEventHeader :=
  let header := eventHeader build state
    ((file.content.drop file.cursor).take PerfEventHeader.byteSize)
  if file.innerPos + PerfEventHeader.byteSize ≤ state.dataEndFilePos ∧
      file.cursor + PerfEventHeader.byteSize ≤ file.content.length ∧
      PerfEventHeader.byteSize ≤ header.size ∧
      file.innerPos + header.size ≤ state.dataEndFilePos then some header
  else none

/-- The next record is not one with data behind it. -/
def PlainNext (build : Build) (state : ReaderState) (file : InputFile) : Prop :=
  ∀ header, nextRecord build state file = some header →
    header.ty ≠ PerfEventHeaderType.headerTracingData ∧ header.ty ≠ PerfEventHeaderType.auxtrace

/-! ### Buffers -/

/-- The current buffer exists and has room for `size` bytes up to its normal size, and those behind
it are empty. -/
structure Room (size : ℕ) (buffers : List (List UInt8)) (current : ℕ) : Prop where
  exists_current : ∃ bytes, buffers[current]? = some bytes ∧
    bytes.length + size ≤ normalEventMaxSize
  behind : ∀ (index : ℕ) (bytes : List UInt8), current < index → buffers[index]? = some bytes →
    bytes = []

/-- Each buffer keeps its bytes and may get more behind them. -/
def Grows (before after : List (List UInt8)) : Prop :=
  ∀ (index : ℕ) (bytes : List UInt8), before[index]? = some bytes →
    ∃ more, after[index]? = some (bytes ++ more)

theorem Grows.refl (buffers : List (List UInt8)) : Grows buffers buffers :=
  fun _ bytes h ↦ ⟨[], by rw [h, List.append_nil]⟩

theorem Grows.trans {a b c : List (List UInt8)} (hab : Grows a b) (hbc : Grows b c) :
    Grows a c := by
  intro index bytes h
  obtain ⟨more, hmore⟩ := hab index bytes h
  obtain ⟨more', hmore'⟩ := hbc index _ hmore
  exact ⟨more ++ more', by rw [hmore', List.append_assoc]⟩

/-- Appending to one buffer. -/
theorem Grows.modify (buffers : List (List UInt8)) (index : ℕ) (bytes : List UInt8) :
    Grows buffers (buffers.modify index (· ++ bytes)) := by
  intro index' bytes' h
  rw [List.getElem?_modify, h]
  by_cases hindex : index = index'
  · exact ⟨bytes, by simp [hindex]⟩
  · exact ⟨[], by simp [hindex]⟩

/-- A new buffer behind the others. -/
theorem Grows.concat (buffers : List (List UInt8)) (bytes : List UInt8) :
    Grows buffers (buffers ++ [bytes]) := by
  intro index bytes' h
  have hlt := (List.getElem?_eq_some_iff.mp h).1
  exact ⟨[], by rw [List.getElem?_append_left hlt, h, List.append_nil]⟩

/-- What a reference denotes does not change where the buffers grow. -/
theorem bytesOf_of_grows {before after : DataFileReader} {ref : EventBytesRef}
    {bytes : List UInt8} (hgrows : Grows before.buffers after.buffers)
    (h : before.bytesOf ref = .ok bytes) : after.bytesOf ref = .ok bytes := by
  unfold bytesOf buffer at h ⊢
  cases hbuffer : before.buffers[ref.bufferIndex]? with
  | none => simp [hbuffer] at h
  | some old =>
    obtain ⟨more, hmore⟩ := hgrows _ _ hbuffer
    rw [hbuffer] at h
    rw [hmore]
    change slice old ref.start ref.stop = .ok bytes at h
    change slice (old ++ more) ref.start ref.stop = .ok bytes
    unfold slice at h ⊢
    split_ifs at h with hrange
    rw [if_pos ⟨hrange.1, by rw [List.length_append]; omega⟩]
    obtain rfl : (old.drop ref.start).take (ref.stop - ref.start) = bytes := by simpa using h
    rw [List.drop_append_of_le_length (by omega), List.take_append_of_le_length]
    rw [List.length_drop]
    omega

/-- The result of `read_one_event` is what is returned, and refers to the bytes of the event. -/
def Denotes (read : ReadResult) : Returned → Prop
  | .event bytes => read.result = .ok true ∧ read.reader.bytesOf read.eventBytes = .ok bytes
  | .finished => read.result = .ok false
  | .failed error => read.result = .error error

/-- The switch to the next buffer makes room for an event. In file order the current buffer is
empty and stays the current one. -/
theorem selectBuffer_returns (build : Build) {reader : DataFileReader} {size : ℕ}
    (hroom : Room 0 reader.buffers reader.currentBuffer) (hsize : size < 0x10000)
    (horder : reader.eventOrder = .time ∨ reader.buffers[reader.currentBuffer]? = some []) :
    Returns (selectBuffer build reader size) fun reader' ↦
      ∃ buffers current, reader' = { reader with buffers := buffers, currentBuffer := current } ∧
        Room size buffers current ∧ Grows reader.buffers buffers ∧
        (reader.eventOrder = .file → current = reader.currentBuffer) := by
  obtain ⟨bytes, hbytes, hlength⟩ := hroom.exists_current
  have hmax : normalEventMaxSize = 0x10000 := rfl
  unfold selectBuffer buffer
  rw [hbytes]
  dsimp only
  rw [ok_bind, subUsize_of_le (show bytes.length ≤ normalEventMaxSize from hlength), ok_bind]
  refine Returns.ite (fun hfull ↦ ?_) fun hfits ↦ ?_
  · have htime : reader.eventOrder = .time := by
      rcases horder with h | h
      · exact h
      · rw [hbytes] at h
        obtain rfl : bytes = [] := by simpa using h
        simp only [List.length_nil] at hfull
        omega
    rw [debugAssert_of htime, ok_bind]
    have hlt := (List.getElem?_eq_some_iff.mp hbytes).1
    -- the next buffer is new, or one that is still empty
    have hnext : (if reader.buffers.length ≤ reader.currentBuffer + 1 then
        reader.buffers ++ [[]] else reader.buffers)[reader.currentBuffer + 1]? = some [] := by
      split_ifs with hend
      · rw [List.getElem?_append_right hend,
          show reader.currentBuffer + 1 - reader.buffers.length = 0 by omega]
        rfl
      · have hget := List.getElem?_eq_getElem (not_le.mp hend)
        rw [hget, hroom.behind _ _ (Nat.lt_succ_self _) hget]
    rw [debugAssert_of hnext, ok_bind]
    refine .ok ⟨_, _, rfl, ⟨⟨[], hnext, ?_⟩, ?_⟩, ?_, fun hfile ↦ ?_⟩
    · rw [List.length_nil]
      omega
    · intro index bytes' hindex hget
      split_ifs at hget with hend
      · rw [List.getElem?_append_right (by omega)] at hget
        have hzero : index - reader.buffers.length = 0 := by
          have := (List.getElem?_eq_some_iff.mp hget).1
          simpa using this
        rw [hzero] at hget
        simpa using hget.symm
      · exact hroom.behind _ _ (by omega) hget
    · split_ifs
      · exact .concat _ _
      · exact .refl _
    · rw [htime] at hfile
      cases hfile
  · refine .ok ⟨reader.buffers, reader.currentBuffer, rfl, ⟨⟨bytes, hbytes, by omega⟩, hroom.behind⟩,
      .refl _, fun _ ↦ rfl⟩

theorem Room.mono {size : ℕ} {buffers : List (List UInt8)} {current : ℕ}
    (hroom : Room size buffers current) : Room 0 buffers current := by
  obtain ⟨old, hold, hfits⟩ := hroom.exists_current
  exact ⟨⟨old, hold, by omega⟩, hroom.behind⟩

/-- Appending bytes for which there is room. -/
theorem Room.modify {size : ℕ} {buffers : List (List UInt8)} {current : ℕ} {bytes : List UInt8}
    (hroom : Room (bytes.length + size) buffers current) :
    Room size (buffers.modify current (· ++ bytes)) current := by
  obtain ⟨old, hold, hfits⟩ := hroom.exists_current
  refine ⟨⟨old ++ bytes, ?_, ?_⟩, fun index bytes' hindex hget ↦ ?_⟩
  · rw [List.getElem?_modify, hold]
    simp
  · rw [List.length_append]
    omega
  · rw [List.getElem?_modify_ne _ _ hindex.ne] at hget
    exact hroom.behind index bytes' hindex hget

/-- The reader behind a call of `read_one_event`: it has the parsed part and the file of the stream,
its buffers have grown and still have room, and in file order its current buffer is the same. -/
structure Advanced (before : DataFileReader) (state : ReaderState) (file : InputFile)
    (after : DataFileReader) : Prop where
  rest : after = { before with
    toReaderState := state, file := file, buffers := after.buffers,
    currentBuffer := after.currentBuffer }
  room : Room 0 after.buffers after.currentBuffer
  grows : Grows before.buffers after.buffers
  fileOrder : before.eventOrder = .file → after.currentBuffer = before.currentBuffer

/-- The special cases for an event without data behind it. -/
theorem processEvent_plain {build : Build} {reader : DataFileReader} {header : PerfEventHeader}
    {headerPos : ℕ} {bytes : List UInt8}
    (hplain : header.ty ≠ PerfEventHeaderType.headerTracingData ∧
      header.ty ≠ PerfEventHeaderType.auxtrace)
    (hbytes : reader.buffers[reader.currentBuffer]? = some bytes) :
    processEvent build reader header headerPos = (do
      let state ← plainEvent build reader.toReaderState header.ty
        (bytes.drop (headerPos + PerfEventHeader.byteSize))
      .ok (.ok (), { reader with toReaderState := state })) := by
  unfold processEvent buffer
  rw [hbytes]
  dsimp only
  rw [ok_bind, if_neg hplain.1, if_neg hplain.2]

/-- `read_one_event` behind the checks of the header is the stream there. -/
theorem readEventData_returns (build : Build) {reader : DataFileReader} (eventBytes : EventBytesRef)
    {headerBytes : List UInt8} {header : PerfEventHeader}
    (hroom : Room 0 reader.buffers reader.currentBuffer)
    (horder : reader.eventOrder = .time ∨ reader.buffers[reader.currentBuffer]? = some [])
    (hheaderBytes : headerBytes.length = PerfEventHeader.byteSize)
    (hsize : PerfEventHeader.byteSize ≤ header.size) (hsmall : header.size < 0x10000)
    (hend : reader.file.innerPos + (header.size - PerfEventHeader.byteSize) ≤
      reader.dataEndFilePos)
    (hplain : header.ty ≠ PerfEventHeaderType.headerTracingData ∧
      header.ty ≠ PerfEventHeaderType.auxtrace) :
    Returns (readEventData build reader eventBytes headerBytes header) fun read ↦
      ∃ returned state file,
        nextEventData build reader.toReaderState reader.file headerBytes header =
          .ok (returned, state, file) ∧
        Denotes read returned ∧ Advanced reader state file read.reader := by
  obtain ⟨reader', hselect, buffers, current, hreader', hroom', hgrows, hfile⟩ :=
    selectBuffer_returns build hroom hsmall horder
  obtain ⟨old, hold, hfits⟩ := hroom'.exists_current
  unfold readEventData nextEventData
  rw [hselect, ok_bind]
  subst hreader'
  simp only [buffer, hold, ok_bind, append, readAppend]
  have hroom1 : Room (header.size - PerfEventHeader.byteSize)
      (buffers.modify current (· ++ headerBytes)) current := by
    refine Room.modify ?_
    rwa [hheaderBytes, Nat.add_sub_cancel' hsize]
  have hgrows1 := hgrows.trans (.modify buffers current headerBytes)
  have hold1 : (buffers.modify current (· ++ headerBytes))[current]? =
      some (old ++ headerBytes) := by
    rw [List.getElem?_modify, hold]
    simp
  unfold InputFile.readExact
  split_ifs with hread
  · set data := (reader.file.content.drop reader.file.cursor).take
      (header.size - PerfEventHeader.byteSize) with hdata
    have hdataLength : data.length = header.size - PerfEventHeader.byteSize := by
      rw [hdata, List.length_take, List.length_drop]
      omega
    have hroom2 : Room 0 ((buffers.modify current (· ++ headerBytes)).modify current (· ++ data))
        current := by
      refine Room.modify ?_
      rwa [hdataLength]
    have hgrows2 := hgrows1.trans (.modify _ current data)
    have hold2 : ((buffers.modify current (· ++ headerBytes)).modify current (· ++ data))[current]? =
        some (old ++ headerBytes ++ data) := by
      rw [List.getElem?_modify, hold1]
      simp
    have hbehind : (old ++ headerBytes ++ data).drop (old.length + PerfEventHeader.byteSize) =
        data := by
      rw [← hheaderBytes, ← List.length_append, List.drop_left]
    obtain ⟨state, hstate, hsame⟩ := plainEvent_returns build reader.toReaderState header.ty data
    simp only [ok_bind]
    rw [processEvent_plain hplain hold2, hbehind, hstate, ok_bind]
    dsimp only
    rw [ok_bind]
    dsimp only
    rw [debugAssert_of (by rw [hsame.dataEndFilePos]; exact hend), ok_bind, hold2]
    refine .ok ⟨_, _, _, rfl, ⟨rfl, ?_⟩, ⟨rfl, hroom2, hgrows2, hfile⟩⟩
    simp only [bytesOf, buffer, hold2, ok_bind]
    have hmax : normalEventMaxSize = 0x10000 := rfl
    have htotal : (old ++ headerBytes ++ data).length < 2 ^ 32 := by
      simp only [List.length_append]
      omega
    rw [Nat.mod_eq_of_lt (a := old.length) (by omega), Nat.mod_eq_of_lt htotal,
      slice_of_le (by simp only [List.length_append]; omega) le_rfl, List.append_assoc,
      List.drop_left, List.take_of_length_le (by simp only [List.length_append]; omega)]
  · exact .ok ⟨_, _, _, rfl, rfl, ⟨rfl, hroom1.mono, hgrows1, hfile⟩⟩

theorem eventHeader_size_lt (build : Build) (state : ReaderState) {bytes : List UInt8}
    (hlength : bytes.length = PerfEventHeader.byteSize) :
    (eventHeader build state bytes).size < 0x10000 := by
  unfold eventHeader
  dsimp only
  split_ifs
  · exact ByteOrder.swapBytes_lt 2 _
  · refine (ByteOrder.ofBytes_lt _ _).trans_le ?_
    rw [List.length_take, List.length_drop, hlength]
    decide

/-- `read_one_event` returns what the stream does and refers to the bytes of its event. -/
theorem readOneEvent_nextEvent (build : Build) {reader : DataFileReader}
    (eventBytes : EventBytesRef) (hroom : Room 0 reader.buffers reader.currentBuffer)
    (horder : reader.eventOrder = .time ∨ reader.buffers[reader.currentBuffer]? = some [])
    (hplain : PlainNext build reader.toReaderState reader.file) :
    Returns (readOneEvent build reader eventBytes) fun read ↦
      ∃ returned state file,
        nextEvent build reader.toReaderState reader.file = .ok (returned, state, file) ∧
        Denotes read returned ∧ Advanced reader state file read.reader := by
  have hbyteSize : PerfEventHeader.byteSize = 8 := rfl
  obtain ⟨bytes, hbytes, hlength⟩ := hroom.exists_current
  rw [Nat.add_zero] at hlength
  have hsame : ∀ file, Advanced reader reader.toReaderState file { reader with file := file } :=
    fun file ↦ ⟨rfl, hroom, .refl _, fun _ ↦ rfl⟩
  unfold readOneEvent nextEvent buffer
  rw [hbytes]
  dsimp only
  rw [ok_bind, debugAssert_of hlength, ok_bind]
  by_cases hdone : reader.dataEndFilePos ≤ reader.file.innerPos
  · rw [if_pos hdone, if_pos hdone]
    exact .ok ⟨_, _, _, rfl, rfl, hsame reader.file⟩
  by_cases hshort : reader.dataEndFilePos - reader.file.innerPos < PerfEventHeader.byteSize
  · rw [if_neg hdone, if_neg hdone, if_pos hshort, if_pos hshort]
    exact .ok ⟨_, _, _, rfl, rfl, hsame reader.file⟩
  rw [if_neg hdone, if_neg hdone, if_neg hshort, if_neg hshort]
  unfold InputFile.readExact
  by_cases hread : reader.file.cursor + PerfEventHeader.byteSize ≤ reader.file.content.length
  · rw [if_pos hread, ok_bind, ok_bind]
    dsimp only
    set headerBytes := (reader.file.content.drop reader.file.cursor).take PerfEventHeader.byteSize
      with hheaderBytes
    have hheaderLength : headerBytes.length = PerfEventHeader.byteSize := by
      rw [hheaderBytes, List.length_take, List.length_drop]
      omega
    have hsmall := eventHeader_size_lt build reader.toReaderState hheaderLength
    set header := eventHeader build reader.toReaderState headerBytes with hheader
    by_cases hsize : header.size < PerfEventHeader.byteSize
    · rw [if_pos hsize, if_pos hsize]
      exact .ok ⟨_, _, _, rfl, rfl, hsame _⟩
    rw [if_neg hsize, if_neg hsize, sub_of_le (by omega), ok_bind]
    by_cases hleft : reader.dataEndFilePos - (reader.file.innerPos + PerfEventHeader.byteSize) <
        header.size - PerfEventHeader.byteSize
    · rw [if_pos hleft, if_pos hleft]
      exact .ok ⟨_, _, _, rfl, rfl, hsame _⟩
    rw [if_neg hleft, if_neg hleft]
    have hrecord : nextRecord build reader.toReaderState reader.file = some header := by
      unfold nextRecord
      rw [← hheaderBytes, ← hheader]
      exact if_pos ⟨by omega, hread, not_lt.mp hsize, by omega⟩
    refine (readEventData_returns build eventBytes ?_ ?_ hheaderLength (not_lt.mp hsize) hsmall ?_
      (hplain header hrecord)).mono ?_
    · exact hroom
    · exact horder
    · dsimp only
      omega
    · rintro read ⟨returned, state, file, hnext, hdenotes, hadvanced⟩
      exact ⟨returned, state, file, hnext, hdenotes,
        ⟨hadvanced.rest, hadvanced.room, hadvanced.grows, hadvanced.fileOrder⟩⟩
  · rw [if_neg hread, ok_bind, ok_bind]
    dsimp only
    refine .ok ⟨_, _, _, rfl, ?_, hsame _⟩
    split_ifs
    · rfl
    · rfl

end DataFileReader

end Tracepoints
