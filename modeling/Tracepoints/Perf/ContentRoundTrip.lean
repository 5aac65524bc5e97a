import Tracepoints.Perf.ArrivalOrder
import Tracepoints.Perf.LoadedFile
import Tracepoints.Perf.TimeOrder

/-!
# The content of a written file read back

A file that opens has the headers of the writer and its descriptions in front
(`headersLoaded_of_parseHeaders`), and its events: `calls_events` follows the records of the data through
the calls of `move_next_event`. `contentReadBack_of_opened` puts the three together.
-/

set_option autoImplicit false
set_option relaxedAutoImplicit false

namespace Tracepoints

open Exec

/-! ### What parsing headers keeps -/

/-- The ids and the attribute of each description. -/
def ReaderAttrs.described (attrs : ReaderAttrs) : List (List UInt64 × PerfEventAttr) :=
  attrs.eventDescList.map fun desc ↦ (desc.ids, desc.attr)

theorem PerfEventDesc.updateName_ids (desc : PerfEventDesc) :
    desc.updateName.ids = desc.ids ∧ desc.updateName.attr = desc.attr := by
  unfold updateName
  split
  · split
    · exact ⟨rfl, rfl⟩
    · exact ⟨rfl, rfl⟩
  · exact ⟨rfl, rfl⟩

theorem ReaderAttrs.described_receive (attrs : ReaderAttrs) (record : AttrRecord) :
    attrs.described <+: (attrs.receive record).described := by
  unfold ReaderAttrs.receive
  split
  · exact List.prefix_rfl
  · unfold described
    dsimp only
    rw [List.map_append]
    exact List.prefix_append _ _

theorem ReaderAttrs.described_receiveAll (attrs : ReaderAttrs) (records : List AttrRecord) :
    attrs.described <+: (attrs.receiveAll records).described := by
  induction records generalizing attrs with
  | nil => exact List.prefix_rfl
  | cons record records ih => exact (attrs.described_receive record).trans (ih (attrs.receive record))

namespace ReaderState

variable {build : Build} {state next : ReaderState}

theorem updateFormats_described (attrs : ReaderAttrs) :
    (updateFormats attrs).described = attrs.described := by
  unfold updateFormats ReaderAttrs.described
  rw [List.map_map]
  refine List.map_congr_left fun desc _ ↦ ?_
  dsimp only [Function.comp_apply]
  split
  · obtain ⟨hids, hattr⟩ := PerfEventDesc.updateName_ids { desc with format := some _ }
    exact Prod.ext hids hattr
  · rfl

/-- What a parsed header leaves as it is: the headers, the byte order and the descriptions in front. -/
structure KeepsContent (before after : ReaderState) : Prop where
  headers : after.headers = before.headers
  byteReader : after.sessionInfo.byteReader = before.sessionInfo.byteReader
  described : before.attrs.described <+: after.attrs.described

theorem keepsContent_parserKeeps (data : List UInt8) (first : ReaderState) :
    ParserKeeps data (KeepsContent first) where
  flag _ h := ⟨h.headers, h.byteReader, h.described⟩
  longSize _ _ h := ⟨h.headers, h.byteReader, h.described⟩
  pageSize _ _ h := ⟨h.headers, h.byteReader, h.described⟩
  headerPage _ _ _ h := ⟨h.headers, h.byteReader, h.described⟩
  headerEvent _ _ _ h := ⟨h.headers, h.byteReader, h.described⟩
  ftraces _ _ _ h := ⟨h.headers, h.byteReader, h.described⟩
  format state next format hformat h := by
    unfold addFormat at hformat
    obtain ⟨common, _, hformat⟩ := bind_eq_ok.1 hformat
    cases common with
    | none =>
      obtain rfl := Except.ok.inj hformat
      exact h
    | some place =>
      dsimp only at hformat
      split_ifs at hformat
      · obtain rfl := Except.ok.inj hformat
        exact ⟨h.headers, h.byteReader, h.described⟩
      · obtain rfl := Except.ok.inj hformat
        exact h
      · obtain rfl := Except.ok.inj hformat
        exact ⟨h.headers, h.byteReader, h.described⟩
  links _ h := ⟨h.headers, h.byteReader, by rw [updateFormats_described]; exact h.described⟩
  kallsyms _ _ _ h := ⟨h.headers, h.byteReader, h.described⟩
  printk _ _ _ h := ⟨h.headers, h.byteReader, h.described⟩
  cmdLine _ _ _ h := ⟨h.headers, h.byteReader, h.described⟩

theorem parseHeaderClockid_keepsContent (state : ReaderState) :
    KeepsContent state state.parseHeaderClockid := by
  refine ⟨?_, parseHeaderClockid_byteReader state, ?_⟩
  · unfold parseHeaderClockid
    dsimp only
    split_ifs <;> rfl
  · unfold parseHeaderClockid
    dsimp only
    split_ifs <;> exact List.prefix_rfl

theorem parseHeaderClockData_keepsContent (build : Build) (state : ReaderState) :
    KeepsContent state (state.parseHeaderClockData build) := by
  refine ⟨?_, parseHeaderClockData_byteReader build state, ?_⟩
  · unfold parseHeaderClockData
    dsimp only
    split_ifs <;> rfl
  · unfold parseHeaderClockData
    dsimp only
    split_ifs <;> exact List.prefix_rfl

theorem parseHeaderEventDesc_keepsContent (h : state.parseHeaderEventDesc build = .ok next) :
    KeepsContent state next := by
  obtain ⟨records, -, hattrs, -⟩ := parseHeaderEventDesc_records h
  refine ⟨?_, parseHeaderEventDesc_byteReader h, ?_⟩
  · unfold parseHeaderEventDesc at h
    dsimp only at h
    split_ifs at h
    · rw [← Except.ok.inj h]
    · obtain ⟨_, -, h⟩ := bind_eq_ok.1 h
      obtain ⟨_, -, h⟩ := bind_eq_ok.1 h
      split_ifs at h
      · rw [← Except.ok.inj h]
      · obtain ⟨_, -, h⟩ := bind_eq_ok.1 h
        rw [← Except.ok.inj h]
  · rw [hattrs]
    exact ReaderAttrs.described_receiveAll _ _

theorem parseTracingData_keepsContent (h : state.parseTracingData build = .ok next) :
    KeepsContent state next := by
  unfold parseTracingData at h
  dsimp only at h
  split_ifs at h
  · rw [← Except.ok.inj h]
    exact ⟨rfl, rfl, List.prefix_rfl⟩
  · obtain ⟨⟨outcome, last⟩, hbody, h⟩ := bind_eq_ok.1 h
    rw [← Except.ok.inj h]
    exact (tracingBody_keeps (keepsContent_parserKeeps _ state) _ _ _
      ⟨rfl, rfl, List.prefix_rfl⟩ hbody).1

theorem parseHeader_keepsContent {index : Fin 32}
    (h : OpenState.parseHeader build index state = .ok next) : KeepsContent state next := by
  unfold OpenState.parseHeader at h
  split_ifs at h
  · rw [← Except.ok.inj h]
    exact parseHeaderClockid_keepsContent state
  · rw [← Except.ok.inj h]
    exact parseHeaderClockData_keepsContent build state
  · exact parseHeaderEventDesc_keepsContent h
  · exact parseTracingData_keepsContent h
  · rw [← Except.ok.inj h]
    exact ⟨rfl, rfl, List.prefix_rfl⟩

/-- What loading the headers of a written file leaves. -/
structure HeadersLoaded (headers : Headers) (indexes : List (Fin 32)) (before after : ReaderState) :
    Prop where
  headers : ∀ index : Fin 32, after.headers.value index =
    if index ∈ indexes ∧ headers.value index ≠ [] then headers.value index
    else before.headers.value index
  byteReader : after.sessionInfo.byteReader = before.sessionInfo.byteReader
  described : before.attrs.described <+: after.attrs.described

theorem headersLoaded_of_parseHeaders {headers : Headers} {indexes : List (Fin 32)}
    (h : Loading.parseHeaders build headers indexes state = .ok next) :
    HeadersLoaded headers indexes state next := by
  induction indexes generalizing state with
  | nil =>
    rw [← Except.ok.inj h]
    exact ⟨fun index ↦ (if_neg fun hmem ↦ absurd hmem.1 List.not_mem_nil).symm, rfl,
      List.prefix_rfl⟩
  | cons first indexes ih =>
    unfold Loading.parseHeaders at h
    by_cases hempty : headers.value first = []
    · rw [if_pos hempty] at h
      obtain ⟨hheaders, hbyteReader, hdescribed⟩ := ih h
      refine ⟨fun index ↦ (hheaders index).trans (if_congr ?_ rfl rfl), hbyteReader, hdescribed⟩
      rw [List.mem_cons]
      refine ⟨fun hmem ↦ ⟨.inr hmem.1, hmem.2⟩, fun hmem ↦ ⟨?_, hmem.2⟩⟩
      exact hmem.1.resolve_left fun heq ↦ hmem.2 (heq ▸ hempty)
    · rw [if_neg hempty] at h
      obtain ⟨mid, hparse, h⟩ := bind_eq_ok.mp h
      obtain ⟨hheaders, hbyteReader, hdescribed⟩ := ih h
      have hkept := parseHeader_keepsContent hparse
      refine ⟨fun index ↦ ?_, hbyteReader.trans hkept.byteReader,
        hkept.described.trans hdescribed⟩
      rw [hheaders index, hkept.headers]
      unfold setHeader
      dsimp only
      by_cases hlater : index ∈ indexes ∧ headers.value index ≠ []
      · rw [if_pos hlater, if_pos ⟨List.mem_cons_of_mem _ hlater.1, hlater.2⟩]
      · rw [if_neg hlater]
        by_cases hsame : index = first
        · rw [hsame, if_pos ⟨List.mem_cons_self, hempty⟩]
          exact Vector.getElem_set_self _
        · rw [if_neg fun hmem ↦ hlater ⟨(List.mem_cons.mp hmem.1).resolve_left hsame, hmem.2⟩]
          exact Vector.getElem_set_ne _ _ fun heq ↦ hsame (Fin.ext heq.symm)

end ReaderState

/-! ### Events -/

namespace DataFileReader

open ReaderState

variable {build : Build} {state : ReaderState} {content bytes : List UInt8} {pos : ℕ}

/-- The bytes of an event that tells its own size and has no data behind it. -/
structure PlainEvent (build : Build) (bytes : List UInt8) : Prop where
  header_le : PerfEventHeader.byteSize ≤ bytes.length
  size : (PerfEventHeader.ofBytes build.targetEndian
    (bytes.take PerfEventHeader.byteSize)).size = bytes.length
  not_tracingData : (PerfEventHeader.ofBytes build.targetEndian
    (bytes.take PerfEventHeader.byteSize)).ty ≠ PerfEventHeaderType.headerTracingData
  not_auxtrace : (PerfEventHeader.ofBytes build.targetEndian
    (bytes.take PerfEventHeader.byteSize)).ty ≠ PerfEventHeaderType.auxtrace

/-- The header of an event at a position of a file in the byte order of the host. -/
theorem eventHeader_placed (hevent : PlainEvent build bytes) (hplaced : PlacedAt content pos bytes)
    (horder : state.sessionInfo.byteReader = build.targetEndian) :
    eventHeader build state ((content.drop pos).take PerfEventHeader.byteSize) =
      PerfEventHeader.ofBytes build.targetEndian (bytes.take PerfEventHeader.byteSize) := by
  have htake : (content.drop pos).take PerfEventHeader.byteSize =
      bytes.take PerfEventHeader.byteSize := by
    rw [← hplaced.take_drop, List.take_take, Nat.min_eq_left hevent.header_le]
  unfold eventHeader PerfSessionInfo.byteSwapNeeded
  rw [htake, horder]
  dsimp only
  rw [if_neg (by simp)]

theorem plainNext_placed (hevent : PlainEvent build bytes) (hplaced : PlacedAt content pos bytes)
    (horder : state.sessionInfo.byteReader = build.targetEndian) :
    PlainNext build state (.at_ content pos) := by
  intro header hheader
  have hsame : eventHeader build state ((content.drop pos).take PerfEventHeader.byteSize) =
      header := by
    unfold nextRecord at hheader
    dsimp only at hheader
    split_ifs at hheader
    exact Option.some.inj hheader
  rw [← hsame, eventHeader_placed hevent hplaced horder]
  exact ⟨hevent.not_tracingData, hevent.not_auxtrace⟩

/-- The next event of a file is the one that is placed there. -/
theorem nextEvent_placed (hevent : PlainEvent build bytes) (hplaced : PlacedAt content pos bytes)
    (hend : pos + bytes.length ≤ state.dataEndFilePos)
    (hdata : state.dataEndFilePos ≤ content.length)
    (horder : state.sessionInfo.byteReader = build.targetEndian) :
    Returns (nextEvent build state (.at_ content pos)) fun next ↦
      next.1 = .event bytes ∧ SameSource state next.2.1 ∧
        next.2.2 = .at_ content (pos + bytes.length) := by
  have hbyteSize : PerfEventHeader.byteSize = 8 := rfl
  have hheader := eventHeader_placed hevent hplaced horder
  have hsize := hevent.size
  have hle := hevent.header_le
  have htake : (content.drop pos).take PerfEventHeader.byteSize =
      bytes.take PerfEventHeader.byteSize := by
    rw [← hplaced.take_drop, List.take_take, Nat.min_eq_left hevent.header_le]
  have hrest : (content.drop (pos + PerfEventHeader.byteSize)).take
      (bytes.length - PerfEventHeader.byteSize) = bytes.drop PerfEventHeader.byteSize := by
    rw [← List.drop_drop, ← List.drop_take, hplaced.take_drop]
  have hpos : (InputFile.at_ content pos).innerPos = pos := rfl
  have hread := @InputFile.readExact_at content pos PerfEventHeader.byteSize (by omega)
  have hreadRest := @InputFile.readExact_at content (pos + PerfEventHeader.byteSize)
    (bytes.length - PerfEventHeader.byteSize) (by omega)
  obtain ⟨state', hstate', hsame⟩ := plainEvent_returns build state
    (PerfEventHeader.ofBytes build.targetEndian (bytes.take PerfEventHeader.byteSize)).ty
    (bytes.drop PerfEventHeader.byteSize)
  unfold nextEvent
  rw [hpos, if_neg (by omega), if_neg (by omega), hread, ok_bind]
  dsimp only
  rw [hheader, if_neg (by omega), if_neg (by
    show ¬(_ - (pos + PerfEventHeader.byteSize) < _)
    omega)]
  unfold nextEventData
  rw [hsize, hreadRest, ok_bind]
  dsimp only
  rw [hrest, hstate', ok_bind, htake, List.take_append_drop, Nat.add_assoc,
    Nat.add_sub_cancel' hle]
  exact .ok ⟨rfl, hsame, rfl⟩

end DataFileReader

namespace PerfDataFileReader

open DataFileReader ReaderState

variable {build : Build} {content : List UInt8}

/-- A reader in file order whose next bytes are at a position of a file. -/
structure ReadyAt (build : Build) (content : List UInt8) (pos stop : ℕ)
    (reader : DataFileReader) : Prop where
  ready : FileReady reader
  file : reader.file = .at_ content pos
  stop_eq : reader.dataEndFilePos = stop
  byteReader : reader.sessionInfo.byteReader = build.targetEndian

/-- At the end of the data every call is told that there is no event. -/
theorem calls_end {pos count : ℕ} {reader : PerfDataFileReader}
    (h : ReadyAt build content pos pos reader.reader) :
    Returns (calls build count reader) fun run ↦
      run.1.map Reading.returned = List.replicate count .finished := by
  induction count generalizing reader with
  | zero => exact .ok rfl
  | succ count ih =>
    have hdone : nextEvent build reader.reader.toReaderState reader.reader.file =
        .ok (.finished, reader.reader.toReaderState, reader.reader.file) := by
      unfold nextEvent
      rw [if_pos (by rw [h.stop_eq, h.file]; exact le_rfl)]
    have hplain : PlainNext build reader.reader.toReaderState reader.reader.file := by
      intro header hheader
      unfold nextRecord at hheader
      dsimp only at hheader
      rw [if_neg] at hheader
      · cases hheader
      · rw [h.file, h.stop_eq]
        dsimp only [InputFile.at_]
        have hbyteSize : PerfEventHeader.byteSize = 8 := rfl
        omega
    obtain ⟨read, hread, returned, hnext, hdenotes, hready⟩ :=
      moveNextEvent_fileOrder build reader.currentEvent h.ready hplain
    rw [hdone] at hnext
    obtain ⟨rfl, hsame⟩ := Prod.mk.inj (Except.ok.inj hnext)
    obtain ⟨hstate, hfile⟩ := Prod.mk.inj hsame
    have hafter : ReadyAt build content pos pos read.reader :=
      ⟨hready, hfile.symm.trans h.file, (congrArg dataEndFilePos hstate).symm.trans h.stop_eq,
        (congrArg (fun state ↦ state.sessionInfo.byteReader) hstate).symm.trans h.byteReader⟩
    obtain ⟨⟨readings, last⟩, hrest, hreturned⟩ := @ih ⟨read.reader, read.eventBytes⟩ hafter
    have hfull : Returned.finished.Full := trivial
    refine ⟨_, calls_succ hread hfull hdenotes rfl hrest, ?_⟩
    dsimp only
    rw [List.map_cons, List.replicate_succ]
    exact congrArg _ hreturned

/-- Calls in file order return the events that are placed one behind the other, and then tell that there
is none. -/
theorem calls_events {events : List (List UInt8)} {pos count : ℕ} {reader : PerfDataFileReader}
    (hevents : ∀ bytes ∈ events, PlainEvent build bytes)
    (hplaced : PlacedAt content pos events.flatten)
    (hend : pos + events.flatten.length ≤ content.length)
    (h : ReadyAt build content pos (pos + events.flatten.length) reader.reader) :
    Returns (calls build (events.length + count) reader) fun run ↦
      run.1.map Reading.returned = events.map .event ++ List.replicate count .finished := by
  induction events generalizing pos reader with
  | nil =>
    rw [List.length_nil, Nat.zero_add, List.map_nil, List.nil_append]
    exact calls_end h
  | cons bytes events ih =>
    rw [List.forall_mem_cons] at hevents
    rw [List.flatten_cons] at hplaced hend h
    rw [List.length_append] at hend h
    obtain ⟨hfirst, hplaced⟩ := placedAt_append.mp hplaced
    have hplain : PlainNext build reader.reader.toReaderState reader.reader.file := by
      rw [h.file]
      exact plainNext_placed hevents.1 hfirst h.byteReader
    have hstep := nextEvent_placed hevents.1 hfirst (by rw [h.stop_eq]; omega)
      (by rw [h.stop_eq]; exact hend) h.byteReader
    rw [← h.file] at hstep
    obtain ⟨read, hread, returned, hnext, hdenotes, hready⟩ :=
      moveNextEvent_fileOrder build reader.currentEvent h.ready hplain
    obtain ⟨rfl, hsame, hfile⟩ := hstep.of_eq_ok hnext
    have hfull := ((nextEvent_returns build _ _).of_eq_ok hnext).1
    obtain ⟨reading, hreading, hreturns, -⟩ := readingOf_returns read.reader.toReaderState hfull
    have hafter : ReadyAt build content (pos + bytes.length)
        (pos + bytes.length + events.flatten.length) read.reader :=
      ⟨hready, hfile, (hsame.dataEndFilePos.trans h.stop_eq).trans (Nat.add_assoc _ _ _).symm,
        hsame.byteReader.trans h.byteReader⟩
    obtain ⟨⟨readings, last⟩, hrest, hreturned⟩ :=
      @ih (pos + bytes.length) ⟨read.reader, read.eventBytes⟩ hevents.2 hplaced
        (by omega) hafter
    rw [List.length_cons, Nat.add_right_comm]
    refine ⟨_, calls_succ hread hfull hdenotes hreading hrest, ?_⟩
    dsimp only
    rw [List.map_cons, List.map_cons, List.cons_append, hreturns]
    exact congrArg _ hreturned

end PerfDataFileReader

/-! ### The round trip -/

/-- A file that a writer finalized: what was synthesized, and the image of it. -/
structure Finalized (build : Build) (calls : List WriterCall) (writer : PerfDataFileWriter)
    (file : OutputFile) (synthesized : DataFileWriter) : Prop where
  bounded : writer.inner.Bounded
  made : DataFileWriter.Synthesized build writer.inner synthesized
  content : file.content =
    synthesized.image build (calls.flatMap (WriterCall.writtenBytes build))
  fits : (synthesized.image build (calls.flatMap (WriterCall.writtenBytes build))).length ≤
    OutputFile.maxSize
  headers : ∀ index, writer.inner.header index = WriterCall.lastData build calls index
  eventDescs : writer.inner.eventDescs = calls.filterMap WriterCall.newDesc?

section RoundTrip

variable {build : Build} {calls : List WriterCall} {start writer after : PerfDataFileWriter}
  {file : OutputFile}

/-- What a run behind `create_file` collects is finalized. -/
theorem finalized_of_run (hcollects : ∀ call ∈ calls, call.Collects)
    (hrun : WriterCall.runAll build (.createFile :: calls) start = .ok (true, writer))
    (hfinal : writer.finalizeAndClose build = .ok (.ok file, after)) :
    ∃ synthesized, Finalized build calls writer file synthesized := by
  have hcreate : PerfDataFileWriter.createFile = .ok (.ok (),
      ⟨.new, some (.atEnd (List.replicate perfFileHeaderSize 0))⟩) := rfl
  obtain ⟨⟨first, created⟩, hcall, hrun⟩ := bind_eq_ok.mp hrun
  obtain ⟨⟨others, last⟩, hcalls, hrun⟩ := bind_eq_ok.mp hrun
  obtain ⟨htold, rfl⟩ := Prod.mk.inj (Except.ok.inj hrun)
  rw [Bool.and_eq_true] at htold
  rw [htold.2] at hcalls
  have hcreated : WriterCall.run build start .createFile =
      .ok (true, ⟨.new, some (.atEnd (List.replicate perfFileHeaderSize 0))⟩) := by
    unfold WriterCall.run WriterCall.written
    dsimp only
    rw [hcreate]
    rfl
  rw [hcreated] at hcall
  obtain ⟨-, rfl⟩ := Prod.mk.inj (Except.ok.inj hcall)
  have hsound : PerfDataFileWriter.Sound
      ⟨.new, some (.atEnd (List.replicate perfFileHeaderSize 0))⟩ := .createFile hcreate
  have hbounded := (WriterCall.runAll_sound hsound hcalls).bounded
  have hfront : (List.replicate perfFileHeaderSize (0 : UInt8)).length = perfFileHeaderSize :=
    List.length_replicate
  obtain ⟨hfile, hsize⟩ := WriterCall.runAll_file hcollects rfl (by rw [hfront]; decide) hcalls
  obtain ⟨synthesized, hsynthesize, hcontent, hfits, -⟩ :=
    PerfDataFileWriter.finalizeAndClose_ok hfront hsize hfile hfinal
  refine ⟨synthesized, hbounded, DataFileWriter.synthesized_of_synthesize hbounded hsynthesize,
    hcontent, hfits, fun index ↦ ?_, ?_⟩
  · exact WriterCall.header_eq_lastData (WriterCall.runAll_headers hcollects hcalls) index
  · exact WriterCall.runAll_eventDescs hcollects hcalls

/-- Assumes: headers below 2 GiB and id lists below 2^28 ids. -/
theorem Finalized.loadable {synthesized : DataFileWriter}
    (h : Finalized build calls writer file synthesized)
    (hheaders : ∀ index, (headerOf build.targetEndian file.content index).length < 2 ^ 31)
    (hids : ∀ desc ∈ calls.filterMap WriterCall.newDesc?, desc.sampleIds.length < 2 ^ 28) :
    Loading.Loadable synthesized := by
  have hsame : ∀ index, (synthesized.header index).length < 2 ^ 31 := by
    intro index
    have hheader := hheaders index
    rwa [h.content, DataFileWriter.headerOf_image h.fits] at hheader
  refine ⟨hsame, ?_, ?_⟩
  · rw [h.made.eventDescs, h.eventDescs]
    exact hids
  · have hle := @DataFileWriter.attrEntrySize_le_eventDescHeader build writer.inner.eventDescs
    rw [← h.made.eventDesc] at hle
    rw [h.made.eventDescs]
    exact hle.trans_lt (hsame _)

/-- What a reader has of what the calls of a writer collected: their headers, their descriptions in
front where these agree on their offsets, and the events that they wrote, which a reader in file order
returns. -/
structure ContentReadBack (build : Build) (calls : List WriterCall) (events : List (List UInt8))
    (eventOrder : PerfDataFileEventOrder) (reader : DataFileReader) : Prop where
  headers : ∀ index, index ≠ PerfHeaderIndex.tracingData → index ≠ PerfHeaderIndex.eventDesc →
    reader.header index = WriterCall.lastData build calls index
  descs : (∀ first ∈ calls.filterMap WriterCall.newDesc?,
      ∀ second ∈ calls.filterMap WriterCall.newDesc?,
        EventOffsets.ofAttr first.attr = EventOffsets.ofAttr second.attr) →
    ((calls.filterMap WriterCall.newDesc?).map fun desc ↦
      (desc.sampleIds, { desc.attr with size := 128 })) <+: reader.attrs.described
  events : eventOrder = .file → ∀ count, Returns
    (PerfDataFileReader.calls build (events.length + count) (PerfDataFileReader.opened reader))
    fun run ↦ run.1.map Reading.returned =
      events.map .event ++ List.replicate count .finished

/-- The descriptions that a reader receives from the attributes of a file. -/
theorem described_afterAttrs {descs : List WriterEventDesc} {l : LoadState}
    (hempty : l.state.attrs = .new)
    (hagree : ∀ first ∈ descs, ∀ second ∈ descs,
      EventOffsets.ofAttr first.attr = EventOffsets.ofAttr second.attr) :
    (Loading.afterAttrs build descs l).state.attrs.described =
      descs.map fun desc ↦ (desc.sampleIds, { desc.attr with size := 128 }) := by
  cases descs with
  | nil =>
    unfold Loading.afterAttrs
    rw [hempty]
    rfl
  | cons first rest =>
    have hrecords : (first :: rest).map Loading.attrRecord =
        ((first :: rest).map fun desc ↦
          (⟨[], desc.sampleIds, { desc.attr with size := 128 }⟩ : WriterEventDesc)).map
            WriterEventDesc.record := by
      rw [List.map_map]
      rfl
    obtain ⟨hreceived, -, -⟩ := @ReaderAttrs.received_receiveAll .new
      (.ofAttr first.attr) ((first :: rest).map fun desc ↦
        ⟨[], desc.sampleIds, { desc.attr with size := 128 }⟩) (.inl rfl)
      (by
        intro desc hdesc
        obtain ⟨old, hold, rfl⟩ := List.mem_map.mp hdesc
        exact hagree old hold first List.mem_cons_self)
      (by
        intro desc hdesc
        obtain ⟨old, -, rfl⟩ := List.mem_map.mp hdesc
        exact fun c hc ↦ absurd hc List.not_mem_nil)
    unfold Loading.afterAttrs ReaderAttrs.described
    dsimp only
    rw [hempty, hrecords, hreceived.list, List.map_append, List.map_map, List.map_map]
    refine (List.nil_append _).trans (List.map_congr_left fun desc _ ↦ ?_)
    obtain ⟨hids, hattr⟩ := PerfEventDesc.updateName_ids
      ⟨{ desc.attr with size := 128 }, [],
        ReaderAttrs.new.formatOf { desc.attr with size := 128 }, desc.sampleIds⟩
    exact Prod.ext hids hattr

/-- Assumes: a run of successful calls behind `create_file` that wrote events without data behind them,
and a file below the limits of a reader.

A reader that accepts the file, in either order, has its content. -/
theorem contentReadBack_of_opened {events : List (List UInt8)} {spare : ℕ}
    {eventOrder : PerfDataFileEventOrder} {reader : DataFileReader}
    (hcollects : ∀ call ∈ calls, call.Collects)
    (hrun : WriterCall.runAll build (.createFile :: calls) start = .ok (true, writer))
    (hfinal : writer.finalizeAndClose build = .ok (.ok file, after))
    (hheaders : ∀ index, (headerOf build.targetEndian file.content index).length < 2 ^ 31)
    (hids : ∀ desc ∈ calls.filterMap WriterCall.newDesc?, desc.sampleIds.length < 2 ^ 28)
    (hevents : ∀ bytes ∈ events, DataFileReader.PlainEvent build bytes)
    (hwritten : calls.flatMap (WriterCall.writtenBytes build) = events.flatten)
    (hopen : DataFileReader.openFile build spare file.content eventOrder = .ok (.ok (), reader)) :
    ContentReadBack build calls events eventOrder reader := by
  obtain ⟨synthesized, hfinalized⟩ := finalized_of_run hcollects hrun hfinal
  have hloadable := hfinalized.loadable hheaders hids
  have hfits := hfinalized.fits
  obtain ⟨s, hs, rfl⟩ := PerfDataFileReader.openFile_eq_ok.mp hopen
  rw [hfinalized.content] at hs
  obtain ⟨-, state, hstate, rfl⟩ := (Loading.open_image_iff hfits hloadable).mp hs
  obtain ⟨parsed, hparsed, hstate⟩ := bind_eq_ok.mp hstate
  obtain rfl := Except.ok.inj hstate
  have hloaded := ReaderState.headersLoaded_of_parseHeaders hparsed
  refine ⟨fun index htracing hdesc ↦ ?_, fun hagree ↦ ?_, fun hfile count ↦ ?_⟩
  · rw [← hfinalized.headers index, ← hfinalized.made.others index htracing hdesc]
    refine (hloaded.headers index).trans ?_
    by_cases hset : synthesized.headers.value index = []
    · rw [if_neg fun h ↦ h.2 hset]
      refine Eq.trans ?_ hset.symm
      exact Vector.getElem_replicate index.isLt
    · rw [if_pos ⟨List.mem_finRange index, hset⟩]
  · have hdescs : synthesized.eventDescs = calls.filterMap WriterCall.newDesc? :=
      hfinalized.made.eventDescs.trans hfinalized.eventDescs
    have hdescribed := hloaded.described
    unfold Loading.attrsState at hdescribed
    rw [hdescs, described_afterAttrs rfl hagree] at hdescribed
    exact hdescribed
  · subst hfile
    have hparts := (@DataFileWriter.imageParts build synthesized
      (calls.flatMap (WriterCall.writtenBytes build))).events
    have hlength := hparts.length_le (by
      rw [DataFileWriter.length_image]
      exact ((Nat.le_add_right _ _).trans (Nat.le_add_right _ _)).trans (Nat.le_add_right _ _))
    rw [hwritten] at hparts hlength
    refine PerfDataFileReader.calls_events hevents hparts hlength ⟨⟨rfl, rfl, List.cons_ne_nil _ _,
      fun index bytes hindex hget ↦ PerfDataFileReader.spare_empty hindex hget⟩, ?_, ?_, ?_⟩
    · rw [hwritten]
      rfl
    · show perfFileHeaderSize + (calls.flatMap (WriterCall.writtenBytes build)).length = _
      rw [hwritten]
    · exact hloaded.byteReader.trans rfl

end RoundTrip

/-! #### A file with two descriptions, two headers and three events -/

/-- The build of the sample. -/
def writtenBuild : Build := ⟨true, .little, true⟩

/-- An event with four bytes of data. -/
def writtenEvent : List UInt8 := [9, 0, 0, 0, 0, 0, 12, 0, 1, 2, 3, 4]

/-- The calls of the sample behind `create_file`. -/
def writtenCalls : List WriterCall :=
  [.addEventDesc [5] DataFileWriter.plainWritten (ascii "a"), .setHeader 2 [7], .writeFinishedInit,
    .addEventDesc [6, 7] { DataFileWriter.plainWritten with attrType := 1 } (ascii "b"),
    .setHeader 3 [8, 9], .writeEventData (writtenEvent ++ writtenEvent), .setHeader 2 [1]]

/-- The writer behind them. -/
def writtenWriter : PerfDataFileWriter :=
  match WriterCall.runAll writtenBuild (.createFile :: writtenCalls) .new with
  | .ok (_, writer) => writer
  | .error _ => .new

/-- The file that it finalizes. -/
def writtenFile : OutputFile :=
  match writtenWriter.finalizeAndClose writtenBuild with
  | .ok (.ok file, _) => file
  | _ => .new

/-- The reader that opens it. -/
def writtenReader : DataFileReader :=
  match DataFileReader.openFile writtenBuild 0 writtenFile.content .file with
  | .ok (_, reader) => reader
  | .error _ => .closed 0 []

/-- A call that ends well has a result. -/
theorem exists_of_isOk {ε α σ : Type} {call : Exec (Except ε α × σ)}
    (h : call.map (·.1.isOk) = .ok true) : ∃ value after, call = .ok (.ok value, after) := by
  cases call with
  | error fault => cases h
  | ok result =>
    obtain ⟨_ | value, after⟩ := result
    · exact absurd (Except.ok.inj h) Bool.false_ne_true
    · exact ⟨value, after, rfl⟩

theorem writtenWriter_finalizes :
    ∃ after, writtenWriter.finalizeAndClose writtenBuild = .ok (.ok writtenFile, after) := by
  have hok : (writtenWriter.finalizeAndClose writtenBuild).map (·.1.isOk) = .ok true := by
    decide +kernel
  obtain ⟨file, after, hfinal⟩ := exists_of_isOk hok
  refine ⟨after, ?_⟩
  unfold writtenFile
  rw [hfinal]

theorem writtenReader_opens :
    DataFileReader.openFile writtenBuild 0 writtenFile.content .file =
      .ok (.ok (), writtenReader) := by
  have hok : (DataFileReader.openFile writtenBuild 0 writtenFile.content .file).map (·.1.isOk) =
      .ok true := by decide +kernel
  obtain ⟨_, reader, hopen⟩ := exists_of_isOk hok
  unfold writtenReader
  rw [hopen]

theorem contentReadBack_written : ContentReadBack writtenBuild writtenCalls
    [PerfDataFileWriter.finishedEvent writtenBuild PerfEventHeaderType.finishedInit, writtenEvent,
      writtenEvent] .file writtenReader := by
  obtain ⟨after, hfinal⟩ := writtenWriter_finalizes
  refine @contentReadBack_of_opened _ _ .new writtenWriter _ _ _ _ _ _ ?_ rfl hfinal
    (by decide +kernel) (by decide) ?_ rfl writtenReader_opens
  · intro call hcall
    simp only [writtenCalls, List.mem_cons, List.not_mem_nil, or_false] at hcall
    rcases hcall with rfl | rfl | rfl | rfl | rfl | rfl | rfl <;> trivial
  · intro bytes hbytes
    simp only [List.mem_cons, List.not_mem_nil, or_false] at hbytes
    rcases hbytes with rfl | rfl | rfl
    · exact ⟨by decide, by decide, by decide, by decide⟩
    · exact ⟨by decide, by decide, by decide, by decide⟩
    · exact ⟨by decide, by decide, by decide, by decide⟩

end Tracepoints
