import Tracepoints.Perf.Reads

/-!
# A reader in the hands of its caller

`PerfDataFileReader` (`tracepoint_perf/src/file_reader.rs`) with its optional file: a caller opens
files, closes them, moves to the next event and looks at the current one. A reader that is used again
keeps the buffers it has, cleared. `HandleReaches` are the runs of `move_next_event` whose reads all
meet a condition; `Opened` says what `open_file` does to the parsed part: it adds attributes, then
loads headers of the file in the order of their indexes.
-/

set_option autoImplicit false
set_option relaxedAutoImplicit false

namespace Tracepoints

open Exec

/-! ### What opening does to the parsed part -/

namespace ReaderState

/-- The parsed part after attributes were added. -/
inductive AddsAttrs (build : Build) (start : ReaderState) : ReaderState → Prop
  | refl : AddsAttrs build start start
  | step {state : ReaderState} {attrBytes idsBytes : List UInt8} {attrs : ReaderAttrs}
      (hstate : AddsAttrs build start state)
      (hadd : state.attrs.addAttr build state.sessionInfo.byteReader attrBytes [] idsBytes =
        .ok attrs) : AddsAttrs build start { state with attrs := attrs }

/-- The data of a header of a file, behind the sections that `load_headers` reads. -/
def fileHeader (build : Build) (order : ByteOrder) (content : List UInt8) (header : Fin 32) :
    List UInt8 :=
  let rest := Loading.headerRest build order content
  (headerSection build.targetEndian content (rest.flags.getD 0 0) header (List.finRange 32)
    (rest.data.offset + rest.data.size)).elim [] (sectionBytes content)

/-- The parsed part after the headers of the given indexes were loaded, one behind the other, each
with the data that `source` has for it. -/
inductive LoadsHeaders (build : Build) (source : Fin 32 → List UInt8) :
    List (Fin 32) → ReaderState → ReaderState → Prop
  | nil (state : ReaderState) : LoadsHeaders build source [] state state
  | cons {index : Fin 32} {indexes : List (Fin 32)} {state mid last : ReaderState}
      (hparse : OpenState.parseHeader build index (state.setHeader index (source index)) = .ok mid)
      (hrest : LoadsHeaders build source indexes mid last) :
      LoadsHeaders build source (index :: indexes) state last

/-- The parsed part that `open_file` leaves, whether it succeeds or not: new, or with attributes and
headers of the file. -/
inductive Opened (build : Build) : Except IoError (List UInt8) → ReaderState → Prop
  | new (content : Except IoError (List UInt8)) : Opened build content .new
  | loaded {content : List UInt8} {order : ByteOrder} {headerSize : ℕ} {mid last : ReaderState}
      {indexes : List (Fin 32)} (hkind : Loading.fileKind build content = some (order, headerSize))
      (hattrs : AddsAttrs build { ReaderState.new with sessionInfo := .new order } mid)
      (hheaders : LoadsHeaders build (fileHeader build order content) indexes mid last)
      (hindexes : indexes.Sublist (List.finRange 32)) (dataBegin dataEnd : ℕ) :
      Opened build (.ok content)
        { last with dataBeginFilePos := dataBegin, dataEndFilePos := dataEnd }

end ReaderState

namespace OpenState

open ReaderState

variable {build : Build} {s s' : OpenState}

section Keeps

variable {Inv : ReaderState → Prop}

/-- An operation of the file does not change the parsed part. -/
theorem onFile_state {α : Type} {action : Act InputFile IoError α} {outcome : Except IoError α}
    (h : onFile action s = .ok (outcome, s')) : s'.state = s.state := by
  unfold onFile at h
  split at h
  · cases h
  · obtain ⟨_, rfl⟩ := Prod.mk.inj (Except.ok.inj h)
    rfl

/-- A read that succeeds returns the bytes at the cursor. -/
theorem onFile_readExact_ok {count : ℕ} {bytes : List UInt8}
    (h : onFile (InputFile.readExact count) s = .ok (.ok bytes, s')) :
    s.file.cursor + count ≤ s.file.content.length ∧ s.file.bytesAt count = bytes ∧
      { s with file := s.file.advance count } = s' := by
  unfold onFile at h
  rcases InputFile.readExact_cases count s.file with ⟨hle, heq⟩ | ⟨_, heq⟩
  · rw [heq] at h
    cases h
    exact ⟨hle, rfl, rfl⟩
  · rw [heq] at h
    cases h

theorem onFile_keeps {α : Type} (action : Act InputFile IoError α) :
    Act.Keeps (fun s ↦ Inv s.state) (onFile action) fun _ ↦ True := by
  intro before outcome after hbefore h
  dsimp only
  rw [onFile_state h]
  exact ⟨hbefore, fun _ _ ↦ trivial⟩

/-- Reading into the first buffer keeps what holds of the parsed part. -/
theorem readBuffer0_keeps (count : ℕ) :
    Act.Keeps (fun s ↦ Inv s.state) (readBuffer0 count) fun _ ↦ True := by
  unfold readBuffer0
  refine .bind (.update fun _ hstate ↦ hstate) fun _ _ ↦ ?_
  exact .bind (onFile_keeps _) fun bytes _ ↦ .update fun _ hstate ↦ hstate

/-- A change of the parsed part that keeps what holds of it. -/
theorem onState_keeps {change : ReaderState → Exec ReaderState}
    (h : ∀ state next, Inv state → change state = .ok next → Inv next) :
    Act.Keeps (fun s ↦ Inv s.state) (onState change) fun _ ↦ True := by
  unfold onState
  refine .updateM fun before after hbefore hchange ↦ ?_
  obtain ⟨next, hnext, heq⟩ := bind_eq_ok.1 hchange
  obtain rfl := Except.ok.inj heq
  exact h _ next hbefore hnext

end Keeps

/-- One iteration of `load_attrs` adds at most one attribute. -/
theorem loadAttr_addsAttrs (start : ReaderState) (attrSizeInFile attrFilePos : ℕ) :
    Act.Keeps (fun s ↦ AddsAttrs build start s.state)
      (loadAttr build attrSizeInFile attrFilePos) fun _ ↦ True := by
  unfold loadAttr
  refine .bind (onFile_keeps _) fun _ _ ↦ .bind (onFile_keeps _) fun attrBytes _ ↦ ?_
  refine .bind (onFile_keeps _) fun _ _ ↦ .bind (onFile_keeps _) fun sectionBytes _ ↦ ?_
  refine .bind .read fun s _ ↦ .ite (fun _ ↦ .leave _) fun _ ↦ ?_
  refine .bind (onFile_keeps _) fun _ _ ↦ .bind (readBuffer0_keeps _) fun _ _ ↦ ?_
  refine .bind .read fun s _ ↦ onState_keeps fun state next hstate hnext ↦ ?_
  obtain ⟨attrs, hadd, heq⟩ := bind_eq_ok.1 hnext
  obtain rfl := Except.ok.inj heq
  exact .step hstate hadd

theorem loadAttrsLoop_addsAttrs (start : ReaderState) (attrSizeInFile attrFilePosEnd fuel : ℕ)
    (attrFilePos : ℕ) :
    Act.Keeps (fun s ↦ AddsAttrs build start s.state)
      (loadAttrsLoop build attrSizeInFile attrFilePosEnd fuel attrFilePos) fun _ ↦ True := by
  induction fuel generalizing attrFilePos with
  | zero => exact .compute_any _
  | succ fuel ih =>
    rw [loadAttrsLoop]
    refine .ite (fun _ ↦ ?_) fun _ ↦ .done trivial
    exact .bind (loadAttr_addsAttrs start _ _) fun _ _ ↦ ih _

theorem loadAttrs_addsAttrs (start : ReaderState) (attrsSection : PerfFileSection)
    (attrAndIdSectionSize : ℕ) :
    Act.Keeps (fun s ↦ AddsAttrs build start s.state)
      (loadAttrs build attrsSection attrAndIdSectionSize) fun _ ↦ True := by
  unfold loadAttrs
  refine .bind .read fun s _ ↦ .bind (.compute_any _) fun _ _ ↦ ?_
  exact .ite (fun _ ↦ .leave _) fun _ ↦ loadAttrsLoop_addsAttrs start _ _ _ _

/-- Loading a header that fails changes nothing of the parsed part. -/
theorem loadHeader_failed {filePos : ℕ} {index : Fin 32} {error : IoError}
    (h : loadHeader build filePos index s = .ok (.error error, s')) : s'.state = s.state := by
  unfold loadHeader at h
  rcases Act.bind_cases h with ⟨_, h1, _⟩ | ⟨_, s1, h1, h⟩
  · exact onFile_state h1
  rcases Act.bind_cases h with ⟨_, h2, _⟩ | ⟨sectionBytes, s2, h2, h⟩
  · exact (onFile_state h2).trans (onFile_state h1)
  have hstate2 : s2.state = s.state := (onFile_state h2).trans (onFile_state h1)
  dsimp only at h
  rw [Act.read_bind] at h
  split_ifs at h with hinvalid
  · obtain ⟨_, rfl⟩ := Prod.mk.inj (Except.ok.inj h)
    exact hstate2
  rcases Act.bind_cases h with ⟨_, h4, _⟩ | ⟨_, s4, h4, h⟩
  · exact (onFile_state h4).trans hstate2
  rcases Act.bind_cases h with ⟨_, h5, _⟩ | ⟨bytes, s5, h5, h⟩
  · exact (onFile_state h5).trans ((onFile_state h4).trans hstate2)
  -- parsing returns or panics, it has no error to give
  unfold onState Act.updateM at h
  dsimp only at h
  split at h
  · cases h
  · cases h

section Content

variable {content : List UInt8} {pos : ℕ}

/-- Loading a header that succeeds parses the bytes of its section. -/
theorem loadHeader_loads {filePos : ℕ} {index : Fin 32} (hpos : pos ≤ content.length)
    (hfile : s.file = .at_ content pos)
    (h : loadHeader build filePos index s = .ok (.ok (), s')) :
    parseHeader build index (s.state.setHeader index (sectionBytes content
        (.ofBytes build.targetEndian ((content.drop filePos).take PerfFileSection.byteSize)))) =
      .ok s'.state ∧ ∃ pos' ≤ content.length, s'.file = .at_ content pos' := by
  have hsame := @Loading.simulates_loadHeader content build filePos index s.state s.buffer0 pos hpos
  rw [← hfile] at hsame
  rw [show loadHeader build filePos index ⟨s.state, s.buffer0, s.file⟩ = .ok (.ok (), s') from h]
    at hsame
  obtain ⟨pos', hpos', hfile', hloaded⟩ := hsame.of_ok
  refine ⟨?_, pos', hpos', hfile'⟩
  obtain ⟨bytes, l1, hsection, hloaded⟩ := Act.bind_eq_ok.mp hloaded
  obtain ⟨-, rfl, rfl⟩ := Loading.readAt_eq_ok.mp hsection
  split_ifs at hloaded with hinvalid
  · cases hloaded
  obtain ⟨bytes, l2, hdata, hloaded⟩ := Act.bind_eq_ok.mp hloaded
  obtain ⟨-, rfl, rfl⟩ := Loading.readAt_eq_ok.mp hdata
  unfold Act.updateM at hloaded
  dsimp only at hloaded
  split at hloaded
  · cases hloaded
  · next after hafter =>
    obtain ⟨state, hparse, hafter⟩ := bind_eq_ok.1 hafter
    obtain rfl := Except.ok.inj hafter
    obtain ⟨_, hloaded⟩ := Prod.mk.inj (Except.ok.inj hloaded)
    exact hparse.trans (congrArg Except.ok (congrArg LoadState.state hloaded))

/-- `load_headers` loads some of the headers, in the order of their indexes. Assumes: `source` has the
data of the sections that are read. -/
theorem loadHeadersLoop_loadsHeaders {flags filePos : ℕ} {indexes : List (Fin 32)}
    {source : Fin 32 → List UInt8} {outcome : Except IoError Unit} (hnodup : indexes.Nodup)
    (hsource : ∀ index ∈ indexes, flags.testBit index = true →
      (headerSection build.targetEndian content flags index indexes filePos).elim []
        (sectionBytes content) = source index)
    (hpos : pos ≤ content.length) (hfile : s.file = .at_ content pos)
    (h : loadHeadersLoop build flags indexes filePos s = .ok (outcome, s')) :
    ∃ loaded, loaded.Sublist indexes ∧ LoadsHeaders build source loaded s.state s'.state := by
  induction indexes generalizing filePos s pos with
  | nil =>
    obtain ⟨_, rfl⟩ := Prod.mk.inj (Except.ok.inj h)
    exact ⟨[], List.Sublist.refl _, .nil _⟩
  | cons index indexes ih =>
    obtain ⟨hnotMem, hnodup⟩ := List.nodup_cons.mp hnodup
    have hne (other : Fin 32) (hother : other ∈ indexes) : index ≠ other := fun heq ↦
      hnotMem (heq ▸ hother)
    rw [loadHeadersLoop] at h
    split_ifs at h with hflag
    · have hrest (other : Fin 32) (hother : other ∈ indexes) (hbit : flags.testBit other = true) :
          (headerSection build.targetEndian content flags other indexes
            (filePos + PerfFileSection.byteSize)).elim [] (sectionBytes content) = source other := by
        rw [← hsource other (List.mem_cons_of_mem _ hother) hbit, headerSection, if_pos hflag,
          if_neg (hne other hother)]
      rcases Act.bind_cases h with ⟨_, hheader, hfailed⟩ | ⟨_, mid, hheader, h⟩
      · refine ⟨[], List.nil_sublist _, ?_⟩
        rw [loadHeader_failed hheader]
        exact .nil _
      · obtain ⟨hparse, pos', hpos', hfile'⟩ := loadHeader_loads hpos hfile hheader
        obtain ⟨loaded, hloaded, hloads⟩ := ih hnodup hrest hpos' hfile' h
        have hdata := hsource index List.mem_cons_self hflag
        rw [headerSection, if_pos hflag, if_pos rfl, Option.elim_some] at hdata
        rw [hdata] at hparse
        exact ⟨index :: loaded, hloaded.cons_cons index, .cons hparse hloads⟩
    · have hrest (other : Fin 32) (hother : other ∈ indexes) (hbit : flags.testBit other = true) :
          (headerSection build.targetEndian content flags other indexes filePos).elim []
            (sectionBytes content) = source other := by
        rw [← hsource other (List.mem_cons_of_mem _ hother) hbit, headerSection, if_neg hflag]
      obtain ⟨loaded, hloaded, hloads⟩ := ih hnodup hrest hpos hfile h
      exact ⟨loaded, hloaded.cons index, hloads⟩

/-- The parsed part with no header loaded. -/
theorem opened_of_addsAttrs {order : ByteOrder} {headerSize : ℕ} {state : ReaderState}
    (hkind : Loading.fileKind build content = some (order, headerSize))
    (h : AddsAttrs build { ReaderState.new with sessionInfo := .new order } state) :
    Opened build (.ok content) state :=
  .loaded hkind h (.nil state) (List.nil_sublist _) state.dataBeginFilePos state.dataEndFilePos

theorem openNormal_opened {order : ByteOrder} {headerSize innerLen : ℕ}
    {outcome : Except IoError Unit}
    (hkind : Loading.fileKind build content = some (order, headerSize))
    (h : openNormal build order ⟨Loading.startState order, [], ⟨content, PerfFileHeaderPipe.byteSize,
      PerfFileHeaderPipe.byteSize, innerLen⟩⟩ = .ok (outcome, s')) :
    Opened build (.ok content) s'.state := by
  set start : ReaderState := Loading.startState order with hstart
  unfold openNormal at h
  rw [Act.update_bind] at h
  rcases Act.bind_cases h with ⟨_, h2, _⟩ | ⟨restBytes, s2, h2, h⟩
  · rw [onFile_state h2]
    exact opened_of_addsAttrs hkind .refl
  obtain ⟨hread, hrestBytes, rfl⟩ := onFile_readExact_ok h2
  have hfold : (if order ≠ build.targetEndian then
      (PerfFileHeaderRest.ofBytes build.targetEndian restBytes).byteSwap else
      PerfFileHeaderRest.ofBytes build.targetEndian restBytes) =
        Loading.headerRest build order content := by
    rw [← hrestBytes]
    rfl
  dsimp only at h
  rw [hfold, Act.read_bind] at h
  split_ifs at h with hinvalid
  · obtain ⟨_, rfl⟩ := Prod.mk.inj (Except.ok.inj h)
    exact opened_of_addsAttrs hkind .refl
  have hkeeps := @loadAttrs_addsAttrs build start
    (Loading.headerRest build order content).attrs (Loading.headerRest build order content).attrSize
  rcases Act.bind_cases h with ⟨_, h3, _⟩ | ⟨_, s3, h3, h⟩
  · exact opened_of_addsAttrs hkind (hkeeps _ _ s' .refl h3).1
  have hadds3 : AddsAttrs build start s3.state := (hkeeps _ _ s3 .refl h3).1
  have hsame := @Loading.simulates_loadAttrs content build
    (Loading.headerRest build order content).attrs (Loading.headerRest build order content).attrSize
    start _ hread
  rw [show OpenState.loadAttrs build _ _ ⟨start, [], .at_ content _⟩ = .ok (.ok (), s3) from h3]
    at hsame
  obtain ⟨pos, hpos, hfile, _⟩ := hsame.of_ok
  have hload {outcome : Except IoError Unit} {s4 : OpenState} (h4 : loadHeaders build
        (Loading.headerRest build order content).data
        ((Loading.headerRest build order content).flags.getD 0 0) s3 = .ok (outcome, s4)) :=
    @loadHeadersLoop_loadsHeaders build s3 s4 content pos _ _ (List.finRange 32)
      (fileHeader build order content) outcome (List.nodup_finRange 32) (fun _ _ _ ↦ rfl) hpos hfile h4
  rcases Act.bind_cases h with ⟨_, h4, _⟩ | ⟨_, s4, h4, h⟩
  · obtain ⟨loaded, hloaded, hloads⟩ := hload h4
    exact .loaded hkind hadds3 hloads hloaded s'.state.dataBeginFilePos s'.state.dataEndFilePos
  obtain ⟨loaded, hloaded, hloads⟩ := hload h4
  rcases Act.bind_cases h with ⟨_, h5, _⟩ | ⟨_, s5, h5, h⟩
  · rw [onFile_state h5]
    exact .loaded hkind hadds3 hloads hloaded s4.state.dataBeginFilePos s4.state.dataEndFilePos
  · obtain ⟨_, rfl⟩ := Prod.mk.inj (Except.ok.inj h)
    dsimp only
    rw [onFile_state h5]
    exact .loaded hkind hadds3 hloads hloaded _ _

/-- What `open` leaves of the parsed part. -/
theorem open_opened {outcome : Except IoError Unit}
    (h : open_ build (Loading.openStart content) = .ok (outcome, s')) :
    Opened build (.ok content) s'.state := by
  by_cases hlength : PerfFileHeaderPipe.byteSize ≤ content.length
  swap
  · rw [Loading.open_of_short (not_le.mp hlength)] at h
    obtain ⟨_, rfl⟩ := Prod.mk.inj (Except.ok.inj h)
    exact .new _
  cases hkind : Loading.fileKind build content with
  | none =>
    rw [Loading.open_of_unknown hlength hkind] at h
    obtain ⟨_, rfl⟩ := Prod.mk.inj (Except.ok.inj h)
    exact .new _
  | some kind =>
    obtain ⟨order, headerSize⟩ := kind
    rw [Loading.open_of_fileKind hlength hkind] at h
    split_ifs at h with hpipe hshort
    · obtain ⟨_, rfl⟩ := Prod.mk.inj (Except.ok.inj h)
      exact .loaded hkind .refl (.nil _) (List.nil_sublist _) _ _
    · obtain ⟨_, rfl⟩ := Prod.mk.inj (Except.ok.inj h)
      exact opened_of_addsAttrs hkind .refl
    · exact openNormal_opened hkind h

end Content

end OpenState

/-! ### The handle -/

/-- A build without assertions. -/
def releaseBuild : Build := ⟨false, .little, true⟩

/-- `PerfEventBytes`. -/
structure PerfEventBytes where
  header : PerfEventHeader
  data : List UInt8
  deriving DecidableEq, Repr

namespace PerfEventBytes

/-- `PerfEventBytes::new`. -/
def new (build : Build) (header : PerfEventHeader) (data : List UInt8) : Exec PerfEventBytes := do
  debugAssert build (PerfEventHeader.byteSize ≤ data.length)
  .ok ⟨header, data⟩

/-- A default-constructed `PerfEventBytes`. -/
def default : PerfEventBytes := ⟨⟨0, 0, 0⟩, []⟩

end PerfEventBytes

/-- `PerfDataFileReader` with its `file`, of which this says whether there is one. -/
structure ReaderHandle extends PerfDataFileReader where
  isOpen : Bool
  deriving DecidableEq, Repr

namespace ReaderHandle

open DataFileReader

/-- `PerfDataFileReader::new`. -/
def new : ReaderHandle := ⟨⟨closed 0 [], .default⟩, false⟩

variable (build : Build) (handle : ReaderHandle)

/-- `close`. -/
def close : ReaderHandle := ⟨⟨closed (handle.reader.buffers.length - 1) [], .default⟩, false⟩

/-- `open_file`, of a file that the operating system opens or does not. -/
def openFile (content : Except IoError (List UInt8)) (eventOrder : PerfDataFileEventOrder) :
    Exec (Except IoError Unit × ReaderHandle) :=
  match content with
  | .error error => .ok (.error error, handle.close)
  | .ok content => do
    let (outcome, reader) ←
      DataFileReader.openFile build (handle.reader.buffers.length - 1) content eventOrder
    .ok (outcome, ⟨⟨reader, .default⟩, outcome.isOk⟩)

/-- `move_next_event`. -/
def moveNextEvent : Exec (Except IoError Bool × ReaderHandle) :=
  if handle.isOpen then do
    let read ← DataFileReader.moveNextEvent build handle.reader handle.currentEvent
    .ok (read.result, ⟨⟨read.reader, read.eventBytes⟩, true⟩)
  else .ok (.error .invalidInput, handle)

/-- `current_event`. -/
def currentEventBytes : Exec PerfEventBytes :=
  if handle.currentEvent.stop - handle.currentEvent.start < PerfEventHeader.byteSize then
    PerfEventBytes.new build ⟨0, 0, 0⟩ []
  else do
    let bytes ← handle.reader.bytesOf handle.currentEvent
    let headerBytes ← slice bytes 0 PerfEventHeader.byteSize
    PerfEventBytes.new build (eventHeader build handle.reader.toReaderState headerBytes) bytes

end ReaderHandle

/-- What `open_file` leaves of the parsed part. -/
theorem ReaderHandle.openFile_opened {build : Build} {handle opened : ReaderHandle}
    {content : Except IoError (List UInt8)}
    {eventOrder : PerfDataFileEventOrder} {outcome : Except IoError Unit}
    (h : handle.openFile build content eventOrder = .ok (outcome, opened)) :
    ReaderState.Opened build content opened.reader.toReaderState := by
  unfold ReaderHandle.openFile at h
  cases content with
  | error error =>
    obtain ⟨_, rfl⟩ := Prod.mk.inj (Except.ok.inj h)
    exact .new _
  | ok content =>
    dsimp only at h
    obtain ⟨⟨result, reader⟩, hopen, h⟩ := bind_eq_ok.1 h
    obtain ⟨_, rfl⟩ := Prod.mk.inj (Except.ok.inj h)
    unfold DataFileReader.openFile at hopen
    dsimp only at hopen
    obtain ⟨⟨result, s⟩, hstate, hreader⟩ := bind_eq_ok.1 hopen
    obtain ⟨_, rfl⟩ := Prod.mk.inj (Except.ok.inj hreader)
    exact OpenState.open_opened hstate

/-- The handles that calls of `move_next_event` reach from `start`, where every read of a call meets a
condition. -/
inductive HandleReaches (build : Build) (condition : DataFileReader → Prop)
    (start : ReaderHandle) : ReaderHandle → Prop
  | refl : HandleReaches build condition start start
  | moved {handle handle' : ReaderHandle} {result : Except IoError Bool}
      (hreaches : HandleReaches build condition start handle)
      (hreads : handle.isOpen = true → ∀ reader,
        DataFileReader.ReadsAt build handle.reader reader → condition reader)
      (hmoved : handle.moveNextEvent build = .ok (result, handle')) :
      HandleReaches build condition start handle'

/-- A weaker condition. -/
theorem HandleReaches.imp {build : Build} {condition condition' : DataFileReader → Prop}
    {start handle : ReaderHandle} (h : HandleReaches build condition start handle)
    (himp : ∀ reader, condition reader → condition' reader) :
    HandleReaches build condition' start handle := by
  induction h with
  | refl => exact .refl
  | moved _ hreads hmoved ih =>
    exact .moved ih (fun hopen reader hreader ↦ himp reader (hreads hopen reader hreader)) hmoved

/-- In file order a call reads once. -/
theorem HandleReaches.next {build : Build} {condition : DataFileReader → Prop}
    {start handle handle' : ReaderHandle} {result : Except IoError Bool}
    (hreaches : HandleReaches build condition start handle)
    (horder : handle.reader.eventOrder = .file) (hcondition : condition handle.reader.cleared)
    (hmoved : handle.moveNextEvent build = .ok (result, handle')) :
    HandleReaches build condition start handle' := by
  refine .moved hreaches (fun _ reader hreads ↦ ?_) hmoved
  unfold DataFileReader.ReadsAt at hreads
  rw [horder] at hreads
  rw [hreads]
  exact hcondition

/-- What holds of the parsed part and is kept by each read of a call holds behind the call. -/
theorem ReaderHandle.moveNextEvent_state {build : Build} {handle next : ReaderHandle}
    {result : Except IoError Bool} {Inv : ReaderState → Prop}
    (hmoved : handle.moveNextEvent build = .ok (result, next))
    (hkept : handle.isOpen = true → ∀ reader state,
      DataFileReader.ReadsAt build handle.reader reader →
      DataFileReader.ReadLeaves build reader state → Inv reader.toReaderState → Inv state)
    (hinv : Inv handle.reader.toReaderState) : Inv next.reader.toReaderState := by
  unfold ReaderHandle.moveNextEvent at hmoved
  by_cases hopen : handle.isOpen = true
  · rw [if_pos hopen] at hmoved
    obtain ⟨read, hread, hmoved⟩ := bind_eq_ok.1 hmoved
    obtain ⟨_, rfl⟩ := Prod.mk.inj (Except.ok.inj hmoved)
    exact DataFileReader.moveNextEvent_state (hkept hopen) hread hinv
  · rw [if_neg hopen] at hmoved
    obtain ⟨_, rfl⟩ := Prod.mk.inj (Except.ok.inj hmoved)
    exact hinv

/-- What holds of the parsed part at the start and is kept by each read holds along a run. -/
theorem HandleReaches.state {build : Build} {condition : DataFileReader → Prop}
    {start handle : ReaderHandle} {Inv : ReaderState → Prop}
    (h : HandleReaches build condition start handle)
    (hkept : ∀ reader state, condition reader →
      DataFileReader.ReadLeaves build reader state → Inv reader.toReaderState → Inv state)
    (hstart : Inv start.reader.toReaderState) : Inv handle.reader.toReaderState := by
  induction h with
  | refl => exact hstart
  | @moved before after result _ hreads hmoved ih =>
    exact ReaderHandle.moveNextEvent_state hmoved
      (fun hopen reader state hreader ↦ hkept reader state (hreads hopen reader hreader)) ih

end Tracepoints
