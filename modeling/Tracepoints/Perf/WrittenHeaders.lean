import Mathlib.Tactic.IntervalCases
import Tracepoints.Perf.WriterRuns

/-!
# The headers of a written file

`headerOf` is what a file says a header is: its flags tell which headers have a section behind the
data, in the order of the indexes. `headerOf_image` says that a writer leaves the headers it has.

What a writer has collected before it finalizes is what the calls since its file was opened give it
(`WriterCall.since`, `holds_of_runAll`). `headersSurvive_iff` says when the headers that were set are those
of the file: a writer synthesizes an `EVENT_DESC` header, and a `TRACING_DATA` header where it is required,
also where one was set.
-/

set_option autoImplicit false
set_option relaxedAutoImplicit false

namespace Tracepoints

open Exec

/-! ### The sections of a file -/

/-- A section is read back. -/
theorem PlacedAt.section_eq {whole : List UInt8} {pos : ℕ} {order : ByteOrder} {s : PerfFileSection}
    (h : PlacedAt whole pos (s.toBytes order)) (hoffset : s.offset < 2 ^ 64) (hsize : s.size < 2 ^ 64) :
    PerfFileSection.ofBytes order ((whole.drop pos).take PerfFileSection.byteSize) = s := by
  have htake := h.take_drop
  rw [PerfFileSection.length_toBytes] at htake
  have hread := PerfFileSection.ofBytes_toBytes order hoffset hsize []
  rw [List.append_nil] at hread
  rw [htake, hread]

/-- The rest of the header of a file, in its own byte order. -/
def fileHeaderRest (order : ByteOrder) (content : List UInt8) : PerfFileHeaderRest :=
  .ofBytes order ((content.drop PerfFileHeaderPipe.byteSize).take PerfFileHeaderRest.byteSize)

/-- The data of a header of a file. -/
def headerOf (order : ByteOrder) (content : List UInt8) (header : Fin 32) : List UInt8 :=
  let rest := fileHeaderRest order content
  (headerSection order content (rest.flags.getD 0 0) header (List.finRange 32)
    (rest.data.offset + rest.data.size)).elim [] (sectionBytes content)

namespace DataFileWriter

section Image

variable {build : Build} {writer : DataFileWriter} {data : List UInt8}

/-- The rest of the header of the file that a writer leaves. -/
def imageRest (build : Build) (writer : DataFileWriter) (data : List UInt8) : PerfFileHeaderRest where
  attrSize := attrEntrySize
  attrs := ⟨attrsPos build writer data, attrEntrySize * writer.eventDescs.length⟩
  data := ⟨perfFileHeaderSize, data.length⟩
  eventTypes := ⟨0, 0⟩
  flags := [flags0 writer.headers, 0, 0, 0]

/-- The header of a file is in front of the events. -/
theorem image_eq : image build writer data =
    PerfFileHeaderPipe.toBytes build.targetEndian ⟨perfile2MagicHostEndian, perfFileHeaderSize⟩ ++
      ((imageRest build writer data).toBytes build.targetEndian ++
        (data ++ headersImage build writer.headers (perfFileHeaderSize + data.length) ++
          attrsImage build writer.eventDescs (attrsPos build writer data))) :=
  List.append_assoc _ _ _

theorem length_attrsTable (descs : List WriterEventDesc) (offset : ℕ) :
    (attrsTable build descs offset).length = attrEntrySize * descs.length := by
  induction descs generalizing offset with
  | nil => rfl
  | cons desc descs ih =>
    unfold attrsTable idsParts at ih ⊢
    rw [List.map_cons, sectionsFrom, List.zip_cons_cons, List.flatMap_cons, List.length_append,
      List.length_append, PerfEventAttr.length_toBytes, PerfFileSection.length_toBytes, ih,
      List.length_cons, Nat.mul_succ]
    unfold attrEntrySize
    omega

theorem length_attrsImage (descs : List WriterEventDesc) (pos : ℕ) :
    (attrsImage build descs pos).length =
      attrEntrySize * descs.length + (idsParts build descs).flatten.length := by
  unfold attrsImage
  rw [List.length_append, length_attrsTable]

theorem length_image : (image build writer data).length = attrsPos build writer data +
    (attrEntrySize * writer.eventDescs.length + (idsParts build writer.eventDescs).flatten.length) := by
  rw [← length_attrsImage writer.eventDescs (attrsPos build writer data)]
  unfold image attrsPos
  simp only [List.length_append, length_fileHeader]
  omega

/-- Assumes: a file that is not too large. -/
theorem imageRest_fits (hfits : (image build writer data).length ≤ OutputFile.maxSize) :
    (imageRest build writer data).Fits := by
  rw [length_image] at hfits
  have hmax : OutputFile.maxSize < 2 ^ 63 := by decide
  have hpos : perfFileHeaderSize + data.length ≤ attrsPos build writer data := Nat.le_add_right _ _
  have hflags : flags0 writer.headers < 2 ^ 32 := flagsLoop_lt _ _ (by decide)
  constructor
  · show attrEntrySize < _
    decide
  · show attrsPos build writer data < _
    omega
  · show attrEntrySize * writer.eventDescs.length < _
    omega
  · show perfFileHeaderSize < _
    decide
  · show data.length < _
    omega
  · show 0 < _
    decide
  · show 0 < _
    decide
  · intro flag hflag
    simp only [imageRest, List.mem_cons, List.not_mem_nil, or_false] at hflag
    rcases hflag with rfl | rfl | rfl | rfl
    · exact hflags.trans (by decide)
    all_goals decide
  · rfl

theorem fileHeaderRest_image (hfits : (image build writer data).length ≤ OutputFile.maxSize) :
    fileHeaderRest build.targetEndian (image build writer data) = imageRest build writer data := by
  have hread := PerfFileHeaderRest.ofBytes_toBytes build.targetEndian (imageRest_fits hfits) []
  rw [List.append_nil] at hread
  unfold fileHeaderRest
  rw [image_eq, List.drop_left' (PerfFileHeaderPipe.length_toBytes _ _),
    List.take_left' (PerfFileHeaderRest.length_toBytes _ rfl), hread]

/-- Where the data of the headers starts in the file of a writer. -/
def headerDataPos (writer : DataFileWriter) (data : List UInt8) : ℕ :=
  perfFileHeaderSize + data.length +
    PerfFileSection.byteSize * (presentData writer.headers (List.finRange 32)).length

/-- The parts of the file that a writer leaves, where they are. -/
structure ImageParts (build : Build) (writer : DataFileWriter) (data : List UInt8) : Prop where
  events : PlacedAt (image build writer data) perfFileHeaderSize data
  sections : PlacedAt (image build writer data) (perfFileHeaderSize + data.length)
    (sectionTable build.targetEndian
      (sectionsFrom (headerDataPos writer data) (presentData writer.headers (List.finRange 32))))
  headers : PlacedAt (image build writer data) (headerDataPos writer data)
    (presentData writer.headers (List.finRange 32)).flatten
  headers_end : headerDataPos writer data +
    (presentData writer.headers (List.finRange 32)).flatten.length = attrsPos build writer data
  attrs : PlacedAt (image build writer data) (attrsPos build writer data)
    (attrsTable build writer.eventDescs
      (attrsPos build writer data + attrEntrySize * writer.eventDescs.length))
  ids : PlacedAt (image build writer data)
    (attrsPos build writer data + attrEntrySize * writer.eventDescs.length)
    (idsParts build writer.eventDescs).flatten

theorem imageParts : ImageParts build writer data := by
  set parts := presentData writer.headers (List.finRange 32) with hparts
  have hheader := @length_fileHeader build
    ⟨attrsPos build writer data, attrEntrySize * writer.eventDescs.length⟩ data.length
    (flags0 writer.headers)
  have htable : (sectionTable build.targetEndian
      (sectionsFrom (headerDataPos writer data) parts)).length =
        PerfFileSection.byteSize * parts.length := by
    rw [length_sectionTable, length_sectionsFrom]
  have hheaders : headersImage build writer.headers (perfFileHeaderSize + data.length) =
      sectionTable build.targetEndian (sectionsFrom (headerDataPos writer data) parts) ++
        parts.flatten := rfl
  have hend : headerDataPos writer data + parts.flatten.length = attrsPos build writer data := by
    unfold attrsPos
    rw [hheaders, List.length_append, htable]
    unfold headerDataPos
    rw [← hparts]
    omega
  have hwhole : PlacedAt (image build writer data) 0 (image build writer data) := List.prefix_rfl
  unfold image at hwhole
  rw [hheaders] at hwhole
  obtain ⟨-, hrest⟩ := placedAt_append.mp hwhole
  rw [hheader, Nat.zero_add] at hrest
  obtain ⟨hfront, hattrs⟩ := placedAt_append.mp hrest
  obtain ⟨hdata, hfront⟩ := placedAt_append.mp hfront
  obtain ⟨hsections, hpresent⟩ := placedAt_append.mp hfront
  rw [htable] at hpresent
  have hattrsPos : perfFileHeaderSize + (data ++ (sectionTable build.targetEndian
      (sectionsFrom (headerDataPos writer data) parts) ++ parts.flatten)).length =
        attrsPos build writer data := by
    rw [List.length_append, List.length_append, htable, ← hend]
    unfold headerDataPos
    rw [← hparts]
    omega
  rw [hattrsPos] at hattrs
  obtain ⟨hattrs, hids⟩ := placedAt_append.mp hattrs
  rw [length_attrsTable] at hids
  exact ⟨hdata, hsections, hpresent, hend, hattrs, hids⟩

end Image

section Headers

variable {order : ByteOrder} {headers : Headers} {whole : List UInt8} {flags : ℕ}

/-- What the table of the headers tells about one of them. -/
theorem headerSection_eq {indexes : List (Fin 32)} {pos offset : ℕ} (header : Fin 32)
    (hflags : ∀ index : Fin 32, flags.testBit index = decide (headers.value index ≠ []))
    (htable : PlacedAt whole pos
      (sectionTable order (sectionsFrom offset (presentData headers indexes))))
    (hdata : PlacedAt whole offset (presentData headers indexes).flatten)
    (hbound : offset + (presentData headers indexes).flatten.length < 2 ^ 64) :
    (headerSection order whole flags header indexes pos).elim [] (sectionBytes whole) =
      if header ∈ indexes then headers.value header else [] := by
  induction indexes generalizing pos offset with
  | nil => rfl
  | cons index indexes ih =>
    unfold headerSection
    rw [hflags]
    by_cases hpresent : headers.value index = []
    · rw [presentData, present_cons_of_nil hpresent] at htable hdata hbound
      rw [if_neg (by simpa using hpresent), ih htable hdata hbound]
      by_cases hsame : header = index
      · rw [hsame, if_pos List.mem_cons_self, hpresent, ite_self]
      · exact if_congr (List.mem_cons.trans (or_iff_right hsame)).symm rfl rfl
    · rw [presentData, present_cons_of_ne hpresent, List.map_cons, sectionsFrom] at htable
      rw [presentData, present_cons_of_ne hpresent, List.map_cons, List.flatten_cons] at hdata hbound
      rw [List.length_append] at hbound
      obtain ⟨hfirst, htable⟩ := placedAt_append.mp htable
      obtain ⟨hheader, hdata⟩ := placedAt_append.mp hdata
      rw [PerfFileSection.length_toBytes] at htable
      rw [if_pos (by simpa using hpresent)]
      by_cases hsame : index = header
      · have hsection := hfirst.section_eq (by dsimp only; omega) (by dsimp only; omega)
        rw [if_pos hsame, hsection, Option.elim_some, sectionBytes, hheader.take_drop, hsame,
          if_pos List.mem_cons_self]
      · rw [if_neg hsame, ih htable hdata (by rw [Nat.add_assoc]; exact hbound)]
        have hother : header ≠ index := fun heq ↦ hsame heq.symm
        exact if_congr (List.mem_cons.trans (or_iff_right hother)).symm rfl rfl

theorem testBit_flags0 (header : Fin 32) :
    (flags0 headers).testBit header = decide (headers.value header ≠ []) := by
  unfold flags0
  rw [testBit_flagsLoop, Nat.zero_testBit, Bool.false_or]
  unfold present
  simp only [List.mem_filter, List.mem_finRange, true_and, decide_eq_true_eq]

end Headers

/-- A file that a writer leaves has the headers of the writer. -/
theorem headerOf_image {build : Build} {writer : DataFileWriter} {data : List UInt8}
    (hfits : (image build writer data).length ≤ OutputFile.maxSize) (index : Fin 32) :
    headerOf build.targetEndian (image build writer data) index = writer.header index := by
  have hparts := @imageParts build writer data
  have hlength := @length_image build writer data
  have hmax : OutputFile.maxSize < 2 ^ 63 := by decide
  have hend := hparts.headers_end
  unfold headerOf
  rw [fileHeaderRest_image hfits]
  refine (headerSection_eq index testBit_flags0 hparts.sections hparts.headers (by omega)).trans ?_
  exact if_pos (List.mem_finRange index)

end DataFileWriter

/-! ### Finalizing -/

/-- The two headers that `finalize_and_close` synthesizes. -/
def DataFileWriter.synthesize (build : Build) (writer : DataFileWriter) : Exec DataFileWriter := do
  let writer ← writer.synthesizeTracingData build
  writer.synthesizeEventDesc build

namespace PerfDataFileWriter

variable {build : Build} {inner synthesized : DataFileWriter} {front data : List UInt8}

/-- The file is not too large. -/
def HasRoom (build : Build) (writer : PerfDataFileWriter) : Prop :=
  ∀ after, writer.finalizeAndClose build ≠ .ok (.error .fileTooLarge, after)

/-- `finalize_and_close` is a synthesis, and writing. -/
theorem finalizeAndClose_of_synthesize (hfront : front.length = perfFileHeaderSize)
    (hsize : (front ++ data).length ≤ OutputFile.maxSize)
    (hsynthesize : inner.synthesize build = .ok synthesized) :
    if (synthesized.image build data).length ≤ OutputFile.maxSize then
      finalizeAndClose build ⟨inner, some (.atEnd (front ++ data))⟩ =
        .ok (.ok ⟨synthesized.image build data, perfFileHeaderSize⟩, .new)
    else ∃ after, finalizeAndClose build ⟨inner, some (.atEnd (front ++ data))⟩ =
      .ok (.error .fileTooLarge, after) := by
  obtain ⟨traced, htraced, hdescribed⟩ := bind_eq_ok.mp hsynthesize
  have hfooter := @DataFileWriter.writeFooter_image build synthesized front data hfront hsize
  unfold finalizeAndClose
  dsimp only
  rw [htraced, ok_bind, hdescribed, ok_bind]
  by_cases hfits : (synthesized.image build data).length ≤ OutputFile.maxSize
  · rw [if_pos hfits] at hfooter ⊢
    rw [hfooter]
    rfl
  · rw [if_neg hfits] at hfooter ⊢
    obtain ⟨more, -, hfooter⟩ := hfooter
    rw [hfooter]
    exact ⟨_, rfl⟩

/-- A file that is finalized is the image of what was synthesized. -/
theorem finalizeAndClose_ok {writer after : PerfDataFileWriter} {file : OutputFile}
    (hfront : front.length = perfFileHeaderSize)
    (hsize : (front ++ data).length ≤ OutputFile.maxSize)
    (hfile : writer.file = some (.atEnd (front ++ data)))
    (h : writer.finalizeAndClose build = .ok (.ok file, after)) :
    ∃ synthesized, writer.inner.synthesize build = .ok synthesized ∧
      file.content = synthesized.image build data ∧
      (synthesized.image build data).length ≤ OutputFile.maxSize ∧ after = .new := by
  obtain ⟨inner, current⟩ := writer
  dsimp only at hfile
  subst hfile
  have hsynthesize : ∃ synthesized, inner.synthesize build = .ok synthesized := by
    obtain ⟨traced, htraced, hrun⟩ := bind_eq_ok.mp h
    obtain ⟨described, hdescribed, -⟩ := bind_eq_ok.mp hrun
    exact ⟨described, bind_eq_ok.mpr ⟨traced, htraced, hdescribed⟩⟩
  obtain ⟨synthesized, hsynthesize⟩ := hsynthesize
  have hfinal := finalizeAndClose_of_synthesize hfront hsize hsynthesize
  refine ⟨synthesized, hsynthesize, ?_⟩
  by_cases hfits : (synthesized.image build data).length ≤ OutputFile.maxSize
  · rw [if_pos hfits, h] at hfinal
    obtain ⟨hfile, hafter⟩ := Prod.mk.inj (Except.ok.inj hfinal)
    obtain rfl := Except.ok.inj hfile
    exact ⟨rfl, hfits, hafter⟩
  · rw [if_neg hfits, h] at hfinal
    obtain ⟨_, hfinal⟩ := hfinal
    cases hfinal

end PerfDataFileWriter

/-! ### Headers that were set -/

/-- The data of the last call of `set_header` for a header. -/
def WriterCall.lastSet (header : Fin 32) (calls : List WriterCall) : Option (List UInt8) :=
  calls.foldl (fun last call ↦
    match call with
    | .setHeader index data => if index.toNat = header then some data else last
    | _ => last) none

/-- The sizes that calls give last for a synthesized `TRACING_DATA` header. -/
def WriterCall.lastSizes (calls : List WriterCall) : UInt8 × UInt32 :=
  (calls.filterMap sizes?).getLast?.getD (0, 0)

/-- Whether a file is open, and the calls since it was opened or closed. -/
structure CallsSince where
  isOpen : Bool
  calls : List WriterCall

/-- What one more call makes of the calls since a file was opened. -/
def CallsSince.add (since : CallsSince) : WriterCall → CallsSince
  | .closeNoFinalize => ⟨false, []⟩
  | .createFile => ⟨true, []⟩
  | .finalizeAndClose => if since.isOpen then ⟨false, []⟩ else since
  | call => { since with calls := since.calls ++ [call] }

/-- The calls since the file was opened, from the calls alone. -/
def WriterCall.since (calls : List WriterCall) : CallsSince :=
  calls.foldl CallsSince.add ⟨false, []⟩

theorem CallsSince.add_of_collects {call : WriterCall} (hcollects : call.Collects)
    (since : CallsSince) : since.add call = { since with calls := since.calls ++ [call] } := by
  cases call <;> first | exact hcollects.elim | rfl

theorem WriterCall.since_concat (calls : List WriterCall) (call : WriterCall) :
    since (calls ++ [call]) = (since calls).add call := List.foldl_concat _ _ _ _

namespace PerfDataFileWriter

/-- Finalizing does not panic, leaves a header as it is collected, and writes the data as the header. -/
def HeaderSurvives (build : Build) (writer : PerfDataFileWriter) (header : Fin 32)
    (data : List UInt8) : Prop :=
  ∃ synthesized file after, writer.inner.synthesize build = .ok synthesized ∧
    synthesized.header header = writer.inner.header header ∧
    writer.finalizeAndClose build = .ok (.ok file, after) ∧
    headerOf build.targetEndian file.content header = data

/-- No call of `finalize_and_close` is told that its file is too large. -/
def RoomThroughout (build : Build) (calls : List WriterCall) : Prop :=
  ∀ before rest told writer, calls = before ++ .finalizeAndClose :: rest →
    WriterCall.runAll build before .new = .ok (told, writer) → HasRoom build writer

/-- What a writer has collected is what the calls since its file was opened give it. -/
structure Holds (build : Build) (since : CallsSince) (writer : PerfDataFileWriter) : Prop where
  isOpen : writer.file.isSome = since.isOpen
  headers : writer.inner.headers =
    WriterCall.putAll (.replicate 32 []) (since.calls.flatMap (WriterCall.sets build))
  sizes : (writer.inner.tracingDataLongSize, writer.inner.tracingDataPageSize) =
    WriterCall.lastSizes since.calls

section Holds

variable {build : Build} {writer after : PerfDataFileWriter} {since : CallsSince}

theorem Holds.new : Holds build ⟨false, []⟩ .new := ⟨rfl, rfl, rfl⟩

/-- A call that collects. -/
theorem Holds.collected {call : WriterCall} {told : Bool} (h : Holds build since writer)
    (hfile : after.file.isSome = writer.file.isSome)
    (hcollected : WriterCall.Collected build call told writer.inner after.inner) :
    Holds build (since.add call) after := by
  rw [CallsSince.add_of_collects hcollected.collects]
  refine ⟨hfile.trans h.isOpen, ?_, ?_⟩
  · rw [hcollected.headers, h.headers, List.flatMap_append, List.flatMap_singleton,
      WriterCall.putAll_append]
  · rw [hcollected.sizes, h.sizes]
    unfold WriterCall.lastSizes
    rw [List.filterMap_append, List.filterMap_cons, List.filterMap_nil]
    cases call.sizes? with
    | none => rw [List.append_nil]; rfl
    | some sizes => rw [List.getLast?_concat]; rfl

/-- Assumes: a file that is not too large. Finalizing closes the file. -/
theorem Holds.finalizeAndClose {outcome : Except WriteError OutputFile} (h : Holds build since writer)
    (hsound : writer.Sound) (hroom : HasRoom build writer)
    (hrun : writer.finalizeAndClose build = .ok (outcome, after)) :
    Holds build (since.add .finalizeAndClose) after := by
  have hisOpen := h.isOpen
  unfold CallsSince.add
  obtain ⟨inner, file⟩ := writer
  cases file with
  | none =>
    obtain ⟨_, rfl⟩ := Prod.mk.inj (Except.ok.inj hrun)
    rw [← hisOpen]
    exact h
  | some file =>
    rw [← hisOpen]
    obtain ⟨front, events, hfront, hsize, rfl⟩ := hsound.file file rfl
    obtain ⟨traced, htraced, hrest⟩ := bind_eq_ok.mp hrun
    obtain ⟨described, hdescribed, -⟩ := bind_eq_ok.mp hrest
    have hfinal := finalizeAndClose_of_synthesize hfront hsize
      (bind_eq_ok.mpr ⟨traced, htraced, hdescribed⟩ : inner.synthesize build = .ok described)
    split at hfinal
    · rw [hrun] at hfinal
      obtain ⟨-, rfl⟩ := Prod.mk.inj (Except.ok.inj hfinal)
      exact .new
    · obtain ⟨_, hfinal⟩ := hfinal
      exact absurd hfinal (hroom _)

/-- Assumes: files that are not too large. A run leaves what the calls since the file was opened give. -/
theorem holds_of_runAll {calls : List WriterCall} {told : Bool} (hroom : RoomThroughout build calls)
    (hrun : WriterCall.runAll build calls .new = .ok (told, writer)) :
    Holds build (WriterCall.since calls) writer := by
  induction calls using List.reverseRecOn generalizing told writer with
  | nil =>
    obtain ⟨_, rfl⟩ := Prod.mk.inj (Except.ok.inj hrun)
    exact .new
  | append_singleton calls call ih =>
    obtain ⟨already, mid, first, hcalls, hcall, -⟩ := WriterCall.runAll_concat hrun
    have hmid := ih (fun before rest told writer heq ↦
      hroom before (rest ++ [call]) told writer (by rw [heq, List.append_assoc]; rfl)) hcalls
    rw [WriterCall.since_concat]
    cases WriterCall.run_effect hcall with
    | closed => exact .new
    | created hcreate =>
      have hcreated : PerfDataFileWriter.createFile = .ok (.ok (),
          ⟨.new, some (.atEnd (List.replicate perfFileHeaderSize 0))⟩) := rfl
      rw [hcreated] at hcreate
      obtain ⟨_, rfl⟩ := Prod.mk.inj (Except.ok.inj hcreate)
      exact ⟨rfl, rfl, rfl⟩
    | finalized hfinalize =>
      exact hmid.finalizeAndClose (WriterCall.runAll_sound .new hcalls)
        (hroom calls [] already mid rfl hcalls) hfinalize
    | wrote hwrite hcollected =>
      have hinner := (WriterCall.run_effect hcall).inner hcollected.collects
      exact hmid.collected (WriterCall.onFile_keeps hwrite).2 hinner
    | collected _ hcollected => exact hmid.collected rfl hcollected

end Holds

/-- No header that is set would be synthesized, and the names of the descriptions are in ASCII. -/
structure ConflictFree (writer : DataFileWriter) : Prop where
  eventDesc : writer.header PerfHeaderIndex.eventDesc = []
  tracingData : writer.TracingDataRequired → writer.header PerfHeaderIndex.tracingData = []
  names : writer.AsciiNames

section Survives

variable {build : Build} {writer : DataFileWriter}

theorem header_putHeader_of_ne {index other : Fin 32} (hne : index ≠ other) (value : List UInt8) :
    (writer.putHeader index value).header other = writer.header other :=
  Vector.getElem_set_ne index.isLt other.isLt fun heq ↦ hne (Fin.ext heq)

theorem header_putHeader_self (index : Fin 32) (value : List UInt8) :
    (writer.putHeader index value).header index = value :=
  Vector.getElem_set_self index.isLt

/-- Without conflicts, synthesizing changes only headers that were not set. -/
theorem ConflictFree.synthesize (h : ConflictFree writer) (hbounded : writer.Bounded) :
    ∃ synthesized, writer.synthesize build = .ok synthesized ∧
      ∀ index, writer.header index ≠ [] → synthesized.header index = writer.header index := by
  have hdesc {index : Fin 32} (hset : writer.header index ≠ []) : PerfHeaderIndex.eventDesc ≠ index := by
    rintro rfl
    exact hset h.eventDesc
  by_cases hrequired : writer.TracingDataRequired
  · have hempty := h.tracingData hrequired
    have htraced := DataFileWriter.synthesizeTracingData_eq hbounded hrequired
      (.inr hempty : build.debugAssertions = false ∨ _)
    have hdescribed := DataFileWriter.synthesizeEventDesc_eq (hbounded.putHeader
      PerfHeaderIndex.tracingData (DataFileWriter.tracingDataHeader build writer))
      (.inr ((header_putHeader_of_ne (by decide) _).trans h.eventDesc) :
        build.debugAssertions = false ∨ _)
    have hnames : (writer.putHeader PerfHeaderIndex.tracingData
      (DataFileWriter.tracingDataHeader build writer)).AsciiNames := h.names
    rw [if_pos hnames] at hdescribed
    refine ⟨_, bind_eq_ok.mpr ⟨_, htraced, hdescribed⟩, fun index hset ↦ ?_⟩
    have htracing : PerfHeaderIndex.tracingData ≠ index := by
      rintro rfl
      exact hset hempty
    rw [header_putHeader_of_ne (hdesc hset), header_putHeader_of_ne htracing]
  · have hdescribed := DataFileWriter.synthesizeEventDesc_eq hbounded
      (.inr h.eventDesc : build.debugAssertions = false ∨ _)
    rw [if_pos h.names] at hdescribed
    refine ⟨_, bind_eq_ok.mpr ⟨writer,
      DataFileWriter.synthesizeTracingData_of_not_required hrequired, hdescribed⟩, fun index hset ↦ ?_⟩
    exact header_putHeader_of_ne (hdesc hset) _

/-- Where assertions are checked, synthesizing panics at a conflict. -/
theorem conflictFree_of_synthesize {synthesized : DataFileWriter}
    (hdebug : build.debugAssertions = true) (hbounded : writer.Bounded)
    (h : writer.synthesize build = .ok synthesized) : ConflictFree writer := by
  obtain ⟨traced, htraced, hdescribed⟩ := bind_eq_ok.mp h
  have hrequired (hrequired : writer.TracingDataRequired) :
      writer.header PerfHeaderIndex.tracingData = [] := by
    by_contra hset
    rw [DataFileWriter.synthesizeTracingData_set hdebug hrequired hset] at htraced
    cases htraced
  have hkept : traced.header PerfHeaderIndex.eventDesc = writer.header PerfHeaderIndex.eventDesc ∧
      traced.Bounded ∧ (traced.AsciiNames → writer.AsciiNames) := by
    rcases DataFileWriter.synthesizeTracingData_changes htraced with rfl | ⟨value, rfl⟩
    · exact ⟨rfl, hbounded, id⟩
    · exact ⟨header_putHeader_of_ne (by decide) _, hbounded.putHeader _ _, id⟩
  have hunset : traced.header PerfHeaderIndex.eventDesc = [] := by
    by_contra hset
    rw [DataFileWriter.synthesizeEventDesc_set hdebug hset] at hdescribed
    cases hdescribed
  refine ⟨hkept.1 ▸ hunset, hrequired, hkept.2.2 ?_⟩
  by_contra hnames
  rw [DataFileWriter.synthesizeEventDesc_eq hkept.2.1 (.inr hunset), if_neg hnames] at hdescribed
  cases hdescribed

end Survives

/-- A header that is set is written in every build exactly where it still is what was set and no header
that is set would be synthesized. -/
theorem headerSurvives_iff {target : ByteOrder} {pointer64 : Bool} {writer : PerfDataFileWriter}
    {header : Fin 32} {data : List UInt8} (hsound : writer.Sound) (hopen : writer.file.isSome)
    (hroom : ∀ debug, HasRoom ⟨debug, target, pointer64⟩ writer) (hdata : data ≠ []) :
    (∀ debug, HeaderSurvives ⟨debug, target, pointer64⟩ writer header data) ↔
      writer.inner.header header = data ∧ ConflictFree writer.inner := by
  obtain ⟨file, hfile⟩ := Option.isSome_iff_exists.mp hopen
  obtain ⟨front, events, hfront, hsize, rfl⟩ := hsound.file file hfile
  constructor
  · intro hsurvives
    obtain ⟨synthesized, file, after, hsynthesize, hkept, hfinal, hheader⟩ := hsurvives true
    obtain ⟨synthesized', hsynthesize', hcontent, hfits, -⟩ :=
      finalizeAndClose_ok hfront hsize hfile hfinal
    obtain rfl := Except.ok.inj (hsynthesize.symm.trans hsynthesize')
    rw [hcontent, DataFileWriter.headerOf_image hfits, hkept] at hheader
    exact ⟨hheader, conflictFree_of_synthesize rfl hsound.bounded hsynthesize⟩
  · rintro ⟨hheader, hfree⟩ debug
    obtain ⟨synthesized, hsynthesize, hkept⟩ :=
      @ConflictFree.synthesize ⟨debug, target, pointer64⟩ _ hfree hsound.bounded
    have hkept := hkept header (hheader ▸ hdata)
    have hfinal := finalizeAndClose_of_synthesize hfront hsize hsynthesize
    have hwriter : writer = ⟨writer.inner, some (.atEnd (front ++ events))⟩ := by rw [← hfile]
    rw [← hwriter] at hfinal
    split at hfinal
    · next hfits =>
      refine ⟨synthesized, _, _, hsynthesize, hkept, hfinal, ?_⟩
      exact (DataFileWriter.headerOf_image hfits header).trans (hkept.trans hheader)
    · obtain ⟨after, hfinal⟩ := hfinal
      exact absurd hfinal (hroom debug after)

/-- Every header that a run of calls sets survives, whether assertions are checked or not. -/
def HeadersSurvive (target : ByteOrder) (pointer64 : Bool) (calls : List WriterCall)
    (writer : PerfDataFileWriter) : Prop :=
  ∀ header data, WriterCall.lastSet header calls = some data → data ≠ [] →
    ∀ debug, HeaderSurvives ⟨debug, target, pointer64⟩ writer header data

/-- Of the headers that calls set none would be synthesized, and the names of the descriptions are in
ASCII. -/
structure NoConflict (build : Build) (calls : List WriterCall) (writer : DataFileWriter) : Prop where
  eventDesc : WriterCall.lastData build calls PerfHeaderIndex.eventDesc = []
  tracingData : (WriterCall.lastSizes calls).1 ≠ 0 → (WriterCall.lastSizes calls).2 ≠ 0 →
    WriterCall.lastData build calls PerfHeaderIndex.tracingData = []
  names : writer.AsciiNames

/-- What the calls give a writer makes its conflicts. -/
theorem Holds.conflictFree_iff {build : Build} {since : CallsSince} {writer : PerfDataFileWriter}
    (h : Holds build since writer) :
    ConflictFree writer.inner ↔ NoConflict build since.calls writer.inner := by
  have hheader := WriterCall.header_eq_lastData h.headers
  have hlongSize := congrArg Prod.fst h.sizes
  have hpageSize := congrArg Prod.snd h.sizes
  dsimp only at hlongSize hpageSize
  have hrequired : writer.inner.TracingDataRequired ↔ (WriterCall.lastSizes since.calls).1 ≠ 0 ∧
      (WriterCall.lastSizes since.calls).2 ≠ 0 := by
    unfold DataFileWriter.TracingDataRequired
    rw [hlongSize, hpageSize]
  constructor
  · intro hfree
    exact ⟨(hheader _).symm.trans hfree.eventDesc,
      fun hlong hpage ↦ (hheader _).symm.trans (hfree.tracingData (hrequired.mpr ⟨hlong, hpage⟩)),
      hfree.names⟩
  · intro hnone
    exact ⟨(hheader _).trans hnone.eventDesc, fun h ↦
      (hheader _).trans (hnone.tracingData (hrequired.mp h).1 (hrequired.mp h).2), hnone.names⟩

/-- Assumes: calls that return and leave a file open, and files that are not too large.

The headers that were set survive exactly where for each of them the last call since the file was opened
that sets it gives it these data, and no header that is set would be synthesized. -/
theorem headersSurvive_iff {target : ByteOrder} {pointer64 : Bool} {calls : List WriterCall}
    {writer : PerfDataFileWriter} {told : Bool}
    (hrun : ∀ debug, WriterCall.runAll ⟨debug, target, pointer64⟩ calls .new = .ok (told, writer))
    (hopen : (WriterCall.since calls).isOpen)
    (hroom : ∀ debug, RoomThroughout ⟨debug, target, pointer64⟩ (calls ++ [.finalizeAndClose])) :
    HeadersSurvive target pointer64 calls writer ↔
      ∀ header data, WriterCall.lastSet header calls = some data → data ≠ [] →
        WriterCall.lastData ⟨true, target, pointer64⟩ (WriterCall.since calls).calls header = data ∧
          NoConflict ⟨true, target, pointer64⟩ (WriterCall.since calls).calls writer.inner := by
  have hsound := WriterCall.runAll_sound .new (hrun true)
  have hholds := holds_of_runAll (fun before rest told writer heq ↦
    hroom true before (rest ++ [.finalizeAndClose]) told writer (by rw [heq, List.append_assoc]; rfl))
    (hrun true)
  have hlast (debug : Bool) := hroom debug calls [] told writer rfl (hrun debug)
  have hiff (header : Fin 32) (data : List UInt8) (hdata : data ≠ []) :=
    @headerSurvives_iff target pointer64 writer header data hsound (hholds.isOpen.trans hopen) hlast
      hdata
  simp only [WriterCall.header_eq_lastData hholds.headers, hholds.conflictFree_iff] at hiff
  constructor
  · exact fun h header data hlast hdata ↦ (hiff header data hdata).mp (h header data hlast hdata)
  · exact fun h header data hlast hdata ↦ (hiff header data hdata).mpr (h header data hlast hdata)

/-! #### A writer that is used for two files -/

/-- The calls of the sample: a first file, and a second one with two headers and a description. -/
def twoFiles : List WriterCall :=
  [.createFile, .setHeader 2 [7], .finalizeAndClose, .createFile, .setHeader 3 [8],
    .addEventDesc [5] { PerfEventAttr.ofValues [] with size := 128 } (ascii "a"), .setHeader 2 [1],
    .setHeader 3 [9, 9]]

/-- The writer behind some of the calls. -/
def twoFilesWriter (count : ℕ) (debug : Bool) : PerfDataFileWriter :=
  match WriterCall.runAll ⟨debug, .little, true⟩ (twoFiles.take count) .new with
  | .ok (_, writer) => writer
  | .error _ => .new

theorem twoFiles_room (debug : Bool) :
    RoomThroughout ⟨debug, .little, true⟩ (twoFiles ++ [.finalizeAndClose]) := by
  have hroom : ∀ count ∈ [2, 8], HasRoom ⟨debug, .little, true⟩ (twoFilesWriter count debug) := by
    intro count hcount after h
    have hok : ∀ debug : Bool, ∀ count ∈ [2, 8],
        ((twoFilesWriter count debug).finalizeAndClose ⟨debug, .little, true⟩).map (·.1.isOk) =
          .ok true := by decide +kernel
    have hok := hok debug count hcount
    rw [h] at hok
    exact absurd (Except.ok.inj hok) Bool.false_ne_true
  intro before rest told writer hcalls hrun
  have hbefore : before = (twoFiles ++ [WriterCall.finalizeAndClose]).take before.length := by
    rw [hcalls, List.take_left]
  have hget : (twoFiles ++ [WriterCall.finalizeAndClose])[before.length]? =
      some .finalizeAndClose := by
    rw [hcalls, List.getElem?_append_right le_rfl, Nat.sub_self]
    rfl
  have hle : before.length ≤ twoFiles.length :=
    Nat.le_of_lt_succ (List.getElem?_eq_some_iff.mp hget).1
  rw [List.take_append_of_le_length hle] at hbefore
  have hwriter : writer = twoFilesWriter before.length debug := by
    unfold twoFilesWriter
    rw [← hbefore, hrun]
  have hcount : before.length ∈ [2, 8] := by
    change before.length ≤ 8 at hle
    generalize before.length = count at hget hle
    interval_cases count <;> first | decide | cases hget
  exact hwriter ▸ hroom _ hcount

theorem headersSurvive_twoFiles :
    HeadersSurvive .little true twoFiles (twoFilesWriter 8 true) := by
  refine (@headersSurvive_iff _ _ _ _ true (fun debug ↦ ?_) rfl twoFiles_room).mpr
    fun header data hlast _ ↦ ?_
  · cases debug <;> rfl
  · change (if (3 : ℕ) = header then some [9, 9] else if (2 : ℕ) = header then some [1]
      else if (3 : ℕ) = header then some [8] else if (2 : ℕ) = header then some [7] else none) =
        some data at hlast
    refine ⟨?_, ⟨by decide, fun hsize ↦ absurd rfl hsize, by decide⟩⟩
    split_ifs at hlast with hthree htwo
    · obtain rfl : header = 3 := Fin.ext hthree.symm
      exact Option.some.inj hlast
    · obtain rfl : header = 2 := Fin.ext htwo.symm
      exact Option.some.inj hlast

/-- A writer with a file without events and one header. -/
def oneHeader (header : Fin 32) (data : List UInt8) : PerfDataFileWriter :=
  ⟨DataFileWriter.new.putHeader header data, some (.atEnd (List.replicate perfFileHeaderSize 0))⟩

/-- A writer that is given an `EVENT_DESC` header panics, or writes the header that it synthesizes. -/
theorem eventDesc_not_survives :
    ¬HeadersSurvive .little true [.createFile, .setHeader 12 [1]] (oneHeader 12 [1]) := by
  intro h
  obtain ⟨_, file, after, -, -, hfinal, -⟩ := h 12 [1] rfl (by decide) true
  have hpanics : ((oneHeader 12 [1]).finalizeAndClose ⟨true, .little, true⟩).map (·.1.isOk) =
      .error .assertion := by decide +kernel
  rw [hfinal] at hpanics
  cases hpanics

end PerfDataFileWriter

end Tracepoints
