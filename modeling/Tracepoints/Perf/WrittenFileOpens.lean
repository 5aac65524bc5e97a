import Tracepoints.Perf.ContentRoundTrip
import Tracepoints.Perf.TracingTotal

/-!
# Which written files a reader opens

A reader opens the file that a writer finalized exactly where there is a description, the last one has
ids, and the format files of the tracing data are ones that are parsed without a panic
(`openFile_written_iff`). Without a description the section of the attributes is empty and starts
where the file ends, and without ids of the last one the section of these does; `section_valid` refuses
both (`undescribedFile_refused`).
-/

set_option autoImplicit false
set_option relaxedAutoImplicit false

namespace Tracepoints

open Exec

namespace Loading

variable {build : Build} {headers : Headers} {state : ReaderState}

theorem setHeader_header_self (index : Fin 32) (data : List UInt8) :
    (state.setHeader index data).header index = data :=
  Vector.getElem_set_self _

/-- One header is parsed: only that of the tracing data can make the parser panic. -/
theorem parseHeader_returns_iff (index : Fin 32) (data : List UInt8) :
    (∃ next, OpenState.parseHeader build index (state.setHeader index data) = .ok next) ↔
      (index = PerfHeaderIndex.tracingData →
        ∀ file ∈ ReaderState.tracingTexts data, file.Parses build) := by
  by_cases htracing : index = PerfHeaderIndex.tracingData
  · subst htracing
    have hparse := @ReaderState.parseTracingData_returns_iff build
      (state.setHeader PerfHeaderIndex.tracingData data)
    rw [setHeader_header_self] at hparse
    exact hparse.trans ⟨fun h _ ↦ h, fun h ↦ h rfl⟩
  · refine iff_of_true ?_ fun h ↦ absurd h htracing
    unfold OpenState.parseHeader
    split_ifs
    · exact ⟨_, rfl⟩
    · exact ⟨_, rfl⟩
    · obtain ⟨next, hnext, -⟩ := ReaderState.parseHeaderEventDesc_returns build
        (state.setHeader index data)
      exact ⟨next, hnext⟩
    · exact ⟨_, rfl⟩

/-- All headers are parsed. -/
theorem parseHeaders_returns_iff {indexes : List (Fin 32)} :
    (∃ next, parseHeaders build headers indexes state = .ok next) ↔
      ∀ index ∈ indexes, index = PerfHeaderIndex.tracingData →
        ∀ file ∈ ReaderState.tracingTexts (headers.value index), file.Parses build := by
  induction indexes generalizing state with
  | nil => exact iff_of_true ⟨state, rfl⟩ fun _ hmem ↦ absurd hmem List.not_mem_nil
  | cons first indexes ih =>
    have hfirst := @parseHeader_returns_iff build state first (headers.value first)
    unfold parseHeaders
    rw [List.forall_mem_cons]
    by_cases hempty : headers.value first = []
    · rw [if_pos hempty, ih, hempty]
      refine ⟨fun h ↦ ⟨fun _ file hfile ↦ ?_, h⟩, fun h ↦ h.2⟩
      exact absurd hfile List.not_mem_nil
    · rw [if_neg hempty, ← hfirst]
      constructor
      · rintro ⟨next, hnext⟩
        obtain ⟨mid, hmid, hnext⟩ := bind_eq_ok.mp hnext
        exact ⟨⟨mid, hmid⟩, ih.mp ⟨next, hnext⟩⟩
      · rintro ⟨⟨mid, hmid⟩, hrest⟩
        rw [hmid, ok_bind]
        exact ih.mpr hrest

/-- The headers of a written file are parsed. -/
theorem imageState_returns_iff {writer : DataFileWriter} {data : List UInt8} :
    (∃ next, imageState build writer data = .ok next) ↔
      ∀ file ∈ ReaderState.tracingTexts (writer.header PerfHeaderIndex.tracingData),
        file.Parses build := by
  have hparse := @parseHeaders_returns_iff build writer.headers (attrsState build writer)
    (List.finRange 32)
  have hone : (∀ index ∈ List.finRange 32, index = PerfHeaderIndex.tracingData →
      ∀ file ∈ ReaderState.tracingTexts (writer.headers.value index), file.Parses build) ↔
        ∀ file ∈ ReaderState.tracingTexts (writer.header PerfHeaderIndex.tracingData),
          file.Parses build :=
    ⟨fun h ↦ h _ (List.mem_finRange _) rfl, fun h index _ hindex ↦ by
      subst hindex
      exact h⟩
  rw [← hone, ← hparse]
  constructor
  · rintro ⟨next, hnext⟩
    obtain ⟨parsed, hparsed, -⟩ := bind_eq_ok.mp hnext
    exact ⟨parsed, hparsed⟩
  · rintro ⟨parsed, hparsed⟩
    unfold imageState
    rw [hparsed, ok_bind]
    exact ⟨_, rfl⟩

end Loading

/-- The `TRACING_DATA` header that a writer finalizes: the one that is synthesized where it is required,
and else the one that was set. -/
def DataFileWriter.finalTracingData (build : Build) (writer : DataFileWriter) : List UInt8 :=
  if writer.TracingDataRequired then tracingDataHeader build writer
  else writer.header PerfHeaderIndex.tracingData

section Opens

variable {build : Build} {calls : List WriterCall} {start writer after : PerfDataFileWriter}
  {file : OutputFile}

/-- Assumes: a run of successful calls behind `create_file`, and a file below the limits of a reader.

The reader opens the file exactly where there is a description, the last one has ids, and the format
files of the tracing data are parsed without a panic. -/
theorem openFile_written_iff {spare : ℕ} {eventOrder : PerfDataFileEventOrder}
    (hcollects : ∀ call ∈ calls, call.Collects)
    (hrun : WriterCall.runAll build (.createFile :: calls) start = .ok (true, writer))
    (hfinal : writer.finalizeAndClose build = .ok (.ok file, after))
    (hheaders : ∀ index, (headerOf build.targetEndian file.content index).length < 2 ^ 31)
    (hids : ∀ desc ∈ calls.filterMap WriterCall.newDesc?, desc.sampleIds.length < 2 ^ 28) :
    (∃ reader, DataFileReader.openFile build spare file.content eventOrder =
      .ok (.ok (), reader)) ↔
      calls.filterMap WriterCall.newDesc? ≠ [] ∧
        Loading.LastHasIds (calls.filterMap WriterCall.newDesc?) ∧
        ∀ text ∈ ReaderState.tracingTexts (writer.inner.finalTracingData build),
          text.Parses build := by
  obtain ⟨synthesized, hfinalized⟩ := finalized_of_run hcollects hrun hfinal
  have hopen (s : OpenState) := @Loading.open_image_iff build synthesized _ hfinalized.fits
    (hfinalized.loadable hheaders hids) s
  have hstate := @Loading.imageState_returns_iff build synthesized
    (calls.flatMap (WriterCall.writtenBytes build))
  have htracing : synthesized.header PerfHeaderIndex.tracingData =
      writer.inner.finalTracingData build := hfinalized.made.tracingData
  have hdescs : synthesized.eventDescs = calls.filterMap WriterCall.newDesc? :=
    hfinalized.made.eventDescs.trans hfinalized.eventDescs
  rw [htracing] at hstate
  rw [← hfinalized.content, hdescs] at hopen
  rw [← hstate]
  constructor
  · rintro ⟨reader, hreader⟩
    obtain ⟨s, hs, -⟩ := PerfDataFileReader.openFile_eq_ok.mp hreader
    obtain ⟨haccepted, state, hstate, -⟩ := (hopen s).mp hs
    exact ⟨haccepted.1, haccepted.2, state, hstate⟩
  · rintro ⟨hsome, hlast, state, hstate⟩
    exact ⟨_, PerfDataFileReader.openFile_eq_ok.mpr
      ⟨_, (hopen _).mpr ⟨⟨hsome, hlast⟩, state, hstate, rfl⟩, rfl⟩⟩

end Opens

/-- The sample, which has a description with an id and no tracing data, is opened. -/
theorem openFile_written_iff_sample :
    ∃ reader, DataFileReader.openFile writtenBuild 0 writtenFile.content .file =
      .ok (.ok (), reader) := by
  obtain ⟨after, hfinal⟩ := writtenWriter_finalizes
  refine (@openFile_written_iff writtenBuild writtenCalls .new writtenWriter after writtenFile 0 .file
    ?_ rfl hfinal (by decide +kernel) (by decide)).mpr
      ⟨by decide, by decide, fun text htext ↦ ?_⟩
  · intro call hcall
    simp only [writtenCalls, List.mem_cons, List.not_mem_nil, or_false] at hcall
    rcases hcall with rfl | rfl | rfl | rfl | rfl | rfl | rfl <;> trivial
  · have hnone : ReaderState.tracingTexts (writtenWriter.inner.finalTracingData writtenBuild) = [] := by
      decide +kernel
    rw [hnone] at htext
    exact absurd htext List.not_mem_nil

/-! #### A file without descriptions -/

/-- The writer behind `create_file`. -/
def createdWriter : PerfDataFileWriter :=
  ⟨.new, some ⟨List.replicate perfFileHeaderSize 0, perfFileHeaderSize⟩⟩

/-- The file that it finalizes. -/
def undescribedFile : OutputFile :=
  match createdWriter.finalizeAndClose writtenBuild with
  | .ok (.ok file, _) => file
  | _ => .new

/-- A file without descriptions is finalized, and a reader refuses it. -/
theorem undescribedFile_refused : ∃ after,
    WriterCall.runAll writtenBuild [.createFile] .new = .ok (true, createdWriter) ∧
      createdWriter.finalizeAndClose writtenBuild = .ok (.ok undescribedFile, after) ∧
      (∀ index,
        (headerOf writtenBuild.targetEndian undescribedFile.content index).length < 2 ^ 31) ∧
      ¬∃ reader, DataFileReader.openFile writtenBuild 0 undescribedFile.content .file =
        .ok (.ok (), reader) := by
  have hfinal : ∃ after,
      createdWriter.finalizeAndClose writtenBuild = .ok (.ok undescribedFile, after) := by
    have hok : (createdWriter.finalizeAndClose writtenBuild).map (·.1.isOk) = .ok true := by
      decide +kernel
    obtain ⟨file, after, hfinal⟩ := exists_of_isOk hok
    refine ⟨after, ?_⟩
    unfold undescribedFile
    rw [hfinal]
  obtain ⟨after, hfinal⟩ := hfinal
  refine ⟨after, rfl, hfinal, by decide +kernel, fun h ↦ ?_⟩
  obtain ⟨reader, hreader⟩ := h
  have hrefused : (DataFileReader.openFile writtenBuild 0 undescribedFile.content .file).map
      (·.1.isOk) = .ok false := by decide +kernel
  rw [hreader] at hrefused
  exact absurd (Except.ok.inj hrefused) Bool.noConfusion

end Tracepoints
