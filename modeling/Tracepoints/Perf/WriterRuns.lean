import Mathlib.Data.List.Induction
import Tracepoints.Perf.WrittenFile

/-!
# Runs of a writer

`PerfDataFileWriter.Sound` is what every call of a writer keeps: a file that is open is at its end,
behind the room for its header, and the sizes that the setters check are within their bounds. With it
`synthesizeEventDesc_eq` and `synthesizeTracingData_eq` say what the two headers that are synthesized
are, and when making them panics.

`WriterCall.run_effect` says once what a call does: it closes or opens the file, writes, or changes what
is collected in the ways of `WriterCall.Collected`. What a run keeps and collects follows by induction:
`runAll_sound`, `runAll_eventDescs`, `runAll_headers` and `runAll_file`.
-/

set_option autoImplicit false
set_option relaxedAutoImplicit false

namespace Tracepoints

open Exec

/-! ### Texts in Latin-1 -/

theorem asLatin1_of_ascii {value : List UInt8} (h : ∀ c ∈ value, c ≤ 0x7F) :
    asLatin1 value = value := if_pos h

theorem length_le_utf8 (chars : List Char) : chars.length ≤ (utf8 chars).length := by
  induction chars with
  | nil => exact le_rfl
  | cons c chars ih =>
    have hpos := utf8Size_pos c
    rw [utf8_cons, List.length_cons, List.length_append]
    omega

/-- A character outside ASCII has at least two bytes. -/
theorem two_le_utf8Size {c : Char} (h : 0x80 ≤ c.toNat) : 2 ≤ (String.utf8EncodeChar c).length := by
  have hencoded := encodedChar_utf8EncodeChar c
  generalize String.utf8EncodeChar c = bytes at hencoded
  cases hencoded with
  | one hlt => omega
  | two => exact le_rfl
  | three => exact Nat.le_succ 2
  | four => exact (Nat.le_succ 2).trans (Nat.le_succ 3)

/-- A text with a byte outside ASCII has fewer characters than bytes. -/
theorem length_lt_utf8 {chars : List Char} (h : ¬∀ c ∈ utf8 chars, c ≤ 0x7F) :
    chars.length < (utf8 chars).length := by
  induction chars with
  | nil => exact absurd (fun c hc ↦ absurd hc List.not_mem_nil) h
  | cons c chars ih =>
    rw [utf8_cons, List.length_cons, List.length_append]
    by_cases hc : c.toNat < 0x80
    · rw [utf8EncodeChar_ascii hc]
      have hrest : ¬∀ c ∈ utf8 chars, c ≤ 0x7F := by
        intro hrest
        refine h fun byte hbyte ↦ ?_
        rw [utf8_cons, utf8EncodeChar_ascii hc, List.singleton_append, List.mem_cons] at hbyte
        rcases hbyte with rfl | hbyte
        · rw [UInt8.le_iff_toNat_le, UInt8.toNat_ofNat]
          exact (Nat.mod_le _ _).trans (Nat.le_of_lt_succ hc)
        · exact hrest byte hbyte
      have hlt := ih hrest
      rw [List.length_singleton]
      omega
    · have htwo := two_le_utf8Size (not_lt.mp hc)
      have hle := length_le_utf8 chars
      omega

/-- A text that is not in ASCII gets shorter. -/
theorem length_asLatin1_lt {value : List UInt8} (h : ¬∀ c ∈ value, c ≤ 0x7F) :
    (asLatin1 value).length < value.length := by
  unfold asLatin1
  rw [if_neg h, List.length_map]
  cases hdecode : decodeUtf8 value with
  | none =>
    refine List.length_pos_of_ne_nil fun hnil ↦ h fun c hc ↦ ?_
    rw [hnil] at hc
    exact absurd hc List.not_mem_nil
  | some chars =>
    rw [decodeUtf8_eq_some_iff] at hdecode
    subst hdecode
    exact length_lt_utf8 h

namespace DataFileWriter

/-! ### Synthesized headers -/

/-- The name of a description is in ASCII. -/
def AsciiNames (writer : DataFileWriter) : Prop :=
  ∀ desc ∈ writer.eventDescs, ∀ c ∈ desc.name, c ≤ 0x7F

instance (writer : DataFileWriter) : Decidable writer.AsciiNames :=
  inferInstanceAs (Decidable (∀ desc ∈ writer.eventDescs, ∀ c ∈ desc.name, c ≤ 0x7F))

/-- What the setters check, and what `add_event_desc` makes of a name. -/
structure Bounded (writer : DataFileWriter) : Prop where
  kallsyms : writer.tracingDataKallsyms.length < 0x80000000
  printk : writer.tracingDataPrintk.length < 0x80000000
  descs_length : writer.eventDescs.length ≤ 0xFFFFFFFF
  name_length : ∀ desc ∈ writer.eventDescs, desc.name.length < nameMaxSize
  ids_length : ∀ desc ∈ writer.eventDescs, desc.sampleIds.length < sampleIdsMaxSize
  name_nul : ∀ desc ∈ writer.eventDescs, 0 ∉ desc.name

section Synthesize

variable {build : Build} {writer : DataFileWriter}

/-- The record of a description in an `EVENT_DESC` header. -/
def eventDescRecord (build : Build) (desc : WriterEventDesc) : List UInt8 :=
  let namePad := 8 - desc.name.length % 8
  desc.attr.toBytes build.targetEndian ++ build.targetEndian.toBytes 4 desc.sampleIds.length ++
    build.targetEndian.toBytes 4 (desc.name.length + namePad) ++
    (desc.name ++ List.replicate namePad 0) ++ idsBytes build desc.sampleIds

/-- The `EVENT_DESC` header of descriptions with names in ASCII. -/
def eventDescHeader (build : Build) (descs : List WriterEventDesc) : List UInt8 :=
  build.targetEndian.toBytes 4 descs.length ++
    build.targetEndian.toBytes 4 PerfEventAttr.byteSize ++ descs.flatMap (eventDescRecord build)

theorem appendEventDesc_ascii {buf : List UInt8} {desc : WriterEventDesc}
    (hname : desc.name.length < nameMaxSize) (hids : desc.sampleIds.length < sampleIdsMaxSize)
    (hascii : ∀ c ∈ desc.name, c ≤ 0x7F) :
    appendEventDesc build buf desc = .ok (buf ++ eventDescRecord build desc) := by
  unfold appendEventDesc eventDescRecord
  dsimp only
  rw [debugAssert_of hname.le, ok_bind, debugAssert_of hids.le, ok_bind, asLatin1_of_ascii hascii,
    slice_of_le (Nat.zero_le _) le_rfl, ok_bind, List.drop_zero, Nat.sub_zero, List.take_length]
  simp only [List.append_assoc]

/-- A name outside ASCII makes the slice of its text panic. -/
theorem appendEventDesc_not_ascii {buf : List UInt8} {desc : WriterEventDesc}
    (hname : desc.name.length < nameMaxSize) (hids : desc.sampleIds.length < sampleIdsMaxSize)
    (hascii : ¬∀ c ∈ desc.name, c ≤ 0x7F) :
    appendEventDesc build buf desc = .error .indexOutOfRange := by
  have hshort := length_asLatin1_lt hascii
  unfold appendEventDesc slice
  dsimp only
  rw [debugAssert_of hname.le, ok_bind, debugAssert_of hids.le, ok_bind, if_neg (by omega)]
  rfl

theorem foldlM_appendEventDesc {descs : List WriterEventDesc}
    (hname : ∀ desc ∈ descs, desc.name.length < nameMaxSize)
    (hids : ∀ desc ∈ descs, desc.sampleIds.length < sampleIdsMaxSize) (buf : List UInt8) :
    descs.foldlM (appendEventDesc build) buf =
      if ∀ desc ∈ descs, ∀ c ∈ desc.name, c ≤ 0x7F then
        .ok (buf ++ descs.flatMap (eventDescRecord build))
      else .error .indexOutOfRange := by
  induction descs generalizing buf with
  | nil =>
    rw [if_pos (fun desc hdesc ↦ absurd hdesc List.not_mem_nil), List.flatMap_nil, List.append_nil]
    rfl
  | cons desc descs ih =>
    rw [List.forall_mem_cons] at hname hids
    rw [List.foldlM_cons]
    by_cases hascii : ∀ c ∈ desc.name, c ≤ 0x7F
    · rw [appendEventDesc_ascii hname.1 hids.1 hascii, ok_bind, ih hname.2 hids.2,
        List.append_assoc, ← List.flatMap_cons]
      have hall : (∀ d ∈ desc :: descs, ∀ c ∈ d.name, c ≤ 0x7F) ↔
          ∀ d ∈ descs, ∀ c ∈ d.name, c ≤ 0x7F := by
        rw [List.forall_mem_cons]
        exact ⟨fun h ↦ h.2, fun h ↦ ⟨hascii, h⟩⟩
      rw [if_congr hall rfl rfl]
    · rw [appendEventDesc_not_ascii hname.1 hids.1 hascii, error_bind,
        if_neg (fun hall ↦ hascii (hall desc List.mem_cons_self))]

/-- What `synthesize_event_desc` does, where the header is not set or assertions are not checked. -/
theorem synthesizeEventDesc_eq (hbounded : writer.Bounded)
    (hunset : build.debugAssertions = false ∨ writer.header PerfHeaderIndex.eventDesc = []) :
    writer.synthesizeEventDesc build =
      if writer.AsciiNames then
        .ok (writer.putHeader PerfHeaderIndex.eventDesc (eventDescHeader build writer.eventDescs))
      else .error .indexOutOfRange := by
  have hassert : debugAssert build (writer.header PerfHeaderIndex.eventDesc = []) = .ok () := by
    rcases hunset with hrelease | hempty
    · exact debugAssert_release hrelease
    · exact debugAssert_of hempty
  unfold synthesizeEventDesc
  rw [hassert, ok_bind, debugAssert_of hbounded.descs_length, ok_bind]
  dsimp only
  rw [foldlM_appendEventDesc hbounded.name_length hbounded.ids_length]
  by_cases hascii : ∀ desc ∈ writer.eventDescs, ∀ c ∈ desc.name, c ≤ 0x7F
  · rw [if_pos hascii, if_pos (show writer.AsciiNames from hascii)]
    rfl
  · rw [if_neg hascii, if_neg (show ¬writer.AsciiNames from hascii)]
    rfl

/-- A header that is set makes `synthesize_event_desc` panic where assertions are checked. -/
theorem synthesizeEventDesc_set (hdebug : build.debugAssertions = true)
    (hset : writer.header PerfHeaderIndex.eventDesc ≠ []) :
    writer.synthesizeEventDesc build = .error .assertion := by
  unfold synthesizeEventDesc debugAssert
  rw [if_pos ⟨hdebug, hset⟩]
  rfl

/-- The `TRACING_DATA` header that is synthesized. -/
def tracingDataHeader (build : Build) (writer : DataFileWriter) : List UInt8 :=
  tracingDataFront build writer ++
    (build.targetEndian.toBytes 4 writer.tracingDataKallsyms.length ++ writer.tracingDataKallsyms) ++
    (build.targetEndian.toBytes 4 writer.tracingDataPrintk.length ++ writer.tracingDataPrintk) ++
    (build.targetEndian.toBytes 8 writer.tracingDataCmdLine.length ++ writer.tracingDataCmdLine)

/-- Both sizes that make the writer synthesize a `TRACING_DATA` header are given. -/
def TracingDataRequired (writer : DataFileWriter) : Prop :=
  writer.tracingDataLongSize ≠ 0 ∧ writer.tracingDataPageSize ≠ 0

instance (writer : DataFileWriter) : Decidable writer.TracingDataRequired :=
  inferInstanceAs (Decidable (_ ∧ _))

theorem synthesizeTracingData_of_not_required (h : ¬writer.TracingDataRequired) :
    writer.synthesizeTracingData build = .ok writer := by
  unfold TracingDataRequired at h
  unfold synthesizeTracingData
  rw [if_pos (by tauto)]

/-- What `synthesize_tracing_data` does, where the header is not set or assertions are not checked. -/
theorem synthesizeTracingData_eq (hbounded : writer.Bounded) (hrequired : writer.TracingDataRequired)
    (hunset : build.debugAssertions = false ∨ writer.header PerfHeaderIndex.tracingData = []) :
    writer.synthesizeTracingData build =
      .ok (writer.putHeader PerfHeaderIndex.tracingData (tracingDataHeader build writer)) := by
  have hassert : debugAssert build (writer.header PerfHeaderIndex.tracingData = []) = .ok () := by
    rcases hunset with hrelease | hempty
    · exact debugAssert_release hrelease
    · exact debugAssert_of hempty
  have hkallsyms := hbounded.kallsyms
  have hprintk := hbounded.printk
  unfold synthesizeTracingData
  rw [if_neg (by unfold TracingDataRequired at hrequired; tauto), hassert, ok_bind]
  unfold appendSection32 appendSection64 tracingDataHeader
  rw [debugAssert_of (by omega), ok_bind, ok_bind, debugAssert_of (by omega), ok_bind, ok_bind]
  simp only [List.append_assoc]

/-- A header that is set makes `synthesize_tracing_data` panic where assertions are checked. -/
theorem synthesizeTracingData_set (hdebug : build.debugAssertions = true)
    (hrequired : writer.TracingDataRequired)
    (hset : writer.header PerfHeaderIndex.tracingData ≠ []) :
    writer.synthesizeTracingData build = .error .assertion := by
  unfold synthesizeTracingData debugAssert
  rw [if_neg (by unfold TracingDataRequired at hrequired; tauto), if_pos ⟨hdebug, hset⟩]
  rfl

/-- The header is all that `synthesize_event_desc` changes. -/
theorem synthesizeEventDesc_changes {after : DataFileWriter}
    (h : writer.synthesizeEventDesc build = .ok after) :
    ∃ value, after = writer.putHeader PerfHeaderIndex.eventDesc value := by
  obtain ⟨_, -, h⟩ := bind_eq_ok.mp h
  obtain ⟨_, -, h⟩ := bind_eq_ok.mp h
  obtain ⟨header, -, h⟩ := bind_eq_ok.mp h
  exact ⟨header, (Except.ok.inj h).symm⟩

/-- The header is all that `synthesize_tracing_data` changes. -/
theorem synthesizeTracingData_changes {after : DataFileWriter}
    (h : writer.synthesizeTracingData build = .ok after) :
    after = writer ∨ ∃ value, after = writer.putHeader PerfHeaderIndex.tracingData value := by
  unfold synthesizeTracingData at h
  split at h
  · exact .inl (Except.ok.inj h).symm
  · obtain ⟨_, -, h⟩ := bind_eq_ok.mp h
    obtain ⟨_, -, h⟩ := bind_eq_ok.mp h
    obtain ⟨_, -, h⟩ := bind_eq_ok.mp h
    exact .inr ⟨_, (Except.ok.inj h).symm⟩

end Synthesize

/-! ### What calls keep -/

namespace Bounded

variable {writer : DataFileWriter}

theorem new : DataFileWriter.new.Bounded where
  kallsyms := by decide
  printk := by decide
  descs_length := by decide
  name_length := fun _ hdesc ↦ absurd hdesc List.not_mem_nil
  ids_length := fun _ hdesc ↦ absurd hdesc List.not_mem_nil
  name_nul := fun _ hdesc ↦ absurd hdesc List.not_mem_nil

/-- Headers do not matter. -/
theorem putHeader (h : writer.Bounded) (index : Fin 32) (value : List UInt8) :
    (writer.putHeader index value).Bounded :=
  ⟨h.kallsyms, h.printk, h.descs_length, h.name_length, h.ids_length, h.name_nul⟩

theorem withHeaders (h : writer.Bounded) (headers : Headers) :
    DataFileWriter.Bounded { writer with headers := headers } :=
  ⟨h.kallsyms, h.printk, h.descs_length, h.name_length, h.ids_length, h.name_nul⟩

theorem addEventDesc {ids : List UInt64} {attr : PerfEventAttr} {name : List UInt8}
    (h : writer.Bounded) (haccepts : ¬writer.RefusesDesc ids name) :
    (writer.addEventDesc name ids attr).Bounded := by
  unfold RefusesDesc at haccepts
  have hname : (untilNul name).length ≤ name.length := (List.takeWhile_prefix _).length_le
  refine ⟨h.kallsyms, h.printk, ?_, ?_, ?_, ?_⟩
  · show (writer.eventDescs ++ [_]).length ≤ _
    rw [List.length_append, List.length_singleton]
    omega
  · intro desc hdesc
    rcases List.mem_append.mp hdesc with hold | hnew
    · exact h.name_length desc hold
    · rw [List.mem_singleton] at hnew
      rw [hnew]
      dsimp only
      omega
  · intro desc hdesc
    rcases List.mem_append.mp hdesc with hold | hnew
    · exact h.ids_length desc hold
    · rw [List.mem_singleton] at hnew
      rw [hnew]
      dsimp only
      omega
  · intro desc hdesc
    rcases List.mem_append.mp hdesc with hold | hnew
    · exact h.name_nul desc hold
    · rw [List.mem_singleton] at hnew
      rw [hnew]
      intro hmem
      exact absurd (List.mem_takeWhile_imp hmem) (by decide)

end Bounded

/-- The formats are kept by their ids. -/
def Keyed (writer : DataFileWriter) : Prop :=
  ∀ entry ∈ writer.eventFormatByCommonType.entries, entry.1 = entry.2.id

namespace Keyed

variable {build : Build} {writer : DataFileWriter}

theorem new : DataFileWriter.new.Keyed := fun _ hentry ↦ absurd hentry List.not_mem_nil

theorem of_eq {other : DataFileWriter} (h : writer.Keyed)
    (heq : other.eventFormatByCommonType = writer.eventFormatByCommonType) : other.Keyed := by
  unfold Keyed
  rw [heq]
  exact h

theorem upsert (h : writer.Keyed) (format : PerfEventFormat) :
    DataFileWriter.Keyed { writer with
      eventFormatByCommonType := writer.eventFormatByCommonType.upsert format.id fun _ ↦ format } := by
  rintro ⟨key, value⟩ hentry
  have hfound := (OrderedMap.mem_entries_iff _).mp hentry
  dsimp only at hfound
  rw [OrderedMap.find?_upsert] at hfound
  split_ifs at hfound with hkey
  · rw [← Option.some.inj hfound]
    exact hkey
  · exact h (key, value) ((OrderedMap.mem_entries_iff _).mpr hfound)

theorem synthesizeTracingData {after : DataFileWriter} (h : writer.Keyed)
    (hsynthesize : writer.synthesizeTracingData build = .ok after) : after.Keyed := by
  rcases synthesizeTracingData_changes hsynthesize with rfl | ⟨value, rfl⟩
  · exact h
  · exact h.of_eq rfl

theorem synthesizeEventDesc {after : DataFileWriter} (h : writer.Keyed)
    (hsynthesize : writer.synthesizeEventDesc build = .ok after) : after.Keyed := by
  obtain ⟨value, rfl⟩ := synthesizeEventDesc_changes hsynthesize
  exact h.of_eq rfl

end Keyed

end DataFileWriter

namespace PerfDataFileWriter

/-- What every call keeps: the setters' checks, and a file at its end behind room for its header. -/
structure Sound (writer : PerfDataFileWriter) : Prop where
  bounded : writer.inner.Bounded
  file : ∀ file ∈ writer.file, ∃ front data, front.length = perfFileHeaderSize ∧
    (front ++ data).length ≤ OutputFile.maxSize ∧ file = .atEnd (front ++ data)

variable {build : Build} {writer after : PerfDataFileWriter}

theorem Sound.new : PerfDataFileWriter.new.Sound :=
  ⟨.new, fun _ hfile ↦ absurd hfile (Option.not_mem_none _)⟩

/-- Data at the end of the file. -/
theorem Sound.writeAll {data : List UInt8} {outcome : Except WriteError Unit} (h : writer.Sound)
    (hrun : writer.onFile (OutputFile.writeAll data) = .ok (outcome, after)) : after.Sound := by
  obtain ⟨inner, file⟩ := writer
  cases file with
  | none =>
    obtain ⟨_, rfl⟩ := Prod.mk.inj (Except.ok.inj hrun)
    exact h
  | some file =>
    obtain ⟨front, before, hfront, hsize, rfl⟩ := h.file file rfl
    have hwrite := @Appends.writeAll (front ++ before) data hsize
    unfold onFile at hrun
    dsimp only at hrun
    by_cases hfits : (front ++ before).length + data.length ≤ OutputFile.maxSize
    · rw [if_pos hfits] at hwrite
      rw [hwrite] at hrun
      obtain ⟨_, rfl⟩ := Prod.mk.inj (Except.ok.inj hrun)
      refine ⟨h.bounded, fun file hfile ↦ ⟨front, before ++ data, hfront, ?_, ?_⟩⟩
      · rw [← List.append_assoc, List.length_append]
        exact hfits
      · rw [← List.append_assoc]
        exact (Option.some.inj hfile).symm
    · rw [if_neg hfits] at hwrite
      obtain ⟨more, hmore, hwrite⟩ := hwrite
      rw [hwrite] at hrun
      obtain ⟨_, rfl⟩ := Prod.mk.inj (Except.ok.inj hrun)
      refine ⟨h.bounded, fun file hfile ↦ ⟨front, before ++ more, hfront, ?_, ?_⟩⟩
      · rw [← List.append_assoc]
        exact hmore
      · rw [← List.append_assoc]
        exact (Option.some.inj hfile).symm

theorem Sound.createFile {outcome : Except WriteError Unit}
    (hrun : PerfDataFileWriter.createFile = .ok (outcome, after)) : after.Sound := by
  have hcreate : PerfDataFileWriter.createFile = .ok (.ok (),
      ⟨.new, some (.atEnd (List.replicate perfFileHeaderSize 0))⟩) := rfl
  rw [hcreate] at hrun
  obtain ⟨_, rfl⟩ := Prod.mk.inj (Except.ok.inj hrun)
  refine ⟨.new, fun file hfile ↦ ⟨List.replicate perfFileHeaderSize 0, [], List.length_replicate, ?_, ?_⟩⟩
  · rw [List.append_nil, List.length_replicate]
    decide
  · rw [List.append_nil]
    exact (Option.some.inj hfile).symm

theorem Sound.finalizeAndClose {outcome : Except WriteError OutputFile} (h : writer.Sound)
    (hrun : writer.finalizeAndClose build = .ok (outcome, after)) : after.Sound := by
  obtain ⟨inner, file⟩ := writer
  cases file with
  | none =>
    obtain ⟨_, rfl⟩ := Prod.mk.inj (Except.ok.inj hrun)
    exact h
  | some file =>
    obtain ⟨front, data, hfront, hsize, rfl⟩ := h.file file rfl
    obtain ⟨traced, htraced, hrun⟩ := bind_eq_ok.mp hrun
    obtain ⟨described, hdescribed, hrun⟩ := bind_eq_ok.mp hrun
    have hbounded : described.Bounded := by
      obtain ⟨value, rfl⟩ := DataFileWriter.synthesizeEventDesc_changes hdescribed
      rcases DataFileWriter.synthesizeTracingData_changes htraced with rfl | ⟨other, rfl⟩
      · exact h.bounded.putHeader _ _
      · exact (h.bounded.putHeader _ _).putHeader _ _
    have hfooter := @DataFileWriter.writeFooter_image build described front data hfront hsize
    by_cases hfits : (described.image build data).length ≤ OutputFile.maxSize
    · rw [if_pos hfits] at hfooter
      rw [hfooter] at hrun
      obtain ⟨_, rfl⟩ := Prod.mk.inj (Except.ok.inj hrun)
      exact .new
    · rw [if_neg hfits] at hfooter
      obtain ⟨more, hmore, hfooter⟩ := hfooter
      rw [hfooter] at hrun
      obtain ⟨_, rfl⟩ := Prod.mk.inj (Except.ok.inj hrun)
      refine ⟨hbounded, fun file hfile ↦ ⟨front, data ++ more, hfront, ?_, ?_⟩⟩
      · rw [← List.append_assoc]
        exact hmore
      · rw [← List.append_assoc]
        exact (Option.some.inj hfile).symm

/-- A change of what is collected. -/
theorem Sound.withInner {inner : DataFileWriter} (h : writer.Sound) (hinner : inner.Bounded) :
    Sound { writer with inner := inner } := ⟨hinner, h.file⟩

/-- `finalize_and_close` keeps the formats by their ids. -/
theorem finalizeAndClose_keyed {outcome : Except WriteError OutputFile} (h : writer.inner.Keyed)
    (hrun : writer.finalizeAndClose build = .ok (outcome, after)) : after.inner.Keyed := by
  obtain ⟨inner, file⟩ := writer
  cases file with
  | none =>
    obtain ⟨_, rfl⟩ := Prod.mk.inj (Except.ok.inj hrun)
    exact h
  | some file =>
    obtain ⟨traced, htraced, hrun⟩ := bind_eq_ok.mp hrun
    obtain ⟨described, hdescribed, hrun⟩ := bind_eq_ok.mp hrun
    obtain ⟨⟨_ | _, _⟩, -, hrun⟩ := bind_eq_ok.mp hrun
    · obtain ⟨_, rfl⟩ := Prod.mk.inj (Except.ok.inj hrun)
      exact (h.synthesizeTracingData htraced).synthesizeEventDesc hdescribed
    · obtain ⟨_, rfl⟩ := Prod.mk.inj (Except.ok.inj hrun)
      exact .new

end PerfDataFileWriter

namespace WriterCall

/-! ### What a call does -/

/-- The call leaves the file open and what is collected where it is. -/
def Collects : WriterCall → Prop
  | closeNoFinalize | finalizeAndClose | createFile => False
  | _ => True

/-- The clock data of a session, where its offset is known. -/
def clockDataOf (build : Build) (session : PerfSessionInfo) : List UInt8 :=
  if !session.clockOffsetKnown then []
  else
    match session.getClockData build with
    | .ok (wallClockNs, clockidTimeNs) =>
      Record.encode build.targetEndian
        [(4, 1), (4, session.clockId), (8, wallClockNs), (8, clockidTimeNs)]
    | .error _ => []

/-- A header by its index, which may be out of range. -/
def headerAt (index : UInt8) (data : List UInt8) : List (Fin 32 × List UInt8) :=
  if h : index.toNat < 32 then [(⟨index.toNat, h⟩, data)] else []

/-- The headers that a call sets, with their data. -/
def sets (build : Build) : WriterCall → List (Fin 32 × List UInt8)
  | setHeader index data => headerAt index data
  | setStringHeader index data => headerAt index (DataFileWriter.stringHeader build data)
  | setNrCpusHeader available online =>
    [(PerfHeaderIndex.nrCpus,
      Record.encode build.targetEndian [(4, available.toNat), (4, online.toNat)])]
  | setSampleTimeHeader first last =>
    [(PerfHeaderIndex.sampleTime,
      Record.encode build.targetEndian [(8, first.toNat), (8, last.toNat)])]
  | setClockidHeader clockid =>
    [(PerfHeaderIndex.clockId, build.targetEndian.toBytes 8 clockid.toNat)]
  | setClockDataHeader clockid wallClockNs clockidTimeNs =>
    [(PerfHeaderIndex.clockData, Record.encode build.targetEndian
      [(4, 1), (4, clockid.toNat), (8, wallClockNs.toNat), (8, clockidTimeNs.toNat)])]
  | setSessionInfoHeaders session =>
    [(PerfHeaderIndex.clockId,
        if session.clockId = 0xFFFFFFFF then [] else build.targetEndian.toBytes 8 session.clockId),
      (PerfHeaderIndex.clockData, clockDataOf build session)]
  | setUtsnameHeaders hostname osRelease arch =>
    if 0x80000000 ≤ hostname.length ∨ 0x80000000 ≤ osRelease.length ∨ 0x80000000 ≤ arch.length then []
    else
      [(PerfHeaderIndex.hostname, DataFileWriter.stringHeader build hostname),
        (PerfHeaderIndex.osRelease, DataFileWriter.stringHeader build osRelease),
        (PerfHeaderIndex.arch, DataFileWriter.stringHeader build arch)]
  | _ => []

/-- The headers with other values of some of them, one behind the other. -/
def putAll (headers : Headers) (values : List (Fin 32 × List UInt8)) : Headers :=
  values.foldl (fun headers value ↦ headers.put value.1 value.2) headers

/-- The sizes that a call gives for a synthesized `TRACING_DATA` header. -/
def sizes? : WriterCall → Option (UInt8 × UInt32)
  | setTracingDataRequired longSize pageSize => some (longSize, pageSize)
  | _ => none

/-- The description that a successful call adds. -/
def newDesc? : WriterCall → Option WriterEventDesc
  | addEventDesc ids attr name => some ⟨untilNul name, ids, attr⟩
  | addTracepointEventDesc ids attr name _ => some ⟨untilNul name, ids, attr⟩
  | _ => none

/-- The bytes that a call writes behind the header of the file. -/
def writtenBytes (build : Build) : WriterCall → List UInt8
  | writeEventData data => data
  | writeEventDataVectored bufs count => bufs.flatten.take count
  | writeFinishedInit =>
    PerfDataFileWriter.finishedEvent build PerfEventHeaderType.finishedInit
  | writeFinishedRound =>
    PerfDataFileWriter.finishedEvent build PerfEventHeaderType.finishedRound
  | _ => []

/-- What a call that collects changes of what is collected, and what it keeps. -/
structure Collected (build : Build) (call : WriterCall) (told : Bool) (before after : DataFileWriter) :
    Prop where
  collects : call.Collects
  headers : after.headers = putAll before.headers (call.sets build)
  sizes : (after.tracingDataLongSize, after.tracingDataPageSize) =
    call.sizes?.getD (before.tracingDataLongSize, before.tracingDataPageSize)
  eventDescs : after.eventDescs = before.eventDescs ++ if told then call.newDesc?.toList else []
  keyed : before.Keyed → after.Keyed
  bounded : before.Bounded → after.Bounded

/-- What a call does to a writer. -/
inductive Effect (build : Build) (writer : PerfDataFileWriter) :
    WriterCall → Bool → PerfDataFileWriter → Prop
  | closed : Effect build writer .closeNoFinalize true .new
  | created {outcome : Except WriteError Unit} {after : PerfDataFileWriter}
      (h : PerfDataFileWriter.createFile = .ok (outcome, after)) :
      Effect build writer .createFile outcome.isOk after
  | finalized {outcome : Except WriteError OutputFile} {after : PerfDataFileWriter}
      (h : writer.finalizeAndClose build = .ok (outcome, after)) :
      Effect build writer .finalizeAndClose outcome.isOk after
  | wrote {call : WriterCall} {outcome : Except WriteError Unit} {after : PerfDataFileWriter}
      (h : writer.onFile (OutputFile.writeAll (call.writtenBytes build)) = .ok (outcome, after))
      (hcollected : Collected build call outcome.isOk writer.inner writer.inner) :
      Effect build writer call outcome.isOk after
  | collected {call : WriterCall} {told : Bool} {inner : DataFileWriter}
      (hbytes : call.writtenBytes build = []) (h : Collected build call told writer.inner inner) :
      Effect build writer call told { writer with inner := inner }

section Calls

variable {build : Build} {writer after : PerfDataFileWriter} {call : WriterCall} {told : Bool}

/-- A call that is refused changes nothing. -/
theorem Collected.refused {inner : DataFileWriter} (hcollects : call.Collects)
    (hsets : call.sets build = []) (hsizes : call.sizes? = none) :
    Collected build call false inner inner where
  collects := hcollects
  headers := by rw [hsets]; rfl
  sizes := by rw [hsizes]; rfl
  eventDescs := (List.append_nil _).symm
  keyed := id
  bounded := id

/-- A call that sets headers only. -/
theorem Collected.ofHeaders {inner : DataFileWriter} {headers : Headers} (hcollects : call.Collects)
    (hheaders : headers = putAll inner.headers (call.sets build)) (hsizes : call.sizes? = none)
    (hdesc : call.newDesc? = none) :
    Collected build call told inner { inner with headers := headers } where
  collects := hcollects
  headers := hheaders
  sizes := by rw [hsizes]; rfl
  eventDescs := by rw [hdesc]; cases told <;> exact (List.append_nil _).symm
  keyed := id
  bounded h := h.withHeaders headers

theorem setHeader_collected {inner : DataFileWriter} (index : UInt8) (data : List UInt8)
    (hcollects : call.Collects) (hsets : call.sets build = headerAt index data)
    (hsizes : call.sizes? = none) (hdesc : call.newDesc? = none) :
    Collected build call (inner.setHeader index data).1 inner (inner.setHeader index data).2 := by
  unfold headerAt at hsets
  unfold DataFileWriter.setHeader
  split
  · next h =>
    rw [dif_pos h] at hsets
    exact .ofHeaders hcollects (by rw [hsets]; rfl) hsizes hdesc
  · next h =>
    rw [dif_neg h] at hsets
    exact .refused hcollects hsets hsizes

theorem setSessionInfoHeaders_eq {headers next : Headers} {session : PerfSessionInfo}
    (h : PerfDataFileWriter.setSessionInfoHeaders build headers session = .ok next) :
    next = putAll headers ((setSessionInfoHeaders session).sets build) := by
  unfold PerfDataFileWriter.setSessionInfoHeaders at h
  unfold sets clockDataOf putAll
  rw [List.foldl_cons, List.foldl_cons, List.foldl_nil]
  have hclockId : (if session.clockId = 0xFFFFFFFF then headers.put PerfHeaderIndex.clockId []
      else PerfDataFileWriter.setClockidHeader build headers session.clockId) =
        headers.put PerfHeaderIndex.clockId (if session.clockId = 0xFFFFFFFF then []
          else build.targetEndian.toBytes 8 session.clockId) := by
    split_ifs <;> rfl
  dsimp only at h
  rw [hclockId] at h
  by_cases hknown : (!session.clockOffsetKnown) = true
  · rw [if_pos hknown] at h ⊢
    exact (Except.ok.inj h).symm
  · rw [if_neg hknown] at h ⊢
    obtain ⟨⟨wallClockNs, clockidTimeNs⟩, hclock, h⟩ := bind_eq_ok.mp h
    rw [hclock]
    exact (Except.ok.inj h).symm

theorem setUtsnameHeaders_collected {inner : DataFileWriter} (hostname osRelease arch : List UInt8) :
    Collected build (.setUtsnameHeaders hostname osRelease arch)
      (inner.setUtsnameHeaders build hostname osRelease arch).1 inner
      (inner.setUtsnameHeaders build hostname osRelease arch).2 := by
  unfold DataFileWriter.setUtsnameHeaders
  split
  · next hsizes => exact .refused trivial (if_pos hsizes) rfl
  · next hsizes =>
    refine .ofHeaders trivial ?_ rfl rfl
    dsimp only [sets]
    rw [if_neg hsizes]
    rfl

/-- One of the setters `set_tracing_data_*`, which change neither headers nor descriptions. -/
theorem setTracingData_collected {inner change : DataFileWriter} {data : List UInt8}
    (hchange : data.length < 0x80000000 → Collected build call true inner change)
    (hsets : call.sets build = []) (hsizes : call.sizes? = none) (hcollects : call.Collects) :
    Collected build call (inner.setTracingData data change).1 inner
      (inner.setTracingData data change).2 := by
  unfold DataFileWriter.setTracingData
  split
  · exact .refused hcollects hsets hsizes
  · next hsize => exact hchange (not_le.mp hsize)

theorem setTracingDataAddFtrace_collected {inner : DataFileWriter} (ftrace : List UInt8) :
    Collected build (.setTracingDataAddFtrace ftrace) (inner.setTracingDataAddFtrace ftrace).1 inner
      (inner.setTracingDataAddFtrace ftrace).2 := by
  unfold DataFileWriter.setTracingDataAddFtrace
  split
  · exact .refused trivial rfl rfl
  · exact ⟨trivial, rfl, rfl, (List.append_nil _).symm, id, fun h ↦ ⟨h.1, h.2, h.3, h.4, h.5, h.6⟩⟩

theorem addEventDesc_collected {inner : DataFileWriter} (ids : List UInt64) (attr : PerfEventAttr)
    (name : List UInt8) :
    Collected build (.addEventDesc ids attr name) (inner.tryAddEventDesc ids attr name).1 inner
      (inner.tryAddEventDesc ids attr name).2 := by
  unfold DataFileWriter.tryAddEventDesc
  split
  · exact .refused trivial rfl rfl
  · next haccepts => exact ⟨trivial, rfl, rfl, rfl, id, fun h ↦ h.addEventDesc haccepts⟩

theorem addTracepointEventDesc_collected {inner : DataFileWriter} (ids : List UInt64)
    (attr : PerfEventAttr) (name : List UInt8) (format : PerfEventFormat) :
    Collected build (.addTracepointEventDesc ids attr name format)
      (inner.addTracepointEventDesc ids attr name format).1 inner
      (inner.addTracepointEventDesc ids attr name format).2 := by
  unfold DataFileWriter.addTracepointEventDesc
  split
  · exact .refused trivial rfl rfl
  · next haccepts =>
    split
    · exact .refused trivial rfl rfl
    · refine ⟨trivial, rfl, rfl, rfl, fun h ↦ (h.upsert format).of_eq rfl, fun h ↦ ?_⟩
      exact DataFileWriter.Bounded.addEventDesc ⟨h.1, h.2, h.3, h.4, h.5, h.6⟩ haccepts

theorem Effect.of_change {inner : DataFileWriter}
    (hrun : change writer inner = .ok (told, after)) (hbytes : call.writtenBytes build = [])
    (h : Collected build call true writer.inner inner) : Effect build writer call told after := by
  obtain ⟨rfl, rfl⟩ := Prod.mk.inj (Except.ok.inj hrun)
  exact .collected hbytes h

theorem Effect.of_tell {result : Bool × DataFileWriter}
    (hrun : tell writer result = .ok (told, after)) (hbytes : call.writtenBytes build = [])
    (h : Collected build call result.1 writer.inner result.2) :
    Effect build writer call told after := by
  obtain ⟨rfl, rfl⟩ := Prod.mk.inj (Except.ok.inj hrun)
  exact .collected hbytes h

theorem Effect.of_written {data : List UInt8}
    (hrun : written (writer.onFile (OutputFile.writeAll data)) = .ok (told, after))
    (hbytes : call.writtenBytes build = data)
    (h : ∀ told, Collected build call told writer.inner writer.inner) :
    Effect build writer call told after := by
  obtain ⟨⟨outcome, mid⟩, hresult, hrun⟩ := bind_eq_ok.mp hrun
  obtain ⟨rfl, rfl⟩ := Prod.mk.inj (Except.ok.inj hrun)
  exact .wrote (hbytes ▸ hresult) (h _)

/-- Assumes: a call that returns. -/
theorem run_effect (hrun : run build writer call = .ok (told, after)) :
    Effect build writer call told after := by
  have hkept {call : WriterCall} (hcollects : call.Collects) (hsets : call.sets build = [])
      (hsizes : call.sizes? = none) (hdesc : call.newDesc? = none) (told : Bool) :
      Collected build call told writer.inner writer.inner :=
    .ofHeaders hcollects (by rw [hsets]; rfl) hsizes hdesc
  cases call with
  | closeNoFinalize =>
    obtain ⟨rfl, rfl⟩ := Prod.mk.inj (Except.ok.inj hrun)
    exact .closed
  | finalizeAndClose =>
    obtain ⟨⟨outcome, mid⟩, hfinalize, hrun⟩ := bind_eq_ok.mp hrun
    obtain ⟨rfl, rfl⟩ := Prod.mk.inj (Except.ok.inj hrun)
    exact .finalized hfinalize
  | createFile =>
    obtain ⟨⟨outcome, mid⟩, hcreate, hrun⟩ := bind_eq_ok.mp hrun
    obtain ⟨rfl, rfl⟩ := Prod.mk.inj (Except.ok.inj hrun)
    exact .created hcreate
  | writeEventData data => exact .of_written hrun rfl (hkept trivial rfl rfl rfl)
  | writeEventDataVectored bufs count => exact .of_written hrun rfl (hkept trivial rfl rfl rfl)
  | writeFinishedInit => exact .of_written hrun rfl (hkept trivial rfl rfl rfl)
  | writeFinishedRound => exact .of_written hrun rfl (hkept trivial rfl rfl rfl)
  | setHeader index data =>
    exact .of_tell hrun rfl (setHeader_collected index data trivial rfl rfl rfl)
  | setStringHeader index data =>
    exact .of_tell hrun rfl (setHeader_collected index _ trivial rfl rfl rfl)
  | setNrCpusHeader available online =>
    exact .of_change hrun rfl (.ofHeaders trivial rfl rfl rfl)
  | setSampleTimeHeader first last => exact .of_change hrun rfl (.ofHeaders trivial rfl rfl rfl)
  | setClockidHeader clockid => exact .of_change hrun rfl (.ofHeaders trivial rfl rfl rfl)
  | setClockDataHeader clockid wallClockNs clockidTimeNs =>
    exact .of_change hrun rfl (.ofHeaders trivial rfl rfl rfl)
  | setSessionInfoHeaders session =>
    obtain ⟨headers, hheaders, hrun⟩ := bind_eq_ok.mp hrun
    exact .of_change hrun rfl (.ofHeaders trivial (setSessionInfoHeaders_eq hheaders) rfl rfl)
  | setUtsnameHeaders hostname osRelease arch =>
    exact .of_tell hrun rfl (setUtsnameHeaders_collected hostname osRelease arch)
  | setTracingDataRequired longSize pageSize =>
    refine .of_change hrun rfl ⟨trivial, rfl, rfl, (List.append_nil _).symm, id, fun h ↦ ?_⟩
    exact ⟨h.1, h.2, h.3, h.4, h.5, h.6⟩
  | setTracingDataHeaderPage data =>
    refine .of_tell hrun rfl (setTracingData_collected (fun _ ↦ ?_) rfl rfl trivial)
    exact ⟨trivial, rfl, rfl, (List.append_nil _).symm, id, fun h ↦ ⟨h.1, h.2, h.3, h.4, h.5, h.6⟩⟩
  | setTracingDataHeaderEvent data =>
    refine .of_tell hrun rfl (setTracingData_collected (fun _ ↦ ?_) rfl rfl trivial)
    exact ⟨trivial, rfl, rfl, (List.append_nil _).symm, id, fun h ↦ ⟨h.1, h.2, h.3, h.4, h.5, h.6⟩⟩
  | setTracingDataKallsyms data =>
    refine .of_tell hrun rfl (setTracingData_collected (fun hdata ↦ ?_) rfl rfl trivial)
    exact ⟨trivial, rfl, rfl, (List.append_nil _).symm, id, fun h ↦ ⟨hdata, h.2, h.3, h.4, h.5, h.6⟩⟩
  | setTracingDataPrintk data =>
    refine .of_tell hrun rfl (setTracingData_collected (fun hdata ↦ ?_) rfl rfl trivial)
    exact ⟨trivial, rfl, rfl, (List.append_nil _).symm, id, fun h ↦ ⟨h.1, hdata, h.3, h.4, h.5, h.6⟩⟩
  | setTracingDataSavedCmdLine data =>
    refine .of_tell hrun rfl (setTracingData_collected (fun _ ↦ ?_) rfl rfl trivial)
    exact ⟨trivial, rfl, rfl, (List.append_nil _).symm, id, fun h ↦ ⟨h.1, h.2, h.3, h.4, h.5, h.6⟩⟩
  | setTracingDataClearFtraces =>
    refine .of_change hrun rfl ⟨trivial, rfl, rfl, (List.append_nil _).symm, id, fun h ↦ ?_⟩
    exact ⟨h.1, h.2, h.3, h.4, h.5, h.6⟩
  | setTracingDataAddFtrace ftrace =>
    exact .of_tell hrun rfl (setTracingDataAddFtrace_collected ftrace)
  | addEventDesc ids attr name => exact .of_tell hrun rfl (addEventDesc_collected ids attr name)
  | addTracepointEventDesc ids attr name format =>
    exact .of_tell hrun rfl (addTracepointEventDesc_collected ids attr name format)

end Calls

/-! ### What a run keeps -/

variable {build : Build} {writer after : PerfDataFileWriter} {told : Bool}

/-- The last call of a run. -/
theorem runAll_concat {calls : List WriterCall} {call : WriterCall}
    (hrun : runAll build (calls ++ [call]) writer = .ok (told, after)) :
    ∃ already mid first, runAll build calls writer = .ok (already, mid) ∧
      run build mid call = .ok (first, after) ∧ told = (already && first) := by
  induction calls generalizing writer told with
  | nil =>
    obtain ⟨⟨first, mid⟩, hcall, hrun⟩ := bind_eq_ok.mp hrun
    obtain ⟨htold, rfl⟩ := Prod.mk.inj (Except.ok.inj hrun)
    exact ⟨true, writer, first, rfl, hcall, by rw [← htold, Bool.and_true, Bool.true_and]⟩
  | cons head calls ih =>
    obtain ⟨⟨first, next⟩, hhead, hrun⟩ := bind_eq_ok.mp hrun
    obtain ⟨⟨others, last⟩, hcalls, hrun⟩ := bind_eq_ok.mp hrun
    obtain ⟨htold, rfl⟩ := Prod.mk.inj (Except.ok.inj hrun)
    obtain ⟨already, mid, final, hrest, hcall, hothers⟩ := ih hcalls
    refine ⟨first && already, mid, final, ?_, hcall, ?_⟩
    · rw [runAll, hhead, ok_bind]
      dsimp only
      rw [hrest]
      rfl
    · rw [← htold, hothers, Bool.and_assoc]

/-- Writing changes the content of the file only. -/
theorem onFile_keeps {action : Writing Unit} {result : Except WriteError Unit}
    (h : writer.onFile action = .ok (result, after)) :
    after.inner = writer.inner ∧ after.file.isSome = writer.file.isSome := by
  obtain ⟨inner, file⟩ := writer
  cases file with
  | none =>
    obtain ⟨_, rfl⟩ := Prod.mk.inj (Except.ok.inj h)
    exact ⟨rfl, rfl⟩
  | some file =>
    obtain ⟨written, -, h⟩ := bind_eq_ok.mp h
    obtain ⟨_, rfl⟩ := Prod.mk.inj (Except.ok.inj h)
    exact ⟨rfl, rfl⟩

/-- Every call keeps the writer sound. -/
theorem Effect.sound {call : WriterCall} (heffect : Effect build writer call told after)
    (h : writer.Sound) : after.Sound := by
  cases heffect with
  | closed => exact .new
  | created hcreate => exact .createFile hcreate
  | finalized hfinalize => exact h.finalizeAndClose hfinalize
  | wrote hwrite _ => exact h.writeAll hwrite
  | collected _ hcollected => exact h.withInner (hcollected.bounded h.bounded)

/-- Every run keeps the writer sound. -/
theorem runAll_sound {calls : List WriterCall} (h : writer.Sound)
    (hrun : runAll build calls writer = .ok (told, after)) : after.Sound := by
  induction calls using List.reverseRecOn generalizing told after with
  | nil =>
    obtain ⟨_, rfl⟩ := Prod.mk.inj (Except.ok.inj hrun)
    exact h
  | append_singleton calls call ih =>
    obtain ⟨_, _, _, hcalls, hcall, -⟩ := runAll_concat hrun
    exact (run_effect hcall).sound (ih hcalls)

/-- Every call keeps the formats by their ids. -/
theorem Effect.keyed {call : WriterCall} (heffect : Effect build writer call told after)
    (h : writer.inner.Keyed) : after.inner.Keyed := by
  cases heffect with
  | closed => exact .new
  | created hcreate =>
    rw [(onFile_keeps hcreate).1]
    exact .new
  | finalized hfinalize => exact PerfDataFileWriter.finalizeAndClose_keyed h hfinalize
  | wrote hwrite _ =>
    rw [(onFile_keeps hwrite).1]
    exact h
  | collected _ hcollected => exact hcollected.keyed h

/-- Every run keeps the formats by their ids. -/
theorem runAll_keyed {calls : List WriterCall} (h : writer.inner.Keyed)
    (hrun : runAll build calls writer = .ok (told, after)) : after.inner.Keyed := by
  induction calls using List.reverseRecOn generalizing told after with
  | nil =>
    obtain ⟨_, rfl⟩ := Prod.mk.inj (Except.ok.inj hrun)
    exact h
  | append_singleton calls call ih =>
    obtain ⟨_, _, _, hcalls, hcall, -⟩ := runAll_concat hrun
    exact (run_effect hcall).keyed (ih hcalls)

/-! ### What a run collects -/

/-- What a call that collects leaves of what is collected. -/
theorem Effect.inner {call : WriterCall} (heffect : Effect build writer call told after)
    (hcollects : call.Collects) : Collected build call told writer.inner after.inner := by
  cases heffect with
  | closed => exact hcollects.elim
  | created _ => exact hcollects.elim
  | finalized _ => exact hcollects.elim
  | wrote hwrite hcollected =>
    rw [(onFile_keeps hwrite).1]
    exact hcollected
  | collected _ hcollected => exact hcollected

/-- A run of successful calls adds their descriptions in order. -/
theorem runAll_eventDescs {calls : List WriterCall} (hcollects : ∀ call ∈ calls, call.Collects)
    (hrun : runAll build calls writer = .ok (true, after)) :
    after.inner.eventDescs = writer.inner.eventDescs ++ calls.filterMap newDesc? := by
  induction calls using List.reverseRecOn generalizing after with
  | nil =>
    obtain ⟨_, rfl⟩ := Prod.mk.inj (Except.ok.inj hrun)
    rw [List.filterMap_nil, List.append_nil]
  | append_singleton calls call ih =>
    rw [List.forall_mem_append, List.forall_mem_singleton] at hcollects
    obtain ⟨already, mid, first, hcalls, hcall, htold⟩ := runAll_concat hrun
    obtain ⟨rfl, rfl⟩ := Bool.and_eq_true_iff.mp htold.symm
    have hcollected := (run_effect hcall).inner hcollects.2
    rw [hcollected.eventDescs, ih hcollects.1 hcalls, if_pos rfl, List.append_assoc,
      List.filterMap_append, List.filterMap_cons, List.filterMap_nil]
    rfl

theorem putAll_append (headers : Headers) (first second : List (Fin 32 × List UInt8)) :
    putAll headers (first ++ second) = putAll (putAll headers first) second :=
  List.foldl_append

/-- A run of calls sets their headers in order. -/
theorem runAll_headers {calls : List WriterCall} (hcollects : ∀ call ∈ calls, call.Collects)
    (hrun : runAll build calls writer = .ok (told, after)) :
    after.inner.headers = putAll writer.inner.headers (calls.flatMap (sets build)) := by
  induction calls using List.reverseRecOn generalizing told after with
  | nil =>
    obtain ⟨_, rfl⟩ := Prod.mk.inj (Except.ok.inj hrun)
    rfl
  | append_singleton calls call ih =>
    rw [List.forall_mem_append, List.forall_mem_singleton] at hcollects
    obtain ⟨_, _, _, hcalls, hcall, -⟩ := runAll_concat hrun
    rw [((run_effect hcall).inner hcollects.2).headers, ih hcollects.1 hcalls, List.flatMap_append,
      List.flatMap_singleton, putAll_append]

/-- The data that calls set last for a header; empty where none of them sets it. -/
def lastData (build : Build) (calls : List WriterCall) (index : Fin 32) : List UInt8 :=
  ((calls.flatMap (sets build)).reverse.lookup index).getD []

theorem getElem_putAll (headers : Headers) (values : List (Fin 32 × List UInt8)) (index : Fin 32) :
    (putAll headers values).value index =
      (values.reverse.lookup index).getD (headers.value index) := by
  induction values using List.reverseRecOn with
  | nil => rfl
  | append_singleton values value ih =>
    rw [putAll_append, List.reverse_append, List.reverse_singleton, List.singleton_append]
    obtain ⟨other, data⟩ := value
    rw [List.lookup_cons]
    unfold putAll
    rw [List.foldl_cons, List.foldl_nil]
    by_cases hsame : index = other
    · subst hsame
      rw [beq_self_eq_true]
      exact Vector.getElem_set_self _
    · rw [beq_false_of_ne hsame]
      refine (Vector.getElem_set_ne _ _ fun heq ↦ hsame (Fin.ext heq.symm)).trans ?_
      exact ih

/-- The headers that calls set of a writer that had none. -/
theorem header_eq_lastData {calls : List WriterCall} {inner : DataFileWriter}
    (h : inner.headers = putAll (.replicate 32 []) (calls.flatMap (sets build))) (index : Fin 32) :
    inner.header index = lastData build calls index := by
  unfold DataFileWriter.header lastData
  rw [h, getElem_putAll]
  congr 1
  exact Vector.getElem_replicate index.isLt

/-- A successful call writes its bytes at the end of the file. -/
theorem Effect.file {call : WriterCall} {content : List UInt8}
    (heffect : Effect build writer call true after) (hcollects : call.Collects)
    (hfile : writer.file = some (.atEnd content)) (hcontent : content.length ≤ OutputFile.maxSize) :
    after.file = some (.atEnd (content ++ call.writtenBytes build)) ∧
      (content ++ call.writtenBytes build).length ≤ OutputFile.maxSize := by
  generalize htold : true = told at heffect
  cases heffect with
  | closed => exact hcollects.elim
  | created _ => exact hcollects.elim
  | finalized _ => exact hcollects.elim
  | collected hbytes _ =>
    rw [hbytes, List.append_nil]
    exact ⟨hfile, hcontent⟩
  | wrote hwrite _ =>
    obtain ⟨inner, file⟩ := writer
    dsimp only at hfile
    subst hfile
    obtain ⟨⟨wrote, file⟩, hwritten, hresult⟩ := bind_eq_ok.mp hwrite
    obtain ⟨rfl, rfl⟩ := Prod.mk.inj (Except.ok.inj hresult)
    have happends := @Appends.writeAll content (call.writtenBytes build) hcontent
    by_cases hfits : content.length + (call.writtenBytes build).length ≤ OutputFile.maxSize
    · rw [if_pos hfits, hwritten] at happends
      obtain ⟨-, rfl⟩ := Prod.mk.inj (Except.ok.inj happends)
      exact ⟨rfl, by rwa [List.length_append]⟩
    · rw [if_neg hfits] at happends
      obtain ⟨more, -, happends⟩ := happends
      rw [hwritten] at happends
      obtain ⟨rfl, -⟩ := Prod.mk.inj (Except.ok.inj happends)
      cases htold

/-- A run of successful calls writes their bytes one behind the other. -/
theorem runAll_file {calls : List WriterCall} {content : List UInt8}
    (hcollects : ∀ call ∈ calls, call.Collects) (hfile : writer.file = some (.atEnd content))
    (hcontent : content.length ≤ OutputFile.maxSize)
    (hrun : runAll build calls writer = .ok (true, after)) :
    after.file = some (.atEnd (content ++ calls.flatMap (writtenBytes build))) ∧
      (content ++ calls.flatMap (writtenBytes build)).length ≤ OutputFile.maxSize := by
  induction calls using List.reverseRecOn generalizing after with
  | nil =>
    obtain ⟨_, rfl⟩ := Prod.mk.inj (Except.ok.inj hrun)
    rw [List.flatMap_nil, List.append_nil]
    exact ⟨hfile, hcontent⟩
  | append_singleton calls call ih =>
    rw [List.forall_mem_append, List.forall_mem_singleton] at hcollects
    obtain ⟨already, mid, first, hcalls, hcall, htold⟩ := runAll_concat hrun
    obtain ⟨rfl, rfl⟩ := Bool.and_eq_true_iff.mp htold.symm
    obtain ⟨hmid, hsize⟩ := ih hcollects.1 hcalls
    rw [List.flatMap_append, List.flatMap_singleton, ← List.append_assoc]
    exact (run_effect hcall).file hcollects.2 hmid hsize

end WriterCall

end Tracepoints
