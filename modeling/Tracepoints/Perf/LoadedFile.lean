import Tracepoints.Perf.EventDescRoundTrip
import Tracepoints.Perf.Opening

/-!
# Loading a written file

What `open` makes of the file that a writer leaves. Each attribute is received (`loadAttrsLoop_written`),
each header that is present is set and parsed (`loadHeadersLoop_written`). A section that ends the file
and is empty starts where the file ends, which the reader does not accept: this is the section of the
attributes where there is none, and the section of the last ids where they are empty
(`loadNormal_image`).
-/

set_option autoImplicit false
set_option relaxedAutoImplicit false

namespace Tracepoints

open Exec

namespace Loading

variable {build : Build} {content : List UInt8} {l : LoadState}

/-! ### Reading what is placed -/

theorem readAt_placed {pos : ℕ} {bytes : List UInt8} (h : PlacedAt content pos bytes)
    (hend : pos + bytes.length ≤ content.length) :
    readAt content pos bytes.length l = .ok (.ok bytes, l) :=
  readAt_eq_ok.mpr ⟨hend, h.take_drop, rfl⟩

/-- A section of the file is valid where it does not start at the end. -/
theorem sectionValid_of_le {s : PerfFileSection} (h : s.offset + s.size ≤ content.length) :
    sectionValid content s = decide (s.offset < content.length) := by
  unfold sectionValid
  rw [decide_eq_true (show s.size ≤ content.length - s.offset by omega), Bool.and_true]

theorem readSection_placed {pos : ℕ} {s : PerfFileSection}
    (h : PlacedAt content pos (s.toBytes build.targetEndian))
    (hend : pos + PerfFileSection.byteSize ≤ content.length) :
    readAt content pos PerfFileSection.byteSize l =
      .ok (.ok (s.toBytes build.targetEndian), l) := by
  have hread := @readAt_placed content l _ _ h (by rwa [PerfFileSection.length_toBytes])
  rwa [PerfFileSection.length_toBytes] at hread

theorem section_ofBytes {order : ByteOrder} {s : PerfFileSection} (hoffset : s.offset < 2 ^ 64)
    (hsize : s.size < 2 ^ 64) : PerfFileSection.ofBytes order (s.toBytes order) = s := by
  have hread := PerfFileSection.ofBytes_toBytes order hoffset hsize []
  rwa [List.append_nil] at hread

/-! ### Attributes -/

/-- What the reader receives for the attribute of a description. -/
def attrRecord (desc : WriterEventDesc) : AttrRecord :=
  ⟨{ desc.attr with size := 128 }, [], desc.sampleIds⟩

/-- The state behind the attributes of descriptions: the ids of the last one stay in the buffer. -/
def afterAttrs (build : Build) (descs : List WriterEventDesc) (l : LoadState) : LoadState where
  state := { l.state with attrs := l.state.attrs.receiveAll (descs.map attrRecord) }
  buffer0 := (descs.getLast?.map fun desc ↦ DataFileWriter.idsBytes build desc.sampleIds).getD
    l.buffer0

theorem afterAttrs_cons (desc : WriterEventDesc) (descs : List WriterEventDesc) (l : LoadState) :
    afterAttrs build (desc :: descs) l = afterAttrs build descs (afterAttrs build [desc] l) := by
  cases descs with
  | nil => rfl
  | cons other others =>
    unfold afterAttrs
    rw [List.getLast?_cons_cons]
    cases hlast : (other :: others).getLast? with
    | none => cases List.getLast?_eq_none_iff.mp hlast
    | some last => rfl

/-- One attribute: it is received, where the section of its ids does not start at the end of the file. -/
theorem loadAttr_written {desc : WriterEventDesc} {pos offset : ℕ}
    (hattr : PlacedAt content pos (desc.attr.toBytes build.targetEndian ++
      PerfFileSection.toBytes build.targetEndian
        ⟨offset, (DataFileWriter.idsBytes build desc.sampleIds).length⟩))
    (hends : pos + DataFileWriter.attrEntrySize ≤ content.length)
    (hids : PlacedAt content offset (DataFileWriter.idsBytes build desc.sampleIds))
    (hend : offset + (DataFileWriter.idsBytes build desc.sampleIds).length ≤ content.length)
    (hsmall : content.length < 2 ^ 64) (hfew : desc.sampleIds.length < 2 ^ 28)
    (horder : l.state.sessionInfo.byteReader = build.targetEndian) :
    loadAttr build content 128 pos l =
      if offset < content.length then .ok (.ok (), afterAttrs build [desc] l)
      else .ok (.error .invalidData, l) := by
  have hbyteSize : PerfFileSection.byteSize = 16 := rfl
  have hattrLength : (desc.attr.toBytes build.targetEndian).length = 128 :=
    PerfEventAttr.length_toBytes _ _
  have hentry : DataFileWriter.attrEntrySize = 144 := rfl
  obtain ⟨hattr, hsection⟩ := placedAt_append.mp hattr
  rw [hattrLength] at hsection
  have hreadAttr := @readAt_placed content l _ _ hattr (by omega)
  rw [hattrLength] at hreadAttr
  have hreadSection := @readSection_placed build content l _ _ hsection (by omega)
  have hreadIds := @readAt_placed content l _ _ hids hend
  unfold loadAttr
  rw [show min 128 PerfEventAttr.byteSize = 128 from rfl, Act.bind_of_ok hreadAttr,
    Act.bind_of_ok hreadSection]
  dsimp only
  rw [section_ofBytes (by dsimp only; omega) (by dsimp only; omega), sectionValid_of_le hend]
  dsimp only
  rw [DataFileWriter.length_idsBytes] at hreadIds hend ⊢
  by_cases hinside : offset < content.length
  · have hadd : l.state.attrs.addAttr build build.targetEndian
        (desc.attr.toBytes build.targetEndian) []
          (DataFileWriter.idsBytes build desc.sampleIds) =
        .ok (l.state.attrs.receive (attrRecord desc)) := by
      rw [ReaderAttrs.addAttr_eq_receive (by rw [PerfEventAttr.length_toBytes])]
      unfold ReaderAttrs.record
      rw [ReaderAttrs.readAttr_toBytes, ReaderAttrs.readIds_idsBytes]
      rfl
    rw [if_pos hinside, if_neg (by simp [hinside]; omega), Act.bind_of_ok hreadIds]
    refine Act.updateM_ok ?_
    rw [horder, hadd]
    rfl
  · rw [if_neg hinside, if_pos (by simp [hinside])]
    rfl

/-- The ids of the last description, if there is one, are not empty. -/
def LastHasIds (descs : List WriterEventDesc) : Prop :=
  ∀ last ∈ descs.getLast?, last.sampleIds ≠ []

instance (descs : List WriterEventDesc) : Decidable (LastHasIds descs) :=
  inferInstanceAs (Decidable (∀ last ∈ descs.getLast?, last.sampleIds ≠ []))

theorem lastHasIds_cons (desc : WriterEventDesc) (descs : List WriterEventDesc) :
    LastHasIds (desc :: descs) ↔ (descs = [] → desc.sampleIds ≠ []) ∧ LastHasIds descs := by
  unfold LastHasIds
  cases descs with
  | nil => simp
  | cons other others =>
    rw [List.getLast?_cons_cons]
    exact ⟨fun h ↦ ⟨nofun, h⟩, fun h ↦ h.2⟩

/-- The ids of descriptions are not all empty, where those of the last one are not. -/
theorem LastHasIds.flatten_ne {descs : List WriterEventDesc} (h : LastHasIds descs)
    (hdescs : descs ≠ []) : 0 < (DataFileWriter.idsParts build descs).flatten.length := by
  obtain ⟨last, hlast⟩ := Option.ne_none_iff_exists'.mp
    (fun hnone ↦ hdescs (List.getLast?_eq_none_iff.mp hnone))
  have hmem : DataFileWriter.idsBytes build last.sampleIds ∈
      DataFileWriter.idsParts build descs :=
    List.mem_map_of_mem (List.mem_of_getLast? hlast)
  have hle := (List.sublist_flatten_of_mem hmem).length_le
  have hids := List.length_pos_iff.mpr (h last hlast)
  rw [DataFileWriter.length_idsBytes] at hle
  omega

/-- The attributes of descriptions whose ids end the file: they are received, where the last one has
ids. -/
theorem loadAttrsLoop_written {descs : List WriterEventDesc} {pos offset fuel : ℕ}
    (htable : PlacedAt content pos (DataFileWriter.attrsTable build descs offset))
    (hends : pos + DataFileWriter.attrEntrySize * descs.length ≤ content.length)
    (hids : PlacedAt content offset (DataFileWriter.idsParts build descs).flatten)
    (hend : offset + (DataFileWriter.idsParts build descs).flatten.length = content.length)
    (hsmall : content.length < 2 ^ 64) (hfew : ∀ desc ∈ descs, desc.sampleIds.length < 2 ^ 28)
    (horder : l.state.sessionInfo.byteReader = build.targetEndian) (hfuel : descs.length < fuel) :
    (LastHasIds descs → loadAttrsLoop build content 128
        (pos + DataFileWriter.attrEntrySize * descs.length) fuel pos l =
      .ok (.ok (), afterAttrs build descs l)) ∧
    (¬LastHasIds descs → ∃ l', loadAttrsLoop build content 128
        (pos + DataFileWriter.attrEntrySize * descs.length) fuel pos l =
      .ok (.error .invalidData, l')) := by
  have hentry : DataFileWriter.attrEntrySize = 144 := rfl
  induction descs generalizing pos offset fuel l with
  | nil =>
    obtain ⟨fuel, rfl⟩ : ∃ n, fuel = n + 1 := ⟨fuel - 1, by rw [List.length_nil] at hfuel; omega⟩
    refine ⟨fun _ ↦ ?_, fun h ↦ absurd (fun _ hlast ↦ nomatch hlast) h⟩
    rw [loadAttrsLoop, if_neg (by simp)]
    rfl
  | cons desc descs ih =>
    obtain ⟨fuel, rfl⟩ : ∃ n, fuel = n + 1 := ⟨fuel - 1, by rw [List.length_cons] at hfuel; omega⟩
    rw [List.forall_mem_cons] at hfew
    rw [List.length_cons, Nat.mul_succ] at hends ⊢
    rw [List.length_cons] at hfuel
    unfold DataFileWriter.attrsTable DataFileWriter.idsParts at htable
    rw [List.map_cons, sectionsFrom, List.zip_cons_cons, List.flatMap_cons] at htable
    obtain ⟨hattr, htable⟩ := placedAt_append.mp htable
    rw [List.length_append, PerfEventAttr.length_toBytes, PerfFileSection.length_toBytes] at htable
    unfold DataFileWriter.idsParts at hids hend
    rw [List.map_cons, List.flatten_cons] at hids hend
    rw [List.length_append] at hend
    obtain ⟨hfirst, hids⟩ := placedAt_append.mp hids
    have hload := @loadAttr_written build content l desc pos offset hattr (by omega) hfirst (by omega)
      hsmall hfew.1 horder
    have hpos : pos + 128 + PerfFileSection.byteSize = pos + (PerfEventAttr.byteSize +
        PerfFileSection.byteSize) := Nat.add_assoc _ _ _
    have hendPos : pos + (DataFileWriter.attrEntrySize * descs.length +
        DataFileWriter.attrEntrySize) = pos + (PerfEventAttr.byteSize + PerfFileSection.byteSize) +
          DataFileWriter.attrEntrySize * descs.length := by
      unfold DataFileWriter.attrEntrySize
      omega
    have hrest := @ih (afterAttrs build [desc] l) (pos + (PerfEventAttr.byteSize +
      PerfFileSection.byteSize)) (offset + (DataFileWriter.idsBytes build desc.sampleIds).length) fuel
      htable (by rw [← hendPos]; omega) hids (by unfold DataFileWriter.idsParts; omega) hfew.2 horder
      (by omega)
    rw [lastHasIds_cons, loadAttrsLoop, if_pos (by omega), afterAttrs_cons, hendPos]
    by_cases hinside : offset < content.length
    · rw [if_pos hinside] at hload
      rw [Act.bind_of_ok hload, hpos]
      refine ⟨fun h ↦ hrest.1 h.2, fun h ↦ hrest.2 fun hlast ↦ h ⟨fun hnil ↦ ?_, hlast⟩⟩
      subst hnil
      intro hempty
      rw [hempty] at hend
      simp only [DataFileWriter.idsBytes, List.flatMap_nil, List.map_nil, List.flatten_nil,
        List.length_nil] at hend
      omega
    · rw [if_neg hinside] at hload
      refine ⟨fun h ↦ ?_, fun _ ↦ ⟨l, Act.bind_of_early hload⟩⟩
      have hlast : LastHasIds (desc :: descs) := (lastHasIds_cons desc descs).mpr h
      have hpositive := @LastHasIds.flatten_ne build _ hlast (List.cons_ne_nil _ _)
      unfold DataFileWriter.idsParts at hpositive
      rw [List.map_cons, List.flatten_cons, List.length_append] at hpositive
      omega

/-! ### Headers -/

/-- What loading headers does to the parsed part: each one that has data is set and parsed. -/
def parseHeaders (build : Build) (headers : Headers) : List (Fin 32) → ReaderState → Exec ReaderState
  | [], state => .ok state
  | index :: indexes, state =>
    if headers.value index = [] then parseHeaders build headers indexes state
    else do
      let state ← OpenState.parseHeader build index (state.setHeader index (headers.value index))
      parseHeaders build headers indexes state

/-- The result of loading where the parsed part is that of a computation. -/
def loaded (buffer0 : List UInt8) (parsed : Exec ReaderState) :
    Exec (Except IoError Unit × LoadState) := do
  let state ← parsed
  .ok (.ok (), ⟨state, buffer0⟩)

/-- One header. -/
theorem loadHeader_written {index : Fin 32} {pos offset : ℕ} {data : List UInt8}
    (hsection : PlacedAt content pos
      (PerfFileSection.toBytes build.targetEndian ⟨offset, data.length⟩))
    (hends : pos + PerfFileSection.byteSize ≤ content.length) (hdata : PlacedAt content offset data)
    (hpresent : data ≠ []) (hsmall : content.length < 2 ^ 64) (hshort : data.length < 2 ^ 31) :
    loadHeader build content pos index l =
      loaded l.buffer0 (OpenState.parseHeader build index (l.state.setHeader index data)) := by
  have hend := hdata.length_le_of_ne hpresent
  have hpositive := List.length_pos_iff.mpr hpresent
  have hreadSection := @readSection_placed build content l _ _ hsection hends
  have hreadData := @readAt_placed content l _ _ hdata hend
  unfold loadHeader
  rw [Act.bind_of_ok hreadSection, section_ofBytes (by dsimp only; omega) (by dsimp only; omega),
    sectionValid_of_le hend]
  dsimp only
  rw [if_neg (by simp; omega), Act.bind_of_ok hreadData]
  unfold Act.updateM loaded
  dsimp only
  cases OpenState.parseHeader build index (l.state.setHeader index data) with
  | error fault => rfl
  | ok state => rfl

/-- The headers of a table, whose flags tell which of them are present. -/
theorem loadHeadersLoop_written {headers : Headers} {flags : ℕ} {indexes : List (Fin 32)}
    {pos offset : ℕ}
    (hflags : ∀ index : Fin 32, flags.testBit index = decide (headers.value index ≠ []))
    (htable : PlacedAt content pos (sectionTable build.targetEndian
      (sectionsFrom offset (DataFileWriter.presentData headers indexes))))
    (hends : pos + PerfFileSection.byteSize * (DataFileWriter.presentData headers indexes).length ≤
      content.length)
    (hdata : PlacedAt content offset (DataFileWriter.presentData headers indexes).flatten)
    (hsmall : content.length < 2 ^ 64) (hshort : ∀ index : Fin 32, (headers.value index).length < 2 ^ 31) :
    loadHeadersLoop build content flags indexes pos l =
      loaded l.buffer0 (parseHeaders build headers indexes l.state) := by
  induction indexes generalizing pos offset l with
  | nil => rfl
  | cons index indexes ih =>
    unfold DataFileWriter.presentData at htable hends hdata ih
    rw [loadHeadersLoop, parseHeaders, hflags]
    by_cases hempty : headers.value index = []
    · rw [DataFileWriter.present_cons_of_nil hempty] at htable hends hdata
      rw [if_neg (by simpa using hempty), if_pos hempty]
      exact ih htable hends hdata
    · rw [DataFileWriter.present_cons_of_ne hempty, List.map_cons] at htable hends hdata
      rw [sectionsFrom] at htable
      rw [List.length_cons, Nat.mul_succ] at hends
      rw [List.flatten_cons] at hdata
      obtain ⟨hsection, htable⟩ := placedAt_append.mp htable
      obtain ⟨hheader, hdata⟩ := placedAt_append.mp hdata
      rw [PerfFileSection.length_toBytes] at htable
      have hload := @loadHeader_written build content l index _ _ _ hsection (by omega) hheader hempty
        hsmall (hshort index)
      rw [if_pos (by simpa using hempty), if_neg hempty]
      unfold loaded at hload ⊢
      cases hparse : OpenState.parseHeader build index (l.state.setHeader index (headers.value index)) with
      | error fault =>
        rw [hparse] at hload
        rw [Act.bind_of_fault hload]
        rfl
      | ok state =>
        rw [hparse] at hload
        rw [Act.bind_of_ok hload, ok_bind]
        exact ih htable (by omega) hdata

/-! ### The whole file -/

section Image

open DataFileWriter

variable {writer : DataFileWriter} {data : List UInt8}

theorem fileKind_image :
    fileKind build (image build writer data) = some (build.targetEndian, perfFileHeaderSize) := by
  have hread := @PerfFileHeaderPipe.ofBytes_toBytes build.targetEndian
    ⟨perfile2MagicHostEndian, perfFileHeaderSize⟩ (by decide) (by decide) []
  rw [List.append_nil] at hread
  unfold fileKind OpenState.byteOrderOf
  rw [image_eq, List.take_left' (PerfFileHeaderPipe.length_toBytes _ _), hread, if_pos rfl]

/-- Assumes: a file that is not too large. -/
theorem headerRest_image (hfits : (image build writer data).length ≤ OutputFile.maxSize) :
    headerRest build build.targetEndian (image build writer data) = imageRest build writer data := by
  unfold headerRest
  rw [if_neg (not_not.mpr rfl)]
  exact fileHeaderRest_image hfits

/-- What a reader needs of a writer to accept the sections of its file. -/
structure Loadable (writer : DataFileWriter) : Prop where
  headers : ∀ index, (writer.header index).length < 2 ^ 31
  ids : ∀ desc ∈ writer.eventDescs, desc.sampleIds.length < 2 ^ 28
  descs : attrEntrySize * writer.eventDescs.length < 2 ^ 31

/-- The parsed part behind the attributes of a written file. -/
def attrsState (build : Build) (writer : DataFileWriter) : ReaderState :=
  (afterAttrs build writer.eventDescs ⟨startState build.targetEndian, []⟩).state

/-- The parsed part that loading a written file leaves. -/
def imageState (build : Build) (writer : DataFileWriter) (data : List UInt8) : Exec ReaderState := do
  let state ← parseHeaders build writer.headers (List.finRange 32) (attrsState build writer)
  .ok { state with
    dataBeginFilePos := perfFileHeaderSize
    dataEndFilePos := perfFileHeaderSize + data.length }

/-- Loading a written file: it fails where there is no description, or the last one has no ids, and goes
on with the headers otherwise. -/
theorem loadNormal_image (hfits : (image build writer data).length ≤ OutputFile.maxSize)
    (hloadable : Loadable writer) :
    if writer.eventDescs ≠ [] ∧ LastHasIds writer.eventDescs then
      loadNormal build build.targetEndian (image build writer data)
          ⟨startState build.targetEndian, []⟩ =
        loaded (afterAttrs build writer.eventDescs ⟨startState build.targetEndian, []⟩).buffer0
          (imageState build writer data)
    else ∃ l, loadNormal build build.targetEndian (image build writer data)
        ⟨startState build.targetEndian, []⟩ = .ok (.error .invalidData, l) := by
  have hparts := @imageParts build writer data
  have hlength := @length_image build writer data
  have hmax : OutputFile.maxSize < 2 ^ 63 := by decide
  have hsmall : (image build writer data).length < 2 ^ 64 := by omega
  have hfront : perfFileHeaderSize = 104 := rfl
  have hentry : writer.eventDescs.length ≤ attrEntrySize * writer.eventDescs.length :=
    Nat.le_mul_of_pos_left _ (by decide)
  have hattrsPos : perfFileHeaderSize + data.length + PerfFileSection.byteSize *
      (presentData writer.headers (List.finRange 32)).length ≤ attrsPos build writer data := by
    rw [← hparts.headers_end]
    exact Nat.le_add_right _ _
  have hreadRest : readAt (image build writer data) PerfFileHeaderPipe.byteSize
      PerfFileHeaderRest.byteSize ⟨startState build.targetEndian, []⟩ =
        .ok (.ok (((image build writer data).drop PerfFileHeaderPipe.byteSize).take
          PerfFileHeaderRest.byteSize), ⟨startState build.targetEndian, []⟩) := by
    refine readAt_eq_ok.mpr ⟨?_, rfl, rfl⟩
    show 16 + 88 ≤ _
    omega
  have hattrs : sectionValid (image build writer data)
      ⟨attrsPos build writer data, attrEntrySize * writer.eventDescs.length⟩ =
        decide (writer.eventDescs ≠ []) := by
    rw [sectionValid_of_le (by dsimp only; omega)]
    refine decide_eq_decide.mpr ?_
    dsimp only
    rw [← List.length_pos_iff]
    refine ⟨fun hinside ↦ Nat.pos_of_ne_zero fun hzero ↦ ?_, fun hpos ↦ by omega⟩
    have hnone := List.length_eq_zero_iff.mp hzero
    rw [hnone] at hlength
    simp only [idsParts, List.map_nil, List.flatten_nil, List.length_nil, Nat.mul_zero] at hlength
    omega
  have hdata : sectionValid (image build writer data) ⟨perfFileHeaderSize, data.length⟩ =
      decide (perfFileHeaderSize < (image build writer data).length) :=
    sectionValid_of_le (by dsimp only; omega)
  have htypes : sectionValid (image build writer data) ⟨0, 0⟩ = true := by
    rw [sectionValid_of_le (Nat.zero_le _)]
    exact decide_eq_true (by dsimp only; omega)
  have hstart : loadNormal build build.targetEndian (image build writer data)
      ⟨startState build.targetEndian, []⟩ =
      (if writer.eventDescs = [] then Act.leave .invalidData
      else do
        loadAttrsLoop build (image build writer data) 128
          (attrsPos build writer data + attrEntrySize * writer.eventDescs.length)
          (attrEntrySize * writer.eventDescs.length + 1) (attrsPos build writer data)
        loadHeadersLoop build (image build writer data) (flags0 writer.headers) (List.finRange 32)
          (perfFileHeaderSize + data.length)
        Act.update fun s ↦ { s with
          state := { s.state with
            dataBeginFilePos := perfFileHeaderSize
            dataEndFilePos := perfFileHeaderSize + data.length } } : Loading Unit)
        ⟨startState build.targetEndian, []⟩ := by
    unfold loadNormal
    rw [Act.bind_of_ok hreadRest, headerRest_image hfits]
    unfold imageRest
    dsimp only
    rw [hattrs, hdata, htypes]
    by_cases hdescs : writer.eventDescs = []
    · rw [if_pos (by simp [hdescs]), if_pos hdescs]
    · have hcount := List.length_pos_iff.mpr hdescs
      have hsize := hloadable.descs
      rw [if_neg (by simp [hdescs]; omega), if_neg hdescs]
      unfold loadAttrs
      rw [if_neg (by
        rw [not_or, not_or]
        exact ⟨by dsimp only; omega, by decide, by decide⟩)]
      rfl
  obtain ⟨hgood, hbad⟩ := @loadAttrsLoop_written build (image build writer data)
    ⟨startState build.targetEndian, []⟩ writer.eventDescs (attrsPos build writer data)
    (attrsPos build writer data + attrEntrySize * writer.eventDescs.length)
    (attrEntrySize * writer.eventDescs.length + 1) hparts.attrs (by omega) hparts.ids (by omega)
    hsmall hloadable.ids rfl (by omega)
  rw [hstart]
  by_cases hdescs : writer.eventDescs = []
  · rw [if_neg (fun h ↦ h.1 hdescs), if_pos hdescs]
    exact ⟨_, rfl⟩
  rw [if_neg hdescs]
  by_cases hlast : LastHasIds writer.eventDescs
  · rw [if_pos ⟨hdescs, hlast⟩, Act.bind_of_ok (hgood hlast)]
    have hheaders := @loadHeadersLoop_written build (image build writer data)
      (afterAttrs build writer.eventDescs ⟨startState build.targetEndian, []⟩) writer.headers
      (flags0 writer.headers) (List.finRange 32) (perfFileHeaderSize + data.length)
      (headerDataPos writer data) testBit_flags0 hparts.sections (by omega) hparts.headers hsmall
      hloadable.headers
    unfold imageState attrsState
    unfold loaded at hheaders ⊢
    cases hparse : parseHeaders build writer.headers (List.finRange 32)
        (afterAttrs build writer.eventDescs ⟨startState build.targetEndian, []⟩).state with
    | error fault =>
      rw [hparse] at hheaders
      exact Act.bind_of_fault hheaders
    | ok state =>
      rw [hparse] at hheaders
      rw [Act.bind_of_ok hheaders]
      rfl
  · rw [if_neg (fun h ↦ hlast h.2)]
    obtain ⟨l, hl⟩ := hbad hlast
    exact ⟨l, Act.bind_of_early hl⟩

/-- Opening a written file succeeds exactly where its sections are accepted and its headers are parsed
without a panic. -/
theorem open_image_iff (hfits : (image build writer data).length ≤ OutputFile.maxSize)
    (hloadable : Loadable writer) {s : OpenState} :
    OpenState.open_ build (openStart (image build writer data)) = .ok (.ok (), s) ↔
      (writer.eventDescs ≠ [] ∧ LastHasIds writer.eventDescs) ∧
        ∃ state, imageState build writer data = .ok state ∧
          s = ⟨state, (afterAttrs build writer.eventDescs ⟨startState build.targetEndian, []⟩).buffer0,
            .at_ (image build writer data) perfFileHeaderSize⟩ := by
  have hlength : PerfFileHeaderPipe.byteSize ≤ (image build writer data).length := by
    have hfront : PerfFileHeaderPipe.byteSize ≤ perfFileHeaderSize := by decide
    have hpos : perfFileHeaderSize ≤ attrsPos build writer data :=
      (Nat.le_add_right _ _).trans (Nat.le_add_right _ _)
    rw [length_image]
    omega
  have hsame := open_normal hlength (@fileKind_image build writer data) le_rfl
  have hload := @loadNormal_image build writer data hfits hloadable
  rw [headerRest_image hfits] at hsame
  by_cases haccepted : writer.eventDescs ≠ [] ∧ LastHasIds writer.eventDescs
  · rw [if_pos haccepted] at hload
    rw [hload] at hsame
    unfold loaded at hsame
    cases hstate : imageState build writer data with
    | error fault =>
      rw [hstate] at hsame
      generalize OpenState.open_ build (openStart (image build writer data)) = result at hsame ⊢
      cases hsame
      exact ⟨nofun, fun h ↦ by
        obtain ⟨_, state, hstate, _⟩ := h
        cases hstate⟩
    | ok state =>
      rw [hstate] at hsame
      generalize OpenState.open_ build (openStart (image build writer data)) = result at hsame ⊢
      cases hsame with
      | done _ _ _ hpos =>
        subst hpos
        refine ⟨fun h ↦ ⟨haccepted, state, rfl, ?_⟩, fun h ↦ ?_⟩
        · exact (Prod.mk.inj (Except.ok.inj h)).2.symm
        · obtain ⟨-, state', hstate', rfl⟩ := h
          obtain rfl := Except.ok.inj hstate'
          rfl
  · rw [if_neg haccepted] at hload
    obtain ⟨l, hload⟩ := hload
    rw [hload] at hsame
    generalize OpenState.open_ build (openStart (image build writer data)) = result at hsame ⊢
    cases hsame
    exact ⟨nofun, fun h ↦ absurd h.1 haccepted⟩

end Image

end Loading

/-! ### What finalizing makes of a writer -/

namespace DataFileWriter

variable {build : Build} {writer synthesized : DataFileWriter}

theorem synthesizeEventDesc_ok (hbounded : writer.Bounded)
    (h : writer.synthesizeEventDesc build = .ok synthesized) :
    writer.AsciiNames ∧ synthesized =
      writer.putHeader PerfHeaderIndex.eventDesc (eventDescHeader build writer.eventDescs) := by
  have hunset : build.debugAssertions = false ∨ writer.header PerfHeaderIndex.eventDesc = [] := by
    by_contra hset
    rw [not_or, Bool.not_eq_false] at hset
    rw [synthesizeEventDesc_set hset.1 hset.2] at h
    cases h
  rw [synthesizeEventDesc_eq hbounded hunset] at h
  split_ifs at h with hnames
  exact ⟨hnames, (Except.ok.inj h).symm⟩

theorem synthesizeTracingData_ok (hbounded : writer.Bounded)
    (h : writer.synthesizeTracingData build = .ok synthesized) :
    synthesized = if writer.TracingDataRequired then
      writer.putHeader PerfHeaderIndex.tracingData (tracingDataHeader build writer) else writer := by
  by_cases hrequired : writer.TracingDataRequired
  swap
  · rw [if_neg hrequired]
    rw [synthesizeTracingData_of_not_required hrequired] at h
    exact (Except.ok.inj h).symm
  have hunset : build.debugAssertions = false ∨ writer.header PerfHeaderIndex.tracingData = [] := by
    by_contra hset
    rw [not_or, Bool.not_eq_false] at hset
    rw [synthesizeTracingData_set hset.1 hrequired hset.2] at h
    cases h
  rw [synthesizeTracingData_eq hbounded hrequired hunset] at h
  rw [if_pos hrequired]
  exact (Except.ok.inj h).symm

/-- What is synthesized: the two headers, and nothing else. -/
structure Synthesized (build : Build) (writer synthesized : DataFileWriter) : Prop where
  eventDescs : synthesized.eventDescs = writer.eventDescs
  eventDesc : synthesized.header PerfHeaderIndex.eventDesc = eventDescHeader build writer.eventDescs
  tracingData : synthesized.header PerfHeaderIndex.tracingData =
    if writer.TracingDataRequired then tracingDataHeader build writer
    else writer.header PerfHeaderIndex.tracingData
  others : ∀ index, index ≠ PerfHeaderIndex.tracingData → index ≠ PerfHeaderIndex.eventDesc →
    synthesized.header index = writer.header index

theorem synthesized_of_synthesize (hbounded : writer.Bounded)
    (h : writer.synthesize build = .ok synthesized) : Synthesized build writer synthesized := by
  have hne : PerfHeaderIndex.eventDesc ≠ PerfHeaderIndex.tracingData := by decide
  obtain ⟨traced, htraced, hdescribed⟩ := bind_eq_ok.mp h
  have htraced := synthesizeTracingData_ok hbounded htraced
  by_cases hrequired : writer.TracingDataRequired
  · rw [if_pos hrequired] at htraced
    subst htraced
    obtain ⟨-, rfl⟩ := synthesizeEventDesc_ok (hbounded.putHeader _ _) hdescribed
    refine ⟨rfl, PerfDataFileWriter.header_putHeader_self _ _, ?_, fun index htracing hdesc ↦ ?_⟩
    · rw [if_pos hrequired, PerfDataFileWriter.header_putHeader_of_ne hne,
        PerfDataFileWriter.header_putHeader_self]
    · rw [PerfDataFileWriter.header_putHeader_of_ne hdesc.symm,
        PerfDataFileWriter.header_putHeader_of_ne htracing.symm]
  · rw [if_neg hrequired] at htraced
    subst htraced
    obtain ⟨-, rfl⟩ := synthesizeEventDesc_ok hbounded hdescribed
    refine ⟨rfl, PerfDataFileWriter.header_putHeader_self _ _, ?_, fun index htracing hdesc ↦ ?_⟩
    · rw [if_neg hrequired, PerfDataFileWriter.header_putHeader_of_ne hne]
    · rw [PerfDataFileWriter.header_putHeader_of_ne hdesc.symm]

/-- The `EVENT_DESC` header has more bytes for each description than the table of attributes. -/
theorem attrEntrySize_le_eventDescHeader (descs : List WriterEventDesc) :
    attrEntrySize * descs.length ≤ (eventDescHeader build descs).length := by
  have hrecords : attrEntrySize * descs.length ≤ (descs.flatMap (eventDescRecord build)).length := by
    induction descs with
    | nil => exact Nat.zero_le _
    | cons desc descs ih =>
      rw [List.flatMap_cons, List.length_append, List.length_cons, Nat.mul_succ,
        ReaderState.length_eventDescRecord]
      unfold attrEntrySize PerfEventAttr.byteSize PerfFileSection.byteSize at ih ⊢
      omega
  unfold eventDescHeader
  rw [List.length_append]
  omega

end DataFileWriter

end Tracepoints
