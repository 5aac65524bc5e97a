import Tracepoints.Perf.Reader

/-!
# What opening a file computes

`open` moves through the file with seeks and reads. Here it is put in terms of the content of the
file: `readAt` reads bytes at a position, and `loadNormal` is `open` for a file that is not in pipe
mode, without a file position. `Simulates` relates the two, and `openFile_normal` and
`openFile_pipe` say what opening a file leaves.
-/

set_option autoImplicit false
set_option relaxedAutoImplicit false

namespace Tracepoints

open Exec

namespace InputFile

/-- A file whose length is known, at a position. -/
def at_ (content : List UInt8) (pos : ℕ) : InputFile := ⟨content, pos, pos, content.length⟩

variable {content : List UInt8} {pos newPos count : ℕ}

theorem seekAbsolute_at (h : newPos ≤ content.length) :
    seekAbsolute newPos (at_ content pos) = .ok (.ok (), at_ content newPos) := by
  unfold seekAbsolute at_
  dsimp only
  by_cases hsame : newPos = pos
  · rw [if_pos hsame, hsame]
  · rw [if_neg hsame, if_neg (not_lt.mpr h)]

theorem seekAbsolute_at_of_gt (hpos : pos ≤ content.length) (h : content.length < newPos) :
    seekAbsolute newPos (at_ content pos) = .ok (.error .unexpectedEof, at_ content pos) := by
  have hne : newPos ≠ pos := by omega
  unfold seekAbsolute at_
  dsimp only
  rw [if_neg hne, if_pos h]

theorem readExact_at (h : pos + count ≤ content.length) :
    readExact count (at_ content pos) =
      .ok (.ok ((content.drop pos).take count), at_ content (pos + count)) :=
  if_pos h

theorem readExact_at_of_gt (h : content.length < pos + count) :
    readExact count (at_ content pos) =
      .ok (.error .unexpectedEof, { at_ content pos with cursor := content.length }) :=
  if_neg (not_le.mpr h)

end InputFile

/-- What loading works on apart from the file. -/
structure LoadState where
  state : ReaderState
  buffer0 : List UInt8
  deriving DecidableEq, Repr

/-- A part of `open` in terms of the content of the file. -/
abbrev Loading := Act LoadState IoError

namespace Loading

/-- The bytes at a position. -/
def readAt (content : List UInt8) (pos count : ℕ) : Loading (List UInt8) :=
  if pos + count ≤ content.length then pure ((content.drop pos).take count)
  else Act.leave .unexpectedEof

/-- `section_valid`. -/
def sectionValid (content : List UInt8) (s : PerfFileSection) : Bool :=
  s.offset < content.length && s.size ≤ content.length - s.offset

/-- One attribute of `load_attrs`. -/
def loadAttr (build : Build) (content : List UInt8) (attrSizeInFile attrFilePos : ℕ) :
    Loading Unit := do
  let attrBytes ← readAt content attrFilePos (min attrSizeInFile PerfEventAttr.byteSize)
  let sectionBytes ← readAt content (attrFilePos + attrSizeInFile) PerfFileSection.byteSize
  let ids := PerfFileSection.ofBytes build.targetEndian sectionBytes
  if !sectionValid content ids || ids.size % 8 ≠ 0 || 0x80000000 ≤ ids.size then
    Act.leave .invalidData
  else
    let idsBytes ← readAt content ids.offset ids.size
    Act.updateM fun s ↦ do
      let attrs ← s.state.attrs.addAttr build s.state.sessionInfo.byteReader attrBytes [] idsBytes
      .ok ⟨{ s.state with attrs := attrs }, idsBytes⟩

/-- The loop of `load_attrs`. -/
def loadAttrsLoop (build : Build) (content : List UInt8) (attrSizeInFile attrFilePosEnd : ℕ) :
    ℕ → ℕ → Loading Unit
  | 0, _ => Act.compute (.error .unfinished)
  | fuel + 1, attrFilePos =>
    if attrFilePos < attrFilePosEnd then do
      loadAttr build content attrSizeInFile attrFilePos
      loadAttrsLoop build content attrSizeInFile attrFilePosEnd fuel
        (attrFilePos + attrSizeInFile + PerfFileSection.byteSize)
    else pure ()

/-- `load_attrs`. -/
def loadAttrs (build : Build) (content : List UInt8) (attrsSection : PerfFileSection)
    (attrAndIdSectionSize : ℕ) : Loading Unit :=
  if 0x80000000 ≤ attrsSection.size ∨
      attrAndIdSectionSize < PerfEventAttrSize.ver0 + PerfFileSection.byteSize ∨
      0x10000 < attrAndIdSectionSize then
    Act.leave .invalidData
  else
    loadAttrsLoop build content (attrAndIdSectionSize - PerfFileSection.byteSize)
      (attrsSection.offset + attrsSection.size) (attrsSection.size + 1) attrsSection.offset

/-- One header of `load_headers`. -/
def loadHeader (build : Build) (content : List UInt8) (filePos : ℕ) (index : Fin 32) :
    Loading Unit := do
  let sectionBytes ← readAt content filePos PerfFileSection.byteSize
  let header := PerfFileSection.ofBytes build.targetEndian sectionBytes
  if !sectionValid content header || 0x80000000 ≤ header.size then Act.leave .invalidData
  else
    let bytes ← readAt content header.offset header.size
    Act.updateM fun s ↦ do
      let state ← OpenState.parseHeader build index (s.state.setHeader index bytes)
      .ok { s with state := state }

/-- The loop of `load_headers` over the indexes. -/
def loadHeadersLoop (build : Build) (content : List UInt8) (flags : ℕ) :
    List (Fin 32) → ℕ → Loading Unit
  | [], _ => pure ()
  | index :: indexes, filePos =>
    if flags.testBit index then do
      loadHeader build content filePos index
      loadHeadersLoop build content flags indexes (filePos + PerfFileSection.byteSize)
    else loadHeadersLoop build content flags indexes filePos

/-- The rest of the header of a file, in the byte order of the host. -/
def headerRest (build : Build) (order : ByteOrder) (content : List UInt8) : PerfFileHeaderRest :=
  let hostRest := PerfFileHeaderRest.ofBytes build.targetEndian
    ((content.drop PerfFileHeaderPipe.byteSize).take PerfFileHeaderRest.byteSize)
  if order ≠ build.targetEndian then hostRest.byteSwap else hostRest

/-- `open` for a file that is not in pipe mode, behind its first sixteen bytes. -/
def loadNormal (build : Build) (order : ByteOrder) (content : List UInt8) : Loading Unit := do
  let _ ← readAt content PerfFileHeaderPipe.byteSize PerfFileHeaderRest.byteSize
  let rest := headerRest build order content
  if !sectionValid content rest.attrs || !sectionValid content rest.data ||
      !sectionValid content rest.eventTypes then
    Act.leave .invalidData
  else
    loadAttrs build content rest.attrs rest.attrSize
    loadHeadersLoop build content (rest.flags.getD 0 0) (List.finRange 32)
      (rest.data.offset + rest.data.size)
    Act.update fun s ↦
      { s with
        state := { s.state with
          dataBeginFilePos := rest.data.offset
          dataEndFilePos := rest.data.offset + rest.data.size } }

/-! ### Simulation -/

/-- The results of a part of `open`, which leaves the file at a position that satisfies `final`, and
of the part of loading it is. -/
inductive SameResultAt {α : Type} (content : List UInt8) (final : ℕ → Prop) :
    Exec (Except IoError α × OpenState) → Exec (Except IoError α × LoadState) → Prop
  | fault (fault : Fault) : SameResultAt content final (.error fault) (.error fault)
  | failed (error : IoError) (s : OpenState) (l : LoadState) :
      SameResultAt content final (.ok (.error error, s)) (.ok (.error error, l))
  | done (value : α) (state : ReaderState) (buffer0 : List UInt8) {pos : ℕ} (hpos : final pos) :
      SameResultAt content final (.ok (.ok value, ⟨state, buffer0, .at_ content pos⟩))
        (.ok (.ok value, ⟨state, buffer0⟩))

/-- The results of a part of `open`, which leaves the file somewhere within its content, and of the
part of loading it is. -/
abbrev SameResult {α : Type} (content : List UInt8) :
    Exec (Except IoError α × OpenState) → Exec (Except IoError α × LoadState) → Prop :=
  SameResultAt content (· ≤ content.length)

/-- A part of `open` that succeeds leaves the file at a position, and the part of loading succeeds with
the same. -/
theorem SameResultAt.of_ok {α : Type} {content : List UInt8} {final : ℕ → Prop} {value : α}
    {s : OpenState} {result : Exec (Except IoError α × LoadState)}
    (h : SameResultAt content final (.ok (.ok value, s)) result) :
    ∃ pos, final pos ∧ s.file = .at_ content pos ∧
      result = .ok (.ok value, ⟨s.state, s.buffer0⟩) := by
  cases h with
  | done _ state buffer0 hpos => exact ⟨_, hpos, rfl, rfl⟩

/-- A part of `open` behind the results of another one. -/
theorem SameResultAt.bind {α β : Type} {content : List UInt8} {first final : ℕ → Prop} {opening : Opening α}
    {loading : Loading α} {next : α → Opening β} {next' : α → Loading β} {s : OpenState}
    {l : LoadState} (h : SameResultAt content first (opening s) (loading l))
    (hnext : ∀ value state buffer0 pos, first pos →
      SameResultAt content final (next value ⟨state, buffer0, .at_ content pos⟩)
        (next' value ⟨state, buffer0⟩)) :
    SameResultAt content final ((opening >>= next) s) ((loading >>= next') l) := by
  show SameResultAt content final (Act.andThen opening next s) (Act.andThen loading next' l)
  unfold Act.andThen
  generalize opening s = openingResult at h ⊢
  generalize loading l = loadingResult at h ⊢
  cases h with
  | fault fault => exact .fault fault
  | failed error s l => exact .failed error s l
  | done value state buffer0 hpos => exact hnext value state buffer0 _ hpos

/-- A part of `open` does what a part of loading does, from any position of the file. -/
def Simulates {α : Type} (content : List UInt8) (opening : Opening α) (loading : Loading α) :
    Prop :=
  ∀ (state : ReaderState) (buffer0 : List UInt8) (pos : ℕ), pos ≤ content.length →
    SameResult content (opening ⟨state, buffer0, .at_ content pos⟩) (loading ⟨state, buffer0⟩)

namespace Simulates

variable {α β : Type} {content : List UInt8}

theorem bind {opening : Opening α} {loading : Loading α} {next : α → Opening β}
    {next' : α → Loading β} (h : Simulates content opening loading)
    (hnext : ∀ value, Simulates content (next value) (next' value)) :
    Simulates content (opening >>= next) (loading >>= next') := by
  intro state buffer0 pos hpos
  exact (h state buffer0 pos hpos).bind fun value state' buffer0' pos' hpos' ↦
    hnext value state' buffer0' pos' hpos'

theorem pure (value : α) : Simulates content (pure value) (pure value) :=
  fun state buffer0 _ hpos ↦ .done value state buffer0 hpos

theorem leave (error : IoError) :
    Simulates content (Act.leave error : Opening α) (Act.leave error) :=
  fun _ _ _ _ ↦ .failed error _ _

theorem ite {condition : Prop} [Decidable condition] {yes no : Opening α} {yes' no' : Loading α}
    (hyes : condition → Simulates content yes yes') (hno : ¬condition → Simulates content no no') :
    Simulates content (if condition then yes else no) (if condition then yes' else no') := by
  by_cases h : condition
  · rw [if_pos h, if_pos h]
    exact hyes h
  · rw [if_neg h, if_neg h]
    exact hno h

/-- Reading on from where the file is. -/
theorem read_from {final : ℕ → Prop} {next : List UInt8 → Opening α}
    {next' : List UInt8 → Loading α} {count pos : ℕ} (state : ReaderState) (buffer0 : List UInt8)
    (hnext : ∀ bytes, bytes = (content.drop pos).take count → pos + count ≤ content.length →
      SameResultAt content final (next bytes ⟨state, buffer0, .at_ content (pos + count)⟩)
        (next' bytes ⟨state, buffer0⟩)) :
    SameResultAt content final
      ((OpenState.onFile (InputFile.readExact count) >>= next) ⟨state, buffer0, .at_ content pos⟩)
      ((readAt content pos count >>= next') ⟨state, buffer0⟩) := by
  unfold readAt
  by_cases hread : pos + count ≤ content.length
  · have hfile : OpenState.onFile (InputFile.readExact count) ⟨state, buffer0, .at_ content pos⟩ =
        .ok (.ok ((content.drop pos).take count), ⟨state, buffer0, .at_ content (pos + count)⟩) := by
      unfold OpenState.onFile
      dsimp only
      rw [InputFile.readExact_at hread]
    rw [if_pos hread, Act.bind_of_ok hfile, Act.done_bind]
    exact hnext _ rfl hread
  · have hfile : OpenState.onFile (InputFile.readExact count) ⟨state, buffer0, .at_ content pos⟩ =
        .ok (.error .unexpectedEof,
          ⟨state, buffer0, { InputFile.at_ content pos with cursor := content.length }⟩) := by
      unfold OpenState.onFile
      dsimp only
      rw [InputFile.readExact_at_of_gt (not_le.mp hread)]
    rw [if_neg hread, Act.bind_of_early hfile, Act.bind_of_early rfl]
    exact .failed _ _ _

/-- A seek and a read behind it. -/
theorem seek_read {next : List UInt8 → Opening α} {next' : List UInt8 → Loading α}
    (newPos count : ℕ)
    (hnext : ∀ bytes, bytes = (content.drop newPos).take count →
      newPos + count ≤ content.length → Simulates content (next bytes) (next' bytes)) :
    Simulates content
      (do
        OpenState.onFile (InputFile.seekAbsolute newPos)
        let bytes ← OpenState.onFile (InputFile.readExact count)
        next bytes)
      (readAt content newPos count >>= next') := by
  intro state buffer0 pos hpos
  by_cases hseek : newPos ≤ content.length
  · have hfile : OpenState.onFile (InputFile.seekAbsolute newPos)
        ⟨state, buffer0, .at_ content pos⟩ = .ok (.ok (), ⟨state, buffer0, .at_ content newPos⟩) := by
      unfold OpenState.onFile
      dsimp only
      rw [InputFile.seekAbsolute_at hseek]
    rw [Act.bind_of_ok hfile]
    exact read_from state buffer0 fun bytes hbytes hread ↦
      hnext bytes hbytes hread state buffer0 _ hread
  · have hfile : OpenState.onFile (InputFile.seekAbsolute newPos)
        ⟨state, buffer0, .at_ content pos⟩ =
          .ok (.error .unexpectedEof, ⟨state, buffer0, .at_ content pos⟩) := by
      unfold OpenState.onFile
      dsimp only
      rw [InputFile.seekAbsolute_at_of_gt hpos (not_le.mp hseek)]
    have hread : ¬newPos + count ≤ content.length := by omega
    unfold readAt
    rw [if_neg hread, Act.bind_of_early hfile, Act.bind_of_early rfl]
    exact .failed _ _ _

end Simulates

/-! ### The parts of `open` -/

section Parts

variable {content : List UInt8}

theorem sectionValid_at (pos : ℕ) (s : PerfFileSection) :
    OpenState.sectionValid (.at_ content pos) s = sectionValid content s := rfl

/-- A valid section lies within the file. -/
theorem le_of_sectionValid {s : PerfFileSection} (h : sectionValid content s = true) :
    s.offset < content.length ∧ s.offset + s.size ≤ content.length := by
  unfold sectionValid at h
  rw [Bool.and_eq_true, decide_eq_true_eq, decide_eq_true_eq] at h
  omega

/-- The current state. -/
theorem Simulates.read {α : Type} {next : OpenState → Opening α} {loading : Loading α}
    (h : ∀ state buffer0 pos, pos ≤ content.length →
      SameResult content (next ⟨state, buffer0, .at_ content pos⟩
        ⟨state, buffer0, .at_ content pos⟩) (loading ⟨state, buffer0⟩)) :
    Simulates content (Act.read >>= next) loading :=
  fun state buffer0 pos hpos ↦ h state buffer0 pos hpos

/-- Reading the ids of an attribute and adding it. -/
theorem simulates_addAttr (build : Build) (attrBytes : List UInt8) {ids : PerfFileSection}
    (hvalid : sectionValid content ids = true) :
    Simulates content
      (do
        OpenState.onFile (InputFile.seekAbsolute ids.offset)
        OpenState.readBuffer0 ids.size
        let s ← Act.read
        OpenState.onState fun state ↦ do
          let attrs ← state.attrs.addAttr build state.sessionInfo.byteReader attrBytes [] s.buffer0
          .ok { state with attrs := attrs })
      (do
        let idsBytes ← readAt content ids.offset ids.size
        Act.updateM fun s ↦ do
          let attrs ←
            s.state.attrs.addAttr build s.state.sessionInfo.byteReader attrBytes [] idsBytes
          .ok ⟨{ s.state with attrs := attrs }, idsBytes⟩) := by
  obtain ⟨hoffset, hend⟩ := le_of_sectionValid hvalid
  intro state buffer0 pos hpos
  have hseek : OpenState.onFile (InputFile.seekAbsolute ids.offset)
      ⟨state, buffer0, .at_ content pos⟩ =
        .ok (.ok (), ⟨state, buffer0, .at_ content ids.offset⟩) := by
    unfold OpenState.onFile
    dsimp only
    rw [InputFile.seekAbsolute_at hoffset.le]
  have hread : OpenState.readBuffer0 ids.size ⟨state, buffer0, .at_ content ids.offset⟩ =
      .ok (.ok (), ⟨state, (content.drop ids.offset).take ids.size,
        .at_ content (ids.offset + ids.size)⟩) := by
    have hfile : OpenState.onFile (InputFile.readExact ids.size)
        ⟨state, [], .at_ content ids.offset⟩ = .ok (.ok ((content.drop ids.offset).take ids.size),
          ⟨state, [], .at_ content (ids.offset + ids.size)⟩) := by
      unfold OpenState.onFile
      dsimp only
      rw [InputFile.readExact_at hend]
    unfold OpenState.readBuffer0
    rw [Act.bind_of_ok rfl, Act.bind_of_ok hfile]
    rfl
  unfold readAt
  rw [if_pos hend, Act.bind_of_ok hseek, Act.bind_of_ok hread, Act.bind_of_ok rfl, Act.done_bind]
  unfold OpenState.onState Act.updateM
  dsimp only
  cases state.attrs.addAttr build state.sessionInfo.byteReader attrBytes []
      ((content.drop ids.offset).take ids.size) with
  | error fault => exact .fault fault
  | ok attrs => exact .done () _ _ hend

theorem simulates_loadAttr (build : Build) (attrSizeInFile attrFilePos : ℕ) :
    Simulates content (OpenState.loadAttr build attrSizeInFile attrFilePos)
      (loadAttr build content attrSizeInFile attrFilePos) := by
  unfold OpenState.loadAttr loadAttr
  refine Simulates.seek_read _ _ fun attrBytes _ _ ↦ ?_
  refine Simulates.seek_read _ _ fun sectionBytes _ _ ↦ ?_
  dsimp only
  refine Simulates.read fun state buffer0 pos hpos ↦ ?_
  dsimp only
  rw [sectionValid_at]
  refine Simulates.ite (fun _ ↦ .leave _) (fun hvalid ↦ ?_) state buffer0 pos hpos
  refine simulates_addAttr build attrBytes ?_
  simp only [Bool.or_eq_true, Bool.not_eq_true', not_or, Bool.not_eq_false] at hvalid
  exact hvalid.1.1

theorem simulates_loadAttrsLoop (build : Build) (attrSizeInFile attrFilePosEnd fuel : ℕ)
    (attrFilePos : ℕ) :
    Simulates content (OpenState.loadAttrsLoop build attrSizeInFile attrFilePosEnd fuel attrFilePos)
      (loadAttrsLoop build content attrSizeInFile attrFilePosEnd fuel attrFilePos) := by
  induction fuel generalizing attrFilePos with
  | zero => exact fun _ _ _ _ ↦ .fault _
  | succ fuel ih =>
    unfold OpenState.loadAttrsLoop loadAttrsLoop
    refine Simulates.ite (fun _ ↦ ?_) fun _ ↦ .pure ()
    exact (simulates_loadAttr build attrSizeInFile attrFilePos).bind fun _ ↦ ih _

theorem simulates_loadHeader (build : Build) (filePos : ℕ) (index : Fin 32) :
    Simulates content (OpenState.loadHeader build filePos index)
      (loadHeader build content filePos index) := by
  unfold OpenState.loadHeader loadHeader
  refine Simulates.seek_read _ _ fun sectionBytes _ _ ↦ ?_
  dsimp only
  refine Simulates.read fun state buffer0 pos hpos ↦ ?_
  dsimp only
  rw [sectionValid_at]
  refine Simulates.ite (fun _ ↦ .leave _) (fun _ ↦ ?_) state buffer0 pos hpos
  refine Simulates.seek_read _ _ fun bytes _ _ ↦ fun state buffer0 pos hpos ↦ ?_
  unfold OpenState.onState Act.updateM
  dsimp only
  cases OpenState.parseHeader build index (state.setHeader index bytes) with
  | error fault => exact .fault fault
  | ok state' => exact .done () _ _ hpos

theorem simulates_loadHeadersLoop (build : Build) (flags : ℕ) (indexes : List (Fin 32))
    (filePos : ℕ) :
    Simulates content (OpenState.loadHeadersLoop build flags indexes filePos)
      (loadHeadersLoop build content flags indexes filePos) := by
  induction indexes generalizing filePos with
  | nil => exact .pure ()
  | cons index indexes ih =>
    unfold OpenState.loadHeadersLoop loadHeadersLoop
    refine Simulates.ite (fun _ ↦ ?_) fun _ ↦ ih filePos
    exact (simulates_loadHeader build filePos index).bind fun _ ↦ ih _

theorem simulates_loadAttrs (build : Build) (attrsSection : PerfFileSection)
    (attrAndIdSectionSize : ℕ) (state : ReaderState) {pos : ℕ} (hpos : pos ≤ content.length) :
    SameResult content
      (OpenState.loadAttrs build attrsSection attrAndIdSectionSize ⟨state, [], .at_ content pos⟩)
      (loadAttrs build content attrsSection attrAndIdSectionSize ⟨state, []⟩) := by
  have hassert : (Act.compute (debugAssert build (([] : List UInt8) = [])) : Opening Unit)
      ⟨state, [], .at_ content pos⟩ = .ok (.ok (), ⟨state, [], .at_ content pos⟩) := by
    unfold Act.compute
    rw [debugAssert_of rfl]
  unfold OpenState.loadAttrs loadAttrs
  rw [Act.bind_of_ok rfl, Act.bind_of_ok hassert]
  refine Simulates.ite (fun _ ↦ .leave _) (fun _ ↦ ?_) state [] pos hpos
  exact simulates_loadAttrsLoop build _ _ _ _

/-- `open` behind the first bytes of a file that is not in pipe mode. -/
theorem openNormal_loadNormal (build : Build) (order : ByteOrder) (state : ReaderState)
    (innerLen : ℕ) :
    SameResultAt content (· = (headerRest build order content).data.offset)
      (OpenState.openNormal build order ⟨state, [], ⟨content, PerfFileHeaderPipe.byteSize,
        PerfFileHeaderPipe.byteSize, innerLen⟩⟩)
      (loadNormal build order content ⟨state, []⟩) := by
  unfold OpenState.openNormal loadNormal
  rw [Act.bind_of_ok rfl]
  refine Simulates.read_from state [] fun restBytes hrestBytes hread ↦ ?_
  have hfold : (if order ≠ build.targetEndian then
      (PerfFileHeaderRest.ofBytes build.targetEndian restBytes).byteSwap else
      PerfFileHeaderRest.ofBytes build.targetEndian restBytes) = headerRest build order content := by
    rw [hrestBytes]
    rfl
  dsimp only
  rw [hfold, Act.bind_of_ok rfl]
  dsimp only
  rw [sectionValid_at, sectionValid_at, sectionValid_at]
  generalize headerRest build order content = rest
  by_cases hinvalid : (!sectionValid content rest.attrs || !sectionValid content rest.data ||
      !sectionValid content rest.eventTypes) = true
  · rw [if_pos hinvalid, if_pos hinvalid]
    exact .failed _ _ _
  · rw [if_neg hinvalid, if_neg hinvalid]
    have hdata : sectionValid content rest.data = true := by
      simp only [Bool.or_eq_true, Bool.not_eq_true', not_or, Bool.not_eq_false] at hinvalid
      exact hinvalid.1.2
    refine (simulates_loadAttrs build rest.attrs rest.attrSize state hread).bind
      fun _ state buffer0 pos hpos ↦ ?_
    unfold OpenState.loadHeaders
    refine ((simulates_loadHeadersLoop build (rest.flags.getD 0 0) (List.finRange 32)
      (rest.data.offset + rest.data.size)) state buffer0 pos hpos).bind
      fun _ state buffer0 pos hpos ↦ ?_
    have hseek : OpenState.onFile (InputFile.seekAbsolute rest.data.offset)
        ⟨state, buffer0, .at_ content pos⟩ =
          .ok (.ok (), ⟨state, buffer0, .at_ content rest.data.offset⟩) := by
      unfold OpenState.onFile
      dsimp only
      rw [InputFile.seekAbsolute_at (le_of_sectionValid hdata).1.le]
    rw [Act.bind_of_ok hseek]
    exact .done () _ _ rfl

end Parts

/-! ### Opening a file -/

section Open

variable {build : Build} {content : List UInt8}

/-- The byte order and the header size in the first bytes of a file. -/
def fileKind (build : Build) (content : List UInt8) : Option (ByteOrder × ℕ) :=
  OpenState.byteOrderOf build (PerfFileHeaderPipe.ofBytes build.targetEndian
    (content.take PerfFileHeaderPipe.byteSize))

/-- The parsed part when the byte order is known. -/
def startState (order : ByteOrder) : ReaderState :=
  { ReaderState.new with sessionInfo := .new order }

/-- What `open` starts with. -/
def openStart (content : List UInt8) : OpenState := ⟨.new, [], .new content⟩

theorem onFile_openStart (hlength : PerfFileHeaderPipe.byteSize ≤ content.length) :
    OpenState.onFile (InputFile.readExact PerfFileHeaderPipe.byteSize) (openStart content) =
      .ok (.ok (content.take PerfFileHeaderPipe.byteSize),
        ⟨.new, [], ⟨content, PerfFileHeaderPipe.byteSize, PerfFileHeaderPipe.byteSize, 0⟩⟩) := by
  unfold OpenState.onFile InputFile.readExact openStart InputFile.new
  dsimp only
  rw [if_pos (by omega), List.drop_zero, Nat.zero_add]

/-- `open` of a file that is too short for its first bytes. -/
theorem open_of_short (hlength : content.length < PerfFileHeaderPipe.byteSize) :
    OpenState.open_ build (openStart content) = .ok (.error .unexpectedEof,
      ⟨.new, [], { InputFile.new content with cursor := content.length }⟩) := by
  have hread : OpenState.onFile (InputFile.readExact PerfFileHeaderPipe.byteSize)
      (openStart content) = .ok (.error .unexpectedEof,
        ⟨.new, [], { InputFile.new content with cursor := content.length }⟩) := by
    unfold OpenState.onFile InputFile.readExact openStart InputFile.new
    dsimp only
    rw [if_neg (by omega)]
  unfold OpenState.open_
  rw [Act.bind_of_early hread]

/-- `open` of a file whose first bytes have no magic of a perf.data file. -/
theorem open_of_unknown (hlength : PerfFileHeaderPipe.byteSize ≤ content.length)
    (hkind : fileKind build content = none) :
    OpenState.open_ build (openStart content) = .ok (.error .invalidData,
      ⟨.new, [], ⟨content, PerfFileHeaderPipe.byteSize, PerfFileHeaderPipe.byteSize, 0⟩⟩) := by
  unfold fileKind at hkind
  unfold OpenState.open_
  rw [Act.bind_of_ok (onFile_openStart hlength)]
  dsimp only
  rw [hkind]
  rfl

/-- `open` behind the first bytes of a file. -/
theorem open_of_fileKind {order : ByteOrder} {headerSize : ℕ}
    (hlength : PerfFileHeaderPipe.byteSize ≤ content.length)
    (hkind : fileKind build content = some (order, headerSize)) :
    OpenState.open_ build (openStart content) =
      (if headerSize = PerfFileHeaderPipe.byteSize then
        Act.update fun s ↦
          { s with
            state := { s.state with
              dataBeginFilePos := PerfFileHeaderPipe.byteSize
              dataEndFilePos := 2 ^ 64 - 1 } }
      else if headerSize < perfFileHeaderSize then Act.leave .invalidData
      else OpenState.openNormal build order : Opening Unit)
        ⟨startState order, [], ⟨content, PerfFileHeaderPipe.byteSize,
          PerfFileHeaderPipe.byteSize, 0⟩⟩ := by
  have hassert : (Act.compute (debugAssert build (([] : List UInt8) = [])) : Opening Unit)
      ⟨startState order, [], ⟨content, PerfFileHeaderPipe.byteSize,
        PerfFileHeaderPipe.byteSize, 0⟩⟩ = .ok (.ok (), ⟨startState order, [],
        ⟨content, PerfFileHeaderPipe.byteSize, PerfFileHeaderPipe.byteSize, 0⟩⟩) := by
    unfold Act.compute
    rw [debugAssert_of rfl]
  unfold fileKind at hkind
  unfold OpenState.open_
  rw [Act.bind_of_ok (onFile_openStart hlength)]
  dsimp only
  rw [hkind]
  dsimp only
  rw [Act.bind_of_ok rfl, Act.bind_of_ok rfl]
  exact Act.bind_of_ok hassert

/-- Opening a file that is not in pipe mode is loading its content. -/
theorem open_normal {order : ByteOrder} {headerSize : ℕ}
    (hlength : PerfFileHeaderPipe.byteSize ≤ content.length)
    (hkind : fileKind build content = some (order, headerSize))
    (hsize : perfFileHeaderSize ≤ headerSize) :
    SameResultAt content (· = (headerRest build order content).data.offset)
      (OpenState.open_ build (openStart content))
      (loadNormal build order content ⟨startState order, []⟩) := by
  have hpipe : headerSize ≠ PerfFileHeaderPipe.byteSize := by
    intro h
    rw [h] at hsize
    exact absurd hsize (by decide)
  rw [open_of_fileKind hlength hkind, if_neg hpipe, if_neg (not_lt.mpr hsize)]
  exact openNormal_loadNormal build order _ 0

/-- A file that opens is in pipe mode, and nothing is loaded, or its content is loaded. -/
theorem open_cases {s : OpenState}
    (hopen : OpenState.open_ build (openStart content) = .ok (.ok (), s)) :
    ∃ order headerSize, fileKind build content = some (order, headerSize) ∧
      (s.buffer0 = [] ∨ perfFileHeaderSize ≤ headerSize ∧
        ∃ l, loadNormal build order content ⟨startState order, []⟩ = .ok (.ok (), l) ∧
          s = ⟨l.state, l.buffer0,
            .at_ content (headerRest build order content).data.offset⟩) := by
  by_cases hlength : PerfFileHeaderPipe.byteSize ≤ content.length
  swap
  · rw [open_of_short (not_le.mp hlength)] at hopen
    cases hopen
  cases hkind : fileKind build content with
  | none =>
    rw [open_of_unknown hlength hkind] at hopen
    cases hopen
  | some kind =>
    obtain ⟨order, headerSize⟩ := kind
    refine ⟨order, headerSize, rfl, ?_⟩
    rw [open_of_fileKind hlength hkind] at hopen
    split_ifs at hopen with hpipe hshort
    · cases hopen
      exact .inl rfl
    · cases hopen
    · have hsame := @openNormal_loadNormal content build order (startState order) 0
      rw [hopen] at hsame
      refine .inr ⟨not_lt.mp hshort, ?_⟩
      generalize loadNormal build order content ⟨startState order, []⟩ = loaded at hsame
      cases hsame with
      | done _ state buffer0 hpos =>
        exact ⟨⟨state, buffer0⟩, rfl, by rw [hpos]⟩

end Open

/-! ### The ids that were read last -/

section Ids

variable {build : Build} {content : List UInt8} {l l' : LoadState}

theorem readAt_eq_ok {pos count : ℕ} {bytes : List UInt8} :
    readAt content pos count l = .ok (.ok bytes, l') ↔
      pos + count ≤ content.length ∧ (content.drop pos).take count = bytes ∧ l = l' := by
  unfold readAt
  by_cases h : pos + count ≤ content.length
  · rw [if_pos h, Act.pure_apply]
    simp [h]
  · rw [if_neg h]
    simp [h, Act.leave]

/-- The section with the ids of the attribute at a position. -/
def idsSection (build : Build) (content : List UInt8) (attrSizeInFile attrFilePos : ℕ) :
    PerfFileSection :=
  PerfFileSection.ofBytes build.targetEndian
    ((content.drop (attrFilePos + attrSizeInFile)).take PerfFileSection.byteSize)

theorem loadAttr_buffer0 {attrSizeInFile attrFilePos : ℕ}
    (h : loadAttr build content attrSizeInFile attrFilePos l = .ok (.ok (), l')) :
    l'.buffer0.length ≤ (idsSection build content attrSizeInFile attrFilePos).size := by
  obtain ⟨attrBytes, l1, hattr, h⟩ := Act.bind_eq_ok.mp h
  obtain ⟨sectionBytes, l2, hsection, h⟩ := Act.bind_eq_ok.mp h
  obtain ⟨-, rfl, -⟩ := readAt_eq_ok.mp hsection
  dsimp only at h
  split_ifs at h with hvalid
  · cases h
  obtain ⟨idsBytes, l3, hids, h⟩ := Act.bind_eq_ok.mp h
  obtain ⟨-, rfl, -⟩ := readAt_eq_ok.mp hids
  unfold Act.updateM at h
  dsimp only at h
  split at h
  · cases h
  · next added hadded =>
    obtain ⟨attrs, -, hadded⟩ := Exec.bind_eq_ok.mp hadded
    cases hadded
    cases h
    exact List.length_take_le _ _

/-- The loop leaves the ids of its last iteration in the buffer. -/
theorem loadAttrsLoop_buffer0 {attrSizeInFile attrFilePosEnd fuel attrFilePos bound : ℕ}
    (hids : ∀ k, attrFilePos + k * (attrSizeInFile + PerfFileSection.byteSize) < attrFilePosEnd →
      attrFilePosEnd ≤ attrFilePos + (k + 1) * (attrSizeInFile + PerfFileSection.byteSize) →
      (idsSection build content attrSizeInFile
        (attrFilePos + k * (attrSizeInFile + PerfFileSection.byteSize))).size ≤ bound)
    (hbuffer : attrFilePosEnd ≤ attrFilePos → l.buffer0.length ≤ bound)
    (h : loadAttrsLoop build content attrSizeInFile attrFilePosEnd fuel attrFilePos l =
      .ok (.ok (), l')) : l'.buffer0.length ≤ bound := by
  induction fuel generalizing attrFilePos l with
  | zero => cases h
  | succ fuel ih =>
    unfold loadAttrsLoop at h
    split_ifs at h with hmore
    · obtain ⟨_, l1, hload, hrest⟩ := Act.bind_eq_ok.mp h
      refine ih ?_ (fun hlast ↦ (loadAttr_buffer0 hload).trans ?_) hrest
      · intro k hk hend
        have hnext := hids (k + 1)
        rw [Nat.succ_mul, Nat.succ_mul (k + 1), Nat.succ_mul] at hnext
        rw [Nat.succ_mul] at hend
        have hpos : attrFilePos + attrSizeInFile + PerfFileSection.byteSize +
            k * (attrSizeInFile + PerfFileSection.byteSize) = attrFilePos +
            (k * (attrSizeInFile + PerfFileSection.byteSize) +
              (attrSizeInFile + PerfFileSection.byteSize)) := by omega
        rw [hpos] at hk ⊢
        exact hnext hk (by omega)
      · have hfirst := hids 0
        rw [Nat.zero_mul, Nat.add_zero, Nat.zero_add, Nat.one_mul] at hfirst
        exact hfirst hmore (by omega)
    · cases h
      exact hbuffer (not_lt.mp hmore)

theorem loadHeader_buffer0 {filePos : ℕ} {index : Fin 32}
    (h : loadHeader build content filePos index l = .ok (.ok (), l')) :
    l'.buffer0 = l.buffer0 := by
  obtain ⟨sectionBytes, l1, hsection, h⟩ := Act.bind_eq_ok.mp h
  obtain ⟨-, -, rfl⟩ := readAt_eq_ok.mp hsection
  split_ifs at h with hvalid
  · cases h
  obtain ⟨bytes, l2, hbytes, h⟩ := Act.bind_eq_ok.mp h
  obtain ⟨-, -, rfl⟩ := readAt_eq_ok.mp hbytes
  unfold Act.updateM at h
  dsimp only at h
  split at h
  · cases h
  · next loaded hloaded =>
    obtain ⟨state, -, hloaded⟩ := Exec.bind_eq_ok.mp hloaded
    cases hloaded
    cases h
    rfl

theorem loadHeadersLoop_buffer0 {flags filePos : ℕ} {indexes : List (Fin 32)}
    (h : loadHeadersLoop build content flags indexes filePos l = .ok (.ok (), l')) :
    l'.buffer0 = l.buffer0 := by
  induction indexes generalizing filePos l with
  | nil =>
    cases h
    rfl
  | cons index indexes ih =>
    unfold loadHeadersLoop at h
    split_ifs at h with hflag
    · obtain ⟨_, l1, hload, hrest⟩ := Act.bind_eq_ok.mp h
      rw [ih hrest, loadHeader_buffer0 hload]
    · exact ih h

/-- The id lists of the attributes of a file that is not in pipe mode have at most `bound` bytes. -/
def IdListsWithin (bound : ℕ) (build : Build) (content : List UInt8) : Prop :=
  ∀ order headerSize, fileKind build content = some (order, headerSize) →
    perfFileHeaderSize ≤ headerSize →
    ∀ k, k * (headerRest build order content).attrSize < (headerRest build order content).attrs.size →
      (idsSection build content
        ((headerRest build order content).attrSize - PerfFileSection.byteSize)
        ((headerRest build order content).attrs.offset +
          k * (headerRest build order content).attrSize)).size ≤ bound

/-- The last id list of a file that is not in pipe mode has at most `bound` bytes. -/
def LastIdListWithin (bound : ℕ) (build : Build) (content : List UInt8) : Prop :=
  ∀ order headerSize, fileKind build content = some (order, headerSize) →
    perfFileHeaderSize ≤ headerSize →
    ∀ k, k * (headerRest build order content).attrSize < (headerRest build order content).attrs.size →
      (headerRest build order content).attrs.size ≤
        (k + 1) * (headerRest build order content).attrSize →
      (idsSection build content
        ((headerRest build order content).attrSize - PerfFileSection.byteSize)
        ((headerRest build order content).attrs.offset +
          k * (headerRest build order content).attrSize)).size ≤ bound

theorem IdListsWithin.last {bound : ℕ} (h : IdListsWithin bound build content) :
    LastIdListWithin bound build content :=
  fun order headerSize hkind hsize k hk _ ↦ h order headerSize hkind hsize k hk

/-- What loading leaves in the first buffer is the last one of the id lists. -/
theorem loadNormal_buffer0 {bound headerSize : ℕ} {order : ByteOrder}
    (hids : LastIdListWithin bound build content)
    (hkind : fileKind build content = some (order, headerSize))
    (hsize : perfFileHeaderSize ≤ headerSize)
    (h : loadNormal build order content ⟨startState order, []⟩ = .ok (.ok (), l')) :
    l'.buffer0.length ≤ bound := by
  have hlast := hids order headerSize hkind hsize
  obtain ⟨_, l1, hread, h⟩ := Act.bind_eq_ok.mp h
  obtain ⟨-, -, rfl⟩ := readAt_eq_ok.mp hread
  generalize headerRest build order content = rest at hlast h
  split_ifs at h
  · cases h
  obtain ⟨_, l2, hattrs, h⟩ := Act.bind_eq_ok.mp h
  obtain ⟨_, l3, hheaders, h⟩ := Act.bind_eq_ok.mp h
  have hsame : l'.buffer0 = l3.buffer0 := by
    cases h
    rfl
  rw [hsame, loadHeadersLoop_buffer0 hheaders]
  unfold loadAttrs at hattrs
  split_ifs at hattrs with hchecks
  · cases hattrs
  refine loadAttrsLoop_buffer0 (fun k hk hend ↦ ?_) (fun _ ↦ Nat.zero_le _) hattrs
  have hattrSize : rest.attrSize - PerfFileSection.byteSize + PerfFileSection.byteSize =
      rest.attrSize := by omega
  rw [hattrSize] at hk hend ⊢
  exact hlast k (by omega) (by omega)

end Ids

end Loading

end Tracepoints
