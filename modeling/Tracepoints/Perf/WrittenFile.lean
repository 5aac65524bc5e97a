import Mathlib.Order.Fin.Basic
import Tracepoints.Lib.Placed
import Tracepoints.Perf.FileWriter

/-!
# What a writer leaves in a file

A part of the writer at the end of a file appends bytes (`Appends`), or fails because the file would
become too large. `DataFileWriter.image` is the file that `finalize_and_close` leaves, put together from
its parts, and `writeFooter_image` says so.

`sectionsFrom` lays out data that stands one behind the other; `placedAt_sections` finds it again. The
headers and the ids of the descriptions are both laid out like that.
-/

set_option autoImplicit false
set_option relaxedAutoImplicit false

namespace Tracepoints

open Exec

/-! ### Sections -/

/-- The sections of data that stands one behind the other. -/
def sectionsFrom : ℕ → List (List UInt8) → List PerfFileSection
  | _, [] => []
  | offset, data :: others => ⟨offset, data.length⟩ :: sectionsFrom (offset + data.length) others

theorem length_sectionsFrom (offset : ℕ) (parts : List (List UInt8)) :
    (sectionsFrom offset parts).length = parts.length := by
  induction parts generalizing offset with
  | nil => rfl
  | cons part parts ih => rw [sectionsFrom, List.length_cons, ih, List.length_cons]

/-- The bytes of a table of sections. -/
def sectionTable (order : ByteOrder) (sections : List PerfFileSection) : List UInt8 :=
  sections.flatMap (PerfFileSection.toBytes order)

theorem length_sectionTable (order : ByteOrder) (sections : List PerfFileSection) :
    (sectionTable order sections).length = PerfFileSection.byteSize * sections.length := by
  induction sections with
  | nil => rfl
  | cons s sections ih =>
    unfold sectionTable at ih ⊢
    rw [List.flatMap_cons, List.length_append, PerfFileSection.length_toBytes, ih, List.length_cons,
      Nat.mul_succ, Nat.add_comm]

/-! ### Appending -/

namespace OutputFile

/-- A file at whose end the next write is. -/
def atEnd (content : List UInt8) : OutputFile := ⟨content, content.length⟩

theorem put_atEnd (content data : List UInt8) : (atEnd content).put data = atEnd (content ++ data) := by
  unfold put atEnd
  dsimp only
  rw [List.take_length, List.drop_of_length_le (Nat.le_add_right _ _), List.append_nil,
    List.length_append]

end OutputFile

/-- An action fails because the file would become too large; it has appended something. -/
def TooLarge {α : Type} (action : Writing α) (content : List UInt8) : Prop :=
  ∃ more, (content ++ more).length ≤ OutputFile.maxSize ∧
    action (.atEnd content) = .ok (.error .fileTooLarge, .atEnd (content ++ more))

/-- A part of the writer appends bytes to the end of a file and returns a value, or fails where the file
would become too large. -/
def Appends {α : Type} (action : Writing α) (content bytes : List UInt8) (value : α) : Prop :=
  content.length ≤ OutputFile.maxSize →
    if content.length + bytes.length ≤ OutputFile.maxSize then
      action (.atEnd content) = .ok (.ok value, .atEnd (content ++ bytes))
    else TooLarge action content

theorem TooLarge.bind {α β : Type} {first : Writing α} {next : α → Writing β} {content : List UInt8}
    (h : TooLarge first content) : TooLarge (first >>= next) content := by
  obtain ⟨more, hmore, h⟩ := h
  exact ⟨more, hmore, Act.bind_of_early h⟩

/-- A failure behind something appended. -/
theorem TooLarge.behind {α β : Type} {first : Writing α} {next : α → Writing β}
    {content bytes : List UInt8} {value : α}
    (hfirst : first (.atEnd content) = .ok (.ok value, .atEnd (content ++ bytes)))
    (h : TooLarge (next value) (content ++ bytes)) : TooLarge (first >>= next) content := by
  obtain ⟨more, hmore, h⟩ := h
  rw [List.append_assoc] at hmore h
  exact ⟨bytes ++ more, hmore, by rw [Act.bind_of_ok hfirst, h]⟩

namespace Appends

variable {α β : Type} {content : List UInt8}

theorem pure (value : α) : Appends (pure value) content [] value := by
  intro hcontent
  rw [List.length_nil, if_pos (by omega), List.append_nil]
  rfl

theorem writeAll (data : List UInt8) : Appends (OutputFile.writeAll data) content data () := by
  intro hcontent
  have hpos : (OutputFile.atEnd content).innerPos = content.length := rfl
  by_cases hfits : content.length + data.length ≤ OutputFile.maxSize
  · unfold OutputFile.writeAll
    rw [if_pos hfits, hpos, if_neg (not_lt.mpr hfits), OutputFile.put_atEnd]
  · rw [if_neg hfits]
    refine ⟨[], by rwa [List.append_nil], ?_⟩
    unfold OutputFile.writeAll
    rw [hpos, if_pos (not_le.mp hfits), List.append_nil]

theorem bind {first : Writing α} {next : α → Writing β} {bytes behind : List UInt8} {value : α}
    {result : β} (hfirst : Appends first content bytes value)
    (hnext : Appends (next value) (content ++ bytes) behind result) :
    Appends (first >>= next) content (bytes ++ behind) result := by
  intro hcontent
  have hfirst := hfirst hcontent
  unfold Appends at hnext
  rw [List.length_append] at hnext ⊢
  rw [← Nat.add_assoc]
  by_cases hfits : content.length + bytes.length ≤ OutputFile.maxSize
  · rw [if_pos hfits] at hfirst
    have hnext := hnext hfits
    by_cases hall : content.length + bytes.length + behind.length ≤ OutputFile.maxSize
    · rw [if_pos hall] at hnext ⊢
      rw [Act.bind_of_ok hfirst, hnext, List.append_assoc]
    · rw [if_neg hall] at hnext ⊢
      exact .behind hfirst hnext
  · rw [if_neg hfits] at hfirst
    rw [if_neg (by omega)]
    exact hfirst.bind

/-- The current file. -/
theorem read {next : OutputFile → Writing α} {bytes : List UInt8} {value : α}
    (h : Appends (next (.atEnd content)) content bytes value) :
    Appends (Act.read >>= next) content bytes value := h

theorem congr {action : Writing α} {bytes bytes' : List UInt8} {value value' : α}
    (h : Appends action content bytes value) (hbytes : bytes = bytes') (hvalue : value = value') :
    Appends action content bytes' value' := by
  rw [← hbytes, ← hvalue]
  exact h

end Appends

/-! ### The parts of the footer -/

namespace DataFileWriter

section Headers

variable {build : Build} {headers : Headers}

/-- The headers at some indexes that have data. -/
def present (headers : Headers) (indexes : List (Fin 32)) : List (Fin 32) :=
  indexes.filter fun index ↦ headers.value index ≠ []

/-- The data of the headers that have some. -/
def presentData (headers : Headers) (indexes : List (Fin 32)) : List (List UInt8) :=
  (present headers indexes).map fun index ↦ headers.value index

theorem present_cons_of_nil {index : Fin 32} {indexes : List (Fin 32)} (h : headers.value index = []) :
    present headers (index :: indexes) = present headers indexes :=
  List.filter_cons_of_neg (by simpa using h)

theorem present_cons_of_ne {index : Fin 32} {indexes : List (Fin 32)} (h : headers.value index ≠ []) :
    present headers (index :: indexes) = index :: present headers indexes :=
  List.filter_cons_of_pos (by simpa using h)

/-- The offset that the first loop computes. -/
theorem flagsLoop_snd (indexes : List (Fin 32)) (flags offset : ℕ) :
    (flagsLoop headers indexes (flags, offset)).2 =
      offset + PerfFileSection.byteSize * (present headers indexes).length := by
  induction indexes generalizing flags offset with
  | nil => rfl
  | cons index indexes ih =>
    unfold flagsLoop
    by_cases h : headers.value index = []
    · rw [if_pos h, ih, present_cons_of_nil h]
    · rw [if_neg h, ih, present_cons_of_ne h, List.length_cons, Nat.mul_succ]
      omega

theorem flagsLoop_fst (indexes : List (Fin 32)) (flags offset other : ℕ) :
    (flagsLoop headers indexes (flags, offset)).1 = (flagsLoop headers indexes (flags, other)).1 := by
  induction indexes generalizing flags offset other with
  | nil => rfl
  | cons index indexes ih =>
    unfold flagsLoop
    split
    · exact ih _ _ _
    · exact ih _ _ _

/-- The flags that the first loop computes. -/
theorem testBit_flagsLoop (indexes : List (Fin 32)) (flags offset : ℕ) (bit : Fin 32) :
    (flagsLoop headers indexes (flags, offset)).1.testBit bit =
      (flags.testBit bit || decide (bit ∈ present headers indexes)) := by
  induction indexes generalizing flags offset with
  | nil => simp [flagsLoop, present]
  | cons index indexes ih =>
    unfold flagsLoop
    by_cases h : headers.value index = []
    · rw [if_pos h, ih, present_cons_of_nil h]
    · rw [if_neg h, ih, present_cons_of_ne h, Nat.testBit_or, Nat.one_shiftLeft,
        Nat.testBit_two_pow]
      by_cases hbit : bit = index
      · simp [hbit]
      · have hne : (index : ℕ) ≠ bit := fun heq ↦ hbit (Fin.ext heq.symm)
        simp [hbit, hne]

theorem flagsLoop_lt (indexes : List (Fin 32)) {flags : ℕ} (offset : ℕ) (hflags : flags < 2 ^ 32) :
    (flagsLoop headers indexes (flags, offset)).1 < 2 ^ 32 := by
  induction indexes generalizing flags offset with
  | nil => exact hflags
  | cons index indexes ih =>
    unfold flagsLoop
    by_cases h : headers.value index = []
    · rw [if_pos h]
      exact ih offset hflags
    · rw [if_neg h]
      refine ih _ (Nat.or_lt_two_pow hflags ?_)
      rw [Nat.one_shiftLeft]
      exact Nat.pow_lt_pow_right (by decide) index.isLt

theorem sectionsLoop_appends (indexes : List (Fin 32)) (offset : ℕ) {content : List UInt8} :
    Appends (sectionsLoop build headers indexes offset) content
      (sectionTable build.targetEndian (sectionsFrom offset (presentData headers indexes)))
      (offset + (presentData headers indexes).flatten.length) := by
  induction indexes generalizing offset content with
  | nil => exact .pure offset
  | cons index indexes ih =>
    unfold sectionsLoop presentData
    by_cases h : headers.value index = []
    · rw [if_pos h, present_cons_of_nil h]
      exact ih offset
    · rw [if_neg h, present_cons_of_ne h, List.map_cons, sectionsFrom, List.flatten_cons,
        List.length_append, ← Nat.add_assoc]
      exact .bind (.writeAll _) (ih _)

theorem headerDataLoop_appends (indexes : List (Fin 32)) {content : List UInt8} :
    Appends (headerDataLoop headers indexes) content (presentData headers indexes).flatten () := by
  induction indexes generalizing content with
  | nil => exact .pure ()
  | cons index indexes ih =>
    unfold headerDataLoop presentData
    by_cases h : headers.value index = []
    · rw [if_pos h, present_cons_of_nil h]
      exact ih
    · rw [if_neg h, present_cons_of_ne h, List.map_cons, List.flatten_cons]
      exact .bind (.writeAll _) ih

/-- The flags of the headers that have data. -/
def flags0 (headers : Headers) : ℕ := (flagsLoop headers (List.finRange 32) (0, 0)).1

/-- The table of the headers of a file, from a position on, and their data. -/
def headersImage (build : Build) (headers : Headers) (pos : ℕ) : List UInt8 :=
  let parts := presentData headers (List.finRange 32)
  sectionTable build.targetEndian
    (sectionsFrom (pos + PerfFileSection.byteSize * parts.length) parts) ++ parts.flatten

theorem writeHeaders_appends {content : List UInt8} :
    Appends (writeHeaders build headers) content (headersImage build headers content.length)
      (flags0 headers) := by
  have hloop : flagsLoop headers (List.finRange 32) (0, content.length) =
      (flags0 headers, content.length + PerfFileSection.byteSize *
        (presentData headers (List.finRange 32)).length) := by
    refine Prod.ext (flagsLoop_fst _ _ _ _) ?_
    rw [flagsLoop_snd, presentData, List.length_map]
  have hlength : (OutputFile.atEnd content).innerPos = content.length := rfl
  unfold writeHeaders headersImage
  refine .read ?_
  rw [hlength, hloop]
  refine .bind (sectionsLoop_appends _ _) ?_
  refine .congr (.bind (headerDataLoop_appends _) (.read ?_)) (List.append_nil _) rfl
  -- the position is where the data of the last header ends
  rw [if_neg (not_not.mpr ?_)]
  · exact .congr (.bind (.pure _) (.pure _)) (List.append_nil _) rfl
  · show (_ ++ _ ++ _ : List UInt8).length = _
    rw [List.length_append, List.length_append, length_sectionTable, length_sectionsFrom]

end Headers

section Attrs

variable {build : Build}

/-- The ids of the descriptions, as bytes. -/
def idsParts (build : Build) (descs : List WriterEventDesc) : List (List UInt8) :=
  descs.map fun desc ↦ idsBytes build desc.sampleIds

/-- The attributes with the sections of their ids. -/
def attrsTable (build : Build) (descs : List WriterEventDesc) (offset : ℕ) : List UInt8 :=
  (descs.zip (sectionsFrom offset (idsParts build descs))).flatMap fun entry ↦
    entry.1.attr.toBytes build.targetEndian ++ entry.2.toBytes build.targetEndian

/-- The attributes of a file, from a position on, and the ids behind them. -/
def attrsImage (build : Build) (descs : List WriterEventDesc) (pos : ℕ) : List UInt8 :=
  attrsTable build descs (pos + attrEntrySize * descs.length) ++ (idsParts build descs).flatten

theorem length_idsBytes (ids : List UInt64) : (idsBytes build ids).length = ids.length * 8 := by
  induction ids with
  | nil => rfl
  | cons id ids ih =>
    unfold idsBytes at ih ⊢
    rw [List.flatMap_cons, List.length_append, ih, ByteOrder.length_toBytes, List.length_cons]
    omega

theorem attrsLoop_appends (descs : List WriterEventDesc) (offset : ℕ) {content : List UInt8} :
    Appends (attrsLoop build descs offset) content (attrsTable build descs offset) () := by
  induction descs generalizing offset content with
  | nil => exact .pure ()
  | cons desc descs ih =>
    unfold attrsLoop attrsTable idsParts
    rw [List.map_cons, sectionsFrom, List.zip_cons_cons, List.flatMap_cons, length_idsBytes,
      List.append_assoc]
    exact .bind (.writeAll _) (.bind (.writeAll _) (ih _))

theorem idsLoop_appends (descs : List WriterEventDesc) {content : List UInt8} :
    Appends (idsLoop build descs) content (idsParts build descs).flatten () := by
  induction descs generalizing content with
  | nil => exact .pure ()
  | cons desc descs ih => exact .bind (.writeAll _) ih

theorem writeAttrs_appends (descs : List WriterEventDesc) {content : List UInt8} :
    Appends (writeAttrs build descs) content (attrsImage build descs content.length)
      ⟨content.length, attrEntrySize * descs.length⟩ := by
  unfold writeAttrs attrsImage
  refine .read (.bind (attrsLoop_appends _ _) ?_)
  exact .congr (.bind (idsLoop_appends _) (.pure _)) (List.append_nil _) rfl

end Attrs

/-! ### The whole file -/

section Image

variable {build : Build} {writer : DataFileWriter} {front data : List UInt8}

/-- Where the attributes start in the file of a writer. -/
def attrsPos (build : Build) (writer : DataFileWriter) (data : List UInt8) : ℕ :=
  perfFileHeaderSize + data.length +
    (headersImage build writer.headers (perfFileHeaderSize + data.length)).length

/-- The file that a writer leaves: its header, the events, the headers with their sections, and the
attributes with their ids. -/
def image (build : Build) (writer : DataFileWriter) (data : List UInt8) : List UInt8 :=
  fileHeader build ⟨attrsPos build writer data, attrEntrySize * writer.eventDescs.length⟩ data.length
      (flags0 writer.headers) ++
    (data ++ headersImage build writer.headers (perfFileHeaderSize + data.length) ++
      attrsImage build writer.eventDescs (attrsPos build writer data))

theorem length_fileHeader (attrs : PerfFileSection) (dataSize flags : ℕ) :
    (fileHeader build attrs dataSize flags).length = perfFileHeaderSize := by
  unfold fileHeader
  rw [List.length_append, PerfFileHeaderPipe.length_toBytes, PerfFileHeaderRest.length_toBytes _ rfl]
  rfl

/-- Writing the header of the file over its first bytes. -/
theorem writeHeader_first {rest header : List UInt8} (hfront : front.length = perfFileHeaderSize)
    (hheader : header.length = perfFileHeaderSize) :
    (OutputFile.seekAbsolute 0 >>= fun _ ↦ OutputFile.writeAll header) (.atEnd (front ++ rest)) =
      .ok (.ok (), ⟨header ++ rest, perfFileHeaderSize⟩) := by
  unfold OutputFile.seekAbsolute
  rw [Act.update_bind]
  unfold OutputFile.writeAll OutputFile.put OutputFile.atEnd
  dsimp only
  rw [hheader, if_neg (by decide), List.take_zero, List.nil_append, Nat.zero_add,
    List.drop_left' hfront]

/-- `finalize_and_close` leaves the image of the writer, or fails where it is too large. -/
theorem writeFooter_image (hfront : front.length = perfFileHeaderSize)
    (hcontent : (front ++ data).length ≤ OutputFile.maxSize) :
    if (image build writer data).length ≤ OutputFile.maxSize then
      writer.writeFooter build (.atEnd (front ++ data)) =
        .ok (.ok (), ⟨image build writer data, perfFileHeaderSize⟩)
    else TooLarge (writer.writeFooter build) (front ++ data) := by
  have hlength : (front ++ data).length = perfFileHeaderSize + data.length := by
    rw [List.length_append, hfront]
  have hsize : sub (OutputFile.atEnd (front ++ data)).innerPos perfFileHeaderSize =
      .ok data.length := by
    show sub (front ++ data).length perfFileHeaderSize = _
    rw [hlength, sub_of_le (Nat.le_add_right _ _), Nat.add_sub_cancel_left]
  have hheaders := @writeHeaders_appends build writer.headers (front ++ data)
  have hattrs := @writeAttrs_appends build writer.eventDescs
    (front ++ data ++ headersImage build writer.headers (perfFileHeaderSize + data.length))
  rw [hlength] at hheaders
  have hpos : (front ++ data ++ headersImage build writer.headers
      (perfFileHeaderSize + data.length)).length = attrsPos build writer data := by
    rw [List.length_append, hlength]
    rfl
  rw [hpos] at hattrs
  have himage : (image build writer data).length = attrsPos build writer data +
      (attrsImage build writer.eventDescs (attrsPos build writer data)).length := by
    unfold image attrsPos
    simp only [List.length_append, length_fileHeader]
    omega
  have hstart : writer.writeFooter build (.atEnd (front ++ data)) =
      (writeHeaders build writer.headers >>= fun flags0 ↦ do
        let attrs ← writeAttrs build writer.eventDescs
        OutputFile.seekAbsolute 0
        OutputFile.writeAll (fileHeader build attrs data.length flags0)) (.atEnd (front ++ data)) := by
    unfold writeFooter
    rw [Act.read_bind, Act.bind_of_ok (Act.compute_ok hsize)]
  have htoo : TooLarge (writer.writeFooter build) (front ++ data) ↔
      TooLarge (writeHeaders build writer.headers >>= fun flags0 ↦ do
        let attrs ← writeAttrs build writer.eventDescs
        OutputFile.seekAbsolute 0
        OutputFile.writeAll (fileHeader build attrs data.length flags0)) (front ++ data) := by
    unfold TooLarge
    rw [hstart]
  rw [htoo, hstart, himage]
  have hfirst := hheaders hcontent
  rw [← List.length_append, hpos] at hfirst
  by_cases hheadersFit : attrsPos build writer data ≤ OutputFile.maxSize
  · rw [if_pos hheadersFit] at hfirst
    have hsecond := hattrs (hpos ▸ hheadersFit)
    rw [hpos] at hsecond
    by_cases hfits : attrsPos build writer data +
        (attrsImage build writer.eventDescs (attrsPos build writer data)).length ≤
          OutputFile.maxSize
    · rw [if_pos hfits] at hsecond ⊢
      rw [Act.bind_of_ok hfirst, Act.bind_of_ok hsecond, List.append_assoc, List.append_assoc,
        writeHeader_first hfront (length_fileHeader _ _ _), image, List.append_assoc]
    · rw [if_neg hfits] at hsecond ⊢
      exact .behind hfirst hsecond.bind
  · rw [if_neg hheadersFit] at hfirst
    rw [if_neg (by omega)]
    exact hfirst.bind

end Image

end DataFileWriter

end Tracepoints
