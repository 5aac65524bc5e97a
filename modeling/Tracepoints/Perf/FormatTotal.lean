import Tracepoints.Perf.FormatText

/-!
# Parsing a format file

For which texts `PerfEventFormat::parse` returns in every build, and returns a consistent format.
`fileText` is what a file says: the last name and identifier, the lines of the last section `format:`
and how many common fields the sections before it have. The parser keeps its own count of common
fields over all sections, while it drops the fields of a section when the next one starts; so the
two agree only where the earlier sections have no common field.

`parse_consistent_iff` is the result: every field line is legible, every identifier fits 32 bits, the
common fields can be counted in 16 bits and, for a file with a name and an identifier, no section but
the last has a common field and the last common field ends below 2^16.
-/

set_option autoImplicit false
set_option relaxedAutoImplicit false

namespace Tracepoints

open Exec Text

namespace PerfEventFormat

open PerfFieldFormat

/-! ### What a file says -/

/-- What the properties of a format file say: the lines are those of the last section. -/
structure FileText where
  name : List UInt8
  id : Option ℕ
  earlier : ℕ
  lines : List (Bool × List UInt8)
  deriving DecidableEq, Repr

/-- The lines that make a field, each with whether the field is common. -/
def declaring (lines : List (Bool × List UInt8)) : List (Bool × FieldLine) :=
  lines.filterMap fun line ↦ (fieldLine line.2).map fun said ↦ (line.1, said)

/-- The common fields that some lines make. -/
def commonOf (lines : List (Bool × List UInt8)) : List (Bool × FieldLine) :=
  (declaring lines).filter fun said ↦ said.1

namespace FileText

/-- The common fields of all sections. -/
def count (file : FileText) : ℕ := file.earlier + (commonOf file.lines).length

/-- What a property adds. -/
def saying (file : FileText) (entry : FileEntry) : FileText :=
  if entry.name = ascii "name" then { file with name := entry.value }
  else if entry.name = ascii "ID" ∧ entry.terminated then
    { file with id := writtenNumber entry.value }
  else if entry.name = ascii "print fmt" then file
  else if entry.name = ascii "format" then
    { file with earlier := file.count, lines := entry.lines }
  else file

/-- One line more. -/
def withLine (file : FileText) (line : Bool × List UInt8) : FileText :=
  { file with lines := file.lines ++ [line] }

/-- The file has a name and an identifier. -/
def Named (file : FileText) : Prop := file.id ≠ none ∧ file.name ≠ []

end FileText

/-- What a format file says. -/
def fileText (text : List UInt8) : FileText :=
  (fileEntries (text.length + 1) text).foldl FileText.saying ⟨[], none, 0, []⟩

/-- The number or the lines of a property can be read. -/
structure FileEntry.Legible (entry : FileEntry) : Prop where
  fits : entry.name = ascii "ID" → entry.terminated = true → Fits entry.value
  lines : entry.name = ascii "format" → ∀ line ∈ entry.lines, PerfFieldFormat.Legible line.2

/-- The variables of the parser are what the file says so far. -/
structure Tells (file : FileText) (properties : FileProperties) : Prop where
  name_eq : properties.name = file.name
  id_eq : properties.id = file.id
  count_eq : properties.commonFieldCount = file.count
  fields : List.Forall₂ (fun said field ↦ MadeOf said.2 field) (declaring file.lines)
    properties.fields

/-! ### One line -/

section Lines

variable {build : Build} {longIs64Bits : Bool} {file : FileText} {properties : FileProperties}
  {line : Bool × List UInt8}

theorem declaring_append (lines : List (Bool × List UInt8)) (line : Bool × List UInt8) :
    declaring (lines ++ [line]) =
      declaring lines ++ ((fieldLine line.2).map fun said ↦ (line.1, said)).toList := by
  unfold declaring
  rw [List.filterMap_append]
  cases h : fieldLine line.2 <;> simp [h]

theorem count_withLine (file : FileText) (line : Bool × List UInt8) :
    (file.withLine line).count =
      file.count + if line.1 = true ∧ (fieldLine line.2).isSome then 1 else 0 := by
  unfold FileText.count FileText.withLine commonOf
  rw [declaring_append, List.filter_append, List.length_append, Nat.add_assoc]
  cases line with | mk common text => cases common <;> cases fieldLine text <;> simp

theorem addU16_of_lt (build : Build) {left right : ℕ} (h : left + right < 2 ^ 16) :
    addU16 build left right = .ok (left + right) :=
  if_pos h

theorem eq_of_addU16 (hbuild : build.debugAssertions = true) {left right result : ℕ}
    (h : addU16 build left right = .ok result) : result = left + right ∧ left + right < 2 ^ 16 := by
  unfold addU16 at h
  by_cases hlt : left + right < 2 ^ 16
  · rw [if_pos hlt] at h
    exact ⟨(Except.ok.inj h).symm, hlt⟩
  · rw [if_neg hlt, if_pos hbuild] at h
    cases h

/-- A line that makes no field changes nothing. -/
theorem Tells.withLine_none (h : Tells file properties) (hline : fieldLine line.2 = none) :
    Tells (file.withLine line) properties := by
  refine ⟨h.name_eq, h.id_eq, ?_, ?_⟩
  · rw [h.count_eq, count_withLine, hline]
    simp
  · rw [FileText.withLine, declaring_append, hline]
    simpa using h.fields

/-- A line that makes a field adds it. -/
theorem Tells.withLine_some (h : Tells file properties) {said : FieldLine} {field : PerfFieldFormat}
    (hline : fieldLine line.2 = some said) (hfield : MadeOf said field) {count : ℕ}
    (hcount : count = properties.commonFieldCount + if line.1 = true then 1 else 0) :
    Tells (file.withLine line)
      { properties with fields := properties.fields ++ [field], commonFieldCount := count } := by
  refine ⟨h.name_eq, h.id_eq, ?_, ?_⟩
  · rw [count_withLine, hline, hcount, h.count_eq]
    simp
  · rw [FileText.withLine, declaring_append, hline]
    exact List.rel_append h.fields (.cons hfield .nil)

/-- Where the common fields are few, a field is pushed and counted. -/
theorem pushField_returns (h : Tells file properties) {said : FieldLine} {field : PerfFieldFormat}
    (hline : fieldLine line.2 = some said) (hfield : MadeOf said field)
    (hcount : (file.withLine line).count < 2 ^ 16) :
    Returns (pushField build line.1 properties field) (Tells (file.withLine line)) := by
  rw [count_withLine, hline] at hcount
  unfold pushField
  by_cases hcommon : line.1 = true
  · have hlt : properties.commonFieldCount + 1 < 2 ^ 16 := by
      rw [h.count_eq]
      simpa [hcommon] using hcount
    rw [if_pos hcommon, addU16_of_lt build hlt, ok_bind]
    exact .ok (h.withLine_some hline hfield (by rw [if_pos hcommon]))
  · rw [if_neg hcommon]
    exact .ok (h.withLine_some hline hfield (by rw [if_neg hcommon, Nat.add_zero]))

/-- A field that was pushed where overflows are checked was counted. -/
theorem tells_of_pushField (hbuild : build.debugAssertions = true) (h : Tells file properties)
    (hsmall : file.count < 2 ^ 16) {said : FieldLine} {field : PerfFieldFormat}
    (hline : fieldLine line.2 = some said) (hfield : MadeOf said field)
    {properties' : FileProperties} (hpush : pushField build line.1 properties field = .ok properties') :
    Tells (file.withLine line) properties' ∧ (file.withLine line).count < 2 ^ 16 := by
  have hcount := count_withLine file line
  rw [hline] at hcount
  unfold pushField at hpush
  by_cases hcommon : line.1 = true
  · rw [if_pos hcommon] at hpush
    obtain ⟨count, hadd, hpush⟩ := bind_eq_ok.mp hpush
    obtain ⟨heq, hlt⟩ := eq_of_addU16 hbuild hadd
    obtain rfl := Except.ok.inj hpush
    refine ⟨h.withLine_some hline hfield (by rw [if_pos hcommon, heq]), ?_⟩
    rw [hcount, if_pos ⟨hcommon, rfl⟩, ← h.count_eq]
    exact hlt
  · rw [if_neg hcommon] at hpush
    obtain rfl := Except.ok.inj hpush
    refine ⟨h.withLine_some hline hfield (by rw [if_neg hcommon, Nat.add_zero]), ?_⟩
    rw [hcount, if_neg fun hboth ↦ hcommon hboth.1]
    exact hsmall

/-- A legible line is applied in every build. -/
theorem applyLine_returns (h : Tells file properties) (hutf8 : IsUtf8 line.2)
    (hlegible : PerfFieldFormat.Legible line.2) (hcount : (file.withLine line).count < 2 ^ 16) :
    Returns (applyLine build longIs64Bits properties line) (Tells (file.withLine line)) := by
  unfold applyLine
  rcases parse_legible build longIs64Bits hutf8 hlegible with ⟨hnone, hparse⟩ |
    ⟨said, field, hsome, hparse, hfield⟩
  · rw [hparse, ok_bind]
    exact .ok (h.withLine_none hnone)
  · rw [hparse, ok_bind]
    exact pushField_returns h hsome hfield hcount

/-- A line that was applied where overflows and assertions are checked is legible. -/
theorem legible_of_applyLine (hbuild : build.debugAssertions = true) (h : Tells file properties)
    (hsmall : file.count < 2 ^ 16) (hutf8 : IsUtf8 line.2) {properties' : FileProperties}
    (happly : applyLine build longIs64Bits properties line = .ok properties') :
    PerfFieldFormat.Legible line.2 ∧ Tells (file.withLine line) properties' ∧
      (file.withLine line).count < 2 ^ 16 := by
  obtain ⟨parsed, hparsed, happly⟩ := bind_eq_ok.mp happly
  have hlegible := legible_of_parse hbuild hutf8 hparsed
  refine ⟨hlegible, ?_⟩
  rcases parse_legible build longIs64Bits hutf8 hlegible with ⟨hnone, hparse⟩ |
    ⟨said, field, hsome, hparse, hfield⟩
  · rw [hparse] at hparsed
    obtain rfl := Except.ok.inj hparsed
    obtain rfl := Except.ok.inj happly
    refine ⟨h.withLine_none hnone, ?_⟩
    rw [count_withLine, hnone]
    simpa using hsmall
  · rw [hparse] at hparsed
    obtain rfl := Except.ok.inj hparsed
    exact tells_of_pushField hbuild h hsmall hsome hfield happly

end Lines

/-! ### One property -/

section Entries

variable {build : Build} {longIs64Bits : Bool} {file : FileText} {properties : FileProperties}
  {entry : FileEntry}

theorem foldl_withLine (lines : List (Bool × List UInt8)) (file : FileText) :
    lines.foldl FileText.withLine file = { file with lines := file.lines ++ lines } := by
  induction lines generalizing file with
  | nil => simp
  | cons line lines ih =>
    rw [List.foldl_cons, ih]
    simp [FileText.withLine]

theorem count_le_withLine (file : FileText) (line : Bool × List UInt8) :
    file.count ≤ (file.withLine line).count := by
  rw [count_withLine]
  exact Nat.le_add_right _ _

/-- Legible lines are applied in every build. -/
theorem applyLines_returns {lines : List (Bool × List UInt8)} (h : Tells file properties)
    (hutf8 : ∀ line ∈ lines, IsUtf8 line.2)
    (hlegible : ∀ line ∈ lines, PerfFieldFormat.Legible line.2)
    (hcount : (lines.foldl FileText.withLine file).count < 2 ^ 16) :
    Returns (lines.foldlM (applyLine build longIs64Bits) properties)
      (Tells (lines.foldl FileText.withLine file)) :=
  @foldlM_returns _ _ _ _ FileText.withLine Tells
    (fun line ↦ IsUtf8 line.2 ∧ PerfFieldFormat.Legible line.2) (fun file ↦ file.count < 2 ^ 16)
    (fun file line hlt ↦ (count_le_withLine file line).trans_lt hlt)
    (fun _ _ _ htells hgood hlt ↦ applyLine_returns htells hgood.1 hgood.2 hlt)
    _ _ _ h (fun line hline ↦ ⟨hutf8 line hline, hlegible line hline⟩) hcount

/-- Lines that were applied where overflows and assertions are checked are legible. -/
theorem legible_of_applyLines {lines : List (Bool × List UInt8)}
    (hbuild : build.debugAssertions = true) (h : Tells file properties)
    (hsmall : file.count < 2 ^ 16) (hutf8 : ∀ line ∈ lines, IsUtf8 line.2)
    {properties' : FileProperties}
    (happly : lines.foldlM (applyLine build longIs64Bits) properties = .ok properties') :
    (∀ line ∈ lines, PerfFieldFormat.Legible line.2) ∧
      Tells (lines.foldl FileText.withLine file) properties' ∧
      (lines.foldl FileText.withLine file).count < 2 ^ 16 :=
  @foldlM_eq_ok _ _ _ _ FileText.withLine
    (fun file properties ↦ Tells file properties ∧ file.count < 2 ^ 16)
    (fun line ↦ IsUtf8 line.2) (fun line ↦ PerfFieldFormat.Legible line.2)
    (fun _ _ _ _ htells hline heq ↦ legible_of_applyLine hbuild htells.1 htells.2 hline heq)
    _ _ _ _ ⟨h, hsmall⟩ hutf8 happly

/-- A new section starts without fields, and keeps the count. -/
theorem Tells.newSection (h : Tells file properties) :
    Tells { file with earlier := file.count, lines := [] } { properties with fields := [] } :=
  ⟨h.name_eq, h.id_eq, h.count_eq, .nil⟩

theorem count_le_saying (file : FileText) (entry : FileEntry) :
    file.count ≤ (file.saying entry).count := by
  unfold FileText.saying
  split_ifs
  · exact le_rfl
  · exact le_rfl
  · exact le_rfl
  · exact Nat.le_add_right _ _
  · exact le_rfl

/-- A legible property is applied in every build. -/
theorem applyEntry_returns (build : Build) (longIs64Bits : Bool) (h : Tells file properties)
    (hutf8 : ∀ line ∈ entry.lines, IsUtf8 line.2) (hlegible : entry.Legible)
    (hcount : (file.saying entry).count < 2 ^ 16) :
    Returns (applyEntry build longIs64Bits properties entry) (Tells (file.saying entry)) := by
  unfold applyEntry
  unfold FileText.saying at hcount ⊢
  by_cases hname : entry.name = ascii "name"
  · rw [if_pos hname, if_pos hname]
    exact .ok ⟨rfl, h.id_eq, h.count_eq, h.fields⟩
  rw [if_neg hname] at hcount ⊢
  rw [if_neg hname]
  by_cases hid : entry.name = ascii "ID" ∧ entry.terminated = true
  · rw [if_pos hid, if_pos hid, asciiToU32_of_fits build (hlegible.fits hid.1 hid.2), ok_bind]
    exact .ok ⟨h.name_eq, rfl, h.count_eq, h.fields⟩
  rw [if_neg hid] at hcount ⊢
  rw [if_neg hid]
  by_cases hprint : entry.name = ascii "print fmt"
  · rw [if_pos hprint, if_pos hprint]
    exact .ok ⟨h.name_eq, h.id_eq, h.count_eq, h.fields⟩
  rw [if_neg hprint] at hcount ⊢
  rw [if_neg hprint]
  by_cases hformat : entry.name = ascii "format"
  · rw [if_pos hformat] at hcount ⊢
    rw [if_pos hformat]
    have hlines := foldl_withLine entry.lines { file with earlier := file.count, lines := [] }
    rw [List.nil_append] at hlines
    rw [← hlines] at hcount ⊢
    exact applyLines_returns h.newSection hutf8 (hlegible.lines hformat) hcount
  · rw [if_neg hformat, if_neg hformat]
    exact .ok h

/-- A property that was applied where overflows and assertions are checked is legible. -/
theorem legible_of_applyEntry (hbuild : build.debugAssertions = true) (h : Tells file properties)
    (hsmall : file.count < 2 ^ 16) (hutf8 : ∀ line ∈ entry.lines, IsUtf8 line.2)
    {properties' : FileProperties}
    (happly : applyEntry build longIs64Bits properties entry = .ok properties') :
    entry.Legible ∧ Tells (file.saying entry) properties' ∧ (file.saying entry).count < 2 ^ 16 := by
  unfold applyEntry at happly
  unfold FileText.saying
  by_cases hname : entry.name = ascii "name"
  · rw [if_pos hname] at happly ⊢
    obtain rfl := Except.ok.inj happly
    refine ⟨⟨fun hid ↦ ?_, fun hformat ↦ ?_⟩, ⟨rfl, h.id_eq, h.count_eq, h.fields⟩, hsmall⟩
    · exact absurd (hname.symm.trans hid) (by decide)
    · exact absurd (hname.symm.trans hformat) (by decide)
  rw [if_neg hname] at happly ⊢
  by_cases hid : entry.name = ascii "ID" ∧ entry.terminated = true
  · rw [if_pos hid] at happly ⊢
    have hfits : Fits entry.value := by
      by_contra hnot
      rw [asciiToU32_of_not_fits hbuild hnot, error_bind] at happly
      cases happly
    rw [asciiToU32_of_fits build hfits, ok_bind] at happly
    obtain rfl := Except.ok.inj happly
    refine ⟨⟨fun _ _ ↦ hfits, fun hformat ↦ ?_⟩, ⟨h.name_eq, rfl, h.count_eq, h.fields⟩, hsmall⟩
    exact absurd (hid.1.symm.trans hformat) (by decide)
  rw [if_neg hid] at happly ⊢
  have hfits : entry.name = ascii "ID" → entry.terminated = true → Fits entry.value :=
    fun hname hterminated ↦ absurd ⟨hname, hterminated⟩ hid
  by_cases hprint : entry.name = ascii "print fmt"
  · rw [if_pos hprint] at happly ⊢
    obtain rfl := Except.ok.inj happly
    refine ⟨⟨hfits, fun hformat ↦ ?_⟩, ⟨h.name_eq, h.id_eq, h.count_eq, h.fields⟩, hsmall⟩
    exact absurd (hprint.symm.trans hformat) (by decide)
  rw [if_neg hprint] at happly ⊢
  by_cases hformat : entry.name = ascii "format"
  · rw [if_pos hformat] at happly ⊢
    have hlines := foldl_withLine entry.lines { file with earlier := file.count, lines := [] }
    rw [List.nil_append] at hlines
    rw [← hlines]
    have hstart : FileText.count { file with earlier := file.count, lines := [] } < 2 ^ 16 := hsmall
    obtain ⟨hlegible, htells, hlt⟩ :=
      legible_of_applyLines hbuild h.newSection hstart hutf8 happly
    exact ⟨⟨hfits, fun _ ↦ hlegible⟩, htells, hlt⟩
  · rw [if_neg hformat] at happly ⊢
    obtain rfl := Except.ok.inj happly
    exact ⟨⟨hfits, fun hname ↦ absurd hname hformat⟩, h, hsmall⟩

end Entries

/-! ### The whole file -/

section Files

variable {build : Build} {longIs64Bits : Bool} {text : List UInt8}

theorem tells_start : Tells ⟨[], none, 0, []⟩ ⟨[], [], [], none, 0⟩ := ⟨rfl, rfl, rfl, .nil⟩

theorem propertyLines_returns (htext : IsUtf8 text)
    (hlegible : ∀ entry ∈ fileEntries (text.length + 1) text, entry.Legible)
    (hcount : (fileText text).count < 2 ^ 16) :
    Returns (propertyLines build longIs64Bits (text.length + 1) text ⟨[], [], [], none, 0⟩)
      (Tells (fileText text)) := by
  rw [propertyLines_eq build longIs64Bits _ (Nat.lt_succ_self _)]
  have hutf8 := fileEntries_utf8 (text.length + 1) htext
  exact @foldlM_returns _ _ _ _ FileText.saying Tells
    (fun entry ↦ (∀ line ∈ entry.lines, IsUtf8 line.2) ∧ entry.Legible)
    (fun file ↦ file.count < 2 ^ 16)
    (fun file entry hlt ↦ (count_le_saying file entry).trans_lt hlt)
    (fun _ _ _ htells hgood hlt ↦
      applyEntry_returns build longIs64Bits htells hgood.1 hgood.2 hlt)
    _ _ _ tells_start (fun entry hentry ↦ ⟨(hutf8 entry hentry).2, hlegible entry hentry⟩) hcount

theorem legible_of_propertyLines (hbuild : build.debugAssertions = true) (htext : IsUtf8 text)
    {properties : FileProperties}
    (h : propertyLines build longIs64Bits (text.length + 1) text ⟨[], [], [], none, 0⟩ =
      .ok properties) :
    (∀ entry ∈ fileEntries (text.length + 1) text, entry.Legible) ∧
      Tells (fileText text) properties ∧ (fileText text).count < 2 ^ 16 := by
  rw [propertyLines_eq build longIs64Bits _ (Nat.lt_succ_self _)] at h
  have hutf8 := fileEntries_utf8 (text.length + 1) htext
  exact @foldlM_eq_ok _ _ _ _ FileText.saying
    (fun file properties ↦ Tells file properties ∧ file.count < 2 ^ 16)
    (fun entry ↦ ∀ line ∈ entry.lines, IsUtf8 line.2) FileEntry.Legible
    (fun _ _ _ _ htells hentry heq ↦ legible_of_applyEntry hbuild htells.1 htells.2 hentry heq)
    _ _ _ _ ⟨tells_start, by decide⟩ (fun entry hentry ↦ (hutf8 entry hentry).2) h

/-! ### Common fields come first -/

/-- The lines before the first blank line come before the others. -/
def CommonFirst {α : Type} (lines : List (Bool × α)) : Prop :=
  ∃ common other : List α, lines = common.map (Prod.mk true) ++ other.map (Prod.mk false)

theorem sectionLines_other (fuel : ℕ) (text : List UInt8) :
    ∃ other : List (List UInt8), (sectionLines fuel false text).1 = other.map (Prod.mk false) := by
  induction fuel generalizing text with
  | zero => exact ⟨[], rfl⟩
  | succ fuel ih =>
    cases text with
    | nil => exact ⟨[], rfl⟩
    | cons c behind =>
      rw [sectionLines]
      dsimp only
      by_cases hline : ((skipEol (c :: behind)).takeWhile fun c ↦ !isEolChar c) = []
      · rw [if_pos hline, if_neg Bool.false_ne_true]
        exact ⟨[], rfl⟩
      · rw [if_neg hline]
        obtain ⟨other, hother⟩ := ih ((skipEol (c :: behind)).drop
          ((skipEol (c :: behind)).takeWhile fun c ↦ !isEolChar c).length)
        exact ⟨_ :: other, congrArg (List.cons _) hother⟩

theorem sectionLines_commonFirst (fuel : ℕ) (text : List UInt8) :
    CommonFirst (sectionLines fuel true text).1 := by
  induction fuel generalizing text with
  | zero => exact ⟨[], [], rfl⟩
  | succ fuel ih =>
    cases text with
    | nil => exact ⟨[], [], rfl⟩
    | cons c behind =>
      rw [sectionLines]
      dsimp only
      by_cases hline : ((skipEol (c :: behind)).takeWhile fun c ↦ !isEolChar c) = []
      · rw [if_pos hline, if_pos rfl]
        obtain ⟨other, hother⟩ := sectionLines_other fuel ((skipEol (c :: behind)).drop
          ((skipEol (c :: behind)).takeWhile fun c ↦ !isEolChar c).length)
        exact ⟨[], other, hother⟩
      · rw [if_neg hline]
        obtain ⟨common, other, hlines⟩ := ih ((skipEol (c :: behind)).drop
          ((skipEol (c :: behind)).takeWhile fun c ↦ !isEolChar c).length)
        exact ⟨_ :: common, other, congrArg (List.cons _) hlines⟩

theorem fileEntries_commonFirst (fuel : ℕ) (text : List UInt8) :
    ∀ entry ∈ fileEntries fuel text, CommonFirst entry.lines := by
  induction fuel generalizing text with
  | zero => exact fun entry hentry ↦ absurd hentry List.not_mem_nil
  | succ fuel ih =>
    rw [fileEntries]
    dsimp only
    generalize ((text.dropWhile isEolChar).dropWhile isSpaceOrTab).drop _ = rest
    cases rest with
    | nil => exact fun entry hentry ↦ absurd hentry List.not_mem_nil
    | cons c behind =>
      dsimp only
      split_ifs with hc
      · exact ih (c :: behind)
      · refine List.forall_mem_cons.mpr ⟨?_, ih _⟩
        unfold sectionBehind
        split_ifs
        · exact sectionLines_commonFirst _ _
        · exact ⟨[], [], rfl⟩

theorem fileText_commonFirst (text : List UInt8) : CommonFirst (fileText text).lines := by
  have hentries := fileEntries_commonFirst (text.length + 1) text
  have hstart : CommonFirst (⟨[], none, 0, []⟩ : FileText).lines := ⟨[], [], rfl⟩
  unfold fileText
  generalize fileEntries (text.length + 1) text = entries at hentries
  generalize (⟨[], none, 0, []⟩ : FileText) = file at hstart
  induction entries generalizing file with
  | nil => exact hstart
  | cons entry entries ih =>
    obtain ⟨hentry, hothers⟩ := List.forall_mem_cons.mp hentries
    refine ih hothers (file.saying entry) ?_
    unfold FileText.saying
    split_ifs
    · exact hstart
    · exact hstart
    · exact hstart
    · exact hentry
    · exact hstart

/-- The fields of the common lines come before those of the others. -/
theorem declaring_commonFirst {lines : List (Bool × List UInt8)} (h : CommonFirst lines) :
    ∃ other : List FieldLine, declaring lines = commonOf lines ++ other.map (Prod.mk false) := by
  obtain ⟨common, other, rfl⟩ := h
  have hmap (flag : Bool) (texts : List (List UInt8)) :
      declaring (texts.map (Prod.mk flag)) = (texts.filterMap fieldLine).map (Prod.mk flag) := by
    unfold declaring
    rw [List.filterMap_map, List.map_filterMap]
    rfl
  have hsplit : declaring (common.map (Prod.mk true) ++ other.map (Prod.mk false)) =
      (common.filterMap fieldLine).map (Prod.mk true) ++
        (other.filterMap fieldLine).map (Prod.mk false) := by
    rw [← hmap, ← hmap]
    exact List.filterMap_append
  have hcommon : ((common.filterMap fieldLine).map (Prod.mk true)).filter (fun said ↦ said.1) =
      (common.filterMap fieldLine).map (Prod.mk true) := by
    rw [List.filter_eq_self]
    simp
  have hother : ((other.filterMap fieldLine).map (Prod.mk false)).filter (fun said ↦ said.1) = [] := by
    rw [List.filter_eq_nil_iff]
    simp
  refine ⟨other.filterMap fieldLine, ?_⟩
  rw [commonOf, hsplit, List.filter_append, hcommon, hother, List.append_nil]

section CommonFields

variable {lines : List (Bool × List UInt8)}

theorem declaring_of_lt (h : CommonFirst lines) {index : ℕ} (hindex : index < (commonOf lines).length) :
    ∃ said, (declaring lines)[index]? = some (true, said) := by
  obtain ⟨other, hother⟩ := declaring_commonFirst h
  have hmem := List.getElem_mem hindex
  have hcommon : ((commonOf lines)[index]).1 = true := (List.mem_filter.mp hmem).2
  refine ⟨((commonOf lines)[index]).2, ?_⟩
  rw [hother, List.getElem?_append_left hindex, List.getElem?_eq_getElem hindex, ← hcommon]

theorem declaring_of_le (h : CommonFirst lines) {index : ℕ} (hindex : (commonOf lines).length ≤ index)
    {said : Bool × FieldLine} (hsaid : (declaring lines)[index]? = some said) : said.1 = false := by
  obtain ⟨other, hother⟩ := declaring_commonFirst h
  rw [hother, List.getElem?_append_right hindex, List.getElem?_map] at hsaid
  obtain ⟨line, _, rfl⟩ := Option.map_eq_some_iff.mp hsaid
  rfl

theorem declaring_last (h : CommonFirst lines) {index : ℕ}
    (hindex : (commonOf lines).length = index + 1) :
    (declaring lines)[index]? = (commonOf lines).getLast? := by
  obtain ⟨other, hother⟩ := declaring_commonFirst h
  rw [hother, List.getElem?_append_left (by omega), List.getLast?_eq_getElem?, hindex,
    Nat.add_sub_cancel]

end CommonFields

/-! ### Consistent formats -/

/-- What a format is to be for a text. The fields are those of the lines of the last section, in
order; the common ones come before its first blank line. -/
structure Consistent (text : List UInt8) (format : PerfEventFormat) : Prop where
  count_le : format.commonFieldCount ≤ format.fields.length
  fields : List.Forall₂ (fun said field ↦ MadeOf said.2 field) (declaring (fileText text).lines)
    format.fields
  common : ∀ index < format.commonFieldCount,
    ∃ said, (declaring (fileText text).lines)[index]? = some (true, said)
  size_none : format.commonFieldCount = 0 → format.commonFieldsSize = 0
  size_last : ∀ index, format.commonFieldCount = index + 1 →
    ∀ last ∈ format.fields[index]?, format.commonFieldsSize = last.offset + last.size
  style : format.decodingStyle = .eventHeader ↔
    ∃ field, format.fields[format.commonFieldCount]? = some field ∧
      field.name = .ok (ascii "eventheader_flags")

/-- What a text is to be for `parse` to return a consistent format. -/
structure Sound (text : List UInt8) : Prop where
  /-- Every number that is read fits 32 bits, and every declaration can be read. -/
  legible : ∀ entry ∈ fileEntries (text.length + 1) text, entry.Legible
  /-- The common fields of all sections can be counted. -/
  count_lt : (fileText text).count < 2 ^ 16
  /-- Only the last section has common fields. -/
  alone : (fileText text).Named → (fileText text).earlier = 0
  /-- The last common field ends below 2^16. -/
  size_lt : (fileText text).Named →
    ∀ last ∈ (commonOf (fileText text).lines).getLast?, last.2.offset + last.2.size < 2 ^ 16

theorem Tells.at {file : FileText} {properties : FileProperties} (h : Tells file properties)
    (index : ℕ) :
    ((declaring file.lines)[index]? = none ∧ properties.fields[index]? = none) ∨
      ∃ said field, (declaring file.lines)[index]? = some said ∧
        properties.fields[index]? = some field ∧ MadeOf said.2 field := by
  have hfields := h.fields
  generalize declaring file.lines = lines at hfields
  generalize properties.fields = fields at hfields
  induction hfields generalizing index with
  | nil => exact .inl ⟨rfl, rfl⟩
  | @cons said field _ _ hfield _ ih =>
    cases index with
    | zero => exact .inr ⟨said, field, rfl, rfl, hfield⟩
    | succ index => exact ih index

/-- The offset behind the last common field, where only the last section has any. -/
theorem commonSize_returns {file : FileText} {properties : FileProperties}
    (h : Tells file properties) (hfirst : CommonFirst file.lines) (halone : file.earlier = 0)
    (hsize : ∀ last ∈ (commonOf file.lines).getLast?, last.2.offset + last.2.size < 2 ^ 16) :
    Returns (commonSize build properties) fun size ↦
      (properties.commonFieldCount = 0 → size = 0) ∧
        ∀ index, properties.commonFieldCount = index + 1 →
          ∀ last ∈ properties.fields[index]?, size = last.offset + last.size := by
  have hcount : properties.commonFieldCount = (commonOf file.lines).length := by
    rw [h.count_eq, FileText.count, halone, Nat.zero_add]
  unfold commonSize
  cases hindex : properties.commonFieldCount with
  | zero =>
    rw [if_pos rfl]
    exact .ok ⟨fun _ ↦ rfl, fun index hsucc ↦ nomatch hsucc⟩
  | succ index =>
    rw [if_neg (Nat.succ_ne_zero index), Nat.add_sub_cancel]
    have hlast := declaring_last hfirst (hcount.symm.trans hindex)
    obtain ⟨said, hsaid⟩ := @declaring_of_lt _ hfirst index (by omega)
    rcases h.at index with ⟨hnone, _⟩ | ⟨said', field, hsaid', hfield, hmade⟩
    · rw [hnone] at hsaid
      cases hsaid
    · have hlt : field.offset + field.size < 2 ^ 16 := by
        rw [hmade.offset_eq, hmade.size_eq]
        exact hsize said' (hlast.symm.trans hsaid')
      rw [hfield]
      dsimp only
      rw [addU16_of_lt build hlt]
      refine .ok ⟨fun hzero ↦ absurd hzero (Nat.succ_ne_zero index), fun other hother last hlast ↦ ?_⟩
      obtain rfl := Nat.succ.inj hother
      rw [hfield] at hlast
      obtain rfl := Option.some.inj hlast
      rfl

/-- A size that was computed where overflows are checked did not overflow. -/
theorem size_lt_of_commonSize (hbuild : build.debugAssertions = true) {file : FileText}
    {properties : FileProperties} (h : Tells file properties) (hfirst : CommonFirst file.lines)
    (halone : file.earlier = 0) {size : ℕ} (hsize : commonSize build properties = .ok size) :
    ∀ last ∈ (commonOf file.lines).getLast?, last.2.offset + last.2.size < 2 ^ 16 := by
  intro last hlast
  have hcount : properties.commonFieldCount = (commonOf file.lines).length := by
    rw [h.count_eq, FileText.count, halone, Nat.zero_add]
  obtain ⟨index, hindex⟩ : ∃ index, (commonOf file.lines).length = index + 1 := by
    refine Nat.exists_eq_succ_of_ne_zero fun hzero ↦ ?_
    rw [List.eq_nil_of_length_eq_zero hzero] at hlast
    cases hlast
  rw [Option.mem_def, ← declaring_last hfirst hindex] at hlast
  unfold commonSize at hsize
  rw [hcount, hindex, if_neg (Nat.succ_ne_zero index), Nat.add_sub_cancel] at hsize
  rcases h.at index with ⟨hnone, _⟩ | ⟨said, field, hsaid, hfield, hmade⟩
  · rw [hnone] at hlast
    cases hlast
  · rw [hsaid] at hlast
    obtain rfl := Option.some.inj hlast
    rw [hfield] at hsize
    rw [← hmade.offset_eq, ← hmade.size_eq]
    exact (eq_of_addU16 hbuild hsize).2

/-- The name of the first field that is not common decides the style. -/
theorem styleOf_returns {file : FileText} {properties : FileProperties}
    (h : Tells file properties) :
    Returns (styleOf properties) fun style ↦
      style = .eventHeader ↔
        ∃ field, properties.fields[properties.commonFieldCount]? = some field ∧
          field.name = .ok (ascii "eventheader_flags") := by
  unfold styleOf
  rcases h.at properties.commonFieldCount with ⟨_, hnone⟩ | ⟨said, field, _, hfield, hmade⟩
  · rw [hnone]
    refine .ok (iff_of_false (fun heq ↦ nomatch heq) ?_)
    rintro ⟨field, hfield, _⟩
    cases hfield
  · obtain ⟨name, hname, _⟩ := hmade.name_returns
    rw [hfield]
    dsimp only
    rw [hname, ok_bind]
    refine .ok ?_
    by_cases heq : name = ascii "eventheader_flags"
    · rw [if_pos heq]
      exact iff_of_true rfl ⟨field, rfl, hname.trans (congrArg Except.ok heq)⟩
    · rw [if_neg heq]
      refine iff_of_false (fun hstyle ↦ nomatch hstyle) ?_
      rintro ⟨other, hother, hflags⟩
      obtain rfl := Option.some.inj hother
      rw [hname] at hflags
      exact heq (Except.ok.inj hflags)

/-- What a sound text makes of the parser's variables, in every build. -/
theorem parse_of_sound (build : Build) (longIs64Bits : Bool) (systemName : List UInt8)
    (htext : IsUtf8 text) (h : Sound text) :
    Returns (parse build longIs64Bits systemName text) fun result ↦
      ∀ format ∈ result, Consistent text format := by
  obtain ⟨properties, hlines, htells⟩ :=
    @propertyLines_returns build longIs64Bits text htext h.legible h.count_lt
  have hfirst := fileText_commonFirst text
  unfold parse
  rw [hlines, ok_bind]
  cases hid : properties.id with
  | none => exact .ok fun format hformat ↦ nomatch hformat
  | some id =>
    dsimp only
    refine .ite (fun hname ↦ ?_) fun _ ↦ .ok fun format hformat ↦ nomatch hformat
    have hnamed : (fileText text).Named := by
      refine ⟨?_, htells.name_eq ▸ hname⟩
      rw [← htells.id_eq, hid]
      exact fun hnone ↦ nomatch hnone
    have hcount : properties.commonFieldCount = (commonOf (fileText text).lines).length := by
      rw [htells.count_eq, FileText.count, h.alone hnamed, Nat.zero_add]
    refine (commonSize_returns htells hfirst (h.alone hnamed) (h.size_lt hnamed)).bind
      fun size hsize ↦ (styleOf_returns htells).bind fun style hstyle ↦ .ok ?_
    intro format hformat
    obtain rfl := Option.some.inj hformat
    refine ⟨?_, htells.fields, fun index hindex ↦ ?_, hsize.1, hsize.2, hstyle⟩
    · dsimp only
      rw [← htells.fields.length_eq, hcount]
      exact List.length_filter_le _ _
    · exact declaring_of_lt hfirst (hcount ▸ hindex)

/-- A text that is parsed to a consistent format where overflows and assertions are checked is
sound. -/
theorem sound_of_parse (hbuild : build.debugAssertions = true) {systemName : List UInt8}
    (htext : IsUtf8 text) {result : Option PerfEventFormat}
    (h : parse build longIs64Bits systemName text = .ok result)
    (hconsistent : ∀ format ∈ result, Consistent text format) : Sound text := by
  obtain ⟨properties, hlines, h⟩ := bind_eq_ok.mp h
  obtain ⟨hlegible, htells, hcount⟩ := legible_of_propertyLines hbuild htext hlines
  have hfirst := fileText_commonFirst text
  have hformat : (fileText text).Named → ∃ size format, commonSize build properties = .ok size ∧
      Consistent text format ∧ format.commonFieldCount = (fileText text).count := by
    rintro ⟨hid, hname⟩
    rw [← htells.id_eq] at hid
    rw [← htells.name_eq] at hname
    obtain ⟨id, hid⟩ := Option.ne_none_iff_exists'.mp hid
    rw [hid] at h
    dsimp only at h
    rw [if_pos hname] at h
    obtain ⟨size, hsize, h⟩ := bind_eq_ok.mp h
    obtain ⟨style, _, h⟩ := bind_eq_ok.mp h
    obtain rfl := Except.ok.inj h
    exact ⟨size, _, hsize, hconsistent _ rfl, htells.count_eq⟩
  have halone : (fileText text).Named → (fileText text).earlier = 0 := by
    intro hnamed
    obtain ⟨_, format, _, hformat, hcountEq⟩ := hformat hnamed
    by_contra hpos
    -- the field behind the common ones of the last section would be common too
    have hlt : (commonOf (fileText text).lines).length < format.commonFieldCount := by
      rw [hcountEq, FileText.count]
      omega
    obtain ⟨said, hsaid⟩ := hformat.common _ hlt
    have hother := declaring_of_le hfirst le_rfl hsaid
    cases hother
  refine ⟨hlegible, hcount, halone, fun hnamed last hlast ↦ ?_⟩
  obtain ⟨size, _, hsize, _, _⟩ := hformat hnamed
  exact size_lt_of_commonSize hbuild htells hfirst (halone hnamed) hsize last hlast

end Files

/-- In every build `parse` returns, and what it returns is consistent, exactly for the sound texts. -/
theorem parse_consistent_iff (longIs64Bits : Bool) (systemName : List UInt8) (chars : List Char) :
    (∀ build, ∃ result, parse build longIs64Bits systemName (utf8 chars) = .ok result ∧
        ∀ format ∈ result, Consistent (utf8 chars) format) ↔
      Sound (utf8 chars) := by
  constructor
  · intro h
    obtain ⟨result, hparse, hconsistent⟩ := h ⟨true, .little, true⟩
    exact sound_of_parse rfl (isUtf8_utf8 chars) hparse hconsistent
  · intro h build
    exact parse_of_sound build longIs64Bits systemName (isUtf8_utf8 chars) h

/-- A file with a second section, which has no field. -/
def twoSections : List Char :=
  "name: e\nID: 7\nformat:\n field:u8 a; offset:0; size:1;\n\n\nformat:\n".toList

/-- The common field of the first section is counted but gone: the index of the last common field is
out of range in every build. -/
theorem twoSections_faults :
    parse ⟨true, .little, true⟩ true [] (utf8 twoSections) = .error .indexOutOfRange ∧
      parse ⟨false, .little, true⟩ true [] (utf8 twoSections) = .error .indexOutOfRange := by
  constructor
  · decide +kernel
  · decide +kernel

end PerfEventFormat

end Tracepoints
