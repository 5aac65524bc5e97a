import Tracepoints.Perf.Declarations

/-!
# The text of a format file

What a format file says, read without any machine integer: the properties of a field line
(`lineEntries`, `fieldLine`), the lines of a section `format:` (`sectionLines`) and the properties of
the file (`fileEntries`). The loops of the two parsers go over these lists (`lineLoop_eq`,
`fieldLines_eq`, `propertyLines_eq`), and all their parts are texts of whole characters
(`lineEntries_utf8`, `fileEntries_utf8`).

`Legible` is what a field line has to be for `PerfFieldFormat::parse` to return; `parse_legible` and
`parse_faults` are the two directions.
-/

set_option autoImplicit false
set_option relaxedAutoImplicit false

namespace Tracepoints

open Exec Text

namespace PerfFieldFormat

/-! ### Field lines -/

/-- A property `NAME: VALUE` of a field line, and whether a semicolon follows. -/
structure LineEntry where
  name : List UInt8
  value : List UInt8
  terminated : Bool
  deriving DecidableEq, Repr

/-- The properties of a field line. -/
def lineEntries : ℕ → List UInt8 → List LineEntry
  | 0, _ => []
  | fuel + 1, line =>
    let line := line.dropWhile isSpaceOrTabOrSemicolon
    let name := line.takeWhile (· ≠ colon)
    match line.drop name.length with
    | [] => []
    | _ :: behind =>
      let behind := behind.dropWhile isSpaceOrTab
      let value := behind.takeWhile (· ≠ semicolon)
      let rest := behind.drop value.length
      ⟨name, value, rest ≠ []⟩ :: lineEntries fuel rest

theorem drop_takeWhile_length (p : UInt8 → Bool) (text : List UInt8) :
    text.drop (text.takeWhile p).length = text.dropWhile p := by
  induction text with
  | nil => rfl
  | cons c text ih =>
    by_cases hc : p c = true
    · simp [hc, ih]
    · simp [hc]

/-- What is behind the value of a property is shorter than what is behind its name. -/
theorem length_behind_le (behind : List UInt8) :
    ((behind.dropWhile isSpaceOrTab).drop
      ((behind.dropWhile isSpaceOrTab).takeWhile (· ≠ semicolon)).length).length ≤ behind.length := by
  refine (List.drop_suffix _ _).length_le.trans ?_
  exact (List.dropWhile_suffix _).length_le

/-- The loop of `parse` goes over the properties. -/
theorem lineLoop_eq (build : Build) {fuel : ℕ} {line : List UInt8} (properties : LineProperties)
    (hfuel : line.length < fuel) :
    lineLoop build fuel line properties = (lineEntries fuel line).foldlM
      (fun properties entry ↦ properties.withProperty build entry.name entry.value entry.terminated)
      properties := by
  induction fuel generalizing line properties with
  | zero => omega
  | succ fuel ih =>
    rw [lineLoop, lineEntries]
    dsimp only
    generalize hbehind : (line.dropWhile isSpaceOrTabOrSemicolon).drop _ = rest
    cases rest with
    | nil => rfl
    | cons c behind =>
      have hlength : (c :: behind).length ≤ line.length := by
        rw [← hbehind]
        exact (List.drop_suffix _ _).length_le.trans (List.dropWhile_suffix _).length_le
      have hle := length_behind_le behind
      rw [List.length_cons] at hlength
      dsimp only
      rw [List.foldlM_cons]
      exact bind_congr fun next ↦ ih next (by omega)

theorem isSpaceOrTab_lt {byte : UInt8} (h : isSpaceOrTab byte = true) : byte.toNat < 0x80 := by
  cases byte with | ofBitVec bits => revert bits; decide

/-- The properties of a line are texts of whole characters. -/
theorem lineEntries_utf8 (fuel : ℕ) {line : List UInt8} (hline : IsUtf8 line) :
    ∀ entry ∈ lineEntries fuel line, IsUtf8 entry.value := by
  have hsemicolons : ∀ byte, isSpaceOrTabOrSemicolon byte = true → byte.toNat < 0x80 := by
    intro byte
    cases byte with | ofBitVec bits => revert bits; decide
  have hcolon : ∀ byte, decide (byte ≠ colon) = false → byte.toNat < 0x80 := by
    intro byte
    cases byte with | ofBitVec bits => revert bits; decide
  have hsemicolon : ∀ byte, decide (byte ≠ semicolon) = false → byte.toNat < 0x80 := by
    intro byte
    cases byte with | ofBitVec bits => revert bits; decide
  induction fuel generalizing line with
  | zero => exact fun entry hentry ↦ nomatch hentry
  | succ fuel ih =>
    have hname := ((hline.dropWhile hsemicolons).takeWhile hcolon).2
    rw [lineEntries]
    dsimp only
    rw [drop_takeWhile_length]
    generalize hrest : (line.dropWhile isSpaceOrTabOrSemicolon).dropWhile _ = rest at hname
    cases rest with
    | nil => exact fun entry hentry ↦ nomatch hentry
    | cons c behind =>
      have hc : c.toNat < 0x80 := by
        have hhead := List.head?_dropWhile_not (fun byte ↦ decide (byte ≠ colon))
          (line.dropWhile isSpaceOrTabOrSemicolon)
        rw [hrest] at hhead
        exact hcolon c (by simpa using hhead)
      have hvalue := ((hname.tail hc).dropWhile fun _ ↦ isSpaceOrTab_lt).takeWhile hsemicolon
      dsimp only
      rw [drop_takeWhile_length]
      exact List.forall_mem_cons.mpr ⟨hvalue.1, ih hvalue.2⟩

/-- The number of the property, if it is one that `parse` reads, fits 32 bits. -/
def LineEntry.Fits (entry : LineEntry) : Prop :=
  entry.name = ascii "offset" ∨ entry.name = ascii "size" ∨ entry.name = ascii "signed" →
    entry.terminated = true → Text.Fits entry.value

/-- What a property says, with numbers of any size. -/
def LineProperties.saying (properties : LineProperties) (entry : LineEntry) : LineProperties :=
  if entry.name = ascii "field" ∨ entry.name = ascii "field special" then
    { properties with field := entry.value }
  else if entry.name = ascii "offset" ∧ entry.terminated then
    { properties with offset := (writtenNumber entry.value).map (· % 2 ^ 16) }
  else if entry.name = ascii "size" ∧ entry.terminated then
    { properties with size := (writtenNumber entry.value).map (· % 2 ^ 16) }
  else if entry.name = ascii "signed" ∧ entry.terminated then
    { properties with signed := (writtenNumber entry.value).map (· ≠ 0) }
  else properties

theorem withProperty_of_fits (build : Build) (properties : LineProperties) {entry : LineEntry}
    (h : entry.Fits) :
    properties.withProperty build entry.name entry.value entry.terminated =
      .ok (properties.saying entry) := by
  unfold LineProperties.withProperty LineProperties.saying
  by_cases hfield : entry.name = ascii "field" ∨ entry.name = ascii "field special"
  · rw [if_pos hfield, if_pos hfield]
  rw [if_neg hfield, if_neg hfield]
  by_cases hoffset : entry.name = ascii "offset" ∧ entry.terminated
  · rw [if_pos hoffset, if_pos hoffset, asciiToU32_of_fits build (h (.inl hoffset.1) hoffset.2),
      ok_bind]
  rw [if_neg hoffset, if_neg hoffset]
  by_cases hsize : entry.name = ascii "size" ∧ entry.terminated
  · rw [if_pos hsize, if_pos hsize,
      asciiToU32_of_fits build (h (.inr (.inl hsize.1)) hsize.2), ok_bind]
  rw [if_neg hsize, if_neg hsize]
  by_cases hsigned : entry.name = ascii "signed" ∧ entry.terminated
  · rw [if_pos hsigned, if_pos hsigned,
      asciiToU32_of_fits build (h (.inr (.inr hsigned.1)) hsigned.2), ok_bind]
  · rw [if_neg hsigned, if_neg hsigned]

theorem fits_of_withProperty {build : Build} (hbuild : build.debugAssertions = true)
    {properties properties' : LineProperties} {entry : LineEntry}
    (h : properties.withProperty build entry.name entry.value entry.terminated = .ok properties') :
    entry.Fits := by
  intro hname hterminated
  by_contra hnot
  have hfield : ¬(entry.name = ascii "field" ∨ entry.name = ascii "field special") := by
    rcases hname with hname | hname | hname <;> rw [hname] <;> decide
  unfold LineProperties.withProperty at h
  rw [if_neg hfield] at h
  simp only [hterminated, and_true, asciiToU32_of_not_fits hbuild hnot, error_bind] at h
  split_ifs at h with hoffset hsize hsigned
  rcases hname with hname | hname | hname <;> contradiction

/-! ### Legible lines -/

/-- What a field line says. -/
structure FieldLine where
  field : List UInt8
  offset : ℕ
  size : ℕ
  signed : Option Bool
  deriving DecidableEq, Repr

/-- What the properties of a field line say. -/
def declared (line : List UInt8) : LineProperties :=
  (lineEntries (line.length + 1) line).foldl LineProperties.saying ⟨[], none, none, none⟩

/-- What a field line says, if it says enough to make a field. -/
def fieldLine (line : List UInt8) : Option FieldLine :=
  match (declared line).offset, (declared line).size with
  | some offset, some size =>
    if (declared line).field ≠ [] then
      some ⟨(declared line).field, offset, size, (declared line).signed⟩
    else none
  | _, _ => none

/-- Every number of the line fits 32 bits, and its declaration, if it makes a field, can be read. -/
structure Legible (line : List UInt8) : Prop where
  fits : ∀ entry ∈ lineEntries (line.length + 1) line, entry.Fits
  readable : ∀ said ∈ fieldLine line, Readable said.field said.size

/-- The field is what the line says, and its name can be sliced. -/
structure MadeOf (said : FieldLine) (format : PerfFieldFormat) : Prop where
  field_eq : format.field = said.field
  offset_eq : format.offset = said.offset
  size_eq : format.size = said.size
  signed_eq : format.signed = said.signed
  name_returns : Returns format.name fun _ ↦ True

theorem lineLoop_of_fits (build : Build) {line : List UInt8}
    (h : ∀ entry ∈ lineEntries (line.length + 1) line, entry.Fits) :
    lineLoop build (line.length + 1) line ⟨[], none, none, none⟩ = .ok (declared line) := by
  rw [lineLoop_eq build _ (Nat.lt_succ_self _)]
  obtain ⟨properties, heq, rfl⟩ := @foldlM_returns _ _ _
    (fun (properties : LineProperties) (entry : LineEntry) ↦
      properties.withProperty build entry.name entry.value entry.terminated)
    LineProperties.saying (fun abstract properties ↦ abstract = properties) LineEntry.Fits
    (fun _ ↦ True) (fun _ _ _ ↦ trivial)
    (fun abstract state entry heq hentry _ ↦ by
      rw [← heq, withProperty_of_fits build abstract hentry]
      exact .ok rfl)
    _ _ _ rfl h trivial
  exact heq

theorem fits_of_lineLoop {build : Build} (hbuild : build.debugAssertions = true)
    {line : List UInt8} {properties : LineProperties}
    (h : lineLoop build (line.length + 1) line ⟨[], none, none, none⟩ = .ok properties) :
    ∀ entry ∈ lineEntries (line.length + 1) line, entry.Fits := by
  rw [lineLoop_eq build _ (Nat.lt_succ_self _)] at h
  exact (@foldlM_eq_ok _ _ _ _ (fun (_ : Unit) _ ↦ ()) (fun _ _ ↦ True) (fun _ ↦ True)
    LineEntry.Fits (fun _ _ _ _ _ _ heq ↦ ⟨fits_of_withProperty hbuild heq, trivial⟩)
    _ () _ _ trivial (fun _ _ ↦ trivial) h).1

theorem declared_utf8 {line : List UInt8} (hline : IsUtf8 line) : IsUtf8 (declared line).field := by
  unfold declared
  have hvalues := lineEntries_utf8 (line.length + 1) hline
  generalize lineEntries (line.length + 1) line = entries at hvalues
  have hstart : IsUtf8 (⟨[], none, none, none⟩ : LineProperties).field := isUtf8_nil
  generalize (⟨[], none, none, none⟩ : LineProperties) = properties at hstart
  induction entries generalizing properties with
  | nil => exact hstart
  | cons entry entries ih =>
    obtain ⟨hvalue, hothers⟩ := List.forall_mem_cons.mp hvalues
    refine ih hothers _ ?_
    unfold LineProperties.saying
    split_ifs
    · exact hvalue
    all_goals exact hstart

theorem fieldLine_eq_some {line : List UInt8} {said : FieldLine} (h : fieldLine line = some said) :
    (declared line).offset = some said.offset ∧ (declared line).size = some said.size ∧
      (declared line).field = said.field ∧ (declared line).signed = said.signed ∧
      said.field ≠ [] := by
  unfold fieldLine at h
  split at h
  · next offset size hoffset hsize =>
    split_ifs at h with hfield
    cases h
    exact ⟨hoffset, hsize, rfl, rfl, hfield⟩
  · cases h

/-- Where the numbers fit, `parse` makes the field that the line says. -/
theorem parse_eq (build : Build) (longIs64Bits : Bool) {line : List UInt8}
    (h : ∀ entry ∈ lineEntries (line.length + 1) line, entry.Fits) :
    parse build longIs64Bits line =
      match fieldLine line with
      | none => .ok none
      | some said =>
        some <$> new build longIs64Bits said.field said.offset said.size said.signed := by
  unfold parse fieldLine
  rw [lineLoop_of_fits build h, ok_bind]
  cases (declared line).offset with
  | none => rfl
  | some offset =>
    cases (declared line).size with
    | none => rfl
    | some size =>
      dsimp only
      by_cases hfield : (declared line).field ≠ []
      · rw [if_pos hfield, if_pos hfield]
      · rw [if_neg hfield, if_neg hfield]

/-- A legible line is read in every build: a field is made if the line says enough. -/
theorem parse_legible (build : Build) (longIs64Bits : Bool) {line : List UInt8}
    (hline : IsUtf8 line) (h : Legible line) :
    (fieldLine line = none ∧ parse build longIs64Bits line = .ok none) ∨
      ∃ said format, fieldLine line = some said ∧
        parse build longIs64Bits line = .ok (some format) ∧ MadeOf said format := by
  rw [parse_eq build longIs64Bits h.fits]
  cases hsaid : fieldLine line with
  | none => exact .inl ⟨rfl, rfl⟩
  | some said =>
    obtain ⟨_, _, hfield, _, hne⟩ := fieldLine_eq_some hsaid
    obtain ⟨chars, hchars⟩ := declared_utf8 hline
    obtain ⟨format, hnew, _, hname⟩ := new_returns build longIs64Bits said.offset said.signed
      (hfield.symm.trans hchars) hne (h.readable said hsaid)
    obtain ⟨hfield, hoffset, hsize, hsigned⟩ := eq_of_new hnew
    refine .inr ⟨said, format, rfl, ?_, hfield, hoffset, hsize, hsigned, hname⟩
    dsimp only
    rw [hnew]
    rfl

/-- A line that is not legible makes `parse` fault where overflows and assertions are checked. -/
theorem legible_of_parse {build : Build} (hbuild : build.debugAssertions = true)
    {longIs64Bits : Bool} {line : List UInt8} (hline : IsUtf8 line)
    {result : Option PerfFieldFormat} (h : parse build longIs64Bits line = .ok result) :
    Legible line := by
  obtain ⟨properties, hloop, _⟩ := bind_eq_ok.mp h
  have hfits := fits_of_lineLoop hbuild hloop
  refine ⟨hfits, fun said hsaid ↦ ?_⟩
  rw [Option.mem_def] at hsaid
  by_contra hreadable
  obtain ⟨_, _, hfield, _, _⟩ := fieldLine_eq_some hsaid
  obtain ⟨chars, hchars⟩ := declared_utf8 hline
  obtain ⟨fault, hfault⟩ := new_faults hbuild longIs64Bits said.offset said.signed
    (hfield.symm.trans hchars) hreadable
  rw [parse_eq build longIs64Bits hfits, hsaid] at h
  dsimp only at h
  rw [hfault] at h
  cases h

end PerfFieldFormat

namespace PerfEventFormat

open PerfFieldFormat

/-! ### Sections -/

/-- The lines of a section `format:` from an end of line on, each with whether it comes before the
first blank line, and what is behind the section. -/
def sectionLines : ℕ → Bool → List UInt8 → List (Bool × List UInt8) × List UInt8
  | 0, _, text => ([], text)
  | _, _, [] => ([], [])
  | fuel + 1, common, c :: behind =>
    let text := skipEol (c :: behind)
    let line := text.takeWhile fun c ↦ !isEolChar c
    let rest := text.drop line.length
    if line = [] then
      if common then sectionLines fuel false rest else ([], rest)
    else
      let (lines, behind) := sectionLines fuel common rest
      ((common, line) :: lines, behind)

/-- The effect of a line of a section. -/
def applyLine (build : Build) (longIs64Bits : Bool) (properties : FileProperties)
    (line : Bool × List UInt8) : Exec FileProperties := do
  match ← PerfFieldFormat.parse build longIs64Bits line.2 with
  | some field => pushField build line.1 properties field
  | none => .ok properties

/-- The text starts with an end of line, or is empty. -/
def StartsEol (text : List UInt8) : Prop := ∀ c ∈ text.head?, isEolChar c = true

theorem startsEol_drop (text : List UInt8) :
    StartsEol (text.drop (text.takeWhile fun c ↦ !isEolChar c).length) := by
  rw [drop_takeWhile_length]
  intro c hc
  have hhead := List.head?_dropWhile_not (fun c ↦ !isEolChar c) text
  rw [Option.mem_def] at hc
  rw [hc] at hhead
  simpa using hhead

theorem length_skipEol (c : UInt8) (behind : List UInt8) :
    (skipEol (c :: behind)).length ≤ behind.length := by
  unfold skipEol
  split
  · simp
  · next heq =>
    obtain ⟨_, rfl⟩ := List.cons.inj heq
    simp
  · next first second rest heq =>
    obtain ⟨_, rfl⟩ := List.cons.inj heq
    split_ifs
    · simp
    · exact le_rfl

/-- The loop over the lines of `format:` goes over the lines of the section. -/
theorem fieldLines_eq (build : Build) (longIs64Bits : Bool) {fuel : ℕ} {common : Bool}
    {text : List UInt8} (properties : FileProperties) (hfuel : text.length < fuel)
    (heol : StartsEol text) :
    fieldLines build longIs64Bits fuel common text properties = (do
      let properties ← (sectionLines fuel common text).1.foldlM (applyLine build longIs64Bits)
        properties
      .ok (properties, (sectionLines fuel common text).2)) := by
  induction fuel generalizing common text properties with
  | zero => omega
  | succ fuel ih =>
    cases text with
    | nil => rfl
    | cons c behind =>
      have hlength := length_skipEol c behind
      have hdrop := startsEol_drop (skipEol (c :: behind))
      rw [List.length_cons] at hfuel
      have hrest : ((skipEol (c :: behind)).drop ((skipEol (c :: behind)).takeWhile
          fun c ↦ !isEolChar c).length).length < fuel :=
        ((List.drop_suffix _ _).length_le.trans hlength).trans_lt (by omega)
      rw [fieldLines, sectionLines, debugAssert_of (heol c rfl), ok_bind]
      dsimp only
      by_cases hline : ((skipEol (c :: behind)).takeWhile fun c ↦ !isEolChar c) = []
      · rw [if_pos hline, if_pos hline]
        cases common with
        | true => exact ih properties hrest hdrop
        | false => rfl
      · rw [if_neg hline, if_neg hline, List.foldlM_cons]
        dsimp only [applyLine]
        rw [bind_assoc, bind_assoc]
        refine bind_congr fun parsed ↦ ?_
        cases parsed with
        | none => exact ih properties hrest hdrop
        | some field =>
          dsimp only
          exact bind_congr fun next ↦ ih next hrest hdrop

theorem isEolChar_lt {byte : UInt8} (h : isEolChar byte = true) : byte.toNat < 0x80 := by
  cases byte with | ofBitVec bits => revert bits; decide

theorem not_isEolChar_lt {byte : UInt8} (h : (!isEolChar byte) = false) : byte.toNat < 0x80 := by
  cases byte with | ofBitVec bits => revert bits; decide

theorem skipEol_utf8 {c : UInt8} {behind : List UInt8} (h : IsUtf8 (c :: behind))
    (heol : isEolChar c = true) : IsUtf8 (skipEol (c :: behind)) := by
  have hbehind := h.tail (isEolChar_lt heol)
  cases behind with
  | nil => exact isUtf8_nil
  | cons next rest =>
    rw [skipEol]
    split_ifs with hcrlf
    · refine hbehind.tail ?_
      rw [hcrlf.2]
      decide
    · exact hbehind

/-- The lines of a section, and what is behind it, are texts of whole characters. -/
theorem sectionLines_utf8 (fuel : ℕ) (common : Bool) {text : List UInt8} (htext : IsUtf8 text)
    (heol : StartsEol text) :
    (∀ line ∈ (sectionLines fuel common text).1, IsUtf8 line.2) ∧
      IsUtf8 (sectionLines fuel common text).2 ∧ StartsEol (sectionLines fuel common text).2 := by
  induction fuel generalizing common text with
  | zero => exact ⟨fun line hline ↦ absurd hline List.not_mem_nil, htext, heol⟩
  | succ fuel ih =>
    cases text with
    | nil => exact ⟨fun line hline ↦ absurd hline List.not_mem_nil, htext, heol⟩
    | cons c behind =>
      have hsplit := (skipEol_utf8 htext (heol c rfl)).takeWhile fun _ ↦ not_isEolChar_lt
      rw [← drop_takeWhile_length] at hsplit
      have hdrop := startsEol_drop (skipEol (c :: behind))
      rw [sectionLines]
      dsimp only
      by_cases hline : ((skipEol (c :: behind)).takeWhile fun c ↦ !isEolChar c) = []
      · rw [if_pos hline]
        cases common with
        | true => exact ih false hsplit.2 hdrop
        | false => exact ⟨fun line hline ↦ absurd hline List.not_mem_nil, hsplit.2, hdrop⟩
      · rw [if_neg hline]
        obtain ⟨hlines, hbehind, hend⟩ := ih common hsplit.2 hdrop
        exact ⟨List.forall_mem_cons.mpr ⟨hsplit.1, hlines⟩, hbehind, hend⟩

theorem sectionLines_length (fuel : ℕ) (common : Bool) (text : List UInt8) :
    (sectionLines fuel common text).2.length ≤ text.length := by
  induction fuel generalizing common text with
  | zero => exact le_rfl
  | succ fuel ih =>
    cases text with
    | nil => exact le_rfl
    | cons c behind =>
      have hlength := length_skipEol c behind
      have hdrop := (List.drop_suffix ((skipEol (c :: behind)).takeWhile
        fun c ↦ !isEolChar c).length (skipEol (c :: behind))).length_le
      rw [sectionLines, List.length_cons]
      dsimp only
      by_cases hline : ((skipEol (c :: behind)).takeWhile fun c ↦ !isEolChar c) = []
      · rw [if_pos hline]
        cases common with
        | true => exact (ih false _).trans (by omega)
        | false => exact hdrop.trans (by omega)
      · rw [if_neg hline]
        exact (ih common _).trans (by omega)

/-! ### Files -/

/-- A property `NAME: VALUE` of a format file: whether the file goes on behind it and, for `format`,
the lines of the section. -/
structure FileEntry where
  name : List UInt8
  value : List UInt8
  terminated : Bool
  lines : List (Bool × List UInt8)
  deriving DecidableEq, Repr

/-- The section behind a property, if it is `format`, and what is behind the property. -/
def sectionBehind (propName rest : List UInt8) : List (Bool × List UInt8) × List UInt8 :=
  if propName = ascii "format" then sectionLines (rest.length + 1) true rest else ([], rest)

/-- The properties of a format file. -/
def fileEntries : ℕ → List UInt8 → List FileEntry
  | 0, _ => []
  | fuel + 1, text =>
    let text := (text.dropWhile isEolChar).dropWhile isSpaceOrTab
    let propName := text.takeWhile fun c ↦ c ≠ colon && !isEolChar c
    match text.drop propName.length with
    | [] => []
    | c :: behind =>
      if c ≠ colon then fileEntries fuel (c :: behind)
      else
        let behind := behind.dropWhile isSpaceOrTab
        let rest := behindValue (behind.length + 1) behind
        let value := behind.take (behind.length - rest.length)
        let found := sectionBehind propName rest
        ⟨propName, value, rest ≠ [], found.1⟩ :: fileEntries fuel found.2

/-- The effect of a property of a format file. -/
def applyEntry (build : Build) (longIs64Bits : Bool) (properties : FileProperties)
    (entry : FileEntry) : Exec FileProperties := do
  if entry.name = ascii "name" then .ok { properties with name := entry.value }
  else if entry.name = ascii "ID" ∧ entry.terminated then
    let id ← asciiToU32 build entry.value
    .ok { properties with id := id }
  else if entry.name = ascii "print fmt" then .ok { properties with printFmt := entry.value }
  else if entry.name = ascii "format" then
    entry.lines.foldlM (applyLine build longIs64Bits) { properties with fields := [] }
  else .ok properties

/-- The effect of a property, and what is behind it. -/
theorem withProperty_eq (build : Build) (longIs64Bits : Bool) (properties : FileProperties)
    (propName value : List UInt8) {rest : List UInt8} (heol : StartsEol rest) :
    withProperty build longIs64Bits properties propName value rest = (do
      let properties ← applyEntry build longIs64Bits properties
        ⟨propName, value, rest ≠ [], (sectionBehind propName rest).1⟩
      .ok (properties, (sectionBehind propName rest).2)) := by
  unfold withProperty applyEntry sectionBehind
  simp only [decide_eq_true_eq]
  by_cases hformat : propName = ascii "format"
  · subst hformat
    rw [if_neg (by decide), if_neg (fun hboth ↦ absurd hboth.1 (by decide)), if_neg (by decide),
      if_pos rfl, if_neg (by decide), if_neg (fun hboth ↦ absurd hboth.1 (by decide)),
      if_neg (by decide), if_pos rfl, if_pos rfl]
    exact fieldLines_eq build longIs64Bits _ (Nat.lt_succ_self _) heol
  · simp only [if_neg hformat]
    by_cases hname : propName = ascii "name"
    · rw [if_pos hname, if_pos hname, ok_bind]
    rw [if_neg hname, if_neg hname]
    by_cases hid : propName = ascii "ID" ∧ rest ≠ []
    · rw [if_pos hid, if_pos hid, bind_assoc]
      rfl
    rw [if_neg hid, if_neg hid]
    by_cases hprint : propName = ascii "print fmt"
    · rw [if_pos hprint, if_pos hprint, ok_bind]
    · rw [if_neg hprint, if_neg hprint, ok_bind]

theorem sectionBehind_length (propName rest : List UInt8) :
    (sectionBehind propName rest).2.length ≤ rest.length := by
  unfold sectionBehind
  split_ifs
  · exact sectionLines_length _ _ _
  · exact le_rfl

/-- A line without a colon is skipped: the text gets shorter. -/
theorem length_lt_of_noColon {text behind : List UInt8} {c : UInt8}
    (h : ((text.dropWhile isEolChar).dropWhile isSpaceOrTab).dropWhile
      (fun c ↦ c ≠ colon && !isEolChar c) = c :: behind) (hc : c ≠ colon) :
    (c :: behind).length < text.length := by
  have heol : isEolChar c = true := by
    have hhead := List.head?_dropWhile_not (fun c ↦ c ≠ colon && !isEolChar c)
      ((text.dropWhile isEolChar).dropWhile isSpaceOrTab)
    rw [h] at hhead
    simpa [hc] using hhead
  have hlast : c :: behind <:+ text.dropWhile isEolChar := by
    rw [← h]
    exact (List.dropWhile_suffix _).trans (List.dropWhile_suffix _)
  have hsuffix : text.dropWhile isEolChar <:+ text := List.dropWhile_suffix _
  refine lt_of_le_of_ne (hlast.trans hsuffix).length_le fun heq ↦ ?_
  -- the text would start with the end of line, which was skipped
  have hskip : c :: behind = text.dropWhile isEolChar :=
    hlast.eq_of_length (le_antisymm hlast.length_le (heq ▸ hsuffix.length_le))
  have hhead := List.head?_dropWhile_not isEolChar text
  rw [← hskip] at hhead
  simp [heol] at hhead

theorem behindValue_spec (text : List UInt8) :
    ∃ value, text = value ++ behindValue (text.length + 1) text ∧
      text.take (text.length - (behindValue (text.length + 1) text).length) = value ∧
      StartsEol (behindValue (text.length + 1) text) := by
  obtain ⟨value, hsplit, _, heol⟩ := behindValue_split text (Nat.lt_succ_self text.length)
  refine ⟨value, hsplit, ?_, heol⟩
  generalize behindValue (text.length + 1) text = rest at hsplit
  rw [hsplit, List.length_append, Nat.add_sub_cancel, List.take_left]

/-- The loop over the properties of a format file goes over the properties. -/
theorem propertyLines_eq (build : Build) (longIs64Bits : Bool) {fuel : ℕ} {text : List UInt8}
    (properties : FileProperties) (hfuel : text.length < fuel) :
    propertyLines build longIs64Bits fuel text properties =
      (fileEntries fuel text).foldlM (applyEntry build longIs64Bits) properties := by
  induction fuel generalizing text properties with
  | zero => omega
  | succ fuel ih =>
    rw [propertyLines, fileEntries]
    dsimp only
    rw [drop_takeWhile_length]
    generalize hrest : ((text.dropWhile isEolChar).dropWhile isSpaceOrTab).dropWhile _ = rest
    cases rest with
    | nil => rfl
    | cons c behind =>
      dsimp only
      by_cases hc : c ≠ colon
      · rw [if_pos hc, if_pos hc]
        have hlength := length_lt_of_noColon hrest hc
        exact ih properties (by omega)
      · have hlength : (c :: behind).length ≤ text.length := by
          rw [← hrest]
          exact ((List.dropWhile_suffix _).trans ((List.dropWhile_suffix _).trans
            (List.dropWhile_suffix _))).length_le
        have hspaces := (@List.dropWhile_suffix _ behind isSpaceOrTab).length_le
        obtain ⟨value, hsplit, hvalue, heol⟩ := behindValue_spec (behind.dropWhile isSpaceOrTab)
        have hbehind := congrArg List.length hsplit
        rw [List.length_append] at hbehind
        rw [List.length_cons] at hlength
        rw [if_neg hc, if_neg hc, List.foldlM_cons, withProperty_eq build longIs64Bits properties _ _
          heol, bind_assoc]
        refine bind_congr fun next ↦ ih next ?_
        exact (sectionBehind_length _ _).trans_lt (by omega)

theorem sectionBehind_utf8 (propName : List UInt8) {rest : List UInt8} (hrest : IsUtf8 rest)
    (heol : StartsEol rest) :
    (∀ line ∈ (sectionBehind propName rest).1, IsUtf8 line.2) ∧
      IsUtf8 (sectionBehind propName rest).2 := by
  unfold sectionBehind
  split_ifs
  · obtain ⟨hlines, hbehind, _⟩ := sectionLines_utf8 (rest.length + 1) true hrest heol
    exact ⟨hlines, hbehind⟩
  · exact ⟨fun line hline ↦ absurd hline List.not_mem_nil, hrest⟩

/-- The values and lines of a format file are texts of whole characters. -/
theorem fileEntries_utf8 (fuel : ℕ) {text : List UInt8} (htext : IsUtf8 text) :
    ∀ entry ∈ fileEntries fuel text,
      IsUtf8 entry.value ∧ ∀ line ∈ entry.lines, IsUtf8 line.2 := by
  have hend : ∀ byte, (decide (byte ≠ colon) && !isEolChar byte) = false → byte.toNat < 0x80 := by
    intro byte
    cases byte with | ofBitVec bits => revert bits; decide
  induction fuel generalizing text with
  | zero => exact fun entry hentry ↦ absurd hentry List.not_mem_nil
  | succ fuel ih =>
    have hline := (((htext.dropWhile fun _ ↦ isEolChar_lt).dropWhile
      fun _ ↦ isSpaceOrTab_lt).takeWhile hend).2
    rw [fileEntries]
    dsimp only
    rw [drop_takeWhile_length]
    generalize hrest : ((text.dropWhile isEolChar).dropWhile isSpaceOrTab).dropWhile _ = rest
      at hline
    cases rest with
    | nil => exact fun entry hentry ↦ absurd hentry List.not_mem_nil
    | cons c behind =>
      dsimp only
      by_cases hc : c ≠ colon
      · rw [if_pos hc]
        exact ih hline
      · have hascii : c.toNat < 0x80 := by
          rw [not_not.mp hc]
          decide
        obtain ⟨value, hsplit, hvalue, heol⟩ := behindValue_spec (behind.dropWhile isSpaceOrTab)
        have hbehind := (hline.tail hascii).dropWhile fun _ ↦ isSpaceOrTab_lt
        rw [hsplit] at hbehind
        obtain ⟨hwhole, hrest⟩ := hbehind.split
          (startsChar_of_ascii fun byte hbyte ↦ isEolChar_lt (heol byte hbyte))
        obtain ⟨hlines, hnext⟩ := sectionBehind_utf8 (((text.dropWhile isEolChar).dropWhile
          isSpaceOrTab).takeWhile fun c ↦ c ≠ colon && !isEolChar c) hrest heol
        rw [if_neg hc, hvalue]
        exact List.forall_mem_cons.mpr ⟨⟨hwhole, hlines⟩, ih hnext⟩

end PerfEventFormat

end Tracepoints
