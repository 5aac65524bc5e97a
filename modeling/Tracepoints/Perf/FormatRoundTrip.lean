import Mathlib.Data.List.Forall2
import Tracepoints.Perf.EventFormat

/-!
# Printing and parsing format files

A format that `PerfEventFormat::parse` built is read back from what `write_to` prints, if its name
and its print format do not end inside a quoted string that is not closed.
-/

set_option autoImplicit false
set_option relaxedAutoImplicit false

namespace Tracepoints

open Exec Text

/-! ### Field lines -/

namespace PerfFieldFormat

variable {build : Build}

/-- A text does not start with a space or a tab. -/
def StartsPlain (text : List UInt8) : Prop :=
  ∀ c ∈ text.head?, isSpaceOrTab c = false

/-- One property of a field line, terminated by a semicolon. -/
theorem lineLoop_property {fuel : ℕ} {properties : LineProperties}
    {lead name value rest : List UInt8} (hlead : ∀ c ∈ lead, isSpaceOrTabOrSemicolon c = true)
    (hname : ∀ c ∈ name, c ≠ colon) (hstart : ∀ c ∈ (name ++ [colon]).head?,
      isSpaceOrTabOrSemicolon c = false)
    (hvalue : ∀ c ∈ value, c ≠ semicolon) (hplain : StartsPlain value) :
    lineLoop build (fuel + 1) (lead ++ name ++ colon :: (value ++ semicolon :: rest)) properties =
      (properties.withProperty build name value true >>=
        lineLoop build fuel (semicolon :: rest)) := by
  have hdrop : (lead ++ name ++ colon :: (value ++ semicolon :: rest)).dropWhile
      isSpaceOrTabOrSemicolon = name ++ colon :: (value ++ semicolon :: rest) := by
    rw [List.append_assoc, List.dropWhile_append_of_pos hlead]
    cases name with
    | nil => rfl
    | cons c name => exact List.dropWhile_cons_of_neg (by simp [hstart c rfl])
  have htake : (name ++ colon :: (value ++ semicolon :: rest)).takeWhile (· ≠ colon) = name := by
    rw [List.takeWhile_append_of_pos (by simpa using hname),
      List.takeWhile_cons_of_neg (by simp), List.append_nil]
  have hspaces : (value ++ semicolon :: rest).dropWhile isSpaceOrTab =
      value ++ semicolon :: rest := by
    cases value with
    | nil => rfl
    | cons c value => exact List.dropWhile_cons_of_neg (by simp [hplain c rfl])
  have htakeValue : (value ++ semicolon :: rest).takeWhile (· ≠ semicolon) = value := by
    rw [List.takeWhile_append_of_pos (by simpa using hvalue),
      List.takeWhile_cons_of_neg (by simp), List.append_nil]
  rw [lineLoop]
  dsimp only
  rw [hdrop, htake, List.drop_left]
  dsimp only
  rw [hspaces, htakeValue, List.drop_left]
  rfl

/-- A rest of semicolons ends the loop. -/
theorem lineLoop_done {fuel : ℕ} {properties : LineProperties} {rest : List UInt8}
    (hrest : ∀ c ∈ rest, isSpaceOrTabOrSemicolon c = true) :
    lineLoop build (fuel + 1) rest properties = .ok properties := by
  have hdrop : rest.dropWhile isSpaceOrTabOrSemicolon = [] := List.dropWhile_eq_nil_iff.mpr hrest
  rw [lineLoop]
  dsimp only
  rw [hdrop]
  rfl

/-- The value of a decimal number in a field line. -/
theorem decimal_ne_semicolon {value : ℕ} : ∀ c ∈ decimal value, c ≠ semicolon := by
  rintro c hc rfl
  exact absurd (isAsciiDigit_of_mem_decimal hc) (by decide)

theorem startsPlain_decimal (value : ℕ) : StartsPlain (decimal value) := by
  intro c hc
  have hdigit := isAsciiDigit_of_mem_decimal (List.mem_of_mem_head? hc)
  clear * - hdigit
  cases c with | ofBitVec bits => revert bits; decide

theorem withProperty_field (properties : LineProperties) (value : List UInt8) :
    properties.withProperty build (ascii "field") value true =
      .ok { properties with field := value } := by
  unfold LineProperties.withProperty
  rw [if_pos (Or.inl rfl)]

theorem withProperty_offset (properties : LineProperties) {value : ℕ} (hvalue : value < 2 ^ 16) :
    properties.withProperty build (ascii "offset") (decimal value) true =
      .ok { properties with offset := some value } := by
  unfold LineProperties.withProperty
  rw [if_neg (by decide), if_pos (by decide), asciiToU32_decimal build (by omega), ok_bind,
    Option.map_some, Nat.mod_eq_of_lt hvalue]

theorem withProperty_size (properties : LineProperties) {value : ℕ} (hvalue : value < 2 ^ 16) :
    properties.withProperty build (ascii "size") (decimal value) true =
      .ok { properties with size := some value } := by
  unfold LineProperties.withProperty
  rw [if_neg (by decide), if_neg (by decide), if_pos (by decide),
    asciiToU32_decimal build (by omega), ok_bind, Option.map_some, Nat.mod_eq_of_lt hvalue]

theorem withProperty_signed (properties : LineProperties) (signed : Bool) :
    properties.withProperty build (ascii "signed") (decimal signed.toNat) true =
      .ok { properties with signed := some signed } := by
  unfold LineProperties.withProperty
  rw [if_neg (by decide), if_neg (by decide), if_neg (by decide), if_pos (by decide),
    asciiToU32_decimal build (by cases signed <;> decide), ok_bind]
  cases signed <;> rfl

/-- What a field line can say: the declaration has no semicolon and no end of line, and does not
start with a space. -/
structure Printable (format : PerfFieldFormat) : Prop where
  field_ne : format.field ≠ []
  semicolon : ∀ c ∈ format.field, c ≠ semicolon
  eol : ∀ c ∈ format.field, isEolChar c = false
  plain : StartsPlain format.field
  offset_lt : format.offset < 2 ^ 16
  size_lt : format.size < 2 ^ 16

/-- The loop over a printed field line finds the properties of the field. -/
theorem lineLoop_fieldText {format : PerfFieldFormat} (h : format.Printable) (fuel : ℕ) :
    lineLoop build (fuel + 5) (PerfEventFormat.fieldText format) ⟨[], none, none, none⟩ =
      .ok ⟨format.field, some format.offset, some format.size, format.signed⟩ := by
  have htext : PerfEventFormat.fieldText format =
      [tab] ++ ascii "field" ++ colon :: (format.field ++ semicolon ::
        ([tab] ++ ascii "offset" ++ colon :: (decimal format.offset ++ semicolon ::
          ([tab] ++ ascii "size" ++ colon :: (decimal format.size ++ semicolon ::
            format.signed.elim [] fun signed ↦ [tab] ++ ascii "signed" ++ colon ::
              (decimal signed.toNat ++ [semicolon])))))) := by
    unfold PerfEventFormat.fieldText
    have hfield : ascii "\tfield:" = [tab] ++ ascii "field" ++ [colon] := by decide
    have hoffset : ascii ";\toffset:" = semicolon :: ([tab] ++ ascii "offset" ++ [colon]) := by
      decide
    have hsize : ascii ";\tsize:" = semicolon :: ([tab] ++ ascii "size" ++ [colon]) := by decide
    have hsigned : ascii "\tsigned:" = [tab] ++ ascii "signed" ++ [colon] := by decide
    have hsemicolon : ascii ";" = [semicolon] := by decide
    rw [hfield, hoffset, hsize, hsigned, hsemicolon]
    cases format.signed <;> simp only [List.append_assoc, List.cons_append, List.nil_append,
      List.append_nil, Option.elim]
  rw [htext, lineLoop_property (by decide) (by decide) (by decide) h.semicolon h.plain,
    withProperty_field, ok_bind]
  rw [← List.cons_append, ← List.cons_append, lineLoop_property (by decide) (by decide) (by decide)
    decimal_ne_semicolon (startsPlain_decimal _), withProperty_offset _ h.offset_lt, ok_bind]
  rw [← List.cons_append, ← List.cons_append, lineLoop_property (by decide) (by decide) (by decide)
    decimal_ne_semicolon (startsPlain_decimal _), withProperty_size _ h.size_lt, ok_bind]
  cases format.signed with
  | none => exact lineLoop_done (by decide)
  | some signed =>
    dsimp only [Option.elim]
    rw [← List.cons_append, ← List.cons_append, lineLoop_property (by decide) (by decide)
      (by decide) decimal_ne_semicolon (startsPlain_decimal _), withProperty_signed, ok_bind]
    exact lineLoop_done (by decide)

/-- A printed field line is read back as the field made anew. -/
theorem parse_fieldText {format : PerfFieldFormat} (h : format.Printable) (longIs64Bits : Bool) :
    parse build longIs64Bits (PerfEventFormat.fieldText format) =
      some <$> new build longIs64Bits format.field format.offset format.size format.signed := by
  obtain ⟨fuel, hfuel⟩ : ∃ fuel, (PerfEventFormat.fieldText format).length + 1 = fuel + 5 := by
    refine ⟨(PerfEventFormat.fieldText format).length - 4, ?_⟩
    have hlength : 7 ≤ (PerfEventFormat.fieldText format).length := by
      unfold PerfEventFormat.fieldText
      simp only [List.length_append]
      have : (ascii "\tfield:").length = 7 := by decide
      omega
    omega
  unfold parse
  rw [hfuel, lineLoop_fieldText h, ok_bind]
  dsimp only
  rw [if_pos h.field_ne]

/-! ### The size of `long` -/

/-- The kinds of specified encoding and format: a struct, a character, or a number. -/
def Specified (encoding : FieldEncoding) (format : FieldFormat) : Prop :=
  (encoding = FieldEncoding.struct ∧ format = FieldFormat.hexBytes) ∨
    (encoding = FieldEncoding.value8 ∧ format = FieldFormat.string8) ∨
    (encoding = FieldEncoding.value8 ∨ encoding = FieldEncoding.value16 ∨
      encoding = FieldEncoding.value32 ∨ encoding = FieldEncoding.value64 ∨
      encoding = FieldEncoding.invalid) ∧
    (format = FieldFormat.unsignedInt ∨ format = FieldFormat.signedInt ∨
      format = FieldFormat.hexInt)

instance (encoding : FieldEncoding) (format : FieldFormat) : Decidable (Specified encoding format) :=
  inferInstanceAs (Decidable (_ ∨ _))

theorem specified_fixedTypes (baseType : List UInt8) :
    Specified ((Declaration.fixedTypes.lookup baseType).getD
        (FieldEncoding.invalid, FieldFormat.hexInt)).1
      ((Declaration.fixedTypes.lookup baseType).getD
        (FieldEncoding.invalid, FieldFormat.hexInt)).2 := by
  have htypes : ∀ entry ∈ Declaration.fixedTypes, Specified entry.2.1 entry.2.2 := by decide
  cases hlookup : Declaration.fixedTypes.lookup baseType with
  | none => decide
  | some entry =>
    obtain ⟨_, _, heq, _⟩ := List.lookup_eq_some_iff.mp hlookup
    exact htypes (baseType, entry) (by rw [heq]; simp)

theorem specified_kind (longIs64Bits : Bool) (found : Declaration) (baseType : List UInt8) :
    Specified (found.specified longIs64Bits baseType).1
      (found.specified longIs64Bits baseType).2 := by
  unfold Declaration.specified
  by_cases hpointer : found.foundPointer = true
  · rw [if_pos hpointer]
    cases longIs64Bits <;> decide
  rw [if_neg hpointer]
  by_cases hstruct : found.foundStruct = true
  · rw [if_pos hstruct]
    decide
  rw [if_neg hstruct]
  by_cases hint : baseType = [] ∨ baseType = ascii "int"
  · rw [if_pos hint]
    unfold Declaration.specifiedInt
    cases longIs64Bits <;> dsimp only <;> split_ifs <;> decide
  rw [if_neg hint]
  by_cases hchar : baseType = ascii "char"
  · rw [if_pos hchar]
    unfold Declaration.specifiedChar
    dsimp only
    split_ifs <;> decide
  rw [if_neg hchar]
  exact specified_fixedTypes baseType

/-- The size of `long` does not change the specified format. -/
theorem specified_format_eq (longIs64Bits longIs64Bits' : Bool) (found : Declaration)
    (baseType : List UInt8) :
    (found.specified longIs64Bits baseType).2 = (found.specified longIs64Bits' baseType).2 := by
  unfold Declaration.specified Declaration.specifiedInt
  dsimp only
  split_ifs <;> rfl

end PerfFieldFormat

namespace Deduced

variable {build : Build} {size : ℕ}

/-- A number format. -/
def IsNumber (format : FieldFormat) : Prop :=
  format = FieldFormat.unsignedInt ∨ format = FieldFormat.signedInt ∨ format = FieldFormat.hexInt

theorem IsNumber.applySigned {format : FieldFormat} (h : IsNumber format) (signed : Option Bool) :
    IsNumber (applySigned format signed) := by
  rcases h with rfl | rfl | rfl <;> rcases signed with _ | _ | _ <;> unfold IsNumber <;> decide

/-- The assertions at the end of `new`. -/
def Ok (size : ℕ) (deduced : Deduced) : Prop :=
  deduced.encodingOk size = true ∧ deduced.flagsOk = true ∧ deduced.formatOk = true

theorem hexDump_ok (size : ℕ) : hexDump.Ok size := ⟨rfl, rfl, rfl⟩

theorem scalar_ok {format : FieldFormat} (hformat : IsNumber format) :
    (scalar size format).Ok size := by
  unfold scalar
  cases hsize : encodingOfSize size with
  | none => exact hexDump_ok size
  | some entry =>
    unfold encodingOfSize at hsize
    split at hsize
    all_goals cases hsize
    all_goals rcases hformat with rfl | rfl | rfl <;> exact ⟨rfl, rfl, rfl⟩

/-- The encodings that have a shift. -/
theorem shiftOfEncoding_eq_some {encoding : FieldEncoding} {shift : ℕ}
    (h : shiftOfEncoding encoding = some shift) :
    (encoding = FieldEncoding.value8 ∧ shift = 0) ∨ (encoding = FieldEncoding.value16 ∧ shift = 1) ∨
      (encoding = FieldEncoding.value32 ∧ shift = 2) ∨
      (encoding = FieldEncoding.value64 ∧ shift = 3) := by
  unfold shiftOfEncoding at h
  split_ifs at h <;> simp_all

/-- The parts of a value encoding with an array flag. -/
theorem withFlags_parts {encoding : FieldEncoding} {shift : ℕ} {flag : UInt8}
    (hshift : shiftOfEncoding encoding = some shift)
    (hflag : flag = FieldEncoding.cArrayFlag ∨ flag = FieldEncoding.vArrayFlag) :
    FieldEncoding.withoutFlags (withFlags encoding flag) = encoding ∧
      withFlags encoding flag &&& FieldEncoding.flagMask = flag ∧
      FieldEncoding.value8 ≤ encoding ∧ encoding ≤ FieldEncoding.value64 := by
  rcases shiftOfEncoding_eq_some hshift with ⟨rfl, rfl⟩ | ⟨rfl, rfl⟩ | ⟨rfl, rfl⟩ | ⟨rfl, rfl⟩ <;>
    rcases hflag with rfl | rfl <;> decide

theorem formatOk_of_number {deduced : Deduced} (hformat : IsNumber deduced.format)
    (hge : FieldEncoding.value8 ≤ FieldEncoding.withoutFlags deduced.encoding)
    (hle : FieldEncoding.withoutFlags deduced.encoding ≤ FieldEncoding.value64) :
    deduced.formatOk = true := by
  have hmem : deduced.format ∈
      [FieldFormat.unsignedInt, FieldFormat.signedInt, FieldFormat.hexInt] := by
    rcases hformat with h | h | h <;> rw [h] <;> decide
  unfold formatOk
  rw [if_pos hmem]
  simp [hge, hle]

/-- An array of value elements satisfies the assertions, if its size is that of the elements. -/
theorem array_ok {encoding : FieldEncoding} {format : FieldFormat} {shift count : ℕ}
    (hshift : shiftOfEncoding encoding = some shift) (hformat : IsNumber format)
    (hcount : 1 ≤ count) (hsize : size = count * 2 ^ shift) :
    Ok size ⟨withFlags encoding FieldEncoding.cArrayFlag, format, count, shift⟩ := by
  obtain ⟨hvalue, hflags, hge, hle⟩ := withFlags_parts hshift (Or.inl rfl)
  refine ⟨?_, ?_, formatOk_of_number hformat (by rw [hvalue]; exact hge)
    (by rw [hvalue]; exact hle)⟩
  · unfold encodingOk
    dsimp only
    rw [hvalue, hshift]
    simp [hsize]
  · unfold flagsOk
    dsimp only
    rw [hflags, if_neg (by decide), if_neg (by decide), if_pos rfl]
    exact decide_eq_true hcount

/-- Data of variable length satisfies the assertions. -/
theorem variable_ok {encoding : FieldEncoding} {format : FieldFormat} {shift : ℕ}
    (hshift : shiftOfEncoding encoding = some shift) (hformat : IsNumber format) :
    Ok size ⟨withFlags encoding FieldEncoding.vArrayFlag, format, 0, shift⟩ := by
  obtain ⟨hvalue, hflags, hge, hle⟩ := withFlags_parts hshift (Or.inr rfl)
  refine ⟨?_, ?_, formatOk_of_number hformat (by rw [hvalue]; exact hge)
    (by rw [hvalue]; exact hle)⟩
  · unfold encodingOk
    dsimp only
    rw [hvalue, hshift]
    simp
  · unfold flagsOk
    dsimp only
    rw [hflags, if_neg (by decide), if_pos rfl]
    rfl

/-- Without an element shift, the encoding of a number is unknown. -/
theorem eq_invalid_of_shift {encoding : FieldEncoding}
    (hencoding : encoding = FieldEncoding.value8 ∨ encoding = FieldEncoding.value16 ∨
      encoding = FieldEncoding.value32 ∨ encoding = FieldEncoding.value64 ∨
      encoding = FieldEncoding.invalid)
    (hshift : shiftOfEncoding encoding = none) : encoding = FieldEncoding.invalid := by
  rcases hencoding with rfl | rfl | rfl | rfl | rfl
  all_goals first | rfl | exact absurd hshift (by decide)

theorem fixed_returns {encoding : FieldEncoding} {format : FieldFormat} {count : ℕ}
    (hencoding : encoding = FieldEncoding.value8 ∨ encoding = FieldEncoding.value16 ∨
      encoding = FieldEncoding.value32 ∨ encoding = FieldEncoding.value64 ∨
      encoding = FieldEncoding.invalid)
    (hformat : IsNumber format) (hsize : size ≠ 0) :
    Returns (fixed build size count encoding format) (Ok size) := by
  unfold fixed
  refine Returns.ite (fun hcount ↦ ?_) (fun hcount ↦ Returns.ite
    (fun _ ↦ Returns.ok (hexDump_ok size)) (fun hmod ↦ ?_))
  · cases hshift : shiftOfEncoding encoding with
    | none =>
      dsimp only
      rw [debugAssert_of (eq_invalid_of_shift hencoding hshift), ok_bind]
      exact Returns.ok (hexDump_ok size)
    | some shift =>
      refine Returns.ite (fun _ ↦ Returns.ok (hexDump_ok size)) (fun hmod ↦ Returns.ok ?_)
      have hdvd : 2 ^ shift ∣ size := Nat.dvd_of_mod_eq_zero (not_not.mp hmod)
      exact array_ok hshift hformat
        (Nat.div_pos (Nat.le_of_dvd (Nat.pos_of_ne_zero hsize) hdvd) (Nat.two_pow_pos shift))
        (Nat.div_mul_cancel hdvd).symm
  · cases hentry : encodingOfSize (size / count) with
    | none => exact Returns.ok (hexDump_ok size)
    | some entry =>
      obtain ⟨elementEncoding, shift⟩ := entry
      obtain ⟨hshift, hdiv⟩ := encodingOfSize_eq_some hentry
      refine Returns.ok (array_ok hshift hformat (Nat.pos_of_ne_zero hcount) ?_)
      rw [← hdiv, Nat.mul_div_cancel' (Nat.dvd_of_mod_eq_zero (not_not.mp hmod))]

theorem variableLength_returns {encoding : FieldEncoding} {format : FieldFormat}
    (hencoding : encoding = FieldEncoding.value8 ∨ encoding = FieldEncoding.value16 ∨
      encoding = FieldEncoding.value32 ∨ encoding = FieldEncoding.value64 ∨
      encoding = FieldEncoding.invalid)
    (hformat : IsNumber format) :
    Returns (variableLength build encoding format) (Ok size) := by
  unfold variableLength
  cases hshift : shiftOfEncoding encoding with
  | none =>
    dsimp only
    rw [debugAssert_of (eq_invalid_of_shift hencoding hshift), ok_bind]
    exact Returns.ok (hexDump_ok size)
  | some shift => exact Returns.ok (variable_ok hshift hformat)

/-- Deduction returns, and the assertions hold of what it returns except for a struct of one
byte. -/
theorem of_returns (build : Build) (size : ℕ) (found : Declaration) (count : ℕ)
    (signed : Option Bool) {encoding : FieldEncoding} {format : FieldFormat} (hkind : PerfFieldFormat.Specified encoding format) :
    Returns (of build (found.array size) size count encoding format signed) fun deduced ↦
      deduced.Ok size ↔ ¬(format = FieldFormat.hexBytes ∧ size = 1) := by
  unfold of
  dsimp only
  rcases hkind with ⟨rfl, rfl⟩ | ⟨rfl, rfl⟩ | ⟨hencoding, hformat⟩
  · rw [if_neg (by decide), if_pos rfl, debugAssert_of rfl, ok_bind]
    by_cases hsize : size = 1
    · subst hsize
      refine Returns.ok ⟨fun hok ↦ absurd hok.1 ?_, fun hnot ↦ absurd ⟨rfl, rfl⟩ hnot⟩
      rcases signed with _ | _ | _ <;> decide
    · rw [if_neg hsize]
      refine Returns.ok ⟨fun _ hboth ↦ hsize hboth.2, fun _ ↦ ?_⟩
      rcases signed with _ | _ | _ <;> exact ⟨rfl, rfl, rfl⟩
  · rw [if_pos rfl, debugAssert_of rfl, ok_bind]
    refine Returns.ok ⟨fun _ hboth ↦ absurd hboth.1 (by decide), fun _ ↦ ?_⟩
    by_cases hsize : size = 1
    · subst hsize
      rcases signed with _ | _ | _ <;> unfold Ok <;> decide
    · rw [if_neg hsize]
      rcases signed with _ | _ | _ <;> exact ⟨rfl, rfl, rfl⟩
  · have hnot8 : format ≠ FieldFormat.string8 := by
      rcases hformat with rfl | rfl | rfl <;> decide
    have hnotBytes : format ≠ FieldFormat.hexBytes := by
      rcases hformat with rfl | rfl | rfl <;> decide
    have hnumber := IsNumber.applySigned hformat signed
    rw [if_neg hnot8, if_neg hnotBytes]
    refine Returns.mono ?_ fun deduced hok ↦ ⟨fun _ hboth ↦ hnotBytes hboth.1, fun _ ↦ hok⟩
    cases harray : found.array size with
    | none => exact Returns.ok (scalar_ok hnumber)
    | fixed =>
      refine fixed_returns hencoding hnumber fun hzero ↦ ?_
      rw [hzero, Declaration.array, if_pos rfl] at harray
      cases harray
    | _ => exact variableLength_returns hencoding hnumber

end Deduced

namespace PerfFieldFormat

variable {build : Build}

/-- The properties of a field that the declaration and the line give, whatever `long` is. -/
structure SameDeclaration (format format' : PerfFieldFormat) : Prop where
  field_eq : format'.field = format.field
  nameStart_eq : format'.nameStart = format.nameStart
  nameStop_eq : format'.nameStop = format.nameStop
  offset_eq : format'.offset = format.offset
  size_eq : format'.size = format.size
  signed_eq : format'.signed = format.signed
  array_eq : format'.array = format.array

/-- A field keeps the properties that `new` is given. -/
theorem eq_of_new {longIs64Bits : Bool} {field : List UInt8} {offset size : ℕ}
    {signed : Option Bool} {format : PerfFieldFormat}
    (h : new build longIs64Bits field offset size signed = .ok format) :
    format.field = field ∧ format.offset = offset ∧ format.size = size ∧
      format.signed = signed := by
  obtain ⟨found, _, hdeclaration⟩ := bind_eq_ok.mp h
  obtain ⟨baseType, _, hdeclaration⟩ := bind_eq_ok.mp hdeclaration
  obtain ⟨deduced, _, hdeclaration⟩ := bind_eq_ok.mp hdeclaration
  obtain ⟨_, _, hformat⟩ := bind_eq_ok.mp hdeclaration
  cases hformat
  exact ⟨rfl, rfl, rfl, rfl⟩

/-- A field that can be made for one size of `long` can be made for the other. -/
theorem new_of_new {longIs64Bits : Bool} (longIs64Bits' : Bool) {field : List UInt8}
    {offset size : ℕ} {signed : Option Bool} {format : PerfFieldFormat}
    (h : new build longIs64Bits field offset size signed = .ok format) :
    ∃ format', new build longIs64Bits' field offset size signed = .ok format' ∧
      SameDeclaration format format' := by
  obtain ⟨found, hfound, hdeclaration⟩ := bind_eq_ok.mp h
  obtain ⟨baseType, hbaseType, hdeclaration⟩ := bind_eq_ok.mp hdeclaration
  obtain ⟨deduced, hdeduced, hdeclaration⟩ := bind_eq_ok.mp hdeclaration
  obtain ⟨_, hassert, hformat⟩ := bind_eq_ok.mp hdeclaration
  cases hformat
  have hiff := (Deduced.of_returns build size found found.specifiedArrayCount signed
    (specified_kind longIs64Bits found baseType)).of_eq_ok hdeduced
  obtain ⟨deduced', hdeduced', hiff'⟩ := Deduced.of_returns build size found
    found.specifiedArrayCount signed (specified_kind longIs64Bits' found baseType)
  have hassert' : debugAssert build (field ≠ [] ∧ deduced'.encodingOk size ∧ deduced'.flagsOk ∧
      deduced'.formatOk) = .ok () := by
    unfold debugAssert at hassert ⊢
    refine if_neg fun hfail ↦ hfail.2 ?_
    have hok : field ≠ [] ∧ deduced.Ok size := by
      by_contra hnot
      rw [if_pos ⟨hfail.1, hnot⟩] at hassert
      cases hassert
    refine ⟨hok.1, hiff'.mpr fun hboth ↦ hiff.mp hok.2 ⟨?_, hboth.2⟩⟩
    rw [specified_format_eq longIs64Bits longIs64Bits']
    exact hboth.1
  unfold new
  rw [hfound, ok_bind, ofDeclaration, hbaseType, ok_bind]
  dsimp only
  rw [hdeduced', ok_bind, hassert', ok_bind]
  exact ⟨_, rfl, ⟨rfl, rfl, rfl, rfl, rfl, rfl, rfl⟩⟩

/-! ### Parsed fields -/

/-- The properties found in a line without an end of line. -/
structure LineProperties.Ok (properties : LineProperties) : Prop where
  semicolon : ∀ c ∈ properties.field, c ≠ semicolon
  eol : ∀ c ∈ properties.field, isEolChar c = false
  plain : StartsPlain properties.field
  offset_lt : ∀ offset ∈ properties.offset, offset < 2 ^ 16
  size_lt : ∀ size ∈ properties.size, size < 2 ^ 16

theorem startsPlain_dropWhile (text : List UInt8) :
    StartsPlain (text.dropWhile isSpaceOrTab) := by
  intro c hc
  have h := List.head?_dropWhile_not isSpaceOrTab text
  rw [Option.mem_def.mp hc] at h
  simpa using h

theorem StartsPlain.takeWhile {text : List UInt8} (h : StartsPlain text) (p : UInt8 → Bool) :
    StartsPlain (text.takeWhile p) := by
  intro c hc
  cases text with
  | nil => cases hc
  | cons d text =>
    rw [List.takeWhile_cons] at hc
    split_ifs at hc with hd
    · exact h c hc
    · cases hc

theorem LineProperties.Ok.withProperty {properties properties' : LineProperties}
    (h : properties.Ok) {name value : List UInt8} {terminated : Bool}
    (hsemicolon : ∀ c ∈ value, c ≠ Text.semicolon) (heol : ∀ c ∈ value, isEolChar c = false)
    (hplain : StartsPlain value)
    (hwith : properties.withProperty build name value terminated = .ok properties') :
    properties'.Ok := by
  have hlt : ∀ (number : Option ℕ), ∀ result ∈ number.map (· % 2 ^ 16), result < 2 ^ 16 := by
    intro number result hresult
    obtain ⟨value, _, rfl⟩ := Option.mem_map.mp hresult
    exact Nat.mod_lt _ (by decide)
  unfold LineProperties.withProperty at hwith
  split_ifs at hwith
  · cases hwith
    exact ⟨hsemicolon, heol, hplain, h.offset_lt, h.size_lt⟩
  · obtain ⟨number, _, hwith⟩ := bind_eq_ok.mp hwith
    cases hwith
    exact { h with offset_lt := hlt number }
  · obtain ⟨number, _, hwith⟩ := bind_eq_ok.mp hwith
    cases hwith
    exact { h with size_lt := hlt number }
  · obtain ⟨number, _, hwith⟩ := bind_eq_ok.mp hwith
    cases hwith
    exact { h with }
  · cases hwith
    exact h

theorem lineLoop_ok {fuel : ℕ} {line : List UInt8} {properties properties' : LineProperties}
    (h : properties.Ok) (heol : ∀ c ∈ line, isEolChar c = false)
    (hloop : lineLoop build fuel line properties = .ok properties') : properties'.Ok := by
  induction fuel generalizing line properties with
  | zero => cases hloop
  | succ fuel ih =>
    rw [lineLoop] at hloop
    dsimp only at hloop
    split at hloop
    · cases hloop
      exact h
    · next colon behind hline =>
      obtain ⟨next, hwith, hloop⟩ := bind_eq_ok.mp hloop
      have hbehind : ∀ c ∈ behind.dropWhile isSpaceOrTab, isEolChar c = false := by
        intro c hc
        refine heol c ((List.dropWhile_suffix isSpaceOrTabOrSemicolon).subset
          (List.mem_of_mem_drop (i := ((line.dropWhile isSpaceOrTabOrSemicolon).takeWhile
            (· ≠ Text.colon)).length) ?_))
        rw [hline]
        exact List.mem_cons_of_mem _ ((List.dropWhile_suffix isSpaceOrTab).subset hc)
      refine ih (h.withProperty ?_ ?_ ?_ hwith) ?_ hloop
      · intro c hc
        simpa using List.mem_takeWhile_imp hc
      · exact fun c hc ↦ hbehind c ((List.takeWhile_sublist _).subset hc)
      · exact (startsPlain_dropWhile behind).takeWhile _
      · exact fun c hc ↦ hbehind c (List.mem_of_mem_drop hc)

/-- A field that `parse` returns can be printed, and is what `new` makes of its properties. -/
theorem printable_of_parse {longIs64Bits : Bool} {line : List UInt8} {format : PerfFieldFormat}
    (heol : ∀ c ∈ line, isEolChar c = false)
    (hparse : parse build longIs64Bits line = .ok (some format)) :
    format.Printable ∧
      new build longIs64Bits format.field format.offset format.size format.signed =
        .ok format := by
  obtain ⟨properties, hloop, hparse⟩ := bind_eq_ok.mp hparse
  have hstart : LineProperties.Ok ⟨[], none, none, none⟩ :=
    ⟨by simp, by simp, by simp [StartsPlain], by simp, by simp⟩
  have hok := lineLoop_ok hstart heol hloop
  split at hparse
  · next offset size hoffset hsize =>
    split_ifs at hparse with hfield
    · cases hnew : new build longIs64Bits properties.field offset size properties.signed with
      | error fault =>
        rw [hnew] at hparse
        cases hparse
      | ok format' =>
        rw [hnew] at hparse
        cases hparse
        obtain ⟨hfieldEq, hoffsetEq, hsizeEq, hsignedEq⟩ := eq_of_new hnew
        refine ⟨⟨?_, ?_, ?_, ?_, ?_, ?_⟩, ?_⟩
        · rw [hfieldEq]; exact hfield
        · rw [hfieldEq]; exact hok.semicolon
        · rw [hfieldEq]; exact hok.eol
        · rw [hfieldEq]; exact hok.plain
        · rw [hoffsetEq]; exact hok.offset_lt offset hoffset
        · rw [hsizeEq]; exact hok.size_lt size hsize
        · rw [hfieldEq, hoffsetEq, hsizeEq, hsignedEq]; exact hnew
    · cases hparse
  · cases hparse

end PerfFieldFormat

/-! ### Quoted strings in a value -/

/-- Where a scan of a value is: outside quotes, inside, or behind a backslash inside. -/
inductive QuoteState
  | outside
  | inside
  | escaped
  deriving DecidableEq, Repr

namespace QuoteState

/-- The state behind a byte. -/
def next : QuoteState → UInt8 → QuoteState
  | outside, c => if c = quotationMark then inside else outside
  | inside, c => if c = quotationMark then outside else if c = backslash then escaped else inside
  | escaped, _ => inside

/-- The state behind a text. -/
def after (state : QuoteState) (text : List UInt8) : QuoteState := text.foldl next state

/-- No end of line outside quotes. -/
def NoEol : QuoteState → List UInt8 → Prop
  | _, [] => True
  | state, c :: rest => (state = outside → isEolChar c = false) ∧ NoEol (state.next c) rest

end QuoteState

open QuoteState

/-- A value whose quoted strings are all closed. -/
def quotesClosed (value : List UInt8) : Prop := after outside value = outside

instance (value : List UInt8) : Decidable (quotesClosed value) :=
  inferInstanceAs (Decidable (_ = _))

theorem noEol_append {state : QuoteState} {first second : List UInt8} (hfirst : NoEol state first)
    (hsecond : NoEol (after state first) second) : NoEol state (first ++ second) := by
  induction first generalizing state with
  | nil => exact hsecond
  | cons c first ih => exact ⟨hfirst.1, ih hfirst.2 hsecond⟩

theorem consumeString_cons (quote c : UInt8) (rest : List UInt8) :
    consumeString quote (c :: rest) =
      if c = quote then rest
      else if c = backslash then consumeString quote rest.tail
      else consumeString quote rest := by
  cases rest with
  | nil =>
    rw [consumeString]
    split_ifs <;> rfl
  | cons next rest => rw [consumeString]; rfl

/-- `consume_string` consumes a part without an end of line outside quotes, and stops early only
behind the closing quote. -/
theorem consumeString_split (text : List UInt8) :
    ∃ consumed, text = consumed ++ consumeString quotationMark text ∧ NoEol inside consumed ∧
      (consumeString quotationMark text ≠ [] → after inside consumed = outside) := by
  induction hlength : text.length using Nat.strongRecOn generalizing text with
  | ind length ih =>
    cases text with
    | nil => exact ⟨[], rfl, trivial, fun h ↦ absurd rfl h⟩
    | cons c rest =>
      rw [consumeString_cons]
      rw [List.length_cons] at hlength
      by_cases hquote : c = quotationMark
      · rw [if_pos hquote]
        refine ⟨[c], rfl, ⟨(fun h ↦ by cases h), trivial⟩, fun _ ↦ ?_⟩
        rw [hquote]
        rfl
      rw [if_neg hquote]
      by_cases hbackslash : c = backslash
      · rw [if_pos hbackslash]
        have hnext : next inside c = escaped := by
          rw [hbackslash]
          rfl
        cases rest with
        | nil => exact ⟨[c], rfl, ⟨(fun h ↦ by cases h), trivial⟩, fun h ↦ absurd rfl h⟩
        | cons d rest =>
          rw [List.length_cons] at hlength
          obtain ⟨consumed, hsplit, hnoEol, hclosed⟩ := ih rest.length (by omega) rest rfl
          refine ⟨c :: d :: consumed, ?_, ⟨(fun h ↦ by cases h), ?_⟩, fun h ↦ ?_⟩
          · rw [List.tail_cons, List.cons_append, List.cons_append, ← hsplit]
          · rw [hnext]
            exact ⟨(fun h ↦ by cases h), hnoEol⟩
          · rw [after, List.foldl_cons, hnext]
            exact hclosed h
      · rw [if_neg hbackslash]
        have hnext : next inside c = inside := by
          rw [next, if_neg hquote, if_neg hbackslash]
        obtain ⟨consumed, hsplit, hnoEol, hclosed⟩ := ih rest.length (by omega) rest rfl
        refine ⟨c :: consumed, ?_, ⟨(fun h ↦ by cases h), ?_⟩, fun h ↦ ?_⟩
        · rw [List.cons_append, ← hsplit]
        · rw [hnext]
          exact hnoEol
        · rw [after, List.foldl_cons, hnext]
          exact hclosed h

/-- A text that starts inside a string and ends outside closes the string. -/
theorem consumeString_closes (value : List UInt8) (hclosed : after inside value = outside)
    (hnoEol : NoEol inside value) :
    ∃ behind, behind.length < value.length ∧ after outside behind = outside ∧
      NoEol outside behind ∧
      ∀ rest, consumeString quotationMark (value ++ rest) = behind ++ rest := by
  induction hlength : value.length using Nat.strongRecOn generalizing value with
  | ind length ih =>
    cases value with
    | nil => cases hclosed
    | cons c value =>
      rw [after, List.foldl_cons] at hclosed
      rw [List.length_cons] at hlength
      by_cases hquote : c = quotationMark
      · have hnext : next inside c = outside := by rw [next, if_pos hquote]
        rw [hnext] at hclosed
        refine ⟨value, by omega, hclosed, hnext ▸ hnoEol.2, fun rest ↦ ?_⟩
        rw [List.cons_append, consumeString_cons, if_pos hquote]
      by_cases hbackslash : c = backslash
      · have hnext : next inside c = escaped := by rw [next, if_neg hquote, if_pos hbackslash]
        rw [hnext] at hclosed
        cases value with
        | nil => cases hclosed
        | cons d value =>
          rw [List.length_cons] at hlength
          obtain ⟨behind, hlt, hafter, hbehind, hconsume⟩ := ih value.length (by omega) value
            hclosed (hnext ▸ hnoEol.2).2 rfl
          refine ⟨behind, by omega, hafter, hbehind, fun rest ↦ ?_⟩
          rw [List.cons_append, consumeString_cons, if_neg hquote, if_pos hbackslash,
            List.cons_append, List.tail_cons, hconsume]
      · have hnext : next inside c = inside := by
          rw [next, if_neg hquote, if_neg hbackslash]
        rw [hnext] at hclosed
        obtain ⟨behind, hlt, hafter, hbehind, hconsume⟩ := ih value.length (by omega) value
          hclosed (hnext ▸ hnoEol.2) rfl
        refine ⟨behind, by omega, hafter, hbehind, fun rest ↦ ?_⟩
        rw [List.cons_append, consumeString_cons, if_neg hquote, if_neg hbackslash, hconsume]

namespace PerfEventFormat

/-- A value ends at an end of line or with the text; it has no end of line outside quotes. -/
theorem behindValue_split {fuel : ℕ} (text : List UInt8) (hfuel : text.length < fuel) :
    ∃ value, text = value ++ behindValue fuel text ∧ NoEol outside value ∧
      ∀ c ∈ (behindValue fuel text).head?, isEolChar c = true := by
  induction fuel generalizing text with
  | zero => omega
  | succ fuel ih =>
    cases text with
    | nil => exact ⟨[], rfl, trivial, by simp [behindValue]⟩
    | cons c rest =>
      rw [List.length_cons] at hfuel
      rw [behindValue]
      by_cases heol : isEolChar c = true
      · rw [if_pos heol]
        exact ⟨[], rfl, trivial, by simpa using heol⟩
      rw [if_neg heol]
      have heol' : isEolChar c = false := by simpa using heol
      by_cases hquote : c = quotationMark
      · rw [if_pos hquote]
        obtain ⟨consumed, hsplit, hnoEol, hclosed⟩ := consumeString_split rest
        have hle : (consumeString quotationMark rest).length ≤ rest.length := by
          have h := congrArg List.length hsplit
          rw [List.length_append] at h
          omega
        obtain ⟨value, hvalue, hvalueEol, hhead⟩ :=
          ih (consumeString quotationMark rest) (by omega)
        refine ⟨c :: (consumed ++ value), ?_, ⟨fun _ ↦ heol', ?_⟩, hhead⟩
        · rw [List.cons_append, List.append_assoc, ← hvalue, ← hsplit]
        · have hnext : next outside c = inside := by rw [next, if_pos hquote]
          rw [hnext]
          by_cases hbehind : consumeString quotationMark rest = []
          · rw [hbehind] at hvalue
            obtain ⟨rfl, _⟩ := List.append_eq_nil_iff.mp hvalue.symm
            rw [List.append_nil]
            exact hnoEol
          · exact noEol_append hnoEol (hclosed hbehind ▸ hvalueEol)
      · rw [if_neg hquote]
        obtain ⟨value, hvalue, hvalueEol, hhead⟩ := ih rest (by omega)
        refine ⟨c :: value, ?_, ⟨fun _ ↦ heol', ?_⟩, hhead⟩
        · rw [List.cons_append, ← hvalue]
        · rw [next, if_neg hquote]
          exact hvalueEol

/-- A value whose strings are closed ends at the first end of line behind it. -/
theorem behindValue_closed {fuel : ℕ} {value rest : List UInt8} {c : UInt8}
    (hfuel : (value ++ c :: rest).length < fuel) (hnoEol : NoEol outside value)
    (hclosed : quotesClosed value) (hc : isEolChar c = true) :
    behindValue fuel (value ++ c :: rest) = c :: rest := by
  induction fuel generalizing value with
  | zero => omega
  | succ fuel ih =>
    cases value with
    | nil => rw [List.nil_append, behindValue, if_pos hc]
    | cons d value =>
      rw [List.cons_append, List.length_cons] at hfuel
      have heol : ¬isEolChar d = true := by rw [hnoEol.1 rfl]; decide
      rw [List.cons_append, behindValue, if_neg heol]
      rw [quotesClosed, after, List.foldl_cons] at hclosed
      by_cases hquote : d = quotationMark
      · have hnext : next outside d = inside := by rw [next, if_pos hquote]
        rw [hnext] at hclosed
        obtain ⟨behind, hlt, hafter, hbehind, hconsume⟩ :=
          consumeString_closes value hclosed (hnext ▸ hnoEol.2)
        rw [if_pos hquote, hconsume]
        refine ih ?_ hbehind hafter
        rw [List.length_append] at hfuel ⊢
        omega
      · have hnext : next outside d = outside := by rw [next, if_neg hquote]
        rw [hnext] at hclosed
        rw [if_neg hquote]
        exact ih (by omega) (hnext ▸ hnoEol.2) hclosed

/-! ### Parsed formats -/

open PerfFieldFormat

variable {build : Build}

theorem digitsLoop_lt {radix value : ℕ} {anyDigits : Bool} {text : List UInt8} {result : ℕ}
    (hvalue : value < 2 ^ 32)
    (h : digitsLoop build radix value anyDigits text = .ok (some result)) : result < 2 ^ 32 := by
  have hdone : ∀ {value : ℕ}, value < 2 ^ 32 →
      (.ok (if anyDigits then some value else none) : Exec (Option ℕ)) = .ok (some result) →
        result < 2 ^ 32 := by
    intro value hvalue h
    split_ifs at h with hany
    · cases h
      exact hvalue
    · cases h
  induction text generalizing value anyDigits with
  | nil => exact hdone hvalue h
  | cons c text ih =>
    rw [digitsLoop] at h
    split at h
    · next digit hdigit =>
      obtain ⟨value', happend, h⟩ := bind_eq_ok.mp h
      have hvalue' : value' < 2 ^ 32 := by
        unfold appendDigit at happend
        split_ifs at happend with hlt
        · cases happend
          exact hlt
        · cases happend
          exact Nat.mod_lt _ (by decide)
      refine ih hvalue' h fun {value} hvalue h ↦ ?_
      cases h
      exact hvalue
    · exact hdone hvalue h

theorem asciiToU32_lt {text : List UInt8} {result : ℕ}
    (h : asciiToU32 build text = .ok (some result)) : result < 2 ^ 32 := by
  unfold asciiToU32 at h
  split at h
  · split_ifs at h
    · exact digitsLoop_lt (by decide) h
    · exact digitsLoop_lt (by decide) h
  · exact digitsLoop_lt (by decide) h

theorem addU16_lt {left right result : ℕ} (h : addU16 build left right = .ok result) :
    result < 2 ^ 16 := by
  unfold addU16 at h
  split_ifs at h with hlt
  · cases h
    exact hlt
  · cases h
    exact Nat.mod_lt _ (by decide)

/-- A property value: it does not start with a space, and has no end of line outside quotes. -/
structure ValueOk (value : List UInt8) : Prop where
  plain : StartsPlain value
  noEol : NoEol outside value

/-- A field that can be printed, made by `new`. -/
structure FieldOk (build : Build) (field : PerfFieldFormat) : Prop where
  printable : field.Printable
  made : ∃ longIs64Bits,
    new build longIs64Bits field.field field.offset field.size field.signed = .ok field

/-- What the properties of a format file satisfy while it is parsed. -/
structure FileProperties.Ok (build : Build) (properties : FileProperties) : Prop where
  name : ValueOk properties.name
  printFmt : ValueOk properties.printFmt
  fields : ∀ field ∈ properties.fields, FieldOk build field
  id_lt : ∀ id ∈ properties.id, id < 2 ^ 32
  count_lt : properties.commonFieldCount < 2 ^ 16

theorem fieldLines_ok {longIs64Bits common : Bool} {fuel : ℕ} {text rest : List UInt8}
    {properties properties' : FileProperties} (h : properties.Ok build)
    (hlines : fieldLines build longIs64Bits fuel common text properties =
      .ok (properties', rest)) : properties'.Ok build := by
  induction fuel generalizing common text properties with
  | zero => cases hlines
  | succ fuel ih =>
    cases text with
    | nil =>
      cases hlines
      exact h
    | cons c text =>
      rw [fieldLines] at hlines
      obtain ⟨_, _, hlines⟩ := bind_eq_ok.mp hlines
      dsimp only at hlines
      split_ifs at hlines with hline hcommon
      · exact ih h hlines
      · cases hlines
        exact h
      · obtain ⟨parsed, hparsed, hlines⟩ := bind_eq_ok.mp hlines
        cases parsed with
        | none => exact ih h hlines
        | some field =>
          dsimp only at hlines
          have hnoEol : ∀ c' ∈ (skipEol (c :: text)).takeWhile fun c ↦ !isEolChar c,
              isEolChar c' = false := by
            intro c' hc'
            simpa using List.mem_takeWhile_imp hc'
          obtain ⟨hprintable, hmade⟩ := printable_of_parse hnoEol hparsed
          have hfields : ∀ field' ∈ properties.fields ++ [field], FieldOk build field' := by
            intro field' hfield'
            rcases List.mem_append.mp hfield' with hold | hnew
            · exact h.fields field' hold
            · obtain rfl := List.mem_singleton.mp hnew
              exact ⟨hprintable, longIs64Bits, hmade⟩
          obtain ⟨next, hpush, hlines⟩ := bind_eq_ok.mp hlines
          refine ih ?_ hlines
          unfold pushField at hpush
          split_ifs at hpush
          · obtain ⟨count, hcount, hpush⟩ := bind_eq_ok.mp hpush
            cases hpush
            exact { h with fields := hfields, count_lt := addU16_lt hcount }
          · cases hpush
            exact { h with fields := hfields }

theorem withProperty_ok {longIs64Bits : Bool} {properties properties' : FileProperties}
    {propName value rest rest' : List UInt8} (h : properties.Ok build) (hvalue : ValueOk value)
    (hwith : withProperty build longIs64Bits properties propName value rest =
      .ok (properties', rest')) : properties'.Ok build := by
  unfold withProperty at hwith
  split_ifs at hwith
  · cases hwith
    exact { h with name := hvalue }
  · obtain ⟨id, hid, hwith⟩ := bind_eq_ok.mp hwith
    cases hwith
    refine { h with id_lt := fun result hresult ↦ ?_ }
    have hresult' : id = some result := hresult
    rw [hresult'] at hid
    exact asciiToU32_lt hid
  · cases hwith
    exact { h with printFmt := hvalue }
  · have hempty : FileProperties.Ok build { properties with fields := [] } :=
      { h with fields := fun _ hfield ↦ absurd hfield List.not_mem_nil }
    exact fieldLines_ok hempty hwith
  · cases hwith
    exact h

theorem propertyLines_ok {longIs64Bits : Bool} {fuel : ℕ} {text : List UInt8}
    {properties properties' : FileProperties} (h : properties.Ok build)
    (hlines : propertyLines build longIs64Bits fuel text properties = .ok properties') :
    properties'.Ok build := by
  induction fuel generalizing text properties with
  | zero => cases hlines
  | succ fuel ih =>
    rw [propertyLines] at hlines
    dsimp only at hlines
    split at hlines
    · cases hlines
      exact h
    · next c behind htext =>
      split_ifs at hlines
      · exact ih h hlines
      · obtain ⟨⟨next, rest⟩, hwith, hlines⟩ := bind_eq_ok.mp hlines
        refine ih (withProperty_ok h ?_ hwith) hlines
        obtain ⟨value, hsplit, hnoEol, _⟩ := behindValue_split
          (behind.dropWhile isSpaceOrTab) (Nat.lt_succ_self _)
        have hvalue : (behind.dropWhile isSpaceOrTab).take
            ((behind.dropWhile isSpaceOrTab).length - (behindValue
              ((behind.dropWhile isSpaceOrTab).length + 1)
              (behind.dropWhile isSpaceOrTab)).length) = value := by
          generalize behindValue ((behind.dropWhile isSpaceOrTab).length + 1)
            (behind.dropWhile isSpaceOrTab) = rest at hsplit ⊢
          rw [hsplit, List.length_append, Nat.add_sub_cancel, List.take_left]
        rw [hvalue]
        refine ⟨?_, hnoEol⟩
        have hplain := startsPlain_dropWhile behind
        rw [hsplit] at hplain
        intro c hc
        refine hplain c ?_
        cases value with
        | nil => cases hc
        | cons d value => exact hc

/-! ### Reading a printed format -/

/-- One property line of a format file, whose value ends at an end of line. -/
theorem propertyLines_property {longIs64Bits : Bool} {fuel : ℕ} {properties : FileProperties}
    {lead propName spaces value rest : List UInt8} {c : UInt8}
    (hlead : ∀ c ∈ lead, isEolChar c = true)
    (hname : ∀ c ∈ propName, (c ≠ colon && !isEolChar c) = true)
    (hstart : ∀ c ∈ (propName ++ [colon]).head?, isEolChar c = false ∧ isSpaceOrTab c = false)
    (hspaces : ∀ c ∈ spaces, isSpaceOrTab c = true) (hvalue : ValueOk value)
    (hclosed : quotesClosed value) (hc : isEolChar c = true) :
    propertyLines build longIs64Bits (fuel + 1)
        (lead ++ propName ++ colon :: (spaces ++ value ++ c :: rest)) properties =
      (withProperty build longIs64Bits properties propName value (c :: rest) >>= fun result ↦
        propertyLines build longIs64Bits fuel result.2 result.1) := by
  have hdropEol : (lead ++ propName ++ colon :: (spaces ++ value ++ c :: rest)).dropWhile
      isEolChar = propName ++ colon :: (spaces ++ value ++ c :: rest) := by
    rw [List.append_assoc, List.dropWhile_append_of_pos hlead]
    cases propName with
    | nil => rfl
    | cons d propName => exact List.dropWhile_cons_of_neg (by simp [(hstart d rfl).1])
  have hdropSpace : (propName ++ colon :: (spaces ++ value ++ c :: rest)).dropWhile
      isSpaceOrTab = propName ++ colon :: (spaces ++ value ++ c :: rest) := by
    cases propName with
    | nil => rfl
    | cons d propName => exact List.dropWhile_cons_of_neg (by simp [(hstart d rfl).2])
  have htake : (propName ++ colon :: (spaces ++ value ++ c :: rest)).takeWhile
      (fun c ↦ c ≠ colon && !isEolChar c) = propName := by
    rw [List.takeWhile_append_of_pos hname, List.takeWhile_cons_of_neg (by simp), List.append_nil]
  have hdropValue : (spaces ++ value ++ c :: rest).dropWhile isSpaceOrTab = value ++ c :: rest := by
    rw [List.append_assoc, List.dropWhile_append_of_pos hspaces]
    cases value with
    | nil =>
      refine List.dropWhile_cons_of_neg ?_
      clear * - hc
      cases c with | ofBitVec bits => revert bits; decide
    | cons d value => exact List.dropWhile_cons_of_neg (by simp [hvalue.plain d rfl])
  rw [propertyLines]
  dsimp only
  rw [hdropEol, hdropSpace, htake, List.drop_left]
  dsimp only
  rw [if_neg (by simp), hdropValue, behindValue_closed (Nat.lt_succ_self _) hvalue.noEol hclosed hc,
    List.length_append, Nat.add_sub_cancel, List.take_left]

/-- The text of a field has no end of line. -/
theorem fieldText_noEol {field : PerfFieldFormat} (h : field.Printable) :
    ∀ c ∈ fieldText field, isEolChar c = false := by
  have hdecimal : ∀ (value : ℕ), ∀ c ∈ decimal value, isEolChar c = false := by
    intro value c hc
    have hdigit := isAsciiDigit_of_mem_decimal hc
    clear * - hdigit
    cases c with | ofBitVec bits => revert bits; decide
  have hfield : ∀ c ∈ ascii "\tfield:", isEolChar c = false := by decide
  have hoffset : ∀ c ∈ ascii ";\toffset:", isEolChar c = false := by decide
  have hsize : ∀ c ∈ ascii ";\tsize:", isEolChar c = false := by decide
  have hsigned : ∀ c ∈ ascii "\tsigned:", isEolChar c = false := by decide
  have hsemicolon : ∀ c ∈ ascii ";", isEolChar c = false := by decide
  intro c hc
  unfold fieldText at hc
  simp only [List.mem_append] at hc
  rcases hc with ((((((hc | hc) | hc) | hc) | hc) | hc) | hc) | hc
  · exact hfield c hc
  · exact h.eol c hc
  · exact hoffset c hc
  · exact hdecimal _ c hc
  · exact hsize c hc
  · exact hdecimal _ c hc
  · exact hsemicolon c hc
  · cases hcase : field.signed with
    | none =>
      rw [hcase] at hc
      cases hc
    | some signed =>
      rw [hcase] at hc
      simp only [List.mem_append] at hc
      rcases hc with (hc | hc) | hc
      · exact hsigned c hc
      · exact hdecimal _ c hc
      · exact hsemicolon c hc

/-- One field line of a format file. -/
theorem fieldLines_field {longIs64Bits common : Bool} {fuel : ℕ} {properties : FileProperties}
    {field field' : PerfFieldFormat} {rest : List UInt8} (hfield : field.Printable)
    (hnew : new build longIs64Bits field.field field.offset field.size field.signed =
      .ok field') :
    fieldLines build longIs64Bits (fuel + 1) common
        (lineFeed :: (fieldText field ++ lineFeed :: rest)) properties =
      (pushField build common properties field' >>=
        fieldLines build longIs64Bits fuel common (lineFeed :: rest)) := by
  have htab : fieldText field = tab :: (fieldText field).tail := rfl
  have hskip : skipEol (lineFeed :: (fieldText field ++ lineFeed :: rest)) =
      fieldText field ++ lineFeed :: rest := by
    rw [htab, List.cons_append, skipEol, if_neg (by decide)]
  have htake : (fieldText field ++ lineFeed :: rest).takeWhile (fun c ↦ !isEolChar c) =
      fieldText field := by
    rw [List.takeWhile_append_of_pos (by simpa using fieldText_noEol hfield),
      List.takeWhile_cons_of_neg (by decide), List.append_nil]
  rw [fieldLines, debugAssert_of (by decide), ok_bind]
  dsimp only
  rw [hskip, htake, List.drop_left, if_neg (by rw [htab]; exact List.cons_ne_nil _ _),
    parse_fieldText hfield, hnew]
  rfl

/-- A blank line ends the common fields. -/
theorem fieldLines_blank {longIs64Bits : Bool} {fuel : ℕ} {properties : FileProperties}
    {rest : List UInt8} :
    fieldLines build longIs64Bits (fuel + 1) true (lineFeed :: lineFeed :: rest) properties =
      fieldLines build longIs64Bits fuel false (lineFeed :: rest) properties := by
  rw [fieldLines, debugAssert_of (by decide), ok_bind]
  rfl

/-- A second blank line ends the fields. -/
theorem fieldLines_end {longIs64Bits : Bool} {fuel : ℕ} {properties : FileProperties}
    {rest : List UInt8} :
    fieldLines build longIs64Bits (fuel + 1) false (lineFeed :: lineFeed :: rest) properties =
      .ok (properties, lineFeed :: rest) := by
  rw [fieldLines, debugAssert_of (by decide), ok_bind]
  rfl

/-- The loop over the printed fields from an index on. -/
theorem fieldLines_printed {build : Build} {longIs64Bits : Bool} {count : ℕ}
    (hcount : count < 2 ^ 16) (rest : List UInt8) (fields fields' : List PerfFieldFormat) (index fuel : ℕ)
    (properties : FileProperties)
    (hfields : ∀ field ∈ fields, field.Printable)
    (hnew : List.Forall₂ (fun field field' ↦
      new build longIs64Bits field.field field.offset field.size field.signed = .ok field')
        fields fields')
    (hindex : properties.commonFieldCount = min index count)
    (hle : count ≤ index + fields.length)
    (hfuel : (fieldLinesFrom count index fields).length + 1 < fuel) :
    fieldLines build longIs64Bits fuel (index < count)
        (lineFeed :: (fieldLinesFrom count index fields ++ lineFeed :: rest)) properties =
      .ok ({ properties with
        fields := properties.fields ++ fields', commonFieldCount := count }, lineFeed :: rest) := by
  induction hnew generalizing index fuel properties with
  | nil =>
    obtain ⟨fuel, rfl⟩ := Nat.exists_eq_succ_of_ne_zero (by omega : fuel ≠ 0)
    rw [List.length_nil] at hle
    rw [decide_eq_false (by omega), fieldLinesFrom, List.nil_append, fieldLines_end,
      List.append_nil]
    rw [min_eq_right (by omega)] at hindex
    rw [← hindex]
  | @cons field field' fields fields' hnew _ ih =>
    rw [fieldLinesFrom] at hfuel ⊢
    have hline : ascii "\n" = [lineFeed] := by decide
    rw [hline] at hfuel ⊢
    simp only [List.length_append, List.length_cons, List.length_nil] at hfuel
    rw [List.length_cons] at hle
    obtain ⟨fuel, rfl⟩ := Nat.exists_eq_succ_of_ne_zero (by omega : fuel ≠ 0)
    have hrest : (fieldText field ++ [lineFeed] ++
          (if index + 1 = count then [lineFeed] else []) ++
          fieldLinesFrom count (index + 1) fields ++ lineFeed :: rest) =
        fieldText field ++ lineFeed :: ((if index + 1 = count then [lineFeed] else []) ++
          (fieldLinesFrom count (index + 1) fields ++ lineFeed :: rest)) := by
      simp only [List.append_assoc, List.cons_append, List.nil_append]
    rw [hrest, fieldLines_field (hfields field List.mem_cons_self) hnew]
    have hfields' : ∀ field ∈ fields, field.Printable :=
      fun field hfield ↦ hfields field (List.mem_cons_of_mem _ hfield)
    by_cases hcommon : index < count
    · have hpush : pushField build (index < count) properties field' =
          .ok { properties with
            fields := properties.fields ++ [field'], commonFieldCount := index + 1 } := by
        rw [decide_eq_true hcommon, pushField, if_pos rfl, addU16, hindex,
          min_eq_left (by omega), if_pos (by omega), ok_bind]
      rw [hpush, ok_bind]
      by_cases hlast : index + 1 = count
      · rw [if_pos hlast] at hfuel ⊢
        rw [List.length_singleton] at hfuel
        obtain ⟨fuel, rfl⟩ := Nat.exists_eq_succ_of_ne_zero (by omega : fuel ≠ 0)
        rw [decide_eq_true hcommon, List.cons_append, List.nil_append, fieldLines_blank]
        have h := ih (index + 1) fuel { properties with
          fields := properties.fields ++ [field'], commonFieldCount := index + 1 } hfields'
          (by dsimp only; omega) (by omega) (by omega)
        rw [decide_eq_false (by omega)] at h
        rw [h, List.append_assoc]
        rfl
      · rw [if_neg hlast] at hfuel ⊢
        rw [List.nil_append]
        have h := ih (index + 1) fuel { properties with
          fields := properties.fields ++ [field'], commonFieldCount := index + 1 } hfields'
          (by dsimp only; omega) (by omega) (by omega)
        rw [decide_eq_true (by omega)] at h
        rw [decide_eq_true hcommon, h, List.append_assoc]
        rfl
    · have hpush : pushField build (index < count) properties field' =
          .ok { properties with fields := properties.fields ++ [field'] } := by
        rw [decide_eq_false hcommon, pushField, if_neg (by decide)]
      rw [hpush, ok_bind, if_neg (by omega), List.nil_append]
      rw [if_neg (by omega)] at hfuel
      have h := ih (index + 1) fuel { properties with
        fields := properties.fields ++ [field'] } hfields' (by dsimp only; omega) (by omega)
        (by omega)
      rw [decide_eq_false (by omega)] at h
      rw [decide_eq_false hcommon, h, List.append_assoc]
      rfl

/-- The values of a decimal number. -/
theorem valueOk_decimal (value : ℕ) : ValueOk (decimal value) ∧ quotesClosed (decimal value) := by
  have hdigit : ∀ c ∈ decimal value, isEolChar c = false ∧ c ≠ quotationMark := by
    intro c hc
    have hdigit := isAsciiDigit_of_mem_decimal hc
    clear * - hdigit
    cases c with | ofBitVec bits => revert bits; decide
  suffices h : ∀ text : List UInt8, (∀ c ∈ text, isEolChar c = false ∧ c ≠ quotationMark) →
      NoEol outside text ∧ after outside text = outside from
    ⟨⟨startsPlain_decimal value, (h _ hdigit).1⟩, (h _ hdigit).2⟩
  intro text htext
  induction text with
  | nil => exact ⟨trivial, rfl⟩
  | cons c text ih =>
    obtain ⟨heol, hquote⟩ := htext c List.mem_cons_self
    obtain ⟨hnoEol, hafter⟩ := ih fun d hd ↦ htext d (List.mem_cons_of_mem _ hd)
    have hnext : next outside c = outside := by rw [next, if_neg hquote]
    refine ⟨⟨fun _ ↦ heol, ?_⟩, ?_⟩
    · rw [hnext]
      exact hnoEol
    · rw [after, List.foldl_cons, hnext]
      exact hafter

/-- What is known of a format that `parse` returned. -/
structure Parsed (build : Build) (format : PerfEventFormat) : Prop where
  name_ne : format.name ≠ []
  name : ValueOk format.name
  printFmt : ValueOk format.printFmt
  fields : ∀ field ∈ format.fields, FieldOk build field
  id_lt : format.id < 2 ^ 32
  count_lt : format.commonFieldCount < 2 ^ 16
  size_eq : commonSize build ⟨format.name, format.printFmt, format.fields, some format.id,
    format.commonFieldCount⟩ = .ok format.commonFieldsSize
  style_eq : styleOf ⟨format.name, format.printFmt, format.fields, some format.id,
    format.commonFieldCount⟩ = .ok format.decodingStyle

theorem parsed_of_parse {longIs64Bits : Bool} {systemName text : List UInt8}
    {format : PerfEventFormat}
    (hparse : parse build longIs64Bits systemName text = .ok (some format)) :
    Parsed build format ∧ format.systemName = systemName := by
  obtain ⟨properties, hlines, hparse⟩ := bind_eq_ok.mp hparse
  have hstart : FileProperties.Ok build ⟨[], [], [], none, 0⟩ :=
    ⟨⟨by simp [StartsPlain], trivial⟩, ⟨by simp [StartsPlain], trivial⟩, by simp, by simp,
      by simp⟩
  have hok := propertyLines_ok hstart hlines
  obtain ⟨name, printFmt, fields, id, count⟩ := properties
  cases id with
  | none => cases hparse
  | some id =>
    dsimp only at hparse
    split_ifs at hparse with hname
    · obtain ⟨size, hsize, hparse⟩ := bind_eq_ok.mp hparse
      obtain ⟨style, hstyle, hparse⟩ := bind_eq_ok.mp hparse
      cases hparse
      exact ⟨⟨hname, hok.name, hok.printFmt, hok.fields, hok.id_lt id rfl, hok.count_lt, hsize,
        hstyle⟩, rfl⟩
    · cases hparse

/-- The fields made anew for a size of `long`. -/
def Renewed (build : Build) (longIs64Bits : Bool) (fields fields' : List PerfFieldFormat) : Prop :=
  List.Forall₂ (fun field field' ↦
    new build longIs64Bits field.field field.offset field.size field.signed = .ok field' ∧
      SameDeclaration field field') fields fields'

theorem exists_renewed (longIs64Bits : Bool) {fields : List PerfFieldFormat}
    (hfields : ∀ field ∈ fields, FieldOk build field) :
    ∃ fields', Renewed build longIs64Bits fields fields' := by
  induction fields with
  | nil => exact ⟨[], .nil⟩
  | cons field fields ih =>
    obtain ⟨fields', hfields'⟩ := ih fun f hf ↦ hfields f (List.mem_cons_of_mem _ hf)
    obtain ⟨_, hmade⟩ := (hfields field List.mem_cons_self).made
    obtain ⟨field', hnew, hsame⟩ := new_of_new longIs64Bits hmade
    exact ⟨field' :: fields', .cons ⟨hnew, hsame⟩ hfields'⟩

theorem Renewed.getElem? {longIs64Bits : Bool} {fields fields' : List PerfFieldFormat}
    (h : Renewed build longIs64Bits fields fields') (index : ℕ) :
    (fields[index]? = none ∧ fields'[index]? = none) ∨
      ∃ field field', fields[index]? = some field ∧ fields'[index]? = some field' ∧
        SameDeclaration field field' := by
  induction h generalizing index with
  | nil => exact Or.inl ⟨rfl, rfl⟩
  | @cons field field' _ _ hfield _ ih =>
    cases index with
    | zero => exact Or.inr ⟨field, field', rfl, rfl, hfield.2⟩
    | succ index => exact ih index

theorem commonSize_renewed {longIs64Bits : Bool} {fields fields' : List PerfFieldFormat}
    (h : Renewed build longIs64Bits fields fields') (name printFmt : List UInt8) (id : Option ℕ)
    (count : ℕ) :
    commonSize build ⟨name, printFmt, fields', id, count⟩ =
      commonSize build ⟨name, printFmt, fields, id, count⟩ := by
  unfold commonSize
  dsimp only
  rcases h.getElem? (count - 1) with ⟨hnone, hnone'⟩ | ⟨field, field', hsome, hsome', hsame⟩
  · rw [hnone, hnone']
  · rw [hsome, hsome']
    dsimp only
    rw [hsame.offset_eq, hsame.size_eq]

theorem styleOf_renewed {longIs64Bits : Bool} {fields fields' : List PerfFieldFormat}
    (h : Renewed build longIs64Bits fields fields') (name printFmt : List UInt8) (id : Option ℕ)
    (count : ℕ) :
    styleOf ⟨name, printFmt, fields', id, count⟩ = styleOf ⟨name, printFmt, fields, id, count⟩ := by
  unfold styleOf
  dsimp only
  rcases h.getElem? count with ⟨hnone, hnone'⟩ | ⟨field, field', hsome, hsome', hsame⟩
  · rw [hnone, hnone']
  · rw [hsome, hsome']
    dsimp only
    unfold PerfFieldFormat.name
    rw [hsame.nameStart_eq, hsame.nameStop_eq, hsame.field_eq]

/-- The common fields are among the fields. -/
theorem Parsed.count_le {format : PerfEventFormat} (h : Parsed build format) :
    format.commonFieldCount ≤ format.fields.length := by
  have hsize := h.size_eq
  unfold commonSize at hsize
  dsimp only at hsize
  split_ifs at hsize with hzero
  · omega
  · split at hsize
    · next field hfield =>
      have hlt := (List.getElem?_eq_some_iff.mp hfield).1
      omega
    · cases hsize

theorem propertyLines_writeTo {longIs64Bits : Bool} {format : PerfEventFormat}
    (h : Parsed build format) (hcommon : 1 ≤ format.commonFieldCount)
    (hname : quotesClosed format.name) (hprintFmt : quotesClosed format.printFmt)
    {fields' : List PerfFieldFormat}
    (hfields : Renewed build longIs64Bits format.fields fields') (fuel : ℕ) :
    propertyLines build longIs64Bits (fuel + 5) (writeTo format) ⟨[], [], [], none, 0⟩ =
      .ok ⟨format.name, format.printFmt, fields', some format.id, format.commonFieldCount⟩ := by
  have htext : writeTo format =
      [] ++ ascii "name" ++ colon :: ([space] ++ format.name ++ lineFeed ::
        (ascii "ID" ++ colon :: ([space] ++ decimal format.id ++ lineFeed ::
          (ascii "format" ++ colon :: ([] ++ [] ++ lineFeed ::
            (fieldLinesFrom format.commonFieldCount 0 format.fields ++ lineFeed ::
              (ascii "print fmt" ++ colon :: ([space] ++ format.printFmt ++ [lineFeed])))))))) := by
    have hnameText : ascii "name: " = ascii "name" ++ [colon, space] := by decide
    have hidText : ascii "ID: " = ascii "ID" ++ [colon, space] := by decide
    have hformatText : ascii "format:\n" = ascii "format" ++ [colon, lineFeed] := by decide
    have hprintText : ascii "\nprint fmt: " = lineFeed :: (ascii "print fmt" ++ [colon, space]) := by
      decide
    have hline : ascii "\n" = [lineFeed] := by decide
    unfold writeTo
    rw [hnameText, hidText, hformatText, hprintText, hline]
    simp only [List.append_assoc, List.cons_append, List.nil_append]
  have hrename : List.Forall₂ (fun field field' ↦
      new build longIs64Bits field.field field.offset field.size field.signed = .ok field')
        format.fields fields' := hfields.imp fun _ _ hfield ↦ hfield.1
  have hempty : ValueOk [] := ⟨by simp [StartsPlain], trivial⟩
  rw [htext, propertyLines_property (by decide) (by decide) (by decide) (by decide) h.name hname
    (by decide), withProperty, if_pos rfl, ok_bind]
  dsimp only
  rw [← List.cons_append, ← List.singleton_append, propertyLines_property (by decide) (by decide)
    (by decide) (by decide) (valueOk_decimal _).1 (valueOk_decimal _).2 (by decide), withProperty,
    if_neg (by decide), if_pos (by simp), asciiToU32_decimal build h.id_lt, ok_bind, ok_bind]
  dsimp only
  rw [← List.cons_append, ← List.singleton_append (l := ascii "format"),
    propertyLines_property (by decide) (by decide) (by decide) (by decide) hempty rfl (by decide),
    withProperty, if_neg (by decide), if_neg fun hid ↦ absurd hid.1 (by decide),
    if_neg (by decide), if_pos rfl]
  have hlines := @fieldLines_printed build longIs64Bits _ h.count_lt
    (ascii "print fmt" ++ colon :: ([space] ++ format.printFmt ++ [lineFeed])) format.fields
    fields' 0 ((lineFeed :: (fieldLinesFrom format.commonFieldCount 0 format.fields ++ lineFeed ::
      (ascii "print fmt" ++ colon :: ([space] ++ format.printFmt ++ [lineFeed])))).length + 1)
    ⟨format.name, [], [], some format.id, 0⟩ (fun field hfield ↦ (h.fields field hfield).printable)
    hrename (by simp) (by have hle := h.count_le; omega) (by
      simp only [List.length_cons, List.length_append]; omega)
  rw [decide_eq_true (by omega : 0 < format.commonFieldCount)] at hlines
  rw [hlines, ok_bind]
  dsimp only
  rw [← List.cons_append, ← List.singleton_append (l := ascii "print fmt"),
    propertyLines_property (by decide) (by decide) (by decide) (by decide) h.printFmt hprintFmt
      (by decide), withProperty, if_neg (by decide), if_neg fun hid ↦ absurd hid.1 (by decide),
    if_pos rfl, ok_bind]
  rfl

/-- Assumes: a format that `parse` returned, with at least one common field, whose name and print
format do not end inside a quoted string. What `write_to` prints is parsed as the same format, with
the fields made anew for the size of `long`. -/
theorem parse_writeTo {longIs64Bits longIs64Bits' : Bool} {systemName text : List UInt8}
    {format : PerfEventFormat}
    (hparse : parse build longIs64Bits systemName text = .ok (some format))
    (hcommon : 1 ≤ format.commonFieldCount) (hname : quotesClosed format.name)
    (hprintFmt : quotesClosed format.printFmt) :
    ∃ fields', Renewed build longIs64Bits' format.fields fields' ∧
      parse build longIs64Bits' systemName (writeTo format) =
        .ok (some { format with fields := fields' }) := by
  obtain ⟨h, hsystem⟩ := parsed_of_parse hparse
  obtain ⟨fields', hfields⟩ := exists_renewed longIs64Bits' h.fields
  obtain ⟨fuel, hfuel⟩ : ∃ fuel, (writeTo format).length + 1 = fuel + 5 := by
    refine ⟨(writeTo format).length - 4, ?_⟩
    have hlength : 6 ≤ (writeTo format).length := by
      have hnameText : (ascii "name: ").length = 6 := by decide
      simp only [writeTo, List.length_append]
      omega
    omega
  refine ⟨fields', hfields, ?_⟩
  unfold parse
  rw [hfuel, propertyLines_writeTo h hcommon hname hprintFmt hfields, ok_bind]
  dsimp only
  rw [if_pos h.name_ne, commonSize_renewed hfields, h.size_eq, ok_bind, styleOf_renewed hfields,
    h.style_eq, ok_bind, hsystem]

/-! ### The same format -/

/-- The fields of a section are those that were there before or that its lines give. -/
theorem fieldLines_fields {longIs64Bits common : Bool} {made : PerfFieldFormat → Prop}
    (hparse : ∀ line field, (∀ c ∈ line, isEolChar c = false) →
      PerfFieldFormat.parse build longIs64Bits line = .ok (some field) → made field)
    {fuel : ℕ} {text rest : List UInt8} {properties properties' : FileProperties}
    (h : ∀ field ∈ properties.fields, made field)
    (hlines : fieldLines build longIs64Bits fuel common text properties =
      .ok (properties', rest)) : ∀ field ∈ properties'.fields, made field := by
  induction fuel generalizing common text properties with
  | zero => cases hlines
  | succ fuel ih =>
    cases text with
    | nil =>
      cases hlines
      exact h
    | cons c text =>
      rw [fieldLines] at hlines
      obtain ⟨_, _, hlines⟩ := bind_eq_ok.mp hlines
      dsimp only at hlines
      split_ifs at hlines with hline hcommon
      · exact ih h hlines
      · cases hlines
        exact h
      · obtain ⟨parsed, hparsed, hlines⟩ := bind_eq_ok.mp hlines
        cases parsed with
        | none => exact ih h hlines
        | some field =>
          dsimp only at hlines
          have hmade : made field := by
            refine hparse _ field (fun c' hc' ↦ ?_) hparsed
            simpa using List.mem_takeWhile_imp hc'
          obtain ⟨next, hpush, hlines⟩ := bind_eq_ok.mp hlines
          have hnext : next.fields = properties.fields ++ [field] := by
            unfold pushField at hpush
            split_ifs at hpush
            · obtain ⟨_, _, hpush⟩ := bind_eq_ok.mp hpush
              cases hpush
              rfl
            · cases hpush
              rfl
          refine ih ?_ hlines
          rw [hnext]
          exact List.forall_mem_append.mpr ⟨h, List.forall_mem_singleton.mpr hmade⟩

/-- The fields of a format file are what its lines give. -/
theorem propertyLines_fields {longIs64Bits : Bool} {made : PerfFieldFormat → Prop}
    (hparse : ∀ line field, (∀ c ∈ line, isEolChar c = false) →
      PerfFieldFormat.parse build longIs64Bits line = .ok (some field) → made field)
    {fuel : ℕ} {text : List UInt8} {properties properties' : FileProperties}
    (h : ∀ field ∈ properties.fields, made field)
    (hlines : propertyLines build longIs64Bits fuel text properties = .ok properties') :
    ∀ field ∈ properties'.fields, made field := by
  induction fuel generalizing text properties with
  | zero => cases hlines
  | succ fuel ih =>
    rw [propertyLines] at hlines
    dsimp only at hlines
    split at hlines
    · cases hlines
      exact h
    · split_ifs at hlines
      · exact ih h hlines
      · obtain ⟨⟨next, rest⟩, hwith, hlines⟩ := bind_eq_ok.mp hlines
        refine ih ?_ hlines
        unfold withProperty at hwith
        split_ifs at hwith
        · cases hwith
          exact h
        · obtain ⟨id, hid, hwith⟩ := bind_eq_ok.mp hwith
          cases hwith
          exact h
        · cases hwith
          exact h
        · exact fieldLines_fields hparse (fun _ hfield ↦ absurd hfield List.not_mem_nil) hwith
        · cases hwith
          exact h

/-- Fields made anew for the size of `long` they were made for are the same. -/
theorem Renewed.eq_self {longIs64Bits : Bool} {fields fields' : List PerfFieldFormat}
    (h : Renewed build longIs64Bits fields fields')
    (hmade : ∀ field ∈ fields,
      new build longIs64Bits field.field field.offset field.size field.signed = .ok field) :
    fields' = fields := by
  induction h with
  | nil => rfl
  | @cons field field' fields fields' hfield _ ih =>
    have hsame : field' = field :=
      Except.ok.inj (hfield.1.symm.trans (hmade field List.mem_cons_self))
    rw [hsame, ih fun other hother ↦ hmade other (List.mem_cons_of_mem _ hother)]

/-- Assumes: a format that `parse` returned, with at least one common field, whose name and print
format do not end inside a quoted string. What `write_to` prints of it is parsed as the same format. -/
theorem parse_writeTo_self (build : Build) (longIs64Bits : Bool) (systemName text : List UInt8)
    (format : PerfEventFormat)
    (hparse : parse build longIs64Bits systemName text = .ok (some format))
    (hcommon : 1 ≤ format.commonFieldCount) (hname : quotesClosed format.name)
    (hprintFmt : quotesClosed format.printFmt) :
    parse build longIs64Bits systemName (writeTo format) = .ok (some format) := by
  obtain ⟨fields', hfields, hprinted⟩ := @parse_writeTo build longIs64Bits longIs64Bits _ _ _
    hparse hcommon hname hprintFmt
  have hmade : ∀ field ∈ format.fields,
      new build longIs64Bits field.field field.offset field.size field.signed = .ok field := by
    obtain ⟨properties, hlines, hparse⟩ := bind_eq_ok.mp hparse
    have hproperties := propertyLines_fields
      (fun line field heol hline ↦ (printable_of_parse heol hline).2)
      (fun _ hfield ↦ absurd hfield List.not_mem_nil) hlines
    split at hparse
    · split_ifs at hparse
      · obtain ⟨size, _, hparse⟩ := bind_eq_ok.mp hparse
        obtain ⟨style, _, hparse⟩ := bind_eq_ok.mp hparse
        cases hparse
        exact hproperties
      · cases hparse
    · cases hparse
  rw [hfields.eq_self hmade] at hprinted
  exact hprinted

/-- A format file with a common field, no other field, and an empty print format. -/
def sampleFormatText : List UInt8 :=
  ascii "name: e\nID: 7\nformat:\n\tfield:u8 a;\toffset:0;\tsize:1;\n\nprint fmt: \n"

/-- The format of the sample text. -/
def sampleFormat : Option PerfEventFormat :=
  match parse ⟨true, .little, true⟩ true [] sampleFormatText with
  | .ok format => format
  | .error _ => none

/-- The sample format is read back from what `write_to` prints. -/
theorem sampleFormat_parsed :
    ∃ format, parse ⟨true, .little, true⟩ true [] sampleFormatText = .ok (some format) ∧
      format.commonFieldCount = 1 ∧ format.fields.length = 1 ∧
      parse ⟨true, .little, true⟩ true [] (writeTo format) = .ok (some format) := by
  have hsome : sampleFormat.isSome = true := by decide +kernel
  obtain ⟨format, hformat⟩ := Option.isSome_iff_exists.mp hsome
  have hparse : parse ⟨true, .little, true⟩ true [] sampleFormatText = .ok sampleFormat := by
    decide +kernel
  have hcount : sampleFormat.map (·.commonFieldCount) = some 1 := by decide +kernel
  have hlength : sampleFormat.map (·.fields.length) = some 1 := by decide +kernel
  have hname : sampleFormat.map (·.name) = some (ascii "e") := by decide +kernel
  have hprintFmt : sampleFormat.map (·.printFmt) = some [] := by decide +kernel
  rw [hformat] at hparse hcount hlength hname hprintFmt
  have hcount' : format.commonFieldCount = 1 := Option.some.inj hcount
  have hname' : format.name = ascii "e" := Option.some.inj hname
  have hprintFmt' : format.printFmt = [] := Option.some.inj hprintFmt
  refine ⟨format, hparse, hcount', Option.some.inj hlength, ?_⟩
  exact parse_writeTo_self ⟨true, .little, true⟩ true [] sampleFormatText format hparse
    (by omega) (by rw [hname']; decide) (by rw [hprintFmt']; decide)

end PerfEventFormat

end Tracepoints
