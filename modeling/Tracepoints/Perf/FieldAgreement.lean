import Tracepoints.Perf.FieldLocation

/-!
# Field values against field bytes

The value of a field should be made of the bytes of the field: text is cut at its first NUL, an array
of variable length to a whole number of elements, and nothing else is changed (`Agrees`). For data of
variable size the code computes with the element size, which is zero for text and blobs, so that
those fault or lose their content (`cutToElements_sentinel`). `agrees_iff` says that this is the only
difference.
-/

set_option autoImplicit false
set_option relaxedAutoImplicit false

namespace Tracepoints

open Exec

/-! ### Masks -/

/-- Clearing the low bits of an integer. -/
theorem xor_mod_two_pow (value bits : ℕ) :
    value ^^^ (value % 2 ^ bits) = value / 2 ^ bits * 2 ^ bits := by
  apply Nat.eq_of_testBit_eq
  intro bit
  rw [Nat.testBit_xor, Nat.testBit_mod_two_pow, Nat.testBit_mul_two_pow, Nat.testBit_div_two_pow]
  by_cases hbit : bits ≤ bit
  · have hlow : ¬bit < bits := Nat.not_lt.2 hbit
    rw [Nat.sub_add_cancel hbit]
    simp only [hlow, hbit, decide_true, decide_false, Bool.true_and, Bool.false_and, Bool.xor_false]
  · have hlow : bit < bits := Nat.lt_of_not_le hbit
    simp only [hlow, hbit, decide_true, decide_false, Bool.true_and, Bool.false_and, Bool.xor_self]

/-- Masking with the complement of a mask of low bits, in integers of a width. -/
theorem and_complement_mask {value width bits : ℕ} (hvalue : value < 2 ^ width) :
    value &&& ((2 ^ width - 1) ^^^ (2 ^ bits - 1)) = value / 2 ^ bits * 2 ^ bits := by
  rw [Nat.and_xor_distrib_left, Nat.and_two_pow_sub_one_eq_mod, Nat.and_two_pow_sub_one_eq_mod,
    Nat.mod_eq_of_lt hvalue, xor_mod_two_pow]

namespace PerfFieldFormat

variable (build : Build) (format : PerfFieldFormat) (data : List UInt8) (order : ByteOrder)

/-! ### The value that a field should have -/

/-- Text is cut at its first NUL. -/
def cutText (bytes : List UInt8) : List UInt8 :=
  if format.deducedEncoding = FieldEncoding.zStringChar8 then untilFirstNul bytes else bytes

/-- The bytes of the value of a field: an array of variable length is cut to whole elements. -/
def expectedBytes (bytes : List UInt8) : List UInt8 :=
  let bytes := format.cutText bytes
  if FieldEncoding.isVariableLengthArray format.deducedEncoding then
    bytes.take (bytes.length / 2 ^ format.elementSizeShift * 2 ^ format.elementSizeShift)
  else bytes

/-- The count of elements of the value of a field. -/
def expectedCount (bytes : List UInt8) : ℕ :=
  if FieldEncoding.isVariableLengthArray format.deducedEncoding then
    (format.expectedBytes bytes).length / 2 ^ format.elementSizeShift
  else format.deducedArrayCount

/-- The value of a field with the given bytes. -/
def expectedValue (bytes : List UInt8) : PerfItemValue :=
  ⟨format.expectedBytes bytes, format.itemMetadata order (format.expectedCount bytes)⟩

/-- `get_field_value_with_data_and_reader` returns a value, which is the invalid one exactly where
`get_field_bytes` returns nothing, and is made of the bytes it returns elsewhere. -/
def Agrees : Prop :=
  ∃ location value, format.getFieldBytes data order = .ok location ∧
    format.getFieldValue build data order = .ok value ∧
    (value.metadata.encoding = FieldEncoding.invalid ↔ location = none) ∧
    value = location.elim .null (format.expectedValue order)

/-- The masks are not computed from the size of an element of text or blobs, or do no harm. -/
def MaskHarmless : Prop :=
  format.array = .none ∨ format.array = .fixed ∨ format.elementSizeShift ≠ 255 ∨
    ∀ bytes, format.located data order format.relativeBase = some bytes →
      build.debugAssertions = false ∧ format.cutText bytes = []

end PerfFieldFormat

/-! ### The shapes of formats -/

namespace Deduced.Shape

variable {array : PerfFieldArray} {size : ℕ} {format : FieldFormat} {deduced : Deduced}

/-- Fields of fixed size are text or blobs, or have the size of their elements. -/
theorem of_fixedSize (h : Shape array size format deduced)
    (harray : array = .none ∨ array = .fixed) :
    FieldEncoding.isVariableLengthArray deduced.encoding = false ∧
      (deduced.elementSizeShift = 255 ∨
        deduced.elementSizeShift ≤ 3 ∧ deduced.encoding ≠ FieldEncoding.zStringChar8 ∧
          size = deduced.arrayCount * 2 ^ deduced.elementSizeShift) := by
  cases h with
  | text hencoding =>
    simp only [List.mem_cons, List.not_mem_nil, or_false] at hencoding
    refine ⟨?_, Or.inl rfl⟩
    dsimp only
    rcases hencoding with rfl | rfl | rfl <;> decide
  | dump => exact ⟨by decide, Or.inl rfl⟩
  | scalar _ hshift hsize =>
    dsimp only
    rw [Nat.one_mul]
    rcases shiftOfEncoding_cases hshift with ⟨rfl, rfl⟩ | ⟨rfl, rfl⟩ | ⟨rfl, rfl⟩ | ⟨rfl, rfl⟩
    all_goals exact ⟨by decide, Or.inr ⟨by decide, by decide, hsize⟩⟩
  | constant _ hshift hsize =>
    dsimp only
    rcases shiftOfEncoding_cases hshift with ⟨rfl, rfl⟩ | ⟨rfl, rfl⟩ | ⟨rfl, rfl⟩ | ⟨rfl, rfl⟩
    all_goals exact ⟨by decide, Or.inr ⟨by decide, by decide, hsize⟩⟩
  | variableLength hvariable _ => exact absurd harray (not_or.2 hvariable)

/-- Data of variable size is text or a blob, or an array of integers. -/
theorem of_variableSize (h : Shape array size format deduced)
    (harray : array ≠ .none ∧ array ≠ .fixed) :
    deduced.elementSizeShift = 255 ∧ deduced.arrayCount = 1 ∧
        FieldEncoding.isVariableLengthArray deduced.encoding = false ∨
      deduced.elementSizeShift ≤ 3 ∧ deduced.arrayCount = 0 ∧
        FieldEncoding.isVariableLengthArray deduced.encoding = true ∧
        deduced.encoding ≠ FieldEncoding.zStringChar8 := by
  cases h with
  | text hencoding =>
    simp only [List.mem_cons, List.not_mem_nil, or_false] at hencoding
    refine Or.inl ⟨rfl, rfl, ?_⟩
    dsimp only
    rcases hencoding with rfl | rfl | rfl <;> decide
  | dump => exact Or.inl ⟨rfl, rfl, by decide⟩
  | scalar hfixed _ _ => exact absurd hfixed (not_or.2 harray)
  | constant hfixed _ _ => exact absurd hfixed harray.2
  | variableLength _ hshift =>
    dsimp only
    rcases shiftOfEncoding_cases hshift with ⟨rfl, rfl⟩ | ⟨rfl, rfl⟩ | ⟨rfl, rfl⟩ | ⟨rfl, rfl⟩
    all_goals exact Or.inr ⟨by decide, rfl, by decide, by decide⟩

end Deduced.Shape

namespace PerfFieldFormat

variable {build : Build} {format : PerfFieldFormat} (data : List UInt8) (order : ByteOrder)

/-- The expected value where there is no array of variable length. -/
theorem expectedValue_plain
    (h : FieldEncoding.isVariableLengthArray format.deducedEncoding = false) (bytes : List UInt8) :
    format.expectedValue order bytes
      = ⟨format.cutText bytes, format.itemMetadata order format.deducedArrayCount⟩ := by
  unfold expectedValue expectedCount expectedBytes
  simp only [h, Bool.false_eq_true, if_false]

/-- The code cuts text where the expected value does. -/
theorem cutText_eq (bytes : List UInt8) :
    (if decide (format.deducedEncoding = FieldEncoding.zStringChar8) = true then untilFirstNul bytes
      else bytes) = format.cutText bytes := by
  simp only [cutText, decide_eq_true_eq]

/-- Cutting text makes it no longer. -/
theorem cutText_length_le (bytes : List UInt8) :
    (format.cutText bytes).length ≤ bytes.length := by
  unfold cutText
  split_ifs
  · exact (List.takeWhile_sublist _).length_le
  · exact Nat.le_refl _

/-- The element size of integers. -/
theorem elementSize_eq (h : format.elementSizeShift ≤ 3) :
    format.elementSize = 2 ^ format.elementSizeShift := by
  have hshift : format.elementSizeShift % 32 = format.elementSizeShift :=
    Nat.mod_eq_of_lt (by omega)
  unfold elementSize
  rw [hshift]
  apply Nat.mod_eq_of_lt
  calc 2 ^ format.elementSizeShift ≤ 2 ^ 3 := Nat.pow_le_pow_right (by decide) h
    _ < 256 := by decide

/-- The element size of text and blobs. -/
theorem elementSize_sentinel (h : format.elementSizeShift = 255) : format.elementSize = 0 := by
  unfold elementSize
  rw [h]
  rfl

/-! ### Values of fixed size -/

/-- Data of fixed size gives the expected value. -/
theorem valueOf_fixedSize (h : format.Constructed build)
    (harray : format.array = .none ∨ format.array = .fixed) {bytes : List UInt8}
    (hlength : bytes.length = format.size) :
    format.valueOf build order bytes = .ok (format.expectedValue order bytes) := by
  obtain ⟨_, _, hshape⟩ := h.shape
  have hcount : FieldEncoding.isArray format.deducedEncoding = false →
      format.deducedArrayCount = 1 :=
    hshape.count_eq_one
  obtain ⟨hplain, hsizes⟩ := hshape.of_fixedSize harray
  have hfull : format.elementSize ≠ 0 → format.cutText bytes ≠ [] →
      (format.cutText bytes).length = format.elementSize * format.deducedArrayCount := by
    intro hsize _
    rcases hsizes with hshift | ⟨hshift, htext, hsizes⟩
    · exact absurd (elementSize_sentinel hshift) hsize
    · have hcut : format.cutText bytes = bytes := if_neg htext
      rw [hcut, hlength, elementSize_eq hshift, Nat.mul_comm]
      exact hsizes
  have hvalue : format.valueOf build order bytes
      = format.makeValue build order (format.cutText bytes) format.deducedArrayCount := by
    unfold valueOf
    dsimp only
    rw [cutText_eq]
    rcases harray with harray | harray <;> rw [harray]
  rw [hvalue, expectedValue_plain order hplain]
  exact h.makeValue_ok order hcount hfull

/-! ### Values of variable size -/

/-- The width of `usize` in bits. -/
theorem usizeMax_eq : ∃ width, 16 ≤ width ∧ usizeMax build = 2 ^ width - 1 := by
  unfold usizeMax
  cases build.pointer64
  · exact ⟨32, by decide, rfl⟩
  · exact ⟨64, by decide, rfl⟩

/-- Integers are cut to whole elements. -/
theorem cutToElements_eq (h : format.elementSizeShift ≤ 3) {bytes : List UInt8}
    (hlength : bytes.length ≤ 65535) :
    format.cutToElements build bytes = .ok
      (bytes.take (bytes.length / 2 ^ format.elementSizeShift * 2 ^ format.elementSizeShift)) := by
  obtain ⟨width, hwidth, hmax⟩ := @usizeMax_eq build
  have hfits : bytes.length < 2 ^ width :=
    calc bytes.length < 2 ^ 16 := Nat.lt_succ_of_le hlength
      _ ≤ 2 ^ width := Nat.pow_le_pow_right (by decide) hwidth
  unfold cutToElements
  rw [elementSize_eq h, subUsize_of_le Nat.one_le_two_pow, ok_bind, Nat.and_two_pow_sub_one_eq_mod,
    hmax, and_complement_mask hfits]
  by_cases hwhole : 0 = bytes.length % 2 ^ format.elementSizeShift
  · have hall : bytes.length / 2 ^ format.elementSizeShift * 2 ^ format.elementSizeShift
        = bytes.length :=
      Nat.div_mul_cancel (Nat.dvd_of_mod_eq_zero hwhole.symm)
    rw [if_neg (not_not.2 hwhole), hall, List.take_length]
  · rw [if_pos hwhole, slice_of_le (Nat.zero_le _) (Nat.div_mul_le_self _ _), List.drop_zero,
      Nat.sub_zero]

/-- Text and blobs fault, or lose their content. -/
theorem cutToElements_sentinel (h : format.elementSizeShift = 255) {bytes : List UInt8}
    (hlength : bytes.length ≤ 65535) :
    format.cutToElements build bytes
      = if build.debugAssertions then .error .underflow else .ok [] := by
  obtain ⟨width, hwidth, hmax⟩ := @usizeMax_eq build
  have hfits : bytes.length < 2 ^ width :=
    calc bytes.length < 2 ^ 16 := Nat.lt_succ_of_le hlength
      _ ≤ 2 ^ width := Nat.pow_le_pow_right (by decide) hwidth
  have hsub : subUsize build 0 1
      = if build.debugAssertions then .error .underflow else .ok (usizeMax build) := by
    unfold subUsize usizeMax
    rw [if_neg (by decide), Nat.zero_add]
  unfold cutToElements
  rw [elementSize_sentinel h, hsub]
  cases build.debugAssertions with
  | true => rfl
  | false =>
    simp only [Bool.false_eq_true, if_false, ok_bind]
    rw [hmax, Nat.and_two_pow_sub_one_eq_mod, Nat.mod_eq_of_lt hfits, Nat.xor_self, Nat.and_zero,
      slice_of_le (Nat.zero_le _) (Nat.zero_le _)]
    cases bytes with
    | nil => rfl
    | cons => rfl

/-- Data of variable size is cut to elements before its value is made. -/
theorem valueOf_variableSize (harray : format.array ≠ .none ∧ format.array ≠ .fixed)
    (bytes : List UInt8) :
    format.valueOf build order bytes
      = (format.cutToElements build (format.cutText bytes) >>= fun cut ↦
          format.makeValue build order cut (format.variableCount cut)) := by
  unfold valueOf variableSizeValue
  dsimp only
  rw [cutText_eq]
  cases hkind : format.array with
  | none => exact absurd hkind harray.1
  | fixed => exact absurd hkind harray.2
  | _ => rfl

/-- An array of integers gives the expected value. -/
theorem valueOf_integers (h : format.Constructed build)
    (harray : format.array ≠ .none ∧ format.array ≠ .fixed)
    (hshift : format.elementSizeShift ≠ 255) {bytes : List UInt8}
    (hlength : bytes.length ≤ 65535) :
    format.valueOf build order bytes = .ok (format.expectedValue order bytes) := by
  obtain ⟨_, _, hshape⟩ := h.shape
  rcases hshape.of_variableSize harray with ⟨hsentinel, _⟩ | ⟨hsmall, hcount, hvariable, htext⟩
  · exact absurd hsentinel hshift
  · change format.elementSizeShift ≤ 3 at hsmall
    change format.deducedArrayCount = 0 at hcount
    change FieldEncoding.isVariableLengthArray format.deducedEncoding = true at hvariable
    have hcut : format.cutText bytes = bytes := if_neg htext
    have hisArray : FieldEncoding.isArray format.deducedEncoding = true := by
      rw [FieldEncoding.isArray_eq, hvariable, Bool.or_true]
    have hbytes : format.expectedBytes bytes = bytes.take
        (bytes.length / 2 ^ format.elementSizeShift * 2 ^ format.elementSizeShift) := by
      unfold expectedBytes
      rw [hcut]
      exact if_pos hvariable
    have hwhole : (format.expectedBytes bytes).length
        = bytes.length / 2 ^ format.elementSizeShift * 2 ^ format.elementSizeShift := by
      rw [hbytes]
      exact List.length_take_of_le (Nat.div_mul_le_self _ _)
    have hdiv : (format.expectedBytes bytes).length / 2 ^ format.elementSizeShift
        = bytes.length / 2 ^ format.elementSizeShift := by
      rw [hwhole, Nat.mul_div_cancel _ (Nat.two_pow_pos _)]
    have hexpected : format.expectedCount bytes
        = bytes.length / 2 ^ format.elementSizeShift := by
      unfold expectedCount
      rw [if_pos hvariable, hdiv]
    have hvariableCount : format.variableCount (format.expectedBytes bytes)
        = format.expectedCount bytes := by
      unfold variableCount
      rw [if_neg (not_not.2 hcount), hdiv, hexpected]
      apply Nat.mod_eq_of_lt
      exact Nat.lt_of_le_of_lt (Nat.div_le_self _ _) (Nat.lt_succ_of_le hlength)
    rw [valueOf_variableSize order harray, hcut, cutToElements_eq hsmall hlength, ok_bind, ← hbytes,
      hvariableCount]
    apply h.makeValue_ok order
    · intro hscalar
      exact absurd hisArray (Bool.eq_false_iff.1 hscalar)
    · intro _ _
      rw [elementSize_eq hsmall, hexpected, hwhole, Nat.mul_comm]

/-- Text or a blob of variable size gives the expected value only where there is nothing to lose. -/
theorem valueOf_sentinel_iff (h : format.Constructed build)
    (harray : format.array ≠ .none ∧ format.array ≠ .fixed)
    (hshift : format.elementSizeShift = 255) {bytes : List UInt8}
    (hlength : bytes.length ≤ 65535) :
    format.valueOf build order bytes = .ok (format.expectedValue order bytes) ↔
      build.debugAssertions = false ∧ format.cutText bytes = [] := by
  obtain ⟨_, _, hshape⟩ := h.shape
  rcases hshape.of_variableSize harray with ⟨_, hcount, hplain⟩ | ⟨hsmall, _⟩
  · change format.deducedArrayCount = 1 at hcount
    have hcutLength : (format.cutText bytes).length ≤ 65535 :=
      Nat.le_trans (cutText_length_le bytes) hlength
    rw [valueOf_variableSize order harray, cutToElements_sentinel hshift hcutLength,
      expectedValue_plain order hplain]
    cases hdebug : build.debugAssertions with
    | true =>
      apply iff_of_false
      · rw [if_pos rfl, error_bind]
        exact fun hbad ↦ nomatch hbad
      · exact fun hbad ↦ nomatch hbad.1
    | false =>
      have hvariableCount : format.variableCount [] = format.deducedArrayCount := by
        unfold variableCount
        rw [if_pos (by omega)]
      have hmade : format.makeValue build order [] format.deducedArrayCount
          = .ok ⟨[], format.itemMetadata order format.deducedArrayCount⟩ :=
        h.makeValue_ok order (fun _ ↦ hcount) (fun _ hne ↦ absurd rfl hne)
      rw [if_neg (by decide), ok_bind, hvariableCount, hmade]
      constructor
      · intro hsame
        exact ⟨rfl, ((PerfItemValue.mk.inj (Except.ok.inj hsame)).1).symm⟩
      · intro hempty
        rw [hempty.2]
  · change format.elementSizeShift ≤ 3 at hsmall
    omega

/-! ### Agreement -/

/-- The data of a field is no longer than the raw data. -/
theorem located_length_le {base : ℕ} {bytes : List UInt8}
    (h : format.located data order base = some bytes) : bytes.length ≤ data.length := by
  have hpart : bytes.Sublist data := by
    unfold located at h
    split_ifs at h with hend
    cases harray : format.array <;> rw [harray] at h <;> dsimp only at h
    case none | fixed =>
      obtain rfl := Option.some.inj h
      exact (List.take_sublist _ _).trans (List.drop_sublist _ _)
    case restOfEvent =>
      obtain rfl := Option.some.inj h
      exact List.drop_sublist _ _
    case dataLoc2 | relLoc2 =>
      split_ifs at h
      obtain rfl := Option.some.inj h
      exact (List.takeWhile_sublist _).trans (List.drop_sublist _ _)
    case dataLoc4 | relLoc4 =>
      split_ifs at h
      obtain rfl := Option.some.inj h
      exact (List.take_sublist _ _).trans (List.drop_sublist _ _)
  exact hpart.length_le

/-- The data of a field of fixed size has that size. -/
theorem located_fixedSize {base : ℕ} (harray : format.array = .none ∨ format.array = .fixed)
    {bytes : List UInt8} (h : format.located data order base = some bytes) :
    bytes.length = format.size := by
  unfold located at h
  split_ifs at h with hend
  have hbytes : (data.drop format.offset).take format.size = bytes := by
    rcases harray with harray | harray
    all_goals
      rw [harray] at h
      exact Option.some.inj h
  rw [← hbytes]
  apply List.length_take_of_le
  rw [List.length_drop]
  exact Nat.le_sub_of_add_le' hend

/-- The value of a field is the expected one exactly where no mask does harm. Assumes: raw data that
fits into a sample. -/
theorem valueOf_eq_iff (h : format.Constructed build) (hdata : data.length ≤ 65535)
    {bytes : List UInt8} (hlocated : format.located data order format.relativeBase = some bytes) :
    format.valueOf build order bytes = .ok (format.expectedValue order bytes) ↔
      format.MaskHarmless build data order := by
  have hlength : bytes.length ≤ 65535 := Nat.le_trans (located_length_le data order hlocated) hdata
  by_cases hfixed : format.array = .none ∨ format.array = .fixed
  · have hsize := located_fixedSize data order hfixed hlocated
    apply iff_of_true (valueOf_fixedSize order h hfixed hsize)
    exact hfixed.elim Or.inl (fun harray ↦ Or.inr (Or.inl harray))
  · have harray := not_or.1 hfixed
    by_cases hshift : format.elementSizeShift = 255
    · rw [valueOf_sentinel_iff order h harray hshift hlength]
      constructor
      · intro hempty
        refine Or.inr (Or.inr (Or.inr ?_))
        intro found hfound
        rw [hlocated] at hfound
        obtain rfl := Option.some.inj hfound
        exact hempty
      · rintro (hkind | hkind | hinteger | hempty)
        · exact absurd hkind harray.1
        · exact absurd hkind harray.2
        · exact absurd hshift hinteger
        · exact hempty bytes hlocated
    · exact iff_of_true (valueOf_integers order h harray hshift hlength)
        (Or.inr (Or.inr (Or.inl hshift)))

/-- `get_field_value_with_data_and_reader` agrees with `get_field_bytes` exactly where no mask does
harm. Assumes: a format that `new` makes, and raw data that fits into a sample. -/
theorem agrees_iff (h : format.Constructed build) (hdata : data.length ≤ 65535) :
    format.Agrees build data order ↔ format.MaskHarmless build data order := by
  unfold Agrees
  rw [getFieldBytes_eq data order h, getFieldValue_eq data order h]
  cases hlocated : format.located data order format.relativeBase with
  | none =>
    have hnull : format.valueAt build order none = .ok PerfItemValue.null := by
      unfold valueAt PerfItemValue.new
      rw [debugAssert_of (fun hne ↦ absurd rfl hne.2), ok_bind, debugAssert_of (fun _ ↦ rfl)]
      rfl
    apply iff_of_true
    · exact ⟨none, .null, rfl, hnull, iff_of_true (by decide) rfl, rfl⟩
    · refine Or.inr (Or.inr (Or.inr ?_))
      intro bytes hbytes
      rw [hlocated] at hbytes
      cases hbytes
  | some bytes =>
    rw [← valueOf_eq_iff data order h hdata hlocated]
    constructor
    · rintro ⟨location, value, hbytes, hvalue, _, rfl⟩
      obtain rfl := Except.ok.inj hbytes
      exact hvalue
    · intro hvalue
      exact ⟨some bytes, format.expectedValue order bytes, rfl, hvalue,
        valueAt_encoding order h hvalue, rfl⟩

/-- `__data_loc char x[]; size:4;`. -/
def textField : PerfFieldFormat :=
  { byteLocation (ascii "__data_loc char x[]") .dataLoc4 with
    deducedArrayCount := 1
    deducedEncoding := FieldEncoding.zStringChar8
    specifiedFormat := FieldFormat.string8
    deducedFormat := FieldFormat.string8
    elementSizeShift := 255 }

/-- An array of bytes in a location keeps its content. -/
theorem dataLocField_agrees :
    dataLocField.Agrees ⟨true, .little, true⟩ [4, 0, 1, 0, 0x41] .little :=
  (agrees_iff [4, 0, 1, 0, 0x41] .little
    ⟨true, ascii "__data_loc u8 x[]", 0, 4, none, by decide +kernel⟩ (by decide)).2
    (Or.inr (Or.inr (Or.inl (by decide))))

/-- The text of one character in a location: a build with assertions faults, one without returns a
value without content. -/
theorem textField_not_agrees :
    (textField.Constructed ⟨true, .little, true⟩ ∧ textField.Constructed ⟨false, .little, true⟩) ∧
      textField.getFieldBytes [4, 0, 1, 0, 0x41] .little = .ok (some [0x41]) ∧
      textField.getFieldValue ⟨true, .little, true⟩ [4, 0, 1, 0, 0x41] .little
        = .error .underflow ∧
      textField.getFieldValue ⟨false, .little, true⟩ [4, 0, 1, 0, 0x41] .little
        = .ok ⟨[], textField.itemMetadata .little 1⟩ ∧
      ¬textField.Agrees ⟨true, .little, true⟩ [4, 0, 1, 0, 0x41] .little ∧
      ¬textField.Agrees ⟨false, .little, true⟩ [4, 0, 1, 0, 0x41] .little := by
  have hbytes : textField.getFieldBytes [4, 0, 1, 0, 0x41] .little = .ok (some [0x41]) := by
    decide +kernel
  have hfault : textField.getFieldValue ⟨true, .little, true⟩ [4, 0, 1, 0, 0x41] .little
      = .error .underflow := by
    decide +kernel
  have hlost : textField.getFieldValue ⟨false, .little, true⟩ [4, 0, 1, 0, 0x41] .little
      = .ok ⟨[], textField.itemMetadata .little 1⟩ := by
    decide +kernel
  refine ⟨⟨⟨true, ascii "__data_loc char x[]", 0, 4, none, by decide +kernel⟩,
    ⟨true, ascii "__data_loc char x[]", 0, 4, none, by decide +kernel⟩⟩, hbytes, hfault, hlost, ?_,
    ?_⟩
  · rintro ⟨_, value, _, hvalue, _⟩
    rw [hfault] at hvalue
    exact nomatch hvalue
  · rintro ⟨location, value, hlocation, hvalue, _, hexpected⟩
    rw [hbytes] at hlocation
    rw [hlost] at hvalue
    obtain rfl := Except.ok.inj hlocation
    obtain rfl := Except.ok.inj hvalue
    exact absurd (congrArg PerfItemValue.bytes hexpected) (by decide +kernel)

end PerfFieldFormat

end Tracepoints
