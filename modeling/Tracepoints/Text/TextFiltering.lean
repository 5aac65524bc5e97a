import Tracepoints.Enumerator.JsonWriter
import Tracepoints.Text.Utf16Text

/-!
# Filtering of text in every encoding

The functions of `ValueWriter` that write a text: without a filter, with JSON escapes, and with the
filter of control characters that the options ask for. Each is a decoder of `charconv.rs` applied to a
filter of `filters.rs`.

`TextFiltered` is what they are meant to do with the text of some bytes. `textFiltered_iff` says when
they do it: always for Latin-1, UTF-8 and UTF-16, and for UTF-32 exactly where no code unit has to be
escaped. The decoder of UTF-32 hands every character to a filter as one outside ASCII, which no filter
looks at (`writeUtf32To_eq`).
-/

set_option autoImplicit false
set_option relaxedAutoImplicit false

namespace Tracepoints

open Exec
open String (utf8EncodeChar)

namespace PerfConvertOptions

def stringControlCharsReplaceWithSpace : PerfConvertOptions := 0x10000
def stringControlCharsJsonEscape : PerfConvertOptions := 0x20000

/-- `PerfConvertOptions::StringControlCharsMask`. -/
def stringControlCharsMask : PerfConvertOptions :=
  stringControlCharsReplaceWithSpace ||| stringControlCharsJsonEscape

end PerfConvertOptions

/-! ### The writers of text -/

/-- The decoder of an encoding. -/
def PerfTextEncoding.writeTo : PerfTextEncoding → Filter → List UInt8 → Exec (List UInt8)
  | latin1 => writeLatin1To
  | utf8 => writeUtf8WithLatin1FallbackTo
  | utf16 order => writeUtf16To order
  | utf32 order => writeUtf32To order

namespace ValueWriter

variable (build : Build) (options : PerfConvertOptions) (encoding : PerfTextEncoding)
  (bytes : List UInt8)

/-- The functions `write_*_with_no_filter`. -/
def writeWithNoFilter : Exec (List UInt8) := encoding.writeTo (writeFilter build) bytes

/-- `write_with_json_escape`. -/
def writeWithJsonEscape : Exec (List UInt8) :=
  encoding.writeTo (jsonEscapeFilter build (writeFilter build)) bytes

/-- `write_with_control_chars_filter`. -/
def writeWithControlCharsFilter : Exec (List UInt8) :=
  if options &&& .stringControlCharsMask = .stringControlCharsReplaceWithSpace then
    encoding.writeTo (controlCharsSpaceFilter build (writeFilter build)) bytes
  else if options &&& .stringControlCharsMask = .stringControlCharsJsonEscape then
    encoding.writeTo (controlCharsJsonFilter build (writeFilter build)) bytes
  else writeWithNoFilter build encoding bytes

end ValueWriter

/-! ### What the decoders write -/

section Decoders

variable {filter : Filter} {mapped : Char → List Char}

/-- Assumes: the filter maps characters, and keeps those outside ASCII. -/
theorem writeLatin1To_eq (hmaps : filter.Maps mapped)
    (hkeep : ∀ c : Char, 0x80 ≤ c.toNat → mapped c = [c]) (bytes : List UInt8) :
    writeLatin1To filter bytes =
      .ok (utf8 ((bytes.map fun byte ↦ Char.ofNat byte.toNat).flatMap mapped)) := by
  have hunits := @writeRuns_units (fun byte ↦ 0x7F < byte) (fun writtenPos pos ↦ writtenPos < pos)
    filter.writeStr (fun byte ↦ filter.writeNonAscii (Char.ofNat byte.toNat)) mapped hmaps.str
    (fun _ _ h ↦ decide_eq_true h)
    (bytes.map fun byte ↦ ([byte], mapped (Char.ofNat byte.toNat)))
  rw [List.flatMap_map, List.flatMap_map, List.flatMap_singleton'] at hunits
  rw [List.flatMap_map]
  refine hunits fun unit hunit ↦ ?_
  obtain ⟨byte, _, rfl⟩ := List.mem_map.mp hunit
  have hnat : (Char.ofNat byte.toNat).toNat = byte.toNat :=
    toNat_ofNat_of_valid (Or.inl (lt_trans (UInt8.toNat_lt byte) (by decide)))
  have hspecial : 0x7F < byte ↔ 0x80 ≤ byte.toNat := UInt8.lt_iff_toNat_lt
  by_cases hge : 0x80 ≤ byte.toNat
  · refine .special byte _ (decide_eq_true (hspecial.mpr hge)) ?_
    rw [hmaps.nonAscii, hkeep _ (by omega)]
  · have hencode : utf8EncodeChar (Char.ofNat byte.toNat) = [byte] := by
      rw [utf8EncodeChar_ascii (by omega), hnat, UInt8.ofNat_toNat]
    have hunit := @RunUnit.plain (fun byte : UInt8 ↦ 0x7F < byte)
      (fun byte ↦ filter.writeNonAscii (Char.ofNat byte.toNat)) mapped (Char.ofNat byte.toNat)
    rw [hencode] at hunit
    refine hunit fun other hother ↦ ?_
    rw [List.mem_singleton] at hother
    rw [hother]
    exact decide_eq_false fun h ↦ hge (hspecial.mp h)

/-- The complete code units of UTF-32. -/
def utf32Units (order : ByteOrder) : List UInt8 → List ℕ
  | first :: second :: third :: fourth :: rest =>
    order.ofBytes [first, second, third, fourth] :: utf32Units order rest
  | _ => []

theorem utf32Units_of_le (order : ByteOrder) {bytes : List UInt8} (h : 4 ≤ bytes.length) :
    utf32Units order bytes = order.ofBytes (bytes.take 4) :: utf32Units order (bytes.drop 4) := by
  match bytes with
  | first :: second :: third :: fourth :: rest => rfl

theorem utf32Units_of_lt (order : ByteOrder) {bytes : List UInt8} (h : bytes.length < 4) :
    utf32Units order bytes = [] := by
  match bytes with
  | [] => rfl
  | [first] => rfl
  | [first, second] => rfl
  | [first, second, third] => rfl

/-- The decoder of UTF-32 writes every character as it is, whatever the filter. -/
theorem writeUtf32Loop_eq (order : ByteOrder) (hmaps : filter.Maps mapped) (bytes : List UInt8)
    (fuel pos : ℕ) (hpos : pos ≤ bytes.length) (hfuel : bytes.length - pos < fuel) :
    writeUtf32Loop order filter bytes fuel pos =
      .ok (utf8 ((utf32Units order (bytes.drop pos)).map charFromU32)) := by
  induction fuel generalizing pos with
  | zero => omega
  | succ fuel ih =>
    rw [writeUtf32Loop, sub_of_le hpos, ok_bind]
    by_cases hroom : 4 ≤ bytes.length - pos
    · have hunits := @utf32Units_of_le order (bytes.drop pos) (by rw [List.length_drop]; exact hroom)
      rw [List.drop_drop] at hunits
      rw [if_pos hroom, readUInt_of_le (by omega), ok_bind, hmaps.nonAscii, ok_bind,
        ih (pos + 4) (by omega) (by omega), ok_bind, hunits, List.map_cons, ← utf8_append,
        List.singleton_append]
    · rw [if_neg hroom, utf32Units_of_lt order (by rw [List.length_drop]; omega)]
      rfl

theorem writeUtf32To_eq (order : ByteOrder) (hmaps : filter.Maps mapped) (bytes : List UInt8) :
    writeUtf32To order filter bytes = .ok (utf8 ((utf32Units order bytes).map charFromU32)) :=
  writeUtf32Loop_eq order hmaps bytes _ 0 (Nat.zero_le _) (by omega)

/-- Every decoder but that of UTF-32 writes some characters, the same for every filter that keeps those
outside ASCII. -/
theorem writeTo_eq {encoding : PerfTextEncoding} (hencoding : ∀ order, encoding ≠ .utf32 order)
    (bytes : List UInt8) :
    ∃ chars : List Char, ∀ (filter : Filter) (mapped : Char → List Char), filter.Maps mapped →
      (∀ c : Char, 0x80 ≤ c.toNat → mapped c = [c]) →
        encoding.writeTo filter bytes = .ok (utf8 (chars.flatMap mapped)) := by
  cases encoding with
  | latin1 => exact ⟨_, fun filter mapped hmaps hkeep ↦ writeLatin1To_eq hmaps hkeep bytes⟩
  | utf8 =>
    obtain ⟨chars, hchars⟩ := FallbackText.exists_chars bytes
    exact ⟨chars, fun filter mapped hmaps hkeep ↦
      writeUtf8WithLatin1FallbackTo_eq hmaps hkeep hchars⟩
  | utf16 order =>
    refine ⟨utf16Text order bytes, fun filter mapped hmaps hkeep ↦ ?_⟩
    exact (writeUtf16To_eq order filter bytes).trans (hmaps.writeChars hkeep _)
  | utf32 order => exact absurd rfl (hencoding order)

end Decoders

/-! ### Filtering -/

/-- A character with the filter of control characters that the options ask for. -/
def controlCharsFiltered (options : PerfConvertOptions) (c : Char) : List Char :=
  if c.toNat < 0x20 then
    if options &&& .stringControlCharsMask = .stringControlCharsReplaceWithSpace then [' ']
    else if options &&& .stringControlCharsMask = .stringControlCharsJsonEscape then jsonEscape c
    else [c]
  else [c]

/-- The text of some bytes is filtered as it should be: with JSON escapes it is the body of a JSON
string that stands for the text, and with the filter of control characters these are replaced as the
options say and the other characters are kept. -/
def TextFiltered (build : Build) (options : PerfConvertOptions) (encoding : PerfTextEncoding)
    (bytes : List UInt8) : Prop :=
  ∃ text, ValueWriter.writeWithNoFilter build encoding bytes = .ok (utf8 text) ∧
    (∃ body, ValueWriter.writeWithJsonEscape build encoding bytes = .ok (utf8 body) ∧
      JsonDecodes body text) ∧
    ValueWriter.writeWithControlCharsFilter build options encoding bytes =
      .ok (utf8 (text.flatMap (controlCharsFiltered options)))

/-- No code unit of UTF-32 has to be escaped. -/
def NoSpecialUnits (encoding : PerfTextEncoding) (bytes : List UInt8) : Prop :=
  match encoding with
  | .utf32 order => ∀ unit ∈ utf32Units order bytes, 0x20 ≤ unit ∧ unit ≠ 0x22 ∧ unit ≠ 0x5C
  | _ => True

theorem isPlainChar_charFromU32 (unit : ℕ) :
    IsPlainChar (charFromU32 unit) ↔ 0x20 ≤ unit ∧ unit ≠ 0x22 ∧ unit ≠ 0x5C := by
  unfold charFromU32
  by_cases hvalid : unit.isValidChar
  · have hnat := toNat_ofNat_of_valid hvalid
    rw [if_pos hvalid]
    unfold IsPlainChar
    rw [hnat, Ne, Ne, ← Char.toNat_inj, ← Char.toNat_inj, hnat]
    rfl
  · rw [if_neg hvalid]
    refine iff_of_true (by decide) ?_
    unfold Nat.isValidChar at hvalid
    omega

theorem jsonFilterChar_false (c : Char) :
    jsonFilterChar false c = if IsPlainChar c then [c] else jsonEscape c := by
  unfold jsonFilterChar
  by_cases hplain : IsPlainChar c
  · rw [if_pos hplain, if_neg]
    rintro (hlt | ⟨_, rfl | rfl⟩)
    · exact absurd hplain.1 (Nat.not_le.mpr hlt)
    · exact hplain.2.1 rfl
    · exact hplain.2.2 rfl
  · rw [if_neg hplain, if_pos]
    by_contra hescapes
    simp only [true_and, not_or] at hescapes
    exact hplain ⟨Nat.le_of_not_lt hescapes.1, hescapes.2.1, hescapes.2.2⟩

/-- The filter of control characters that the options ask for. -/
theorem writeWithControlCharsFilter_eq (build : Build) (options : PerfConvertOptions) :
    ∃ filter : Filter, filter.Maps (controlCharsFiltered options) ∧ ∀ encoding bytes,
      ValueWriter.writeWithControlCharsFilter build options encoding bytes =
        PerfTextEncoding.writeTo encoding filter bytes := by
  have hlower := writeFilter_maps build
  unfold ValueWriter.writeWithControlCharsFilter controlCharsFiltered
  by_cases hspace : options &&& .stringControlCharsMask = .stringControlCharsReplaceWithSpace
  · simp only [if_pos hspace]
    exact ⟨_, controlCharsSpaceFilter_maps hlower, fun _ _ ↦ rfl⟩
  simp only [if_neg hspace]
  by_cases hescape : options &&& .stringControlCharsMask = .stringControlCharsJsonEscape
  · simp only [if_pos hescape]
    have hmaps := @jsonFilter_maps build _ hlower true
    unfold jsonFilterChar at hmaps
    simp only [Bool.true_eq_false, false_and, or_false] at hmaps
    exact ⟨_, hmaps, fun _ _ ↦ rfl⟩
  · simp only [if_neg hescape, ite_self]
    exact ⟨_, hlower, fun _ _ ↦ rfl⟩

theorem controlCharsFiltered_of_le (options : PerfConvertOptions) {c : Char} (h : 0x20 ≤ c.toNat) :
    controlCharsFiltered options c = [c] :=
  if_neg (Nat.not_lt.mpr h)

/-- Assumes: an encoding other than UTF-32. -/
theorem textFiltered_of_ne {encoding : PerfTextEncoding}
    (hencoding : ∀ order, encoding ≠ .utf32 order) (build : Build) (options : PerfConvertOptions)
    (bytes : List UInt8) : TextFiltered build options encoding bytes := by
  have hlower := writeFilter_maps build
  obtain ⟨chars, hchars⟩ := writeTo_eq hencoding bytes
  obtain ⟨filter, hmaps, hfilter⟩ := writeWithControlCharsFilter_eq build options
  refine ⟨chars, ?_, ⟨jsonEscapeAll chars, ?_, jsonDecodes_jsonEscapeAll chars⟩, ?_⟩
  · have hplain := hchars _ _ hlower fun _ _ ↦ rfl
    rw [List.flatMap_singleton'] at hplain
    exact hplain
  · have hescaped := hchars _ _ (@jsonFilter_maps build _ hlower false) fun _ ↦
      jsonFilterChar_of_le false
    rw [funext jsonFilterChar_false] at hescaped
    exact hescaped
  · rw [hfilter]
    exact hchars _ _ hmaps fun c hc ↦ controlCharsFiltered_of_le options (by omega)

/-- Texts are filtered as they should be exactly where no code unit of UTF-32 has to be escaped. -/
theorem textFiltered_iff (build : Build) (options : PerfConvertOptions) (encoding : PerfTextEncoding)
    (bytes : List UInt8) :
    TextFiltered build options encoding bytes ↔ NoSpecialUnits encoding bytes := by
  have hlower := writeFilter_maps build
  cases encoding with
  | latin1 => exact iff_of_true (textFiltered_of_ne (by simp) _ _ _) trivial
  | utf8 => exact iff_of_true (textFiltered_of_ne (by simp) _ _ _) trivial
  | utf16 order => exact iff_of_true (textFiltered_of_ne (by simp) _ _ _) trivial
  | utf32 order =>
    have hwrites {filter : Filter} {mapped : Char → List Char} (hmaps : filter.Maps mapped) :=
      writeUtf32To_eq order hmaps bytes
    have hescaped := hwrites (@jsonFilter_maps build _ hlower false)
    constructor
    · rintro ⟨text, htext, ⟨body, hbody, hdecodes⟩, _⟩ unit hunit
      obtain rfl := utf8_injective (Except.ok.inj (htext.symm.trans (hwrites hlower)))
      obtain rfl := utf8_injective (Except.ok.inj (hbody.symm.trans hescaped))
      exact (isPlainChar_charFromU32 unit).mp
        (hdecodes.plain_of_self _ (List.mem_map_of_mem hunit))
    · intro hunits
      have hplain : ∀ c ∈ (utf32Units order bytes).map charFromU32, IsPlainChar c := by
        intro c hc
        obtain ⟨unit, hunit, rfl⟩ := List.mem_map.mp hc
        exact (isPlainChar_charFromU32 unit).mpr (hunits unit hunit)
      obtain ⟨filter, hmaps, hfilter⟩ := writeWithControlCharsFilter_eq build options
      refine ⟨_, hwrites hlower, ⟨_, hescaped, JsonDecodes.of_plain hplain⟩, ?_⟩
      rw [hfilter, List.flatMap_congr fun c hc ↦ controlCharsFiltered_of_le options (hplain c hc).1,
        List.flatMap_singleton']
      exact hwrites hmaps

/-- A quotation mark in UTF-32 is not escaped. -/
theorem utf32Quote_not_filtered :
    ValueWriter.writeWithNoFilter ⟨true, .little, true⟩ (.utf32 .little) [0x22, 0, 0, 0] =
        .ok (utf8 ['"']) ∧
      ValueWriter.writeWithJsonEscape ⟨true, .little, true⟩ (.utf32 .little) [0x22, 0, 0, 0] =
        .ok (utf8 ['"']) ∧
      ¬TextFiltered ⟨true, .little, true⟩ 0 (.utf32 .little) [0x22, 0, 0, 0] := by
  have hplain : ValueWriter.writeWithNoFilter ⟨true, .little, true⟩ (.utf32 .little)
      [0x22, 0, 0, 0] = .ok (utf8 ['"']) := by decide +kernel
  have hescaped : ValueWriter.writeWithJsonEscape ⟨true, .little, true⟩ (.utf32 .little)
      [0x22, 0, 0, 0] = .ok (utf8 ['"']) := by decide +kernel
  refine ⟨hplain, hescaped, ?_⟩
  rintro ⟨text, htext, ⟨body, hbody, hdecodes⟩, _⟩
  obtain rfl := utf8_injective (Except.ok.inj (htext.symm.trans hplain))
  obtain rfl := utf8_injective (Except.ok.inj (hbody.symm.trans hescaped))
  exact (hdecodes.plain_of_self '"' List.mem_cons_self).2.1 rfl

end Tracepoints
