import Tracepoints.Lib.JsonScalar
import Tracepoints.Text.ScalarText

/-!
# Values of fixed size as JSON

What the JSON functions of `ValueWriter` write is a scalar of JSON: `JsonLeaf.write_scalar`, for the
calls that `JsonLeaf.IsScalar` describes. `write_char32_with_json_escape` leaves a backslash as it is,
so that the call for this one character is not among them.

`PerfItemValue.rendersJson` is the result for the items of encodings `Value8` to `Value128`.
-/

set_option autoImplicit false
set_option relaxedAutoImplicit false

namespace Tracepoints

open Exec

/-! ### Numbers -/

theorem isDigits_decimal (value : ℕ) : IsDigits (decimal value) := by
  constructor
  · exact Text.decimal_ne_nil value
  · intro c hc
    have hdigits : ∀ c ∈ ascii "0123456789", (0x30 : UInt8) ≤ c ∧ c ≤ 0x39 := by decide
    exact hdigits c (ValueWriter.mem_decimal c hc)

/-- A positive number has no zero in front. -/
theorem head_toDigits {value : ℕ} (hpos : 0 < value) :
    (Nat.toDigits 10 value).head? ≠ some '0' := by
  induction value using Nat.strongRecOn with
  | ind value ih =>
    rw [Nat.toDigits_eq_if (by omega)]
    split
    · rename_i hsmall
      intro hzero
      have hchar : Nat.digitChar value = '0' := Option.some.inj hzero
      revert hpos hchar
      clear ih hzero
      revert value
      decide
    · rename_i hlarge
      have hhead := ih (value / 10) (by omega) (by omega)
      rw [List.head?_append_of_ne_nil _ Nat.toDigits_ne_nil]
      exact hhead

theorem isIntegerPart_decimal (value : ℕ) : IsIntegerPart (decimal value) := by
  refine ⟨isDigits_decimal value, fun hhead ↦ ?_⟩
  rcases Nat.eq_zero_or_pos value with rfl | hpos
  · rfl
  · refine absurd ?_ (head_toDigits hpos)
    unfold decimal at hhead
    rw [List.head?_map] at hhead
    obtain ⟨c, hc, hbyte⟩ := Option.map_eq_some_iff.mp hhead
    obtain ⟨digit, hdigit, rfl⟩ := ValueWriter.mem_toDigits (by omega) c (List.mem_of_mem_head? hc)
    rw [hc]
    congr 1
    revert hbyte
    clear hc hhead
    revert digit
    decide

theorem jsonNumber_decimal (value : ℕ) : JsonNumber (decimal value) :=
  .of_integer (.inl rfl) (isIntegerPart_decimal value)

theorem jsonNumber_displayInt (value : ℤ) : JsonNumber (displayInt value) := by
  unfold displayInt
  split
  · exact .of_integer (.inr rfl) (isIntegerPart_decimal _)
  · exact jsonNumber_decimal _

/-! ### Plain texts -/

/-- No byte of a text has to be escaped. -/
def IsPlainText (text : List UInt8) : Prop := ∀ c ∈ text, IsPlainAscii c

instance (text : List UInt8) : Decidable (IsPlainText text) :=
  inferInstanceAs (Decidable (∀ c ∈ text, IsPlainAscii c))

namespace IsPlainText

theorem append {first second : List UInt8} (h : IsPlainText first) (h' : IsPlainText second) :
    IsPlainText (first ++ second) :=
  List.forall_mem_append.mpr ⟨h, h'⟩

theorem of_subset {text bytes : List UInt8} (h : ∀ c ∈ text, c ∈ bytes)
    (hbytes : IsPlainText bytes) : IsPlainText text :=
  fun c hc ↦ hbytes c (h c hc)

theorem scalar {text : List UInt8} (h : IsPlainText text) : JsonScalar (quoted text) := .of_plain h

theorem decimal (value : ℕ) : IsPlainText (decimal value) :=
  of_subset ValueWriter.mem_decimal (by decide)

theorem displayInt (value : ℤ) : IsPlainText (displayInt value) := by
  unfold Tracepoints.displayInt
  split
  · exact append (by decide) (decimal _)
  · exact decimal _

theorem paddedDecimal (width value : ℕ) : IsPlainText (paddedDecimal width value) := by
  apply append
  · intro c hc
    rw [List.eq_of_mem_replicate hc]
    decide
  · exact decimal value

open ValueWriter

theorem writeHex (value : ℕ) : IsPlainText (writeHex value) := by
  refine append (by decide) fun c hc ↦ ?_
  obtain ⟨letter, hletter, rfl⟩ := List.mem_map.mp hc
  obtain ⟨digit, hdigit, rfl⟩ := mem_toDigits (by omega) letter hletter
  clear hc hletter
  revert digit
  decide

/-- Assumes: the digits below 16 need no escape. -/
theorem twoHexDigits {digit : ℕ → Char}
    (hdigit : ∀ value < 16, IsPlainAscii (UInt8.ofNat (digit value).toNat)) (byte : UInt8) :
    IsPlainText (twoHexDigits digit byte) := by
  have hlt := byte.toNat_lt
  refine List.forall_mem_cons.mpr ⟨hdigit _ (by omega), ?_⟩
  exact List.forall_mem_singleton.mpr (hdigit _ (by omega))

theorem writeHexbytes (bytes : List UInt8) : IsPlainText (writeHexbytes bytes) := by
  refine forall_mem_intercalate (by decide) fun part hpart ↦ ?_
  obtain ⟨byte, -, rfl⟩ := List.mem_map.mp hpart
  exact twoHexDigits (by decide) byte

theorem writeUuid (bytes : List UInt8) : IsPlainText (writeUuid bytes) := by
  have hdigits (bytes : List UInt8) :
      IsPlainText (bytes.flatMap (Tracepoints.twoHexDigits Nat.digitChar)) := by
    intro c hc
    obtain ⟨byte, -, hc⟩ := List.mem_flatMap.mp hc
    exact twoHexDigits (by decide) byte c hc
  have hdash : IsPlainText (ascii "-") := by decide
  exact ((((((((hdigits _).append hdash).append (hdigits _)).append hdash).append
    (hdigits _)).append hdash).append (hdigits _)).append hdash).append (hdigits _)

theorem writeIpv4 (bytes : List UInt8) : IsPlainText (writeIpv4 bytes) :=
  of_subset mem_writeIpv4 (by decide)

theorem writeIpv6 (platform : Platform) (bytes : List UInt8) :
    IsPlainText (writeIpv6 platform bytes) :=
  of_subset mem_writeIpv6 (by decide)

theorem dateText (time : DateTime) : IsPlainText (dateText time) := by
  have hdash : IsPlainText (ascii "-") := by decide
  have hcolon : IsPlainText (ascii ":") := by decide
  have hmark : IsPlainText (ascii "T") := by decide
  have hzone : IsPlainText (ascii "Z") := by decide
  unfold ValueWriter.dateText
  exact (((((((((((paddedDecimal _ _).append hdash).append (paddedDecimal _ _)).append hdash).append
    (paddedDecimal _ _)).append hmark).append (paddedDecimal _ _)).append hcolon).append
    (paddedDecimal _ _)).append hcolon).append (paddedDecimal _ _)).append hzone

/-- A number with a word in front, as in `TIME(1)`. -/
theorem call {word : List UInt8} (hword : IsPlainText word) (value : ℤ) :
    IsPlainText (word ++ Tracepoints.displayInt value ++ ascii ")") :=
  (hword.append (displayInt value)).append (by decide)

theorem errnoStrings : ∀ name ∈ errnoStrings, IsPlainText (ascii name) := by decide +kernel

end IsPlainText

/-! ### Leaves -/

/-- Finite floating-point numbers are written as numbers of JSON. -/
def Platform.FiniteFloats (platform : Platform) : Prop :=
  ∀ float ∈ [ValueWriter.f32, ValueWriter.f64], ∀ bits, float.isFinite bits = true → ∀ style,
    JsonNumber (platform.finiteFloat style float.width bits)

namespace ValueWriter

section Scalars

variable {platform : Platform} {options : PerfConvertOptions}

theorem writeJsonHex_scalar (value : ℕ) : JsonScalar (writeJsonHex options value) := by
  unfold writeJsonHex
  split
  · exact (IsPlainText.writeHex value).scalar
  · exact .number (jsonNumber_decimal value)

theorem writeJsonBool_scalar (value : ℕ) : JsonScalar (writeJsonBool options value) := by
  unfold writeJsonBool
  split_ifs
  · exact .false
  · exact .true
  · exact (IsPlainText.call (by decide) _).scalar
  · exact .number (jsonNumber_displayInt _)

theorem writeJsonErrno_scalar (value : ℕ) : JsonScalar (writeJsonErrno options value) := by
  unfold writeJsonErrno
  split
  · rename_i name hname
    split
    · exact (IsPlainText.errnoStrings name (List.mem_of_getElem? hname)).scalar
    · exact .number (jsonNumber_displayInt _)
  · split
    · exact (IsPlainText.call (by decide) _).scalar
    · exact .number (jsonNumber_displayInt _)

theorem writeJsonTime64_scalar (value : ℤ) :
    JsonScalar (writeJsonTime64 platform options value) := by
  unfold writeJsonTime64
  split
  · split
    · exact (IsPlainText.dateText _).scalar
    · exact .number (jsonNumber_displayInt _)
  · split
    · exact (IsPlainText.call (by decide) _).scalar
    · exact .number (jsonNumber_displayInt _)

theorem writeJsonFloat_scalar (hfloats : platform.FiniteFloats) {float : FloatType}
    (hfloat : float ∈ [f32, f64]) (bits : ℕ) :
    JsonScalar (writeJsonFloat platform options float bits) := by
  unfold writeJsonFloat writeFloat FloatType.format
  by_cases hfinite : float.isFinite bits = true
  · rw [if_pos hfinite, if_pos hfinite]
    exact .number (hfloats float hfloat bits hfinite _)
  · rw [if_neg hfinite]
    split
    · split_ifs <;> exact IsPlainText.scalar (by decide)
    · exact .null

/-- A character other than a backslash is a string that stands for it. -/
theorem writeChar32WithJsonEscape_decodes (build : Build) {value : ℕ} (hne : value ≠ 0x5C) :
    ∃ body, writeChar32WithJsonEscape build value = .ok (utf8 body) ∧
      JsonDecodes body [charFromU32 value] := by
  unfold writeChar32WithJsonEscape
  by_cases hge : 0x5C ≤ value
  · rw [if_pos hge]
    refine ⟨[charFromU32 value], rfl, .of_plain fun c hc ↦ ?_⟩
    rw [List.mem_singleton.mp hc, isPlainChar_charFromU32]
    omega
  · have hvalid : value.isValidChar := .inl (by omega)
    have hchar : charFromU32 value = Char.ofNat value := if_pos hvalid
    have hnat : (Char.ofNat value).toNat = value := toNat_ofNat_of_valid hvalid
    have hascii := (@jsonFilter_maps build _ (writeFilter_maps build) false).ascii
      (Char.ofNat value) (by omega)
    rw [hnat, jsonFilterChar_false] at hascii
    rw [if_neg hge, hchar]
    refine ⟨_, hascii, ?_⟩
    have hdecodes := jsonDecodes_jsonEscapeAll [Char.ofNat value]
    unfold jsonEscapeAll at hdecodes
    rwa [List.flatMap_singleton] at hdecodes

end Scalars

end ValueWriter

/-- The calls of the functions that write a scalar of JSON, but for a backslash as a character. -/
def JsonLeaf.IsScalar : JsonLeaf → Prop
  | .emptyStruct => False
  | .quotedText encoding _ => ∀ order, encoding ≠ .utf32 order
  | .quotedChar32 value => value ≠ 0x5C
  | _ => True

/-- A call writes a scalar of JSON. -/
theorem JsonLeaf.write_scalar {platform : Platform} (hfloats : platform.FiniteFloats) (build : Build)
    (options : PerfConvertOptions) {leaf : JsonLeaf} (hleaf : leaf.IsScalar) :
    ∃ text, leaf.write build platform options = .ok text ∧ JsonScalar text := by
  cases leaf with
  | null => exact ⟨_, rfl, .null⟩
  | emptyStruct => exact hleaf.elim
  | display value => exact ⟨_, rfl, .number (jsonNumber_displayInt value)⟩
  | jsonHex32 value => exact ⟨_, rfl, ValueWriter.writeJsonHex_scalar value⟩
  | jsonHex64 value => exact ⟨_, rfl, ValueWriter.writeJsonHex_scalar value⟩
  | jsonBool value => exact ⟨_, rfl, ValueWriter.writeJsonBool_scalar value⟩
  | jsonErrno value => exact ⟨_, rfl, ValueWriter.writeJsonErrno_scalar value⟩
  | jsonTime64 value => exact ⟨_, rfl, ValueWriter.writeJsonTime64_scalar value⟩
  | jsonFloat32 bits =>
    exact ⟨_, rfl, ValueWriter.writeJsonFloat_scalar hfloats List.mem_cons_self bits⟩
  | jsonFloat64 bits =>
    exact ⟨_, rfl, ValueWriter.writeJsonFloat_scalar hfloats
      (List.mem_cons_of_mem _ List.mem_cons_self) bits⟩
  | quotedHex32 value => exact ⟨_, rfl, (IsPlainText.writeHex value).scalar⟩
  | quotedHexbytes bytes => exact ⟨_, rfl, (IsPlainText.writeHexbytes bytes).scalar⟩
  | quotedText encoding bytes =>
    obtain ⟨text, -, ⟨body, hbody, hdecodes⟩, -⟩ := textFiltered_of_ne hleaf build options bytes
    refine ⟨jsonString body, ?_, .string hdecodes⟩
    rw [JsonLeaf.write, hbody]
    rfl
  | quotedChar32 value =>
    obtain ⟨body, hbody, hdecodes⟩ := ValueWriter.writeChar32WithJsonEscape_decodes build hleaf
    refine ⟨jsonString body, ?_, .string hdecodes⟩
    rw [JsonLeaf.write, hbody]
    rfl
  | quotedUuid bytes => exact ⟨_, rfl, (IsPlainText.writeUuid bytes).scalar⟩
  | quotedIpv4 bytes => exact ⟨_, rfl, (IsPlainText.writeIpv4 bytes).scalar⟩
  | quotedIpv6 bytes => exact ⟨_, rfl, (IsPlainText.writeIpv6 platform bytes).scalar⟩
  | quotedEncoding encoding =>
    have hname : IsPlainText (ascii "Encoding[") := by decide
    exact ⟨_, rfl, ((hname.append (.decimal _)).append (by decide)).scalar⟩

/-! ### Items -/

namespace PerfItemValue

/-- The format of a value of fixed size is one of characters: `String8` goes with `Value8`, and
`StringUtf` with `Value16` and `Value32`. -/
def IsCharacter (value : PerfItemValue) : Prop :=
  value.bytes.length = 1 ∧ value.metadata.format = FieldFormat.string8 ∨
    (value.bytes.length = 2 ∨ value.bytes.length = 4) ∧
      value.metadata.format = FieldFormat.stringUtf

/-- A backslash of two or four bytes. -/
def IsWideBackslash (value : PerfItemValue) : Prop :=
  (value.bytes.length = 2 ∨ value.bytes.length = 4) ∧
    value.metadata.format = FieldFormat.stringUtf ∧
    value.metadata.byteReader.ofBytes value.bytes = 0x5C

/-- The call for a character. -/
inductive CharacterLeaf (value : PerfItemValue) : JsonLeaf → Prop
  | byte (hsize : value.bytes.length = 1) : CharacterLeaf value (.quotedText .latin1 value.bytes)
  | wide : CharacterLeaf value (.quotedChar32 (value.metadata.byteReader.ofBytes value.bytes))

section Fixed

variable {build : Build} {value : PerfItemValue}

theorem value8_scalar (hsize : value.bytes.length = 1) :
    ∃ leaf, value.writeJsonValue8To build 0 = .ok leaf ∧ leaf.IsScalar ∧
      (value.IsCharacter → CharacterLeaf value leaf) := by
  unfold writeJsonValue8To
  rw [element_zero Nat.one_pos hsize, ok_bind]
  refine ⟨_, rfl, ?_, ?_⟩
  · split_ifs <;> first | trivial | exact fun order h ↦ nomatch h
  · rintro (⟨-, hformat⟩ | ⟨hwide, -⟩)
    · rw [hformat]
      exact .byte hsize
    · omega

theorem value16_scalar (hsize : value.bytes.length = 2) (hbackslash : ¬value.IsWideBackslash) :
    ∃ leaf, value.writeJsonValue16To build 0 = .ok leaf ∧ leaf.IsScalar ∧
      (value.IsCharacter → CharacterLeaf value leaf) := by
  unfold writeJsonValue16To
  rw [element_zero Nat.two_pos hsize, ok_bind]
  refine ⟨_, rfl, ?_, ?_⟩
  · split_ifs with _ _ _ _ hformat
    any_goals trivial
    exact fun hvalue ↦ hbackslash ⟨.inl hsize, hformat, hvalue⟩
  · rintro (⟨hone, -⟩ | ⟨-, hformat⟩)
    · omega
    · rw [hformat]
      exact .wide

theorem value32_scalar (hsize : value.bytes.length = 4) (hbackslash : ¬value.IsWideBackslash) :
    ∃ leaf, value.writeJsonValue32To build 0 = .ok leaf ∧ leaf.IsScalar ∧
      (value.IsCharacter → CharacterLeaf value leaf) := by
  unfold writeJsonValue32To
  rw [element_zero (Nat.succ_pos 3) hsize, ok_bind]
  refine ⟨_, rfl, ?_, ?_⟩
  · split_ifs with _ _ _ _ _ _ _ hformat
    any_goals trivial
    exact fun hvalue ↦ hbackslash ⟨.inr hsize, hformat, hvalue⟩
  · rintro (⟨hone, -⟩ | ⟨-, hformat⟩)
    · omega
    · rw [hformat]
      exact .wide

theorem not_isCharacter (hsize : 4 < value.bytes.length) : ¬value.IsCharacter := by
  rintro (⟨hone, -⟩ | ⟨hwide, -⟩) <;> omega

theorem value64_scalar (hsize : value.bytes.length = 8) :
    ∃ leaf, value.writeJsonValue64To build 0 = .ok leaf ∧ leaf.IsScalar ∧
      (value.IsCharacter → CharacterLeaf value leaf) := by
  unfold writeJsonValue64To
  rw [element_zero (Nat.succ_pos 7) hsize, ok_bind]
  refine ⟨_, rfl, ?_, fun hchar ↦ absurd hchar (not_isCharacter (by omega))⟩
  split_ifs <;> trivial

theorem value128_scalar (hsize : value.bytes.length = 16) :
    ∃ leaf, value.writeJsonValue128To build 0 = .ok leaf ∧ leaf.IsScalar ∧
      (value.IsCharacter → CharacterLeaf value leaf) := by
  unfold writeJsonValue128To
  rw [element_zero (Nat.succ_pos 15) hsize, ok_bind]
  refine ⟨_, rfl, ?_, fun hchar ↦ absurd hchar (not_isCharacter (by omega))⟩
  split_ifs <;> trivial

/-- The call for an item of fixed size. -/
theorem fixed_scalar (htypeSize : value.metadata.typeSize ≤ value.bytes.length)
    (hsize : value.bytes.length ∈ [1, 2, 4, 8, 16])
    (hencoding : value.metadata.encoding = plainEncoding value.bytes.length)
    (hbackslash : ¬value.IsWideBackslash) :
    ∃ leaf, value.writeJsonScalarTo build = .ok leaf ∧ leaf.IsScalar ∧
      (value.IsCharacter → CharacterLeaf value leaf) := by
  obtain ⟨hone, htwo, hfour, height, hsixteen⟩ :=
    @IsPlainOf.leaves build value value ⟨rfl, rfl, rfl, hencoding, htypeSize⟩
  simp only [List.mem_cons, List.not_mem_nil, or_false] at hsize
  rcases hsize with hsize | hsize | hsize | hsize | hsize
  · rw [(hone hsize).2]
    exact value8_scalar hsize
  · rw [(htwo hsize).2]
    exact value16_scalar hsize hbackslash
  · rw [(hfour hsize).2]
    exact value32_scalar hsize hbackslash
  · rw [(height hsize).2]
    exact value64_scalar hsize
  · rw [(hsixteen hsize).2]
    exact value128_scalar hsize

/-- The call for a format of characters that does not go with the size: the one of the default
format. -/
theorem unmatched_leaf (htypeSize : value.metadata.typeSize ≤ value.bytes.length)
    (hsize : value.bytes.length ∈ [1, 2, 4, 8, 16])
    (hencoding : value.metadata.encoding = plainEncoding value.bytes.length)
    (hformat : value.metadata.format = FieldFormat.string8 ∨
      value.metadata.format = FieldFormat.stringUtf)
    (hchar : ¬value.IsCharacter) :
    value.writeJsonScalarTo build = .ok (if value.bytes.length = 16 then .quotedHexbytes value.bytes
      else .display ((value.metadata.byteReader.ofBytes value.bytes : ℕ) : ℤ)) := by
  obtain ⟨hone, htwo, hfour, height, hsixteen⟩ :=
    @IsPlainOf.leaves build value value ⟨rfl, rfl, rfl, hencoding, htypeSize⟩
  simp only [List.mem_cons, List.not_mem_nil, or_false] at hsize
  rcases hsize with hsize | hsize | hsize | hsize | hsize
  · rw [(hone hsize).2, writeJsonValue8To, element_zero Nat.one_pos hsize, ok_bind, hsize]
    rcases hformat with hformat | hformat
    · exact absurd (.inl ⟨hsize, hformat⟩) hchar
    · rw [hformat]
      rfl
  · rw [(htwo hsize).2, writeJsonValue16To, element_zero Nat.two_pos hsize, ok_bind, hsize]
    rcases hformat with hformat | hformat
    · rw [hformat]
      rfl
    · exact absurd (.inr ⟨.inl hsize, hformat⟩) hchar
  · rw [(hfour hsize).2, writeJsonValue32To, element_zero (Nat.succ_pos 3) hsize, ok_bind, hsize]
    rcases hformat with hformat | hformat
    · rw [hformat]
      rfl
    · exact absurd (.inr ⟨.inr hsize, hformat⟩) hchar
  · rw [(height hsize).2, writeJsonValue64To, element_zero (Nat.succ_pos 7) hsize, ok_bind, hsize]
    rcases hformat with hformat | hformat <;> rw [hformat] <;> rfl
  · rw [(hsixteen hsize).2, writeJsonValue128To, element_zero (Nat.succ_pos 15) hsize, ok_bind, hsize]
    rcases hformat with hformat | hformat <;> rw [hformat] <;> rfl

/-- A character of one byte is a string that stands for it. -/
theorem writeLatin1_decodes (byte : UInt8) :
    ∃ body, ValueWriter.writeWithJsonEscape build .latin1 [byte] = .ok (utf8 body) ∧
      JsonDecodes body [charFromU32 byte.toNat] := by
  have hlt := byte.toNat_lt
  have hchar : charFromU32 byte.toNat = Char.ofNat byte.toNat := if_pos (.inl (by omega))
  have hescaped := writeLatin1To_eq (@jsonFilter_maps build _ (writeFilter_maps build) false)
    (fun c ↦ jsonFilterChar_of_le false) [byte]
  rw [funext jsonFilterChar_false] at hescaped
  rw [hchar]
  exact ⟨_, hescaped, jsonDecodes_jsonEscapeAll _⟩

/-- The call for a character writes a string that stands for it. -/
theorem CharacterLeaf.decodes {leaf : JsonLeaf} (h : CharacterLeaf value leaf)
    (hleaf : leaf.IsScalar) (platform : Platform) (options : PerfConvertOptions) :
    ∃ body, leaf.write build platform options = .ok (jsonString body) ∧
      JsonDecodes body [charFromU32 (value.metadata.byteReader.ofBytes value.bytes)] := by
  cases h with
  | byte hsize =>
    obtain ⟨byte, hbyte⟩ := List.length_eq_one_iff.mp hsize
    obtain ⟨body, hbody, hdecodes⟩ := @writeLatin1_decodes build byte
    refine ⟨body, ?_, ?_⟩
    · rw [JsonLeaf.write, hbyte, hbody]
      rfl
    · rw [hbyte, ByteOrder.ofBytes_singleton]
      exact hdecodes
  | wide =>
    obtain ⟨body, hbody, hdecodes⟩ := ValueWriter.writeChar32WithJsonEscape_decodes build hleaf
    refine ⟨body, ?_, hdecodes⟩
    rw [JsonLeaf.write, hbody]
    rfl

end Fixed

/-- An item of fixed size is written as one scalar of JSON: a character as the string that stands for
it, and a format of characters that does not go with the size as the number, or as the hex bytes of
sixteen bytes. What a backslash of two or four bytes is written as is left open. -/
theorem rendersJson (build : Build) (platform : Platform) (options : PerfConvertOptions)
    (value : PerfItemValue) (hfloats : platform.FiniteFloats)
    (htypeSize : value.metadata.typeSize ≤ value.bytes.length)
    (hsize : value.bytes.length ∈ [1, 2, 4, 8, 16])
    (hencoding : value.metadata.encoding = plainEncoding value.bytes.length)
    (hbackslash : ¬value.IsWideBackslash) :
    (∃ text, value.jsonScalarText build platform options = .ok text ∧ JsonScalar text) ∧
      (value.IsCharacter → ∃ body,
        value.jsonScalarText build platform options = .ok (jsonString body) ∧
          JsonDecodes body [charFromU32 (value.metadata.byteReader.ofBytes value.bytes)]) ∧
      (value.metadata.format = FieldFormat.string8 ∨
          value.metadata.format = FieldFormat.stringUtf → ¬value.IsCharacter →
        value.jsonScalarText build platform options =
          .ok (if value.bytes.length = 16 then quoted (ValueWriter.writeHexbytes value.bytes)
            else decimal (value.metadata.byteReader.ofBytes value.bytes))) := by
  obtain ⟨leaf, hleaf, hscalar, hcharacter⟩ :=
    @fixed_scalar build value htypeSize hsize hencoding hbackslash
  have htext : value.jsonScalarText build platform options = leaf.write build platform options := by
    unfold jsonScalarText
    rw [hleaf, ok_bind]
  refine ⟨?_, fun hchar ↦ ?_, fun hformat hchar ↦ ?_⟩
  · rw [htext]
    exact leaf.write_scalar hfloats build options hscalar
  · rw [htext]
    exact (hcharacter hchar).decodes hscalar platform options
  · unfold jsonScalarText
    rw [unmatched_leaf htypeSize hsize hencoding hformat hchar, ok_bind]
    split
    · rfl
    · exact congrArg Except.ok (if_neg (Int.natCast_nonneg _).not_gt)

/-- A value of one byte in a format. -/
def letterA (format : FieldFormat) : PerfItemValue :=
  ⟨[0x41], ⟨1, 0, 1, FieldEncoding.value8, format, .little⟩⟩

theorem zeroPlatform_finiteFloats : zeroPlatform.FiniteFloats :=
  fun _ _ _ _ _ ↦ jsonNumber_decimal 0

theorem letterA_rendersJson : ∃ body,
    (letterA FieldFormat.string8).jsonScalarText ⟨true, .little, true⟩ zeroPlatform 0 =
        .ok (jsonString body) ∧ JsonDecodes body ['A'] := by
  refine (rendersJson ⟨true, .little, true⟩ zeroPlatform 0 (letterA FieldFormat.string8)
    zeroPlatform_finiteFloats le_rfl (by decide) rfl ?_).2.1 (.inl ⟨rfl, rfl⟩)
  rintro ⟨hsize | hsize, -⟩ <;> exact absurd hsize (by decide)

/-- `StringUtf` does not go with `Value8`: the letter is written as the number `65`. -/
theorem letterA_not_string : ¬∃ body,
    (letterA FieldFormat.stringUtf).jsonScalarText ⟨true, .little, true⟩ zeroPlatform 0 =
        .ok (jsonString body) ∧ JsonDecodes body ['A'] := by
  rintro ⟨body, htext, -⟩
  have hnumber : (letterA FieldFormat.stringUtf).jsonScalarText ⟨true, .little, true⟩ zeroPlatform 0 =
      .ok [0x36, 0x35] := by decide
  rw [hnumber] at htext
  exact absurd (List.cons.inj (Except.ok.inj htext)).1 (by decide)

end PerfItemValue

end Tracepoints
