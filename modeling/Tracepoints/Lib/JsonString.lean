import Tracepoints.Lib.JsonText
import Tracepoints.Lib.Utf8

/-!
# The strings of JSON

`JsonDecodes body text` says that the characters `body` between the quotation marks of a JSON string
stand for the characters `text`. It follows the grammar of JSON strings: characters that need no escape
stand for themselves, two-character escapes and `\u` escapes for a character, and a pair of `\u`
escapes with the surrogates of a character for that character.

`JsonDecodes.unique` says that a body has one text. `jsonEscape` is the escape sequence of a character.
`JsonDecodes.plain_of_self` says that only a text without characters to escape is its own body.
-/

set_option autoImplicit false
set_option relaxedAutoImplicit false

namespace Tracepoints

open String (utf8EncodeChar)

/-- A character that stands for itself in a JSON string. -/
def IsPlainChar (c : Char) : Prop := 0x20 ≤ c.toNat ∧ c ≠ '"' ∧ c ≠ '\\'

instance (c : Char) : Decidable (IsPlainChar c) := inferInstanceAs (Decidable (_ ∧ _))

/-- The character that a mark behind a backslash stands for. -/
def shortEscape (mark : Char) : Option Char :=
  if mark = '"' ∨ mark = '\\' ∨ mark = '/' then some mark
  else if mark = 'b' then some (Char.ofNat 0x08)
  else if mark = 'f' then some (Char.ofNat 0x0C)
  else if mark = 'n' then some '\n'
  else if mark = 'r' then some '\r'
  else if mark = 't' then some '\t'
  else none

/-- The value of a digit in base 16. -/
def hexDigitValue (c : Char) : Option ℕ :=
  if '0' ≤ c ∧ c ≤ '9' then some (c.toNat - 0x30)
  else if 'A' ≤ c ∧ c ≤ 'F' then some (c.toNat - 0x37)
  else if 'a' ≤ c ∧ c ≤ 'f' then some (c.toNat - 0x57)
  else none

/-- The value of four digits in base 16. -/
def hexValue (first second third fourth : Char) : Option ℕ := do
  let a ← hexDigitValue first
  let b ← hexDigitValue second
  let c ← hexDigitValue third
  let d ← hexDigitValue fourth
  some (a * 4096 + b * 256 + c * 16 + d)

/-- The characters between the quotation marks of a JSON string, and those they stand for. -/
inductive JsonDecodes : List Char → List Char → Prop
  | nil : JsonDecodes [] []
  | char {c : Char} {body text : List Char} (hplain : IsPlainChar c) (hrest : JsonDecodes body text) :
      JsonDecodes (c :: body) (c :: text)
  | escape {mark c : Char} {body text : List Char} (hescape : shortEscape mark = some c)
      (hrest : JsonDecodes body text) : JsonDecodes ('\\' :: mark :: body) (c :: text)
  | unicode {first second third fourth : Char} {value : ℕ} {body text : List Char}
      (hdigits : hexValue first second third fourth = some value)
      (hvalue : value < 0xD800 ∨ 0xE000 ≤ value) (hrest : JsonDecodes body text) :
      JsonDecodes ('\\' :: 'u' :: first :: second :: third :: fourth :: body)
        (Char.ofNat value :: text)
  | pair {first second third fourth fifth sixth seventh eighth : Char} {high low : ℕ}
      {body text : List Char} (hhighDigits : hexValue first second third fourth = some high)
      (hhigh : 0xD800 ≤ high ∧ high < 0xDC00)
      (hlowDigits : hexValue fifth sixth seventh eighth = some low)
      (hlow : 0xDC00 ≤ low ∧ low < 0xE000) (hrest : JsonDecodes body text) :
      JsonDecodes ('\\' :: 'u' :: first :: second :: third :: fourth ::
          '\\' :: 'u' :: fifth :: sixth :: seventh :: eighth :: body)
        (Char.ofNat (0x10000 + (high - 0xD800) * 0x400 + (low - 0xDC00)) :: text)

namespace JsonDecodes

theorem append {first second text text' : List Char} (h : JsonDecodes first text)
    (h' : JsonDecodes second text') : JsonDecodes (first ++ second) (text ++ text') := by
  induction h with
  | nil => exact h'
  | char hplain _ ih => exact .char hplain ih
  | escape hescape _ ih => exact .escape hescape ih
  | unicode hdigits hvalue _ ih => exact .unicode hdigits hvalue ih
  | pair hhighDigits hhigh hlowDigits hlow _ ih =>
    exact .pair hhighDigits hhigh hlowDigits hlow ih

theorem of_plain {text : List Char} (h : ∀ c ∈ text, IsPlainChar c) : JsonDecodes text text := by
  induction text with
  | nil => exact .nil
  | cons c text ih =>
    exact .char (h c List.mem_cons_self) (ih fun other hother ↦ h other (List.mem_cons_of_mem _ hother))

/-- A body is at least as long as its text. -/
theorem length_le {body text : List Char} (h : JsonDecodes body text) :
    text.length ≤ body.length := by
  induction h with
  | nil => exact le_rfl
  | char _ _ ih => exact Nat.succ_le_succ ih
  | escape _ _ ih =>
    simp only [List.length_cons]
    omega
  | unicode _ _ _ ih =>
    simp only [List.length_cons]
    omega
  | pair _ _ _ _ _ ih =>
    simp only [List.length_cons]
    omega

/-- A body as long as its text has no escapes. -/
theorem plain_of_length {body text : List Char} (h : JsonDecodes body text)
    (hlength : text.length = body.length) : ∀ c ∈ body, IsPlainChar c := by
  induction h with
  | nil => exact fun c hc ↦ nomatch hc
  | char hplain _ ih =>
    have hrest := ih (Nat.succ.inj hlength)
    exact List.forall_mem_cons.mpr ⟨hplain, hrest⟩
  | escape _ hrest =>
    have hle := hrest.length_le
    simp only [List.length_cons] at hlength
    omega
  | unicode _ _ hrest =>
    have hle := hrest.length_le
    simp only [List.length_cons] at hlength
    omega
  | pair _ _ _ _ hrest =>
    have hle := hrest.length_le
    simp only [List.length_cons] at hlength
    omega

/-- A text is its own body only where no character of it has to be escaped. -/
theorem plain_of_self {text : List Char} (h : JsonDecodes text text) :
    ∀ c ∈ text, IsPlainChar c :=
  h.plain_of_length rfl

/-- A body stands for one text. -/
theorem unique {body text other : List Char} (h : JsonDecodes body text)
    (hother : JsonDecodes body other) : other = text := by
  have hbackslash : ¬IsPlainChar '\\' := by decide
  have hmark (c : Char) : shortEscape 'u' ≠ some c := fun h ↦ nomatch h
  induction h generalizing other with
  | nil =>
    cases hother
    rfl
  | char hchar _ ih =>
    cases hother with
    | char _ hrest => rw [ih hrest]
    | escape => exact absurd hchar hbackslash
    | unicode => exact absurd hchar hbackslash
    | pair => exact absurd hchar hbackslash
  | escape hescape _ ih =>
    cases hother with
    | char hchar => exact absurd hchar hbackslash
    | escape hescape' hrest =>
      rw [hescape] at hescape'
      rw [ih hrest, Option.some.inj hescape']
    | unicode => exact absurd hescape (hmark _)
    | pair => exact absurd hescape (hmark _)
  | unicode hdigits hvalue _ ih =>
    cases hother with
    | char hchar => exact absurd hchar hbackslash
    | escape hescape => exact absurd hescape (hmark _)
    | unicode hdigits' _ hrest =>
      rw [hdigits] at hdigits'
      rw [ih hrest, Option.some.inj hdigits']
    | pair hdigits' hhigh =>
      rw [hdigits] at hdigits'
      obtain rfl := Option.some.inj hdigits'
      omega
  | pair hhighDigits hhigh hlowDigits _ _ ih =>
    cases hother with
    | char hchar => exact absurd hchar hbackslash
    | escape hescape => exact absurd hescape (hmark _)
    | unicode hdigits hvalue =>
      rw [hhighDigits] at hdigits
      obtain rfl := Option.some.inj hdigits
      omega
    | pair hhighDigits' _ hlowDigits' _ hrest =>
      rw [hhighDigits] at hhighDigits'
      rw [hlowDigits] at hlowDigits'
      rw [ih hrest, Option.some.inj hhighDigits', Option.some.inj hlowDigits']

end JsonDecodes

/-! ### Escape sequences -/

/-- A digit in base 16. -/
def upperHexDigit (value : ℕ) : Char :=
  Char.ofNat (if value ≤ 9 then 0x30 + value else 0x41 + value - 10)

/-- The escape sequence of a quotation mark, a backslash or a control character. -/
def jsonEscape (c : Char) : List Char :=
  if c = '"' then ['\\', '"']
  else if c = '\\' then ['\\', '\\']
  else if c.toNat = 0x08 then ['\\', 'b']
  else if c.toNat = 0x0C then ['\\', 'f']
  else if c.toNat = 0x0A then ['\\', 'n']
  else if c.toNat = 0x0D then ['\\', 'r']
  else if c.toNat = 0x09 then ['\\', 't']
  else ['\\', 'u', '0', '0', upperHexDigit (c.toNat / 16), upperHexDigit (c.toNat % 16)]

theorem hexValue_control {value : ℕ} (h : value < 0x20) :
    hexValue '0' '0' (upperHexDigit (value / 16)) (upperHexDigit (value % 16)) = some value := by
  revert h value
  decide

theorem char_eq_of_toNat {c : Char} {value : ℕ} (h : c.toNat = value) : c = Char.ofNat value := by
  rw [← h, Char.ofNat_toNat]

/-- An escape sequence stands for its character. -/
theorem jsonDecodes_jsonEscape {c : Char} (h : ¬IsPlainChar c) : JsonDecodes (jsonEscape c) [c] := by
  unfold jsonEscape
  by_cases hquote : c = '"'
  · rw [if_pos hquote, hquote]
    exact .escape rfl .nil
  by_cases hbackslash : c = '\\'
  · rw [if_neg hquote, if_pos hbackslash, hbackslash]
    exact .escape rfl .nil
  have hcontrol : c.toNat < 0x20 := by
    by_contra hge
    exact h ⟨Nat.le_of_not_lt hge, hquote, hbackslash⟩
  rw [if_neg hquote, if_neg hbackslash]
  split_ifs with hb hf hn hr ht
  · rw [char_eq_of_toNat hb]
    exact .escape rfl .nil
  · rw [char_eq_of_toNat hf]
    exact .escape rfl .nil
  · rw [char_eq_of_toNat hn]
    exact .escape rfl .nil
  · rw [char_eq_of_toNat hr]
    exact .escape rfl .nil
  · rw [char_eq_of_toNat ht]
    exact .escape rfl .nil
  · have hunicode := JsonDecodes.unicode (hexValue_control hcontrol) (Or.inl (by omega)) .nil
    rw [Char.ofNat_toNat] at hunicode
    exact hunicode

/-- The body of a string whose characters are escaped where they have to be. -/
def jsonEscapeAll (text : List Char) : List Char :=
  text.flatMap fun c ↦ if IsPlainChar c then [c] else jsonEscape c

theorem jsonDecodes_jsonEscapeAll (text : List Char) : JsonDecodes (jsonEscapeAll text) text := by
  induction text with
  | nil => exact .nil
  | cons c text ih =>
    unfold jsonEscapeAll
    rw [List.flatMap_cons]
    by_cases hplain : IsPlainChar c
    · rw [if_pos hplain]
      exact .char hplain ih
    · rw [if_neg hplain]
      exact (jsonDecodes_jsonEscape hplain).append ih

/-! ### The bytes of a string -/

theorem isPlain_of_mem {c : Char} (h : IsPlainChar c) {byte : UInt8} (hbyte : byte ∈ utf8EncodeChar c) :
    IsPlain byte := by
  by_cases hascii : c.toNat < 0x80
  · rw [utf8EncodeChar_ascii hascii, List.mem_singleton] at hbyte
    have hvalue : byte.toNat = c.toNat := by
      rw [hbyte]
      exact Nat.mod_eq_of_lt (by omega)
    refine ⟨?_, ?_, ?_⟩
    · rw [UInt8.le_iff_toNat_le, hvalue]
      exact h.1
    · rintro rfl
      exact h.2.1 (char_eq_of_toNat hvalue.symm)
    · rintro rfl
      exact h.2.2 (char_eq_of_toNat hvalue.symm)
  · have hge := le_of_mem_utf8EncodeChar (Nat.le_of_not_lt hascii) hbyte
    refine ⟨?_, ?_, ?_⟩
    · rw [UInt8.le_iff_toNat_le]
      exact le_trans (by decide) hge
    · rintro rfl
      exact absurd hge (by decide)
    · rintro rfl
      exact absurd hge (by decide)

end Tracepoints
