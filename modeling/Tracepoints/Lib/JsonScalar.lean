import Tracepoints.Lib.JsonString

/-!
# The scalars of JSON

`JsonNumber` and `JsonScalar` say which texts are numbers and scalars of JSON: a number has an optional
sign, an integer without leading zeros, an optional fraction and an optional exponent; a scalar is a
number, a string, `true`, `false` or `null`.

`JsonScalar.of_plain` says that bytes that need no escape are a string between quotation marks.
-/

set_option autoImplicit false
set_option relaxedAutoImplicit false

namespace Tracepoints

/-- One or more digits. -/
def IsDigits (text : List UInt8) : Prop := text ≠ [] ∧ ∀ c ∈ text, 0x30 ≤ c ∧ c ≤ 0x39

/-- The integer of a number: digits with no zero in front of others. -/
def IsIntegerPart (text : List UInt8) : Prop :=
  IsDigits text ∧ (text.head? = some 0x30 → text = [0x30])

/-- The fraction of a number. -/
inductive FractionPart : List UInt8 → Prop
  | absent : FractionPart []
  | point {digits : List UInt8} (hdigits : IsDigits digits) : FractionPart (0x2E :: digits)

/-- The exponent of a number. -/
inductive ExponentPart : List UInt8 → Prop
  | absent : ExponentPart []
  | mark {letter : UInt8} {sign digits : List UInt8} (hletter : letter = 0x65 ∨ letter = 0x45)
      (hsign : sign = [] ∨ sign = [0x2B] ∨ sign = [0x2D]) (hdigits : IsDigits digits) :
      ExponentPart (letter :: (sign ++ digits))

/-- The numbers of JSON. -/
inductive JsonNumber : List UInt8 → Prop
  | mk {sign integer fraction exponent : List UInt8} (hsign : sign = [] ∨ sign = [0x2D])
      (hinteger : IsIntegerPart integer) (hfraction : FractionPart fraction)
      (hexponent : ExponentPart exponent) :
      JsonNumber (sign ++ integer ++ fraction ++ exponent)

/-- The string of JSON with a body. -/
def jsonString (body : List Char) : List UInt8 := 0x22 :: (utf8 body ++ [0x22])

/-- The scalars of JSON. -/
inductive JsonScalar : List UInt8 → Prop
  | null : JsonScalar (utf8 ['n', 'u', 'l', 'l'])
  | true : JsonScalar (utf8 ['t', 'r', 'u', 'e'])
  | false : JsonScalar (utf8 ['f', 'a', 'l', 's', 'e'])
  | number {text : List UInt8} (hnumber : JsonNumber text) : JsonScalar text
  | string {body text : List Char} (hbody : JsonDecodes body text) : JsonScalar (jsonString body)

/-- An integer without a fraction and an exponent. -/
theorem JsonNumber.of_integer {sign integer : List UInt8} (hsign : sign = [] ∨ sign = [0x2D])
    (hinteger : IsIntegerPart integer) : JsonNumber (sign ++ integer) := by
  have hnumber := JsonNumber.mk hsign hinteger .absent .absent
  rwa [List.append_nil, List.append_nil] at hnumber

/-- An ASCII byte that stands for itself in a JSON string. -/
def IsPlainAscii (c : UInt8) : Prop := IsPlain c ∧ c.toNat < 0x80

instance (c : UInt8) : Decidable (IsPlainAscii c) := inferInstanceAs (Decidable (_ ∧ _))

theorem IsPlainAscii.char {c : UInt8} (h : IsPlainAscii c) : IsPlainChar (Char.ofNat c.toNat) := by
  obtain ⟨⟨hcontrol, hquote, hbackslash⟩, hascii⟩ := h
  have hnat : (Char.ofNat c.toNat).toNat = c.toNat := toNat_ofNat_of_valid (.inl (by omega))
  refine ⟨?_, ?_, ?_⟩
  · rw [hnat]
    exact UInt8.le_iff_toNat_le.mp hcontrol
  · intro heq
    rw [heq] at hnat
    exact hquote (UInt8.toNat_inj.mp hnat.symm)
  · intro heq
    rw [heq] at hnat
    exact hbackslash (UInt8.toNat_inj.mp hnat.symm)

/-- Bytes that need no escape are a string between quotation marks. -/
theorem JsonScalar.of_plain {bytes : List UInt8} (h : ∀ c ∈ bytes, IsPlainAscii c) :
    JsonScalar (0x22 :: (bytes ++ [0x22])) := by
  have hutf8 := eq_utf8_of_ascii fun c hc ↦ (h c hc).2
  have hplain : ∀ c ∈ bytes.map fun c ↦ Char.ofNat c.toNat, IsPlainChar c := by
    intro c hc
    obtain ⟨byte, hbyte, rfl⟩ := List.mem_map.mp hc
    exact (h byte hbyte).char
  have hstring := JsonScalar.string (JsonDecodes.of_plain hplain)
  unfold jsonString at hstring
  rwa [← hutf8] at hstring

end Tracepoints
