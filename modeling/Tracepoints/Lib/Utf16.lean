import Tracepoints.Lib.ByteOrder
import Tracepoints.Lib.Utf8

/-!
# UTF-16

The code units of a text (`utf16`), their bytes (`utf16Bytes`), the code units of some bytes
(`codeUnits`) and the lossy decoding of code units (`decodeUtf16`), in which a surrogate that is not
part of a pair stands for the replacement character. `decodeUtf16_codeUnits` says that decoding the
bytes of a text gives back the text.
-/

set_option autoImplicit false
set_option relaxedAutoImplicit false

namespace Tracepoints

/-! ### Encoding -/

/-- The code units of a character: its number, or a high and a low surrogate with ten bits each. -/
def utf16Units (c : Char) : List ℕ :=
  if c.toNat < 0x10000 then [c.toNat]
  else [0xD800 + (c.toNat - 0x10000) / 0x400, 0xDC00 + (c.toNat - 0x10000) % 0x400]

/-- The code units of a text. -/
def utf16 (chars : List Char) : List ℕ := chars.flatMap utf16Units

/-- The bytes of a text in UTF-16. -/
def utf16Bytes (order : ByteOrder) (chars : List Char) : List UInt8 :=
  (utf16 chars).flatMap (order.toBytes 2)

/-! ### Decoding -/

def IsHighSurrogate (unit : ℕ) : Prop := 0xD800 ≤ unit ∧ unit < 0xDC00

def IsLowSurrogate (unit : ℕ) : Prop := 0xDC00 ≤ unit ∧ unit < 0xE000

instance (unit : ℕ) : Decidable (IsHighSurrogate unit) := inferInstanceAs (Decidable (_ ∧ _))

instance (unit : ℕ) : Decidable (IsLowSurrogate unit) := inferInstanceAs (Decidable (_ ∧ _))

/-- The character of a code unit on its own. -/
def loneChar (unit : ℕ) : Char :=
  if IsHighSurrogate unit ∨ IsLowSurrogate unit then Char.ofNat 0xFFFD else Char.ofNat unit

/-- The character of a pair of surrogates. -/
def pairChar (high low : ℕ) : Char :=
  Char.ofNat (0x10000 + (high - 0xD800) * 0x400 + (low - 0xDC00))

/-- The lossy decoding of code units: a high surrogate and the low one behind it are a character, every
other code unit is one on its own. -/
def decodeUtf16 : List ℕ → List Char
  | [] => []
  | [unit] => [loneChar unit]
  | unit :: next :: rest =>
    if IsHighSurrogate unit ∧ IsLowSurrogate next then pairChar unit next :: decodeUtf16 rest
    else loneChar unit :: decodeUtf16 (next :: rest)

/-- The complete code units of some bytes. -/
def codeUnits (order : ByteOrder) : List UInt8 → List ℕ
  | first :: second :: rest => order.ofBytes [first, second] :: codeUnits order rest
  | _ => []

theorem codeUnits_of_le (order : ByteOrder) {bytes : List UInt8} (h : 2 ≤ bytes.length) :
    codeUnits order bytes = order.ofBytes (bytes.take 2) :: codeUnits order (bytes.drop 2) := by
  match bytes with
  | first :: second :: rest => rfl

theorem codeUnits_of_lt (order : ByteOrder) {bytes : List UInt8} (h : bytes.length < 2) :
    codeUnits order bytes = [] := by
  match bytes with
  | [] => rfl
  | [first] => rfl

theorem isValidChar_pair {high low : ℕ} (hhigh : IsHighSurrogate high) (hlow : IsLowSurrogate low) :
    (0x10000 + (high - 0xD800) * 0x400 + (low - 0xDC00)).isValidChar := by
  unfold IsHighSurrogate at hhigh
  unfold IsLowSurrogate at hlow
  exact Or.inr (by omega)

theorem isValidChar_lone {unit : ℕ} (hunit : unit < 0x10000)
    (h : ¬(IsHighSurrogate unit ∨ IsLowSurrogate unit)) : unit.isValidChar := by
  unfold IsHighSurrogate IsLowSurrogate at h
  unfold Nat.isValidChar
  omega

/-- A code unit that does not begin a pair is a character on its own. -/
theorem decodeUtf16_lone {unit : ℕ} {rest : List ℕ}
    (h : IsHighSurrogate unit → ∀ next ∈ rest.head?, ¬IsLowSurrogate next) :
    decodeUtf16 (unit :: rest) = loneChar unit :: decodeUtf16 rest := by
  cases rest with
  | nil => rfl
  | cons next rest =>
    rw [decodeUtf16, if_neg]
    rintro ⟨hhigh, hlow⟩
    exact h hhigh next rfl hlow

theorem decodeUtf16_pair {high low : ℕ} {rest : List ℕ} (hhigh : IsHighSurrogate high)
    (hlow : IsLowSurrogate low) :
    decodeUtf16 (high :: low :: rest) = pairChar high low :: decodeUtf16 rest := by
  rw [decodeUtf16, if_pos ⟨hhigh, hlow⟩]

/-! ### Decoding what is encoded -/

theorem not_surrogate_of_char (c : Char) :
    ¬(IsHighSurrogate c.toNat ∨ IsLowSurrogate c.toNat) := by
  have hvalid : c.toNat < 0xD800 ∨ 0xDFFF < c.toNat ∧ c.toNat < 0x110000 := c.valid
  unfold IsHighSurrogate IsLowSurrogate
  omega

theorem decodeUtf16_char (c : Char) (rest : List ℕ) :
    decodeUtf16 (utf16Units c ++ rest) = c :: decodeUtf16 rest := by
  have hmax := toNat_lt_of_char c
  have hsurrogate := not_surrogate_of_char c
  unfold utf16Units
  by_cases hsmall : c.toNat < 0x10000
  · rw [if_pos hsmall, List.singleton_append,
      decodeUtf16_lone fun hhigh ↦ absurd (Or.inl hhigh) hsurrogate]
    unfold loneChar
    rw [if_neg hsurrogate, Char.ofNat_toNat]
  · have hhigh : IsHighSurrogate (0xD800 + (c.toNat - 0x10000) / 0x400) := by
      unfold IsHighSurrogate
      omega
    have hlow : IsLowSurrogate (0xDC00 + (c.toNat - 0x10000) % 0x400) := by
      unfold IsLowSurrogate
      omega
    have hvalue : 0x10000 + (0xD800 + (c.toNat - 0x10000) / 0x400 - 0xD800) * 0x400 +
        (0xDC00 + (c.toNat - 0x10000) % 0x400 - 0xDC00) = c.toNat := by
      omega
    rw [if_neg hsmall, List.cons_append, List.singleton_append, decodeUtf16_pair hhigh hlow]
    unfold pairChar
    rw [hvalue, Char.ofNat_toNat]

theorem decodeUtf16_utf16 (chars : List Char) : decodeUtf16 (utf16 chars) = chars := by
  induction chars with
  | nil => rfl
  | cons c chars ih =>
    unfold utf16 at ih ⊢
    rw [List.flatMap_cons, decodeUtf16_char, ih]

theorem utf16_lt {chars : List Char} {unit : ℕ} (h : unit ∈ utf16 chars) : unit < 0x10000 := by
  obtain ⟨c, -, hunit⟩ := List.mem_flatMap.mp h
  have hmax := toNat_lt_of_char c
  unfold utf16Units at hunit
  split_ifs at hunit with hsmall
  · rw [List.mem_singleton.mp hunit]
    exact hsmall
  · rcases List.mem_cons.mp hunit with rfl | hunit
    · omega
    · rw [List.mem_singleton.mp hunit]
      omega

/-- Assumes: code units of 16 bits. -/
theorem codeUnits_flatMap (order : ByteOrder) {units : List ℕ} (h : ∀ unit ∈ units, unit < 0x10000) :
    codeUnits order (units.flatMap (order.toBytes 2)) = units := by
  induction units with
  | nil => rfl
  | cons unit units ih =>
    obtain ⟨hunit, hunits⟩ := List.forall_mem_cons.mp h
    have hlength := order.length_toBytes 2 unit
    rw [List.flatMap_cons, codeUnits_of_le order (by rw [List.length_append]; omega),
      List.take_left' hlength, List.drop_left' hlength, ih hunits,
      ByteOrder.ofBytes_toBytes (by norm_num; exact hunit)]

theorem decodeUtf16_codeUnits (order : ByteOrder) (chars : List Char) :
    decodeUtf16 (codeUnits order (utf16Bytes order chars)) = chars := by
  unfold utf16Bytes
  rw [codeUnits_flatMap order fun unit hunit ↦ utf16_lt hunit, decodeUtf16_utf16]

end Tracepoints
