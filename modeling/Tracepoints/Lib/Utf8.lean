import Mathlib.Data.List.Basic
import Mathlib.Data.Char

/-!
# UTF-8

The UTF-8 text of a list of characters (`utf8`), over the encoding of one character from the standard
library. A Lean character is a Unicode scalar value, so the well-formed sequences of UTF-8 are the
encodings of characters: there are no overlong ones, no surrogates and none above U+10FFFF.

`firstChar?` finds the character at the begin of some bytes and `decodeUtf8` decodes a whole text; both
check a candidate by encoding it again. `firstChar?_eq_some_iff` and `decodeUtf8_eq_some_iff` are their
specifications, from which it follows that the encoding is uniquely decodable (`utf8_injective`).
-/

set_option autoImplicit false
set_option relaxedAutoImplicit false

namespace Tracepoints

open String (utf8EncodeChar)

/-- The UTF-8 text of some characters. -/
def utf8 (chars : List Char) : List UInt8 := chars.flatMap utf8EncodeChar

@[simp] theorem utf8_nil : utf8 [] = [] := rfl

@[simp] theorem utf8_cons (c : Char) (chars : List Char) :
    utf8 (c :: chars) = utf8EncodeChar c ++ utf8 chars := rfl

@[simp] theorem utf8_append (first second : List Char) :
    utf8 (first ++ second) = utf8 first ++ utf8 second :=
  List.flatMap_append

theorem utf8_singleton (c : Char) : utf8 [c] = utf8EncodeChar c := by simp

/-! ### The bytes of a character -/

/-- The bytes of a character by its number of bytes. -/
inductive EncodedChar (c : Char) : List UInt8 → Prop
  | one {first : UInt8} (hlt : c.toNat < 0x80) (hfirst : first.toNat = c.toNat) :
      EncodedChar c [first]
  | two {first second : UInt8} (hge : 0x80 ≤ c.toNat) (hlt : c.toNat < 0x800)
      (hfirst : first.toNat = 0xC0 + c.toNat / 64)
      (hsecond : second.toNat = 0x80 + c.toNat % 64) : EncodedChar c [first, second]
  | three {first second third : UInt8} (hge : 0x800 ≤ c.toNat) (hlt : c.toNat < 0x10000)
      (hfirst : first.toNat = 0xE0 + c.toNat / 4096)
      (hsecond : second.toNat = 0x80 + c.toNat / 64 % 64)
      (hthird : third.toNat = 0x80 + c.toNat % 64) : EncodedChar c [first, second, third]
  | four {first second third fourth : UInt8} (hge : 0x10000 ≤ c.toNat) (hlt : c.toNat < 0x110000)
      (hfirst : first.toNat = 0xF0 + c.toNat / 262144)
      (hsecond : second.toNat = 0x80 + c.toNat / 4096 % 64)
      (hthird : third.toNat = 0x80 + c.toNat / 64 % 64)
      (hfourth : fourth.toNat = 0x80 + c.toNat % 64) :
      EncodedChar c [first, second, third, fourth]

theorem toNat_lt_of_char (c : Char) : c.toNat < 0x110000 := by
  rcases c.valid with h | h
  · exact lt_trans h (by decide)
  · exact h.2

theorem toNat_ofNat_of_valid {value : ℕ} (h : value.isValidChar) : (Char.ofNat value).toNat =
    value := by
  unfold Char.ofNat
  rw [dif_pos h]
  rfl

theorem encodedChar_utf8EncodeChar (c : Char) : EncodedChar c (utf8EncodeChar c) := by
  have hmax := toNat_lt_of_char c
  have hbyte {value : ℕ} (h : value < 256) : (UInt8.ofNat value).toNat = value :=
    Nat.mod_eq_of_lt h
  unfold utf8EncodeChar
  change EncodedChar c (if c.toNat ≤ 0x7F then _ else if c.toNat ≤ 0x7FF then _ else
    if c.toNat ≤ 0xFFFF then _ else _)
  split_ifs with hone htwo hthree
  · exact .one (by omega) (hbyte (by change c.toNat < 256; omega))
  · refine .two (by omega) (by omega) ?_ ?_
    · rw [hbyte (by omega)]
      change c.toNat / 64 % 0x20 + 0xC0 = _
      omega
    · rw [hbyte (by omega)]
      change c.toNat % 0x40 + 0x80 = _
      omega
  · refine .three (by omega) (by omega) ?_ ?_ ?_
    · rw [hbyte (by omega)]
      change c.toNat / 4096 % 0x10 + 0xE0 = _
      omega
    · rw [hbyte (by omega)]
      change c.toNat / 64 % 0x40 + 0x80 = _
      omega
    · rw [hbyte (by omega)]
      change c.toNat % 0x40 + 0x80 = _
      omega
  · refine .four (by omega) (by omega) ?_ ?_ ?_ ?_
    · rw [hbyte (by omega)]
      change c.toNat / 262144 % 0x08 + 0xF0 = _
      omega
    · rw [hbyte (by omega)]
      change c.toNat / 4096 % 0x40 + 0x80 = _
      omega
    · rw [hbyte (by omega)]
      change c.toNat / 64 % 0x40 + 0x80 = _
      omega
    · rw [hbyte (by omega)]
      change c.toNat % 0x40 + 0x80 = _
      omega

/-- The bytes determine the character. -/
theorem EncodedChar.eq_utf8EncodeChar {c : Char} {bytes : List UInt8} (h : EncodedChar c bytes) :
    bytes = utf8EncodeChar c := by
  have hother := encodedChar_utf8EncodeChar c
  generalize utf8EncodeChar c = other at hother
  cases h <;> cases hother <;> first | omega | skip
  all_goals
    simp only [List.cons.injEq, and_true]
    simp only [← UInt8.toNat_inj]
    omega

/-- An ASCII character is one byte. -/
theorem utf8EncodeChar_ascii {c : Char} (h : c.toNat < 0x80) :
    utf8EncodeChar c = [UInt8.ofNat c.toNat] := by
  refine (EncodedChar.eq_utf8EncodeChar (.one h ?_)).symm
  exact Nat.mod_eq_of_lt (by omega)

/-- The other characters have only bytes outside ASCII. -/
theorem le_of_mem_utf8EncodeChar {c : Char} (h : 0x80 ≤ c.toNat) {byte : UInt8}
    (hbyte : byte ∈ utf8EncodeChar c) : 0x80 ≤ byte.toNat := by
  have hencoded := encodedChar_utf8EncodeChar c
  generalize utf8EncodeChar c = bytes at hencoded hbyte
  cases hencoded with
  | one hlt hfirst => omega
  | two hge hlt hfirst hsecond =>
    simp only [List.mem_cons, List.not_mem_nil, or_false] at hbyte
    rcases hbyte with rfl | rfl <;> omega
  | three hge hlt hfirst hsecond hthird =>
    simp only [List.mem_cons, List.not_mem_nil, or_false] at hbyte
    rcases hbyte with rfl | rfl | rfl <;> omega
  | four hge hlt hfirst hsecond hthird hfourth =>
    simp only [List.mem_cons, List.not_mem_nil, or_false] at hbyte
    rcases hbyte with rfl | rfl | rfl | rfl <;> omega

theorem utf8EncodeChar_ne_nil (c : Char) : utf8EncodeChar c ≠ [] := by
  have hencoded := encodedChar_utf8EncodeChar c
  intro hnil
  rw [hnil] at hencoded
  cases hencoded

theorem utf8Size_pos (c : Char) : 0 < (utf8EncodeChar c).length :=
  List.length_pos_of_ne_nil (utf8EncodeChar_ne_nil c)

/-! ### Decoding -/

/-- The value of the first character, if the bytes begin with one. -/
def charValue (bytes : List UInt8) : ℕ :=
  let first := (bytes.getD 0 0).toNat
  let payload (index : ℕ) : ℕ := (bytes.getD index 0).toNat % 64
  if first < 0x80 then first
  else if first < 0xE0 then first % 32 * 64 + payload 1
  else if first < 0xF0 then first % 16 * 4096 + payload 1 * 64 + payload 2
  else first % 8 * 262144 + payload 1 * 4096 + payload 2 * 64 + payload 3

/-- The character at the begin of some bytes. -/
def firstChar? (bytes : List UInt8) : Option Char :=
  let c := Char.ofNat (charValue bytes)
  if utf8EncodeChar c <+: bytes then some c else none

theorem charValue_utf8EncodeChar (c : Char) (rest : List UInt8) :
    charValue (utf8EncodeChar c ++ rest) = c.toNat := by
  have hencoded := encodedChar_utf8EncodeChar c
  generalize utf8EncodeChar c = bytes at hencoded
  cases hencoded with
  | one hlt hfirst =>
    simp only [charValue, List.cons_append, List.getD_cons_zero]
    rw [if_pos (by omega)]
    exact hfirst
  | two hge hlt hfirst hsecond =>
    simp only [charValue, List.cons_append, List.getD_cons_zero, List.getD_cons_succ]
    rw [if_neg (by omega), if_pos (by omega)]
    omega
  | three hge hlt hfirst hsecond hthird =>
    simp only [charValue, List.cons_append, List.getD_cons_zero, List.getD_cons_succ]
    rw [if_neg (by omega), if_neg (by omega), if_pos (by omega)]
    omega
  | four hge hlt hfirst hsecond hthird hfourth =>
    simp only [charValue, List.cons_append, List.getD_cons_zero, List.getD_cons_succ]
    rw [if_neg (by omega), if_neg (by omega), if_neg (by omega)]
    omega

theorem firstChar?_eq_some_iff {bytes : List UInt8} {c : Char} :
    firstChar? bytes = some c ↔ utf8EncodeChar c <+: bytes := by
  unfold firstChar?
  dsimp only
  constructor
  · intro h
    split_ifs at h with hbegin
    obtain rfl := Option.some.inj h
    exact hbegin
  · rintro ⟨rest, rfl⟩
    rw [charValue_utf8EncodeChar, Char.ofNat_toNat, if_pos (List.prefix_append _ _)]

theorem firstChar?_append (c : Char) (rest : List UInt8) :
    firstChar? (utf8EncodeChar c ++ rest) = some c :=
  firstChar?_eq_some_iff.mpr (List.prefix_append _ _)

/-- At most one character is at the begin of some bytes. -/
theorem eq_of_encoded {c other : Char} {bytes : List UInt8} (h : utf8EncodeChar c <+: bytes)
    (hother : utf8EncodeChar other <+: bytes) : other = c :=
  Option.some.inj ((firstChar?_eq_some_iff.mpr hother).symm.trans (firstChar?_eq_some_iff.mpr h))

/-- Decoding of at most so many characters. -/
def decodeUtf8Loop : ℕ → List UInt8 → Option (List Char)
  | _, [] => some []
  | 0, _ :: _ => none
  | fuel + 1, byte :: bytes =>
    match firstChar? (byte :: bytes) with
    | some c =>
      (decodeUtf8Loop fuel ((byte :: bytes).drop (utf8EncodeChar c).length)).map (c :: ·)
    | none => none

/-- The characters of a UTF-8 text. -/
def decodeUtf8 (bytes : List UInt8) : Option (List Char) :=
  decodeUtf8Loop bytes.length bytes

theorem decodeUtf8Loop_eq_some_iff (fuel : ℕ) {bytes : List UInt8} (hfuel : bytes.length ≤ fuel)
    {chars : List Char} : decodeUtf8Loop fuel bytes = some chars ↔ bytes = utf8 chars := by
  induction fuel generalizing bytes chars with
  | zero =>
    obtain rfl := List.eq_nil_of_length_eq_zero (Nat.le_zero.mp hfuel)
    cases chars with
    | nil => exact iff_of_true rfl rfl
    | cons c chars =>
      refine iff_of_false (fun h ↦ nomatch h) fun h ↦ ?_
      exact utf8EncodeChar_ne_nil c (List.append_eq_nil_iff.mp h.symm).1
  | succ fuel ih =>
    cases bytes with
    | nil =>
      cases chars with
      | nil => exact iff_of_true rfl rfl
      | cons c chars =>
        refine iff_of_false (fun h ↦ nomatch h) fun h ↦ ?_
        exact utf8EncodeChar_ne_nil c (List.append_eq_nil_iff.mp h.symm).1
    | cons byte bytes =>
      rw [decodeUtf8Loop]
      constructor
      · intro h
        split at h
        · rename_i c hc
          obtain ⟨rest, hrest⟩ := firstChar?_eq_some_iff.mp hc
          obtain ⟨others, hothers, rfl⟩ := Option.map_eq_some_iff.mp h
          have hpos := utf8Size_pos c
          rw [← hrest, List.drop_left] at hothers
          have hlength := congrArg List.length hrest
          rw [List.length_append] at hlength
          rw [← hrest, (ih (by omega)).mp hothers, utf8_cons]
        · cases h
      · intro h
        cases chars with
        | nil => cases h
        | cons c chars =>
          have hpos := utf8Size_pos c
          have hlength := congrArg List.length h
          rw [utf8_cons, List.length_append] at hlength
          rw [h, utf8_cons, firstChar?_append]
          dsimp only
          rw [List.drop_left, (ih (by omega)).mpr rfl]
          rfl

theorem decodeUtf8_eq_some_iff {bytes : List UInt8} {chars : List Char} :
    decodeUtf8 bytes = some chars ↔ bytes = utf8 chars :=
  decodeUtf8Loop_eq_some_iff _ le_rfl

theorem decodeUtf8_utf8 (chars : List Char) : decodeUtf8 (utf8 chars) = some chars :=
  decodeUtf8_eq_some_iff.mpr rfl

theorem utf8_injective : Function.Injective utf8 := by
  intro first second h
  exact Option.some.inj ((decodeUtf8_utf8 first).symm.trans (decodeUtf8_eq_some_iff.mpr h))

/-! ### Where characters start -/

/-- A byte behind the first one of a character. -/
def IsContinuation (byte : UInt8) : Prop := 0x80 ≤ byte.toNat ∧ byte.toNat < 0xC0

theorem isContinuation_iff (byte : UInt8) : byte &&& 0xC0 = 0x80 ↔ IsContinuation byte := by
  unfold IsContinuation
  cases byte with | ofBitVec bits => revert bits; decide

/-- Some bytes at the end of a text start with a character, or are none. -/
def StartsChar (rest : List UInt8) : Prop := ∀ byte ∈ rest.head?, ¬IsContinuation byte

/-- The first byte of a character and the others. -/
theorem EncodedChar.lead {c : Char} {bytes : List UInt8} (h : EncodedChar c bytes) :
    ∃ first others, bytes = first :: others ∧ ¬IsContinuation first ∧
      (∀ byte ∈ others, IsContinuation byte) ∧ (first.toNat < 0x80 ↔ others = []) := by
  unfold IsContinuation
  cases h with
  | one hlt hfirst => exact ⟨_, [], rfl, by omega, by simp, by simp; omega⟩
  | two hge hlt hfirst hsecond =>
    refine ⟨_, _, rfl, by omega, ?_, by simp; omega⟩
    intro byte hbyte
    rw [List.mem_singleton] at hbyte
    rw [hbyte]
    omega
  | three hge hlt hfirst hsecond hthird =>
    refine ⟨_, _, rfl, by omega, ?_, by simp; omega⟩
    intro byte hbyte
    simp only [List.mem_cons, List.not_mem_nil, or_false] at hbyte
    rcases hbyte with rfl | rfl <;> omega
  | four hge hlt hfirst hsecond hthird hfourth =>
    refine ⟨_, _, rfl, by omega, ?_, by simp; omega⟩
    intro byte hbyte
    simp only [List.mem_cons, List.not_mem_nil, or_false] at hbyte
    rcases hbyte with rfl | rfl | rfl <;> omega

theorem startsChar_utf8 (chars : List Char) : StartsChar (utf8 chars) := by
  cases chars with
  | nil => exact fun byte hbyte ↦ nomatch hbyte
  | cons c chars =>
    obtain ⟨first, others, hbytes, hfirst, _⟩ := (encodedChar_utf8EncodeChar c).lead
    rw [utf8_cons, hbytes]
    intro byte hbyte
    obtain rfl := Option.some.inj hbyte
    exact hfirst

/-- Behind a byte of a text: an ASCII byte is a whole character, and a character that starts with
another byte is not over. -/
theorem startsChar_behind {chars : List Char} {before rest : List UInt8} {byte : UInt8}
    (h : utf8 chars = before ++ byte :: rest) :
    (byte.toNat < 0x80 → StartsChar rest) ∧
      (0x80 ≤ byte.toNat → StartsChar (byte :: rest) → ¬StartsChar rest) := by
  induction chars generalizing before with
  | nil =>
    have hlength := congrArg List.length h
    simp at hlength
  | cons c chars ih =>
    obtain ⟨first, others, hbytes, hfirst, hothers, hascii⟩ := (encodedChar_utf8EncodeChar c).lead
    rw [utf8_cons, hbytes] at h
    rcases List.append_eq_append_iff.mp h with ⟨later, _, hlater⟩ | ⟨inner, hinner, hrest⟩
    · exact ih hlater
    · cases inner with
      | nil =>
        refine @ih [] ?_
        rw [List.nil_append] at hrest ⊢
        exact hrest.symm
      | cons other inner =>
        obtain ⟨rfl, rfl⟩ := List.cons.inj hrest
        cases before with
        | nil =>
          obtain ⟨rfl, rfl⟩ := List.cons.inj hinner
          constructor
          · intro hlt
            rw [hascii.mp hlt]
            exact startsChar_utf8 chars
          · intro hge _ hstarts
            cases hsecond : others with
            | nil => exact absurd (hascii.mpr hsecond) (by omega)
            | cons second others' =>
              rw [hsecond] at hstarts
              refine hstarts second rfl (hothers second ?_)
              rw [hsecond]
              exact List.mem_cons_self
        | cons _ before =>
          obtain ⟨rfl, rfl⟩ := List.cons.inj hinner
          have hbyte : IsContinuation byte := hothers byte (by simp)
          refine ⟨fun hlt ↦ ?_, fun _ hstarts ↦ absurd hbyte (hstarts byte rfl)⟩
          have hge := hbyte.1
          omega

/-! ### Parts of a text -/

/-- The bytes are a text in UTF-8. -/
def IsUtf8 (bytes : List UInt8) : Prop := ∃ chars : List Char, bytes = utf8 chars

theorem isUtf8_utf8 (chars : List Char) : IsUtf8 (utf8 chars) := ⟨chars, rfl⟩

theorem isUtf8_nil : IsUtf8 [] := ⟨[], rfl⟩

/-- Bytes of ASCII are a text. -/
theorem eq_utf8_of_ascii {bytes : List UInt8} (hascii : ∀ byte ∈ bytes, byte.toNat < 0x80) :
    bytes = utf8 (bytes.map fun byte ↦ Char.ofNat byte.toNat) := by
  induction bytes with
  | nil => rfl
  | cons byte bytes ih =>
    have hbyte := hascii byte List.mem_cons_self
    have hchar : (Char.ofNat byte.toNat).toNat = byte.toNat :=
      toNat_ofNat_of_valid (.inl (by omega))
    rw [List.map_cons, utf8_cons, utf8EncodeChar_ascii (by omega), hchar, UInt8.ofNat_toNat,
      List.singleton_append, ← ih fun other hother ↦ hascii other (List.mem_cons_of_mem _ hother)]

theorem IsUtf8.startsChar {bytes : List UInt8} (h : IsUtf8 bytes) : StartsChar bytes := by
  obtain ⟨chars, rfl⟩ := h
  exact startsChar_utf8 chars

theorem startsChar_of_ascii {bytes : List UInt8} (h : ∀ byte ∈ bytes.head?, byte.toNat < 0x80) :
    StartsChar bytes := by
  intro byte hbyte hcontinuation
  have hlt := h byte hbyte
  have hge := hcontinuation.1
  omega

/-- A text divided where a character starts is two texts. -/
theorem IsUtf8.split {first second : List UInt8} (h : IsUtf8 (first ++ second))
    (hstarts : StartsChar second) : IsUtf8 first ∧ IsUtf8 second := by
  obtain ⟨chars, hchars⟩ := h
  induction chars generalizing first with
  | nil =>
    obtain ⟨rfl, rfl⟩ := List.append_eq_nil_iff.mp hchars
    exact ⟨isUtf8_nil, isUtf8_nil⟩
  | cons c chars ih =>
    cases first with
    | nil => exact ⟨isUtf8_nil, c :: chars, hchars⟩
    | cons byte first =>
      obtain ⟨lead, others, hbytes, _, hothers, _⟩ := (encodedChar_utf8EncodeChar c).lead
      rw [utf8_cons, hbytes, List.cons_append, List.cons_append, List.cons.injEq] at hchars
      obtain ⟨rfl, hrest⟩ := hchars
      rcases List.append_eq_append_iff.mp hrest with ⟨inner, hinner, hsecond⟩ | ⟨later, hlater, hrest⟩
      · cases inner with
        | nil =>
          rw [List.nil_append] at hsecond
          rw [List.append_nil] at hinner
          refine ⟨⟨[c], ?_⟩, chars, hsecond⟩
          rw [utf8_singleton, hbytes, hinner]
        | cons other inner =>
          -- the second part would start inside the character
          refine absurd (hothers other ?_) (hstarts other ?_)
          · rw [hinner]
            simp
          · rw [hsecond]
            rfl
      · obtain ⟨⟨before, hbefore⟩, hsecond⟩ := ih hrest.symm
        refine ⟨⟨c :: before, ?_⟩, hsecond⟩
        rw [utf8_cons, hbytes, hlater, hbefore, List.cons_append]

/-- Behind an ASCII byte of a text is a text. -/
theorem IsUtf8.tail {byte : UInt8} {bytes : List UInt8} (h : IsUtf8 (byte :: bytes))
    (hbyte : byte.toNat < 0x80) : IsUtf8 bytes := by
  obtain ⟨chars, hchars⟩ := h
  have hstarts := (@startsChar_behind chars [] bytes byte hchars.symm).1 hbyte
  exact (@IsUtf8.split [byte] bytes ⟨chars, hchars⟩ hstarts).2

/-- A text without the ASCII bytes that it starts with. -/
theorem IsUtf8.dropWhile {p : UInt8 → Bool} (hp : ∀ byte, p byte = true → byte.toNat < 0x80)
    {bytes : List UInt8} (h : IsUtf8 bytes) : IsUtf8 (bytes.dropWhile p) := by
  induction bytes with
  | nil => exact h
  | cons byte bytes ih =>
    by_cases hbyte : p byte = true
    · rw [List.dropWhile_cons_of_pos hbyte]
      exact ih (h.tail (hp byte hbyte))
    · rw [List.dropWhile_cons_of_neg hbyte]
      exact h

/-- A text divided at an ASCII byte. -/
theorem IsUtf8.takeWhile {p : UInt8 → Bool} (hp : ∀ byte, p byte = false → byte.toNat < 0x80)
    {bytes : List UInt8} (h : IsUtf8 bytes) :
    IsUtf8 (bytes.takeWhile p) ∧ IsUtf8 (bytes.dropWhile p) := by
  rw [← List.takeWhile_append_dropWhile (p := p) (l := bytes)] at h
  refine h.split (startsChar_of_ascii fun byte hbyte ↦ hp byte ?_)
  have hhead := List.head?_dropWhile_not p bytes
  rw [Option.mem_def] at hbyte
  rw [hbyte] at hhead
  simpa using hhead

end Tracepoints
