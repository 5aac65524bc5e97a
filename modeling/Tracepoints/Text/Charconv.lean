import Tracepoints.Text.Filters

/-!
# Conversions of text

The decoders of `charconv.rs`, which hand the text of some bytes to a filter.

`FallbackText` is the text that UTF-8 bytes with a fallback to Latin-1 are meant to have: at each place
the longest well-formed sequence of UTF-8 there, or the byte as a Latin-1 character. The decoder finds
the sequences by its own arithmetic (`sequenceLength`), which `sequenceLength_eq` compares with the
encodings of characters. `writeUtf8WithLatin1FallbackTo_correct` says that it writes that text, through
conversions to `str` that are all valid.
-/

set_option autoImplicit false
set_option relaxedAutoImplicit false

namespace Tracepoints

open Exec
open String (utf8EncodeChar)

/-! ### The decoders -/

/-- `char_from_validated_u32`. -/
def charFromValidatedU32 (validCh32 : ℕ) : Exec Char :=
  if validCh32.isValidChar then .ok (Char.ofNat validCh32) else .error .assertion

/-- `char::REPLACEMENT_CHARACTER`. -/
def replacementCharacter : Char := Char.ofNat 0xFFFD

/-- `write_latin1_to`. -/
def writeLatin1To (filter : Filter) (bytes : List UInt8) : Exec (List UInt8) :=
  writeRuns (fun byte ↦ 0x7F < byte) (fun writtenPos pos ↦ writtenPos < pos) filter.writeStr
    (fun byte ↦ filter.writeNonAscii (Char.ofNat byte.toNat)) bytes bytes.length 0 0

/-- The branches of the loop of `write_utf8_with_latin1_fallback_to`: the number of bytes of the
sequence at `pos`, or nothing where they fall through to the Latin-1 case. -/
def sequenceLength (bytes : List UInt8) (pos : ℕ) : Exec (Option ℕ) := do
  let b0 ← byteAt bytes pos
  if b0 ≤ 0x7F then .ok (some 1)
  else if b0 ≤ 0xBF then .ok none
  else if b0 ≤ 0xDF then
    if 2 ≤ (← sub bytes.length pos) then do
      let b1 ← byteAt bytes (pos + 1)
      let ch := (b0 &&& 0x1F).toNat <<< 6 ||| (b1 &&& 0x3F).toNat
      .ok (if b1 &&& 0xC0 = 0x80 ∧ 0x80 ≤ ch then some 2 else none)
    else .ok none
  else if b0 ≤ 0xEF then
    if 3 ≤ (← sub bytes.length pos) then do
      let b1 ← byteAt bytes (pos + 1)
      let b2 ← byteAt bytes (pos + 2)
      let ch := (b0 &&& 0x0F).toNat <<< 12 ||| (b1 &&& 0x3F).toNat <<< 6 ||| (b2 &&& 0x3F).toNat
      .ok (if (b1 &&& 0xC0 = 0x80 ∧ b2 &&& 0xC0 = 0x80) ∧ 0x800 ≤ ch ∧
        ¬(0xD800 ≤ ch ∧ ch ≤ 0xDFFF) then some 3 else none)
    else .ok none
  else if b0 ≤ 0xF4 then
    if 4 ≤ (← sub bytes.length pos) then do
      let b1 ← byteAt bytes (pos + 1)
      let b2 ← byteAt bytes (pos + 2)
      let b3 ← byteAt bytes (pos + 3)
      let ch := (b0 &&& 0x07).toNat <<< 18 ||| (b1 &&& 0x3F).toNat <<< 12 |||
        (b2 &&& 0x3F).toNat <<< 6 ||| (b3 &&& 0x3F).toNat
      .ok (if (b1 &&& 0xC0 = 0x80 ∧ b2 &&& 0xC0 = 0x80 ∧ b3 &&& 0xC0 = 0x80) ∧ 0x10000 ≤ ch ∧
        ch ≤ 0x10FFFF then some 4 else none)
    else .ok none
  else .ok none

/-- The loop of `write_utf8_with_latin1_fallback_to`. -/
def writeUtf8Loop (filter : Filter) (bytes : List UInt8) : ℕ → ℕ → ℕ → Exec (List UInt8)
  | 0, _, _ => .error .unfinished
  | fuel + 1, pos, writtenPos =>
    if pos < bytes.length then do
      match ← sequenceLength bytes pos with
      | some count => writeUtf8Loop filter bytes fuel (pos + count) writtenPos
      | none => do
        let run ← writeRun filter.writeStr bytes (writtenPos < pos) writtenPos pos
        let b0 ← byteAt bytes pos
        let latin1 ← filter.writeNonAscii (Char.ofNat b0.toNat)
        let rest ← writeUtf8Loop filter bytes fuel (pos + 1) (pos + 1)
        .ok (run ++ latin1 ++ rest)
    else writeRun filter.writeStr bytes (writtenPos < bytes.length) writtenPos bytes.length

/-- `write_utf8_with_latin1_fallback_to`. -/
def writeUtf8WithLatin1FallbackTo (filter : Filter) (bytes : List UInt8) : Exec (List UInt8) :=
  writeUtf8Loop filter bytes (bytes.length + 1) 0 0

/-- The character that begins with the code unit `high`, which is not ASCII, and the place behind
it. -/
def utf16Char (order : ByteOrder) (bytes : List UInt8) (high pos : ℕ) : Exec (Char × ℕ) := do
  if ¬(0xD800 ≤ high ∧ high ≤ 0xDFFF) then .ok (← charFromValidatedU32 high, pos)
  else if 0xDC00 ≤ high then .ok (replacementCharacter, pos)
  else if (← sub bytes.length pos) < 2 then .ok (replacementCharacter, pos)
  else
    let low ← readUInt order 2 bytes pos
    if ¬(0xDC00 ≤ low ∧ low ≤ 0xDFFF) then .ok (replacementCharacter, pos)
    else
      let ch ← charFromValidatedU32 ((((high - 0xD800) <<< 10) ||| (low - 0xDC00)) + 0x10000)
      .ok (ch, pos + 2)

/-- The loop of `write_utf16_to`. -/
def writeUtf16Loop (order : ByteOrder) (filter : Filter) (bytes : List UInt8) :
    ℕ → ℕ → Exec (List UInt8)
  | 0, _ => .error .unfinished
  | fuel + 1, pos => do
    if 2 ≤ (← sub bytes.length pos) then
      let high ← readUInt order 2 bytes pos
      if high ≤ 0x7F then
        let text ← filter.writeAscii (UInt8.ofNat high)
        let rest ← writeUtf16Loop order filter bytes fuel (pos + 2)
        .ok (text ++ rest)
      else
        let (ch, pos) ← utf16Char order bytes high (pos + 2)
        let text ← filter.writeNonAscii ch
        let rest ← writeUtf16Loop order filter bytes fuel pos
        .ok (text ++ rest)
    else .ok []

/-- `write_utf16_to`, which `write_utf16be_to` and `write_utf16le_to` are for a byte order each. -/
def writeUtf16To (order : ByteOrder) (filter : Filter) (bytes : List UInt8) : Exec (List UInt8) :=
  writeUtf16Loop order filter bytes (bytes.length + 1) 0

/-- `char::from_u32`, with the replacement character in place of nothing. -/
def charFromU32 (value : ℕ) : Char :=
  if value.isValidChar then Char.ofNat value else replacementCharacter

/-- The loop of `write_utf32_to`. -/
def writeUtf32Loop (order : ByteOrder) (filter : Filter) (bytes : List UInt8) :
    ℕ → ℕ → Exec (List UInt8)
  | 0, _ => .error .unfinished
  | fuel + 1, pos => do
    if 4 ≤ (← sub bytes.length pos) then
      let ch32 ← readUInt order 4 bytes pos
      let text ← filter.writeNonAscii (charFromU32 ch32)
      let rest ← writeUtf32Loop order filter bytes fuel (pos + 4)
      .ok (text ++ rest)
    else .ok []

/-- `write_utf32_to`, which `write_utf32be_to` and `write_utf32le_to` are for a byte order each. -/
def writeUtf32To (order : ByteOrder) (filter : Filter) (bytes : List UInt8) : Exec (List UInt8) :=
  writeUtf32Loop order filter bytes (bytes.length + 1) 0

/-! ### Sequences of UTF-8 -/

theorem continuation_iff (byte : UInt8) :
    byte &&& 0xC0 = 0x80 ↔ 0x80 ≤ byte.toNat ∧ byte.toNat < 0xC0 :=
  isContinuation_iff byte

theorem toNat_and_mask (byte : UInt8) :
    (byte &&& 0x3F).toNat = byte.toNat % 64 ∧ (byte &&& 0x1F).toNat = byte.toNat % 32 ∧
      (byte &&& 0x0F).toNat = byte.toNat % 16 ∧ (byte &&& 0x07).toNat = byte.toNat % 8 := by
  refine ⟨?_, ?_, ?_, ?_⟩
  · exact (UInt8.toNat_and byte 0x3F).trans (Nat.and_two_pow_sub_one_eq_mod _ 6)
  · exact (UInt8.toNat_and byte 0x1F).trans (Nat.and_two_pow_sub_one_eq_mod _ 5)
  · exact (UInt8.toNat_and byte 0x0F).trans (Nat.and_two_pow_sub_one_eq_mod _ 4)
  · exact (UInt8.toNat_and byte 0x07).trans (Nat.and_two_pow_sub_one_eq_mod _ 3)

theorem shiftLeft_or_two (first : ℕ) {second : ℕ} (hsecond : second < 64) :
    first <<< 6 ||| second = first * 64 + second :=
  shiftLeft_or first hsecond

theorem shiftLeft_or_three (first : ℕ) {second third : ℕ} (hsecond : second < 64)
    (hthird : third < 64) :
    first <<< 12 ||| second <<< 6 ||| third = first * 4096 + second * 64 + third := by
  have hboth : first <<< 12 ||| second <<< 6 = (first * 64 + second) <<< 6 := by
    rw [shiftLeft_or first (by rw [Nat.shiftLeft_eq]; omega), Nat.shiftLeft_eq, Nat.shiftLeft_eq]
    omega
  rw [hboth, shiftLeft_or_two _ hthird]
  omega

theorem shiftLeft_or_four (first : ℕ) {second third fourth : ℕ} (hsecond : second < 64)
    (hthird : third < 64) (hfourth : fourth < 64) :
    first <<< 18 ||| second <<< 12 ||| third <<< 6 ||| fourth =
      first * 262144 + second * 4096 + third * 64 + fourth := by
  have hboth : first <<< 18 ||| second <<< 12 = (first * 64 + second) <<< 12 := by
    rw [shiftLeft_or first (by rw [Nat.shiftLeft_eq]; omega), Nat.shiftLeft_eq, Nat.shiftLeft_eq]
    omega
  rw [hboth, shiftLeft_or_three _ hthird hfourth]
  omega

/-- The bytes behind the begin of a character's encoding. -/
theorem encoded_of_firstChar? {bytes : List UInt8} {c : Char} (h : firstChar? bytes = some c) :
    ∃ encoded rest, EncodedChar c encoded ∧ bytes = encoded ++ rest := by
  obtain ⟨rest, hrest⟩ := firstChar?_eq_some_iff.mp h
  exact ⟨_, rest, encodedChar_utf8EncodeChar c, hrest.symm⟩

theorem EncodedChar.firstChar? {c : Char} {encoded : List UInt8} (h : EncodedChar c encoded)
    (rest : List UInt8) : firstChar? (encoded ++ rest) = some c := by
  rw [h.eq_utf8EncodeChar]
  exact firstChar?_append c rest

/-- The length of the sequence of UTF-8 at the begin of some bytes. -/
def firstLength (bytes : List UInt8) : Option ℕ :=
  (firstChar? bytes).map fun c ↦ (utf8EncodeChar c).length

theorem EncodedChar.firstLength {c : Char} {encoded : List UInt8} (h : EncodedChar c encoded)
    (rest : List UInt8) : firstLength (encoded ++ rest) = some encoded.length := by
  rw [Tracepoints.firstLength, h.firstChar?, Option.map_some, ← h.eq_utf8EncodeChar]

/-- No sequence, if no encoding of a character is at the begin. -/
theorem firstLength_eq_none {bytes : List UInt8}
    (h : ∀ c encoded rest, EncodedChar c encoded → bytes ≠ encoded ++ rest) :
    firstLength bytes = none := by
  unfold firstLength
  cases hfirst : firstChar? bytes with
  | none => rfl
  | some c =>
    obtain ⟨encoded, rest, hencoded, heq⟩ := encoded_of_firstChar? hfirst
    exact absurd heq (h c encoded rest hencoded)

section Lead

variable {b0 : UInt8}

theorem firstLength_one (h : b0.toNat < 0x80) (rest : List UInt8) :
    firstLength (b0 :: rest) = some 1 := by
  have hnat : (Char.ofNat b0.toNat).toNat = b0.toNat :=
    toNat_ofNat_of_valid (Or.inl (by omega))
  exact (EncodedChar.one (by omega) hnat.symm).firstLength rest

/-- A byte that begins no sequence. -/
theorem firstLength_invalid (h : 0x80 ≤ b0.toNat ∧ b0.toNat < 0xC0 ∨ 0xF5 ≤ b0.toNat)
    (rest : List UInt8) : firstLength (b0 :: rest) = none := by
  refine firstLength_eq_none fun c encoded after hencoded heq ↦ ?_
  cases hencoded <;> obtain ⟨rfl, _⟩ := List.cons.inj heq <;> omega

theorem firstLength_two (h : 0xC0 ≤ b0.toNat ∧ b0.toNat < 0xE0) (b1 : UInt8) (rest : List UInt8) :
    firstLength (b0 :: b1 :: rest) =
      if (0x80 ≤ b1.toNat ∧ b1.toNat < 0xC0) ∧ 0x80 ≤ b0.toNat % 32 * 64 + b1.toNat % 64 then some 2
      else none := by
  split_ifs with hseq
  · obtain ⟨hb1, hch⟩ := hseq
    have hnat : (Char.ofNat (b0.toNat % 32 * 64 + b1.toNat % 64)).toNat =
        b0.toNat % 32 * 64 + b1.toNat % 64 := toNat_ofNat_of_valid (Or.inl (by omega))
    have hencoded : EncodedChar (Char.ofNat (b0.toNat % 32 * 64 + b1.toNat % 64)) [b0, b1] :=
      .two (by omega) (by omega) (by omega) (by omega)
    exact hencoded.firstLength rest
  · refine firstLength_eq_none fun c encoded after hencoded heq ↦ hseq ?_
    cases hencoded with
    | one hlt hfirst =>
      obtain ⟨rfl, _⟩ := List.cons.inj heq
      omega
    | two hge hlt hfirst hsecond =>
      obtain ⟨rfl, hone⟩ := List.cons.inj heq
      obtain ⟨rfl, _⟩ := List.cons.inj hone
      omega
    | three hge hlt hfirst =>
      obtain ⟨rfl, _⟩ := List.cons.inj heq
      omega
    | four hge hlt hfirst =>
      obtain ⟨rfl, _⟩ := List.cons.inj heq
      omega

theorem firstLength_three (h : 0xE0 ≤ b0.toNat ∧ b0.toNat < 0xF0) (b1 b2 : UInt8)
    (rest : List UInt8) :
    firstLength (b0 :: b1 :: b2 :: rest) =
      if ((0x80 ≤ b1.toNat ∧ b1.toNat < 0xC0) ∧ 0x80 ≤ b2.toNat ∧ b2.toNat < 0xC0) ∧
          0x800 ≤ b0.toNat % 16 * 4096 + b1.toNat % 64 * 64 + b2.toNat % 64 ∧
          ¬(0xD800 ≤ b0.toNat % 16 * 4096 + b1.toNat % 64 * 64 + b2.toNat % 64 ∧
            b0.toNat % 16 * 4096 + b1.toNat % 64 * 64 + b2.toNat % 64 ≤ 0xDFFF) then some 3
      else none := by
  split_ifs with hseq
  · obtain ⟨⟨hb1, hb2⟩, hch, hsurrogate⟩ := hseq
    have hvalid : (b0.toNat % 16 * 4096 + b1.toNat % 64 * 64 + b2.toNat % 64).isValidChar := by
      unfold Nat.isValidChar
      omega
    have hnat := toNat_ofNat_of_valid hvalid
    have hencoded : EncodedChar (Char.ofNat (b0.toNat % 16 * 4096 + b1.toNat % 64 * 64 +
        b2.toNat % 64)) [b0, b1, b2] :=
      .three (by omega) (by omega) (by omega) (by omega) (by omega)
    exact hencoded.firstLength rest
  · refine firstLength_eq_none fun c encoded after hencoded heq ↦ hseq ?_
    have hvalid : c.toNat.isValidChar := c.valid
    unfold Nat.isValidChar at hvalid
    cases hencoded with
    | one hlt hfirst =>
      obtain ⟨rfl, _⟩ := List.cons.inj heq
      omega
    | two hge hlt hfirst hsecond =>
      obtain ⟨rfl, _⟩ := List.cons.inj heq
      omega
    | three hge hlt hfirst hsecond hthird =>
      obtain ⟨rfl, hone⟩ := List.cons.inj heq
      obtain ⟨rfl, htwo⟩ := List.cons.inj hone
      obtain ⟨rfl, _⟩ := List.cons.inj htwo
      have hch : b0.toNat % 16 * 4096 + b1.toNat % 64 * 64 + b2.toNat % 64 = c.toNat := by omega
      rw [hch]
      omega
    | four hge hlt hfirst =>
      obtain ⟨rfl, _⟩ := List.cons.inj heq
      omega

theorem firstLength_four (h : 0xF0 ≤ b0.toNat ∧ b0.toNat < 0xF5) (b1 b2 b3 : UInt8)
    (rest : List UInt8) :
    firstLength (b0 :: b1 :: b2 :: b3 :: rest) =
      if ((0x80 ≤ b1.toNat ∧ b1.toNat < 0xC0) ∧ (0x80 ≤ b2.toNat ∧ b2.toNat < 0xC0) ∧
          0x80 ≤ b3.toNat ∧ b3.toNat < 0xC0) ∧
          0x10000 ≤ b0.toNat % 8 * 262144 + b1.toNat % 64 * 4096 + b2.toNat % 64 * 64 +
            b3.toNat % 64 ∧
          b0.toNat % 8 * 262144 + b1.toNat % 64 * 4096 + b2.toNat % 64 * 64 + b3.toNat % 64 ≤
            0x10FFFF then some 4
      else none := by
  split_ifs with hseq
  · obtain ⟨⟨hb1, hb2, hb3⟩, hch, hmax⟩ := hseq
    have hvalid : (b0.toNat % 8 * 262144 + b1.toNat % 64 * 4096 + b2.toNat % 64 * 64 +
        b3.toNat % 64).isValidChar := Or.inr (by omega)
    have hnat := toNat_ofNat_of_valid hvalid
    have hencoded : EncodedChar (Char.ofNat (b0.toNat % 8 * 262144 + b1.toNat % 64 * 4096 +
        b2.toNat % 64 * 64 + b3.toNat % 64)) [b0, b1, b2, b3] :=
      .four (by omega) (by omega) (by omega) (by omega) (by omega) (by omega)
    exact hencoded.firstLength rest
  · refine firstLength_eq_none fun c encoded after hencoded heq ↦ hseq ?_
    cases hencoded with
    | one hlt hfirst =>
      obtain ⟨rfl, _⟩ := List.cons.inj heq
      omega
    | two hge hlt hfirst hsecond =>
      obtain ⟨rfl, _⟩ := List.cons.inj heq
      omega
    | three hge hlt hfirst =>
      obtain ⟨rfl, _⟩ := List.cons.inj heq
      omega
    | four hge hlt hfirst hsecond hthird hfourth =>
      obtain ⟨rfl, hone⟩ := List.cons.inj heq
      obtain ⟨rfl, htwo⟩ := List.cons.inj hone
      obtain ⟨rfl, hthree⟩ := List.cons.inj htwo
      obtain ⟨rfl, _⟩ := List.cons.inj hthree
      have hch : b0.toNat % 8 * 262144 + b1.toNat % 64 * 4096 + b2.toNat % 64 * 64 +
          b3.toNat % 64 = c.toNat := by omega
      rw [hch]
      omega

/-- A sequence that ends too early. -/
theorem firstLength_short {rest : List UInt8}
    (h : 0xC0 ≤ b0.toNat ∧ rest.length < 1 ∨ 0xE0 ≤ b0.toNat ∧ rest.length < 2 ∨
      0xF0 ≤ b0.toNat ∧ rest.length < 3) : firstLength (b0 :: rest) = none := by
  refine firstLength_eq_none fun c encoded after hencoded heq ↦ ?_
  have hlength := congrArg List.length heq
  rw [List.length_cons, List.length_append] at hlength
  cases hencoded <;> obtain ⟨rfl, _⟩ := List.cons.inj heq <;>
    simp only [List.length_cons, List.length_nil] at hlength <;> omega

end Lead

theorem byteAt_append_add (before after : List UInt8) (index : ℕ) :
    byteAt (before ++ after) (before.length + index) = byteAt after index := by
  unfold byteAt
  rw [List.getElem?_append_right (Nat.le_add_right _ _), Nat.add_sub_cancel_left]

/-- The branches of the decoder find the sequences of UTF-8. -/
theorem sequenceLength_eq (before : List UInt8) (b0 : UInt8) (rest : List UInt8) :
    sequenceLength (before ++ b0 :: rest) before.length = .ok (firstLength (b0 :: rest)) := by
  have hsub : sub (before ++ b0 :: rest).length before.length = .ok (rest.length + 1) := by
    rw [List.length_append, sub_of_le (Nat.le_add_right _ _), Nat.add_sub_cancel_left,
      List.length_cons]
  have hle (bound : UInt8) : b0 ≤ bound ↔ b0.toNat ≤ bound.toNat := UInt8.le_iff_toNat_le
  unfold sequenceLength
  rw [byteAt_append, ok_bind]
  simp only [hle, UInt8.reduceToNat, continuation_iff, (toNat_and_mask _).1, (toNat_and_mask _).2.1,
    (toNat_and_mask _).2.2.1, (toNat_and_mask _).2.2.2]
  by_cases hone : b0.toNat ≤ 127
  · rw [if_pos hone, firstLength_one (by omega)]
  rw [if_neg hone]
  by_cases hinvalid : b0.toNat ≤ 191
  · rw [if_pos hinvalid, firstLength_invalid (Or.inl (by omega))]
  rw [if_neg hinvalid]
  by_cases htwo : b0.toNat ≤ 223
  · rw [if_pos htwo, hsub, ok_bind]
    match rest with
    | [] => rw [if_neg (by simp), firstLength_short (Or.inl ⟨by omega, by simp⟩)]
    | b1 :: rest =>
      rw [if_pos (by simp), byteAt_append_add, show byteAt (b0 :: b1 :: rest) 1 = .ok b1 from rfl,
        ok_bind, shiftLeft_or_two _ (by omega), firstLength_two (by omega)]
  rw [if_neg htwo]
  by_cases hthree : b0.toNat ≤ 239
  · rw [if_pos hthree, hsub, ok_bind]
    match rest with
    | [] => rw [if_neg (by simp), firstLength_short (Or.inr (Or.inl ⟨by omega, by simp⟩))]
    | [b1] => rw [if_neg (by simp), firstLength_short (Or.inr (Or.inl ⟨by omega, by simp⟩))]
    | b1 :: b2 :: rest =>
      rw [if_pos (by simp), byteAt_append_add, byteAt_append_add,
        show byteAt (b0 :: b1 :: b2 :: rest) 1 = .ok b1 from rfl, ok_bind,
        show byteAt (b0 :: b1 :: b2 :: rest) 2 = .ok b2 from rfl, ok_bind,
        shiftLeft_or_three _ (by omega) (by omega), firstLength_three (by omega)]
  rw [if_neg hthree]
  by_cases hfour : b0.toNat ≤ 244
  · rw [if_pos hfour, hsub, ok_bind]
    match rest with
    | [] => rw [if_neg (by simp), firstLength_short (Or.inr (Or.inr ⟨by omega, by simp⟩))]
    | [b1] => rw [if_neg (by simp), firstLength_short (Or.inr (Or.inr ⟨by omega, by simp⟩))]
    | [b1, b2] => rw [if_neg (by simp), firstLength_short (Or.inr (Or.inr ⟨by omega, by simp⟩))]
    | b1 :: b2 :: b3 :: rest =>
      rw [if_pos (by simp), byteAt_append_add, byteAt_append_add, byteAt_append_add,
        show byteAt (b0 :: b1 :: b2 :: b3 :: rest) 1 = .ok b1 from rfl, ok_bind,
        show byteAt (b0 :: b1 :: b2 :: b3 :: rest) 2 = .ok b2 from rfl, ok_bind,
        show byteAt (b0 :: b1 :: b2 :: b3 :: rest) 3 = .ok b3 from rfl, ok_bind,
        shiftLeft_or_four _ (by omega) (by omega) (by omega), firstLength_four (by omega)]
  · rw [if_neg hfour, firstLength_invalid (Or.inr (by omega))]

theorem sequenceLength_append (before : List UInt8) {rest : List UInt8} (h : rest ≠ []) :
    sequenceLength (before ++ rest) before.length = .ok (firstLength rest) := by
  cases rest with
  | nil => exact absurd rfl h
  | cons b0 rest => exact sequenceLength_eq before b0 rest

/-! ### UTF-8 with a fallback to Latin-1 -/

/-- The text of some bytes: at each place the longest well-formed sequence of UTF-8 there, or, if there
is none, the byte as a Latin-1 character. -/
inductive FallbackText : List UInt8 → List Char → Prop
  | nil : FallbackText [] []
  | scalar {c : Char} {rest : List UInt8} {chars : List Char}
      (hlongest : ∀ other, utf8EncodeChar other <+: utf8EncodeChar c ++ rest →
        (utf8EncodeChar other).length ≤ (utf8EncodeChar c).length)
      (hrest : FallbackText rest chars) : FallbackText (utf8EncodeChar c ++ rest) (c :: chars)
  | latin1 {byte : UInt8} {rest : List UInt8} {chars : List Char}
      (hnone : ∀ c, ¬utf8EncodeChar c <+: byte :: rest) (hrest : FallbackText rest chars) :
      FallbackText (byte :: rest) (Char.ofNat byte.toNat :: chars)

namespace FallbackText

/-- A character at the begin of some bytes is the longest there. -/
theorem of_scalar (c : Char) {rest : List UInt8} {chars : List Char} (h : FallbackText rest chars) :
    FallbackText (utf8EncodeChar c ++ rest) (c :: chars) := by
  refine .scalar (fun other hother ↦ ?_) h
  rw [eq_of_encoded (List.prefix_append _ _) hother]

theorem utf8 (chars : List Char) : FallbackText (utf8 chars) chars := by
  induction chars with
  | nil => exact .nil
  | cons c chars ih => exact of_scalar c ih

theorem exists_chars (bytes : List UInt8) : ∃ chars, FallbackText bytes chars := by
  induction hlength : bytes.length using Nat.strong_induction_on generalizing bytes with
  | _ length ih =>
    cases bytes with
    | nil => exact ⟨[], .nil⟩
    | cons byte rest =>
      cases hfirst : firstChar? (byte :: rest) with
      | none =>
        obtain ⟨chars, hchars⟩ := ih rest.length (by rw [← hlength]; exact Nat.lt_succ_self _) rest rfl
        refine ⟨_, .latin1 (fun c hc ↦ ?_) hchars⟩
        rw [firstChar?_eq_some_iff.mpr hc] at hfirst
        cases hfirst
      | some c =>
        obtain ⟨after, hafter⟩ := firstChar?_eq_some_iff.mp hfirst
        have hpos := utf8Size_pos c
        have hlength' := congrArg List.length hafter
        rw [List.length_append] at hlength'
        obtain ⟨chars, hchars⟩ := ih after.length (by omega) after rfl
        rw [← hafter]
        exact ⟨_, of_scalar c hchars⟩

theorem unique {bytes : List UInt8} {chars other : List Char} (h : FallbackText bytes chars)
    (hother : FallbackText bytes other) : other = chars := by
  induction h generalizing other with
  | nil =>
    generalize hbytes : ([] : List UInt8) = bytes at hother
    cases hother with
    | nil => rfl
    | @scalar c => exact absurd (List.append_eq_nil_iff.mp hbytes.symm).1 (utf8EncodeChar_ne_nil c)
    | latin1 => cases hbytes
  | @scalar c rest chars _ _ ih =>
    generalize hbytes : utf8EncodeChar c ++ rest = bytes at hother
    have hbegin : utf8EncodeChar c <+: bytes := hbytes ▸ List.prefix_append _ _
    cases hother with
    | nil => exact absurd (List.append_eq_nil_iff.mp hbytes).1 (utf8EncodeChar_ne_nil c)
    | scalar _ hrest =>
      obtain rfl := eq_of_encoded hbegin (List.prefix_append _ _)
      obtain rfl := List.append_cancel_left hbytes
      rw [ih hrest]
    | latin1 hnone => exact absurd hbegin (hnone c)
  | @latin1 byte rest chars hnone _ ih =>
    generalize hbytes : byte :: rest = bytes at hother hnone
    cases hother with
    | nil => cases hbytes
    | @scalar c => exact absurd (List.prefix_append _ _) (hnone c)
    | latin1 _ hrest =>
      obtain ⟨rfl, rfl⟩ := List.cons.inj hbytes
      rw [ih hrest]

end FallbackText

/-- Assumes: the filter maps characters, and keeps those outside ASCII. The loop writes the text of the
bytes still to come behind the characters before them. -/
theorem writeUtf8Loop_eq {filter : Filter} {mapped : Char → List Char} (hmaps : filter.Maps mapped)
    (hkeep : ∀ c : Char, 0x80 ≤ c.toNat → mapped c = [c]) {rest : List UInt8} {chars : List Char}
    (h : FallbackText rest chars) (before : List UInt8) (pending : List Char) (fuel : ℕ)
    (hfuel : rest.length < fuel) :
    writeUtf8Loop filter (before ++ utf8 pending ++ rest) fuel
        (before.length + (utf8 pending).length) before.length =
      .ok (utf8 ((pending ++ chars).flatMap mapped)) := by
  obtain ⟨fuel, rfl⟩ := Nat.exists_eq_succ_of_ne_zero (Nat.ne_zero_of_lt hfuel)
  induction h generalizing before pending fuel with
  | nil =>
    have hrun := @writeRun_eq filter.writeStr mapped hmaps.str before [] pending
      (before.length < before.length + (utf8 pending).length) fun h ↦ eq_nil_of_utf8_length (by
        rw [decide_eq_false_iff_not] at h
        omega)
    rw [List.append_nil] at hrun ⊢
    rw [writeUtf8Loop, List.length_append, if_neg (Nat.lt_irrefl _), List.append_nil]
    exact hrun
  | @scalar c rest chars _ _ ih =>
    have hpos := utf8Size_pos c
    have hseq := sequenceLength_append (before ++ utf8 pending)
      (List.append_ne_nil_of_left_ne_nil (utf8EncodeChar_ne_nil c) rest)
    rw [(encodedChar_utf8EncodeChar c).firstLength, List.length_append] at hseq
    rw [List.length_append] at hfuel
    rw [writeUtf8Loop, if_pos (by simp only [List.length_append]; omega), hseq, ok_bind]
    -- The character joins the run.
    obtain ⟨fuel, rfl⟩ := Nat.exists_eq_succ_of_ne_zero (show fuel ≠ 0 by omega)
    have hstep := ih before (pending ++ [c]) fuel (by omega)
    rw [utf8_append, utf8_singleton] at hstep
    simp only [List.append_assoc, List.length_append, List.singleton_append, Nat.add_assoc]
      at hstep ⊢
    exact hstep
  | @latin1 byte rest chars hnone _ ih =>
    have hnoneLength : firstLength (byte :: rest) = none :=
      firstLength_eq_none fun c encoded after hencoded heq ↦
        hnone c ⟨after, by rw [heq, hencoded.eq_utf8EncodeChar]⟩
    have hge : 0x80 ≤ byte.toNat := by
      by_contra hlt
      rw [firstLength_one (Nat.lt_of_not_le hlt)] at hnoneLength
      cases hnoneLength
    have hchar : (Char.ofNat byte.toNat).toNat = byte.toNat :=
      toNat_ofNat_of_valid (Or.inl (lt_trans (UInt8.toNat_lt byte) (by decide)))
    have hseq := sequenceLength_append (before ++ utf8 pending) (List.cons_ne_nil byte rest)
    rw [hnoneLength, List.length_append] at hseq
    have hrun := @writeRun_eq filter.writeStr mapped hmaps.str before (byte :: rest) pending
      (before.length < before.length + (utf8 pending).length) fun h ↦ eq_nil_of_utf8_length (by
        rw [decide_eq_false_iff_not] at h
        omega)
    have hbyte := byteAt_append (before ++ utf8 pending) byte rest
    rw [List.length_append] at hbyte
    rw [List.length_cons] at hfuel
    rw [writeUtf8Loop, if_pos (by simp), hseq, ok_bind]
    dsimp only
    rw [hrun, ok_bind, hbyte, ok_bind, hmaps.nonAscii, ok_bind]
    obtain ⟨fuel, rfl⟩ := Nat.exists_eq_succ_of_ne_zero (show fuel ≠ 0 by omega)
    have hstep := ih (before ++ utf8 pending ++ [byte]) [] fuel (by omega)
    simp only [utf8_nil, List.append_nil, List.length_nil, Nat.add_zero, List.nil_append,
      List.length_append, List.length_singleton, List.append_assoc, List.singleton_append,
      Nat.add_assoc] at hstep ⊢
    rw [hstep, ok_bind, List.flatMap_append, List.flatMap_cons, hkeep _ (by omega)]
    simp only [utf8_append]

/-- Assumes: the filter maps characters, and keeps those outside ASCII. -/
theorem writeUtf8WithLatin1FallbackTo_eq {filter : Filter} {mapped : Char → List Char}
    (hmaps : filter.Maps mapped) (hkeep : ∀ c : Char, 0x80 ≤ c.toNat → mapped c = [c])
    {bytes : List UInt8} {chars : List Char} (h : FallbackText bytes chars) :
    writeUtf8WithLatin1FallbackTo filter bytes = .ok (utf8 (chars.flatMap mapped)) :=
  writeUtf8Loop_eq hmaps hkeep h [] [] _ (Nat.lt_succ_self _)

theorem spaceControl_of_le {c : Char} (h : 0x80 ≤ c.toNat) : spaceControl c = [c] :=
  if_neg (by omega)

theorem jsonFilterChar_of_le (controlCharsOnly : Bool) {c : Char} (h : 0x80 ≤ c.toNat) :
    jsonFilterChar controlCharsOnly c = [c] := by
  refine if_neg ?_
  rintro (hlt | ⟨_, rfl | rfl⟩)
  · omega
  · exact absurd h (by decide)
  · exact absurd h (by decide)

/-- `write_utf8_with_latin1_fallback_to` returns for every byte string, and writes its text in UTF-8
with a fallback to Latin-1; on a text in UTF-8 it is the identity. Every conversion of bytes to a `str`
that it makes is of bytes in UTF-8, and so is every one that a filter makes with what it gets. -/
theorem writeUtf8WithLatin1FallbackTo_correct (build : Build) (bytes : List UInt8) :
    ∃ chars, (∀ other, FallbackText bytes other ↔ other = chars) ∧
      writeUtf8WithLatin1FallbackTo (writeFilter build) bytes = .ok (utf8 chars) ∧
      (∀ filter ∈ [controlCharsSpaceFilter build (writeFilter build),
          controlCharsJsonFilter build (writeFilter build),
          jsonEscapeFilter build (writeFilter build)],
        ∃ text, writeUtf8WithLatin1FallbackTo filter bytes = .ok (utf8 text)) ∧
      ((decodeUtf8 bytes).isSome → utf8 chars = bytes) := by
  obtain ⟨chars, hchars⟩ := FallbackText.exists_chars bytes
  have hlower := writeFilter_maps build
  refine ⟨chars, fun other ↦ ⟨hchars.unique, fun h ↦ h ▸ hchars⟩, ?_, ?_, ?_⟩
  · rw [writeUtf8WithLatin1FallbackTo_eq hlower (fun _ _ ↦ rfl) hchars, List.flatMap_singleton']
  · intro filter hfilter
    simp only [List.mem_cons, List.not_mem_nil, or_false] at hfilter
    rcases hfilter with rfl | rfl | rfl
    · exact ⟨_, writeUtf8WithLatin1FallbackTo_eq (controlCharsSpaceFilter_maps hlower)
        (fun _ ↦ spaceControl_of_le) hchars⟩
    · exact ⟨_, writeUtf8WithLatin1FallbackTo_eq (jsonFilter_maps hlower true)
        (fun _ ↦ jsonFilterChar_of_le true) hchars⟩
    · exact ⟨_, writeUtf8WithLatin1FallbackTo_eq (jsonFilter_maps hlower false)
        (fun _ ↦ jsonFilterChar_of_le false) hchars⟩
  · intro hvalid
    obtain ⟨text, htext⟩ := Option.isSome_iff_exists.mp hvalid
    rw [decodeUtf8_eq_some_iff] at htext
    have heq : text = chars := by
      apply hchars.unique
      rw [htext]
      exact FallbackText.utf8 text
    rw [← heq]
    exact htext.symm

end Tracepoints
