import Tracepoints.Lib.Utf16
import Tracepoints.Text.Charconv

/-!
# Decoding UTF-16

`write_utf16_to` of `charconv.rs` against the lossy decoding of code units. `utf16Char_eq` says which
character begins at a code unit outside ASCII and where the next one begins, and `writeUtf16To_eq` that
the filter is called once for every character of the decoding. `writeUtf16To_lossy` is the result: that
text is written, every conversion to a character is valid, and what was encoded is read back.
-/

set_option autoImplicit false
set_option relaxedAutoImplicit false

namespace Tracepoints

open Exec

/-- The call for a character: `write_ascii` for one of ASCII, else `write_non_ascii`. -/
def Filter.writeChar (filter : Filter) (c : Char) : Exec (List UInt8) :=
  if c.toNat ≤ 0x7F then filter.writeAscii (UInt8.ofNat c.toNat) else filter.writeNonAscii c

/-- The calls for the characters of a text. -/
def Filter.writeChars (filter : Filter) : List Char → Exec (List UInt8)
  | [] => .ok []
  | c :: chars => do
    let text ← filter.writeChar c
    let rest ← filter.writeChars chars
    .ok (text ++ rest)

/-- The text of some bytes in UTF-16. -/
def utf16Text (order : ByteOrder) (bytes : List UInt8) : List Char :=
  decodeUtf16 (codeUnits order bytes)

theorem utf16Text_of_le (order : ByteOrder) {bytes : List UInt8} {pos : ℕ}
    (h : pos + 2 ≤ bytes.length) :
    utf16Text order (bytes.drop pos) = decodeUtf16 (order.ofBytes ((bytes.drop pos).take 2) ::
      codeUnits order (bytes.drop (pos + 2))) := by
  unfold utf16Text
  rw [codeUnits_of_le order (by rw [List.length_drop]; omega), List.drop_drop]

theorem loneChar_surrogate {unit : ℕ} (h : IsHighSurrogate unit ∨ IsLowSurrogate unit) :
    loneChar unit = replacementCharacter :=
  if_pos h

/-- A surrogate that does not begin a pair. -/
theorem decodeUtf16_replacement {high : ℕ} {rest : List ℕ} (h : 0xD800 ≤ high ∧ high ≤ 0xDFFF)
    (hrest : IsHighSurrogate high → ∀ next ∈ rest.head?, ¬IsLowSurrogate next) :
    decodeUtf16 (high :: rest) = replacementCharacter :: decodeUtf16 rest := by
  rw [decodeUtf16_lone hrest, loneChar_surrogate]
  unfold IsHighSurrogate IsLowSurrogate
  omega

/-- The character that begins at a code unit outside ASCII, and where the next one begins. -/
theorem utf16Char_eq {order : ByteOrder} {bytes : List UInt8} {high pos : ℕ}
    (hhigh : 0x7F < high) (hlt : high < 0x10000) (hpos : pos ≤ bytes.length) :
    Returns (utf16Char order bytes high pos) fun result ↦
      decodeUtf16 (high :: codeUnits order (bytes.drop pos)) =
        result.1 :: utf16Text order (bytes.drop result.2) ∧
      0x80 ≤ result.1.toNat ∧ pos ≤ result.2 ∧ result.2 ≤ bytes.length := by
  have hreplacement : 0x80 ≤ replacementCharacter.toNat := by decide
  have hvalid {value : ℕ} (h : value.isValidChar) : charFromValidatedU32 value =
      .ok (Char.ofNat value) := if_pos h
  unfold utf16Char
  by_cases hsurrogate : 0xD800 ≤ high ∧ high ≤ 0xDFFF
  · rw [if_neg (not_not.mpr hsurrogate)]
    refine Returns.ite (fun hlow ↦ ?_) fun hnotLow ↦ ?_
    · refine Returns.ok ⟨decodeUtf16_replacement hsurrogate fun h ↦ ?_, hreplacement, le_rfl, hpos⟩
      exact absurd h.2 (by omega)
    rw [sub_of_le hpos, ok_bind]
    refine Returns.ite (fun hshort ↦ ?_) fun hroom ↦ ?_
    · refine Returns.ok ⟨decodeUtf16_replacement hsurrogate fun _ next hnext ↦ ?_, hreplacement,
        le_rfl, hpos⟩
      rw [codeUnits_of_lt order (by rw [List.length_drop]; omega)] at hnext
      cases hnext
    rw [readUInt_of_le (by omega), ok_bind]
    have hunits := @codeUnits_of_le order (bytes.drop pos) (by rw [List.length_drop]; omega)
    generalize order.ofBytes ((bytes.drop pos).take 2) = low at hunits
    refine Returns.ite (fun hunpaired ↦ ?_) fun hlow ↦ ?_
    · refine Returns.ok ⟨decodeUtf16_replacement hsurrogate fun _ next hnext ↦ ?_, hreplacement,
        le_rfl, hpos⟩
      rw [hunits, List.head?_cons, Option.mem_some_iff] at hnext
      unfold IsLowSurrogate
      omega
    · rw [not_not] at hlow
      have hhighPart : IsHighSurrogate high := ⟨hsurrogate.1, by omega⟩
      have hlowPart : IsLowSurrogate low := ⟨hlow.1, by omega⟩
      have hchar := isValidChar_pair hhighPart hlowPart
      have hvalue : (high - 0xD800) * 2 ^ 10 + (low - 0xDC00) + 0x10000 =
          0x10000 + (high - 0xD800) * 0x400 + (low - 0xDC00) := by omega
      rw [shiftLeft_or _ (show low - 0xDC00 < 2 ^ 10 by omega), hvalue, hvalid hchar, ok_bind]
      refine Returns.ok ⟨?_, ?_, by dsimp only; omega, by dsimp only; omega⟩
      · dsimp only
        rw [hunits, decodeUtf16_pair hhighPart hlowPart, List.drop_drop]
        unfold pairChar utf16Text
        rw [Nat.add_comm pos 2]
      · dsimp only
        rw [toNat_ofNat_of_valid hchar]
        omega
  · have hlone : ¬(IsHighSurrogate high ∨ IsLowSurrogate high) := by
      unfold IsHighSurrogate IsLowSurrogate
      omega
    have hchar := isValidChar_lone hlt hlone
    rw [if_pos hsurrogate, hvalid hchar, ok_bind]
    refine Returns.ok ⟨?_, ?_, le_rfl, hpos⟩
    · rw [decodeUtf16_lone fun h ↦ absurd (Or.inl h) hlone]
      unfold loneChar
      rw [if_neg hlone]
      rfl
    · dsimp only
      rw [toNat_ofNat_of_valid hchar]
      omega

/-- The loop calls the filter for the characters from its position on, whatever the filter does. -/
theorem writeUtf16Loop_eq (order : ByteOrder) (filter : Filter) (bytes : List UInt8) (fuel pos : ℕ)
    (hpos : pos ≤ bytes.length) (hfuel : bytes.length - pos < fuel) :
    writeUtf16Loop order filter bytes fuel pos =
      filter.writeChars (utf16Text order (bytes.drop pos)) := by
  induction fuel generalizing pos with
  | zero => omega
  | succ fuel ih =>
    rw [writeUtf16Loop, sub_of_le hpos, ok_bind]
    by_cases hroom : 2 ≤ bytes.length - pos
    · have hlength : ((bytes.drop pos).take 2).length = 2 := by
        rw [List.length_take, List.length_drop]
        omega
      have hread := order.ofBytes_lt ((bytes.drop pos).take 2)
      rw [hlength] at hread
      rw [if_pos hroom, readUInt_of_le (by omega), ok_bind, utf16Text_of_le order (by omega)]
      generalize order.ofBytes ((bytes.drop pos).take 2) = high at hread
      by_cases hascii : high ≤ 0x7F
      · have hlone : ¬(IsHighSurrogate high ∨ IsLowSurrogate high) := by
          unfold IsHighSurrogate IsLowSurrogate
          omega
        have hnat : (Char.ofNat high).toNat = high :=
          toNat_ofNat_of_valid (isValidChar_lone (by omega) hlone)
        rw [if_pos hascii, ih (pos + 2) (by omega) (by omega),
          decodeUtf16_lone fun h ↦ absurd (Or.inl h) hlone]
        unfold loneChar
        rw [if_neg hlone, Filter.writeChars]
        unfold Filter.writeChar
        rw [hnat, if_pos hascii]
        rfl
      · obtain ⟨⟨c, next⟩, hchar, hdecode, hge, hnext, hle⟩ :=
          @utf16Char_eq order bytes high (pos + 2) (by omega) hread (by omega)
        dsimp only at hdecode hge hnext hle
        rw [if_neg hascii, hchar, ok_bind, hdecode, Filter.writeChars]
        dsimp only
        rw [ih next hle (by omega)]
        unfold Filter.writeChar
        rw [if_neg (by omega)]
    · rw [if_neg hroom]
      unfold utf16Text
      rw [codeUnits_of_lt order (by rw [List.length_drop]; omega)]
      rfl

theorem writeUtf16To_eq (order : ByteOrder) (filter : Filter) (bytes : List UInt8) :
    writeUtf16To order filter bytes = filter.writeChars (utf16Text order bytes) :=
  writeUtf16Loop_eq order filter bytes _ 0 (Nat.zero_le _) (by omega)

/-- A filter that returns for the bytes of ASCII and for every character returns for every text. -/
theorem Filter.writeChars_returns {filter : Filter}
    (hascii : ∀ byte < 0x80, Returns (filter.writeAscii byte) fun _ ↦ True)
    (hnonAscii : ∀ c, Returns (filter.writeNonAscii c) fun _ ↦ True) (chars : List Char) :
    Returns (filter.writeChars chars) fun _ ↦ True := by
  induction chars with
  | nil => exact Returns.ok trivial
  | cons c chars ih =>
    have hchar : Returns (filter.writeChar c) fun _ ↦ True := by
      refine Returns.ite (fun hle ↦ hascii _ ?_) fun _ ↦ hnonAscii c
      rw [UInt8.lt_iff_toNat_lt, toNat_ofNat_ascii (by omega)]
      exact Nat.lt_succ_of_le hle
    exact hchar.bind fun text _ ↦ ih.bind fun rest _ ↦ Returns.ok trivial

/-- A filter that maps characters writes the mapped text if it keeps the characters outside ASCII. -/
theorem Filter.Maps.writeChars {filter : Filter} {mapped : Char → List Char}
    (hmaps : filter.Maps mapped) (hkeep : ∀ c : Char, 0x80 ≤ c.toNat → mapped c = [c])
    (chars : List Char) : filter.writeChars chars = .ok (utf8 (chars.flatMap mapped)) := by
  induction chars with
  | nil => rfl
  | cons c chars ih =>
    have hchar : filter.writeChar c = .ok (utf8 (mapped c)) := by
      unfold Filter.writeChar
      by_cases hle : c.toNat ≤ 0x7F
      · rw [if_pos hle, hmaps.ascii c (by omega)]
      · rw [if_neg hle, hmaps.nonAscii, hkeep c (by omega)]
    rw [Filter.writeChars, hchar, ok_bind, ih, ok_bind, List.flatMap_cons, utf8_append]

/-- `write_utf16_to` calls the filter for the characters of the lossy decoding, one after the other; it
returns if the filter does for the bytes of ASCII and for the characters, so that every conversion to a
character is valid and no other byte is passed to `write_ascii`; and unfiltered it writes the UTF-8 text
of the decoding, which for an encoded text is that text. -/
theorem writeUtf16To_lossy (order : ByteOrder) :
    (∀ filter bytes, writeUtf16To order filter bytes =
      filter.writeChars (decodeUtf16 (codeUnits order bytes))) ∧
    (∀ filter bytes, (∀ byte < 0x80, Returns (filter.writeAscii byte) fun _ ↦ True) →
      (∀ c, Returns (filter.writeNonAscii c) fun _ ↦ True) →
      Returns (writeUtf16To order filter bytes) fun _ ↦ True) ∧
    (∀ build bytes, writeUtf16To order (writeFilter build) bytes =
      .ok (utf8 (decodeUtf16 (codeUnits order bytes)))) ∧
    ∀ build chars, writeUtf16To order (writeFilter build) (utf16Bytes order chars) =
      .ok (utf8 chars) := by
  have hplain (build : Build) (bytes : List UInt8) :
      writeUtf16To order (writeFilter build) bytes =
        .ok (utf8 (decodeUtf16 (codeUnits order bytes))) := by
    rw [writeUtf16To_eq, (writeFilter_maps build).writeChars fun _ _ ↦ rfl,
      List.flatMap_singleton']
    rfl
  refine ⟨writeUtf16To_eq order, fun filter bytes hascii hnonAscii ↦ ?_, hplain,
    fun build chars ↦ ?_⟩
  · rw [writeUtf16To_eq]
    exact Filter.writeChars_returns hascii hnonAscii _
  · rw [hplain, decodeUtf16_codeUnits]

end Tracepoints
