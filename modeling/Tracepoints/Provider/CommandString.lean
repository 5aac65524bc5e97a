import Tracepoints.Enumerator.Fresh
import Tracepoints.Perf.Text

/-!
# Tracepoint names

A provider registers its tracepoints under names like `Provider_L5K1fGgroup`. `CommandString::format`
(`eventheader/src/provider.rs`) writes such a name and the types of the event header into a buffer of
fixed size, and `enumerate_with_name_and_data` reads it again. The name that `Provider::new`
(`eventheader_dynamic/src/provider.rs`) accepts fits the buffer with one byte to spare, and the level,
the keyword, the provider name and the options are read back whatever the provider name contains
(`commandString_roundTrip`): the attributes hold no `_`, so that the last one is theirs.
-/

set_option autoImplicit false
set_option relaxedAutoImplicit false

namespace Tracepoints

open Exec

/-! ### Writing the name -/

/-- `EVENTHEADER_COMMAND_TYPES`. -/
def eventheaderCommandTypes : List UInt8 :=
  ascii "u8 eventheader_flags; u8 version; u16 id; u16 tag; u8 opcode; u8 level"

/-- `EVENTHEADER_NAME_MAX`. -/
def eventheaderNameMax : ℕ := 256

/-- `EVENTHEADER_COMMAND_MAX`. -/
def eventheaderCommandMax : ℕ := eventheaderNameMax + 1 + eventheaderCommandTypes.length

/-- `CommandStringBuffer`. -/
structure CommandStringBuffer where
  buf : List UInt8
  pos : ℕ
  length_buf : buf.length = eventheaderCommandMax

/-- `CommandStringBuffer::write`: a copy to a slice of the buffer. -/
def CommandStringBuffer.write (buffer : CommandStringBuffer) (bytes : List UInt8) :
    Exec CommandStringBuffer :=
  if h : buffer.pos + bytes.length ≤ buffer.buf.length then
    .ok
      { buf := buffer.buf.take buffer.pos ++ bytes ++ buffer.buf.drop (buffer.pos + bytes.length)
        pos := buffer.pos + bytes.length
        length_buf := by
          rw [List.length_append, List.length_append, List.length_take, List.length_drop,
            ← buffer.length_buf]
          omega }
  else .error .indexOutOfRange

/-- `CStr::from_bytes_with_nul`, unwrapped: the only NUL is the last byte. -/
def fromBytesWithNul (bytes : List UInt8) : Exec (List UInt8) :=
  if bytes.getLast? = some 0 ∧ 0 ∉ bytes.dropLast then .ok bytes else .error .assertion

/-- `CommandString::format`. -/
def CommandStringBuffer.format (buffer : CommandStringBuffer)
    (providerName providerOptions : List UInt8) (level : UInt8) (keyword : UInt64) :
    Exec (List UInt8) := do
  let buffer := { buffer with pos := 0 }
  let buffer ← buffer.write providerName
  let buffer ← buffer.write (ascii "_L")
  let buffer ← buffer.write (lowerHex level.toNat)
  let buffer ← buffer.write (ascii "K")
  let buffer ← buffer.write (lowerHex keyword.toNat)
  let buffer ← buffer.write providerOptions
  let buffer ← buffer.write (ascii " ")
  let buffer ← buffer.write eventheaderCommandTypes
  let buffer ← buffer.write [0]
  fromBytesWithNul (← slice buffer.buf 0 buffer.pos)

/-- `Provider`, without its event sets. -/
structure Provider where
  name : List UInt8
  options : List UInt8
  deriving DecidableEq, Repr

/-- `is_option_val_char`. -/
def isOptionValChar (ch : UInt8) : Bool := isAsciiDigit ch || isAsciiLowercase ch

/-- `ProviderOptions::group_name` and `Provider::new`. -/
def Provider.new (build : Build) (name groupName : List UInt8) : Exec Provider := do
  debugAssert build (groupName.all isOptionValChar)
  if ¬name.length + groupName.length < eventheaderNameMax - (ascii "_LffKffffffffffffffffG").length
  then .error .assertion
  else do
    debugAssert build (0 ∉ name)
    debugAssert build (Text.space ∉ name)
    debugAssert build (Text.colon ∉ name)
    .ok ⟨name, if groupName.isEmpty then [] else 71 :: groupName⟩

/-! ### Reading it back -/

/-- `str::rfind` of a character. -/
def rfind (ch : UInt8) : List UInt8 → Option ℕ
  | [] => none
  | first :: rest =>
    match rfind ch rest with
    | some pos => some (pos + 1)
    | none => if first = ch then some 0 else none

namespace EventHeaderEventInfo

/-- `EventHeaderEventInfo::provider_name`. -/
def providerName (tracepointName : List UInt8) : Exec (List UInt8) :=
  match rfind Text.underscore tracepointName with
  | some underscorePos => Text.strSlice tracepointName 0 underscorePos
  | none => .ok tracepointName

/-- Whether `EventHeaderEventInfo::options` passes a byte while it looks for the options. -/
def isBeforeOptions (ch : UInt8) : Bool := !(isAsciiUppercase ch && ch ≠ 76 && ch ≠ 75)

/-- `EventHeaderEventInfo::options`. -/
def options (tracepointName : List UInt8) : List UInt8 :=
  match rfind Text.underscore tracepointName with
  | some underscorePos => (tracepointName.drop (underscorePos + 1)).dropWhile isBeforeOptions
  | none => []

end EventHeaderEventInfo

/-! ### The buffer -/

/-- The bytes before the position of a buffer. -/
def CommandStringBuffer.Holds (buffer : CommandStringBuffer) (written : List UInt8) : Prop :=
  buffer.buf.take buffer.pos = written ∧ buffer.pos = written.length

/-- What is written follows what was written before, where it fits. -/
theorem CommandStringBuffer.Holds.write {buffer : CommandStringBuffer} {written : List UInt8}
    (h : buffer.Holds written) (bytes : List UInt8)
    (hfits : (written ++ bytes).length ≤ eventheaderCommandMax) :
    Returns (buffer.write bytes) fun next ↦ next.Holds (written ++ bytes) := by
  obtain ⟨hwritten, hpos⟩ := h
  rw [List.length_append] at hfits
  have hroom : buffer.pos + bytes.length ≤ buffer.buf.length := by
    rw [buffer.length_buf]
    omega
  unfold CommandStringBuffer.write
  rw [dif_pos hroom]
  have hlength : buffer.pos + bytes.length = (buffer.buf.take buffer.pos ++ bytes).length := by
    rw [List.length_append, List.length_take]
    omega
  refine Returns.ok ⟨?_, ?_⟩
  · dsimp only
    rw [hlength, List.take_left, hwritten]
  · dsimp only
    rw [List.length_append, hpos]

/-- The name and the types that `CommandString::format` writes. -/
def commandOf (tracepointName : List UInt8) : List UInt8 :=
  tracepointName ++ ascii " " ++ eventheaderCommandTypes ++ [0]

/-- The name of a tracepoint. -/
def tracepointNameOf (providerName providerOptions : List UInt8) (level : UInt8)
    (keyword : UInt64) : List UInt8 :=
  providerName ++ ascii "_L" ++ lowerHex level.toNat ++ ascii "K" ++ lowerHex keyword.toNat ++
    providerOptions

theorem fromBytesWithNul_append {bytes : List UInt8} (h : 0 ∉ bytes) :
    fromBytesWithNul (bytes ++ [0]) = .ok (bytes ++ [0]) := by
  unfold fromBytesWithNul
  rw [if_pos]
  rw [List.getLast?_append_of_ne_nil _ (by simp), List.dropLast_concat]
  exact ⟨rfl, h⟩

/-- Assumes: a name without NUL that is shorter than `EVENTHEADER_NAME_MAX`. Formatting it stays
inside the buffer. -/
theorem CommandStringBuffer.format_returns (buffer : CommandStringBuffer)
    {providerName providerOptions : List UInt8} {level : UInt8} {keyword : UInt64}
    (hlength : (tracepointNameOf providerName providerOptions level keyword).length <
      eventheaderNameMax)
    (hnul : 0 ∉ tracepointNameOf providerName providerOptions level keyword) :
    buffer.format providerName providerOptions level keyword =
      .ok (commandOf (tracepointNameOf providerName providerOptions level keyword)) := by
  have hmax : (commandOf (tracepointNameOf providerName providerOptions level keyword)).length ≤
      eventheaderCommandMax := by
    have hspace : (ascii " ").length = 1 := by decide
    simp only [commandOf, List.length_append, hspace, List.length_singleton, eventheaderCommandMax]
    omega
  -- every write ends at or before the end of the command
  simp only [commandOf, tracepointNameOf, List.length_append] at hmax
  have hreturns : Returns (buffer.format providerName providerOptions level keyword) fun bytes ↦
      bytes = commandOf (tracepointNameOf providerName providerOptions level keyword) := by
    have hstart : CommandStringBuffer.Holds { buffer with pos := 0 } [] := ⟨rfl, rfl⟩
    unfold format
    refine (hstart.write _ (by simp only [List.length_append, List.length_nil]; omega)).bind fun _ h ↦ ?_
    refine (h.write _ (by simp only [List.length_append, List.length_nil]; omega)).bind fun _ h ↦ ?_
    refine (h.write _ (by simp only [List.length_append, List.length_nil]; omega)).bind fun _ h ↦ ?_
    refine (h.write _ (by simp only [List.length_append, List.length_nil]; omega)).bind fun _ h ↦ ?_
    refine (h.write _ (by simp only [List.length_append, List.length_nil]; omega)).bind fun _ h ↦ ?_
    refine (h.write _ (by simp only [List.length_append, List.length_nil]; omega)).bind fun _ h ↦ ?_
    refine (h.write _ (by simp only [List.length_append, List.length_nil]; omega)).bind fun _ h ↦ ?_
    refine (h.write _ (by simp only [List.length_append, List.length_nil]; omega)).bind fun _ h ↦ ?_
    refine (h.write _ (by simp only [List.length_append, List.length_nil]; omega)).bind fun last h ↦ ?_
    have hpos : last.pos ≤ last.buf.length := by
      rw [last.length_buf, h.2]
      simp only [List.length_append, List.length_nil]
      omega
    rw [slice_of_le (Nat.zero_le _) hpos, ok_bind, List.drop_zero, Nat.sub_zero, h.1,
      List.nil_append]
    have hzero : 0 ∉ tracepointNameOf providerName providerOptions level keyword ++ ascii " " ++
        eventheaderCommandTypes := by
      rw [List.append_assoc]
      exact List.not_mem_append hnul (by decide)
    exact ⟨_, fromBytesWithNul_append hzero, rfl⟩
  obtain ⟨bytes, hbytes, rfl⟩ := hreturns
  exact hbytes

/-! ### Hexadecimal numbers -/

/-- Whether a byte is a digit that `lowercase_hex_to_int` reads. -/
def isLowerHexDigit (ch : UInt8) : Bool := isAsciiDigit ch || (97 ≤ ch && ch ≤ 102)

theorem isLowerHexDigit_digitChar {digit : ℕ} (h : digit < 16) :
    isLowerHexDigit (UInt8.ofNat (Nat.digitChar digit).toNat) = true := by
  interval_cases digit <;> rfl

/-- The bytes of a hexadecimal number are digits. -/
theorem isLowerHexDigit_of_mem_lowerHex {value : ℕ} {ch : UInt8} (h : ch ∈ lowerHex value) :
    isLowerHexDigit ch = true := by
  induction value using Nat.strongRecOn with
  | ind value ih =>
    by_cases hsmall : value < 16
    · rw [lowerHex, Nat.toDigits_of_lt_base hsmall, List.map_cons, List.map_nil,
        List.mem_singleton] at h
      rw [h]
      exact isLowerHexDigit_digitChar hsmall
    · rw [lowerHex, Nat.toDigits_of_base_le (by omega) (by omega), List.map_append,
        List.mem_append] at h
      rcases h with h | h
      · exact ih (value / 16) (Nat.div_lt_self (by omega) (by omega)) h
      · rw [List.map_cons, List.map_nil, List.mem_singleton] at h
        rw [h]
        exact isLowerHexDigit_digitChar (Nat.mod_lt _ (by omega))

/-- A digit extends the value that was read before it. -/
theorem lowercaseHexLoop_digitChar {digit : ℕ} (h : digit < 16) (rest : List UInt8) (val pos : ℕ) :
    lowercaseHexLoop (UInt8.ofNat (Nat.digitChar digit).toNat :: rest) val pos =
      lowercaseHexLoop rest (val * 16 % 2 ^ 64 + digit) (pos + 1) := by
  rw [lowercaseHexLoop]
  interval_cases digit <;> rfl

/-- Reading the digits of a number that fits 64 bits gives the number. -/
theorem lowercaseHexLoop_lowerHex {value : ℕ} (hvalue : value < 2 ^ 64) (rest : List UInt8)
    (pos : ℕ) :
    lowercaseHexLoop (lowerHex value ++ rest) 0 pos =
      lowercaseHexLoop rest value (pos + (lowerHex value).length) := by
  induction value using Nat.strongRecOn generalizing rest with
  | ind value ih =>
    by_cases hsmall : value < 16
    · rw [lowerHex, Nat.toDigits_of_lt_base hsmall, List.map_cons, List.map_nil, List.singleton_append,
        lowercaseHexLoop_digitChar hsmall, Nat.zero_mul, Nat.zero_mod, Nat.zero_add]
      rfl
    · have hmod : value % 16 < 16 := Nat.mod_lt _ (by omega)
      have hdigits : lowerHex value = lowerHex (value / 16) ++
          [UInt8.ofNat (Nat.digitChar (value % 16)).toNat] := by
        rw [lowerHex, Nat.toDigits_of_base_le (by omega) (by omega), List.map_append]
        rfl
      rw [hdigits, List.append_assoc, ih (value / 16) (Nat.div_lt_self (by omega) (by omega)) (by omega),
        List.singleton_append, lowercaseHexLoop_digitChar hmod,
        Nat.mod_eq_of_lt (by omega : value / 16 * 16 < 2 ^ 64), Nat.div_add_mod' value 16,
        List.length_append, List.length_singleton, Nat.add_assoc]

/-- A number ends before the first byte that is not a digit. -/
theorem lowercaseHexLoop_stop {rest : List UInt8} (val pos : ℕ)
    (h : ∀ ch ∈ rest.head?, isLowerHexDigit ch = false) :
    lowercaseHexLoop rest val pos = (val, pos) := by
  cases rest with
  | nil => rfl
  | cons ch rest =>
    have hch := h ch (by simp)
    simp only [isLowerHexDigit, Bool.or_eq_false_iff, Bool.and_eq_false_iff,
      decide_eq_false_iff_not] at hch
    rw [lowercaseHexLoop, if_neg (by simp [hch.1]), if_neg (by tauto)]

theorem lowercaseHexToInt_lowerHex (value : ℕ) (hvalue : value < 2 ^ 64)
    (before rest : List UInt8) (h : ∀ ch ∈ rest.head?, isLowerHexDigit ch = false) :
    lowercaseHexToInt (before ++ (lowerHex value ++ rest)) before.length =
      (value, before.length + (lowerHex value).length) := by
  rw [lowercaseHexToInt, List.drop_left, lowercaseHexLoop_lowerHex hvalue,
    lowercaseHexLoop_stop _ _ h]

/-! ### The last underscore -/

theorem byteAt_append_length (before rest : List UInt8) (ch : UInt8) :
    byteAt (before ++ ch :: rest) before.length = .ok ch := by
  simp [byteAt]

/-- The backward search finds the last underscore. -/
theorem findAttributes_last (before attributes : List UInt8) (h : (95 : UInt8) ∉ attributes)
    (count : ℕ) (hcount : count ≤ attributes.length) :
    findAttributes (before ++ 95 :: attributes) (before.length + 1 + count) =
      .ok (some (before.length + 1)) := by
  induction count with
  | zero =>
    rw [Nat.add_zero, findAttributes, byteAt_append_length, ok_bind, if_pos rfl]
  | succ count ih =>
    have hbyte : byteAt (before ++ 95 :: attributes) (before.length + 1 + count) =
        .ok attributes[count] := by
      have hget : (before ++ 95 :: attributes)[before.length + 1 + count]? =
          some attributes[count] := by
        rw [List.getElem?_append_right (by omega), Nat.add_assoc, Nat.add_sub_cancel_left,
          Nat.add_comm 1 count, List.getElem?_cons_succ, List.getElem?_eq_getElem (by omega)]
      unfold byteAt
      rw [hget]
    have hne : attributes[count] ≠ 95 := fun heq ↦ h (heq ▸ List.getElem_mem _)
    rw [← Nat.add_assoc, findAttributes, hbyte, ok_bind, if_neg hne]
    exact ih (by omega)

theorem rfind_none {ch : UInt8} {text : List UInt8} (h : ch ∉ text) : rfind ch text = none := by
  induction text with
  | nil => rfl
  | cons first rest ih =>
    rw [List.mem_cons, not_or] at h
    rw [rfind, ih h.2]
    exact if_neg (Ne.symm h.1)

theorem rfind_last (ch : UInt8) (before rest : List UInt8) (h : ch ∉ rest) :
    rfind ch (before ++ ch :: rest) = some before.length := by
  induction before with
  | nil =>
    rw [List.nil_append, rfind, rfind_none h]
    exact if_pos rfl
  | cons first before ih =>
    rw [List.cons_append, rfind, ih]
    rfl

/-! ### The attributes of a name -/

/-- What follows the provider name and the underscore. -/
def attributesOf (level : UInt8) (keyword : UInt64) (options : List UInt8) : List UInt8 :=
  76 :: (lowerHex level.toNat ++ 75 :: (lowerHex keyword.toNat ++ options))

/-- The options of a provider: none, or the group name behind a `G`. -/
def IsOptions (options : List UInt8) : Prop :=
  options = [] ∨ ∃ group : List UInt8, options = 71 :: group ∧ ∀ ch ∈ group, isOptionValChar ch = true

theorem tracepointNameOf_eq (name options : List UInt8) (level : UInt8) (keyword : UInt64) :
    tracepointNameOf name options level keyword =
      name ++ 95 :: attributesOf level keyword options := by
  have hlevel : ascii "_L" = [95, 76] := by decide
  have hkeyword : ascii "K" = [75] := by decide
  simp [tracepointNameOf, attributesOf, hlevel, hkeyword]

theorem isOptionValChar_of_isLowerHexDigit {ch : UInt8} (h : isLowerHexDigit ch = true) :
    isOptionValChar ch = true := by
  revert h
  cases ch with | ofBitVec bits => revert bits; decide

/-- A byte of the attributes is `L`, `K`, `G`, a digit or a lowercase letter. -/
theorem mem_attributesOf {level : UInt8} {keyword : UInt64} {options : List UInt8} {ch : UInt8}
    (hoptions : IsOptions options) (h : ch ∈ attributesOf level keyword options) :
    ch = 76 ∨ ch = 75 ∨ ch = 71 ∨ isOptionValChar ch = true := by
  rw [attributesOf, List.mem_cons, List.mem_append, List.mem_cons, List.mem_append] at h
  rcases h with h | h | h | h | h
  · exact .inl h
  · exact .inr (.inr (.inr (isOptionValChar_of_isLowerHexDigit (isLowerHexDigit_of_mem_lowerHex h))))
  · exact .inr (.inl h)
  · exact .inr (.inr (.inr (isOptionValChar_of_isLowerHexDigit (isLowerHexDigit_of_mem_lowerHex h))))
  · rcases hoptions with rfl | ⟨group, rfl, hgroup⟩
    · cases h
    · rcases List.mem_cons.1 h with h | h
      · exact .inr (.inr (.inl h))
      · exact .inr (.inr (.inr (hgroup ch h)))

theorem not_mem_attributesOf {level : UInt8} {keyword : UInt64} {options : List UInt8} {ch : UInt8}
    (hoptions : IsOptions options) (hch : ch ≠ 76 ∧ ch ≠ 75 ∧ ch ≠ 71 ∧ isOptionValChar ch = false) :
    ch ∉ attributesOf level keyword options := by
  intro h
  obtain ⟨hL, hK, hG, hval⟩ := hch
  rcases mem_attributesOf hoptions h with h | h | h | h
  · exact hL h
  · exact hK h
  · exact hG h
  · rw [hval] at h
    cases h

theorem attributeValuesOk_of_forall {group : List UInt8} (h : ∀ ch ∈ group, isOptionValChar ch = true) :
    attributeValuesOk group = true := by
  induction group with
  | nil => rfl
  | cons ch rest ih =>
    have hch : (isAsciiDigit ch || isAsciiLowercase ch) = true := h ch List.mem_cons_self
    rw [attributeValuesOk, if_pos hch]
    exact ih fun other hother ↦ h other (List.mem_cons_of_mem _ hother)

theorem otherAttributesOk_options {options : List UInt8} (h : IsOptions options) :
    otherAttributesOk options = true := by
  rcases h with rfl | ⟨group, rfl, hgroup⟩
  · rfl
  · rw [otherAttributesOk, attributeValuesOk_of_forall hgroup]
    rfl

/-- The check of the name accepts the level it was written with and finds the keyword. -/
theorem validateTracepointName_tracepointNameOf (name : List UInt8) {options : List UInt8}
    (level : UInt8) (keyword : UInt64) (hoptions : IsOptions options) :
    validateTracepointName (tracepointNameOf name options level keyword) level =
      .ok (true, some keyword.toNat) := by
  have hunderscore : (95 : UInt8) ∉ attributesOf level keyword options :=
    not_mem_attributesOf hoptions (by decide)
  have hfind := findAttributes_last name (attributesOf level keyword options) hunderscore
    (attributesOf level keyword options).length le_rfl
  have hlength : (tracepointNameOf name options level keyword).length =
      name.length + 1 + (attributesOf level keyword options).length := by
    rw [tracepointNameOf_eq, List.length_append, List.length_cons]
    omega
  rw [← hlength, ← tracepointNameOf_eq] at hfind
  have hcounts : (attributesOf level keyword options).length = 1 + (lowerHex level.toNat).length +
      1 + (lowerHex keyword.toNat).length + options.length := by
    simp only [attributesOf, List.length_cons, List.length_append]
    omega
  -- the name, cut before the `L`, the level, the `K`, the keyword and the options
  have hL : byteAt (tracepointNameOf name options level keyword) (name.length + 1) = .ok 76 := by
    have h := byteAt_append_length (name ++ [95])
      (lowerHex level.toNat ++ 75 :: (lowerHex keyword.toNat ++ options)) 76
    simpa [tracepointNameOf_eq, attributesOf] using h
  have hlevel : lowercaseHexToInt (tracepointNameOf name options level keyword)
      (name.length + 1 + 1) = (level.toNat, name.length + 2 + (lowerHex level.toNat).length) := by
    have h := lowercaseHexToInt_lowerHex level.toNat (by have := level.toNat_lt; omega)
      (name ++ [95, 76]) (75 :: (lowerHex keyword.toNat ++ options)) (by simp; decide)
    simpa [tracepointNameOf_eq, attributesOf] using h
  have hK : byteAt (tracepointNameOf name options level keyword)
      (name.length + 2 + (lowerHex level.toNat).length) = .ok 75 := by
    have h := byteAt_append_length (name ++ [95, 76] ++ lowerHex level.toNat)
      (lowerHex keyword.toNat ++ options) 75
    rw [List.length_append, List.length_append] at h
    simp only [List.append_assoc, List.cons_append, List.nil_append] at h
    rw [tracepointNameOf_eq, attributesOf]
    exact h
  have hkeyword : lowercaseHexToInt (tracepointNameOf name options level keyword)
      (name.length + 2 + (lowerHex level.toNat).length + 1) = (keyword.toNat,
        name.length + 2 + (lowerHex level.toNat).length + 1 + (lowerHex keyword.toNat).length) := by
    have hstop : ∀ ch ∈ options.head?, isLowerHexDigit ch = false := by
      rcases hoptions with rfl | ⟨group, rfl, _⟩
      · simp
      · simp; decide
    have h := lowercaseHexToInt_lowerHex keyword.toNat keyword.toNat_lt
      (name ++ [95, 76] ++ lowerHex level.toNat ++ [75]) options hstop
    rw [List.length_append, List.length_append, List.length_append] at h
    simp only [List.append_assoc, List.cons_append, List.nil_append] at h
    rw [tracepointNameOf_eq, attributesOf]
    exact h
  have hrest : (tracepointNameOf name options level keyword).drop (name.length + 2 +
      (lowerHex level.toNat).length + 1 + (lowerHex keyword.toNat).length) = options := by
    have hcut : tracepointNameOf name options level keyword = (name ++ [95, 76] ++
        lowerHex level.toNat ++ [75] ++ lowerHex keyword.toNat) ++ options := by
      simp [tracepointNameOf_eq, attributesOf]
    rw [hcut, List.drop_left']
    simp only [List.length_append, List.length_cons, List.length_nil]
  unfold validateTracepointName
  rw [hfind, ok_bind]
  dsimp only
  rw [if_neg (by omega), hL, ok_bind, if_neg (by simp), hlevel]
  dsimp only
  rw [if_neg (by simp), if_neg (by omega), hK, ok_bind, if_neg (by simp), hkeyword]
  dsimp only
  rw [hrest, otherAttributesOk_options hoptions]

/-- The provider name is what is before the last underscore. -/
theorem providerName_tracepointNameOf (name : List UInt8) {options : List UInt8} (level : UInt8) (keyword : UInt64)
    (hoptions : IsOptions options) :
    EventHeaderEventInfo.providerName (tracepointNameOf name options level keyword) = .ok name := by
  unfold EventHeaderEventInfo.providerName
  rw [tracepointNameOf_eq, Text.underscore,
    rfind_last 95 name _ (not_mem_attributesOf hoptions (by decide))]
  dsimp only
  unfold Text.strSlice
  rw [if_pos]
  · rw [List.drop_zero, Nat.sub_zero, List.take_left]
  · refine ⟨Nat.zero_le _, rfl, ?_⟩
    simp only [Text.isCharBoundary, List.getElem?_append_right le_rfl, Nat.sub_self,
      List.getElem?_cons_zero, Option.any_some, Bool.or_eq_true]
    exact .inr rfl

theorem isBeforeOptions_of_isLowerHexDigit {ch : UInt8} (h : isLowerHexDigit ch = true) :
    EventHeaderEventInfo.isBeforeOptions ch = true := by
  revert h
  cases ch with | ofBitVec bits => revert bits; decide

/-- The options follow the level and the keyword. -/
theorem options_tracepointNameOf (name : List UInt8) {options : List UInt8} (level : UInt8) (keyword : UInt64)
    (hoptions : IsOptions options) :
    EventHeaderEventInfo.options (tracepointNameOf name options level keyword) = options := by
  have hhex (value : ℕ) (rest : List UInt8) :
      (lowerHex value ++ rest).dropWhile EventHeaderEventInfo.isBeforeOptions =
        rest.dropWhile EventHeaderEventInfo.isBeforeOptions :=
    List.dropWhile_append_of_pos fun ch hch ↦
      isBeforeOptions_of_isLowerHexDigit (isLowerHexDigit_of_mem_lowerHex hch)
  unfold EventHeaderEventInfo.options
  rw [tracepointNameOf_eq, Text.underscore,
    rfind_last 95 name _ (not_mem_attributesOf hoptions (by decide))]
  dsimp only
  rw [List.drop_append, List.drop_eq_nil_of_le (by omega), List.nil_append, Nat.add_sub_cancel_left,
    List.drop_one, List.tail_cons, attributesOf, List.dropWhile_cons_of_pos (by decide), hhex,
    List.dropWhile_cons_of_pos (by decide), hhex]
  rcases hoptions with rfl | ⟨group, rfl, _⟩
  · rfl
  · exact List.dropWhile_cons_of_neg (by decide)

/-! ### Round trip -/

/-- A number below `16 ^ count` has at most so many digits. -/
theorem length_lowerHex_le {value count : ℕ} (hcount : 0 < count) (h : value < 16 ^ count) :
    (lowerHex value).length ≤ count := by
  rw [lowerHex, List.length_map]
  exact (Nat.length_toDigits_le_iff (by omega) hcount).2 h

theorem isOptions_ite {group : List UInt8} (hgroup : ∀ ch ∈ group, isOptionValChar ch = true) :
    IsOptions (if group.isEmpty then [] else 71 :: group) := by
  split_ifs
  · exact .inl rfl
  · exact .inr ⟨group, rfl, hgroup⟩

/-- The name of a tracepoint is shorter than `EVENTHEADER_NAME_MAX`. -/
theorem length_tracepointNameOf_lt {name group : List UInt8} (level : UInt8) (keyword : UInt64)
    (hlength : name.length + group.length < 234) :
    (tracepointNameOf name (if group.isEmpty then [] else 71 :: group) level keyword).length <
      eventheaderNameMax := by
  have hlevel : (lowerHex level.toNat).length ≤ 2 := length_lowerHex_le (by omega) level.toNat_lt
  have hkeyword : (lowerHex keyword.toNat).length ≤ 16 :=
    length_lowerHex_le (by omega) keyword.toNat_lt
  have hoptions : (if group.isEmpty then [] else 71 :: group : List UInt8).length ≤
      group.length + 1 := by
    split_ifs
    · exact Nat.zero_le _
    · exact le_rfl
  rw [tracepointNameOf_eq, List.length_append, List.length_cons, attributesOf, List.length_cons,
    List.length_append, List.length_cons, List.length_append, eventheaderNameMax]
  omega

theorem provider_new {name group : List UInt8} (build : Build)
    (hname : 0 ∉ name ∧ Text.space ∉ name ∧ Text.colon ∉ name)
    (hgroup : ∀ ch ∈ group, isOptionValChar ch = true) (hlength : name.length + group.length < 234) :
    Provider.new build name group =
      .ok ⟨name, if group.isEmpty then [] else 71 :: group⟩ := by
  have hmax : eventheaderNameMax - (ascii "_LffKffffffffffffffffG").length = 234 := by decide
  unfold Provider.new
  rw [debugAssert_of (List.all_eq_true.2 hgroup), ok_bind, hmax, if_neg (not_not.2 hlength),
    debugAssert_of hname.1, ok_bind, debugAssert_of hname.2.1, ok_bind, debugAssert_of hname.2.2,
    ok_bind]

/-- The name of a tracepoint ends at the first space of the command. -/
theorem takeWhile_commandOf {tracepointName : List UInt8} (h : Text.space ∉ tracepointName) :
    (commandOf tracepointName).takeWhile (· ≠ Text.space) = tracepointName := by
  have hspace : ascii " " = [Text.space] := by decide
  rw [commandOf, hspace, List.append_assoc, List.append_assoc, List.singleton_append,
    List.takeWhile_append_of_pos, List.takeWhile_cons_of_neg (by simp), List.append_nil]
  intro ch hch
  rw [decide_eq_true_eq]
  rintro rfl
  exact h hch

open EventHeaderEnumeratorContext in
/-- Assumes: a provider name and a group name that `Provider::new` accepts. Formatting the command
stays inside the buffer. Its part before the first space is a tracepoint name of at most 255 bytes,
under which every event with that level that is accepted under some name is accepted, with the
keyword, the provider name and the options that were written. -/
theorem commandString_roundTrip (build : Build) (buffer : CommandStringBuffer)
    (name group : List UInt8) (level : UInt8) (keyword : UInt64)
    (hname : 0 ∉ name ∧ Text.space ∉ name ∧ Text.colon ∉ name)
    (hgroup : ∀ ch ∈ group, isOptionValChar ch = true) (hlength : name.length + group.length < 234) :
    ∃ provider command tracepointName, Provider.new build name group = .ok provider ∧
      buffer.format provider.name provider.options level keyword = .ok command ∧
      tracepointName = command.takeWhile (· ≠ Text.space) ∧ tracepointName.length ≤ 255 ∧
      (∀ (data otherName : List UInt8) (limit : ℕ) (other otherStart : EventHeaderEnumeratorContext),
        data[7]? = some level →
        enumerateWithNameAndData data other otherName limit = .ok (.ok (), otherStart) →
        ∀ c, ∃ start, enumerateWithNameAndData data c tracepointName limit = .ok (.ok (), start) ∧
          start.eventInfo.keyword = keyword.toNat) ∧
      EventHeaderEventInfo.providerName tracepointName = .ok name ∧
      EventHeaderEventInfo.options tracepointName = if group.isEmpty then [] else 71 :: group := by
  have hoptions := isOptions_ite hgroup
  have hshort := @length_tracepointNameOf_lt name group level keyword hlength
  have hcheck := validateTracepointName_tracepointNameOf name level keyword hoptions
  have hprovider := providerName_tracepointNameOf name level keyword hoptions
  have hread := options_tracepointNameOf name level keyword hoptions
  have hnul : 0 ∉ tracepointNameOf name (if group.isEmpty then [] else 71 :: group) level
      keyword := by
    rw [tracepointNameOf_eq]
    refine List.not_mem_append hname.1 (List.not_mem_cons_of_ne_of_not_mem (by decide) ?_)
    exact not_mem_attributesOf hoptions (by decide)
  have hspace : Text.space ∉ tracepointNameOf name (if group.isEmpty then [] else 71 :: group) level
      keyword := by
    rw [tracepointNameOf_eq]
    refine List.not_mem_append hname.2.1 (List.not_mem_cons_of_ne_of_not_mem (by decide) ?_)
    exact not_mem_attributesOf hoptions (by decide)
  refine ⟨_, _, _, provider_new build hname hgroup hlength, buffer.format_returns hshort hnul,
    (takeWhile_commandOf hspace).symm, Nat.le_of_lt_succ hshort, ?_, hprovider, hread⟩
  intro data otherName limit other otherStart hlevel hother c
  obtain ⟨hotherLength, otherKeyword, hotherCheck⟩ := accepted_name hlevel hother
  have hnames (level' : UInt8) (hlevel' : data[7]? = some level') :
      Related (SameCheck fun _ found ↦ found = keyword.toNat)
        (validateTracepointName otherName level') (validateTracepointName (tracepointNameOf name
          (if group.isEmpty then [] else 71 :: group) level keyword) level') := by
    obtain rfl : level = level' := Option.some.inj (hlevel.symm.trans hlevel')
    rw [hotherCheck, hcheck]
    exact .ok ⟨rfl, fun _ ↦ ⟨_, _, rfl, rfl, rfl⟩⟩
  have hrelated := @enumerate_restarted data other c _ _ _ limit
    (iff_of_false (not_le.2 hotherLength) (not_le.2 hshort)) hnames
  obtain ⟨⟨result, start⟩, hstart, hresult, hkeyword⟩ := hrelated.of_left_ok hother
  obtain rfl : .ok () = result := hresult
  exact ⟨start, hstart, (hkeyword rfl).2⟩

open EventHeaderEnumeratorContext in
/-- A provider `A_L1K2Gx` of the group `g7`, whose name looks like attributes, and an event of level
5. -/
theorem sampleCommand_roundTrip : ∃ (buffer : CommandStringBuffer) (command : List UInt8)
    (start : EventHeaderEnumeratorContext),
    buffer.format (ascii "A_L1K2Gx") (ascii "Gg7") 5 0x1F = .ok command ∧
      enumerateWithNameAndData sampleEvent new (command.takeWhile (· ≠ Text.space)) 10 =
        .ok (.ok (), start) ∧ start.eventInfo.keyword = 0x1F ∧
      EventHeaderEventInfo.providerName (command.takeWhile (· ≠ Text.space)) =
        .ok (ascii "A_L1K2Gx") ∧
      EventHeaderEventInfo.options (command.takeWhile (· ≠ Text.space)) = ascii "Gg7" := by
  let buffer : CommandStringBuffer :=
    ⟨List.replicate eventheaderCommandMax 0, 0, List.length_replicate⟩
  have haccept : enumerateWithNameAndData sampleEvent new sampleName 10 =
      .ok (.ok (), sampleStart) := by decide +kernel
  obtain ⟨provider, command, _, hprovider, hformat, rfl, _, hevents, hname, hoptions⟩ :=
    commandString_roundTrip ⟨true, .little, true⟩ buffer (ascii "A_L1K2Gx") (ascii "g7") 5 0x1F
      (by decide) (by decide) (by decide)
  have hnew : Provider.new ⟨true, .little, true⟩ (ascii "A_L1K2Gx") (ascii "g7") =
      .ok ⟨ascii "A_L1K2Gx", ascii "Gg7"⟩ := by decide
  obtain rfl := Except.ok.inj (hnew.symm.trans hprovider)
  obtain ⟨start, hstart, hkeyword⟩ := hevents sampleEvent sampleName 10 new sampleStart (by decide)
    haccept new
  exact ⟨buffer, command, start, hformat, hstart, hkeyword, hname, hoptions⟩

end Tracepoints
