import Tracepoints.Lib.JsonString
import Tracepoints.Perf.Text

/-!
# Filters of text

The filters of `filters.rs` get a text in three ways: as a `str` (`write_str`), as an ASCII byte
(`write_ascii`) and as a character (`write_non_ascii`). A function of a filter is modelled by what it
writes to the destination, which does not fail. A `str` is its UTF-8 bytes, and a conversion of bytes
that are not UTF-8 to a `str` is a fault (`strFromValidatedUtf8`), so that a function that returns has
made no such conversion.

`Filter.Maps` says what a filter does to each character. `controlCharsSpaceFilter_maps` and
`jsonFilter_maps` say it of the filters. They rest on `writeRuns_units`, about the loop that cuts a
text into runs of bytes between the special ones.
-/

set_option autoImplicit false
set_option relaxedAutoImplicit false

namespace Tracepoints

open Exec
open String (utf8EncodeChar)

/-! ### The filters -/

/-- `Filter`: what its functions write. -/
structure Filter where
  writeStr : List UInt8 → Exec (List UInt8)
  writeAscii : UInt8 → Exec (List UInt8)
  writeNonAscii : Char → Exec (List UInt8)

/-- `str_from_validated_utf8`. -/
def strFromValidatedUtf8 (validUtf8 : List UInt8) : Exec (List UInt8) :=
  if (decodeUtf8 validUtf8).isSome then .ok validUtf8 else .error .assertion

/-- The bytes from `writtenPos` to `pos`, written as a `str` if `flushes`. -/
def writeRun (writeStr : List UInt8 → Exec (List UInt8)) (bytes : List UInt8)
    (flushes : Bool) (writtenPos pos : ℕ) : Exec (List UInt8) :=
  if flushes then do
    writeStr (← strFromValidatedUtf8 (← slice bytes writtenPos pos))
  else .ok []

/-- The loop over the bytes of a text that writes the bytes between special ones as a `str` each. The
functions that have it differ in which bytes are special, in when a run is written, and in what is
written for a special byte. -/
def writeRuns (isSpecial : UInt8 → Bool) (flushes : ℕ → ℕ → Bool)
    (writeStr : List UInt8 → Exec (List UInt8)) (writeSpecial : UInt8 → Exec (List UInt8))
    (bytes : List UInt8) : ℕ → ℕ → ℕ → Exec (List UInt8)
  | 0, _, writtenPos =>
    writeRun writeStr bytes (writtenPos < bytes.length) writtenPos bytes.length
  | count + 1, pos, writtenPos => do
    let byte ← byteAt bytes pos
    if isSpecial byte then
      let run ← writeRun writeStr bytes (flushes writtenPos pos) writtenPos pos
      let special ← writeSpecial byte
      let rest ← writeRuns isSpecial flushes writeStr writeSpecial bytes count (pos + 1) (pos + 1)
      .ok (run ++ special ++ rest)
    else writeRuns isSpecial flushes writeStr writeSpecial bytes count (pos + 1) writtenPos

/-- `WriteFilter`. -/
def writeFilter (build : Build) : Filter where
  writeStr value := .ok value
  writeAscii value := do
    debugAssert build (value < 0x80)
    strFromValidatedUtf8 [value]
  writeNonAscii value := .ok (utf8EncodeChar value)

/-- `ControlCharsSpaceFilter`. -/
def controlCharsSpaceFilter (build : Build) (lower : Filter) : Filter where
  writeStr value :=
    writeRuns (fun byte ↦ byte < 0x20) (fun writtenPos pos ↦ writtenPos < pos) lower.writeStr
      (fun _ ↦ lower.writeAscii 0x20) value value.length 0 0
  writeAscii value := do
    debugAssert build (value < 0x80)
    if value < 0x20 then lower.writeAscii 0x20 else lower.writeAscii value
  writeNonAscii := lower.writeNonAscii

namespace JsonFilterImpl

/-- `to_hex_char_uppercase`. -/
def toHexCharUppercase (nibble : UInt8) : UInt8 :=
  let nibble := nibble &&& 0xF
  if nibble ≤ 9 then 0x30 + nibble else 0x41 + nibble - 10

/-- `write_ascii_impl`. -/
def writeAsciiImpl (build : Build) (controlCharsOnly : Bool) (lower : Filter) (value : UInt8) :
    Exec (List UInt8) := do
  debugAssert build (value < 0x80)
  if value = 0x22 ∧ controlCharsOnly = false then lower.writeStr [0x5C, 0x22]
  else if value = 0x5C ∧ controlCharsOnly = false then lower.writeStr [0x5C, 0x5C]
  else if value = 0x08 then lower.writeStr [0x5C, 0x62]
  else if value = 0x0C then lower.writeStr [0x5C, 0x66]
  else if value = 0x0A then lower.writeStr [0x5C, 0x6E]
  else if value = 0x0D then lower.writeStr [0x5C, 0x72]
  else if value = 0x09 then lower.writeStr [0x5C, 0x74]
  else if value ≤ 0x1F then do
    lower.writeStr (← strFromValidatedUtf8 [0x5C, 0x75, 0x30, 0x30,
      if value < 0x10 then 0x30 else 0x31, toHexCharUppercase value])
  else lower.writeAscii value

/-- `write_str_impl`. -/
def writeStrImpl (build : Build) (controlCharsOnly : Bool) (lower : Filter) (value : List UInt8) :
    Exec (List UInt8) :=
  let checkChar : UInt8 := if controlCharsOnly then 0x1F else 0x5C
  writeRuns (fun byte ↦ byte ≤ checkChar) (fun writtenPos pos ↦ writtenPos ≤ pos) lower.writeStr
    (writeAsciiImpl build controlCharsOnly lower) value value.length 0 0

end JsonFilterImpl

/-- `JsonFilterImpl`, which `ControlCharsJsonFilter` and `JsonEscapeFilter` wrap. -/
def jsonFilter (build : Build) (controlCharsOnly : Bool) (lower : Filter) : Filter where
  writeStr := JsonFilterImpl.writeStrImpl build controlCharsOnly lower
  writeAscii value := do
    debugAssert build (value < 0x80)
    JsonFilterImpl.writeAsciiImpl build controlCharsOnly lower value
  writeNonAscii := lower.writeNonAscii

/-- `ControlCharsJsonFilter`. -/
def controlCharsJsonFilter (build : Build) (lower : Filter) : Filter := jsonFilter build true lower

/-- `JsonEscapeFilter`. -/
def jsonEscapeFilter (build : Build) (lower : Filter) : Filter := jsonFilter build false lower

/-! ### Runs of bytes -/

theorem strFromValidatedUtf8_utf8 (chars : List Char) :
    strFromValidatedUtf8 (utf8 chars) = .ok (utf8 chars) := by
  unfold strFromValidatedUtf8
  rw [decodeUtf8_utf8, Option.isSome_some, if_pos rfl]

theorem slice_append (before middle after : List UInt8) :
    slice (before ++ middle ++ after) before.length (before.length + middle.length) =
      .ok middle := by
  rw [slice_of_le (Nat.le_add_right _ _) (by simp), Nat.add_sub_cancel_left, List.append_assoc,
    List.drop_left, List.take_left]

theorem byteAt_append (before : List UInt8) (byte : UInt8) (after : List UInt8) :
    byteAt (before ++ byte :: after) before.length = .ok byte := by
  simp [byteAt]

theorem eq_nil_of_utf8 {chars : List Char} (h : utf8 chars = []) : chars = [] := by
  cases chars with
  | nil => rfl
  | cons c chars => exact absurd (List.append_eq_nil_iff.mp h).1 (utf8EncodeChar_ne_nil c)

theorem eq_nil_of_utf8_length {chars : List Char} (h : (utf8 chars).length = 0) : chars = [] :=
  eq_nil_of_utf8 (List.eq_nil_of_length_eq_zero h)

section Runs

variable {isSpecial : UInt8 → Bool} {flushes : ℕ → ℕ → Bool}
  {writeStr : List UInt8 → Exec (List UInt8)} {writeSpecial : UInt8 → Exec (List UInt8)}
  {plain : Char → List Char}

/-- Some bytes that the loop takes together, and the characters it writes for them: a character
without special bytes, or a special byte. -/
inductive RunUnit (isSpecial : UInt8 → Bool) (writeSpecial : UInt8 → Exec (List UInt8))
    (plain : Char → List Char) : List UInt8 × List Char → Prop
  | plain (c : Char) (hplain : ∀ byte ∈ utf8EncodeChar c, isSpecial byte = false) :
      RunUnit isSpecial writeSpecial plain (utf8EncodeChar c, plain c)
  | special (byte : UInt8) (out : List Char) (hspecial : isSpecial byte = true)
      (hout : writeSpecial byte = .ok (utf8 out)) :
      RunUnit isSpecial writeSpecial plain ([byte], out)

/-- The loop goes on over bytes that are not special. -/
theorem writeRuns_skip (before run after : List UInt8) (count writtenPos : ℕ)
    (h : ∀ byte ∈ run, isSpecial byte = false) :
    writeRuns isSpecial flushes writeStr writeSpecial (before ++ (run ++ after))
        (run.length + count) before.length writtenPos =
      writeRuns isSpecial flushes writeStr writeSpecial (before ++ (run ++ after)) count
        (before.length + run.length) writtenPos := by
  induction run generalizing before with
  | nil => rw [List.length_nil, Nat.zero_add, Nat.add_zero]
  | cons byte run ih =>
    have hstep := ih (before ++ [byte]) fun other hother ↦ h other (List.mem_cons_of_mem _ hother)
    rw [List.append_assoc, List.length_append] at hstep
    rw [List.length_cons, Nat.add_right_comm, writeRuns, List.cons_append, byteAt_append, ok_bind,
      h byte List.mem_cons_self, if_neg Bool.false_ne_true, Nat.add_comm run.length 1,
      ← Nat.add_assoc]
    exact hstep

/-- A run of characters is written as a `str`, or not at all if it is empty. -/
theorem writeRun_eq (hstr : ∀ chars, writeStr (utf8 chars) = .ok (utf8 (chars.flatMap plain)))
    (before after : List UInt8) (pending : List Char) {flushed : Bool}
    (hflushed : flushed = false → pending = []) :
    writeRun writeStr (before ++ utf8 pending ++ after) flushed before.length
        (before.length + (utf8 pending).length) = .ok (utf8 (pending.flatMap plain)) := by
  unfold writeRun
  cases flushed with
  | true => rw [if_pos rfl, slice_append, ok_bind, strFromValidatedUtf8_utf8, ok_bind, hstr]
  | false =>
    rw [if_neg Bool.false_ne_true, hflushed rfl]
    rfl

/-- Assumes: `writeStr` maps the characters of a text, non-empty runs are written, and the bytes still
to come are units. The loop writes what the characters before it and the units give. -/
theorem writeRuns_pending
    (hstr : ∀ chars, writeStr (utf8 chars) = .ok (utf8 (chars.flatMap plain)))
    (hflushes : ∀ writtenPos pos, writtenPos < pos → flushes writtenPos pos = true)
    (before : List UInt8) (pending : List Char) (units : List (List UInt8 × List Char))
    (hunits : ∀ unit ∈ units, RunUnit isSpecial writeSpecial plain unit) :
    writeRuns isSpecial flushes writeStr writeSpecial
        (before ++ utf8 pending ++ units.flatMap Prod.fst) (units.flatMap Prod.fst).length
        (before.length + (utf8 pending).length) before.length =
      .ok (utf8 (pending.flatMap plain ++ units.flatMap Prod.snd)) := by
  induction units generalizing before pending with
  | nil =>
    have hrun := @writeRun_eq writeStr plain hstr before [] pending
      (before.length < before.length + (utf8 pending).length) fun h ↦ eq_nil_of_utf8_length (by
        rw [decide_eq_false_iff_not] at h
        omega)
    rw [List.flatMap_nil, List.length_nil, writeRuns, List.flatMap_nil, List.append_nil]
    rw [List.append_nil] at hrun ⊢
    rw [List.length_append]
    exact hrun
  | cons unit units ih =>
    have hrest : ∀ unit ∈ units, RunUnit isSpecial writeSpecial plain unit :=
      fun other hother ↦ hunits other (List.mem_cons_of_mem _ hother)
    rw [List.flatMap_cons, List.flatMap_cons]
    cases hunits unit List.mem_cons_self with
    | plain c hplain =>
      -- The character joins the run.
      have hstep := ih before (pending ++ [c]) hrest
      have hskip := @writeRuns_skip isSpecial flushes writeStr writeSpecial (before ++ utf8 pending)
        (utf8EncodeChar c) (units.flatMap Prod.fst) (units.flatMap Prod.fst).length before.length
        hplain
      rw [utf8_append, utf8_singleton, List.flatMap_append, List.flatMap_singleton] at hstep
      simp only [List.append_assoc, List.length_append, Nat.add_assoc] at hstep hskip ⊢
      rw [hskip]
      exact hstep
    | special byte out hspecial hout =>
      have hstep := ih (before ++ utf8 pending ++ [byte]) [] hrest
      have hrun := @writeRun_eq writeStr plain hstr before (byte :: units.flatMap Prod.fst) pending
        (flushes before.length (before.length + (utf8 pending).length)) fun h ↦
          eq_nil_of_utf8_length (by
            by_contra hlength
            rw [hflushes _ _ (by omega)] at h
            cases h)
      have hbyte := byteAt_append (before ++ utf8 pending) byte (units.flatMap Prod.fst)
      rw [List.length_append] at hbyte
      rw [List.singleton_append, List.length_cons, writeRuns, hbyte, ok_bind, if_pos hspecial, hrun,
        ok_bind, hout, ok_bind]
      simp only [utf8_nil, List.append_nil, List.length_nil, Nat.add_zero, List.flatMap_nil,
        List.nil_append, List.length_append, List.length_singleton, List.append_assoc,
        List.singleton_append, Nat.add_assoc] at hstep ⊢
      rw [hstep, ok_bind]
      simp only [utf8_append]

/-- The loop over a whole text. -/
theorem writeRuns_units (hstr : ∀ chars, writeStr (utf8 chars) = .ok (utf8 (chars.flatMap plain)))
    (hflushes : ∀ writtenPos pos, writtenPos < pos → flushes writtenPos pos = true)
    (units : List (List UInt8 × List Char))
    (hunits : ∀ unit ∈ units, RunUnit isSpecial writeSpecial plain unit) :
    writeRuns isSpecial flushes writeStr writeSpecial (units.flatMap Prod.fst)
      (units.flatMap Prod.fst).length 0 0 = .ok (utf8 (units.flatMap Prod.snd)) :=
  writeRuns_pending hstr hflushes [] [] units hunits

/-- The loop over a text in UTF-8. Assumes: the special bytes are ASCII bytes; `mapped` is what is
written for a special character, and `plain` for the others. -/
theorem writeRuns_utf8 {mapped : Char → List Char}
    (hstr : ∀ chars, writeStr (utf8 chars) = .ok (utf8 (chars.flatMap plain)))
    (hflushes : ∀ writtenPos pos, writtenPos < pos → flushes writtenPos pos = true)
    (hascii : ∀ byte, isSpecial byte = true → byte.toNat < 0x80)
    (hspecial : ∀ c : Char, c.toNat < 0x80 → isSpecial (UInt8.ofNat c.toNat) = true →
      writeSpecial (UInt8.ofNat c.toNat) = .ok (utf8 (mapped c)))
    (hplain : ∀ c : Char, (c.toNat < 0x80 → isSpecial (UInt8.ofNat c.toNat) = false) →
      mapped c = plain c) (chars : List Char) :
    writeRuns isSpecial flushes writeStr writeSpecial (utf8 chars) (utf8 chars).length 0 0 =
      .ok (utf8 (chars.flatMap mapped)) := by
  have hunits := @writeRuns_units isSpecial flushes writeStr writeSpecial plain hstr hflushes
    (chars.map fun c ↦ (utf8EncodeChar c, mapped c))
  rw [List.flatMap_map, List.flatMap_map] at hunits
  refine hunits fun unit hunit ↦ ?_
  obtain ⟨c, _, rfl⟩ := List.mem_map.mp hunit
  by_cases hc : c.toNat < 0x80 ∧ isSpecial (UInt8.ofNat c.toNat) = true
  · rw [utf8EncodeChar_ascii hc.1]
    exact .special _ _ hc.2 (hspecial c hc.1 hc.2)
  · rw [hplain c fun hlt ↦ Bool.eq_false_of_not_eq_true fun h ↦ hc ⟨hlt, h⟩]
    refine .plain c fun byte hbyte ↦ Bool.eq_false_of_not_eq_true fun h ↦ ?_
    by_cases hlt : c.toNat < 0x80
    · rw [utf8EncodeChar_ascii hlt, List.mem_singleton] at hbyte
      rw [hbyte] at h
      exact hc ⟨hlt, h⟩
    · have hge := le_of_mem_utf8EncodeChar (Nat.le_of_not_lt hlt) hbyte
      have hsmall := hascii byte h
      omega

end Runs

/-! ### What the filters write -/

/-- A filter writes `mapped c` for a character `c` of a `str` and for an ASCII byte, and a character
that it gets as such unchanged. -/
structure Filter.Maps (filter : Filter) (mapped : Char → List Char) : Prop where
  str : ∀ chars, filter.writeStr (utf8 chars) = .ok (utf8 (chars.flatMap mapped))
  ascii : ∀ c : Char, c.toNat < 0x80 →
    filter.writeAscii (UInt8.ofNat c.toNat) = .ok (utf8 (mapped c))
  nonAscii : ∀ c, filter.writeNonAscii c = .ok (utf8 [c])

/-- A control character as a space. -/
def spaceControl (c : Char) : List Char := if c.toNat < 0x20 then [' '] else [c]

/-- A character as `JsonFilterImpl` writes it. -/
def jsonFilterChar (controlCharsOnly : Bool) (c : Char) : List Char :=
  if c.toNat < 0x20 ∨ controlCharsOnly = false ∧ (c = '"' ∨ c = '\\') then jsonEscape c else [c]

section Filters

variable {build : Build} {lower : Filter}

theorem toNat_ofNat_ascii {c : Char} (h : c.toNat < 0x80) :
    (UInt8.ofNat c.toNat).toNat = c.toNat :=
  Nat.mod_eq_of_lt (by omega)

theorem writeFilter_maps (build : Build) : (writeFilter build).Maps fun c ↦ [c] := by
  refine ⟨fun chars ↦ ?_, fun c hc ↦ ?_, fun c ↦ ?_⟩
  · rw [List.flatMap_singleton']
    rfl
  · have hlt : UInt8.ofNat c.toNat < 0x80 := by
      rw [UInt8.lt_iff_toNat_lt, toNat_ofNat_ascii hc]
      exact hc
    have hstr := strFromValidatedUtf8_utf8 [c]
    rw [utf8_singleton, utf8EncodeChar_ascii hc] at hstr
    unfold writeFilter
    dsimp only
    rw [debugAssert_of hlt, ok_bind, hstr, utf8_singleton, utf8EncodeChar_ascii hc]
  · rw [utf8_singleton]
    rfl

/-- Assumes: the lower filter writes every character as it is. -/
theorem controlCharsSpaceFilter_maps (hlower : lower.Maps fun c ↦ [c]) :
    (controlCharsSpaceFilter build lower).Maps spaceControl := by
  have hspace : lower.writeAscii 0x20 = .ok (utf8 [' ']) := hlower.ascii ' ' (by decide)
  have hcontrol {c : Char} (hc : c.toNat < 0x80) : UInt8.ofNat c.toNat < 0x20 ↔ c.toNat < 0x20 := by
    rw [UInt8.lt_iff_toNat_lt, toNat_ofNat_ascii hc]
    rfl
  refine ⟨fun chars ↦ ?_, fun c hc ↦ ?_, hlower.nonAscii⟩
  · refine writeRuns_utf8 hlower.str (fun _ _ h ↦ decide_eq_true h) ?_ ?_ ?_ chars
    · intro byte hbyte
      have hlt := UInt8.lt_iff_toNat_lt.mp (of_decide_eq_true hbyte)
      exact lt_trans hlt (by decide)
    · intro c hc hspecial
      rw [spaceControl, if_pos ((hcontrol hc).mp (of_decide_eq_true hspecial))]
      exact hspace
    · intro c hplain
      refine if_neg fun hlt ↦ ?_
      have hfalse := of_decide_eq_false (hplain (by omega))
      exact hfalse ((hcontrol (by omega)).mpr hlt)
  · have hlt : UInt8.ofNat c.toNat < 0x80 := by
      rw [UInt8.lt_iff_toNat_lt, toNat_ofNat_ascii hc]
      exact hc
    unfold controlCharsSpaceFilter spaceControl
    dsimp only
    rw [debugAssert_of hlt, ok_bind]
    by_cases hsmall : c.toNat < 0x20
    · rw [if_pos ((hcontrol hc).mpr hsmall), if_pos hsmall]
      exact hspace
    · rw [if_neg fun h ↦ hsmall ((hcontrol hc).mp h), if_neg hsmall]
      exact hlower.ascii c hc

/-- The escape of a control character that has no short one. -/
theorem uescape_eq {value : ℕ} (h : value < 0x20) :
    [0x5C, 0x75, 0x30, 0x30, if UInt8.ofNat value < 0x10 then 0x30 else 0x31,
      JsonFilterImpl.toHexCharUppercase (UInt8.ofNat value)] =
      utf8 ['\\', 'u', '0', '0', upperHexDigit (value / 16), upperHexDigit (value % 16)] := by
  revert h value
  decide

/-- Assumes: the lower filter writes every character as it is. -/
theorem writeAsciiImpl_eq (hlower : lower.Maps fun c ↦ [c]) (controlCharsOnly : Bool) {c : Char}
    (hc : c.toNat < 0x80) :
    JsonFilterImpl.writeAsciiImpl build controlCharsOnly lower (UInt8.ofNat c.toNat) =
      .ok (utf8 (jsonFilterChar controlCharsOnly c)) := by
  have hstr (chars : List Char) : lower.writeStr (utf8 chars) = .ok (utf8 chars) := by
    rw [hlower.str, List.flatMap_singleton']
  have hvalue := toNat_ofNat_ascii hc
  have heq (byte : UInt8) : UInt8.ofNat c.toNat = byte ↔ c.toNat = byte.toNat := by
    rw [← UInt8.toNat_inj, hvalue]
  have hchar (other : Char) : c = other ↔ c.toNat = other.toNat := by
    rw [← Char.toNat_inj]
  have hlt : UInt8.ofNat c.toNat < 0x80 := by
    rw [UInt8.lt_iff_toNat_lt, hvalue]
    exact hc
  have hle : UInt8.ofNat c.toNat ≤ 0x1F ↔ c.toNat ≤ 0x1F := by
    rw [UInt8.le_iff_toNat_le, hvalue]
    rfl
  unfold JsonFilterImpl.writeAsciiImpl jsonFilterChar jsonEscape
  rw [debugAssert_of hlt, ok_bind]
  simp only [heq, hchar, hle, UInt8.reduceToNat, Char.reduceToNat]
  by_cases hquote : c.toNat = 34 ∧ controlCharsOnly = false
  · rw [if_pos hquote, if_pos (Or.inr ⟨hquote.2, Or.inl hquote.1⟩), if_pos hquote.1]
    exact hstr ['\\', '"']
  by_cases hbackslash : c.toNat = 92 ∧ controlCharsOnly = false
  · have hother : c.toNat ≠ 34 := by omega
    rw [if_neg hquote, if_pos hbackslash, if_pos (Or.inr ⟨hbackslash.2, Or.inr hbackslash.1⟩),
      if_neg hother, if_pos hbackslash.1]
    exact hstr ['\\', '\\']
  rw [if_neg hquote, if_neg hbackslash]
  by_cases hcontrol : c.toNat < 0x20
  · have hnotQuote : c.toNat ≠ 34 := by omega
    have hnotBackslash : c.toNat ≠ 92 := by omega
    rw [if_pos (Or.inl hcontrol), if_neg hnotQuote, if_neg hnotBackslash, uescape_eq hcontrol,
      if_pos (Nat.le_of_lt_succ hcontrol : c.toNat ≤ 31)]
    split_ifs with hb hf hn hr ht
    · exact hstr ['\\', 'b']
    · exact hstr ['\\', 'f']
    · exact hstr ['\\', 'n']
    · exact hstr ['\\', 'r']
    · exact hstr ['\\', 't']
    · rw [strFromValidatedUtf8_utf8, ok_bind]
      exact hstr _
  · have hescapes : ¬(c.toNat < 0x20 ∨ controlCharsOnly = false ∧
        (c.toNat = 34 ∨ c.toNat = 92)) := by
      rintro (h | ⟨honly, h | h⟩)
      · exact hcontrol h
      · exact hquote ⟨h, honly⟩
      · exact hbackslash ⟨h, honly⟩
    rw [if_neg (by omega), if_neg (by omega), if_neg (by omega), if_neg (by omega),
      if_neg (by omega), if_neg (by omega), if_neg hescapes]
    exact hlower.ascii c hc

/-- Assumes: the lower filter writes every character as it is. -/
theorem jsonFilter_maps (hlower : lower.Maps fun c ↦ [c]) (controlCharsOnly : Bool) :
    (jsonFilter build controlCharsOnly lower).Maps (jsonFilterChar controlCharsOnly) := by
  have hascii {c : Char} (hc : c.toNat < 0x80) :=
    @writeAsciiImpl_eq build lower hlower controlCharsOnly c hc
  refine ⟨fun chars ↦ ?_, fun c hc ↦ ?_, hlower.nonAscii⟩
  · unfold jsonFilter JsonFilterImpl.writeStrImpl
    dsimp only
    refine writeRuns_utf8 hlower.str (fun _ _ h ↦ decide_eq_true (Nat.le_of_lt h)) ?_ ?_ ?_ chars
    · intro byte hbyte
      have hle := UInt8.le_iff_toNat_le.mp (of_decide_eq_true hbyte)
      refine lt_of_le_of_lt hle ?_
      cases controlCharsOnly <;> decide
    · exact fun c hc _ ↦ hascii hc
    · intro c hplain
      refine if_neg fun hescapes ↦ ?_
      have hlt : c.toNat < 0x80 := by
        rcases hescapes with h | ⟨_, rfl | rfl⟩
        · omega
        · decide
        · decide
      have hfalse := of_decide_eq_false (hplain hlt)
      rw [UInt8.le_iff_toNat_le, toNat_ofNat_ascii hlt] at hfalse
      cases controlCharsOnly with
      | true =>
        rcases hescapes with h | ⟨h, _⟩
        · exact hfalse (Nat.le_of_lt_succ h)
        · cases h
      | false =>
        refine hfalse (?_ : c.toNat ≤ 0x5C)
        rcases hescapes with h | ⟨_, rfl | rfl⟩
        · omega
        · decide
        · decide
  · have hlt : UInt8.ofNat c.toNat < 0x80 := by
      rw [UInt8.lt_iff_toNat_lt, toNat_ofNat_ascii hc]
      exact hc
    unfold jsonFilter
    dsimp only
    rw [debugAssert_of hlt, ok_bind]
    exact hascii hc

end Filters

end Tracepoints
