import Mathlib.Data.List.Forall2
import Mathlib.Data.List.Induction
import Tracepoints.Lib.Exec
import Tracepoints.Lib.JsonText
import Tracepoints.Perf.Text

/-!
# Parsing GUIDs

`Guid` of `eventheader_types/src/guid.rs` with `try_parse_ascii` and `to_utf8_bytes`. The parser looks
at the braces and the dashes first and then reads sixteen pairs of digits; a character that is not a
digit shows only in the bits that are collected above the lowest eight.

`GuidText` is the grammar. `readBytes_layout` says what the sixteen reads do on a text that is laid out
with or without dashes, and `highbits_iff` that the collected bits are those of bad digits.
`Guid.tryParseAscii_grammar` is the result: the parser accepts the grammar, and reads back what is written.
-/

set_option autoImplicit false
set_option relaxedAutoImplicit false

namespace Tracepoints

open Exec

/-- `Guid`, in big-endian byte order. -/
@[ext] structure Guid where
  bytes : List UInt8
  length_eq : bytes.length = 16

/-! ### Parsing -/

/-- `GuidParseState`. -/
structure GuidParseState where
  input : List UInt8
  pos : ℕ
  dash : ℕ
  highbits : ℕ

namespace GuidParseState

/-- `hex_to_u4`: 256 for a character that is not a digit. -/
def hexToU4 (ch : UInt8) : ℕ :=
  if ch - 48 < 10 then (ch - 48).toNat
  else if (ch ||| 32) - 97 < 6 then ((ch ||| 32) - 97 + 10).toNat
  else 256

/-- `next`. -/
def next (state : GuidParseState) : Exec (UInt8 × GuidParseState) := do
  let val1 := hexToU4 (← byteAt state.input state.pos)
  let val2 := hexToU4 (← byteAt state.input (state.pos + 1))
  let val := val1 <<< 4 ||| val2
  .ok (UInt8.ofNat val,
    { state with pos := state.pos + 2, highbits := state.highbits ||| val })

/-- `next_dash`. -/
def nextDash (state : GuidParseState) : Exec (UInt8 × GuidParseState) :=
  { state with pos := state.pos + state.dash }.next

/-- A call of `next_dash`, where the flag is set, or of `next`. -/
def call (afterDash : Bool) (state : GuidParseState) : Exec (UInt8 × GuidParseState) :=
  if afterDash then state.nextDash else state.next

/-- A sequence of calls. -/
def readBytes : (flags : List Bool) → GuidParseState →
    Exec ({ bytes : List UInt8 // bytes.length = flags.length } × GuidParseState)
  | [], state => .ok (⟨[], rfl⟩, state)
  | afterDash :: flags, state => do
    let (byte, state) ← state.call afterDash
    let (bytes, state) ← readBytes flags state
    .ok (⟨byte :: bytes.1, congrArg (· + 1) bytes.2⟩, state)

/-- The calls that `try_parse_ascii` makes. -/
def calls : List Bool :=
  [false, false, false, false] ++ [true, false] ++ [true, false] ++ [true, false] ++
    [true, false, false, false, false, false]

end GuidParseState

namespace Guid

/-- The input of the parser in `try_parse_ascii`: the text without the braces. -/
def parseStateInput (value : List UInt8) : Exec (List UInt8) := do
  let first ← byteAt value 0
  let last ← byteAt value (value.length - 1)
  if first ≠ 0x7B ∨ last ≠ 0x7D then .ok value else slice value 1 (value.length - 1)

open GuidParseState in
/-- The part of `try_parse_ascii` behind the braces. The conjunctions are not short-circuited. -/
def parseInput (input : List UInt8) : Exec (Option Guid) := do
  let dash1 ← byteAt input 8
  let dash2 ← byteAt input 13
  let dash3 ← byteAt input 18
  let dash4 ← byteAt input 23
  let dashes : Bool :=
    input.length == 36 && dash1 == 0x2D && dash2 == 0x2D && dash3 == 0x2D && dash4 == 0x2D
  if !dashes && input.length != 32 then .ok none
  else do
    let (bytes, state) ← readBytes calls ⟨input, 0, if dashes then 1 else 0, 0⟩
    if state.highbits &&& 0xFFFFFF00 ≠ 0 then .ok none else .ok (some ⟨bytes.1, bytes.2⟩)

/-- `try_parse_ascii`. -/
def tryParseAscii (value : List UInt8) : Exec (Option Guid) :=
  if value.length < 32 then .ok none
  else do
    let input ← parseStateInput value
    parseInput input

/-- A digit of base 16 in lowercase: an entry of `HEX_DIGITS`. -/
def hexDigit (value : ℕ) : UInt8 := (ascii "0123456789abcdef").getD value 0

/-- Two digits for each of some bytes. -/
def hexPairs (bytes : List UInt8) : List UInt8 :=
  bytes.flatMap fun byte : UInt8 ↦ [hexDigit (byte >>> 4).toNat, hexDigit (byte &&& 0xF).toNat]

/-- `to_utf8_bytes`. -/
def toUtf8Bytes (guid : Guid) : List UInt8 :=
  hexPairs (guid.bytes.take 4) ++ 0x2D :: (hexPairs ((guid.bytes.drop 4).take 2) ++
    0x2D :: (hexPairs ((guid.bytes.drop 6).take 2) ++
      0x2D :: (hexPairs ((guid.bytes.drop 8).take 2) ++ 0x2D :: hexPairs (guid.bytes.drop 10))))

end Guid

/-! ### The grammar -/

/-- A text without the braces around it. -/
def unbraced (text : List UInt8) : List UInt8 :=
  if text.head? = some 0x7B ∧ text.getLast? = some 0x7D then (text.drop 1).dropLast else text

/-- A text of 32 digits, or of groups of digits with dashes between them, and its digits. -/
inductive GuidBody : List UInt8 → List UInt8 → Prop
  | plain {digits : List UInt8} (hlength : digits.length = 32)
      (hhex : ∀ c ∈ digits, IsHexDigit c) : GuidBody digits digits
  | dashed {a b c d e : List UInt8} (ha : a.length = 8) (hb : b.length = 4) (hc : c.length = 4)
      (hd : d.length = 4) (he : e.length = 12) (hhex : ∀ x ∈ a ++ b ++ c ++ d ++ e, IsHexDigit x) :
      GuidBody (a ++ 0x2D :: (b ++ 0x2D :: (c ++ 0x2D :: (d ++ 0x2D :: e)))) (a ++ b ++ c ++ d ++ e)

/-- The texts of GUIDs and their digits. -/
def GuidText (text digits : List UInt8) : Prop := GuidBody (unbraced text) digits

/-- The value of a digit in base 16. -/
def hexDigitNumber (c : UInt8) : ℕ :=
  if c ≤ 0x39 then c.toNat - 0x30 else if c ≤ 0x46 then c.toNat - 0x37 else c.toNat - 0x57

/-- The number that digits in base 16 stand for. -/
def hexNumber (digits : List UInt8) : ℕ :=
  digits.foldl (fun number c ↦ 16 * number + hexDigitNumber c) 0

/-! ### Reading digits -/

namespace GuidParseState

theorem hexToU4_of_digit {c : UInt8} (h : IsHexDigit c) :
    hexToU4 c = hexDigitNumber c ∧ hexDigitNumber c < 16 := by
  revert h
  cases c with
  | ofBitVec bits =>
    revert bits
    decide +kernel

theorem hexToU4_of_not_digit {c : UInt8} (h : ¬IsHexDigit c) : hexToU4 c = 256 := by
  revert h
  cases c with
  | ofBitVec bits =>
    revert bits
    decide +kernel

/-- The value of two characters. -/
def pairValue (first second : UInt8) : ℕ := hexToU4 first <<< 4 ||| hexToU4 second

/-- The bytes of pairs of characters. -/
def pairBytes : List UInt8 → List UInt8
  | first :: second :: rest => UInt8.ofNat (pairValue first second) :: pairBytes rest
  | _ => []

/-- The bits of all pairs of characters. -/
def pairBits : List UInt8 → ℕ
  | first :: second :: rest => pairValue first second ||| pairBits rest
  | _ => 0

/-- Digits with characters to skip in front of some pairs. -/
def layout (dash : ℕ) : List Bool → List UInt8 → List UInt8
  | afterDash :: flags, first :: second :: rest =>
    List.replicate (if afterDash then dash else 0) 0x2D ++ first :: second :: layout dash flags rest
  | _, _ => []

theorem next_eq {state : GuidParseState} {first second : UInt8} {rest : List UInt8}
    (h : state.input.drop state.pos = first :: second :: rest) :
    state.next = .ok (UInt8.ofNat (pairValue first second),
      { state with pos := state.pos + 2, highbits := state.highbits ||| pairValue first second }) := by
  have hfirst : byteAt state.input state.pos = .ok first := by
    unfold byteAt
    rw [← Nat.add_zero state.pos, ← List.getElem?_drop, h]
    rfl
  have hsecond : byteAt state.input (state.pos + 1) = .ok second := by
    unfold byteAt
    rw [← List.getElem?_drop, h]
    rfl
  unfold next
  rw [hfirst, ok_bind, hsecond, ok_bind]
  rfl

/-- Reading a text that is laid out gives the bytes of its digits. -/
theorem readBytes_layout (flags : List Bool) :
    ∀ (state : GuidParseState) (digits rest : List UInt8), digits.length = 2 * flags.length →
      state.input.drop state.pos = layout state.dash flags digits ++ rest →
      ∃ bytes pos, readBytes flags state = .ok (bytes, { state with
          pos := pos, highbits := state.highbits ||| pairBits digits }) ∧
        bytes.1 = pairBytes digits := by
  induction flags with
  | nil =>
    intro state digits rest hlength hinput
    obtain rfl : digits = [] := List.eq_nil_of_length_eq_zero hlength
    refine ⟨⟨[], rfl⟩, state.pos, ?_, rfl⟩
    rw [show pairBits [] = 0 from rfl, Nat.or_zero]
    rfl
  | cons afterDash flags ih =>
    intro state digits rest hlength hinput
    match digits, hlength with
    | first :: second :: digits, hlength =>
      simp only [List.length_cons] at hlength
      rw [layout, List.append_assoc] at hinput
      -- The state behind the characters to skip.
      set skip := if afterDash then state.dash else 0 with hskip
      have hat : state.input.drop (state.pos + skip) =
          first :: second :: (layout state.dash flags digits ++ rest) := by
        rw [← List.drop_drop, hinput, List.drop_append_of_le_length (by simp), List.drop_of_length_le
          (by simp)]
        rfl
      have hcall : state.call afterDash =
          ({ state with pos := state.pos + skip } : GuidParseState).next := by
        cases afterDash with
        | false => rfl
        | true => rfl
      obtain ⟨bytes, pos, hread, hbytes⟩ := ih
        { state with
          pos := state.pos + skip + 2
          highbits := state.highbits ||| pairValue first second } digits rest (by omega) (by
            rw [← List.drop_drop, hat]
            rfl)
      refine ⟨⟨UInt8.ofNat (pairValue first second) :: bytes.1, congrArg (· + 1) bytes.2⟩, pos, ?_,
        ?_⟩
      · rw [readBytes, hcall, next_eq hat, ok_bind]
        dsimp only
        rw [hread, ok_bind, pairBits, Nat.or_assoc]
      · exact congrArg _ hbytes

/-! ### What is collected -/

/-- The bits above the lowest eight are those of a character that is not a digit. -/
theorem pairValue_and (first second : UInt8) :
    pairValue first second &&& 0xFFFFFF00 = 0 ↔ IsHexDigit first ∧ IsHexDigit second := by
  have hbits : ∀ high < 16, ∀ low < 16, (high <<< 4 ||| low) &&& 0xFFFFFF00 = 0 := by decide
  have hhigh : ∀ low ∈ 256 :: List.range 16, (256 <<< 4 ||| low) &&& 0xFFFFFF00 ≠ 0 := by decide
  have hlow : ∀ high < 16, (high <<< 4 ||| 256) &&& 0xFFFFFF00 ≠ 0 := by decide
  unfold pairValue
  by_cases hfirst : IsHexDigit first
  · obtain ⟨hvalue, hlt⟩ := hexToU4_of_digit hfirst
    by_cases hsecond : IsHexDigit second
    · obtain ⟨hvalue', hlt'⟩ := hexToU4_of_digit hsecond
      rw [hvalue, hvalue']
      exact iff_of_true (hbits _ hlt _ hlt') ⟨hfirst, hsecond⟩
    · rw [hvalue, hexToU4_of_not_digit hsecond]
      exact iff_of_false (hlow _ hlt) fun h ↦ hsecond h.2
  · have hmem : hexToU4 second ∈ 256 :: List.range 16 := by
      by_cases hsecond : IsHexDigit second
      · obtain ⟨hvalue, hlt⟩ := hexToU4_of_digit hsecond
        rw [hvalue]
        exact List.mem_cons_of_mem _ (List.mem_range.mpr hlt)
      · rw [hexToU4_of_not_digit hsecond]
        exact List.mem_cons_self
    rw [hexToU4_of_not_digit hfirst]
    exact iff_of_false (hhigh _ hmem) fun h ↦ hfirst h.1

/-- Assumes: an even number of characters. -/
theorem highbits_iff {digits : List UInt8} {count : ℕ} (hlength : digits.length = 2 * count) :
    pairBits digits &&& 0xFFFFFF00 = 0 ↔ ∀ c ∈ digits, IsHexDigit c := by
  induction count generalizing digits with
  | zero =>
    obtain rfl : digits = [] := List.eq_nil_of_length_eq_zero hlength
    simp [pairBits]
  | succ count ih =>
    match digits, hlength with
    | first :: second :: rest, hlength =>
      simp only [List.length_cons] at hlength
      rw [pairBits, Nat.and_or_distrib_right, Nat.or_eq_zero_iff, pairValue_and, ih (by omega),
        List.forall_mem_cons, List.forall_mem_cons, and_assoc]

/-- Bytes in big-endian order, from the front. -/
theorem big_ofBytes_eq_foldl (bytes : List UInt8) :
    ByteOrder.big.ofBytes bytes =
      bytes.foldl (fun number byte ↦ 256 * number + byte.toNat) 0 := by
  induction bytes using List.reverseRecOn with
  | nil => rfl
  | append_singleton bytes byte ih =>
    rw [List.foldl_append, ← ih]
    unfold ByteOrder.ofBytes
    rw [List.reverse_append]
    exact Nat.add_comm _ _

theorem foldl_pairBytes {digits : List UInt8} {count : ℕ} (hlength : digits.length = 2 * count)
    (hhex : ∀ c ∈ digits, IsHexDigit c) (number : ℕ) :
    (pairBytes digits).foldl (fun number byte ↦ 256 * number + byte.toNat) number =
      digits.foldl (fun number c ↦ 16 * number + hexDigitNumber c) number := by
  induction count generalizing digits number with
  | zero =>
    obtain rfl : digits = [] := List.eq_nil_of_length_eq_zero hlength
    rfl
  | succ count ih =>
    match digits, hlength with
    | first :: second :: rest, hlength =>
      simp only [List.length_cons] at hlength
      obtain ⟨hfirst, hothers⟩ := List.forall_mem_cons.mp hhex
      obtain ⟨hsecond, hrest⟩ := List.forall_mem_cons.mp hothers
      obtain ⟨hvalue, hlt⟩ := hexToU4_of_digit hfirst
      obtain ⟨hvalue', hlt'⟩ := hexToU4_of_digit hsecond
      have hpair : (UInt8.ofNat (pairValue first second)).toNat =
          16 * hexDigitNumber first + hexDigitNumber second := by
        have hall : ∀ high < 16, ∀ low < 16, (UInt8.ofNat (high <<< 4 ||| low)).toNat =
            16 * high + low := by decide
        unfold pairValue
        rw [hvalue, hvalue']
        exact hall _ hlt _ hlt'
      rw [pairBytes, List.foldl_cons, List.foldl_cons, List.foldl_cons, hpair, ih (by omega) hrest]
      congr 1
      omega

/-- The number of the bytes is that of the digits. -/
theorem ofBytes_pairBytes {digits : List UInt8} {count : ℕ} (hlength : digits.length = 2 * count)
    (hhex : ∀ c ∈ digits, IsHexDigit c) :
    ByteOrder.big.ofBytes (pairBytes digits) = hexNumber digits := by
  rw [big_ofBytes_eq_foldl]
  exact foldl_pairBytes hlength hhex 0

/-! ### Layouts -/

theorem layout_append (dash : ℕ) {flags : List Bool} {digits : List UInt8}
    (hlength : digits.length = 2 * flags.length) (flags' : List Bool) (digits' : List UInt8) :
    layout dash (flags ++ flags') (digits ++ digits') =
      layout dash flags digits ++ layout dash flags' digits' := by
  induction flags generalizing digits with
  | nil =>
    obtain rfl : digits = [] := List.eq_nil_of_length_eq_zero hlength
    rfl
  | cons afterDash flags ih =>
    match digits, hlength with
    | first :: second :: rest, hlength =>
      simp only [List.length_cons] at hlength
      simp only [List.cons_append, layout, ih (by omega : rest.length = 2 * flags.length),
        List.append_assoc]

/-- Without dashes, the digits follow one another. -/
theorem layout_plain {dash : ℕ} {flags : List Bool} {digits : List UInt8}
    (hflags : ∀ flag ∈ flags, flag = false ∨ dash = 0) (hlength : digits.length = 2 * flags.length) :
    layout dash flags digits = digits := by
  induction flags generalizing digits with
  | nil =>
    obtain rfl : digits = [] := List.eq_nil_of_length_eq_zero hlength
    rfl
  | cons afterDash flags ih =>
    match digits, hlength with
    | first :: second :: rest, hlength =>
      simp only [List.length_cons] at hlength
      obtain ⟨hfirst, hrest⟩ := List.forall_mem_cons.mp hflags
      have hskip : (if afterDash then dash else 0) = 0 := by
        rcases hfirst with rfl | rfl
        · rfl
        · exact ite_self 0
      rw [layout, hskip, ih hrest (by omega)]
      rfl

/-- A group of digits behind a dash. -/
theorem layout_group {flags : List Bool} {digits : List UInt8} (hflags : ∀ flag ∈ flags, flag = false)
    (hlength : digits.length = 2 * (flags.length + 1)) :
    layout 1 (true :: flags) digits = 0x2D :: digits := by
  match digits, hlength with
  | first :: second :: rest, hlength =>
    simp only [List.length_cons] at hlength
    rw [layout, layout_plain (fun flag hflag ↦ .inl (hflags flag hflag)) (by omega)]
    rfl

/-- The calls of the parser read the groups of a text with dashes. -/
theorem layout_calls {a b c d e : List UInt8} (ha : a.length = 8) (hb : b.length = 4)
    (hc : c.length = 4) (hd : d.length = 4) (he : e.length = 12) :
    layout 1 calls (a ++ b ++ c ++ d ++ e) =
      a ++ 0x2D :: (b ++ 0x2D :: (c ++ 0x2D :: (d ++ 0x2D :: e))) := by
  unfold calls
  rw [layout_append 1 (by simp [ha, hb, hc, hd]), layout_append 1 (by simp [ha, hb, hc]),
    layout_append 1 (by simp [ha, hb]), layout_append 1 (by simp [ha]),
    layout_plain (by decide) (by simp [ha]), layout_group (by decide) (by simp [hb]),
    layout_group (by decide) (by simp [hc]), layout_group (by decide) (by simp [hd]),
    layout_group (by decide) (by simp [he])]
  simp

end GuidParseState

/-! ### The parser and the grammar -/

namespace Guid

open GuidParseState

/-- Assumes: four dashes in a text of 36 characters. -/
theorem exists_groups {input : List UInt8} (hlength : input.length = 36)
    (h1 : input.getD 8 0 = 0x2D) (h2 : input.getD 13 0 = 0x2D) (h3 : input.getD 18 0 = 0x2D)
    (h4 : input.getD 23 0 = 0x2D) :
    ∃ a b c d e : List UInt8, a.length = 8 ∧ b.length = 4 ∧ c.length = 4 ∧ d.length = 4 ∧
      e.length = 12 ∧ input = a ++ 0x2D :: (b ++ 0x2D :: (c ++ 0x2D :: (d ++ 0x2D :: e))) := by
  have hsplit (start count : ℕ) (hlt : start + count < 36)
      (hdash : input.getD (start + count) 0 = 0x2D) :
      input.drop start =
        (input.drop start).take count ++ 0x2D :: input.drop (start + count + 1) := by
    have hbyte : input[start + count] = 0x2D := by
      rw [← hdash, List.getD_eq_getElem?_getD, List.getElem?_eq_getElem (by omega),
        Option.getD_some]
    have hrest : input.drop (start + count) = 0x2D :: input.drop (start + count + 1) := by
      rw [List.drop_eq_getElem_cons (by omega), hbyte]
    rw [← hrest, ← List.drop_drop, List.take_append_drop]
  refine ⟨(input.drop 0).take 8, (input.drop 9).take 4, (input.drop 14).take 4,
    (input.drop 19).take 4, input.drop 24, ?_, ?_, ?_, ?_, ?_, ?_⟩
  · simp [hlength]
  · simp [hlength]
  · simp [hlength]
  · simp [hlength]
  · simp [hlength]
  · rw [← hsplit 19 4 (by omega) h4, ← hsplit 14 4 (by omega) h3, ← hsplit 9 4 (by omega) h2,
      ← hsplit 0 8 (by omega) h1, List.drop_zero]

/-- What the parser does with the text between the braces. -/
def Accepts (input : List UInt8) (result : Option Guid) : Prop :=
  (∀ digits, GuidBody input digits → ∃ guid, result = some guid ∧
    ByteOrder.big.ofBytes guid.bytes = hexNumber digits) ∧
  ((¬∃ digits, GuidBody input digits) → result = none)

/-- The digits of a text are laid out for the calls of the parser. -/
theorem accepts_of_layout {input digits : List UInt8} {dash : ℕ} (hlength : digits.length = 32)
    (hinput : input = layout dash calls digits)
    (hbody : ∀ other, GuidBody input other ↔ other = digits ∧ ∀ c ∈ digits, IsHexDigit c) :
    ∃ result, (do
        let (bytes, state) ← readBytes calls ⟨input, 0, dash, 0⟩
        if state.highbits &&& 0xFFFFFF00 ≠ 0 then .ok none
        else .ok (some ⟨bytes.1, bytes.2⟩) : Exec (Option Guid)) = .ok result ∧
      Accepts input result := by
  obtain ⟨bytes, pos, hread, hbytes⟩ := readBytes_layout calls ⟨input, 0, dash, 0⟩ digits []
    hlength (by rw [List.append_nil, ← hinput]; rfl)
  have hiff := @highbits_iff digits 16 hlength
  rw [hread, ok_bind]
  dsimp only
  rw [Nat.zero_or]
  by_cases hhex : ∀ c ∈ digits, IsHexDigit c
  · rw [if_neg (not_not.mpr (hiff.mpr hhex))]
    refine ⟨_, rfl, ?_, ?_⟩
    · intro other hother
      obtain ⟨rfl, -⟩ := (hbody other).mp hother
      refine ⟨_, rfl, ?_⟩
      dsimp only
      rw [hbytes]
      exact @ofBytes_pairBytes other 16 hlength hhex
    · exact fun hnone ↦ absurd ⟨digits, (hbody digits).mpr ⟨rfl, hhex⟩⟩ hnone
  · rw [if_pos fun hzero ↦ hhex (hiff.mp hzero)]
    refine ⟨none, rfl, ?_, fun _ ↦ rfl⟩
    exact fun other hother ↦ absurd ((hbody other).mp hother).2 hhex

theorem length_of_guidBody {text digits : List UInt8} (h : GuidBody text digits) :
    text.length = 32 ∨ text.length = 36 := by
  cases h with
  | plain hlength => exact .inl hlength
  | dashed ha hb hc hd he =>
    right
    simp only [List.length_append, List.length_cons]
    omega

/-- A text of another length is not accepted. -/
theorem accepts_none {input : List UInt8} (h : ∀ digits, ¬GuidBody input digits) :
    Accepts input none :=
  ⟨fun digits hbody ↦ absurd hbody (h digits), fun _ ↦ rfl⟩

/-- The groups of a text with dashes are its only ones. -/
theorem guidBody_dashed {a b c d e : List UInt8} (ha : a.length = 8) (hb : b.length = 4)
    (hc : c.length = 4) (hd : d.length = 4) (he : e.length = 12) (other : List UInt8) :
    GuidBody (a ++ 0x2D :: (b ++ 0x2D :: (c ++ 0x2D :: (d ++ 0x2D :: e)))) other ↔
      other = a ++ b ++ c ++ d ++ e ∧ ∀ x ∈ a ++ b ++ c ++ d ++ e, IsHexDigit x := by
  constructor
  · intro h
    generalize htext : a ++ 0x2D :: (b ++ 0x2D :: (c ++ 0x2D :: (d ++ 0x2D :: e))) = text at h
    cases h with
    | plain hlength =>
      have hlong := congrArg List.length htext
      simp only [List.length_append, List.length_cons] at hlong
      omega
    | dashed ha' hb' hc' hd' he' hhex =>
      obtain ⟨hfirst, hrest⟩ := List.append_inj htext (by omega)
      obtain ⟨hsecond, hrest⟩ := List.append_inj (List.cons.inj hrest).2 (by omega)
      obtain ⟨hthird, hrest⟩ := List.append_inj (List.cons.inj hrest).2 (by omega)
      obtain ⟨hfourth, hrest⟩ := List.append_inj (List.cons.inj hrest).2 (by omega)
      have hfifth := (List.cons.inj hrest).2
      rw [hfirst, hsecond, hthird, hfourth, hfifth]
      exact ⟨rfl, hhex⟩
  · rintro ⟨rfl, hhex⟩
    exact .dashed ha hb hc hd he hhex

theorem guidBody_plain {digits : List UInt8} (hlength : digits.length = 32) (other : List UInt8) :
    GuidBody digits other ↔ other = digits ∧ ∀ c ∈ digits, IsHexDigit c := by
  constructor
  · intro h
    cases h with
    | plain _ hhex => exact ⟨rfl, hhex⟩
    | dashed ha hb hc hd he =>
      simp only [List.length_append, List.length_cons] at hlength
      omega
  · rintro ⟨rfl, hhex⟩
    exact .plain hlength hhex

/-- A character of a text that is long enough. -/
theorem getD_dash {a b : List UInt8} {x : UInt8} {index : ℕ} (h : a.length = index) :
    (a ++ x :: b).getD index 0 = x := by
  rw [List.getD_eq_getElem?_getD, List.getElem?_append_right (by omega), h, Nat.sub_self]
  rfl

theorem length_unbraced (text : List UInt8) :
    (unbraced text).length ≤ text.length ∧ text.length ≤ (unbraced text).length + 2 := by
  unfold unbraced
  split
  · rw [List.length_dropLast, List.length_drop]
    omega
  · omega

/-- The parser takes the braces off. -/
theorem parseStateInput_eq {text : List UInt8} (hlength : 32 ≤ text.length) :
    parseStateInput text = .ok (unbraced text) := by
  have hhead : text.head? = some text[0] := by
    rw [List.head?_eq_getElem?, List.getElem?_eq_getElem]
  have hlast : text.getLast? = some text[text.length - 1] := by
    rw [List.getLast?_eq_getElem?, List.getElem?_eq_getElem]
  unfold parseStateInput unbraced
  rw [byteAt_of_lt (by omega), ok_bind, byteAt_of_lt (by omega), ok_bind]
  by_cases hbraces : text[0] = 0x7B ∧ text[text.length - 1] = 0x7D
  · have htext : text.head? = some 0x7B ∧ text.getLast? = some 0x7D := by
      rw [hhead, hlast, hbraces.1, hbraces.2]
      exact ⟨rfl, rfl⟩
    rw [if_neg (by simp [hbraces.1, hbraces.2]), if_pos htext, slice_of_le (by omega) (by omega),
      List.dropLast_eq_take, List.length_drop]
  · have htext : ¬(text.head? = some 0x7B ∧ text.getLast? = some 0x7D) := by
      rw [hhead, hlast, Option.some.injEq, Option.some.injEq]
      exact hbraces
    rw [if_pos (not_and_or.mp hbraces), if_neg htext]

/-- Assumes: a text that is long enough for the places of the dashes. -/
theorem parseInput_accepts {input : List UInt8} (hlength : 30 ≤ input.length) :
    ∃ result, parseInput input = .ok result ∧ Accepts input result := by
  unfold parseInput
  rw [byteAt_getD (by omega), ok_bind, byteAt_getD (by omega), ok_bind, byteAt_getD (by omega),
    ok_bind, byteAt_getD (by omega), ok_bind]
  dsimp only
  by_cases hdashes : input.length = 36 ∧ input.getD 8 0 = 0x2D ∧ input.getD 13 0 = 0x2D ∧
      input.getD 18 0 = 0x2D ∧ input.getD 23 0 = 0x2D
  · obtain ⟨hlong, h1, h2, h3, h4⟩ := hdashes
    obtain ⟨a, b, c, d, e, ha, hb, hc, hd, he, hgroups⟩ := exists_groups hlong h1 h2 h3 h4
    have haccepts := @accepts_of_layout input (a ++ b ++ c ++ d ++ e) 1
      (by simp only [List.length_append]; omega) (by rw [layout_calls ha hb hc hd he, hgroups])
      (by rw [hgroups]; exact guidBody_dashed ha hb hc hd he)
    rw [hlong, h1, h2, h3, h4]
    exact haccepts
  · have hfalse : (input.length == 36 && input.getD 8 0 == 0x2D && input.getD 13 0 == 0x2D &&
        input.getD 18 0 == 0x2D && input.getD 23 0 == 0x2D) = false := by
      rw [← Bool.not_eq_true]
      simpa [and_assoc] using hdashes
    rw [hfalse]
    by_cases hshort : input.length = 32
    · have haccepts := @accepts_of_layout input input 0 hshort
        (layout_plain (fun _ _ ↦ .inr rfl) hshort).symm (guidBody_plain hshort)
      rw [if_neg (by simp [hshort])]
      exact haccepts
    · rw [if_pos (by simpa using hshort)]
      refine ⟨none, rfl, accepts_none fun digits hbody ↦ ?_⟩
      cases hbody with
      | plain hplain => exact hshort hplain
      | @dashed a b c d e ha hb hc hd he =>
        -- The dashes of the grammar are where the parser looks for them.
        refine hdashes ⟨?_, getD_dash ha, ?_, ?_, ?_⟩
        · simp only [List.length_append, List.length_cons]
          omega
        · have hsecond := @getD_dash (a ++ 0x2D :: b) (c ++ 0x2D :: (d ++ 0x2D :: e)) 0x2D 13
            (by simp only [List.length_append, List.length_cons]; omega)
          simpa using hsecond
        · have hthird := @getD_dash (a ++ 0x2D :: (b ++ 0x2D :: c)) (d ++ 0x2D :: e) 0x2D 18
            (by simp only [List.length_append, List.length_cons]; omega)
          simpa using hthird
        · have hfourth := @getD_dash (a ++ 0x2D :: (b ++ 0x2D :: (c ++ 0x2D :: d))) e 0x2D 23
            (by simp only [List.length_append, List.length_cons]; omega)
          simpa using hfourth

/-- The parser accepts the texts of the grammar. -/
theorem tryParseAscii_accepts (text : List UInt8) :
    ∃ result, tryParseAscii text = .ok result ∧ Accepts (unbraced text) result := by
  obtain ⟨hle, hge⟩ := length_unbraced text
  unfold tryParseAscii
  by_cases hshort : text.length < 32
  · rw [if_pos hshort]
    refine ⟨none, rfl, accepts_none fun digits hbody ↦ ?_⟩
    have hlength := length_of_guidBody hbody
    omega
  · rw [if_neg hshort, parseStateInput_eq (by omega), ok_bind]
    exact parseInput_accepts (by omega)

/-! ### Reading back -/

/-- A letter in uppercase. -/
def toUpper (c : UInt8) : UInt8 := if 0x61 ≤ c ∧ c ≤ 0x7A then c - 32 else c

/-- A text that differs from another one in the case of letters. -/
def SameLetters (written text : List UInt8) : Prop :=
  List.Forall₂ (fun c other ↦ other = c ∨ other = toUpper c) written text

/-- The texts of a GUID: as `to_utf8_bytes` writes it, or without the dashes, with letters in any case
and with or without braces. -/
def Writes (guid : Guid) (text : List UInt8) : Prop :=
  ∃ body, (SameLetters guid.toUtf8Bytes body ∨
      SameLetters (guid.toUtf8Bytes.filter (· ≠ 0x2D)) body) ∧
    (text = body ∨ text = 0x7B :: (body ++ [0x7D]))

theorem unbraced_braces (body : List UInt8) : unbraced (0x7B :: (body ++ [0x7D])) = body := by
  have hlast : (0x7B :: (body ++ [0x7D])).getLast? = some (0x7D : UInt8) := by
    rw [← List.cons_append, List.getLast?_concat]
  unfold unbraced
  rw [if_pos ⟨rfl, hlast⟩, List.drop_one, List.tail_cons, List.dropLast_concat]

theorem unbraced_of_digit {c : UInt8} {rest : List UInt8} (hc : IsHexDigit c) :
    unbraced (c :: rest) = c :: rest := by
  unfold unbraced
  rw [if_neg]
  rintro ⟨hhead, -⟩
  obtain rfl := Option.some.inj hhead
  exact absurd hc (by decide)

/-- A digit in another case has the same value. -/
theorem hexDigit_sameLetter {value : ℕ} (h : value < 16) {c : UInt8}
    (hc : c = hexDigit value ∨ c = toUpper (hexDigit value)) :
    IsHexDigit c ∧ hexDigitNumber c = value := by
  have hall : ∀ value < 16, (IsHexDigit (hexDigit value) ∧ hexDigitNumber (hexDigit value) = value) ∧
      IsHexDigit (toUpper (hexDigit value)) ∧
        hexDigitNumber (toUpper (hexDigit value)) = value := by decide
  rcases hc with rfl | rfl
  · exact (hall value h).1
  · exact (hall value h).2

/-- The two digits of a byte. -/
theorem nibbles (byte : UInt8) :
    (byte >>> 4).toNat = byte.toNat / 16 ∧ (byte &&& 0xF).toNat = byte.toNat % 16 := by
  cases byte with
  | ofBitVec bits =>
    revert bits
    decide +kernel

/-- The pairs of digits of some bytes, in any case. -/
theorem sameLetters_hexPairs {bytes digits : List UInt8} (h : SameLetters (hexPairs bytes) digits) :
    digits.length = 2 * bytes.length ∧ (∀ c ∈ digits, IsHexDigit c) ∧
      ∀ number, digits.foldl (fun number c ↦ 16 * number + hexDigitNumber c) number =
        bytes.foldl (fun number byte ↦ 256 * number + byte.toNat) number := by
  induction bytes generalizing digits with
  | nil =>
    cases h
    exact ⟨rfl, fun _ hc ↦ absurd hc List.not_mem_nil, fun _ ↦ rfl⟩
  | cons byte bytes ih =>
    obtain ⟨first, others, hfirst, hothers, rfl⟩ := List.forall₂_cons_left_iff.mp h
    obtain ⟨second, rest, hsecond, hrest, rfl⟩ := List.forall₂_cons_left_iff.mp hothers
    obtain ⟨hlength, hhex, hfold⟩ := ih hrest
    have hlt := byte.toNat_lt
    rw [(nibbles byte).1] at hfirst
    rw [(nibbles byte).2] at hsecond
    obtain ⟨hdigit, hvalue⟩ := hexDigit_sameLetter (by omega) hfirst
    obtain ⟨hdigit', hvalue'⟩ := hexDigit_sameLetter (by omega) hsecond
    refine ⟨?_, ?_, fun number ↦ ?_⟩
    · simp only [List.length_cons, hlength]
      omega
    · exact List.forall_mem_cons.mpr ⟨hdigit, List.forall_mem_cons.mpr ⟨hdigit', hhex⟩⟩
    · rw [List.foldl_cons, List.foldl_cons, List.foldl_cons, hvalue, hvalue', hfold]
      congr 1
      omega

theorem SameLetters.append {first second text : List UInt8} (h : SameLetters (first ++ second) text) :
    ∃ front rest, text = front ++ rest ∧ SameLetters first front ∧ SameLetters second rest := by
  induction first generalizing text with
  | nil => exact ⟨[], text, rfl, .nil, h⟩
  | cons c first ih =>
    obtain ⟨other, others, hother, hothers, rfl⟩ := List.forall₂_cons_left_iff.mp h
    obtain ⟨front, rest, rfl, hfront, hrest⟩ := ih hothers
    exact ⟨other :: front, rest, rfl, .cons hother hfront, hrest⟩

theorem SameLetters.dash {rest text : List UInt8} (h : SameLetters (0x2D :: rest) text) :
    ∃ behind, text = 0x2D :: behind ∧ SameLetters rest behind := by
  obtain ⟨other, behind, hother, hbehind, rfl⟩ := List.forall₂_cons_left_iff.mp h
  refine ⟨behind, ?_, hbehind⟩
  rcases hother with rfl | rfl
  · rfl
  · rfl

/-- A digit is not a dash. -/
theorem filter_hexPairs (bytes : List UInt8) :
    (hexPairs bytes).filter (· ≠ 0x2D) = hexPairs bytes := by
  refine List.filter_eq_self.mpr fun c hc ↦ ?_
  obtain ⟨byte, -, hc⟩ := List.mem_flatMap.mp hc
  have hall : ∀ value < 16, hexDigit value ≠ 0x2D := by decide
  have hlt : (byte >>> 4).toNat < 16 ∧ (byte &&& 0xF).toNat < 16 := by
    have hbyte := byte.toNat_lt
    rw [(nibbles byte).1, (nibbles byte).2]
    omega
  rcases List.mem_cons.mp hc with rfl | hc
  · exact decide_eq_true (hall _ hlt.1)
  · rw [List.mem_singleton.mp hc]
    exact decide_eq_true (hall _ hlt.2)

/-- The digits of a GUID, group by group. -/
theorem hexPairs_groups (bytes : List UInt8) :
    hexPairs bytes = hexPairs (bytes.take 4) ++ hexPairs ((bytes.drop 4).take 2) ++
      hexPairs ((bytes.drop 6).take 2) ++ hexPairs ((bytes.drop 8).take 2) ++
      hexPairs (bytes.drop 10) := by
  have hten : bytes.drop 10 = (bytes.drop 8).drop 2 := by rw [List.drop_drop]
  have height : bytes.drop 8 = (bytes.drop 6).drop 2 := by rw [List.drop_drop]
  have hsix : bytes.drop 6 = (bytes.drop 4).drop 2 := by rw [List.drop_drop]
  unfold hexPairs
  rw [← List.flatMap_append, ← List.flatMap_append, ← List.flatMap_append, ← List.flatMap_append,
    List.append_assoc, hten, List.take_append_drop, List.append_assoc, height,
    List.take_append_drop, List.append_assoc, hsix, List.take_append_drop, List.take_append_drop]

theorem filter_toUtf8Bytes (guid : Guid) :
    guid.toUtf8Bytes.filter (· ≠ 0x2D) = hexPairs guid.bytes := by
  have hdash (rest : List UInt8) : (0x2D :: rest).filter (· ≠ 0x2D) = rest.filter (· ≠ 0x2D) := rfl
  unfold toUtf8Bytes
  rw [List.filter_append, hdash, List.filter_append, hdash, List.filter_append, hdash,
    List.filter_append, hdash, hexPairs_groups guid.bytes]
  simp only [filter_hexPairs, List.append_assoc]

/-- The digits of a text of a GUID have its value. -/
theorem guidBody_of_sameLetters {guid : Guid} {body : List UInt8}
    (h : SameLetters guid.toUtf8Bytes body ∨
      SameLetters (guid.toUtf8Bytes.filter (· ≠ 0x2D)) body) :
    ∃ digits, GuidBody body digits ∧ hexNumber digits = ByteOrder.big.ofBytes guid.bytes := by
  have hvalue {digits : List UInt8} (hdigits : SameLetters (hexPairs guid.bytes) digits) :
      hexNumber digits = ByteOrder.big.ofBytes guid.bytes := by
    rw [big_ofBytes_eq_foldl]
    exact (sameLetters_hexPairs hdigits).2.2 0
  rcases h with h | h
  · obtain ⟨a, rest, rfl, ha, h1⟩ := h.append
    obtain ⟨rest, rfl, h2⟩ := h1.dash
    obtain ⟨b, rest, rfl, hb, h3⟩ := h2.append
    obtain ⟨rest, rfl, h4⟩ := h3.dash
    obtain ⟨c, rest, rfl, hc, h5⟩ := h4.append
    obtain ⟨rest, rfl, h6⟩ := h5.dash
    obtain ⟨d, rest, rfl, hd, h7⟩ := h6.append
    obtain ⟨e, rfl, he⟩ := h7.dash
    have hall : SameLetters (hexPairs guid.bytes) (a ++ b ++ c ++ d ++ e) := by
      rw [hexPairs_groups]
      exact List.rel_append (List.rel_append (List.rel_append (List.rel_append ha hb) hc) hd) he
    have hlength := guid.length_eq
    refine ⟨a ++ b ++ c ++ d ++ e, .dashed ?_ ?_ ?_ ?_ ?_ (sameLetters_hexPairs hall).2.1,
      hvalue hall⟩
    · rw [(sameLetters_hexPairs ha).1]
      simp [hlength]
    · rw [(sameLetters_hexPairs hb).1]
      simp [hlength]
    · rw [(sameLetters_hexPairs hc).1]
      simp [hlength]
    · rw [(sameLetters_hexPairs hd).1]
      simp [hlength]
    · rw [(sameLetters_hexPairs he).1]
      simp [hlength]
  · rw [filter_toUtf8Bytes] at h
    obtain ⟨hlength, hhex, -⟩ := sameLetters_hexPairs h
    rw [guid.length_eq] at hlength
    exact ⟨body, .plain hlength hhex, hvalue h⟩

/-- A GUID is its number. -/
theorem eq_of_number {guid other : Guid}
    (h : ByteOrder.big.ofBytes guid.bytes = ByteOrder.big.ofBytes other.bytes) : guid = other := by
  have hbytes (guid : Guid) :
      ByteOrder.big.toBytes 16 (ByteOrder.big.ofBytes guid.bytes) = guid.bytes := by
    rw [← guid.length_eq]
    exact ByteOrder.toBytes_ofBytes _ _
  apply Guid.ext
  rw [← hbytes guid, h, hbytes other]

/-- The text of a GUID starts with a digit. -/
theorem unbraced_body {body digits : List UInt8} (h : GuidBody body digits) :
    unbraced body = body := by
  cases h with
  | plain hlength hhex =>
    match body, hlength with
    | c :: rest, _ => exact unbraced_of_digit (hhex c List.mem_cons_self)
  | @dashed a b c d e ha hb hc hd he hhex =>
    match a, ha with
    | x :: a, _ => exact unbraced_of_digit (hhex x (by simp))

/-- The parser accepts exactly the texts of the grammar, with the value of their digits, and reads back
every text of a GUID. -/
theorem tryParseAscii_grammar :
    (∀ text, ∃ result, tryParseAscii text = .ok result ∧
      (∀ digits, GuidText text digits → ∃ guid, result = some guid ∧
        ByteOrder.big.ofBytes guid.bytes = hexNumber digits) ∧
      ((¬∃ digits, GuidText text digits) → result = none)) ∧
    ∀ guid text, Writes guid text → tryParseAscii text = .ok (some guid) := by
  refine ⟨tryParseAscii_accepts, fun guid text hwrites ↦ ?_⟩
  obtain ⟨body, hbody, htext⟩ := hwrites
  obtain ⟨digits, hdigits, hnumber⟩ := guidBody_of_sameLetters hbody
  have hunbraced : unbraced text = body := by
    rcases htext with rfl | rfl
    · exact unbraced_body hdigits
    · exact unbraced_braces body
  obtain ⟨result, hresult, haccepts, -⟩ := tryParseAscii_accepts text
  obtain ⟨parsed, rfl, hvalue⟩ := haccepts digits (by rw [hunbraced]; exact hdigits)
  rw [hresult, eq_of_number (hvalue.trans hnumber)]

end Guid

end Tracepoints
