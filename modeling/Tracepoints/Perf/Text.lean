import Mathlib.Data.List.TakeWhile
import Mathlib.Tactic.IntervalCases
import Tracepoints.Lib.Exec

/-!
# Text of format files

Texts are lists of UTF-8 bytes. The scanners of `perf_field_format.rs` take the text from a
position on and return what is behind the scanned part, so that a position `pos` of the source is
the suffix `text.drop pos`. A slice of a `str` faults where an end of it is inside a character
(`strSlice`).
-/

set_option autoImplicit false
set_option relaxedAutoImplicit false

namespace Tracepoints

/-- The bytes of an ASCII literal. -/
def ascii (literal : String) : List UInt8 :=
  literal.toList.map fun c ↦ UInt8.ofNat c.toNat

/-- The decimal digits of a number, as `{}` writes them. -/
def decimal (value : ℕ) : List UInt8 :=
  (Nat.toDigits 10 value).map fun c ↦ UInt8.ofNat c.toNat

/-- The lowercase hexadecimal digits of a number, as `{:x}` writes them. -/
def lowerHex (value : ℕ) : List UInt8 :=
  (Nat.toDigits 16 value).map fun c ↦ UInt8.ofNat c.toNat

namespace Text

open Exec

/-! ### Bytes -/

def tab : UInt8 := 9
def lineFeed : UInt8 := 10
def carriageReturn : UInt8 := 13
def space : UInt8 := 32
def quotationMark : UInt8 := 34
def apostrophe : UInt8 := 39
def openParen : UInt8 := 40
def closeParen : UInt8 := 41
def colon : UInt8 := 58
def semicolon : UInt8 := 59
def openBracket : UInt8 := 91
def backslash : UInt8 := 92
def closeBracket : UInt8 := 93
def underscore : UInt8 := 95

def isSpaceOrTab (c : UInt8) : Bool := c = space || c = tab

def isSpaceOrTabOrSemicolon (c : UInt8) : Bool := c = space || c = tab || c = semicolon

def isEolChar (c : UInt8) : Bool := c = carriageReturn || c = lineFeed

def isAsciiDigit (c : UInt8) : Bool := 48 ≤ c && c ≤ 57

def isAsciiAlphabetic (c : UInt8) : Bool := (65 ≤ c && c ≤ 90) || (97 ≤ c && c ≤ 122)

def isIdentStart (c : UInt8) : Bool := isAsciiAlphabetic c || c = underscore

def isIdentContinue (c : UInt8) : Bool := isAsciiAlphabetic c || isAsciiDigit c || c = underscore

/-! ### Slices of a `str` -/

/-- `str::is_char_boundary`. -/
def isCharBoundary (text : List UInt8) (index : ℕ) : Bool :=
  index = 0 || index = text.length || (text[index]?).any fun byte ↦ byte &&& 0xC0 != 0x80

/-- `&text[start..stop]` of a `str`. -/
def strSlice (text : List UInt8) (start stop : ℕ) : Exec (List UInt8) :=
  if start ≤ stop ∧ isCharBoundary text start ∧ isCharBoundary text stop then
    .ok ((text.drop start).take (stop - start))
  else .error .indexOutOfRange

/-! ### Numbers -/

/-- `char::to_digit` of a byte, for the radices 10 and 16. -/
def toDigit (radix : ℕ) (c : UInt8) : Option ℕ :=
  if isAsciiDigit c then some (c.toNat - 48)
  else if radix = 16 ∧ 65 ≤ c ∧ c ≤ 70 then some (c.toNat - 55)
  else if radix = 16 ∧ 97 ≤ c ∧ c ≤ 102 then some (c.toNat - 87)
  else none

/-- `value * radix + digit` of `u32`: an overflow faults where the build checks for it. -/
def appendDigit (build : Build) (radix value digit : ℕ) : Exec ℕ :=
  if value * radix + digit < 2 ^ 32 then .ok (value * radix + digit)
  else if build.debugAssertions then .error .overflow
  else .ok ((value * radix + digit) % 2 ^ 32)

/-- The digit loops of `ascii_to_u32`. -/
def digitsLoop (build : Build) (radix : ℕ) : ℕ → Bool → List UInt8 → Exec (Option ℕ)
  | value, anyDigits, [] => .ok (if anyDigits then some value else none)
  | value, anyDigits, c :: rest =>
    match toDigit radix c with
    | some digit => do
      let value ← appendDigit build radix value digit
      digitsLoop build radix value true rest
    | none => .ok (if anyDigits then some value else none)

/-- `ascii_to_u32`. -/
def asciiToU32 (build : Build) (chars : List UInt8) : Exec (Option ℕ) :=
  match chars.dropWhile isSpaceOrTab with
  | zero :: x :: digit :: rest =>
    if zero = 48 ∧ (x = 120 ∨ x = 88) then digitsLoop build 16 0 false (digit :: rest)
    else digitsLoop build 10 0 false (zero :: x :: digit :: rest)
  | rest => digitsLoop build 10 0 false rest

/-! ### Quoted and bracketed parts -/

/-- `consume_string`: what is behind the closing quote. A backslash hides the byte after it. -/
def consumeString (quote : UInt8) : List UInt8 → List UInt8
  | [] => []
  | [_] => []
  | consumed :: next :: rest =>
    if consumed = quote then next :: rest
    else if consumed = backslash then consumeString quote rest
    else consumeString quote (next :: rest)

/-- `consume_braced`: what is behind the closing brace that matches, where `depth` are open. -/
def consumeBraced (opening closing : UInt8) : ℕ → List UInt8 → List UInt8
  | _, [] => []
  | depth, consumed :: rest =>
    if consumed = closing then
      if depth = 1 then rest else consumeBraced opening closing (depth - 1) rest
    else if consumed = opening then consumeBraced opening closing (depth + 1) rest
    else consumeBraced opening closing depth rest

/-! ### Reading a decimal number -/

/-- The bytes of a decimal number are digits. -/
theorem isAsciiDigit_of_mem_decimal {value : ℕ} {c : UInt8} (h : c ∈ decimal value) :
    isAsciiDigit c = true := by
  obtain ⟨digit, hdigit, rfl⟩ := List.mem_map.mp h
  have hchar := Nat.isDigit_of_mem_toDigits (by omega) (by omega) hdigit
  simp only [Char.isDigit, Bool.and_eq_true, decide_eq_true_eq] at hchar
  have hlow : 48 ≤ digit.toNat := hchar.1
  have hhigh : digit.toNat ≤ 57 := hchar.2
  simp only [isAsciiDigit, Bool.and_eq_true, decide_eq_true_eq, UInt8.le_iff_toNat_le,
    UInt8.toNat_ofNat']
  exact ⟨by simp; omega, by simp; omega⟩

theorem decimal_ne_nil (value : ℕ) : decimal value ≠ [] := by
  simp [decimal, Nat.toDigits_ne_nil]

theorem toDigit_digitChar {radix digit : ℕ} (h : digit < 10) :
    toDigit radix (UInt8.ofNat (Nat.digitChar digit).toNat) = some digit := by
  unfold toDigit
  interval_cases digit <;> rfl

/-- Reading the digits of a number that fits 32 bits gives the number. -/
theorem digitsLoop_decimal (build : Build) (value : ℕ) (hvalue : value < 2 ^ 32)
    (rest : List UInt8) :
    digitsLoop build 10 0 false (decimal value ++ rest) = digitsLoop build 10 value true rest := by
  induction value using Nat.strongRecOn generalizing rest with
  | ind value ih =>
    by_cases hsmall : value < 10
    · rw [decimal, Nat.toDigits_of_lt_base hsmall]
      simp only [List.map_cons, List.map_nil, List.cons_append, List.nil_append]
      rw [digitsLoop, toDigit_digitChar hsmall]
      simp only [appendDigit, zero_mul, zero_add, hvalue, if_true, ok_bind]
    · have hdiv : value / 10 < value := Nat.div_lt_self (by omega) (by omega)
      have hmod : value % 10 < 10 := Nat.mod_lt _ (by omega)
      have hsplit : value / 10 * 10 + value % 10 = value := by omega
      rw [decimal, Nat.toDigits_of_base_le (by omega) (by omega), List.map_append,
        List.append_assoc]
      refine (ih (value / 10) hdiv (by omega) _).trans ?_
      simp only [List.map_cons, List.map_nil, List.cons_append, List.nil_append]
      rw [digitsLoop, toDigit_digitChar hmod]
      simp only [appendDigit, hsplit, hvalue, if_true, ok_bind]

theorem dropWhile_eq_self_of_forall {p : UInt8 → Bool} {text : List UInt8}
    (h : ∀ c ∈ text, p c = false) : text.dropWhile p = text := by
  cases text with
  | nil => rfl
  | cons c rest => rw [List.dropWhile_cons_of_neg (by simp [h c List.mem_cons_self])]

/-- `ascii_to_u32` reads back a decimal number that fits 32 bits. -/
theorem asciiToU32_decimal (build : Build) {value : ℕ} (hvalue : value < 2 ^ 32) :
    asciiToU32 build (decimal value) = .ok (some value) := by
  have hdigits : ∀ c ∈ decimal value, isAsciiDigit c = true :=
    fun c hc ↦ isAsciiDigit_of_mem_decimal hc
  have hspace : (decimal value).dropWhile isSpaceOrTab = decimal value :=
    dropWhile_eq_self_of_forall fun c hc ↦ by
      have hdigit := hdigits c hc
      clear * - hdigit
      cases c with | ofBitVec bits => revert bits; decide
  have hloop : digitsLoop build 10 0 false (decimal value) = .ok (some value) := by
    have h := digitsLoop_decimal build value hvalue []
    rw [List.append_nil] at h
    rw [h, digitsLoop]
    rfl
  unfold asciiToU32
  rw [hspace]
  split
  · next zero x digit rest heq =>
    have hx : isAsciiDigit x = true := hdigits x (by rw [heq]; simp)
    have hnotHex : ¬(zero = 48 ∧ (x = 120 ∨ x = 88)) := by
      rintro ⟨_, rfl | rfl⟩ <;> exact absurd hx (by decide)
    rw [if_neg hnotHex, ← heq]
    exact hloop
  · exact hloop

end Text

end Tracepoints
