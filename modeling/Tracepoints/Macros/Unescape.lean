import Tracepoints.Lib.Exec
import Tracepoints.Lib.Utf8

/-!
# String literals in macros

`unescape` of `eventheader_macros/src/parser.rs` scans the text between the quotes of a string literal.

`LiteralElement` is what a string literal of Rust consists of, line continuations and underscores apart,
with its text and the character that it denotes. The scanner misses two kinds of escapes: it knows
neither quote, and its loop over the digits of a code point ends before the brace behind six digits.
`unescapeLoop_element` says what it does with each element, and `unescapeLoop_literal` with a literal.
-/

set_option autoImplicit false
set_option relaxedAutoImplicit false

namespace Tracepoints

open Exec

/-! ### The scanner -/

/-- `char::to_digit(16)`. -/
def toDigit16 (c : Char) : Option ℕ :=
  if '0' ≤ c ∧ c ≤ '9' then some (c.toNat - '0'.toNat)
  else if 'a' ≤ c ∧ c ≤ 'f' then some (c.toNat - 'a'.toNat + 10)
  else if 'A' ≤ c ∧ c ≤ 'F' then some (c.toNat - 'A'.toNat + 10)
  else none

/-- `NextHexResult`. -/
inductive NextHexResult
  | digit (value : ℕ)
  | char (ch : Char)
  | «end»

/-- `next_hex`. -/
def nextHex : List Char → NextHexResult × List Char
  | ch :: it =>
    match toDigit16 ch with
    | some digit => (.digit digit, it)
    | none => (.char ch, it)
  | [] => (.end, [])

/-- The loop of `unescape_x`, with the number of rounds left. -/
def unescapeXLoop : ℕ → ℕ → List Char → Option (ℕ × List Char)
  | 0, val, it => some (val, it)
  | rounds + 1, val, it =>
    match nextHex it with
    | (.digit digit, it) => unescapeXLoop rounds (val <<< 4 ||| digit) it
    | (.char _, _) => none
    | (.end, _) => none

/-- `unescape_x`: what is written and what is left of the text, or nothing where it returns false. -/
def unescapeX (dest it : List Char) : Exec (Option (List Char × List Char)) :=
  match unescapeXLoop 2 0 it with
  | some (val, it) =>
    if val.isValidChar then .ok (some (dest ++ [Char.ofNat val], it)) else .error .assertion
  | none => .ok none

/-- The loop of `unescape_u` with the number of rounds left, in round `n`. -/
def unescapeULoop (dest : List Char) : ℕ → ℕ → ℕ → List Char → Option (List Char × List Char)
  | 0, _, _, _ => none
  | rounds + 1, n, val, it =>
    match nextHex it with
    | (.digit digit, it) => unescapeULoop dest rounds (n + 1) (val <<< 4 ||| digit) it
    | (.char ch, it) =>
      if n = 0 ∨ ch ≠ '}' then none
      else if val.isValidChar then some (dest ++ [Char.ofNat val], it)
      else none
    | (.end, _) => none

/-- `unescape_u`. -/
def unescapeU (dest it : List Char) : Option (List Char × List Char) :=
  match it with
  | ch :: it => if ch ≠ '{' then none else unescapeULoop dest 6 0 0 it
  | [] => none

/-- The branches of `unescape` behind a backslash. -/
def unescapeStep (dest it : List Char) : Exec (Option (List Char × List Char)) :=
  match it with
  | '0' :: it => .ok (some (dest ++ ['\x00'], it))
  | 'n' :: it => .ok (some (dest ++ ['\n'], it))
  | 'r' :: it => .ok (some (dest ++ ['\r'], it))
  | 't' :: it => .ok (some (dest ++ ['\t'], it))
  | '\\' :: it => .ok (some (dest ++ ['\\'], it))
  | 'x' :: it => unescapeX dest it
  | 'u' :: it => .ok (unescapeU dest it)
  | _ => .ok none

/-- The loop of `unescape`. -/
def unescapeLoop : ℕ → List Char → List Char → Exec (Option (List Char))
  | 0, _, _ => .error .unfinished
  | _ + 1, dest, [] => .ok (some dest)
  | fuel + 1, dest, ch :: it =>
    if ch ≠ '\\' then unescapeLoop fuel (dest ++ [ch]) it
    else do
      match ← unescapeStep dest it with
      | some (dest, it) => unescapeLoop fuel dest it
      | none => .ok none

/-- `unescape`. -/
def unescape (src : List Char) : Exec (Option (List Char)) := unescapeLoop (src.length + 1) [] src

/-! ### Literals -/

/-- The number of some hexadecimal digits. -/
def hexDigits (digits : List Char) : ℕ :=
  digits.foldl (fun number c ↦ 16 * number + (toDigit16 c).getD 0) 0

/-- An element of a string literal: a character, or an escape for quotes, for a control character or the
backslash, for an ASCII character by two digits, or for a code point by one to six digits. -/
inductive LiteralElement
  | plain (c : Char) (hplain : c ≠ '"' ∧ c ≠ '\\' ∧ c ≠ '\r')
  | quote
  | singleQuote
  | newline
  | carriageReturn
  | tab
  | backslash
  | null
  | ascii (high low : Char) (hhigh : ∃ value < 8, toDigit16 high = some value)
      (hlow : (toDigit16 low).isSome)
  | codePoint (digits : List Char) (hdigits : ∀ c ∈ digits, (toDigit16 c).isSome)
      (hnonempty : digits ≠ []) (hlength : digits.length ≤ 6)
      (hvalid : (hexDigits digits).isValidChar)

namespace LiteralElement

/-- The text of an element. -/
def text : LiteralElement → List Char
  | plain c _ => [c]
  | quote => ['\\', '"']
  | singleQuote => ['\\', '\x27']
  | newline => ['\\', 'n']
  | carriageReturn => ['\\', 'r']
  | tab => ['\\', 't']
  | backslash => ['\\', '\\']
  | null => ['\\', '0']
  | ascii high low _ _ => ['\\', 'x', high, low]
  | codePoint digits _ _ _ _ => ['\\', 'u', '{'] ++ digits ++ ['}']

/-- The character that an element denotes. -/
def denoted : LiteralElement → Char
  | plain c _ => c
  | quote => '"'
  | singleQuote => '\x27'
  | newline => '\n'
  | carriageReturn => '\r'
  | tab => '\t'
  | backslash => '\\'
  | null => '\x00'
  | ascii high low _ _ => Char.ofNat (hexDigits [high, low])
  | codePoint digits _ _ _ _ => Char.ofNat (hexDigits digits)

/-- An element that is neither the escape of a quote nor one with six digits. -/
def Supported : LiteralElement → Prop
  | quote => False
  | singleQuote => False
  | codePoint digits _ _ _ _ => digits.length < 6
  | _ => True

end LiteralElement

/-- The text between the quotes of a literal. -/
def literalText (literal : List LiteralElement) : List Char := literal.flatMap LiteralElement.text

/-- The string that a literal denotes. -/
def literalString (literal : List LiteralElement) : List Char := literal.map LiteralElement.denoted

/-! ### Digits -/

theorem toDigit16_lt {c : Char} {value : ℕ} (h : toDigit16 c = some value) : value < 16 := by
  unfold toDigit16 at h
  split_ifs at h with hdecimal hlower hupper
  · obtain rfl := Option.some.inj h
    have hle : c.toNat ≤ '9'.toNat := hdecimal.2
    have hge : '0'.toNat ≤ c.toNat := hdecimal.1
    change c.toNat ≤ 57 at hle
    change c.toNat - 48 < 16
    omega
  · obtain rfl := Option.some.inj h
    have hle : c.toNat ≤ 'f'.toNat := hlower.2
    change c.toNat ≤ 102 at hle
    change c.toNat - 97 + 10 < 16
    omega
  · obtain rfl := Option.some.inj h
    have hle : c.toNat ≤ 'F'.toNat := hupper.2
    change c.toNat ≤ 70 at hle
    change c.toNat - 65 + 10 < 16
    omega

/-- A digit is shifted in. -/
theorem nextHex_digit {c : Char} (h : (toDigit16 c).isSome) (it : List Char) (val : ℕ) :
    ∃ digit, nextHex (c :: it) = (.digit digit, it) ∧ digit < 16 ∧ toDigit16 c = some digit ∧
      val <<< 4 ||| digit = 16 * val + (toDigit16 c).getD 0 := by
  obtain ⟨digit, hdigit⟩ := Option.isSome_iff_exists.mp h
  have hlt := toDigit16_lt hdigit
  refine ⟨digit, ?_, hlt, hdigit, ?_⟩
  · unfold nextHex
    dsimp only
    rw [hdigit]
  · rw [shiftLeft_or val (show digit < 2 ^ 4 from hlt), hdigit, Option.getD_some]
    omega

/-- The loop over the digits of a code point, which looks for the brace in its last round at most. -/
theorem unescapeULoop_digits (dest rest : List Char) {digits : List Char}
    (hdigits : ∀ c ∈ digits, (toDigit16 c).isSome) {rounds : ℕ} (hrounds : digits.length ≤ rounds)
    (n val : ℕ) (hn : 0 < n + digits.length)
    (hvalid : (digits.foldl (fun number c ↦ 16 * number + (toDigit16 c).getD 0) val).isValidChar) :
    unescapeULoop dest rounds n val (digits ++ '}' :: rest) =
      if digits.length < rounds then
        some (dest ++ [Char.ofNat
          (digits.foldl (fun number c ↦ 16 * number + (toDigit16 c).getD 0) val)], rest)
      else none := by
  induction digits generalizing rounds n val with
  | nil =>
    cases rounds with
    | zero => rfl
    | succ rounds =>
      have hbrace : nextHex ('}' :: rest) = (.char '}', rest) := rfl
      rw [List.length_nil] at hn ⊢
      rw [List.foldl_nil] at hvalid ⊢
      rw [List.nil_append, unescapeULoop, hbrace, if_pos (Nat.succ_pos rounds)]
      dsimp only
      rw [if_neg (by simp; omega), if_pos hvalid]
  | cons c digits ih =>
    obtain ⟨hc, hothers⟩ := List.forall_mem_cons.mp hdigits
    rw [List.length_cons] at hrounds hn ⊢
    match rounds, hrounds with
    | rounds + 1, hrounds =>
      obtain ⟨digit, hnext, -, -, hshift⟩ := nextHex_digit hc (digits ++ '}' :: rest) val
      rw [List.foldl_cons] at hvalid ⊢
      rw [List.cons_append, unescapeULoop, hnext]
      dsimp only
      rw [hshift, ih hothers (by omega) (n + 1) _ (by omega) hvalid]
      simp only [Nat.succ_lt_succ_iff]

theorem hexDigits_ascii {high low : Char} {value : ℕ} (hhigh : toDigit16 high = some value)
    (hvalue : value < 8) (hlow : (toDigit16 low).isSome) : hexDigits [high, low] < 128 := by
  obtain ⟨digit, hdigit⟩ := Option.isSome_iff_exists.mp hlow
  have hlt := toDigit16_lt hdigit
  unfold hexDigits
  rw [List.foldl_cons, List.foldl_cons, List.foldl_nil, hhigh, hdigit, Option.getD_some,
    Option.getD_some]
  omega

/-! ### Elements -/

theorem unescapeX_ascii {high low : Char} (hhigh : ∃ value < 8, toDigit16 high = some value)
    (hlow : (toDigit16 low).isSome) (dest rest : List Char) :
    unescapeX dest (high :: low :: rest) =
      .ok (some (dest ++ [Char.ofNat (hexDigits [high, low])], rest)) := by
  obtain ⟨value, hvalue, hsome⟩ := hhigh
  have hlt := hexDigits_ascii hsome hvalue hlow
  obtain ⟨digit, hnext, -, -, hshift⟩ :=
    nextHex_digit (Option.isSome_iff_exists.mpr ⟨value, hsome⟩) (low :: rest) 0
  obtain ⟨digit', hnext', -, -, hshift'⟩ :=
    nextHex_digit hlow rest (16 * 0 + (toDigit16 high).getD 0)
  have hloop : unescapeXLoop 2 0 (high :: low :: rest) = some (hexDigits [high, low], rest) := by
    rw [unescapeXLoop, hnext]
    dsimp only
    rw [hshift, unescapeXLoop, hnext']
    dsimp only
    rw [hshift', unescapeXLoop]
    rfl
  unfold unescapeX
  rw [hloop]
  dsimp only
  rw [if_pos (Or.inl (by omega))]

theorem unescapeU_codePoint (dest rest : List Char) {digits : List Char}
    (hdigits : ∀ c ∈ digits, (toDigit16 c).isSome) (hnonempty : digits ≠ [])
    (hlength : digits.length ≤ 6) (hvalid : (hexDigits digits).isValidChar) :
    unescapeU dest ('{' :: (digits ++ '}' :: rest)) =
      if digits.length < 6 then some (dest ++ [Char.ofNat (hexDigits digits)], rest) else none := by
  have hpos := List.length_pos_iff.mpr hnonempty
  exact unescapeULoop_digits dest rest hdigits hlength 0 0 (by omega) hvalid

/-- The scanner reads a supported element, and stops at any other. -/
theorem unescapeLoop_element (element : LiteralElement) (fuel : ℕ) (dest rest : List Char) :
    (element.Supported → unescapeLoop (fuel + 1) dest (element.text ++ rest) =
      unescapeLoop fuel (dest ++ [element.denoted]) rest) ∧
    (¬element.Supported → unescapeLoop (fuel + 1) dest (element.text ++ rest) = .ok none) := by
  cases element with
  | plain c hplain =>
    refine ⟨fun _ ↦ ?_, fun h ↦ absurd trivial h⟩
    unfold LiteralElement.text LiteralElement.denoted
    rw [List.singleton_append, unescapeLoop, if_pos hplain.2.1]
  | quote => exact ⟨fun h ↦ h.elim, fun _ ↦ rfl⟩
  | singleQuote => exact ⟨fun h ↦ h.elim, fun _ ↦ rfl⟩
  | newline => exact ⟨fun _ ↦ rfl, fun h ↦ absurd trivial h⟩
  | carriageReturn => exact ⟨fun _ ↦ rfl, fun h ↦ absurd trivial h⟩
  | tab => exact ⟨fun _ ↦ rfl, fun h ↦ absurd trivial h⟩
  | backslash => exact ⟨fun _ ↦ rfl, fun h ↦ absurd trivial h⟩
  | null => exact ⟨fun _ ↦ rfl, fun h ↦ absurd trivial h⟩
  | ascii high low hhigh hlow =>
    refine ⟨fun _ ↦ ?_, fun h ↦ absurd trivial h⟩
    change (unescapeX dest (high :: low :: rest) >>= _) = _
    rw [unescapeX_ascii hhigh hlow]
    rfl
  | codePoint digits hdigits hnonempty hlength hvalid =>
    have htext : (LiteralElement.codePoint digits hdigits hnonempty hlength hvalid).text ++ rest =
        '\\' :: 'u' :: '{' :: (digits ++ '}' :: rest) := by
      unfold LiteralElement.text
      simp
    have hscan := unescapeU_codePoint dest rest hdigits hnonempty hlength hvalid
    rw [htext]
    refine ⟨fun hsupported ↦ ?_, fun hunsupported ↦ ?_⟩
    · rw [if_pos (show digits.length < 6 from hsupported)] at hscan
      change (Except.ok (unescapeU dest ('{' :: (digits ++ '}' :: rest))) >>= _) = _
      rw [hscan]
      rfl
    · rw [if_neg (show ¬digits.length < 6 from hunsupported)] at hscan
      change (Except.ok (unescapeU dest ('{' :: (digits ++ '}' :: rest))) >>= _) = _
      rw [hscan]
      rfl

theorem text_nonempty (element : LiteralElement) : 1 ≤ element.text.length := by
  cases element with
  | codePoint digits => simp [LiteralElement.text]
  | _ => simp [LiteralElement.text]

theorem length_le_literalText (literal : List LiteralElement) :
    literal.length ≤ (literalText literal).length := by
  induction literal with
  | nil => exact Nat.zero_le _
  | cons element literal ih =>
    have hpos := text_nonempty element
    unfold literalText at ih ⊢
    rw [List.flatMap_cons, List.length_append, List.length_cons]
    omega

theorem unescapeLoop_literal (literal : List LiteralElement) {fuel : ℕ}
    (hfuel : literal.length < fuel) (dest : List Char) :
    ((∀ element ∈ literal, element.Supported) →
      unescapeLoop fuel dest (literalText literal) = .ok (some (dest ++ literalString literal))) ∧
    ((¬∀ element ∈ literal, element.Supported) →
      unescapeLoop fuel dest (literalText literal) = .ok none) := by
  induction literal generalizing fuel dest with
  | nil =>
    match fuel, hfuel with
    | fuel + 1, _ =>
      refine ⟨fun _ ↦ ?_, fun h ↦ absurd (fun _ helement ↦ absurd helement List.not_mem_nil) h⟩
      unfold literalText literalString
      rw [List.flatMap_nil, List.map_nil, List.append_nil, unescapeLoop]
  | cons element literal ih =>
    match fuel, hfuel with
    | fuel + 1, hfuel =>
      rw [List.length_cons] at hfuel
      have htext : literalText (element :: literal) = element.text ++ literalText literal := rfl
      have hstring : dest ++ literalString (element :: literal) =
          (dest ++ [element.denoted]) ++ literalString literal := by
        unfold literalString
        rw [List.map_cons, List.append_assoc, List.singleton_append]
      obtain ⟨hread, hstop⟩ := unescapeLoop_element element fuel dest (literalText literal)
      obtain ⟨hall, hnone⟩ := @ih fuel (by omega) (dest ++ [element.denoted])
      rw [htext, hstring, List.forall_mem_cons]
      constructor
      · rintro ⟨hsupported, hothers⟩
        rw [hread hsupported, hall hothers]
      · intro hunsupported
        by_cases hsupported : element.Supported
        · rw [hread hsupported, hnone fun hothers ↦ hunsupported ⟨hsupported, hothers⟩]
        · exact hstop hsupported

/-! ### The scanner returns -/

/-- Two digits are a character, and the scan goes on behind them. -/
theorem unescapeXLoop_bounds {rounds val bound value : ℕ} {it rest : List Char} (hval : val < bound)
    (h : unescapeXLoop rounds val it = some (value, rest)) :
    value < bound * 16 ^ rounds ∧ rest.length ≤ it.length := by
  induction rounds generalizing val it bound with
  | zero =>
    obtain ⟨rfl, rfl⟩ := Prod.mk.inj (Option.some.inj h)
    simpa using hval
  | succ rounds ih =>
    rw [unescapeXLoop] at h
    cases it with
    | nil => simp [nextHex] at h
    | cons c it =>
      cases hdigit : toDigit16 c with
      | none => simp [nextHex, hdigit] at h
      | some digit =>
        have hlt := toDigit16_lt hdigit
        simp only [nextHex, hdigit] at h
        rw [shiftLeft_or val (show digit < 2 ^ 4 from hlt)] at h
        have hnext : val * 2 ^ 4 + digit < bound * 16 := by omega
        obtain ⟨hvalue, hrest⟩ := ih hnext h
        rw [Nat.mul_assoc, ← Nat.pow_succ'] at hvalue
        exact ⟨hvalue, hrest.trans (Nat.le_succ _)⟩

theorem unescapeULoop_length {dest dest' it rest : List Char} {rounds n val : ℕ}
    (h : unescapeULoop dest rounds n val it = some (dest', rest)) : rest.length ≤ it.length := by
  induction rounds generalizing n val it with
  | zero => cases h
  | succ rounds ih =>
    rw [unescapeULoop] at h
    cases it with
    | nil => simp [nextHex] at h
    | cons c it =>
      cases hdigit : toDigit16 c with
      | none =>
        simp only [nextHex, hdigit] at h
        split_ifs at h
        obtain ⟨-, rfl⟩ := Prod.mk.inj (Option.some.inj h)
        exact Nat.le_succ _
      | some digit =>
        simp only [nextHex, hdigit] at h
        exact (ih h).trans (Nat.le_succ _)

/-- Behind a backslash the scanner goes on with what is left, or gives up. -/
theorem unescapeStep_returns (dest it : List Char) :
    Returns (unescapeStep dest it) fun result ↦
      ∀ dest' rest, result = some (dest', rest) → rest.length ≤ it.length := by
  unfold unescapeStep
  split
  case h_6 it =>
    unfold unescapeX
    cases hloop : unescapeXLoop 2 0 it with
    | none => exact Returns.ok (by simp)
    | some found =>
      obtain ⟨val, rest⟩ := found
      obtain ⟨hval, hrest⟩ := unescapeXLoop_bounds (Nat.zero_lt_succ 0) hloop
      have hvalid : val.isValidChar := Or.inl (by omega)
      dsimp only
      rw [if_pos hvalid]
      refine Returns.ok ?_
      rintro dest' rest' hsome
      obtain ⟨-, rfl⟩ := Prod.mk.inj (Option.some.inj hsome)
      exact hrest.trans (Nat.le_succ _)
  case h_7 it =>
    refine Returns.ok fun dest' rest hsome ↦ ?_
    unfold unescapeU at hsome
    split at hsome
    · split_ifs at hsome
      exact (unescapeULoop_length hsome).trans ((Nat.le_succ _).trans (Nat.le_succ _))
    · cases hsome
  case h_8 => exact Returns.ok (by simp)
  all_goals
    refine Returns.ok fun dest' rest hsome ↦ ?_
    obtain ⟨-, rfl⟩ := Prod.mk.inj (Option.some.inj hsome)
    exact Nat.le_succ _

theorem unescapeLoop_returns {fuel : ℕ} {it : List Char} (hfuel : it.length < fuel)
    (dest : List Char) : Returns (unescapeLoop fuel dest it) fun _ ↦ True := by
  induction fuel generalizing it dest with
  | zero => omega
  | succ fuel ih =>
    cases it with
    | nil => exact Returns.ok trivial
    | cons c it =>
      rw [List.length_cons] at hfuel
      rw [unescapeLoop]
      refine Returns.ite (fun _ ↦ ih (by omega) _) (fun _ ↦ ?_)
      refine Returns.bind (unescapeStep_returns dest it) fun result hresult ↦ ?_
      match result with
      | none => exact Returns.ok trivial
      | some (dest', rest) =>
        have hrest := hresult dest' rest rfl
        exact ih (by omega) _

/-- `unescape` returns. -/
theorem unescape_returns (src : List Char) : Returns (unescape src) fun _ ↦ True :=
  unescapeLoop_returns (Nat.lt_succ_self _) []

end Tracepoints
