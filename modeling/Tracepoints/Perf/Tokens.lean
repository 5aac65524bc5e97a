import Tracepoints.Lib.Utf8
import Tracepoints.Perf.FormatRoundTrip

/-!
# The tokens of a declaration

What `Tokenizer::move_next` returns, call after call, on a text in UTF-8. The ranges of the tokens are
meant to be not empty, one behind the other, inside the text, and between whole characters. They are
where every character outside quoted strings, parentheses and brackets is an ASCII character
(`asciiOutside`): the tokenizer takes any other byte as a token of its own.

The tokenizer is followed through the suffixes of the text (`moveNextToken_cases`). A suffix behind a
token starts with a whole character because the token ends with an ASCII byte (`consumeToken_last`).
-/

set_option autoImplicit false
set_option relaxedAutoImplicit false

namespace Tracepoints

open Exec Text

/-! ### Suffixes -/

theorem consumeString_last (quote : UInt8) (text : List UInt8) :
    consumeString quote text = [] ∨
      ∃ before, text = before ++ quote :: consumeString quote text := by
  fun_induction consumeString quote text with
  | case1 => exact .inl rfl
  | case2 => exact .inl rfl
  | case3 next rest => exact .inr ⟨[], rfl⟩
  | case4 next rest _ ih =>
    rcases ih with hnil | ⟨before, hbefore⟩
    · exact .inl hnil
    · refine .inr ⟨backslash :: next :: before, ?_⟩
      rw [List.cons_append, List.cons_append, ← hbefore]
  | case5 consumed next rest _ _ ih =>
    rcases ih with hnil | ⟨before, hbefore⟩
    · exact .inl hnil
    · refine .inr ⟨consumed :: before, ?_⟩
      rw [List.cons_append, ← hbefore]

theorem consumeBraced_last (opening closing : UInt8) (depth : ℕ) (text : List UInt8) :
    consumeBraced opening closing depth text = [] ∨
      ∃ before, text = before ++ closing :: consumeBraced opening closing depth text := by
  fun_induction consumeBraced opening closing depth text with
  | case1 => exact .inl rfl
  | case2 => exact .inr ⟨[], rfl⟩
  | case3 depth rest _ ih =>
    rcases ih with hnil | ⟨before, hbefore⟩
    · exact .inl hnil
    · refine .inr ⟨closing :: before, ?_⟩
      rw [List.cons_append, ← hbefore]
  | case4 depth rest _ ih =>
    rcases ih with hnil | ⟨before, hbefore⟩
    · exact .inl hnil
    · refine .inr ⟨opening :: before, ?_⟩
      rw [List.cons_append, ← hbefore]
  | case5 depth consumed rest _ _ ih =>
    rcases ih with hnil | ⟨before, hbefore⟩
    · exact .inl hnil
    · refine .inr ⟨consumed :: before, ?_⟩
      rw [List.cons_append, ← hbefore]

theorem isIdentContinue_lt {c : UInt8} (h : isIdentContinue c = true) : c.toNat < 0x80 := by
  cases c with | ofBitVec bits => revert bits; decide

/-- A byte outside ASCII is a token of its own. -/
theorem consumeToken_of_le {c : UInt8} (h : 0x80 ≤ c.toNat) (rest : List UInt8) :
    consumeToken c rest = (.punctuation, rest) := by
  have hc : isIdentStart c = false ∧ c ≠ apostrophe ∧ c ≠ quotationMark ∧ c ≠ openParen ∧
      c ≠ openBracket := by
    cases c with | ofBitVec bits => revert bits; decide
  obtain ⟨hident, hapostrophe, hquote, hparen, hbracket⟩ := hc
  unfold consumeToken
  rw [hident, if_neg Bool.false_ne_true, if_neg (by simp [hapostrophe, hquote]), if_neg hparen,
    if_neg hbracket]

/-- A token that starts with an ASCII byte ends with one, or at the end of the text. -/
theorem consumeToken_last {c : UInt8} (h : c.toNat < 0x80) (rest : List UInt8) :
    (consumeToken c rest).2 = [] ∨
      ∃ before last, c :: rest = before ++ last :: (consumeToken c rest).2 ∧ last.toNat < 0x80 := by
  unfold consumeToken
  split_ifs with hident hquote hparen hbracket
  · refine .inr ?_
    dsimp only
    rcases List.eq_nil_or_concat (rest.takeWhile isIdentContinue) with hnil | ⟨before, last, hlast⟩
    · refine ⟨[], c, ?_, h⟩
      conv_lhs => rw [← List.takeWhile_append_dropWhile (p := isIdentContinue) (l := rest), hnil]
      rfl
    · refine ⟨c :: before, last, ?_, ?_⟩
      · conv_lhs => rw [← List.takeWhile_append_dropWhile (p := isIdentContinue) (l := rest), hlast]
        simp
      · refine isIdentContinue_lt (List.mem_takeWhile_imp (l := rest) ?_)
        rw [hlast]
        simp
  · rcases consumeString_last c rest with hnil | ⟨before, hbefore⟩
    · exact .inl hnil
    · refine .inr ⟨c :: before, c, ?_, h⟩
      rw [List.cons_append, ← hbefore]
  · rcases consumeBraced_last openParen closeParen 1 rest with hnil | ⟨before, hbefore⟩
    · exact .inl hnil
    · refine .inr ⟨c :: before, closeParen, ?_, by decide⟩
      rw [List.cons_append, ← hbefore]
  · rcases consumeBraced_last openBracket closeBracket 1 rest with hnil | ⟨before, hbefore⟩
    · exact .inl hnil
    · refine .inr ⟨c :: before, closeBracket, ?_, by decide⟩
      rw [List.cons_append, ← hbefore]
  · exact .inr ⟨[], c, rfl, h⟩

theorem suffix_of_last {behind text : List UInt8} {last : UInt8}
    (h : behind = [] ∨ ∃ before, text = before ++ last :: behind) : behind <:+ text := by
  rcases h with rfl | ⟨before, hbefore⟩
  · exact List.nil_suffix
  · exact ⟨before ++ [last], by rw [hbefore, List.append_assoc, List.singleton_append]⟩

theorem consumeToken_suffix (c : UInt8) (rest : List UInt8) : (consumeToken c rest).2 <:+ rest := by
  unfold consumeToken
  split_ifs
  · exact List.dropWhile_suffix _
  · exact suffix_of_last (consumeString_last c rest)
  · exact suffix_of_last (consumeBraced_last openParen closeParen 1 rest)
  · exact suffix_of_last (consumeBraced_last openBracket closeBracket 1 rest)
  · exact List.suffix_refl _

theorem consumeToken_kind (c : UInt8) (rest : List UInt8) : (consumeToken c rest).1 ≠ .none := by
  unfold consumeToken
  split_ifs <;> exact fun h ↦ nomatch h

/-! ### Positions -/

section Positions

variable {field : List UInt8} {pos : ℕ}

theorem drop_of_suffix {rest : List UInt8} (h : rest <:+ field) :
    field.drop (field.length - rest.length) = rest :=
  (List.suffix_iff_eq_drop.mp h).symm

theorem moveNextToken_none (h : (field.drop pos).dropWhile (· ≤ space) = []) :
    moveNextToken field pos = ⟨.none, field.length, field.length⟩ := by
  unfold moveNextToken
  rw [h]

/-- A token is behind the spaces at the position, and the tokenizer goes on behind the token. -/
structure TokenAt (field : List UInt8) (pos : ℕ) (c : UInt8) (rest : List UInt8) (token : Token) :
    Prop where
  kind_eq : token.kind = (consumeToken c rest).1
  start_eq : field.drop token.start = c :: rest
  stop_eq : field.drop token.stop = (consumeToken c rest).2
  pos_le : pos ≤ token.start
  start_lt : token.start < token.stop
  stop_le : token.stop ≤ field.length

theorem moveNextToken_some {c : UInt8} {rest : List UInt8} (hpos : pos ≤ field.length)
    (h : (field.drop pos).dropWhile (· ≤ space) = c :: rest) :
    TokenAt field pos c rest (moveNextToken field pos) := by
  have hskip : c :: rest <:+ field.drop pos := by
    rw [← h]
    exact List.dropWhile_suffix _
  have hfield : c :: rest <:+ field := hskip.trans (List.drop_suffix pos field)
  have hbehind : (consumeToken c rest).2 <:+ field :=
    ((consumeToken_suffix c rest).trans (List.suffix_cons c rest)).trans hfield
  have hskipLength := hskip.length_le
  have hfieldLength := hfield.length_le
  have hbehindLength := (consumeToken_suffix c rest).length_le
  rw [List.length_drop] at hskipLength
  rw [List.length_cons] at hskipLength hfieldLength
  unfold moveNextToken
  rw [h]
  refine ⟨rfl, drop_of_suffix hfield, drop_of_suffix hbehind, ?_, ?_, ?_⟩
  · dsimp only
    rw [List.length_cons]
    omega
  · dsimp only
    rw [List.length_cons]
    omega
  · dsimp only
    omega

/-- A position of a text in UTF-8 is between characters where the rest starts with one. -/
theorem isCharBoundary_iff {chars : List Char} (hfield : field = utf8 chars)
    (hpos : pos ≤ field.length) : isCharBoundary field pos = true ↔ StartsChar (field.drop pos) := by
  unfold isCharBoundary
  by_cases hzero : pos = 0
  · rw [hzero, List.drop_zero, hfield]
    exact iff_of_true (by simp) (startsChar_utf8 chars)
  by_cases hend : pos = field.length
  · rw [hend, List.drop_length]
    exact iff_of_true (by simp) fun byte hbyte ↦ nomatch hbyte
  · have hlt : pos < field.length := by omega
    rw [List.drop_eq_getElem_cons hlt, List.getElem?_eq_getElem hlt]
    simp only [hzero, hend, decide_false, Bool.false_or, Option.any_some, bne_iff_ne, ne_eq,
      isContinuation_iff, StartsChar, List.head?_cons, Option.mem_def, Option.some.injEq,
      forall_eq']

/-- The slice of a text in UTF-8 between two positions. -/
theorem strSlice_of_starts {chars : List Char} {start stop : ℕ} (hfield : field = utf8 chars)
    (hle : start ≤ stop) (hstop : stop ≤ field.length) (hstarts : StartsChar (field.drop start))
    (hstops : StartsChar (field.drop stop)) :
    strSlice field start stop = .ok ((field.drop start).take (stop - start)) := by
  unfold strSlice
  rw [if_pos ⟨hle, (isCharBoundary_iff hfield (by omega)).mpr hstarts,
    (isCharBoundary_iff hfield hstop).mpr hstops⟩]

end Positions

/-! ### Characters outside quotes and brackets -/

/-- Every byte outside quoted strings, parentheses and brackets is an ASCII byte; if `stops`, only
those before the first brackets count. -/
def asciiOutside (stops : Bool) (text : List UInt8) : Bool :=
  match text with
  | [] => true
  | c :: rest =>
    if c = apostrophe ∨ c = quotationMark then asciiOutside stops (consumeString c rest)
    else if c = openParen then asciiOutside stops (consumeBraced openParen closeParen 1 rest)
    else if c = openBracket then
      stops || asciiOutside stops (consumeBraced openBracket closeBracket 1 rest)
    else c < 0x80 && asciiOutside stops rest
termination_by text.length
decreasing_by
  · have hle := (suffix_of_last (consumeString_last c rest)).length_le
    simp only [List.length_cons]
    omega
  · have hle := (suffix_of_last (consumeBraced_last openParen closeParen 1 rest)).length_le
    simp only [List.length_cons]
    omega
  · have hle := (suffix_of_last (consumeBraced_last openBracket closeBracket 1 rest)).length_le
    simp only [List.length_cons]
    omega
  · simp

/-- A byte that no token of several bytes but an identifier starts with. -/
def IsOrdinary (c : UInt8) : Prop :=
  c.toNat < 0x80 ∧ c ≠ apostrophe ∧ c ≠ quotationMark ∧ c ≠ openParen ∧ c ≠ openBracket

theorem lt_iff_ascii (c : UInt8) : c < 0x80 ↔ c.toNat < 0x80 := UInt8.lt_iff_toNat_lt

theorem asciiOutside_ordinary (stops : Bool) {c : UInt8} (h : IsOrdinary c) (rest : List UInt8) :
    asciiOutside stops (c :: rest) = asciiOutside stops rest := by
  obtain ⟨hlt, hapostrophe, hquote, hparen, hbracket⟩ := h
  rw [asciiOutside, if_neg (by simp [hapostrophe, hquote]), if_neg hparen, if_neg hbracket,
    decide_eq_true ((lt_iff_ascii c).mpr hlt), Bool.true_and]

theorem asciiOutside_dropWhile (stops : Bool) {p : UInt8 → Bool} (hp : ∀ c, p c = true → IsOrdinary c)
    (text : List UInt8) : asciiOutside stops (text.dropWhile p) = asciiOutside stops text := by
  induction text with
  | nil => rfl
  | cons c text ih =>
    by_cases hc : p c = true
    · rw [List.dropWhile_cons_of_pos hc, ih, asciiOutside_ordinary stops (hp c hc)]
    · rw [List.dropWhile_cons_of_neg hc]

theorem isOrdinary_of_le {c : UInt8} (h : decide (c ≤ space) = true) : IsOrdinary c := by
  unfold IsOrdinary
  cases c with | ofBitVec bits => revert bits; decide

theorem isOrdinary_of_isIdentContinue {c : UInt8} (h : isIdentContinue c = true) : IsOrdinary c := by
  unfold IsOrdinary
  cases c with | ofBitVec bits => revert bits; decide

theorem isIdentContinue_of_isIdentStart {c : UInt8} (h : isIdentStart c = true) :
    isIdentContinue c = true := by
  cases c with | ofBitVec bits => revert bits; decide

/-- The condition, token by token. -/
theorem asciiOutside_token (stops : Bool) (c : UInt8) (rest : List UInt8) :
    asciiOutside stops (c :: rest) = true ↔
      c.toNat < 0x80 ∧ ((consumeToken c rest).1 = .brackets ∧ stops = true ∨
        asciiOutside stops (consumeToken c rest).2 = true) := by
  unfold consumeToken
  by_cases hident : isIdentStart c = true
  · have hordinary := isOrdinary_of_isIdentContinue (isIdentContinue_of_isIdentStart hident)
    rw [if_pos hident, asciiOutside_ordinary stops hordinary]
    dsimp only
    rw [asciiOutside_dropWhile stops fun _ ↦ isOrdinary_of_isIdentContinue]
    simp [hordinary.1]
  rw [if_neg hident]
  by_cases hquote : c = apostrophe ∨ c = quotationMark
  · have hlt : c.toNat < 0x80 := by
      rcases hquote with rfl | rfl <;> decide
    rw [if_pos hquote, asciiOutside, if_pos hquote]
    simp [hlt]
  rw [if_neg hquote]
  by_cases hparen : c = openParen
  · have hlt : c.toNat < 0x80 := by
      rw [hparen]
      decide
    rw [if_pos hparen, asciiOutside, if_neg hquote, if_pos hparen]
    simp [hlt]
  rw [if_neg hparen]
  by_cases hbracket : c = openBracket
  · have hlt : c.toNat < 0x80 := by
      rw [hbracket]
      decide
    rw [if_pos hbracket, asciiOutside, if_neg hquote, if_neg hparen, if_pos hbracket]
    simp [hlt]
  · rw [if_neg hbracket, asciiOutside, if_neg hquote, if_neg hparen, if_neg hbracket]
    simp [lt_iff_ascii]

/-! ### Runs of the tokenizer -/

/-- The token that the call of `move_next` with a number returns, from a position on. -/
def tokensFrom (field : List UInt8) : ℕ → ℕ → Token
  | pos, 0 => moveNextToken field pos
  | pos, count + 1 => tokensFrom field (moveNextToken field pos).stop count

section Runs

variable {field : List UInt8} {pos : ℕ} {chars : List Char}

/-- A token that starts with an ASCII byte is between characters. -/
theorem TokenAt.starts {c : UInt8} {rest : List UInt8} {token : Token}
    (h : TokenAt field pos c rest token) (hfield : field = utf8 chars) (hc : c.toNat < 0x80) :
    StartsChar (field.drop token.start) ∧ StartsChar (field.drop token.stop) := by
  constructor
  · rw [h.start_eq]
    intro byte hbyte hcontinuation
    obtain rfl := Option.some.inj hbyte
    have hge := hcontinuation.1
    omega
  · rw [h.stop_eq]
    rcases consumeToken_last hc rest with hnil | ⟨before, last, hlast, hascii⟩
    · rw [hnil]
      exact fun byte hbyte ↦ nomatch hbyte
    · refine (@startsChar_behind chars (field.take token.start ++ before) _ last ?_).1 hascii
      rw [List.append_assoc, ← hlast, ← h.start_eq, List.take_append_drop, hfield]

/-- A token that starts with another byte is not. -/
theorem TokenAt.not_starts {c : UInt8} {rest : List UInt8} {token : Token}
    (h : TokenAt field pos c rest token) (hfield : field = utf8 chars) (hc : 0x80 ≤ c.toNat)
    (hstarts : StartsChar (field.drop token.start)) : ¬StartsChar (field.drop token.stop) := by
  rw [h.stop_eq, consumeToken_of_le hc]
  rw [h.start_eq] at hstarts
  refine (@startsChar_behind chars (field.take token.start) _ c ?_).2 hc hstarts
  rw [← h.start_eq, List.take_append_drop, hfield]

/-- The position behind the spaces: the end, or a token. -/
theorem moveNextToken_cases (hpos : pos ≤ field.length) :
    ((field.drop pos).dropWhile (· ≤ space) = [] ∧
        moveNextToken field pos = ⟨.none, field.length, field.length⟩) ∨
      ∃ c rest, (field.drop pos).dropWhile (· ≤ space) = c :: rest ∧
        TokenAt field pos c rest (moveNextToken field pos) := by
  cases hskip : (field.drop pos).dropWhile (· ≤ space) with
  | nil => exact .inl ⟨rfl, moveNextToken_none hskip⟩
  | cons c rest => exact .inr ⟨c, rest, rfl, moveNextToken_some hpos hskip⟩

/-- The condition at a token. -/
theorem asciiOutside_at {stops : Bool} {c : UInt8} {rest : List UInt8} {token : Token}
    (hskip : (field.drop pos).dropWhile (· ≤ space) = c :: rest)
    (h : TokenAt field pos c rest token) :
    asciiOutside stops (field.drop pos) = true ↔ c.toNat < 0x80 ∧
      (token.kind = .brackets ∧ stops = true ∨ asciiOutside stops (field.drop token.stop) = true) := by
  rw [← asciiOutside_dropWhile stops (fun _ ↦ isOrdinary_of_le), hskip, asciiOutside_token, h.kind_eq,
    h.stop_eq]

/-- Every token is inside the text. -/
theorem tokensFrom_le (count : ℕ) (hpos : pos ≤ field.length) :
    (tokensFrom field pos count).start ≤ (tokensFrom field pos count).stop ∧
      (tokensFrom field pos count).stop ≤ field.length := by
  induction count generalizing pos with
  | zero =>
    rcases moveNextToken_cases hpos with ⟨_, hnone⟩ | ⟨c, rest, _, htoken⟩
    · rw [tokensFrom, hnone]
      exact ⟨le_rfl, le_rfl⟩
    · exact ⟨Nat.le_of_lt htoken.start_lt, htoken.stop_le⟩
  | succ count ih =>
    rw [tokensFrom]
    refine ih ?_
    rcases moveNextToken_cases hpos with ⟨_, hnone⟩ | ⟨c, rest, _, htoken⟩
    · rw [hnone]
    · exact htoken.stop_le

/-- A call goes on where the one before it stopped. -/
theorem tokensFrom_succ (count : ℕ) :
    tokensFrom field pos (count + 1) = moveNextToken field (tokensFrom field pos count).stop := by
  induction count generalizing pos with
  | zero => rfl
  | succ count ih => exact ih

/-- The tokenizer comes to the end. -/
theorem tokensFrom_ends (fuel : ℕ) (hpos : pos ≤ field.length) (hfuel : field.length - pos ≤ fuel) :
    ∃ count ≤ fuel, (tokensFrom field pos count).kind = .none := by
  induction fuel generalizing pos with
  | zero =>
    refine ⟨0, le_rfl, ?_⟩
    rw [tokensFrom, moveNextToken_none]
    rw [List.drop_eq_nil_of_le (by omega)]
    rfl
  | succ fuel ih =>
    rcases moveNextToken_cases hpos with ⟨_, hnone⟩ | ⟨c, rest, _, htoken⟩
    · exact ⟨0, Nat.zero_le _, by rw [tokensFrom, hnone]⟩
    · have hlt := htoken.start_lt
      have hle := htoken.pos_le
      obtain ⟨count, hcount, hkind⟩ := ih htoken.stop_le (by omega)
      exact ⟨count + 1, by omega, hkind⟩

/-- Assumes: ASCII outside quotes and brackets. Every token is between characters. -/
theorem tokensFrom_starts (count : ℕ) (hfield : field = utf8 chars) (hpos : pos ≤ field.length)
    (hascii : asciiOutside false (field.drop pos) = true) :
    StartsChar (field.drop (tokensFrom field pos count).start) ∧
      StartsChar (field.drop (tokensFrom field pos count).stop) := by
  have hend : StartsChar (field.drop field.length) := by
    rw [List.drop_length]
    exact fun byte hbyte ↦ nomatch hbyte
  induction count generalizing pos with
  | zero =>
    rcases moveNextToken_cases hpos with ⟨_, hnone⟩ | ⟨c, rest, hskip, htoken⟩
    · rw [tokensFrom, hnone]
      exact ⟨hend, hend⟩
    · exact htoken.starts hfield ((asciiOutside_at hskip htoken).mp hascii).1
  | succ count ih =>
    rw [tokensFrom]
    rcases moveNextToken_cases hpos with ⟨_, hnone⟩ | ⟨c, rest, hskip, htoken⟩
    · rw [hnone]
      refine ih le_rfl ?_
      rw [List.drop_length, asciiOutside]
    · refine ih htoken.stop_le ?_
      rcases ((asciiOutside_at hskip htoken).mp hascii).2 with ⟨_, hstops⟩ | hrest
      · cases hstops
      · exact hrest

/-- Where every token is between characters, only ASCII is outside quotes and brackets. -/
theorem asciiOutside_of_starts (fuel : ℕ) (hfield : field = utf8 chars) (hpos : pos ≤ field.length)
    (hfuel : field.length - pos ≤ fuel)
    (hstarts : ∀ count, StartsChar (field.drop (tokensFrom field pos count).start) ∧
      StartsChar (field.drop (tokensFrom field pos count).stop)) :
    asciiOutside false (field.drop pos) = true := by
  induction fuel generalizing pos with
  | zero =>
    rw [List.drop_eq_nil_of_le (by omega), asciiOutside]
  | succ fuel ih =>
    rcases moveNextToken_cases hpos with ⟨hskip, _⟩ | ⟨c, rest, hskip, htoken⟩
    · rw [← asciiOutside_dropWhile false (fun _ ↦ isOrdinary_of_le), hskip, asciiOutside]
    · refine (asciiOutside_at hskip htoken).mpr ⟨?_, Or.inr ?_⟩
      · by_contra hge
        exact htoken.not_starts hfield (Nat.le_of_not_lt hge) (hstarts 0).1 (hstarts 0).2
      · have hlt := htoken.start_lt
        have hle := htoken.pos_le
        exact ih htoken.stop_le (by omega) fun count ↦ hstarts (count + 1)

end Runs

end Tracepoints
