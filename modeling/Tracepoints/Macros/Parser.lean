import Tracepoints.Macros.Unescape

/-!
# The token parser of the macros

`Parser` of `eventheader_macros/src/parser.rs` reads the arguments of a macro from its tokens, up to the
next comma at a time, and collects errors. A parser of a nested group adds to the errors of the parser it
was made from; here a parser carries the errors, and its parent takes them back (`Parser.resume`). Spans
are left out: they place an error message and decide nothing.

`Parser.Clean` relates the parsers before and after a function: errors are only added, and tokens only
taken away. Every function keeps it (`nextTokens_clean`, `nextStringLiteral_returns`, `nextArg_returns`), so
what a macro accepts was read without an error (`Clean.of_nil`). `literal_recorded_iff` says which string
literals `next_string_literal_token` takes as the strings that they denote.
-/

set_option autoImplicit false
set_option relaxedAutoImplicit false

namespace Tracepoints

open Exec

/-! ### Tokens -/

/-- `proc_macro::Delimiter`. -/
inductive Delimiter
  | parenthesis
  | brace
  | bracket
  | none
  deriving DecidableEq, Repr

/-- `proc_macro::TokenTree`. -/
inductive TokenTree
  | group (delimiter : Delimiter) (stream : List TokenTree)
  | ident (name : List Char)
  | punct (ch : Char)
  | literal (text : List Char)

namespace TokenTree

/-- Whether a token is the punctuation character `ch`. -/
def isPunct (ch : Char) : TokenTree → Bool
  | punct found => found = ch
  | _ => false

mutual

/-- The number of tokens in a token, itself included. -/
def weight : TokenTree → ℕ
  | group _ stream => weights stream + 1
  | ident _ => 1
  | punct _ => 1
  | literal _ => 1

/-- The number of tokens in a token stream. -/
def weights : List TokenTree → ℕ
  | [] => 0
  | token :: tokens => weight token + weights tokens

end

mutual

/-- The token inside groups without delimiters, as long as they are one token. -/
def sole : TokenTree → TokenTree
  | group .none stream => (soleOf stream).getD (group .none stream)
  | token => token

/-- The token inside a stream of one token. -/
def soleOf : List TokenTree → Option TokenTree
  | [token] => some (sole token)
  | _ => none

end

@[simp] theorem sole_literal (text : List Char) : sole (.literal text) = .literal text := by
  simp [sole]

end TokenTree

/-! ### The parser -/

/-- `ArgConstraints`. -/
inductive ArgConstraints
  | optional
  | optionalNotLast
  | required
  | requiredLast
  | requiredNotLast
  deriving DecidableEq, Repr

/-- `Parser`: the tokens left, and the messages of the errors so far. -/
structure Parser where
  tokens : List TokenTree
  errors : List String

namespace Parser

/-- `Errors::add`. -/
def addError (parser : Parser) (message : String) : Parser :=
  { parser with errors := parser.errors ++ [message] }

/-- The parser again, after a parser that was made from it. -/
def resume (parser nested : Parser) : Parser := { parser with errors := nested.errors }

/-- `from_group`. -/
def fromGroup (parser : Parser) (stream : List TokenTree) : Parser := { parser with tokens := stream }

/-- `move_next`. -/
def moveNext (parser : Parser) : Option TokenTree × Parser :=
  match parser.tokens with
  | [] => (none, parser)
  | token :: tokens => (some token, { parser with tokens := tokens })

/-- The loop of `skip_to_comma`: whether there is a comma, and the tokens behind it. -/
def skipToCommaLoop : TokenTree → List TokenTree → Bool × List TokenTree
  | token, [] => (token.isPunct ',', [])
  | token, next :: tokens =>
    if token.isPunct ',' then (true, next :: tokens) else skipToCommaLoop next tokens

/-- `skip_to_comma`. -/
def skipToComma (parser : Parser) (nextToken : TokenTree) : Bool × Parser :=
  let (found, tokens) := skipToCommaLoop nextToken parser.tokens
  (found, { parser with tokens := tokens })

/-- `eos_before_item`. -/
def eosBeforeItem (parser : Parser) (constraints : ArgConstraints) (errorMessage : String) : Parser :=
  match constraints with
  | .optional => parser
  | _ => parser.addError errorMessage

/-- `unexpected_token_before_end`. -/
def unexpectedTokenBeforeEnd (parser : Parser) (constraints : ArgConstraints) : Parser :=
  parser.addError <|
    match constraints with
    | .optional | .required => "expected ',' or ')'"
    | .requiredLast => "expected ')'"
    | .optionalNotLast | .requiredNotLast => "expected ','"

/-- `comma_after_item`. -/
def commaAfterItem (parser : Parser) (constraints : ArgConstraints) : Parser :=
  match constraints with
  | .requiredLast =>
    match parser.moveNext with
    | (some _, parser) => parser.unexpectedTokenBeforeEnd constraints
    | (none, parser) => parser
  | _ => parser

/-- `next_comma`. -/
def nextComma (parser : Parser) (constraints : ArgConstraints) : Parser :=
  match parser.moveNext with
  | (some token, parser) =>
    if token.isPunct ',' then parser.commaAfterItem constraints
    else ((parser.unexpectedTokenBeforeEnd constraints).skipToComma token).2
  | (none, parser) => parser

/-- What several functions do with a token that they do not expect. -/
def skipItem (parser : Parser) (token : TokenTree) (constraints : ArgConstraints)
    (errorMessage : String) : Parser :=
  let (found, parser) := (parser.addError errorMessage).skipToComma token
  if found then parser.commaAfterItem constraints else parser

/-- `next_ident`. -/
def nextIdent (parser : Parser) (constraints : ArgConstraints) (errorMessage : String) :
    Option (List Char) × Parser :=
  match parser.moveNext with
  | (some (.ident ident), parser) => (some ident, parser.nextComma constraints)
  | (some token, parser) => (none, parser.skipItem token constraints errorMessage)
  | (none, parser) => (none, parser.eosBeforeItem constraints errorMessage)

/-- `next_string_literal_token`. A group without delimiters is looked into when it is one token. -/
def nextStringLiteralFrom (parser : Parser) (constraints : ArgConstraints) (errorMessage : String)
    (token : Option TokenTree) : Exec (Option (List Char) × Parser) :=
  match token.map TokenTree.sole with
  | some (.literal text) =>
    if (utf8 text).length < 2 ∨ text.head? ≠ some '"' ∨ text.getLast? ≠ some '"' then
      .ok (none, parser.skipItem (.literal text) constraints errorMessage)
    else do
      match ← unescape text.tail.dropLast with
      | some unescaped => .ok (some unescaped, parser.nextComma constraints)
      | none => .ok (none, (parser.addError "unsupported escape sequence").nextComma constraints)
  | some (.group .none stream) =>
    match stream.getLast? with
    | some token => .ok (none, parser.skipItem token constraints errorMessage)
    | none => .ok (none, parser.addError errorMessage)
  | some token => .ok (none, parser.skipItem token constraints errorMessage)
  | none => .ok (none, parser.eosBeforeItem constraints errorMessage)

/-- `next_string_literal`. -/
def nextStringLiteral (parser : Parser) (constraints : ArgConstraints) (errorMessage : String) :
    Exec (Option (List Char) × Parser) :=
  let (token, parser) := parser.moveNext
  parser.nextStringLiteralFrom constraints errorMessage token

/-- The loop of `next_tokens`, over the tokens left and with those it has taken. -/
def nextTokensLoop (errors : List String) (constraints : ArgConstraints) (errorMessage : String) :
    List TokenTree → List TokenTree → List TokenTree × Parser
  | taken, [] =>
    let parser : Parser := ⟨[], errors⟩
    (taken, if taken.isEmpty then parser.eosBeforeItem constraints errorMessage else parser)
  | taken, token :: tokens =>
    let parser : Parser := ⟨tokens, errors⟩
    if token.isPunct ',' then
      (taken, (if taken.isEmpty then parser.addError errorMessage else parser).commaAfterItem
        constraints)
    else if token.isPunct ';' then
      (taken, ((parser.unexpectedTokenBeforeEnd constraints).skipToComma token).2)
    else nextTokensLoop errors constraints errorMessage (taken ++ [token]) tokens

/-- `next_tokens`. -/
def nextTokens (parser : Parser) (constraints : ArgConstraints) (errorMessage : String) :
    List TokenTree × Parser :=
  nextTokensLoop parser.errors constraints errorMessage [] parser.tokens

/-- `ArgResult`, with the tokens of the nested parser. -/
inductive ArgResult
  | none
  | option (ident : List Char) (tokens : List TokenTree)
  | struct (tokens : List TokenTree)

/-- `EXPECTED_OPTION` and `EXPECTED_OPTION_OR_STRUCT`. -/
def expectedOption (wantStruct : Bool) : String :=
  if wantStruct then
    "expected '\x7b' for struct or identifier for option name, e.g. Option(args...)"
  else "expected identifier for option name, e.g. Option(args...)"

/-- `EXPECTED_OPTION_ARGS`. -/
def expectedOptionArgs : String := "expected '(' after option name, e.g. Option(args...)"

/-- The loop of `next_arg`. -/
def nextArgLoop (wantStruct : Bool) : ℕ → Parser → Exec (ArgResult × Parser)
  | 0, _ => .error .unfinished
  | fuel + 1, parser =>
    match parser.moveNext with
    | (some (.group delimiter stream), parser) =>
      if wantStruct ∧ delimiter = .brace then .ok (.struct stream, parser)
      else
        nextArgLoop wantStruct fuel
          ((parser.addError (expectedOption wantStruct)).skipToComma (.group delimiter stream)).2
    | (some (.ident nameIdent), parser) =>
      match parser.moveNext with
      | (some (.group .parenthesis stream), parser) =>
        .ok (.option nameIdent stream,
          parser.nextComma (if wantStruct then .optionalNotLast else .optional))
      | (some token, parser) =>
        nextArgLoop wantStruct fuel ((parser.addError expectedOptionArgs).skipToComma token).2
      | (none, parser) => .ok (.none, parser.addError expectedOptionArgs)
    | (some token, parser) =>
      nextArgLoop wantStruct fuel ((parser.addError (expectedOption wantStruct)).skipToComma token).2
    | (none, parser) =>
      .ok (.none, if wantStruct then parser.addError (expectedOption wantStruct) else parser)

/-- `next_arg`. -/
def nextArg (parser : Parser) (wantStruct : Bool) : Exec (ArgResult × Parser) :=
  nextArgLoop wantStruct (parser.tokens.length + 1) parser

/-! ### Errors are only added, tokens only taken -/

/-- What a function leaves of a parser: all its errors, and no more tokens than it had. -/
structure Clean (parser result : Parser) : Prop where
  errors : parser.errors <+: result.errors
  length : result.tokens.length ≤ parser.tokens.length
  weights : TokenTree.weights result.tokens ≤ TokenTree.weights parser.tokens

variable {parser result : Parser}

theorem Clean.refl (parser : Parser) : Clean parser parser :=
  ⟨List.prefix_rfl, le_rfl, le_rfl⟩

theorem Clean.trans {last : Parser} (h : Clean parser result) (h' : Clean result last) :
    Clean parser last :=
  ⟨h.errors.trans h'.errors, h'.length.trans h.length, h'.weights.trans h.weights⟩

/-- Where there is no error in the end, there was none before. -/
theorem Clean.of_nil (h : Clean parser result) (hnil : result.errors = []) : parser.errors = [] := by
  have herrors := h.errors
  rw [hnil] at herrors
  exact List.prefix_nil.mp herrors

theorem addError_clean (parser : Parser) (message : String) :
    Clean parser (parser.addError message) :=
  ⟨List.prefix_append _ _, le_rfl, le_rfl⟩

theorem addError_errors_ne (parser : Parser) (message : String) :
    (parser.addError message).errors ≠ [] := by
  simp [addError]

/-- An error stays. -/
theorem Clean.errors_ne (h : Clean parser result) (hne : parser.errors ≠ []) : result.errors ≠ [] :=
  fun hnil ↦ hne (h.of_nil hnil)

theorem skipToCommaLoop_le (token : TokenTree) (tokens : List TokenTree) :
    (skipToCommaLoop token tokens).2.length ≤ tokens.length ∧
      TokenTree.weights (skipToCommaLoop token tokens).2 ≤ TokenTree.weights tokens := by
  induction tokens generalizing token with
  | nil => simp [skipToCommaLoop]
  | cons next tokens ih =>
    rw [skipToCommaLoop]
    split_ifs
    · simp
    · obtain ⟨hlength, hweights⟩ := ih next
      refine ⟨hlength.trans (Nat.le_succ _), hweights.trans ?_⟩
      simp [TokenTree.weights]

theorem skipToComma_clean (parser : Parser) (token : TokenTree) :
    Clean parser (parser.skipToComma token).2 := by
  obtain ⟨hlength, hweights⟩ := skipToCommaLoop_le token parser.tokens
  exact ⟨List.prefix_rfl, hlength, hweights⟩

theorem moveNext_clean (parser : Parser) : Clean parser parser.moveNext.2 := by
  unfold moveNext
  split
  · exact Clean.refl _
  · rename_i token tokens htokens
    refine ⟨List.prefix_rfl, ?_, ?_⟩
    · simp [htokens]
    · simp [htokens, TokenTree.weights]

theorem eosBeforeItem_clean (parser : Parser) (constraints : ArgConstraints) (message : String) :
    Clean parser (parser.eosBeforeItem constraints message) := by
  unfold eosBeforeItem
  split
  · exact Clean.refl _
  · exact addError_clean _ _

theorem commaAfterItem_clean (parser : Parser) (constraints : ArgConstraints) :
    Clean parser (parser.commaAfterItem constraints) := by
  unfold commaAfterItem
  split
  · have hclean := parser.moveNext_clean
    split
    · rename_i hmove
      rw [hmove] at hclean
      exact hclean.trans (addError_clean _ _)
    · rename_i hmove
      rwa [hmove] at hclean
  · exact Clean.refl _

theorem nextComma_clean (parser : Parser) (constraints : ArgConstraints) :
    Clean parser (parser.nextComma constraints) := by
  unfold nextComma
  have hclean := parser.moveNext_clean
  split
  · rename_i hmove
    rw [hmove] at hclean
    split_ifs
    · exact hclean.trans (commaAfterItem_clean _ _)
    · exact hclean.trans ((addError_clean _ _).trans (skipToComma_clean _ _))
  · rename_i hmove
    rwa [hmove] at hclean

theorem skipItem_clean (parser : Parser) (token : TokenTree) (constraints : ArgConstraints)
    (message : String) : Clean (parser.addError message) (parser.skipItem token constraints message) := by
  unfold skipItem
  have hclean := skipToComma_clean (parser.addError message) token
  dsimp only
  split_ifs
  · exact hclean.trans (commaAfterItem_clean _ _)
  · exact hclean

/-- `next_string_literal_token` returns. Where the item is required, no string means an error. -/
theorem nextStringLiteralFrom_returns (parser : Parser) {constraints : ArgConstraints}
    (hrequired : constraints ≠ .optional) (message : String) (token : Option TokenTree) :
    Returns (parser.nextStringLiteralFrom constraints message token) fun result ↦
      Clean parser result.2 ∧ (result.1 = none → result.2.errors ≠ []) := by
  have hskip : ∀ token, Clean parser (parser.skipItem token constraints message) ∧
      (parser.skipItem token constraints message).errors ≠ [] := fun token ↦
    ⟨(addError_clean _ _).trans (skipItem_clean _ _ _ _),
      (skipItem_clean _ _ _ _).errors_ne (addError_errors_ne _ _)⟩
  unfold nextStringLiteralFrom
  split
  · refine Returns.ite (fun _ ↦ Returns.ok ⟨(hskip _).1, fun _ ↦ (hskip _).2⟩) (fun _ ↦ ?_)
    refine Returns.bind (unescape_returns _) fun result _ ↦ ?_
    cases result with
    | some unescaped => exact Returns.ok ⟨nextComma_clean _ _, by simp⟩
    | none =>
      exact Returns.ok ⟨(addError_clean _ _).trans (nextComma_clean _ _),
        fun _ ↦ (nextComma_clean _ _).errors_ne (addError_errors_ne _ _)⟩
  · split
    · exact Returns.ok ⟨(hskip _).1, fun _ ↦ (hskip _).2⟩
    · exact Returns.ok ⟨addError_clean _ _, fun _ ↦ addError_errors_ne _ _⟩
  · exact Returns.ok ⟨(hskip _).1, fun _ ↦ (hskip _).2⟩
  · refine Returns.ok ⟨eosBeforeItem_clean _ _ _, fun _ ↦ ?_⟩
    unfold eosBeforeItem
    split
    · exact absurd rfl hrequired
    · exact addError_errors_ne _ _

theorem nextStringLiteral_returns (parser : Parser) {constraints : ArgConstraints}
    (hrequired : constraints ≠ .optional) (message : String) :
    Returns (parser.nextStringLiteral constraints message) fun result ↦
      Clean parser result.2 ∧ (result.1 = none → result.2.errors ≠ []) := by
  refine (nextStringLiteralFrom_returns _ hrequired message _).mono fun result hresult ↦ ?_
  exact ⟨parser.moveNext_clean.trans hresult.1, hresult.2⟩

/-! ### Token arguments -/

theorem nextTokensLoop_clean (errors : List String) {constraints : ArgConstraints} (message : String)
    (taken tokens : List TokenTree) :
    Clean ⟨tokens, errors⟩ (nextTokensLoop errors constraints message taken tokens).2 ∧
      (constraints ≠ .optional → (nextTokensLoop errors constraints message taken tokens).1 = [] →
        (nextTokensLoop errors constraints message taken tokens).2.errors ≠ []) := by
  induction tokens generalizing taken with
  | nil =>
    rw [nextTokensLoop]
    dsimp only
    split_ifs with hempty
    · refine ⟨eosBeforeItem_clean _ _ _, fun hrequired _ ↦ ?_⟩
      unfold eosBeforeItem
      split
      · exact absurd rfl hrequired
      · exact addError_errors_ne _ _
    · exact ⟨Clean.refl _, fun _ hnil ↦ absurd (List.isEmpty_iff.mpr hnil) hempty⟩
  | cons token tokens ih =>
    have hdrop : Clean ⟨token :: tokens, errors⟩ ⟨tokens, errors⟩ :=
      ⟨List.prefix_rfl, Nat.le_succ _, by simp [TokenTree.weights]⟩
    rw [nextTokensLoop]
    split_ifs with hcomma hempty hsemicolon
    · exact ⟨hdrop.trans ((addError_clean _ _).trans (commaAfterItem_clean _ _)),
        fun _ _ ↦ (commaAfterItem_clean _ _).errors_ne (addError_errors_ne _ _)⟩
    · exact ⟨hdrop.trans (commaAfterItem_clean _ _),
        fun _ hnil ↦ absurd (List.isEmpty_iff.mpr hnil) hempty⟩
    · exact ⟨hdrop.trans ((addError_clean _ _).trans (skipToComma_clean _ _)),
        fun _ _ ↦ (skipToComma_clean _ _).errors_ne (addError_errors_ne _ _)⟩
    · obtain ⟨hclean, herror⟩ := ih (taken ++ [token])
      exact ⟨hdrop.trans hclean, herror⟩

theorem nextTokens_clean (parser : Parser) (constraints : ArgConstraints) (message : String) :
    Clean parser (parser.nextTokens constraints message).2 :=
  (nextTokensLoop_clean _ _ _ _).1

/-! ### Options -/

/-- The tokens that an argument brings. -/
def ArgResult.tokens : ArgResult → List TokenTree
  | none => []
  | option _ tokens => tokens
  | struct tokens => tokens

/-- What `next_arg` leaves of a parser: an argument is one token of it, with all that it contains. A
struct is found only where one is wanted, and must be there. -/
structure ArgTaken (wantStruct : Bool) (parser : Parser) (result : ArgResult × Parser) : Prop where
  clean : Clean parser result.2
  weights : result.1 ≠ .none →
    TokenTree.weights result.1.tokens + TokenTree.weights result.2.tokens <
      TokenTree.weights parser.tokens
  wanted : ∀ tokens, result.1 = .struct tokens → wantStruct = true
  missing : result.1 = .none → wantStruct = true → result.2.errors ≠ []

theorem ArgTaken.of_clean {wantStruct : Bool} {parser next : Parser} {result : ArgResult × Parser}
    (h : ArgTaken wantStruct next result) (hclean : Clean parser next) :
    ArgTaken wantStruct parser result :=
  ⟨hclean.trans h.clean, fun hne ↦ (h.weights hne).trans_le hclean.weights, h.wanted, h.missing⟩

theorem nextArgLoop_returns (wantStruct : Bool) (fuel : ℕ) (parser : Parser)
    (hfuel : parser.tokens.length < fuel) :
    Returns (nextArgLoop wantStruct fuel parser) (ArgTaken wantStruct parser) := by
  induction fuel generalizing parser with
  | zero => omega
  | succ fuel ih =>
    obtain ⟨tokens, errors⟩ := parser
    -- the loop goes on behind the next comma, with fewer tokens
    have hskip : ∀ (first : List TokenTree) (token : TokenTree) (rest : List TokenTree)
        (message : String), tokens = first ++ rest → first ≠ [] →
        Returns (nextArgLoop wantStruct fuel
          (((⟨rest, errors⟩ : Parser).addError message).skipToComma token).2)
          (ArgTaken wantStruct ⟨tokens, errors⟩) := by
      intro first token rest message htokens hfirst
      have hskipped := (addError_clean ⟨rest, errors⟩ message).trans (skipToComma_clean _ token)
      have hdrop : Clean ⟨tokens, errors⟩ ⟨rest, errors⟩ := by
        rw [htokens]
        refine ⟨List.prefix_rfl, by simp, ?_⟩
        clear hfuel htokens hskipped hfirst
        induction first with
        | nil => rfl
        | cons head first ih => exact ih.trans (Nat.le_add_left _ _)
      have hlength : rest.length < tokens.length := by
        rw [htokens, List.length_append]
        have := List.length_pos_iff.mpr hfirst
        omega
      refine (ih _ ?_).mono fun result hresult ↦ hresult.of_clean (hdrop.trans hskipped)
      exact lt_of_le_of_lt hskipped.length (by dsimp only at hfuel ⊢; omega)
    rw [nextArgLoop]
    match tokens with
    | [] =>
      refine Returns.ok ⟨?_, fun hne ↦ absurd rfl hne, by simp, fun _ hwant ↦ ?_⟩
      · cases wantStruct
        · exact Clean.refl _
        · exact addError_clean _ _
      · simp [hwant, addError]
    | .group delimiter stream :: rest =>
      refine Returns.ite (fun hwant ↦ ?_) (fun _ ↦ hskip [_] _ rest _ rfl (by simp))
      refine Returns.ok ⟨⟨List.prefix_rfl, Nat.le_succ _, ?_⟩, fun _ ↦ ?_, fun _ _ ↦ hwant.1, by simp⟩
      · simp [TokenTree.weights]
      · simp [ArgResult.tokens, TokenTree.weights, TokenTree.weight]
    | .punct ch :: rest => exact hskip [_] _ rest _ rfl (by simp)
    | .literal text :: rest => exact hskip [_] _ rest _ rfl (by simp)
    | [.ident nameIdent] =>
      refine Returns.ok ⟨?_, fun hne ↦ absurd rfl hne, by simp, fun _ _ ↦ addError_errors_ne _ _⟩
      exact ⟨List.prefix_append _ _, Nat.zero_le _, Nat.zero_le _⟩
    | .ident nameIdent :: .group .parenthesis stream :: rest =>
      have hcomma := nextComma_clean ⟨rest, errors⟩
        (if wantStruct then .optionalNotLast else .optional)
      have hdrop : Clean ⟨.ident nameIdent :: .group .parenthesis stream :: rest, errors⟩
          ⟨rest, errors⟩ :=
        ⟨List.prefix_rfl, by simp only [List.length_cons]; omega,
          by simp only [TokenTree.weights]; omega⟩
      refine Returns.ok ⟨hdrop.trans hcomma, fun _ ↦ ?_, by simp, by simp⟩
      have hweights := hcomma.weights
      simp only [ArgResult.tokens, TokenTree.weights, TokenTree.weight] at hweights ⊢
      omega
    | .ident nameIdent :: .group .brace stream :: rest => exact hskip [_, _] _ rest _ rfl (by simp)
    | .ident nameIdent :: .group .bracket stream :: rest => exact hskip [_, _] _ rest _ rfl (by simp)
    | .ident nameIdent :: .group .none stream :: rest => exact hskip [_, _] _ rest _ rfl (by simp)
    | .ident nameIdent :: .ident ident :: rest => exact hskip [_, _] _ rest _ rfl (by simp)
    | .ident nameIdent :: .punct ch :: rest => exact hskip [_, _] _ rest _ rfl (by simp)
    | .ident nameIdent :: .literal text :: rest => exact hskip [_, _] _ rest _ rfl (by simp)

/-- `next_arg` returns. -/
theorem nextArg_returns (parser : Parser) (wantStruct : Bool) :
    Returns (parser.nextArg wantStruct) (ArgTaken wantStruct parser) :=
  nextArgLoop_returns wantStruct _ parser (Nat.lt_succ_self _)

end Parser

/-! ### String literals -/

/-- A literal is recorded as the string that it denotes. -/
def Recorded (literal : List LiteralElement) : Prop :=
  unescape (literalText literal) = .ok (some (literalString literal)) ∧
    ∀ (parser : Parser) (constraints : ArgConstraints) (errorMessage : String),
      parser.nextStringLiteralFrom constraints errorMessage
          (some (.literal ('"' :: (literalText literal ++ ['"'])))) =
        .ok (some (literalString literal), parser.nextComma constraints)

/-- A literal is recorded as written exactly if it has no escape of a quote and none with six digits. -/
theorem literal_recorded_iff (literal : List LiteralElement) :
    Recorded literal ↔ ∀ element ∈ literal, element.Supported := by
  have hlength := length_le_literalText literal
  obtain ⟨hall, hnone⟩ := @unescapeLoop_literal literal ((literalText literal).length + 1)
    (by omega) []
  rw [List.nil_append] at hall
  change (_ → unescape (literalText literal) = _) at hall
  change (_ → unescape (literalText literal) = _) at hnone
  constructor
  · intro hrecorded
    by_contra hunsupported
    have hunescape := hrecorded.1
    rw [hnone hunsupported] at hunescape
    cases Except.ok.inj hunescape
  · intro hsupported
    refine ⟨hall hsupported, fun parser constraints errorMessage ↦ ?_⟩
    have hbytes : ¬(utf8 ('"' :: (literalText literal ++ ['"']))).length < 2 := by
      have hquote : (String.utf8EncodeChar '"').length = 1 := rfl
      rw [utf8_cons, utf8_append, List.length_append, List.length_append, utf8_singleton, hquote]
      omega
    have hlast : ('"' :: (literalText literal ++ ['"'])).getLast? = some '"' := by
      rw [← List.cons_append, List.getLast?_concat]
    unfold Parser.nextStringLiteralFrom
    rw [Option.map_some, TokenTree.sole_literal]
    dsimp only
    rw [if_neg, List.tail_cons, List.dropLast_concat, hall hsupported]
    · rfl
    · rintro (hshort | hhead | htail)
      · exact hbytes hshort
      · exact hhead rfl
      · exact htail hlast

/-- The escape of the last code point. -/
def lastCodePoint : LiteralElement :=
  .codePoint ['1', '0', 'F', 'F', 'F', 'F'] (by decide) (by decide) (by decide) (by decide)

theorem quote_not_recorded : ¬Recorded [.quote] ∧ ¬Recorded [lastCodePoint] := by
  constructor
  · intro h
    cases Except.ok.inj h.1
  · intro h
    cases Except.ok.inj h.1

end Tracepoints
