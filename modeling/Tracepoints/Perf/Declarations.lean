import Tracepoints.Perf.Tokens

/-!
# The declaration of a field

`PerfFieldFormat::new` for every declaration. The token loop (`scan_returns`) ends, its slices are
inside the declaration and between characters where the characters before the first brackets are
ASCII characters (`asciiOutside`), and the number in the brackets is read without an overflow where
it fits 32 bits (`Fits`). What the loop finds is said of the tokens of the declaration
(`Declares`).

`tokensOk_iff` says for which texts the tokens are what they are meant to be, `consistent_iff` for
which declarations the deduced properties are.
-/

set_option autoImplicit false
set_option relaxedAutoImplicit false

namespace Tracepoints

open Exec

/-! ### Numbers -/

namespace Text

/-- The number that the digits at the start of a text continue, if there is any digit. -/
def writtenDigits (radix : ℕ) : ℕ → Bool → List UInt8 → Option ℕ
  | value, anyDigits, [] => if anyDigits then some value else none
  | value, anyDigits, c :: rest =>
    match toDigit radix c with
    | some digit => writtenDigits radix (value * radix + digit) true rest
    | none => if anyDigits then some value else none

/-- The number that a text starts with, as `ascii_to_u32` reads it but of any size. -/
def writtenNumber (chars : List UInt8) : Option ℕ :=
  match chars.dropWhile isSpaceOrTab with
  | zero :: x :: digit :: rest =>
    if zero = 48 ∧ (x = 120 ∨ x = 88) then writtenDigits 16 0 false (digit :: rest)
    else writtenDigits 10 0 false (zero :: x :: digit :: rest)
  | rest => writtenDigits 10 0 false rest

/-- The number that a text starts with, if any, fits 32 bits. -/
def Fits (chars : List UInt8) : Prop := ∀ number ∈ writtenNumber chars, number < 2 ^ 32

instance (chars : List UInt8) : Decidable (Fits chars) :=
  inferInstanceAs (Decidable (∀ number ∈ writtenNumber chars, number < 2 ^ 32))

theorem le_writtenDigits {radix : ℕ} (hradix : 0 < radix) {value : ℕ} {text : List UInt8} :
    ∃ number ∈ writtenDigits radix value true text, value ≤ number := by
  induction text generalizing value with
  | nil => exact ⟨value, rfl, le_rfl⟩
  | cons c rest ih =>
    rw [writtenDigits]
    cases toDigit radix c with
    | none => exact ⟨value, rfl, le_rfl⟩
    | some digit =>
      obtain ⟨number, hnumber, hle⟩ := @ih (value * radix + digit)
      have hmul := Nat.le_mul_of_pos_right value hradix
      exact ⟨number, hnumber, (hmul.trans (Nat.le_add_right _ _)).trans hle⟩

/-- Digits of a number that fits 32 bits are read as the number. -/
theorem digitsLoop_of_lt (build : Build) {radix : ℕ} (hradix : 0 < radix) {value : ℕ}
    {anyDigits : Bool} {text : List UInt8}
    (h : ∀ number ∈ writtenDigits radix value anyDigits text, number < 2 ^ 32) :
    digitsLoop build radix value anyDigits text = .ok (writtenDigits radix value anyDigits text) := by
  induction text generalizing value anyDigits with
  | nil => rfl
  | cons c rest ih =>
    rw [digitsLoop, writtenDigits]
    rw [writtenDigits] at h
    cases hdigit : toDigit radix c with
    | none => rfl
    | some digit =>
      rw [hdigit] at h
      obtain ⟨number, hnumber, hle⟩ := @le_writtenDigits radix hradix (value * radix + digit) rest
      have hlt := hle.trans_lt (h number hnumber)
      simp only [appendDigit, if_pos hlt, ok_bind]
      exact ih h

/-- Digits of a number that does not fit overflow where the build checks for it. -/
theorem digitsLoop_of_le {radix : ℕ} {build : Build} (hbuild : build.debugAssertions = true)
    {value : ℕ} {anyDigits : Bool} {text : List UInt8} (hvalue : value < 2 ^ 32)
    (h : ∃ number ∈ writtenDigits radix value anyDigits text, 2 ^ 32 ≤ number) :
    digitsLoop build radix value anyDigits text = .error .overflow := by
  have hend : ¬∃ number ∈ if anyDigits = true then some value else none, 2 ^ 32 ≤ number := by
    rintro ⟨number, hnumber, hle⟩
    split_ifs at hnumber
    · obtain rfl := Option.some.inj hnumber
      omega
    · cases hnumber
  induction text generalizing value anyDigits with
  | nil => exact absurd h hend
  | cons c rest ih =>
    rw [digitsLoop]
    rw [writtenDigits] at h
    cases hdigit : toDigit radix c with
    | none =>
      rw [hdigit] at h
      exact absurd h hend
    | some digit =>
      rw [hdigit] at h
      dsimp only [appendDigit]
      by_cases hlt : value * radix + digit < 2 ^ 32
      · rw [if_pos hlt, ok_bind]
        refine ih hlt h ?_
        rintro ⟨number, hnumber, hle⟩
        obtain rfl := Option.some.inj hnumber
        omega
      · rw [if_neg hlt, if_pos hbuild, error_bind]

/-- A number is read as the digits of a radix. -/
theorem asciiToU32_digits (chars : List UInt8) :
    ∃ radix digits, 0 < radix ∧ writtenNumber chars = writtenDigits radix 0 false digits ∧
      ∀ build, asciiToU32 build chars = digitsLoop build radix 0 false digits := by
  unfold writtenNumber asciiToU32
  generalize chars.dropWhile isSpaceOrTab = text
  match text with
  | [] | [_] | [_, _] => exact ⟨10, _, by omega, rfl, fun build ↦ rfl⟩
  | zero :: x :: digit :: rest =>
    dsimp only
    by_cases hhex : zero = 48 ∧ (x = 120 ∨ x = 88)
    · simp only [if_pos hhex]
      exact ⟨16, _, by omega, rfl, fun build ↦ rfl⟩
    · simp only [if_neg hhex]
      exact ⟨10, _, by omega, rfl, fun build ↦ rfl⟩

/-- A number that fits 32 bits is read alike in every build. -/
theorem asciiToU32_of_fits (build : Build) {chars : List UInt8} (h : Fits chars) :
    asciiToU32 build chars = .ok (writtenNumber chars) := by
  obtain ⟨radix, digits, hradix, hnumber, heq⟩ := asciiToU32_digits chars
  unfold Fits at h
  rw [hnumber] at h ⊢
  exact (heq build).trans (digitsLoop_of_lt build hradix h)

/-- A number that does not fit overflows where the build checks for it. -/
theorem asciiToU32_of_not_fits {build : Build} (hbuild : build.debugAssertions = true)
    {chars : List UInt8} (h : ¬Fits chars) : asciiToU32 build chars = .error .overflow := by
  obtain ⟨radix, digits, _, hnumber, heq⟩ := asciiToU32_digits chars
  have hle : ∃ number ∈ writtenDigits radix 0 false digits, 2 ^ 32 ≤ number := by
    rw [← hnumber]
    simpa [Fits] using h
  exact (heq build).trans (digitsLoop_of_le hbuild (by omega) hle)

theorem digitsLoop_error {build : Build} {radix value : ℕ} {anyDigits : Bool} {text : List UInt8}
    {fault : Fault} (h : digitsLoop build radix value anyDigits text = .error fault) :
    fault = .overflow := by
  induction text generalizing value anyDigits with
  | nil => cases h
  | cons c rest ih =>
    rw [digitsLoop] at h
    cases hdigit : toDigit radix c with
    | none =>
      rw [hdigit] at h
      cases h
    | some digit =>
      rw [hdigit] at h
      dsimp only [appendDigit] at h
      split_ifs at h
      · exact ih h
      · exact (Except.error.inj h).symm
      · exact ih h

/-- Reading a number faults only where the number does not fit. -/
theorem asciiToU32_error {build : Build} {chars : List UInt8} {fault : Fault}
    (h : asciiToU32 build chars = .error fault) : fault = .overflow ∧ ¬Fits chars := by
  constructor
  · obtain ⟨radix, digits, _, _, heq⟩ := asciiToU32_digits chars
    rw [heq] at h
    exact digitsLoop_error h
  · intro hfits
    rw [asciiToU32_of_fits build hfits] at h
    cases h

end Text

/-! ### What a declaration contains -/

open Text

/-- The bytes of a token. -/
def Token.text (field : List UInt8) (token : Token) : List UInt8 :=
  (field.drop token.start).take (token.stop - token.start)

/-- One of the tokens up to the first brackets has a property. -/
def Declares (field : List UInt8) (pos : ℕ) (found : TokenKind → List UInt8 → Prop) : Prop :=
  ∃ count, found (tokensFrom field pos count).kind ((tokensFrom field pos count).text field) ∧
    ∀ earlier < count, (tokensFrom field pos earlier).kind ≠ .brackets

/-- The token is the word `struct`. -/
def IsStruct (kind : TokenKind) (text : List UInt8) : Prop := kind = .ident ∧ text = ascii "struct"

/-- The token is the sign of a pointer. -/
def IsPointer (kind : TokenKind) (text : List UInt8) : Prop := kind = .punctuation ∧ text = ascii "*"

/-- The token is an array size that does not fit 32 bits. -/
def IsHuge (kind : TokenKind) (text : List UInt8) : Prop :=
  kind = .brackets ∧ ¬Fits text.tail

section Declares

variable {field : List UInt8} {pos : ℕ} {found : TokenKind → List UInt8 → Prop}

theorem declares_step : Declares field pos found ↔
    found (moveNextToken field pos).kind ((moveNextToken field pos).text field) ∨
      (moveNextToken field pos).kind ≠ .brackets ∧
        Declares field (moveNextToken field pos).stop found := by
  constructor
  · rintro ⟨count, hfound, hearlier⟩
    cases count with
    | zero => exact .inl hfound
    | succ count =>
      refine .inr ⟨hearlier 0 (Nat.succ_pos count), count, hfound, fun earlier hlt ↦ ?_⟩
      exact hearlier (earlier + 1) (Nat.succ_lt_succ hlt)
  · rintro (hfound | ⟨hkind, count, hfound, hearlier⟩)
    · exact ⟨0, hfound, fun earlier hlt ↦ absurd hlt (Nat.not_lt_zero earlier)⟩
    · refine ⟨count + 1, hfound, fun earlier hlt ↦ ?_⟩
      cases earlier with
      | zero => exact hkind
      | succ earlier => exact hearlier earlier (Nat.lt_of_succ_lt_succ hlt)

theorem declares_brackets (h : (moveNextToken field pos).kind = .brackets) :
    Declares field pos found ↔ found .brackets ((moveNextToken field pos).text field) := by
  rw [declares_step, h]
  simp

theorem declares_other {kind : TokenKind} (h : (moveNextToken field pos).kind = kind)
    (hkind : kind ≠ .brackets) :
    Declares field pos found ↔ found kind ((moveNextToken field pos).text field) ∨
      Declares field (moveNextToken field pos).stop found := by
  rw [declares_step, h]
  simp [hkind]

/-- Nothing is declared behind the last token. -/
theorem not_declares_end (hnone : ¬found .none [])
    (h : (field.drop pos).dropWhile (· ≤ space) = []) : ¬Declares field pos found := by
  have htokens : ∀ count, tokensFrom field pos count = ⟨.none, field.length, field.length⟩ := by
    intro count
    induction count with
    | zero => exact moveNextToken_none h
    | succ count ih =>
      rw [tokensFrom_succ, ih]
      refine moveNextToken_none ?_
      rw [List.drop_length]
      rfl
  rintro ⟨count, hfound, _⟩
  rw [htokens] at hfound
  refine hnone ?_
  simpa [Token.text] using hfound

end Declares

/-! ### The token loop -/

namespace Declaration

/-- The positions can be the ends of a slice of the declaration. -/
def Sliceable (field : List UInt8) (start stop : ℕ) : Prop :=
  start ≤ stop ∧ isCharBoundary field start = true ∧ isCharBoundary field stop = true

/-- The ranges of the base type and the name can be sliced. -/
structure RangesOk (field : List UInt8) (found : Declaration) : Prop where
  baseType : Sliceable field found.baseTypeStart found.baseTypeStop
  name : Sliceable field found.nameStart found.nameStop

section Scan

variable {field : List UInt8} {pos : ℕ} {chars : List Char} {found : Declaration} {token : Token}

theorem rangesOk_initial (field : List UInt8) : initial.RangesOk field :=
  ⟨⟨le_rfl, by simp [initial, isCharBoundary], by simp [initial, isCharBoundary]⟩,
    ⟨le_rfl, by simp [initial, isCharBoundary], by simp [initial, isCharBoundary]⟩⟩

theorem strSlice_of_sliceable {start stop : ℕ} (h : Sliceable field start stop) :
    strSlice field start stop = .ok ((field.drop start).take (stop - start)) :=
  if_pos h

theorem strSlice_token (h : Sliceable field token.start token.stop) :
    strSlice field token.start token.stop = .ok (token.text field) :=
  if_pos h

theorem strSlice_of_not_sliceable {start stop : ℕ} (h : ¬Sliceable field start stop) :
    strSlice field start stop = .error .indexOutOfRange :=
  if_neg h

theorem RangesOk.withName (h : found.RangesOk field) (htoken : Sliceable field token.start token.stop) :
    (found.withName token).RangesOk field :=
  ⟨h.name, htoken⟩

theorem RangesOk.withIdent (h : found.RangesOk field)
    (htoken : Sliceable field token.start token.stop) (value : List UInt8) :
    (found.withIdent token value).RangesOk field := by
  unfold Declaration.withIdent
  split_ifs
  all_goals first | exact h.withName htoken | exact ⟨h.baseType, h.name⟩

theorem foundStruct_withIdent (value : List UInt8) :
    (found.withIdent token value).foundStruct = true ↔
      found.foundStruct = true ∨ value = ascii "struct" := by
  by_cases hstruct : value = ascii "struct"
  · subst hstruct
    have heq : (found.withIdent token (ascii "struct")).foundStruct = true := by
      unfold Declaration.withIdent
      rw [if_neg (by decide), if_neg (by decide), if_neg (by decide), if_neg (by decide),
        if_pos rfl]
    simp [heq]
  · unfold Declaration.withIdent
    rw [if_neg hstruct]
    split_ifs <;> simp [hstruct, Declaration.withName]

theorem foundPointer_withIdent (value : List UInt8) :
    (found.withIdent token value).foundPointer = found.foundPointer := by
  unfold Declaration.withIdent Declaration.withName
  split_ifs <;> rfl

/-- A token that starts with an ASCII byte can be sliced. -/
theorem sliceable_of_tokenAt {c : UInt8} {rest : List UInt8} (h : TokenAt field pos c rest token)
    (hfield : field = utf8 chars) (hc : c.toNat < 0x80) :
    Sliceable field token.start token.stop := by
  have hlt := h.start_lt
  have hle := h.stop_le
  obtain ⟨hstarts, hstops⟩ := h.starts hfield hc
  exact ⟨hlt.le, (isCharBoundary_iff hfield (hlt.le.trans hle)).mpr hstarts,
    (isCharBoundary_iff hfield hle).mpr hstops⟩

/-- A token that starts with another byte between characters cannot. -/
theorem not_sliceable_of_tokenAt {c : UInt8} {rest : List UInt8}
    (h : TokenAt field pos c rest token) (hfield : field = utf8 chars) (hc : 0x80 ≤ c.toNat) :
    ¬Sliceable field token.start token.stop := by
  have hlt := h.start_lt
  have hle := h.stop_le
  rintro ⟨_, hstart, hstop⟩
  exact h.not_starts hfield hc ((isCharBoundary_iff hfield (hlt.le.trans hle)).mp hstart)
    ((isCharBoundary_iff hfield hle).mp hstop)

theorem isIdentStart_of_ident {c : UInt8} {rest : List UInt8}
    (h : (consumeToken c rest).1 = .ident) : c.toNat < 0x80 := by
  unfold consumeToken at h
  split_ifs at h with hident
  exact isIdentContinue_lt (isIdentContinue_of_isIdentStart hident)

/-- What the token loop has found, from a position on. -/
structure Scanned (field : List UInt8) (pos : ℕ) (found found' : Declaration) : Prop where
  ranges : found'.RangesOk field
  struct_iff : found'.foundStruct = true ↔ found.foundStruct = true ∨ Declares field pos IsStruct
  pointer_iff : found'.foundPointer = true ↔ found.foundPointer = true ∨ Declares field pos IsPointer

/-- The fault of the token loop where the number in the brackets does not fit. -/
def Overflows (field : List UInt8) (pos : ℕ) (fault : Fault) : Prop :=
  fault = .overflow ∧ Declares field pos IsHuge

/-- A token other than brackets adds what it declares. -/
theorem Scanned.behind {kind : TokenKind} {next found' : Declaration}
    (hkind : (moveNextToken field pos).kind = kind) (hbrackets : kind ≠ .brackets)
    (hstruct : next.foundStruct = true ↔
      found.foundStruct = true ∨ IsStruct kind ((moveNextToken field pos).text field))
    (hpointer : next.foundPointer = true ↔
      found.foundPointer = true ∨ IsPointer kind ((moveNextToken field pos).text field))
    (h : Scanned field (moveNextToken field pos).stop next found') :
    Scanned field pos found found' := by
  refine ⟨h.ranges, ?_, ?_⟩
  · rw [h.struct_iff, hstruct, declares_other hkind hbrackets, or_assoc]
  · rw [h.pointer_iff, hpointer, declares_other hkind hbrackets, or_assoc]

/-- The name behind the brackets can be sliced. -/
theorem RangesOk.withBehind (h : found.RangesOk field) (hfield : field = utf8 chars)
    (hpos : pos ≤ field.length) (hkind : (moveNextToken field pos).kind = .ident) :
    (found.withName (moveNextToken field pos)).RangesOk field := by
  refine h.withName ?_
  rcases moveNextToken_cases hpos with ⟨_, hnone⟩ | ⟨c, rest, _, htoken⟩
  · rw [hnone] at hkind
    cases hkind
  · rw [htoken.kind_eq] at hkind
    exact sliceable_of_tokenAt htoken hfield (isIdentStart_of_ident hkind)

theorem withBrackets_returns (build : Build) (hfield : field = utf8 chars)
    (hfound : found.RangesOk field) (hstop : (moveNextToken field pos).stop ≤ field.length)
    (hkind : (moveNextToken field pos).kind = .brackets) :
    ReturnsUnless (Overflows field pos)
      (withBrackets build field found (moveNextToken field pos) ((moveNextToken field pos).text field))
      (Scanned field pos found) := by
  have hstruct : ¬Declares field pos IsStruct := by
    rw [declares_brackets hkind]
    simp [IsStruct]
  have hpointer : ¬Declares field pos IsPointer := by
    rw [declares_brackets hkind]
    simp [IsPointer]
  unfold withBrackets
  cases hcount : asciiToU32 build ((moveNextToken field pos).text field).tail with
  | error fault =>
    obtain ⟨hfault, hnumber⟩ := asciiToU32_error hcount
    exact .of_fault ⟨hfault, (declares_brackets hkind).mpr ⟨rfl, hnumber⟩⟩
  | ok count =>
    rw [ok_bind]
    refine .of_returns (.ite (fun hident ↦ .ok ⟨?_, ?_, ?_⟩) (fun _ ↦ .ok ⟨?_, ?_, ?_⟩))
    · exact RangesOk.withBehind ⟨hfound.baseType, hfound.name⟩ hfield hstop hident
    · simp [hstruct, Declaration.withName]
    · simp [hpointer, Declaration.withName]
    · exact ⟨hfound.baseType, hfound.name⟩
    · simp [hstruct]
    · simp [hpointer]

/-- Assumes: ASCII outside quotes up to the first brackets. The token loop ends, and finds what the
tokens declare; it faults only where the number in the brackets does not fit. -/
theorem scan_returns (build : Build) (hfield : field = utf8 chars) (fuel : ℕ)
    (hpos : pos ≤ field.length) (hfuel : field.length - pos < fuel)
    (hascii : asciiOutside true (field.drop pos) = true) (hfound : found.RangesOk field) :
    ReturnsUnless (Overflows field pos) (scan build field fuel pos found)
      (Scanned field pos found) := by
  induction fuel generalizing pos found with
  | zero => omega
  | succ fuel ih =>
    unfold scan
    dsimp only
    rcases moveNextToken_cases hpos with ⟨hskip, hnone⟩ | ⟨c, rest, hskip, htoken⟩
    · have hslice : Sliceable field field.length field.length := by
        refine ⟨le_rfl, ?_, ?_⟩ <;> simp [isCharBoundary]
      have hstruct : ¬Declares field pos IsStruct := not_declares_end (by simp [IsStruct]) hskip
      have hpointer : ¬Declares field pos IsPointer := not_declares_end (by simp [IsPointer]) hskip
      rw [hnone, strSlice_of_sliceable hslice, ok_bind]
      exact .of_returns (.ok ⟨hfound, by simp [hstruct], by simp [hpointer]⟩)
    · obtain ⟨hc, hrest⟩ := (asciiOutside_at hskip htoken).mp hascii
      have hslice := sliceable_of_tokenAt htoken hfield hc
      have hlt := htoken.start_lt
      have hle := htoken.pos_le
      have hstop := htoken.stop_le
      have hnext : ∀ {kind : TokenKind} {next : Declaration}, (moveNextToken field pos).kind = kind →
          kind ≠ .brackets → next.RangesOk field →
          (next.foundStruct = true ↔
            found.foundStruct = true ∨ IsStruct kind ((moveNextToken field pos).text field)) →
          (next.foundPointer = true ↔
            found.foundPointer = true ∨ IsPointer kind ((moveNextToken field pos).text field)) →
          ReturnsUnless (Overflows field pos)
            (scan build field fuel (moveNextToken field pos).stop next) (Scanned field pos found) := by
        intro kind next hkind hbrackets hranges hstruct hpointer
        have hbehind : asciiOutside true (field.drop (moveNextToken field pos).stop) = true :=
          hrest.resolve_left fun hboth ↦ hbrackets (hkind.symm.trans hboth.1)
        rcases ih hstop (by omega) hbehind hranges with ⟨fault, heq, hfault⟩ | hreturns
        · rw [heq]
          exact .of_fault ⟨hfault.1, (declares_other hkind hbrackets).mpr (.inr hfault.2)⟩
        · exact .of_returns (hreturns.mono fun _ hscanned ↦
            hscanned.behind hkind hbrackets hstruct hpointer)
      rw [strSlice_token hslice, ok_bind]
      cases hkind : (moveNextToken field pos).kind with
      | none => exact absurd (htoken.kind_eq.symm.trans hkind) (consumeToken_kind c rest)
      | ident =>
        refine hnext hkind (fun h ↦ nomatch h) (hfound.withIdent hslice _) ?_ ?_
        · rw [foundStruct_withIdent]
          simp [IsStruct]
        · rw [foundPointer_withIdent]
          simp [IsPointer]
      | brackets => exact withBrackets_returns build hfield hfound hstop hkind
      | parentheses =>
        exact hnext hkind (fun h ↦ nomatch h) hfound (by simp [IsStruct]) (by simp [IsPointer])
      | string =>
        exact hnext hkind (fun h ↦ nomatch h) hfound (by simp [IsStruct]) (by simp [IsPointer])
      | punctuation =>
        refine hnext hkind (fun h ↦ nomatch h) ?_ ?_ ?_
        · split_ifs
          · exact ⟨hfound.baseType, hfound.name⟩
          · exact hfound
        · split_ifs <;> simp [IsStruct]
        · by_cases hpointer : (moveNextToken field pos).text field = ascii "*"
          · rw [if_pos hpointer]
            simp [IsPointer, hpointer]
          · rw [if_neg hpointer]
            simp [IsPointer, hpointer]

/-- The loop goes on behind a token other than brackets. -/
theorem scan_succ (build : Build) (fuel : ℕ) (found : Declaration)
    (hslice : Sliceable field (moveNextToken field pos).start (moveNextToken field pos).stop)
    (hnone : (moveNextToken field pos).kind ≠ .none)
    (hbrackets : (moveNextToken field pos).kind ≠ .brackets) :
    ∃ next, scan build field (fuel + 1) pos found =
      scan build field fuel (moveNextToken field pos).stop next := by
  rw [scan]
  rw [strSlice_token hslice, ok_bind]
  cases hkind : (moveNextToken field pos).kind with
  | none => exact absurd hkind hnone
  | brackets => exact absurd hkind hbrackets
  | _ => exact ⟨_, rfl⟩

/-- A character outside ASCII, not quoted and before the first brackets, makes the loop fault. -/
theorem scan_indexOutOfRange (build : Build) (hfield : field = utf8 chars) (fuel : ℕ)
    (hpos : pos ≤ field.length) (hfuel : field.length - pos < fuel)
    (hascii : ¬asciiOutside true (field.drop pos) = true) (found : Declaration) :
    scan build field fuel pos found = .error .indexOutOfRange := by
  induction fuel generalizing pos found with
  | zero => omega
  | succ fuel ih =>
    rcases moveNextToken_cases hpos with ⟨hskip, _⟩ | ⟨c, rest, hskip, htoken⟩
    · refine absurd ?_ hascii
      rw [← asciiOutside_dropWhile true (fun _ ↦ isOrdinary_of_le), hskip, asciiOutside]
    by_cases hc : c.toNat < 0x80
    · have hslice := sliceable_of_tokenAt htoken hfield hc
      have hnone : (moveNextToken field pos).kind ≠ .none :=
        fun hkind ↦ consumeToken_kind c rest (htoken.kind_eq.symm.trans hkind)
      rw [asciiOutside_at hskip htoken, not_and, not_or] at hascii
      obtain ⟨hbrackets, hbehind⟩ := hascii hc
      have hlt := htoken.start_lt
      have hle := htoken.pos_le
      have hstop := htoken.stop_le
      obtain ⟨next, hnext⟩ :=
        scan_succ build fuel found hslice hnone fun hkind ↦ hbrackets ⟨hkind, rfl⟩
      rw [hnext]
      exact ih hstop (by omega) hbehind next
    · rw [scan]
      rw [strSlice_of_not_sliceable
        (not_sliceable_of_tokenAt htoken hfield (Nat.le_of_not_lt hc)), error_bind]

/-- A number in the brackets that does not fit makes the loop fault where overflows are checked. -/
theorem scan_overflow {build : Build} (hbuild : build.debugAssertions = true)
    (hfield : field = utf8 chars) (fuel : ℕ) (hpos : pos ≤ field.length)
    (hfuel : field.length - pos < fuel) (hascii : asciiOutside true (field.drop pos) = true)
    (hhuge : Declares field pos IsHuge) (found : Declaration) :
    scan build field fuel pos found = .error .overflow := by
  induction fuel generalizing pos found with
  | zero => omega
  | succ fuel ih =>
    rcases moveNextToken_cases hpos with ⟨hskip, _⟩ | ⟨c, rest, hskip, htoken⟩
    · exact absurd hhuge (not_declares_end (by simp [IsHuge]) hskip)
    obtain ⟨hc, hrest⟩ := (asciiOutside_at hskip htoken).mp hascii
    have hslice := sliceable_of_tokenAt htoken hfield hc
    by_cases hkind : (moveNextToken field pos).kind = .brackets
    · rw [declares_brackets hkind] at hhuge
      rw [scan]
      rw [strSlice_token hslice, ok_bind, hkind]
      dsimp only
      rw [withBrackets, asciiToU32_of_not_fits hbuild hhuge.2, error_bind]
    · have hnone : (moveNextToken field pos).kind ≠ .none :=
        fun hkind ↦ consumeToken_kind c rest (htoken.kind_eq.symm.trans hkind)
      have hlt := htoken.start_lt
      have hle := htoken.pos_le
      have hstop := htoken.stop_le
      rw [declares_other rfl hkind] at hhuge
      obtain ⟨next, hnext⟩ := scan_succ build fuel found hslice hnone hkind
      rw [hnext]
      refine ih hstop (by omega) (hrest.resolve_left fun hboth ↦ hkind hboth.1) ?_ next
      exact hhuge.resolve_left fun hboth ↦ hkind hboth.1

end Scan

end Declaration

/-! ### The deduced properties -/

namespace PerfFieldFormat

/-- The declaration is of a struct that is no pointer, and the field has one byte. -/
def IsByteStruct (field : List UInt8) (size : ℕ) : Prop :=
  Declares field 0 IsStruct ∧ ¬Declares field 0 IsPointer ∧ size = 1

/-- The encodings of a value, and their element sizes. -/
def valueEncodings : List (FieldEncoding × ℕ) :=
  [(FieldEncoding.value8, 0), (FieldEncoding.value16, 1), (FieldEncoding.value32, 2),
    (FieldEncoding.value64, 3)]

/-- What the encoding, the array count, the element size and the format of a field are to each
other. -/
structure Consistent (format : PerfFieldFormat) : Prop where
  /-- A value encoding with its element size, or a string of one element. -/
  encoding :
    (FieldEncoding.withoutFlags format.deducedEncoding, format.elementSizeShift) ∈ valueEncodings ∨
      (FieldEncoding.withoutFlags format.deducedEncoding = FieldEncoding.zStringChar8 ∨
          FieldEncoding.withoutFlags format.deducedEncoding = FieldEncoding.stringLength16Char8) ∧
        format.elementSizeShift = 255 ∧ format.deducedArrayCount = 1 ∧
        format.deducedEncoding &&& FieldEncoding.flagMask = 0
  /-- The array flag and the count. -/
  count :
    format.deducedEncoding &&& FieldEncoding.flagMask = 0 ∧ format.deducedArrayCount = 1 ∨
      format.deducedEncoding &&& FieldEncoding.flagMask = FieldEncoding.vArrayFlag ∧
        format.deducedArrayCount = 0 ∨
      format.deducedEncoding &&& FieldEncoding.flagMask = FieldEncoding.cArrayFlag ∧
        1 ≤ format.deducedArrayCount
  /-- The size of values that are not of variable length. -/
  size :
    ∀ shift, (FieldEncoding.withoutFlags format.deducedEncoding, shift) ∈ valueEncodings →
      format.deducedEncoding &&& FieldEncoding.flagMask ≠ FieldEncoding.vArrayFlag →
        format.size = format.deducedArrayCount * 2 ^ shift
  /-- The format and the encoding. -/
  format :
    format.deducedFormat ∈ [FieldFormat.unsignedInt, FieldFormat.signedInt, FieldFormat.hexInt] ∧
        FieldEncoding.withoutFlags format.deducedEncoding ∈ valueEncodings.map Prod.fst ∨
      format.deducedFormat = FieldFormat.hexBytes ∧
        FieldEncoding.withoutFlags format.deducedEncoding = FieldEncoding.stringLength16Char8 ∨
      format.deducedFormat = FieldFormat.string8 ∧
        (FieldEncoding.withoutFlags format.deducedEncoding = FieldEncoding.value8 ∨
          FieldEncoding.withoutFlags format.deducedEncoding = FieldEncoding.zStringChar8)

theorem mem_valueEncodings_iff {encoding : FieldEncoding} {shift : ℕ} :
    (encoding, shift) ∈ valueEncodings ↔ Deduced.shiftOfEncoding encoding = some shift := by
  constructor
  · intro hmem
    simp only [valueEncodings, List.mem_cons, Prod.mk.injEq, List.not_mem_nil, or_false] at hmem
    rcases hmem with ⟨rfl, rfl⟩ | ⟨rfl, rfl⟩ | ⟨rfl, rfl⟩ | ⟨rfl, rfl⟩ <;> rfl
  · intro hshift
    rcases Deduced.shiftOfEncoding_eq_some hshift with ⟨rfl, rfl⟩ | ⟨rfl, rfl⟩ | ⟨rfl, rfl⟩ |
      ⟨rfl, rfl⟩ <;> simp [valueEncodings]

theorem mem_map_valueEncodings {encoding : FieldEncoding} (hge : FieldEncoding.value8 ≤ encoding)
    (hle : encoding ≤ FieldEncoding.value64) : encoding ∈ valueEncodings.map Prod.fst := by
  cases encoding with | ofBitVec bits => revert bits; decide

/-- The assertions at the end of `new` make the properties consistent. -/
theorem consistent_of_ok {format : PerfFieldFormat}
    (h : Deduced.Ok format.size ⟨format.deducedEncoding, format.deducedFormat,
      format.deducedArrayCount, format.elementSizeShift⟩) : format.Consistent := by
  obtain ⟨hencoding, hflags, hformat⟩ := h
  have hcount : format.deducedEncoding &&& FieldEncoding.flagMask = 0 ∧
        format.deducedArrayCount = 1 ∨
      format.deducedEncoding &&& FieldEncoding.flagMask = FieldEncoding.vArrayFlag ∧
        format.deducedArrayCount = 0 ∨
      format.deducedEncoding &&& FieldEncoding.flagMask = FieldEncoding.cArrayFlag ∧
        1 ≤ format.deducedArrayCount := by
    simp only [Deduced.flagsOk] at hflags
    split_ifs at hflags with hzero hvariable hconstant
    · exact .inl ⟨hzero, of_decide_eq_true hflags⟩
    · exact .inr (.inl ⟨hvariable, of_decide_eq_true hflags⟩)
    · exact .inr (.inr ⟨hconstant, of_decide_eq_true hflags⟩)
  refine ⟨?_, hcount, ?_, ?_⟩
  · simp only [Deduced.encodingOk] at hencoding
    cases hshift : Deduced.shiftOfEncoding (FieldEncoding.withoutFlags format.deducedEncoding) with
    | some shift =>
      rw [hshift] at hencoding
      simp only [Bool.and_eq_true, decide_eq_true_eq] at hencoding
      rw [hencoding.2]
      exact .inl (mem_valueEncodings_iff.mpr hshift)
    | none =>
      rw [hshift] at hencoding
      simp only [Bool.and_eq_true, Bool.or_eq_true, decide_eq_true_eq] at hencoding
      obtain ⟨⟨⟨hkind, hone⟩, hzero⟩, hmax⟩ := hencoding
      exact .inr ⟨(hkind.imp And.left And.left).symm, hmax, hone, hzero⟩
  · intro shift hshift hvariable
    rw [mem_valueEncodings_iff] at hshift
    simp only [Deduced.encodingOk] at hencoding
    rw [hshift] at hencoding
    simp only [Bool.and_eq_true, Bool.or_eq_true, decide_eq_true_eq] at hencoding
    refine hencoding.1.resolve_left fun hzero ↦ ?_
    rw [hzero] at hcount
    rcases hcount with ⟨_, hone⟩ | ⟨hflag, _⟩ | ⟨_, hone⟩
    · cases hone
    · exact hvariable hflag
    · cases hone
  · simp only [Deduced.formatOk] at hformat
    split_ifs at hformat with hnumber hbytes hstring
    · simp only [Bool.and_eq_true, decide_eq_true_eq] at hformat
      exact .inl ⟨hnumber, mem_map_valueEncodings hformat.1 hformat.2⟩
    · exact .inr (.inl ⟨hbytes, of_decide_eq_true hformat⟩)
    · simp only [Bool.or_eq_true, decide_eq_true_eq] at hformat
      exact .inr (.inr ⟨hstring, hformat⟩)

theorem fixedTypes_ne_hexBytes (baseType : List UInt8) :
    ((Declaration.fixedTypes.lookup baseType).getD
      (FieldEncoding.invalid, FieldFormat.hexInt)).2 ≠ FieldFormat.hexBytes := by
  have htypes : ∀ entry ∈ Declaration.fixedTypes, entry.2.2 ≠ FieldFormat.hexBytes := by decide
  cases hlookup : Declaration.fixedTypes.lookup baseType with
  | none => exact by decide
  | some entry =>
    obtain ⟨_, _, heq, _⟩ := List.lookup_eq_some_iff.mp hlookup
    exact htypes (baseType, entry) (by rw [heq]; simp)

/-- Only a struct that is no pointer is specified as bytes. -/
theorem specified_eq_hexBytes_iff (longIs64Bits : Bool) (found : Declaration)
    (baseType : List UInt8) :
    (found.specified longIs64Bits baseType).2 = FieldFormat.hexBytes ↔
      found.foundStruct = true ∧ ¬found.foundPointer = true := by
  have hnumbers : FieldFormat.unsignedInt ≠ FieldFormat.hexBytes ∧
      FieldFormat.signedInt ≠ FieldFormat.hexBytes ∧ FieldFormat.hexInt ≠ FieldFormat.hexBytes ∧
      FieldFormat.string8 ≠ FieldFormat.hexBytes := by decide
  unfold Declaration.specified
  by_cases hpointer : found.foundPointer = true
  · rw [if_pos hpointer]
    exact iff_of_false hnumbers.2.2.1 fun hboth ↦ hboth.2 hpointer
  rw [if_neg hpointer]
  by_cases hstruct : found.foundStruct = true
  · rw [if_pos hstruct]
    exact iff_of_true rfl ⟨hstruct, hpointer⟩
  rw [if_neg hstruct]
  refine iff_of_false ?_ fun hboth ↦ hstruct hboth.1
  by_cases hint : baseType = [] ∨ baseType = ascii "int"
  · rw [if_pos hint]
    unfold Declaration.specifiedInt
    dsimp only
    split_ifs <;> simp [hnumbers]
  rw [if_neg hint]
  by_cases hchar : baseType = ascii "char"
  · rw [if_pos hchar]
    unfold Declaration.specifiedChar
    dsimp only
    split_ifs <;> simp [hnumbers]
  rw [if_neg hchar]
  exact fixedTypes_ne_hexBytes baseType

/-! ### Making a field -/

section New

variable {field : List UInt8} {chars : List Char} {size : ℕ}

/-- A declaration that `new` can read, for a field of a size. -/
structure Readable (field : List UInt8) (size : ℕ) : Prop where
  ascii : asciiOutside true field = true
  fits : ¬Declares field 0 IsHuge
  not_byteStruct : ¬IsByteStruct field size

/-- A struct of one byte is specified as bytes. -/
theorem isByteStruct_iff (longIs64Bits : Bool) {found : Declaration} (baseType : List UInt8)
    (hfound : Declaration.Scanned field 0 .initial found) :
    IsByteStruct field size ↔
      (found.specified longIs64Bits baseType).2 = FieldFormat.hexBytes ∧ size = 1 := by
  have hstruct : found.foundStruct = true ↔ Declares field 0 IsStruct := by
    rw [hfound.struct_iff]
    simp [Declaration.initial]
  have hpointer : found.foundPointer = true ↔ Declares field 0 IsPointer := by
    rw [hfound.pointer_iff]
    simp [Declaration.initial]
  rw [specified_eq_hexBytes_iff, hstruct, hpointer, and_assoc, IsByteStruct]

theorem name_returns {format : PerfFieldFormat}
    (h : Declaration.Sliceable format.field format.nameStart format.nameStop) :
    Returns format.name fun _ ↦ True := by
  unfold name
  refine .ite (fun _ ↦ .ok trivial) (fun _ ↦ ?_)
  rw [Declaration.strSlice_of_sliceable h]
  exact .ok trivial

/-- The declaration scanned, a field can be made, unless it is a struct of one byte. -/
theorem ofDeclaration_returns (build : Build) (longIs64Bits : Bool) (offset : ℕ)
    (signed : Option Bool) {found : Declaration} (hne : field ≠ [])
    (hfound : Declaration.Scanned field 0 .initial found) (hstruct : ¬IsByteStruct field size) :
    Returns (ofDeclaration build longIs64Bits field offset size signed found) fun format ↦
      format.Consistent ∧ Returns format.name fun _ ↦ True := by
  unfold ofDeclaration
  rw [Declaration.strSlice_of_sliceable hfound.ranges.baseType, ok_bind]
  dsimp only
  generalize (field.drop found.baseTypeStart).take (found.baseTypeStop - found.baseTypeStart) =
    baseType
  obtain ⟨deduced, hdeduced, hiff⟩ := Deduced.of_returns build size found found.specifiedArrayCount
    signed (specified_kind longIs64Bits found baseType)
  rw [isByteStruct_iff longIs64Bits baseType hfound] at hstruct
  have hok := hiff.mpr hstruct
  rw [hdeduced, ok_bind, debugAssert_of ⟨hne, hok⟩, ok_bind]
  exact .ok ⟨consistent_of_ok hok, name_returns hfound.ranges.name⟩

/-- A struct of one byte fails the assertions. -/
theorem ofDeclaration_assertion {build : Build} (hbuild : build.debugAssertions = true)
    (longIs64Bits : Bool) (offset : ℕ) (signed : Option Bool) {found : Declaration}
    (hfound : Declaration.Scanned field 0 .initial found) (hstruct : IsByteStruct field size) :
    ofDeclaration build longIs64Bits field offset size signed found = .error .assertion := by
  unfold ofDeclaration
  rw [Declaration.strSlice_of_sliceable hfound.ranges.baseType, ok_bind]
  dsimp only
  generalize (field.drop found.baseTypeStart).take (found.baseTypeStop - found.baseTypeStart) =
    baseType
  obtain ⟨deduced, hdeduced, hiff⟩ := Deduced.of_returns build size found found.specifiedArrayCount
    signed (specified_kind longIs64Bits found baseType)
  rw [isByteStruct_iff longIs64Bits baseType hfound] at hstruct
  have hnot : ¬(field ≠ [] ∧ deduced.encodingOk size ∧ deduced.flagsOk ∧ deduced.formatOk) :=
    fun hall ↦ hiff.mp hall.2 hstruct
  rw [hdeduced, ok_bind, debugAssert, if_pos ⟨hbuild, hnot⟩, error_bind]

/-- A readable declaration makes a field in every build. -/
theorem new_returns (build : Build) (longIs64Bits : Bool) (offset : ℕ) (signed : Option Bool)
    (hfield : field = utf8 chars) (hne : field ≠ []) (h : Readable field size) :
    Returns (new build longIs64Bits field offset size signed) fun format ↦
      format.Consistent ∧ Returns format.name fun _ ↦ True := by
  unfold new
  have hscan := Declaration.scan_returns build hfield (field.length + 1) (Nat.zero_le _) (by omega)
    h.ascii (Declaration.rangesOk_initial field)
  rcases hscan with ⟨fault, _, hfault⟩ | ⟨found, heq, hfound⟩
  · exact absurd hfault.2 h.fits
  · rw [heq, ok_bind]
    exact ofDeclaration_returns build longIs64Bits offset signed hne hfound h.not_byteStruct

/-- A declaration that is not readable makes `new` fault where overflows and assertions are
checked. -/
theorem new_faults {build : Build} (hbuild : build.debugAssertions = true) (longIs64Bits : Bool)
    (offset : ℕ) (signed : Option Bool) (hfield : field = utf8 chars) (h : ¬Readable field size) :
    ∃ fault, new build longIs64Bits field offset size signed = .error fault := by
  unfold new
  by_cases hascii : asciiOutside true field = true
  · by_cases hfits : Declares field 0 IsHuge
    · rw [Declaration.scan_overflow hbuild hfield (field.length + 1) (Nat.zero_le _) (by omega)
        hascii hfits]
      exact ⟨_, rfl⟩
    · have hscan := Declaration.scan_returns build hfield (field.length + 1) (Nat.zero_le _)
        (by omega) hascii (Declaration.rangesOk_initial field)
      rcases hscan with ⟨fault, _, hfault⟩ | ⟨found, heq, hfound⟩
      · exact absurd hfault.2 hfits
      · rw [heq, ok_bind]
        refine ⟨_, ofDeclaration_assertion hbuild longIs64Bits offset signed hfound ?_⟩
        by_contra hstruct
        exact h ⟨hascii, hfits, hstruct⟩
  · rw [Declaration.scan_indexOutOfRange build hfield (field.length + 1) (Nat.zero_le _) (by omega)
      hascii]
    exact ⟨_, rfl⟩

/-- The slices that `new` takes, and that of the name, do not fault where the characters up to the
first brackets are ASCII characters or quoted. -/
theorem new_slices (build : Build) (longIs64Bits : Bool) (offset size : ℕ) (signed : Option Bool)
    (hfield : field = utf8 chars) (hascii : asciiOutside true field = true) :
    ReturnsUnless (· ≠ .indexOutOfRange) (new build longIs64Bits field offset size signed)
      fun format ↦ Returns format.name fun _ ↦ True := by
  unfold new
  have hscan := Declaration.scan_returns build hfield (field.length + 1) (Nat.zero_le _) (by omega)
    hascii (Declaration.rangesOk_initial field)
  rcases hscan with ⟨fault, heq, rfl, _⟩ | ⟨found, heq, hfound⟩
  · rw [heq]
    exact .of_fault fun hfault ↦ nomatch hfault
  rw [heq, ok_bind]
  unfold ofDeclaration
  rw [Declaration.strSlice_of_sliceable hfound.ranges.baseType, ok_bind]
  dsimp only
  obtain ⟨deduced, hdeduced, _⟩ := Deduced.of_returns build size found found.specifiedArrayCount
    signed (specified_kind longIs64Bits found
      ((field.drop found.baseTypeStart).take (found.baseTypeStop - found.baseTypeStart)))
  rw [hdeduced, ok_bind, debugAssert]
  split_ifs
  · exact .of_fault fun hfault ↦ nomatch hfault
  · exact .of_returns (.ok (name_returns hfound.ranges.name))

end New

end PerfFieldFormat

/-! ### Tokens between characters -/

/-- What the tokens of a text are meant to be, and the slices that `PerfFieldFormat::new` takes of
it. -/
structure TokensOk (field : List UInt8) : Prop where
  /-- The tokens come to an end. -/
  ends : ∃ count, (tokensFrom field 0 count).kind = .none
  /-- A token is not empty, inside the text, and before the next one. -/
  ranges : ∀ count, (tokensFrom field 0 count).kind ≠ .none →
    (tokensFrom field 0 count).start < (tokensFrom field 0 count).stop ∧
      (tokensFrom field 0 count).stop ≤ field.length ∧
      (tokensFrom field 0 count).stop ≤ (tokensFrom field 0 (count + 1)).start
  /-- A token starts and ends between characters. -/
  boundaries : ∀ count, isCharBoundary field (tokensFrom field 0 count).start = true ∧
    isCharBoundary field (tokensFrom field 0 count).stop = true
  /-- No slice of `new` faults. -/
  slices : ∀ build longIs64Bits offset size signed,
    ReturnsUnless (· ≠ .indexOutOfRange)
      (PerfFieldFormat.new build longIs64Bits field offset size signed)
      fun format ↦ Returns format.name fun _ ↦ True

section TokensOk

variable {field : List UInt8} {chars : List Char}

theorem asciiOutside_stops {text : List UInt8} (h : asciiOutside false text = true) :
    asciiOutside true text = true := by
  fun_induction asciiOutside false text with
  | case1 => rw [asciiOutside]
  | case2 c rest hquote ih =>
    rw [asciiOutside, if_pos hquote]
    exact ih h
  | case3 rest hquote ih =>
    rw [asciiOutside, if_neg hquote, if_pos rfl]
    exact ih h
  | case4 rest hquote hparen ih =>
    rw [asciiOutside, if_neg hquote, if_neg hparen, if_pos rfl, Bool.true_or]
  | case5 c rest hquote hparen hbracket ih =>
    rw [Bool.and_eq_true] at h
    rw [asciiOutside, if_neg hquote, if_neg hparen, if_neg hbracket, h.1, Bool.true_and]
    exact ih h.2

/-- A token starts behind the position, which is inside the text. -/
theorem moveNextToken_start {pos : ℕ} (hpos : pos ≤ field.length) :
    pos ≤ (moveNextToken field pos).start := by
  rcases moveNextToken_cases hpos with ⟨_, hnone⟩ | ⟨c, rest, _, htoken⟩
  · rw [hnone]
    exact hpos
  · exact htoken.pos_le

/-- Every token is one that `move_next` returns from a position inside the text. -/
theorem exists_tokensFrom_eq {pos : ℕ} (hpos : pos ≤ field.length) (count : ℕ) :
    ∃ start ≤ field.length, tokensFrom field pos count = moveNextToken field start := by
  cases count with
  | zero => exact ⟨pos, hpos, rfl⟩
  | succ count => exact ⟨_, (tokensFrom_le count hpos).2, tokensFrom_succ count⟩

/-- Tokens are not empty, inside the text, and one behind the other. -/
theorem tokensFrom_ranges {pos : ℕ} (hpos : pos ≤ field.length) (count : ℕ)
    (hkind : (tokensFrom field pos count).kind ≠ .none) :
    (tokensFrom field pos count).start < (tokensFrom field pos count).stop ∧
      (tokensFrom field pos count).stop ≤ field.length ∧
      (tokensFrom field pos count).stop ≤ (tokensFrom field pos (count + 1)).start := by
  have hstop := (tokensFrom_le count hpos).2
  refine ⟨?_, hstop, ?_⟩
  · obtain ⟨start, hstart, heq⟩ := exists_tokensFrom_eq hpos count
    rw [heq] at hkind ⊢
    rcases moveNextToken_cases hstart with ⟨_, hnone⟩ | ⟨c, rest, _, htoken⟩
    · rw [hnone] at hkind
      exact absurd rfl hkind
    · exact htoken.start_lt
  · rw [tokensFrom_succ]
    exact moveNextToken_start hstop

end TokensOk

/-- The tokens of a text are what they are meant to be exactly where every character outside quoted
strings, parentheses and brackets is an ASCII character. -/
theorem tokensOk_iff (chars : List Char) :
    TokensOk (utf8 chars) ↔ asciiOutside false (utf8 chars) = true := by
  have hle (count : ℕ) := @tokensFrom_le (utf8 chars) 0 count (Nat.zero_le _)
  constructor
  · intro h
    refine @asciiOutside_of_starts (utf8 chars) 0 chars (utf8 chars).length rfl (Nat.zero_le _)
      le_rfl fun count ↦ ?_
    obtain ⟨hstart, hstop⟩ := h.boundaries count
    obtain ⟨hrange, hinside⟩ := hle count
    exact ⟨(isCharBoundary_iff rfl (hrange.trans hinside)).mp hstart,
      (isCharBoundary_iff rfl hinside).mp hstop⟩
  · intro hascii
    constructor
    · obtain ⟨count, _, hnone⟩ :=
        @tokensFrom_ends (utf8 chars) 0 (utf8 chars).length (Nat.zero_le _) le_rfl
      exact ⟨count, hnone⟩
    · exact tokensFrom_ranges (Nat.zero_le _)
    · intro count
      obtain ⟨hrange, hinside⟩ := hle count
      obtain ⟨hstart, hstop⟩ := @tokensFrom_starts (utf8 chars) 0 chars count rfl (Nat.zero_le _)
        hascii
      exact ⟨(isCharBoundary_iff rfl (hrange.trans hinside)).mpr hstart,
        (isCharBoundary_iff rfl hinside).mpr hstop⟩
    · intro build longIs64Bits offset size signed
      exact PerfFieldFormat.new_slices build longIs64Bits offset size signed rfl
        (asciiOutside_stops hascii)

/-- The name of a field with a letter outside ASCII is not made of tokens. -/
theorem accented_not_tokensOk : ¬TokensOk (utf8 ['u', '8', ' ', 'é']) := by
  intro h
  have hstop := (h.boundaries 1).2
  revert hstop
  decide +kernel

/-! ### Declarations in ASCII -/

namespace PerfFieldFormat

/-- A declaration in ASCII has only ASCII outside quotes. -/
theorem asciiOutside_of_ascii (stops : Bool) {text : List UInt8}
    (hascii : ∀ byte ∈ text, byte.toNat < 0x80) : asciiOutside stops text = true := by
  have htail {behind rest : List UInt8} {c : UInt8} (hsuffix : behind <:+ rest)
      (hbytes : ∀ byte ∈ c :: rest, byte.toNat < 0x80) : ∀ byte ∈ behind, byte.toNat < 0x80 :=
    fun byte hbyte ↦ hbytes byte (List.mem_cons_of_mem c (hsuffix.mem hbyte))
  fun_induction asciiOutside stops text with
  | case1 => rfl
  | case2 c rest _ ih => exact ih (htail (suffix_of_last (consumeString_last c rest)) hascii)
  | case3 rest _ ih => exact ih (htail (suffix_of_last (consumeBraced_last _ _ 1 rest)) hascii)
  | case4 rest _ _ ih =>
    rw [ih (htail (suffix_of_last (consumeBraced_last _ _ 1 rest)) hascii), Bool.or_true]
  | case5 c rest _ _ _ ih =>
    rw [ih (htail (List.suffix_refl rest) hascii), Bool.and_true]
    exact decide_eq_true ((lt_iff_ascii c).mpr (hascii c List.mem_cons_self))

/-- Assumes: a declaration in ASCII, not empty. The field that `new` makes is consistent, and `new`
does not fault, exactly if the declaration is not a struct of one byte and the number in its brackets
fits 32 bits. -/
theorem consistent_iff (longIs64Bits : Bool) (field : List UInt8) (offset size : ℕ)
    (signed : Option Bool) (hne : field ≠ []) (hascii : ∀ byte ∈ field, byte.toNat < 0x80) :
    (∀ build, ∃ format, new build longIs64Bits field offset size signed = .ok format ∧
        format.Consistent) ↔
      ¬IsByteStruct field size ∧ ¬Declares field 0 IsHuge := by
  have hfield := eq_utf8_of_ascii hascii
  constructor
  · intro h
    by_contra hnot
    let build : Build := ⟨true, .little, true⟩
    obtain ⟨format, hformat, _⟩ := h build
    have hreadable : ¬Readable field size := fun hreadable ↦
      hnot ⟨hreadable.not_byteStruct, hreadable.fits⟩
    obtain ⟨fault, hfault⟩ :=
      @new_faults field _ size build rfl longIs64Bits offset signed hfield hreadable
    rw [hfault] at hformat
    cases hformat
  · rintro ⟨hstruct, hfits⟩ build
    obtain ⟨format, hformat, hconsistent, _⟩ := new_returns build longIs64Bits offset signed hfield
      hne ⟨asciiOutside_of_ascii true hascii, hfits, hstruct⟩
    exact ⟨format, hformat, hconsistent⟩

/-- The assumptions hold of an array of four bytes. -/
theorem consistent_iff_bytes :
    (ascii "u8 x[4]" ≠ [] ∧ ∀ byte ∈ ascii "u8 x[4]", byte.toNat < 0x80) ∧
      ((∀ build, ∃ format, new build true (ascii "u8 x[4]") 8 4 none = .ok format ∧
          format.Consistent) ↔
        ¬IsByteStruct (ascii "u8 x[4]") 4 ∧ ¬Declares (ascii "u8 x[4]") 0 IsHuge) :=
  ⟨⟨by decide, by decide⟩, consistent_iff true (ascii "u8 x[4]") 8 4 none (by decide) (by decide)⟩

/-- A struct of one byte fails the assertions; where they are not checked it is a value whose element
size is not that of the encoding. -/
theorem byteStruct_not_consistent :
    new ⟨true, .little, true⟩ true (ascii "struct foo x") 8 1 none = .error .assertion ∧
      ∃ format, new ⟨false, .little, true⟩ true (ascii "struct foo x") 8 1 none = .ok format ∧
        ¬format.Consistent := by
  constructor
  · decide +kernel
  · refine ⟨⟨ascii "struct foo x", 11, 12, 8, 1, none, 0, 1, FieldEncoding.struct,
      FieldEncoding.value8, FieldFormat.hexBytes, FieldFormat.hexBytes, .none, 255⟩,
      by decide +kernel, fun h ↦ ?_⟩
    have hencoding := h.encoding
    revert hencoding
    decide +kernel

end PerfFieldFormat

end Tracepoints
