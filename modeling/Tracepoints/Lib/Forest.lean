import Mathlib.Data.List.Basic

/-!
# Trees shown as a sequence of items

A traversal of trees shows one item after the other: a leaf, or the begin or the end of an object or
of an array. The brackets that are open say whether the next item is an element of an array
(`inArray`). `TreeItem.accept` is the machine that checks a sequence of items against its open brackets,
and a sequence that it accepts to the end is the sequence of a forest (`exists_forest`).
-/

set_option autoImplicit false
set_option relaxedAutoImplicit false

namespace Tracepoints

/-- An open bracket. -/
inductive Bracket
  | object
  | array
  deriving DecidableEq, Repr

/-- Whether the innermost open bracket is that of an array. -/
def inArray : List Bracket → Bool
  | .array :: _ => true
  | _ => false

/-- An item of a traversal. What is not an end has a label and says whether it is an element of an
array. -/
inductive TreeItem (ι ν : Type)
  | leaf (label : ι) (element : Bool) (value : ν)
  | objectBegin (label : ι) (element : Bool)
  | objectEnd
  | arrayBegin (label : ι) (element : Bool)
  | arrayEnd
  deriving DecidableEq, Repr

/-- A sequence of labelled trees, each with the trees inside it and those that follow. -/
inductive Forest (ι ν : Type)
  | nil
  | leaf (label : ι) (value : ν) (rest : Forest ι ν)
  | object (label : ι) (members rest : Forest ι ν)
  | array (label : ι) (elements rest : Forest ι ν)
  deriving DecidableEq, Repr

variable {ι ν : Type}

/-- The items of a forest, inside an array or elsewhere. -/
def Forest.tokens (element : Bool) : Forest ι ν → List (TreeItem ι ν)
  | nil => []
  | leaf label value rest => .leaf label element value :: rest.tokens element
  | object label members rest =>
    .objectBegin label element :: (members.tokens false ++ .objectEnd :: rest.tokens element)
  | array label elements rest =>
    .arrayBegin label element :: (elements.tokens true ++ .arrayEnd :: rest.tokens element)

/-- The brackets that are open behind an item, if it is allowed inside those that are open before
it. -/
def TreeItem.accept (brackets : List Bracket) : TreeItem ι ν → Option (List Bracket)
  | leaf _ element _ => if element = inArray brackets then some brackets else none
  | objectBegin _ element =>
    if element = inArray brackets then some (.object :: brackets) else none
  | arrayBegin _ element => if element = inArray brackets then some (.array :: brackets) else none
  | objectEnd =>
    match brackets with
    | .object :: rest => some rest
    | _ => none
  | arrayEnd =>
    match brackets with
    | .array :: rest => some rest
    | _ => none

/-- The items are allowed one after the other, and behind them no bracket is open. -/
def Closed : List Bracket → List (TreeItem ι ν) → Prop
  | brackets, [] => brackets = []
  | brackets, token :: tokens => ∃ next, token.accept brackets = some next ∧ Closed next tokens

/-- The item that closes a bracket. -/
def Bracket.closing : Bracket → TreeItem ι ν
  | object => .objectEnd
  | array => .arrayEnd

/-- The items are a forest for each open bracket, each but the last followed by the end of its
bracket. -/
def Parses : List Bracket → List (TreeItem ι ν) → Prop
  | [], tokens => ∃ forest : Forest ι ν, tokens = forest.tokens false
  | bracket :: brackets, tokens =>
    ∃ (forest : Forest ι ν) (rest : List (TreeItem ι ν)),
      tokens = forest.tokens (inArray (bracket :: brackets)) ++ bracket.closing :: rest ∧
        Parses brackets rest

/-- A tree in front of the innermost forest. -/
theorem Parses.prepend {brackets : List Bracket} {tokens : List (TreeItem ι ν)}
    (first : List (TreeItem ι ν)) (tree : Forest ι ν → Forest ι ν)
    (htree : ∀ forest, (tree forest).tokens (inArray brackets) =
      first ++ forest.tokens (inArray brackets))
    (h : Parses brackets tokens) : Parses brackets (first ++ tokens) := by
  cases brackets with
  | nil =>
    obtain ⟨forest, rfl⟩ := h
    exact ⟨tree forest, (htree forest).symm⟩
  | cons bracket brackets =>
    obtain ⟨forest, rest, rfl, hrest⟩ := h
    refine ⟨tree forest, rest, ?_, hrest⟩
    rw [htree, List.append_assoc]

/-- A tree of brackets in front of the innermost forest: its begin, what is inside, its end. -/
theorem Parses.enclose {brackets : List Bracket} {bracket : Bracket} {tokens : List (TreeItem ι ν)}
    (opening : TreeItem ι ν) (tree : Forest ι ν → Forest ι ν → Forest ι ν)
    (htree : ∀ inside forest, (tree inside forest).tokens (inArray brackets) =
      opening :: (inside.tokens (inArray (bracket :: brackets)) ++
        bracket.closing :: forest.tokens (inArray brackets)))
    (h : Parses (bracket :: brackets) tokens) : Parses brackets (opening :: tokens) := by
  obtain ⟨inside, rest, rfl, hrest⟩ := h
  have hprepend := hrest.prepend
    (opening :: (inside.tokens (inArray (bracket :: brackets)) ++ [bracket.closing])) (tree inside)
    (fun forest ↦ by rw [htree, List.cons_append, List.append_assoc, List.singleton_append])
  rwa [List.cons_append, List.append_assoc, List.singleton_append] at hprepend

/-- Accepted items parse. -/
theorem Closed.parses {brackets : List Bracket} {tokens : List (TreeItem ι ν)}
    (h : Closed brackets tokens) : Parses brackets tokens := by
  induction tokens generalizing brackets with
  | nil =>
    obtain rfl : brackets = [] := h
    exact ⟨.nil, rfl⟩
  | cons token tokens ih =>
    obtain ⟨next, haccept, hnext⟩ := h
    have hparses := ih hnext
    cases token with
    | leaf label element value =>
      obtain ⟨rfl, hsome⟩ := Option.ite_none_right_eq_some.1 haccept
      obtain rfl := Option.some.inj hsome
      exact hparses.prepend [_] (.leaf label value) fun _ ↦ rfl
    | objectBegin label element =>
      obtain ⟨rfl, hsome⟩ := Option.ite_none_right_eq_some.1 haccept
      obtain rfl := Option.some.inj hsome
      exact hparses.enclose _ (.object label) fun _ _ ↦ rfl
    | arrayBegin label element =>
      obtain ⟨rfl, hsome⟩ := Option.ite_none_right_eq_some.1 haccept
      obtain rfl := Option.some.inj hsome
      exact hparses.enclose _ (.array label) fun _ _ ↦ rfl
    | objectEnd =>
      rcases brackets with _ | ⟨_ | _, brackets⟩
      · cases haccept
      · obtain rfl : brackets = next := Option.some.inj haccept
        exact ⟨.nil, tokens, rfl, hparses⟩
      · cases haccept
    | arrayEnd =>
      rcases brackets with _ | ⟨_ | _, brackets⟩
      · cases haccept
      · cases haccept
      · obtain rfl : brackets = next := Option.some.inj haccept
        exact ⟨.nil, tokens, rfl, hparses⟩

/-- A sequence of items that closes every bracket it opens is that of a forest. -/
theorem exists_forest {tokens : List (TreeItem ι ν)} (h : Closed [] tokens) :
    ∃ forest : Forest ι ν, tokens = forest.tokens false :=
  h.parses

end Tracepoints
