import Tracepoints.Lib.Forest
import Tracepoints.Lib.JsonText
import Tracepoints.Enumerator.Fresh
import Tracepoints.Enumerator.JsonBulk
import Tracepoints.Enumerator.StructArray

/-!
# The JSON text of an event

A plain traversal of an event shows items (`plainItems`). The stack of the enumerator says which
structs and arrays are open around an item (`openBefore`, `openAfter`), every item is allowed there,
and the end of the event is reached with none of them open: the items are those of a forest. What
`write_json_item_and_move_next_sibling` writes from `BeforeFirstItem` to `AfterLastItem` is, between
braces, a JSON text of that forest (`writeJson_tree`).
-/

set_option autoImplicit false
set_option relaxedAutoImplicit false

namespace Tracepoints

open Exec

/-- The name and the tag of an item. -/
structure ItemLabel where
  name : List UInt8
  tag : ℕ
  deriving DecidableEq, Repr

/-- An item of an event. -/
abbrev ItemToken := TreeItem ItemLabel JsonLeaf

/-- A sequence of items with what is inside them. -/
abbrev ItemForest := Forest ItemLabel JsonLeaf

namespace JsonWriter

variable (writers : ValueWriters) (json : JsonWriter)

/-- The name of an item that is not an element. -/
def writeLabel (label : ItemLabel) (element : Bool) : JsonWriter :=
  if element then json else json.writePropertyNameFromItemInfo writers label.name label.tag

/-- What is written for an item. -/
def writeToken : ItemToken → JsonWriter
  | .leaf label element leaf => (json.writeLabel writers label element).writeValue writers leaf
  | .objectBegin label element => (json.writeLabel writers label element).writeObjectBegin
  | .objectEnd => json.writeObjectEnd
  | .arrayBegin label element => (json.writeLabel writers label element).writeArrayBegin
  | .arrayEnd => json.writeArrayEnd

/-- What is written for items. -/
def writeTokens (tokens : List ItemToken) : JsonWriter :=
  tokens.foldl (writeToken writers) json

end JsonWriter

/-- The members that a sequence of items stands for: the texts of the names, and trees of the texts
of the leaves. Structs are objects. -/
def ItemForest.members (writers : ValueWriters) (options : PerfConvertOptions) :
    ItemForest → List (List UInt8 × Json)
  | .nil => []
  | .leaf label leaf rest =>
    (JsonWriter.memberName writers options label.name label.tag, .leaf (writers.leaf options leaf)) ::
      members writers options rest
  | .object label inside rest =>
    (JsonWriter.memberName writers options label.name label.tag,
      .object (members writers options inside)) :: members writers options rest
  | .array label inside rest =>
    (JsonWriter.memberName writers options label.name label.tag,
      .array ((members writers options inside).map Prod.snd)) :: members writers options rest

/-! ### The text of a forest -/

namespace JsonWriter

/-- The comma that is written before the next value. -/
def commaText (json : JsonWriter) : List UInt8 := if json.jsonComma then [0x2C] else []

/-- The space that is written before the next value. -/
def spaceText (json : JsonWriter) : List UInt8 := if json.jsonSpace then [0x20] else []

theorem isWhitespace_spaceText (json : JsonWriter) : IsWhitespace json.spaceText := by
  unfold spaceText
  split_ifs
  · intro byte hbyte
    exact Or.inl (List.mem_singleton.1 hbyte)
  · intro byte hbyte
    cases hbyte

theorem writeRawCommaSpace_eq (json : JsonWriter) :
    json.writeRawCommaSpace =
      { json with
        dest := json.dest ++ json.commaText ++ json.spaceText
        jsonSpace := json.options.hasFlag .space } := by
  unfold writeRawCommaSpace commaText spaceText append
  split_ifs
  · rw [List.append_assoc]
    rfl
  · rw [List.append_nil]
    rfl
  · rw [List.append_nil]
    rfl
  · rw [List.append_nil, List.append_nil]

/-- The uppercase digits of a number stand for themselves. -/
theorem isPlain_upperHex (value : ℕ) : ∀ byte ∈ upperHex value, IsPlain byte := by
  induction value using Nat.strong_induction_on with
  | _ value ih =>
    have hdigit : ∀ digit < 16, ∀ byte ∈ [UInt8.ofNat digit.digitChar.toUpper.toNat],
        IsPlain byte := by decide
    by_cases hsmall : value < 16
    · rw [upperHex, Nat.toDigits_of_lt_base hsmall]
      exact hdigit value hsmall
    · rw [upperHex, Nat.toDigits_of_base_le (by omega) (by omega), List.map_append]
      intro byte hbyte
      rcases List.mem_append.1 hbyte with hhigh | hlow
      · exact ih (value / 16) (by omega) byte hhigh
      · exact hdigit (value % 16) (Nat.mod_lt _ (by omega)) byte hlow

variable {writers : ValueWriters} {valid : List UInt8 → Prop}

/-- Assumes: escaped names are string bodies. So is the text of a member name, with or without the
tag. -/
theorem stringBody_memberName (hname : ∀ name, StringBody (writers.utf8WithJsonEscape name))
    (options : PerfConvertOptions) (name : List UInt8) (tag : ℕ) :
    StringBody (memberName writers options name tag) := by
  unfold memberName
  refine (hname name).append ?_
  split_ifs
  · exact (StringBody.of_plain (by decide)).append (.of_plain (isPlain_upperHex tag))
  · exact .nil

/-- The text of one of the values of a sequence: a member, or an element without its name. -/
def ItemText (valid : List UInt8 → Prop) (element : Bool) (item : List UInt8 × Json)
    (text : List UInt8) : Prop :=
  if element then JsonText valid item.2 text else MemberText (JsonText valid) item text

theorem writePropertyNameFromItemInfo_eq (json : JsonWriter) (name : List UInt8) (tag : ℕ) :
    json.writePropertyNameFromItemInfo writers name tag =
      ⟨json.dest ++ json.commaText ++ (json.spaceText ++
          0x22 :: (memberName writers json.options name tag ++ 0x22 :: [0x3A])),
        json.options, false, json.options.hasFlag .space⟩ := by
  have hquote : ascii "\"" = [0x22] := by decide
  have hcolon : ascii "\":" = [0x22, 0x3A] := by decide
  unfold writePropertyNameFromItemInfo append
  rw [writeRawCommaSpace_eq, hquote, hcolon]
  simp only [List.append_assoc, List.nil_append, List.cons_append]

/-- A value may have spaces before it. -/
theorem jsonText_spaces {value : Json} {text : List UInt8} (htext : JsonText valid value text)
    (json : JsonWriter) : JsonText valid value (json.spaceText ++ text) := by
  have hpadded := JsonText.padded json.isWhitespace_spaceText htext
    (fun byte (hbyte : byte ∈ []) ↦ nomatch hbyte)
  rwa [List.append_nil] at hpadded

/-- Assumes: escaped names are string bodies. The name of an item, where it is no element, and the
text of its value. -/
theorem writeLabel_text (hname : ∀ name, StringBody (writers.utf8WithJsonEscape name))
    (json : JsonWriter) (label : ItemLabel) (element : Bool) {value : Json} {text : List UInt8}
    (htext : JsonText valid value text) :
    ∃ body, (json.writeLabel writers label element).dest ++
        (json.writeLabel writers label element).commaText ++
        (json.writeLabel writers label element).spaceText ++ text =
      json.dest ++ json.commaText ++ body ∧
      ItemText valid element (memberName writers json.options label.name label.tag, value) body := by
  have hspaces := jsonText_spaces htext (json.writeLabel writers label element)
  cases element with
  | true =>
    refine ⟨json.spaceText ++ text, ?_, hspaces⟩
    show json.dest ++ json.commaText ++ json.spaceText ++ text = _
    rw [List.append_assoc _ json.spaceText]
  | false =>
    have hnone : IsWhitespace [] := fun byte hbyte ↦ nomatch hbyte
    refine ⟨_, ?_, MemberText.mk json.isWhitespace_spaceText
      (stringBody_memberName hname json.options label.name label.tag) hnone hspaces⟩
    have hcomma : (json.writeLabel writers label false).commaText = [] := rfl
    have hdest : (json.writeLabel writers label false).dest = _ := congrArg JsonWriter.dest
      (writePropertyNameFromItemInfo_eq json label.name label.tag)
    rw [hcomma, hdest]
    simp only [List.append_assoc, List.append_nil, List.nil_append, List.cons_append]

/-- What is left behind a sequence of values with a given text. -/
structure Written (valid : List UInt8 → Prop) (json : JsonWriter) (element : Bool)
    (members : List (List UInt8 × Json)) (body : List UInt8) (json' : JsonWriter) : Prop where
  dest_eq : json'.dest = json.dest ++ (if members = [] then [] else json.commaText) ++ body
  text : Separated (ItemText valid element) members body
  options_eq : json'.options = json.options
  none : members = [] → json' = json
  some : members ≠ [] → json'.jsonComma = true ∧ json'.jsonSpace = json.options.hasFlag .space

/-- A value before a sequence of values. -/
theorem Written.cons {json first json' : JsonWriter} {element : Bool}
    {member : List UInt8 × Json} {members : List (List UInt8 × Json)} {text body : List UInt8}
    (hdest : first.dest = json.dest ++ json.commaText ++ text)
    (htext : ItemText valid element member text) (hoptions : first.options = json.options)
    (hcomma : first.jsonComma = true) (hspace : first.jsonSpace = json.options.hasFlag .space)
    (h : Written valid first element members body json') :
    ∃ whole, Written valid json element (member :: members) whole json' := by
  cases members with
  | nil =>
    obtain rfl := h.none rfl
    exact ⟨text, by rw [hdest, if_neg (List.cons_ne_nil _ _)], .one htext, hoptions, nofun,
      fun _ ↦ ⟨hcomma, hspace⟩⟩
  | cons next members =>
    obtain ⟨hcomma', hspace'⟩ := h.some (List.cons_ne_nil _ _)
    rw [hoptions] at hspace'
    have hlead : first.commaText = [0x2C] := by
      unfold commaText
      rw [hcomma]
      rfl
    refine ⟨text ++ 0x2C :: body, ?_, .cons htext h.text, h.options_eq.trans hoptions, nofun,
      fun _ ↦ ⟨hcomma', hspace'⟩⟩
    rw [h.dest_eq, hdest, if_neg (List.cons_ne_nil _ _), if_neg (List.cons_ne_nil _ _), hlead]
    simp only [List.append_assoc, List.singleton_append]

theorem writeBegin_eq (json : JsonWriter) (bracket : List UInt8) :
    json.writeBegin bracket =
      ⟨json.dest ++ json.commaText ++ json.spaceText ++ bracket, json.options, false,
        json.options.hasFlag .space⟩ := by
  unfold writeBegin append
  rw [writeRawCommaSpace_eq]

/-- A value between brackets: its begin, a sequence of values and its end. -/
theorem written_enclosed {json json' : JsonWriter} {element : Bool} {opening closing : UInt8}
    {members : List (List UInt8 × Json)} {body : List UInt8}
    (h : Written valid (json.writeBegin [opening]) element members body json') :
    ∃ after, IsWhitespace after ∧
      (json'.writeEnd [closing]).dest = json.dest ++ json.commaText ++ json.spaceText ++
        opening :: (body ++ after ++ [closing]) ∧
      (json'.writeEnd [closing]).options = json.options ∧
      (json'.writeEnd [closing]).jsonComma = true ∧
      (json'.writeEnd [closing]).jsonSpace = json.options.hasFlag .space := by
  have hbegin := json.writeBegin_eq [opening]
  have hspace : json'.jsonSpace = json.options.hasFlag .space := by
    by_cases hnone : members = []
    · rw [h.none hnone, hbegin]
    · rw [(h.some hnone).2, hbegin]
  have hdest : json'.dest = json.dest ++ json.commaText ++ json.spaceText ++ [opening] ++ body := by
    rw [h.dest_eq, hbegin]
    have hcomma : commaText ⟨json.dest ++ json.commaText ++ json.spaceText ++ [opening],
        json.options, false, json.options.hasFlag .space⟩ = [] := rfl
    rw [hcomma, ite_self, List.append_nil]
  refine ⟨json'.spaceText, json'.isWhitespace_spaceText, ?_, ?_, rfl, hspace⟩
  · have hspaces : (if json'.jsonSpace then ascii " " else []) = json'.spaceText := by
      have hascii : ascii " " = [0x20] := by decide
      rw [hascii]
      rfl
    show json'.dest ++ ((if json'.jsonSpace then ascii " " else []) ++ [closing]) = _
    rw [hspaces, hdest]
    simp only [List.append_assoc, List.nil_append, List.cons_append]
  · exact h.options_eq.trans (by rw [hbegin])

theorem writeLabel_options (json : JsonWriter) (label : ItemLabel) (element : Bool) :
    (json.writeLabel writers label element).options = json.options := by
  cases element with
  | true => rfl
  | false =>
    show (json.writePropertyNameFromItemInfo writers label.name label.tag).options = _
    rw [writePropertyNameFromItemInfo_eq]

theorem writeValue_eq (json : JsonWriter) (leaf : JsonLeaf) :
    json.writeValue writers leaf =
      ⟨json.dest ++ json.commaText ++ json.spaceText ++ writers.leaf json.options leaf, json.options,
        true, json.options.hasFlag .space⟩ := by
  unfold writeValue append
  rw [writeRawCommaSpace_eq]

/-- Assumes: escaped names are string bodies. A tree of brackets with its name, where it is no
element. -/
theorem written_tree (hname : ∀ name, StringBody (writers.utf8WithJsonEscape name))
    {json json' : JsonWriter} {label : ItemLabel} {element inner : Bool} {opening closing : UInt8}
    {tree : Json} {members : List (List UInt8 × Json)} {body : List UInt8}
    (htree : ∀ {text after}, Separated (ItemText valid inner) members text → IsWhitespace after →
      JsonText valid tree (opening :: (text ++ after ++ [closing])))
    (h : Written valid ((json.writeLabel writers label element).writeBegin [opening]) inner members
      body json') :
    ∃ text, (json'.writeEnd [closing]).dest = json.dest ++ json.commaText ++ text ∧
      ItemText valid element (memberName writers json.options label.name label.tag, tree) text ∧
      (json'.writeEnd [closing]).options = json.options ∧
      (json'.writeEnd [closing]).jsonComma = true ∧
      (json'.writeEnd [closing]).jsonSpace = json.options.hasFlag .space := by
  obtain ⟨after, hafter, hdest, hoptions, hcomma, hspace⟩ := written_enclosed h
  obtain ⟨text, heq, htext⟩ := writeLabel_text hname json label element (htree h.text hafter)
  rw [json.writeLabel_options] at hoptions hspace
  exact ⟨text, hdest.trans heq, htext, hoptions, hcomma, hspace⟩

/-- What is written for a tree of brackets and what follows it. -/
theorem writeTokens_enclosed (json : JsonWriter) (opening closing : ItemToken)
    (inside rest : List ItemToken) :
    json.writeTokens writers (opening :: (inside ++ closing :: rest)) =
      (((json.writeToken writers opening).writeTokens writers inside).writeToken writers
        closing).writeTokens writers rest := by
  unfold writeTokens
  rw [List.foldl_cons, List.foldl_append, List.foldl_cons]

/-- Assumes: the leaves are valid and escaped names are string bodies. The text of a forest. -/
theorem writeTokens_forest (hleaf : ∀ options leaf, valid (writers.leaf options leaf))
    (hname : ∀ name, StringBody (writers.utf8WithJsonEscape name)) (forest : ItemForest)
    (element : Bool) (json : JsonWriter) :
    ∃ body, Written valid json element (ItemForest.members writers json.options forest) body
      (json.writeTokens writers (forest.tokens element)) := by
  induction forest generalizing element json with
  | nil =>
    refine ⟨[], ?_, .nil, rfl, fun _ ↦ rfl, fun hnil ↦ absurd rfl hnil⟩
    show json.dest = json.dest ++ (if [] = [] then [] else json.commaText) ++ []
    rw [if_pos rfl, List.append_nil, List.append_nil]
  | leaf label leaf rest ih =>
    have hfirst : json.writeToken writers (.leaf label element leaf) =
        ⟨(json.writeLabel writers label element).dest ++
            (json.writeLabel writers label element).commaText ++
            (json.writeLabel writers label element).spaceText ++ writers.leaf json.options leaf,
          json.options, true, json.options.hasFlag .space⟩ := by
      rw [← json.writeLabel_options label element]
      exact writeValue_eq _ leaf
    obtain ⟨text, hdest, htext⟩ :=
      writeLabel_text hname json label element (.leaf (hleaf json.options leaf))
    obtain ⟨body, hbody⟩ := ih element (json.writeToken writers (.leaf label element leaf))
    have hoptions : (json.writeToken writers (.leaf label element leaf)).options = json.options := by
      rw [hfirst]
    rw [hoptions] at hbody
    exact hbody.cons (by rw [hfirst]; exact hdest) htext hoptions (by rw [hfirst]) (by rw [hfirst])
  | object label inside rest ihInside ihRest =>
    have hopening : ascii "\x7b" = [0x7B] := by decide
    have hclosing : ascii "\x7d" = [0x7D] := by decide
    obtain ⟨inner, hinside⟩ := ihInside false (json.writeToken writers (.objectBegin label element))
    have hbegin : json.writeToken writers (.objectBegin label element) =
        (json.writeLabel writers label element).writeBegin [0x7B] := by rw [← hopening]; rfl
    have hoptions : (json.writeToken writers (.objectBegin label element)).options =
        json.options := by rw [hbegin, writeBegin_eq, writeLabel_options]
    rw [hoptions] at hinside
    rw [Forest.tokens, writeTokens_enclosed]
    generalize (json.writeToken writers (.objectBegin label element)).writeTokens writers
      (inside.tokens false) = last at hinside ⊢
    have hend : last.writeToken writers .objectEnd = last.writeEnd [0x7D] := by rw [← hclosing]; rfl
    rw [hbegin] at hinside
    obtain ⟨text, hdest, htext, hoptions', hcomma, hspace⟩ := written_tree hname
      (fun (hbody : Separated (ItemText valid false) _ _) hafter ↦ JsonText.object hbody hafter)
      hinside
    obtain ⟨body, hrest⟩ := ihRest element (last.writeEnd [0x7D])
    rw [hend]
    rw [hoptions'] at hrest
    exact hrest.cons hdest htext hoptions' hcomma hspace
  | array label inside rest ihInside ihRest =>
    have hopening : ascii "[" = [0x5B] := by decide
    have hclosing : ascii "]" = [0x5D] := by decide
    obtain ⟨inner, hinside⟩ := ihInside true (json.writeToken writers (.arrayBegin label element))
    have hbegin : json.writeToken writers (.arrayBegin label element) =
        (json.writeLabel writers label element).writeBegin [0x5B] := by rw [← hopening]; rfl
    have hoptions : (json.writeToken writers (.arrayBegin label element)).options =
        json.options := by rw [hbegin, writeBegin_eq, writeLabel_options]
    rw [hoptions] at hinside
    rw [Forest.tokens, writeTokens_enclosed]
    generalize (json.writeToken writers (.arrayBegin label element)).writeTokens writers
      (inside.tokens true) = last at hinside ⊢
    have hend : last.writeToken writers .arrayEnd = last.writeEnd [0x5D] := by rw [← hclosing]; rfl
    rw [hbegin] at hinside
    obtain ⟨text, hdest, htext, hoptions', hcomma, hspace⟩ := written_tree hname
      (fun (hbody : Separated (ItemText valid true) _ _) hafter ↦
        JsonText.array (Separated.map Prod.snd hbody) hafter) hinside
    obtain ⟨body, hrest⟩ := ihRest element (last.writeEnd [0x5D])
    rw [hend]
    rw [hoptions'] at hrest
    exact hrest.cons hdest htext hoptions' hcomma hspace

/-- A sequence of members that is not empty has a text that is not empty. -/
theorem members_text_ne_nil {valid : List UInt8 → Prop} {members : List (List UInt8 × Json)}
    {body : List UInt8} (h : Separated (MemberText (JsonText valid)) members body)
    (hmembers : members ≠ []) : body ≠ [] := by
  have hitem {item : List UInt8 × Json} {text : List UInt8}
      (hitem : MemberText (JsonText valid) item text) : text ≠ [] := by
    cases hitem
    simp
  cases h with
  | nil => exact absurd rfl hmembers
  | one hfirst => exact hitem hfirst
  | cons => simp

/-- The text of members behind a new writer, and whether a comma is needed next. -/
theorem Written.of_new {valid : List UInt8 → Prop} {dest body : List UInt8}
    {options : PerfConvertOptions} {addComma : Bool} {members : List (List UInt8 × Json)}
    {json : JsonWriter} (h : Written valid (.new dest options addComma) false members body json) :
    json.dest = dest ++ (if addComma ∧ body ≠ [] then ascii "," else []) ++ body ∧
      (json.jsonComma = true ↔ json.dest ≠ dest ∨ addComma = true) := by
  by_cases hmembers : members = []
  · obtain rfl := h.none hmembers
    have hbody : body = [] := by
      have htext := h.text
      rw [hmembers] at htext
      cases htext
      rfl
    rw [hbody, if_neg fun hcomma ↦ hcomma.2 rfl, List.append_nil, List.append_nil]
    exact ⟨rfl, Iff.symm (or_iff_right fun hne ↦ hne rfl)⟩
  · have hbody : body ≠ [] := members_text_ne_nil h.text hmembers
    have hlead : commaText (.new dest options addComma) =
        if addComma ∧ body ≠ [] then ascii "," else [] := by
      have hascii : ascii "," = [0x2C] := by decide
      rw [hascii]
      unfold commaText
      simp only [hbody, ne_eq, not_false_iff, and_true]
      rfl
    have hdest := h.dest_eq
    rw [if_neg hmembers, hlead] at hdest
    refine ⟨hdest, fun _ ↦ Or.inl fun hsame ↦ ?_, fun _ ↦ (h.some hmembers).1⟩
    rw [hsame, List.append_assoc] at hdest
    exact hbody (List.append_eq_nil_iff.1 (List.self_eq_append_right.1 hdest)).2

end JsonWriter

namespace EventHeaderEnumeratorContext

/-! ### The items of a plain traversal -/

section Items

variable (build : Build) (data : List UInt8)

/-- The label of an item. -/
def labelOf (info : EventHeaderItemInfo) : Exec ItemLabel := do
  let name ← info.nameBytes data
  .ok ⟨name, info.metadata.fieldTag⟩

/-- The item that a context shows, if any. -/
def itemTokens (c : EventHeaderEnumeratorContext) : Exec (List ItemToken) :=
  match c.state with
  | .value => do
    let info ← itemInfo build data c
    let label ← labelOf data info
    let leaf ← info.value.writeJsonScalarTo build
    .ok [.leaf label info.metadata.isElement leaf]
  | .arrayBegin => do
    let info ← itemInfo build data c
    let label ← labelOf data info
    .ok [.arrayBegin label info.metadata.isElement]
  | .structBegin => do
    let info ← itemInfo build data c
    let label ← labelOf data info
    .ok [.objectBegin label info.metadata.isElement]
  | .arrayEnd => .ok [.arrayEnd]
  | .structEnd => .ok [.objectEnd]
  | _ => .ok []

/-- The items from a context on, as `move_next` shows them, and the context behind them. -/
def plainItems : ℕ → EventHeaderEnumeratorContext →
    Exec (List ItemToken × EventHeaderEnumeratorContext)
  | 0, _ => .error .unfinished
  | fuel + 1, c => do
    let tokens ← itemTokens build data c
    let (movedToItem, c) ← moveNextImpl build data c
    if movedToItem then do
      let (items, c) ← plainItems fuel c
      .ok (tokens ++ items, c)
    else .ok (tokens, c)

end Items

variable {build : Build} {data : List UInt8} {writers : ValueWriters}
  {c c' : EventHeaderEnumeratorContext}

/-! ### Open brackets -/

/-- The brackets of an open struct: its own, and that of its array if it is an element. -/
def entryBrackets (data : List UInt8) (c : EventHeaderEnumeratorContext) (entry : StackEntry) :
    List Bracket :=
  if FieldEncoding.isArray (fieldTypeAt data c (entry.nameOffset + entry.nameLen + 1)).encoding then
    [.object, .array]
  else [.object]

/-- The brackets open around the current field, innermost first. -/
def levels (data : List UInt8) (c : EventHeaderEnumeratorContext) : List Bracket :=
  (opened 0 c).flatMap (entryBrackets data c)

/-- The brackets open around an element of the current field, or around the field itself if it is
not an array. -/
def elementLevels (data : List UInt8) (c : EventHeaderEnumeratorContext) : List Bracket :=
  if FieldEncoding.isArray c.fieldType.encoding then .array :: levels data c else levels data c

/-- The brackets open before the current item. -/
def openBefore (data : List UInt8) (c : EventHeaderEnumeratorContext) : List Bracket :=
  match c.substate with
  | .valueSimpleArrayElement | .valueComplexArrayElement | .arrayEnd => .array :: levels data c
  | .structBegin => elementLevels data c
  | .structEnd => .object :: elementLevels data c
  | _ => levels data c

/-- The brackets open behind the current item. -/
def openAfter (data : List UInt8) (c : EventHeaderEnumeratorContext) : List Bracket :=
  match c.substate with
  | .valueSimpleArrayElement | .valueComplexArrayElement | .arrayBegin => .array :: levels data c
  | .structBegin => .object :: elementLevels data c
  | .structEnd => elementLevels data c
  | _ => levels data c

theorem levels_congr (hframe : c'.frame = c.frame) (hstack : c'.stack = c.stack)
    (hindex : c'.stackIndex = c.stackIndex) : levels data c' = levels data c := by
  have hreader : c'.byteReader = c.byteReader := congrArg EventFrame.byteReader hframe
  have hmeta : c'.metaEnd = c.metaEnd := congrArg EventFrame.metaEnd hframe
  unfold levels opened entryBrackets fieldTypeAt
  rw [hreader, hmeta, hstack, hindex]

theorem SameField.levels_eq (h : SameField c c') : levels data c' = levels data c :=
  levels_congr h.frame_eq h.stack_eq h.stackIndex_eq

theorem levels_of_empty (h : c.stackIndex = 0) : levels data c = [] := by
  unfold levels
  rw [opened_of_le h.le]
  rfl

/-- Around a field there is nothing or a struct. -/
theorem inArray_levels : inArray (levels data c) = false := by
  unfold levels
  cases opened 0 c with
  | nil => rfl
  | cons entry entries =>
    rw [List.flatMap_cons]
    unfold entryBrackets
    split_ifs <;> rfl

theorem inArray_elementLevels :
    inArray (elementLevels data c) = FieldEncoding.isArray c.fieldType.encoding := by
  unfold elementLevels
  by_cases harray : FieldEncoding.isArray c.fieldType.encoding = true
  · rw [if_pos harray, harray]
    rfl
  · rw [if_neg harray, inArray_levels]
    exact (Bool.eq_false_of_not_eq_true harray).symm

/-- Inside a struct its brackets are open. -/
theorem levels_pushed (hitem : StructItem data c) (hroom : c.stackIndex < 8) :
    levels data (c.pushed hroom) = .object :: elementLevels data c := by
  have hbrackets : entryBrackets data c c.stackTop =
      if FieldEncoding.isArray c.fieldType.encoding then [.object, .array] else [.object] := by
    unfold entryBrackets
    rw [← hitem.fieldType_eq]
  unfold levels elementLevels
  rw [opened_pushed hroom (Nat.zero_le _), List.flatMap_cons]
  show entryBrackets data c c.stackTop ++ levels data c = _
  rw [hbrackets]
  split_ifs <;> rfl

/-- The end of a struct stands behind what was open inside it. -/
theorem openBefore_popped {index : ℕ} (hindex8 : index < 8) (hindex : c.stackIndex = index + 1) :
    openBefore data (c.popped data index c.stack[index]) = levels data c := by
  unfold levels
  rw [opened_succ (c.popped data index c.stack[index]) hindex8 hindex (Nat.zero_le _) rfl rfl,
    List.flatMap_cons]
  show .object :: elementLevels data (c.popped data index c.stack[index]) =
    entryBrackets data c c.stack[index] ++ levels data (c.popped data index c.stack[index])
  have hbrackets : entryBrackets data c c.stack[index] =
      if FieldEncoding.isArray (c.popped data index c.stack[index]).fieldType.encoding then
        [.object, .array] else [.object] := rfl
  rw [hbrackets]
  unfold elementLevels
  split_ifs <;> rfl

/-- The next property stands inside what is open around the field. -/
theorem PropertyStep.openBefore_eq (hstep : PropertyStep data c (true, c')) :
    openBefore data c' = levels data c := by
  cases hstep with
  | field _ _ hfield =>
    cases hfield with
    | value => exact levels_congr rfl rfl rfl
    | variableArray => exact levels_congr rfl rfl rfl
    | constantArray => exact levels_congr rfl rfl rfl
    | @struct field _ hstruct =>
      show elementLevels data _ = _
      unfold elementLevels
      rw [if_neg (by
        show ¬FieldEncoding.isArray field.fieldType.encoding = true
        rw [hstruct]
        decide)]
      exact levels_congr rfl rfl rfl
  | pop _ hindex8 hindex => exact openBefore_popped hindex8 hindex

/-- The end of the event is reached outside of everything. -/
theorem PropertyStep.levels_eq_nil (hstep : PropertyStep data c (false, c'))
    (hend : c'.state = .afterLastItem) : levels data c = [] := by
  cases hstep with
  | finished hindex => exact levels_of_empty hindex
  | trailing => cases hend
  | field _ _ hfield =>
    cases hfield with
    | failed hfailed =>
      rw [hfailed.state_eq] at hend
      cases hend

/-- The field of an item is that of the invariant. -/
theorem EnumeratorInv.structItem (h : EnumeratorInv data c)
    (hsubstate : c.substate = .structBegin ∨ c.substate = .structEnd) : StructItem data c := by
  have hitem := h.item
  unfold ItemInv at hitem
  rcases hsubstate with hsubstate | hsubstate
  · simp only [hsubstate] at hitem
    exact hitem.2
  · simp only [hsubstate] at hitem
    exact hitem.2

/-! ### The brackets in each substate -/

theorem openBefore_inArray (h : c.substate = .valueSimpleArrayElement ∨
    c.substate = .valueComplexArrayElement ∨ c.substate = .arrayEnd) :
    openBefore data c = .array :: levels data c := by
  unfold openBefore
  rcases h with h | h | h <;> rw [h]

theorem openBefore_structBegin (h : c.substate = .structBegin) :
    openBefore data c = elementLevels data c := by
  unfold openBefore
  rw [h]

theorem openAfter_inArray (h : c.substate = .valueSimpleArrayElement ∨
    c.substate = .valueComplexArrayElement ∨ c.substate = .arrayBegin) :
    openAfter data c = .array :: levels data c := by
  unfold openAfter
  rcases h with h | h | h <;> rw [h]

theorem openAfter_structBegin (h : c.substate = .structBegin) :
    openAfter data c = .object :: elementLevels data c := by
  unfold openAfter
  rw [h]

theorem openAfter_structEnd (h : c.substate = .structEnd) :
    openAfter data c = elementLevels data c := by
  unfold openAfter
  rw [h]

theorem openAfter_outside (h : c.substate = .beforeFirstItem ∨ c.substate = .valueScalar ∨
    c.substate = .arrayEnd) : openAfter data c = levels data c := by
  unfold openAfter
  rcases h with h | h | h <;> rw [h]

theorem elementLevels_of_array (h : FieldEncoding.isArray c.fieldType.encoding = true) :
    elementLevels data c = .array :: levels data c := if_pos h

theorem elementLevels_of_scalar (h : FieldEncoding.isArray c.fieldType.encoding = false) :
    elementLevels data c = levels data c := if_neg (by rw [h]; exact Bool.false_ne_true)

/-- Assumes: the invariant. Behind an item the same brackets are open as before the next one. -/
theorem MoveStep.openBefore_eq (h : EnumeratorInv data c) (hstep : MoveStep build data c (true, c')) :
    openBefore data c' = openAfter data c := by
  have hspend := SameField.spend c
  have hnext := (hspend.trans (.pastItem _)).trans (.nextElement _)
  cases hstep with
  | first _ hsubstate hstep =>
    rw [hstep.openBefore_eq, openAfter_outside (Or.inl hsubstate)]
    exact levels_congr rfl rfl rfl
  | scalar _ hsubstate hstep =>
    rw [hstep.openBefore_eq, openAfter_outside (Or.inr (Or.inl hsubstate))]
    exact levels_congr rfl rfl rfl
  | arrayEnd _ hsubstate _ hstep | skip _ hsubstate _ _ _ _ _ hstep =>
    rw [hstep.openBefore_eq, openAfter_outside (Or.inr (Or.inr hsubstate))]
    exact levels_congr rfl rfl rfl
  | structEnd _ hsubstate _ hscalar hstep =>
    rw [hstep.openBefore_eq, openAfter_structEnd hsubstate, elementLevels_of_scalar hscalar]
    exact levels_congr rfl rfl rfl
  | simpleNext _ hsubstate =>
    rw [openBefore_inArray (Or.inl rfl), openAfter_inArray (Or.inl hsubstate),
      (hnext.trans (.atSimpleElement _)).levels_eq]
  | arrayEmpty _ hsubstate =>
    rw [openBefore_inArray (Or.inr (Or.inr rfl)), openAfter_inArray (Or.inr (Or.inr hsubstate)),
      (hspend.trans (.atArrayEnd _)).levels_eq]
  | simpleFirst _ hsubstate =>
    rw [openBefore_inArray (Or.inl rfl), openAfter_inArray (Or.inr (Or.inr hsubstate)),
      (hspend.trans (.atSimpleElement _)).levels_eq]
  | elementsDone _ hsubstate =>
    have hafter : openAfter data c = .array :: levels data c :=
      openAfter_inArray (hsubstate.imp id Or.inl)
    rw [openBefore_inArray (Or.inr (Or.inr rfl)), hafter,
      (hnext.trans (.atArrayEnd _)).levels_eq]
  | complexNext _ hsubstate _ hstarted =>
    rcases hstarted with ⟨pos, size, cooked, raw, _, _, _, heq⟩ | ⟨_, _, heq⟩
    · obtain rfl := congrArg Prod.snd heq
      rw [openBefore_inArray (Or.inr (Or.inl (by exact hsubstate))),
        openAfter_inArray (Or.inr (Or.inl hsubstate)),
        (hnext.trans (.withItem _ pos size cooked raw)).levels_eq]
    · cases congrArg Prod.fst heq
  | complexFirst _ hsubstate _ _ _ hstarted =>
    rcases hstarted with ⟨pos, size, cooked, raw, _, _, _, heq⟩ | ⟨_, _, heq⟩
    · obtain rfl := congrArg Prod.snd heq
      rw [openBefore_inArray (Or.inr (Or.inl rfl)), openAfter_inArray (Or.inr (Or.inr hsubstate)),
        ((hspend.trans (.setState _ _ _)).trans (.withItem _ pos size cooked raw)).levels_eq]
    · cases congrArg Prod.fst heq
  | structFirst _ hsubstate =>
    have hitem := h.item
    unfold ItemInv at hitem
    simp only [hsubstate] at hitem
    rw [openBefore_structBegin rfl, elementLevels_of_array (by exact hitem.array),
      openAfter_inArray (Or.inr (Or.inr hsubstate)), (hspend.trans (.atStructBegin _)).levels_eq]
  | push _ hsubstate hroom hstep =>
    have hitem : StructItem data c.spend := { h.structItem (Or.inl hsubstate) with }
    rw [hstep.openBefore_eq, openAfter_structBegin hsubstate, levels_pushed hitem hroom]
    rfl
  | structNext _ hsubstate hmore =>
    rw [openBefore_structBegin rfl, openAfter_structEnd hsubstate]
    rfl
  | structsDone _ hsubstate _ harray =>
    rw [openBefore_inArray (Or.inr (Or.inr rfl)), openAfter_structEnd hsubstate,
      elementLevels_of_array harray,
      ((hspend.trans (.nextElement _)).trans (.atArrayEnd _)).levels_eq]

/-- Where the event ends behind an item, nothing is open there. -/
theorem MoveStep.openAfter_eq_nil (hstep : MoveStep build data c (false, c'))
    (hend : c'.state = .afterLastItem) : openAfter data c = [] := by
  cases hstep with
  | exhausted => cases hend
  | first _ hsubstate hstep =>
    rw [openAfter_outside (Or.inl hsubstate), ← hstep.levels_eq_nil hend]
    exact levels_congr rfl rfl rfl
  | scalar _ hsubstate hstep =>
    rw [openAfter_outside (Or.inr (Or.inl hsubstate)), ← hstep.levels_eq_nil hend]
    exact levels_congr rfl rfl rfl
  | arrayEnd _ hsubstate _ hstep | skip _ hsubstate _ _ _ _ _ hstep =>
    rw [openAfter_outside (Or.inr (Or.inr hsubstate)), ← hstep.levels_eq_nil hend]
    exact levels_congr rfl rfl rfl
  | structEnd _ hsubstate _ hscalar hstep =>
    rw [openAfter_structEnd hsubstate, elementLevels_of_scalar hscalar, ← hstep.levels_eq_nil hend]
    exact levels_congr rfl rfl rfl
  | push _ _ hroom hstep =>
    cases hstep with
    | finished hindex => cases hindex
    | trailing => cases hend
    | field _ _ hfield =>
      cases hfield with
      | failed hfailed =>
        rw [hfailed.state_eq] at hend
        cases hend
  | complexNext _ _ _ hstarted | complexFirst _ _ _ _ _ hstarted =>
    rcases hstarted with ⟨_, _, _, _, _, _, _, heq⟩ | ⟨_, _, heq⟩
    · cases congrArg Prod.fst heq
    · obtain rfl := congrArg Prod.snd heq
      cases hend
  | skipFailed _ _ hfailed =>
    rw [hfailed.state_eq] at hend
    cases hend
  | stackOverflow => cases hend

/-! ### Each item is allowed where it stands -/

theorem isElement_or_zero (encoding : FieldEncoding) :
    (FieldEncoding.hasChainFlag (FieldEncoding.withoutChainFlag encoding ||| 0) &&
      FieldEncoding.arrayFlags (FieldEncoding.withoutChainFlag encoding ||| 0) != 0) = false := by
  cases encoding with | ofBitVec bits => revert bits; decide

/-- The begin of an array is not an element. -/
theorem ArrayBeginItem.isElement_eq (h : ArrayBeginItem data c) :
    (c.infoOf data).metadata.isElement = false := by
  have hscalar : c.isScalarItem = false := by
    unfold isScalarItem
    rw [h.state_eq]
    rfl
  obtain ⟨encoding, hencoding⟩ := typeAt_encoding c.byteReader data c.metaEnd
    (c.stackTop.nameOffset + c.stackTop.nameLen + 1)
  have hfield : c.fieldType.encoding = FieldEncoding.withoutChainFlag encoding := by
    rw [h.fieldType_eq]
    exact hencoding
  show (c.metadataOf c.isScalarItem _).isElement = false
  rw [hscalar]
  show (FieldEncoding.hasChainFlag (c.fieldType.encoding ||| 0) &&
    FieldEncoding.arrayFlags (c.fieldType.encoding ||| 0) != 0) = false
  rw [hfield]
  exact isElement_or_zero encoding

/-- Other items are elements exactly when their field is an array. -/
theorem isElement_infoOf (hbegin : c.state ≠ .arrayBegin) (hend : c.state ≠ .arrayEnd) :
    (c.infoOf data).metadata.isElement = FieldEncoding.isArray c.fieldType.encoding := by
  have hscalar : c.isScalarItem = true := by
    unfold isScalarItem
    simp [hbegin, hend]
  show (c.metadataOf c.isScalarItem _).isElement = _
  rw [hscalar, isElement_metadataOf]

theorem itemTokens_value {tokens : List ItemToken} (hstate : c.state = .value)
    (h : itemTokens build data c = .ok tokens) :
    ∃ label leaf, tokens = [.leaf label (FieldEncoding.isArray c.fieldType.encoding) leaf] := by
  unfold itemTokens at h
  rw [hstate] at h
  obtain ⟨info, hinfo, h⟩ := bind_eq_ok.1 h
  obtain ⟨label, _, h⟩ := bind_eq_ok.1 h
  obtain ⟨leaf, _, h⟩ := bind_eq_ok.1 h
  obtain ⟨rfl, _⟩ := itemInfo_eq_ok hinfo
  rw [isElement_infoOf (by rw [hstate]; decide) (by rw [hstate]; decide)] at h
  exact ⟨label, leaf, (Except.ok.inj h).symm⟩

theorem itemTokens_structBegin {tokens : List ItemToken} (hstate : c.state = .structBegin)
    (h : itemTokens build data c = .ok tokens) :
    ∃ label, tokens = [.objectBegin label (FieldEncoding.isArray c.fieldType.encoding)] := by
  unfold itemTokens at h
  rw [hstate] at h
  obtain ⟨info, hinfo, h⟩ := bind_eq_ok.1 h
  obtain ⟨label, _, h⟩ := bind_eq_ok.1 h
  obtain ⟨rfl, _⟩ := itemInfo_eq_ok hinfo
  rw [isElement_infoOf (by rw [hstate]; decide) (by rw [hstate]; decide)] at h
  exact ⟨label, (Except.ok.inj h).symm⟩

theorem itemTokens_arrayBegin {tokens : List ItemToken} (hitem : ArrayBeginItem data c)
    (h : itemTokens build data c = .ok tokens) : ∃ label, tokens = [.arrayBegin label false] := by
  unfold itemTokens at h
  rw [hitem.state_eq] at h
  obtain ⟨info, hinfo, h⟩ := bind_eq_ok.1 h
  obtain ⟨label, _, h⟩ := bind_eq_ok.1 h
  obtain ⟨rfl, _⟩ := itemInfo_eq_ok hinfo
  rw [hitem.isElement_eq] at h
  exact ⟨label, (Except.ok.inj h).symm⟩

/-- Assumes: the invariant, in a state of value enumeration that allows a move. The item is allowed
inside the brackets open before it, and leaves those open behind it. -/
theorem itemTokens_closed {tokens rest : List ItemToken} (h : EnumeratorInv data c)
    (hmove : c.state.canMoveNext = true) (hvalue : c.substate ≠ .valueMetadata)
    (htokens : itemTokens build data c = .ok tokens) (hrest : Closed (openAfter data c) rest) :
    Closed (openBefore data c) (tokens ++ rest) := by
  have hstate := h.state_eq hvalue
  have hitem := h.item
  unfold ItemInv at hitem
  cases hsubstate : c.substate with
  | valueMetadata => exact absurd hsubstate hvalue
  | error | afterLastItem =>
    rw [hstate, hsubstate] at hmove
    cases hmove
  | beforeFirstItem =>
    rw [hsubstate] at hstate
    have hnone : itemTokens build data c = .ok [] := by
      unfold itemTokens
      rw [hstate]
      rfl
    obtain rfl : [] = tokens := Except.ok.inj (hnone.symm.trans htokens)
    have hsame : openBefore data c = openAfter data c := by
      unfold openBefore openAfter
      rw [hsubstate]
    rw [hsame]
    exact hrest
  | valueScalar =>
    simp only [hsubstate] at hitem
    obtain ⟨label, leaf, rfl⟩ := itemTokens_value hitem.state_eq htokens
    rw [openAfter_outside (Or.inr (Or.inl hsubstate))] at hrest
    have hbefore : openBefore data c = levels data c := by
      unfold openBefore
      rw [hsubstate]
    rw [hbefore, hitem.scalar]
    exact ⟨_, if_pos inArray_levels.symm, hrest⟩
  | valueSimpleArrayElement =>
    simp only [hsubstate] at hitem
    obtain ⟨label, leaf, rfl⟩ := itemTokens_value hitem.state_eq htokens
    rw [openAfter_inArray (Or.inl hsubstate)] at hrest
    rw [openBefore_inArray (Or.inl hsubstate), hitem.array]
    exact ⟨_, rfl, hrest⟩
  | valueComplexArrayElement =>
    simp only [hsubstate] at hitem
    obtain ⟨label, leaf, rfl⟩ := itemTokens_value hitem.state_eq htokens
    rw [openAfter_inArray (Or.inr (Or.inl hsubstate))] at hrest
    rw [openBefore_inArray (Or.inr (Or.inl hsubstate)), hitem.array]
    exact ⟨_, rfl, hrest⟩
  | arrayBegin =>
    simp only [hsubstate] at hitem
    obtain ⟨label, rfl⟩ := itemTokens_arrayBegin hitem htokens
    rw [openAfter_inArray (Or.inr (Or.inr hsubstate))] at hrest
    have hbefore : openBefore data c = levels data c := by
      unfold openBefore
      rw [hsubstate]
    rw [hbefore]
    exact ⟨_, if_pos inArray_levels.symm, hrest⟩
  | arrayEnd =>
    rw [hsubstate] at hstate
    have hended : itemTokens build data c = .ok [.arrayEnd] := by
      unfold itemTokens
      rw [hstate]
      rfl
    obtain rfl : [.arrayEnd] = tokens := Except.ok.inj (hended.symm.trans htokens)
    rw [openAfter_outside (Or.inr (Or.inr hsubstate))] at hrest
    rw [openBefore_inArray (Or.inr (Or.inr hsubstate))]
    exact ⟨_, rfl, hrest⟩
  | structBegin =>
    simp only [hsubstate] at hitem
    obtain ⟨label, rfl⟩ := itemTokens_structBegin hitem.1 htokens
    rw [openAfter_structBegin hsubstate] at hrest
    rw [openBefore_structBegin hsubstate]
    exact ⟨_, if_pos inArray_elementLevels.symm, hrest⟩
  | structEnd =>
    rw [hsubstate] at hstate
    have hended : itemTokens build data c = .ok [.objectEnd] := by
      unfold itemTokens
      rw [hstate]
      rfl
    obtain rfl : [.objectEnd] = tokens := Except.ok.inj (hended.symm.trans htokens)
    rw [openAfter_structEnd hsubstate] at hrest
    have hbefore : openBefore data c = .object :: elementLevels data c := by
      unfold openBefore
      rw [hsubstate]
    rw [hbefore]
    exact ⟨_, rfl, hrest⟩

/-! ### The plain traversal writes its items -/

/-- The name of an item is written where it is no element. -/
theorem writeJsonName_eq {json named : JsonWriter} {info : EventHeaderItemInfo} {name : List UInt8}
    (hname : info.nameBytes data = .ok name) {element : Bool}
    (h : writeJsonName data writers (true && !element) info json = .ok named) :
    named = json.writeLabel writers ⟨name, info.metadata.fieldTag⟩ element := by
  unfold writeJsonName at h
  cases element with
  | true => exact (Except.ok.inj h).symm
  | false =>
    rw [if_pos (by rfl), hname, ok_bind] at h
    exact (Except.ok.inj h).symm

/-- Assumes: the invariant. The plain traversal writes the item that the context shows. -/
theorem writeJsonItem_tokens {json json' : JsonWriter} (h : EnumeratorInv data c)
    (hvalue : c.substate ≠ .valueMetadata)
    (hitem : writeJsonItem build data writers false true json c = .ok (.item json')) :
    ∃ tokens, itemTokens build data c = .ok tokens ∧ json' = json.writeTokens writers tokens := by
  have hnamed (hshows : c.state.canItemInfo = true) {info : EventHeaderItemInfo}
      (hinfo : itemInfo build data c = .ok info) : ∃ name, info.nameBytes data = .ok name := by
    obtain ⟨name, hname, _⟩ := (itemInfo_returns h hshows).of_eq_ok hinfo
    exact ⟨name, hname⟩
  unfold writeJsonItem at hitem
  unfold itemTokens labelOf
  cases hstate : c.state with
  | beforeFirstItem | arrayEnd | structEnd =>
    rw [hstate] at hitem
    exact ⟨_, rfl, (JsonItem.item.inj (Except.ok.inj hitem)).symm⟩
  | error | afterLastItem =>
    rw [hstate] at hitem
    obtain ⟨_, _, hitem⟩ := bind_eq_ok.1 hitem
    cases hitem
  | value =>
    rw [hstate] at hitem
    obtain ⟨info, hinfo, hitem⟩ := bind_eq_ok.1 hitem
    obtain ⟨named, hname, hitem⟩ := bind_eq_ok.1 hitem
    obtain ⟨leaf, hleaf, hitem⟩ := bind_eq_ok.1 hitem
    obtain ⟨name, hnameBytes⟩ := hnamed (by rw [hstate]; rfl) hinfo
    refine ⟨[.leaf ⟨name, info.metadata.fieldTag⟩ info.metadata.isElement leaf], ?_, ?_⟩
    · dsimp only
      rw [hinfo, ok_bind, hnameBytes, ok_bind, ok_bind, hleaf]
      rfl
    · rw [← JsonItem.item.inj (Except.ok.inj hitem), writeJsonName_eq hnameBytes hname]
      rfl
  | arrayBegin =>
    rw [hstate] at hitem
    obtain ⟨info, hinfo, hitem⟩ := bind_eq_ok.1 hitem
    obtain ⟨named, hname, hitem⟩ := bind_eq_ok.1 hitem
    obtain ⟨name, hnameBytes⟩ := hnamed (by rw [hstate]; rfl) hinfo
    refine ⟨[.arrayBegin ⟨name, info.metadata.fieldTag⟩ info.metadata.isElement], ?_, ?_⟩
    · dsimp only
      rw [hinfo, ok_bind, hnameBytes, ok_bind, ok_bind]
    · obtain ⟨_, harray⟩ := h.arrayBegin hstate hvalue
      have helement : info.metadata.isElement = false := by
        rw [(itemInfo_eq_ok hinfo).1]
        exact harray.isElement_eq
      have hlabel : named = json.writeLabel writers ⟨name, info.metadata.fieldTag⟩ false :=
        writeJsonName_eq hnameBytes hname
      rw [← JsonItem.item.inj (Except.ok.inj hitem), hlabel, helement]
      rfl
  | structBegin =>
    rw [hstate] at hitem
    obtain ⟨info, hinfo, hitem⟩ := bind_eq_ok.1 hitem
    obtain ⟨named, hname, hitem⟩ := bind_eq_ok.1 hitem
    obtain ⟨name, hnameBytes⟩ := hnamed (by rw [hstate]; rfl) hinfo
    refine ⟨[.objectBegin ⟨name, info.metadata.fieldTag⟩ info.metadata.isElement], ?_, ?_⟩
    · dsimp only
      rw [hinfo, ok_bind, hnameBytes, ok_bind, ok_bind]
    · rw [← JsonItem.item.inj (Except.ok.inj hitem), writeJsonName_eq hnameBytes hname]
      rfl

/-- The depth of the traversal counts the open brackets. -/
theorem jsonDepth_eq {extra : ℤ} (h : EnumeratorInv data c) (hmove : c.state.canMoveNext = true)
    (hvalue : c.substate ≠ .valueMetadata) (hfirst : c.substate ≠ .beforeFirstItem) :
    jsonDepth (extra + (openBefore data c).length) c.state =
      extra + (openAfter data c).length := by
  have hstate := h.state_eq hvalue
  unfold openBefore openAfter
  rw [hstate] at hmove ⊢
  cases hsubstate : c.substate with
  | beforeFirstItem => exact absurd hsubstate hfirst
  | error | afterLastItem =>
    rw [hsubstate] at hmove
    cases hmove
  | valueMetadata | valueScalar | valueSimpleArrayElement | valueComplexArrayElement => rfl
  | arrayBegin | structBegin | arrayEnd | structEnd =>
    simp only [stateOf, jsonDepth, List.length_cons]
    push_cast
    ring

/-- Assumes: the invariant, at an item of value enumeration, at a depth that counts the brackets
open before it, and a plain traversal that gets to the end of the event. It shows the items that it
writes, which close every bracket. -/
theorem writeJsonLoop_items {fuel : ℕ} {depth : ℤ} {json : JsonWriter}
    {result : Option Bool × JsonWriter × EventHeaderEnumeratorContext} (h : EnumeratorInv data c)
    (hmove : c.state.canMoveNext = true) (hvalue : c.substate ≠ .valueMetadata)
    (hdepth : jsonDepth depth c.state = 1 + (openAfter data c).length)
    (hplain : writeJsonLoop build data writers false fuel depth true json c = .ok result)
    (hend : result.2.2.state = .afterLastItem) :
    ∃ items, plainItems build data fuel c = .ok (items, result.2.2) ∧
      Closed (openBefore data c) items ∧ result.2.1 = json.writeTokens writers items ∧
      result.1 = some result.2.1.jsonComma := by
  induction fuel generalizing depth json c with
  | zero => cases hplain
  | succ fuel ih =>
    rw [writeJsonLoop] at hplain
    obtain ⟨item, hitem, hplain⟩ := bind_eq_ok.1 hplain
    obtain ⟨written, rfl⟩ := writeJsonItem_plain hmove hitem
    obtain ⟨⟨moved, next⟩, hnext, hrest⟩ := bind_eq_ok.1 hplain
    have hstep := (moveNextImpl_returns h hmove hvalue).of_eq_ok hnext
    obtain ⟨tokens, htokens, rfl⟩ := writeJsonItem_tokens h hvalue hitem
    have hmoved := hstep.moved h
    rw [plainItems, htokens, ok_bind, hnext, ok_bind]
    have hfollows : JsonFollows build data writers false fuel (jsonDepth depth c.state) true
        (json.writeTokens writers tokens) (moved, next) result := jsonFollows_of_ite hrest
    rcases hfollows with ⟨hstop, rfl⟩ | ⟨hgoesOn, _, hrun⟩
    · have hlast : moved = false := by
        rcases hstop with hstop | hstop
        · exact hstop
        · rw [hdepth] at hstop
          omega
      subst hlast
      refine ⟨tokens, rfl, ?_, rfl, rfl⟩
      have hclosed : Closed (openBefore data c) (tokens ++ []) :=
        itemTokens_closed h hmove hvalue htokens (hstep.openAfter_eq_nil hend)
      rwa [List.append_nil] at hclosed
    · obtain rfl : moved = true := hgoesOn
      have hdepth' : jsonDepth (jsonDepth depth c.state) next.state =
          1 + (openAfter data next).length := by
        rw [hdepth, ← hstep.openBefore_eq h]
        refine jsonDepth_eq hmoved.inv hmoved.stops hmoved.value fun hfirst ↦ ?_
        have hshows := hmoved.shows
        rw [hmoved.inv.state_eq hmoved.value] at hshows
        dsimp only at hshows
        rw [hfirst] at hshows
        cases hshows
      obtain ⟨items, hitems, hclosed, hjson, hresult⟩ := ih hmoved.inv hmoved.stops hmoved.value
        hdepth' hrun
      refine ⟨tokens ++ items, ?_, ?_, ?_, hresult⟩
      · dsimp only
        rw [if_pos rfl, hitems, ok_bind]
      · rw [hstep.openBefore_eq h] at hclosed
        exact itemTokens_closed h hmove hvalue htokens hclosed
      · rw [hjson]
        exact (List.foldl_append ..).symm

/-! ### The text of an event -/

/-- Before the first item the traversal does not look at names. -/
theorem writeJsonLoop_first {fuel : ℕ} {depth : ℤ} {wantName : Bool} {json : JsonWriter}
    (hstate : c.state = .beforeFirstItem) :
    writeJsonLoop build data writers false (fuel + 1) depth wantName json c =
      writeJsonLoop build data writers false (fuel + 1) depth true json c := by
  have hitem (wanted : Bool) :
      writeJsonItem build data writers false wanted json c = .ok (.item json) := by
    unfold writeJsonItem
    rw [hstate]
  rw [writeJsonLoop, writeJsonLoop, hitem, hitem]
  rfl

theorem SameOutcome.state_eq {budget : ℕ} {first second : Bool × EventHeaderEnumeratorContext}
    (h : SameOutcome budget first second) : first.2.state = second.2.state := by
  cases h with
  | item => rfl
  | ended hstale =>
    obtain ⟨_, _, _, _, _, rfl⟩ := hstale
    rfl

theorem openBefore_first (h : c.substate = .beforeFirstItem) :
    openBefore data c = levels data c := by
  unfold openBefore
  rw [h]

/-- Assumes: an event that `enumerate_with_name_and_data` accepts, before its first item, valid
leaves and escaped names, and a call of `write_json_item_and_move_next_sibling` that gets behind the
last item. The items that `move_next` shows, given enough budget, are those of a forest, and what was
written is, behind the optional comma and between braces, a JSON text of that forest: structs are
objects, arrays are arrays, elements of arrays have no name and all other items have theirs. The
result is `true` exactly when something was written or the caller asked for a comma. -/
theorem writeJson_tree (build : Build) (writers : ValueWriters) (valid : List UInt8 → Prop)
    (context : EventHeaderEnumeratorContext) (tracepointName data : List UInt8) (limit : ℕ)
    (start c : EventHeaderEnumeratorContext)
    (haccept : enumerateWithNameAndData data context tracepointName limit = .ok (.ok (), start))
    (hreaches : EnumeratorReaches build data start c) (hstate : c.state = .beforeFirstItem)
    (hleaf : ∀ options leaf, valid (writers.leaf options leaf))
    (hname : ∀ name, StringBody (writers.utf8WithJsonEscape name)) (dest : List UInt8)
    (addComma : Bool) (options : PerfConvertOptions) (result : Option Bool) (json : JsonWriter)
    (last : EventHeaderEnumeratorContext)
    (hwrite : writeJsonItemAndMoveNextSiblingImpl build data writers dest addComma options c =
      .ok (result, json, last))
    (hlast : last.state = .afterLastItem) :
    ∃ (budget : ℕ) (forest : ItemForest) (final : EventHeaderEnumeratorContext) (body : List UInt8),
      plainItems build data (budget + 1) (c.withBudget budget) =
          .ok (forest.tokens false, final) ∧
        final.state = .afterLastItem ∧
        json.dest = dest ++ (if addComma ∧ body ≠ [] then ascii "," else []) ++ body ∧
        JsonText valid (.object (forest.members writers options))
          (ascii "\x7b" ++ body ++ ascii "\x7d") ∧
        ∃ comma, result = some comma ∧ (comma = true ↔ json.dest ≠ dest ∨ addComma = true) := by
  obtain ⟨hstart, _⟩ :=
    (enumerateWithNameAndData_returns tracepointName limit).of_eq_ok haccept rfl
  obtain ⟨hinv, _⟩ := hstart.reaches hreaches
  obtain ⟨hsubstate, hindex⟩ := beforeFirstItem_of_reaches hstart (accepted_reset haccept)
    hreaches hstate
  have hvalue : c.substate ≠ .valueMetadata := by
    rw [hsubstate]
    decide
  have hmove : c.state.canMoveNext = true := by
    rw [hstate]
    rfl
  have hopen (budget : ℕ) : openBefore data (c.withBudget budget) = [] ∧
      openAfter data (c.withBudget budget) = [] := by
    have hlevels : levels data (c.withBudget budget) = [] := levels_of_empty hindex
    rw [openBefore_first (by exact hsubstate), openAfter_outside (Or.inl (by exact hsubstate))]
    exact ⟨hlevels, hlevels⟩
  unfold writeJsonItemAndMoveNextSiblingImpl writeJsonItems at hwrite
  rw [debugAssert_of hmove, ok_bind] at hwrite
  obtain ⟨budget, plain, hplain, hsame⟩ := writeJsonLoop_expands hinv hmove hvalue le_rfl
    (fun hpositive ↦ absurd hpositive (lt_irrefl 0)) hwrite (fun _ ↦ by rw [hlast]; decide)
  obtain ⟨hresult, hjson, moved, other, houtcome, hmoved⟩ := hsame
  rw [writeJsonLoop_first (by exact hstate)] at hplain
  have hfinal : plain.2.2.state = .afterLastItem := houtcome.state_eq.trans hlast
  obtain ⟨items, hitems, hclosed, htext, hcomma⟩ := writeJsonLoop_items (hinv.withBudget budget)
    hmove hvalue (by rw [(hopen budget).2]; exact congrArg (jsonDepth 0) hstate) hplain hfinal
  rw [(hopen budget).1] at hclosed
  obtain ⟨forest, rfl⟩ := exists_forest hclosed
  obtain ⟨body, hbody⟩ := JsonWriter.writeTokens_forest hleaf hname forest false
    (.new dest options addComma)
  rw [← htext, hjson] at hbody
  obtain ⟨hdest, hcommaTrue⟩ := hbody.of_new
  refine ⟨budget, forest, plain.2.2, body, hitems, hfinal, hdest, ?_, json.jsonComma, ?_, hcommaTrue⟩
  · have hopening : ascii "\x7b" = [0x7B] := by decide
    have hclosing : ascii "\x7d" = [0x7D] := by decide
    have hobject := JsonText.object hbody.text fun byte (hbyte : byte ∈ []) ↦ nomatch hbyte
    rw [List.append_nil] at hobject
    rw [hopening, hclosing]
    exact hobject
  · exact hresult.symm.trans (hcomma.trans (by rw [hjson]))

/-- The leaves of the sample writers. -/
def sampleValid (text : List UInt8) : Prop :=
  text = ascii "null" ∨ text ≠ [] ∧ ∀ byte ∈ text, isAsciiDigit byte = true

theorem sampleWriters_leaf (options : PerfConvertOptions) (leaf : JsonLeaf) :
    sampleValid (sampleWriters.leaf options leaf) := by
  cases leaf with
  | display value =>
    refine Or.inr ⟨Text.decimal_ne_nil value.toNat, fun _ hbyte ↦ ?_⟩
    exact Text.isAsciiDigit_of_mem_decimal hbyte
  | _ => exact Or.inl rfl

theorem sampleEscape_hexDigits (byte : UInt8) (h : byte < 0x20) :
    IsHexDigit (0x30 + byte / 16) ∧
      IsHexDigit (if byte % 16 < 10 then 0x30 + byte % 16 else 0x57 + byte % 16) := by
  cases byte with | ofBitVec bits => revert bits; decide

theorem stringBody_sampleEscape (byte : UInt8) : StringBody (sampleEscape byte) := by
  unfold sampleEscape
  split_ifs with hquoted hcontrol
  · refine .escape ?_ .nil
    rcases hquoted with rfl | rfl <;> decide
  · obtain ⟨hhigh, hlow⟩ := sampleEscape_hexDigits byte hcontrol
    rename_i hdigit
    rw [if_pos hdigit] at hlow
    exact .unicode (by decide) (by decide) hhigh hlow .nil
  · obtain ⟨hhigh, hlow⟩ := sampleEscape_hexDigits byte hcontrol
    rename_i hdigit
    rw [if_neg hdigit] at hlow
    exact .unicode (by decide) (by decide) hhigh hlow .nil
  · obtain ⟨hquote, hbackslash⟩ := not_or.1 hquoted
    exact .char (UInt8.not_lt.1 hcontrol) hquote hbackslash .nil

theorem sampleWriters_name (name : List UInt8) :
    StringBody (sampleWriters.utf8WithJsonEscape name) := by
  show StringBody (name.flatMap sampleEscape)
  induction name with
  | nil => exact .nil
  | cons byte name ih =>
    rw [List.flatMap_cons]
    exact (stringBody_sampleEscape byte).append ih

/-- What the sample event is written as. -/
def sampleEventJson : JsonWriter where
  dest := ascii "\"a\": [ 1, 2 ], \"b\": 7"
  options := PerfConvertOptions.space
  jsonComma := true
  jsonSpace := true

/-- The sample event behind its last item. -/
def sampleArrayEnd : EventHeaderEnumeratorContext :=
  contextOf (moveNextImpl ⟨true, .little, true⟩ sampleArrayEvent
    { sampleArrayPlain with moveNextRemaining := 8 })

/-- The text of the sample event is a JSON text of its items. -/
theorem sampleArrayEvent_tree :
    ∃ (budget : ℕ) (forest : ItemForest) (final : EventHeaderEnumeratorContext) (body : List UInt8),
      plainItems ⟨true, .little, true⟩ sampleArrayEvent (budget + 1)
          (sampleArrayStart.withBudget budget) = .ok (forest.tokens false, final) ∧
        final.state = .afterLastItem ∧ sampleEventJson.dest = body ∧
        JsonText sampleValid (.object (forest.members sampleWriters .space))
          (ascii "\x7b" ++ body ++ ascii "\x7d") := by
  have haccept : enumerateWithNameAndData sampleArrayEvent new sampleName 10 =
      .ok (.ok (), sampleArrayStart) := by decide +kernel
  obtain ⟨budget, forest, final, body, hitems, hfinal, hdest, htext, _⟩ :=
    writeJson_tree ⟨true, .little, true⟩ sampleWriters sampleValid new sampleName sampleArrayEvent 10
      sampleArrayStart sampleArrayStart haccept .refl (by decide +kernel) sampleWriters_leaf
      sampleWriters_name [] false .space (some true) sampleEventJson sampleArrayEnd
      (by decide +kernel) (by decide +kernel)
  exact ⟨budget, forest, final, body, hitems, hfinal, by simpa using hdest, htext⟩

end EventHeaderEnumeratorContext

end Tracepoints
