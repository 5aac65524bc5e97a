import Mathlib.Data.List.Basic

/-!
# JSON texts

`Json` is a tree of objects, arrays and leaves. `JsonText valid value text` says that a text, given as
bytes, is a JSON text of a tree: brackets, commas between siblings, quoted member names and
whitespace are where the grammar of JSON has them. Which texts are leaves is the parameter `valid`;
what may stand between the quotation marks of a name is `StringBody`.
-/

set_option autoImplicit false
set_option relaxedAutoImplicit false

namespace Tracepoints

/-- A tree of objects, arrays and leaves. A member has the text between the quotation marks of its
name. -/
inductive Json
  | leaf (text : List UInt8)
  | array (elements : List Json)
  | object (members : List (List UInt8 × Json))

/-- Spaces, tabs and line ends. -/
def IsWhitespace (text : List UInt8) : Prop :=
  ∀ byte ∈ text, byte = 0x20 ∨ byte = 0x09 ∨ byte = 0x0A ∨ byte = 0x0D

/-- The bytes of the digits of a number in base 16. -/
def IsHexDigit (byte : UInt8) : Prop :=
  0x30 ≤ byte ∧ byte ≤ 0x39 ∨ 0x41 ≤ byte ∧ byte ≤ 0x46 ∨ 0x61 ≤ byte ∧ byte ≤ 0x66

instance (byte : UInt8) : Decidable (IsHexDigit byte) := inferInstanceAs (Decidable (_ ∨ _))

/-- The text of a JSON string between the quotation marks: bytes of characters that need no escape,
and escapes. -/
inductive StringBody : List UInt8 → Prop
  | nil : StringBody []
  | char {byte : UInt8} {rest : List UInt8} (hcontrol : 0x20 ≤ byte) (hquote : byte ≠ 0x22)
      (hbackslash : byte ≠ 0x5C) (hrest : StringBody rest) : StringBody (byte :: rest)
  | escape {byte : UInt8} {rest : List UInt8}
      (hbyte : byte ∈ [0x22, 0x5C, 0x2F, 0x62, 0x66, 0x6E, 0x72, 0x74]) (hrest : StringBody rest) :
      StringBody (0x5C :: byte :: rest)
  | unicode {first second third fourth : UInt8} {rest : List UInt8} (hfirst : IsHexDigit first)
      (hsecond : IsHexDigit second) (hthird : IsHexDigit third) (hfourth : IsHexDigit fourth)
      (hrest : StringBody rest) :
      StringBody (0x5C :: 0x75 :: first :: second :: third :: fourth :: rest)

/-- A byte that stands for itself in a JSON string. -/
def IsPlain (byte : UInt8) : Prop := 0x20 ≤ byte ∧ byte ≠ 0x22 ∧ byte ≠ 0x5C

instance (byte : UInt8) : Decidable (IsPlain byte) := inferInstanceAs (Decidable (_ ∧ _))

theorem StringBody.of_plain {text : List UInt8} (h : ∀ byte ∈ text, IsPlain byte) :
    StringBody text := by
  induction text with
  | nil => exact .nil
  | cons byte text ih =>
    obtain ⟨hcontrol, hquote, hbackslash⟩ := h byte List.mem_cons_self
    exact .char hcontrol hquote hbackslash (ih fun other hother ↦ h other (List.mem_cons_of_mem _ hother))

theorem StringBody.append {first second : List UInt8} (hfirst : StringBody first)
    (hsecond : StringBody second) : StringBody (first ++ second) := by
  induction hfirst with
  | nil => exact hsecond
  | char hcontrol hquote hbackslash _ ih => exact .char hcontrol hquote hbackslash ih
  | escape hbyte _ ih => exact .escape hbyte ih
  | unicode hone htwo hthree hfour _ ih => exact .unicode hone htwo hthree hfour ih

/-- Texts of the members of a sequence with commas between them. -/
inductive Separated {α : Type} (itemText : α → List UInt8 → Prop) : List α → List UInt8 → Prop
  | nil : Separated itemText [] []
  | one {item : α} {text : List UInt8} (hitem : itemText item text) :
      Separated itemText [item] text
  | cons {item next : α} {items : List α} {text rest : List UInt8} (hitem : itemText item text)
      (hrest : Separated itemText (next :: items) rest) :
      Separated itemText (item :: next :: items) (text ++ 0x2C :: rest)

theorem Separated.map {α β : Type} {itemText : β → List UInt8 → Prop} (f : α → β) {items : List α}
    {text : List UInt8} (h : Separated (fun item ↦ itemText (f item)) items text) :
    Separated itemText (items.map f) text := by
  induction h with
  | nil => exact .nil
  | one hitem => exact .one hitem
  | cons hitem _ ih => exact .cons hitem ih

/-- The text of a member: its name in quotation marks, a colon and its value. -/
inductive MemberText (valueText : Json → List UInt8 → Prop) : List UInt8 × Json → List UInt8 → Prop
  | mk {before name after text : List UInt8} {value : Json} (hbefore : IsWhitespace before)
      (hname : StringBody name) (hafter : IsWhitespace after) (hvalue : valueText value text) :
      MemberText valueText (name, value)
        (before ++ 0x22 :: (name ++ 0x22 :: (after ++ 0x3A :: text)))

/-- The texts of a tree. -/
inductive JsonText (valid : List UInt8 → Prop) : Json → List UInt8 → Prop
  | leaf {text : List UInt8} (htext : valid text) : JsonText valid (.leaf text) text
  | padded {value : Json} {before text after : List UInt8} (hbefore : IsWhitespace before)
      (htext : JsonText valid value text) (hafter : IsWhitespace after) :
      JsonText valid value (before ++ text ++ after)
  | array {elements : List Json} {body after : List UInt8}
      (hbody : Separated (JsonText valid) elements body) (hafter : IsWhitespace after) :
      JsonText valid (.array elements) (0x5B :: (body ++ after ++ [0x5D]))
  | object {members : List (List UInt8 × Json)} {body after : List UInt8}
      (hbody : Separated (MemberText (JsonText valid)) members body) (hafter : IsWhitespace after) :
      JsonText valid (.object members) (0x7B :: (body ++ after ++ [0x7D]))

end Tracepoints
