import Tracepoints.Macros.EventInfo
import Tracepoints.Provider.WriteEventHeader

/-!
# The metadata that a macro generates

`EventGenerator` of `eventheader_macros/src/event_generator.rs` writes the metadata of an event as an
array of byte expressions in the generated code: literals, the values of enumerations and the two bytes
of a tag. `MetaElement` is one such expression and `eventMetadata` the array. What the expressions of a
declaration evaluate to is known to the compiler of the generated code, and is a parameter
(`Expressions`).
-/

set_option autoImplicit false
set_option relaxedAutoImplicit false

namespace Tracepoints

/-- The enumerations whose values are bytes of the metadata: `ENCODING_PATH` and `FORMAT_PATH`. -/
inductive EnumTypePath
  | encoding
  | format
  deriving DecidableEq, Repr

/-- An element of the metadata array in the generated code. -/
inductive MetaElement
  | literal (byte : UInt8)
  | enumValue (enumTypePath : EnumTypePath) (name : String) (flags : UInt8)
  | enumExpression (enumTypePath : EnumTypePath) (tokens : List TokenTree) (flags : UInt8)
  | tagByte0 (tag : List TokenTree)
  | tagByte1 (tag : List TokenTree)

/-- `append_meta_name`. -/
def appendMetaName (name : List Char) : List MetaElement :=
  (utf8 name).map .literal ++ [.literal 0]

/-- `add_typecode_meta`. -/
def addTypecodeMeta (enumTypePath : EnumTypePath) (tokens : List TokenTree) (typeToken : EnumToken)
    (flags : UInt8) : MetaElement :=
  if tokens.isEmpty then
    match typeToken with
    | .u8 enumInt => .literal (enumInt ||| flags)
    | .str enumName => .enumValue enumTypePath enumName flags
  else .enumExpression enumTypePath tokens flags

/-- `add_tag`. -/
def addTag (tag : List TokenTree) : List MetaElement := [.tagByte0 tag, .tagByte1 tag]

namespace FieldInfo

/-- `has_out`. -/
def hasOut (field : FieldInfo) : Bool :=
  !field.formatOrFieldCountExpr.isEmpty || field.formatOrFieldCountInt != 0

/-- `has_tag`. -/
def hasTag (field : FieldInfo) : Bool := !field.tag.isEmpty

/-- The metadata part of `add_field`. -/
def metadata (field : FieldInfo) : List MetaElement :=
  if field.option.strategy.hasMetadata then
    let inflags : UInt8 :=
      (if field.hasOut || field.hasTag then 0x80 else 0) |||
        (if field.option.strategy.isSlice then FieldEncoding.vArrayFlag else 0)
    appendMetaName field.name ++
      [addTypecodeMeta .encoding field.encodingTokens field.option.encoding.toToken inflags] ++
      (if field.hasOut || field.hasTag then
        [addTypecodeMeta .format field.formatOrFieldCountExpr (.u8 field.formatOrFieldCountInt)
          (if field.hasTag then 0x80 else 0)]
      else []) ++
      (if field.hasTag then addTag field.tag else [])
  else []

end FieldInfo

/-- The metadata array of `generate`. -/
def EventInfo.metadata (event : EventInfo) : List MetaElement :=
  appendMetaName event.name ++ event.fields.flatMap FieldInfo.metadata

/-- The values of the expressions in a declaration. -/
structure Expressions where
  /-- The value of `tokens.as_int()` for tokens of type `FieldEncoding`. -/
  encoding : List TokenTree → UInt8
  /-- The value of `tokens.as_int()` for tokens of type `FieldFormat`. -/
  format : List TokenTree → UInt8
  /-- The value of tokens of type `u16`. -/
  tag : List TokenTree → UInt16

/-- The encoding that stands for a pointer-sized value. -/
def FieldEncoding.valueSize (build : Build) : FieldEncoding :=
  if build.pointer64 then value64 else value32

/-- The byte that an element of the metadata array evaluates to. The only encoding that is written by its
name is `ValueSize`. -/
def MetaElement.eval (build : Build) (expressions : Expressions) : MetaElement → UInt8
  | literal byte => byte
  | enumValue _ _ flags => FieldEncoding.valueSize build ||| flags
  | enumExpression .encoding tokens flags => expressions.encoding tokens ||| flags
  | enumExpression .format tokens flags => expressions.format tokens ||| flags
  | tagByte0 tag => (build.targetEndian.toBytes 2 (expressions.tag tag).toNat).getD 0 0
  | tagByte1 tag => (build.targetEndian.toBytes 2 (expressions.tag tag).toNat).getD 1 0

/-- The metadata array of the generated code. -/
def EventInfo.metadataBytes (build : Build) (expressions : Expressions) (event : EventInfo) :
    List UInt8 :=
  event.metadata.map (MetaElement.eval build expressions)

end Tracepoints
