import Tracepoints.Macros.FieldOptions
import Tracepoints.Macros.Parser

/-!
# The event that a macro declares

`EventInfo::try_from_tokens` of `eventheader_macros/src/event_info.rs`: provider symbol, event name and
options of `write_event!`, the fields among them with the fields of structs nested in braces. Every field
that is pushed adds to an estimate of the size of the metadata.

The text of a token stream is a parameter (`display`): it decides whether the value of an enumeration is
a number, a known name or something else.
-/

set_option autoImplicit false
set_option relaxedAutoImplicit false

namespace Tracepoints

open Exec

/-! ### Generated paths -/

/-- `Tree::add_path`. -/
def pathTokens (parts : List String) : List TokenTree :=
  parts.flatMap fun part ↦ [.punct ':', .punct ':', .ident part.toList]

/-- `Tree::add_path_call`. -/
def pathCallTokens (parts : List String) (tokens : List TokenTree) : List TokenTree :=
  pathTokens parts ++ [.group .parenthesis tokens]

/-- `LEVEL_ENUMS`. -/
def levelEnums : List String := ["CriticalError", "Error", "Informational", "Verbose", "Warning"]

/-- `OPCODE_ENUMS`. -/
def opcodeEnums : List String :=
  ["ActivityStart", "ActivityStop", "CollectionStart", "CollectionStop", "Extension", "Info",
    "Receive", "Reply", "Resume", "Send", "Suspend"]

/-- `ENCODING_ENUMS`. -/
def encodingEnums : List String :=
  ["Invalid", "StringLength16Char16", "StringLength16Char32", "StringLength16Char8", "Struct",
    "Value128", "Value16", "Value32", "Value64", "Value8", "ValueSize", "ZStringChar16",
    "ZStringChar32", "ZStringChar8"]

/-- `FORMAT_ENUMS`. -/
def formatEnums : List String :=
  ["Boolean", "Default", "Errno", "Float", "HexBytes", "HexInt", "IPv4", "IPv6", "Pid", "Port",
    "SignedInt", "String8", "StringJson", "StringUtf", "StringUtfBom", "StringXml", "Time",
    "UnsignedInt", "Uuid"]

/-- `expected_enum_message`. -/
def expectedEnumMessage (enumName suggestedStringValue suggestedIntegerValue : String) : String :=
  "expected " ++ enumName ++ " value, e.g. " ++ suggestedStringValue ++ ", tracelogging::" ++
    enumName ++ "::" ++ suggestedStringValue ++ ", or " ++ suggestedIntegerValue

/-- `filter_enum_tokens`. -/
def filterEnumTokens (display : List TokenTree → List Char) (tokens : List TokenTree)
    (enumName : String) (knownValues : List String) : List TokenTree :=
  let str := display tokens
  if str.head?.any Char.isDigit then pathCallTokens ["eventheader", enumName, "from_int"] tokens
  else if str ∈ knownValues.map String.toList then
    pathTokens ["eventheader", enumName, String.ofList str]
  else tokens

/-! ### Fields -/

/-- `FieldInfo`; an expression is its tokens. -/
structure FieldInfo where
  option : FieldOption
  name : List Char
  valueTokens : List TokenTree
  encodingTokens : List TokenTree
  formatOrFieldCountExpr : List TokenTree
  formatOrFieldCountInt : UInt8
  tag : List TokenTree

/-- `EventInfo`. -/
structure EventInfo where
  providerSymbol : List Char
  name : List Char
  idTokens : List TokenTree
  versionTokens : List TokenTree
  opcodeTokens : List TokenTree
  level : List TokenTree
  keywords : List (List TokenTree)
  tag : List TokenTree
  activityId : List TokenTree
  relatedId : List TokenTree
  fields : List FieldInfo
  debug : Bool
  metadataBytesUsed : ℕ

/-- `METADATA_BYTES_MAX`. -/
def metadataBytesMax : ℕ := 65535

/-- `STRUCT_FIELDS_MAX`. -/
def structFieldsMax : ℕ := 127

namespace EventInfo

/-- `add_estimated_metadata`. -/
def addEstimatedMetadata (event : EventInfo) (parser : Parser) (size : ℕ) : EventInfo × Parser :=
  if event.metadataBytesUsed = 0 then (event, parser)
  else if size ≤ metadataBytesMax - event.metadataBytesUsed then
    ({ event with metadataBytesUsed := event.metadataBytesUsed + size }, parser)
  else
    ({ event with metadataBytesUsed := 0 },
      parser.addError "event metadata is too large (includes event name string, field name strings, and field type codes; limit is 65535 bytes)")

/-- The size of the metadata of a field in the estimate of `push_field`. -/
def estimatedSize (field : FieldInfo) : ℕ :=
  (utf8 field.name).length + 1 +
    if ¬field.tag.isEmpty then 4
    else if field.formatOrFieldCountInt ≠ 0 then 2
    else 1

/-- `push_field`. -/
def pushField (event : EventInfo) (parser : Parser) (field : FieldInfo) : EventInfo × Parser :=
  let (event, parser) := event.addEstimatedMetadata parser (estimatedSize field)
  ({ event with fields := event.fields ++ [field] }, parser)

end EventInfo

namespace FieldStrategy

/-- `field_accepts_tag`. -/
def acceptsTag : FieldStrategy → Bool
  | rawData => false
  | _ => true

/-- `field_accepts_format`. -/
def acceptsFormat : FieldStrategy → Bool
  | scalar | systemTime | cStr | str | slice => true
  | rawField | rawFieldSlice | rawMeta | rawMetaSlice => true
  | struct | rawStruct | rawStructSlice | rawData => false

/-- `field_wants_struct`. -/
def wantsStruct : FieldStrategy → Bool
  | struct => true
  | _ => false

end FieldStrategy

section Options

variable (display : List TokenTree → List Char)

/-- The field name of a field option. -/
def fieldName (field : FieldInfo) (parser : Parser) : Exec (FieldInfo × Parser) :=
  if ¬field.option.strategy.hasMetadata then .ok (field, parser)
  else do
    match ← parser.nextStringLiteral .requiredNotLast
        "expected field name (must be a string literal, e.g. \"field name\")" with
    | (some name, parser) =>
      .ok ({ field with name := name },
        if '\x00' ∈ name then parser.addError "field name must not contain '\\0'" else parser)
    | (none, parser) => .ok (field, parser)

/-- The arguments that depend on the strategy of a field option. -/
def fieldType (inStruct : Bool) (field : FieldInfo) (parser : Parser) : FieldInfo × Parser :=
  match field.option.strategy with
  | .scalar | .systemTime | .cStr | .str | .slice | .struct | .rawData => (field, parser)
  | .rawField | .rawFieldSlice | .rawMeta | .rawMetaSlice =>
    let (tokens, parser) := parser.nextTokens .required
      (expectedEnumMessage "FieldEncoding" "Value32" "4")
    ({ field with encodingTokens := filterEnumTokens display tokens "FieldEncoding" encodingEnums },
      parser)
  | .rawStruct | .rawStructSlice =>
    let parser :=
      if inStruct then parser.addError "RawStruct not allowed within Struct" else parser
    let (tokens, parser) := parser.nextTokens .required "expected struct field count value, e.g. 2"
    ({ field with
        formatOrFieldCountExpr := pathCallTokens ["eventheader", "FieldFormat", "from_int"] tokens },
      parser)

/-- The value of a field option. -/
def fieldValue (field : FieldInfo) (parser : Parser) : FieldInfo × Parser :=
  if field.option.strategy.dataCount ≠ 0 then
    let (tokens, parser) := parser.nextTokens .required "expected field value"
    ({ field with valueTokens := tokens }, parser)
  else (field, parser)

/-- A field option up to its value. -/
def fieldStart (inStruct : Bool) (option : FieldOption) (parser : Parser) :
    Exec (FieldInfo × Parser) := do
  let (field, parser) ← fieldName
    { option := option
      name := []
      valueTokens := []
      encodingTokens := []
      formatOrFieldCountExpr := []
      formatOrFieldCountInt := option.format
      tag := [] } parser
  let (field, parser) := fieldType display inStruct field parser
  .ok (fieldValue field parser)

/-- The error of an option that is set twice. -/
def setOnce (parser : Parser) (isSet : Bool) (message : String) : Parser :=
  if isSet then parser.addError message else parser

/-- An option of a field: its tag or its format. -/
def fieldOption (field : FieldInfo) (name : List Char) (parser : Parser) : FieldInfo × Parser :=
  if name = "tag".toList ∧ field.option.strategy.acceptsTag then
    let (tokens, parser) := (setOnce parser (!field.tag.isEmpty) "tag already set").nextTokens
      .requiredLast "expected Tag value, e.g. 1 or 0xFFFF"
    ({ field with tag := tokens }, parser)
  else if name = "format".toList ∧ field.option.strategy.acceptsFormat then
    let (tokens, parser) :=
      (setOnce parser (!field.formatOrFieldCountExpr.isEmpty) "format already set").nextTokens
        .requiredLast (expectedEnumMessage "FieldFormat" "String" "2")
    ({ field with
        formatOrFieldCountExpr := filterEnumTokens display tokens "FieldFormat" formatEnums },
      parser)
  else (field, parser.addError "unrecognized option")

/-! ### Options of the event -/

/-- The state of the loop of `parse_event_options`. -/
structure OptionsState where
  event : EventInfo
  parser : Parser
  logicalFieldsAdded : ℕ
  channelSet : Bool
  taskSet : Bool

/-- An option of the event that is not a field, with the parser of its arguments. -/
def eventOption (inStruct : Bool) (name : List Char) (parser : Parser) (state : OptionsState) :
    OptionsState × Parser :=
  let event := state.event
  if inStruct then (state, parser.addError "unrecognized option")
  else if name = "debug".toList then ({ state with event := { event with debug := true } }, parser)
  else if name = "id_version".toList then
    let (idTokens, parser) :=
      (setOnce parser (!event.idTokens.isEmpty) "id_version already set").nextTokens
        .requiredNotLast "expected Id value, e.g. 1 or 0x200F"
    let (versionTokens, parser) := parser.nextTokens .requiredLast
      "expected Version value, e.g. 0 or 0x1F"
    ({ state with event := { event with idTokens := idTokens, versionTokens := versionTokens } },
      parser)
  else if name = "channel".toList then
    let (_, parser) := (setOnce parser state.channelSet "channel already set").nextTokens
      .requiredLast (expectedEnumMessage "Channel" "TraceLogging" "11")
    ({ state with channelSet := true }, parser)
  else if name = "level".toList then
    let (tokens, parser) := (setOnce parser (!event.level.isEmpty) "level already set").nextTokens
      .requiredLast (expectedEnumMessage "Level" "Verbose" "5")
    ({ state with
        event := { event with level := filterEnumTokens display tokens "Level" levelEnums } }, parser)
  else if name = "opcode".toList then
    let (tokens, parser) :=
      (setOnce parser (!event.opcodeTokens.isEmpty) "opcode already set").nextTokens
        .requiredLast (expectedEnumMessage "Opcode" "Info" "0")
    ({ state with
        event :=
          { event with opcodeTokens := filterEnumTokens display tokens "Opcode" opcodeEnums } },
      parser)
  else if name = "task".toList then
    let (_, parser) := (setOnce parser state.taskSet "task already set").nextTokens
      .requiredLast "expected Task value, e.g. 1 or 0x2001"
    ({ state with taskSet := true }, parser)
  else if name = "keyword".toList then
    let (tokens, parser) := parser.nextTokens .requiredLast "expected Keyword value, e.g. 0x100F"
    ({ state with event := { event with keywords := event.keywords ++ [tokens] } }, parser)
  else if name = "tag".toList then
    let (tokens, parser) := (setOnce parser (!event.tag.isEmpty) "tag already set").nextTokens
      .requiredLast "expected Tag value, e.g. 1 or 0xFFFF"
    ({ state with event := { event with tag := tokens } }, parser)
  else if name = "activity_id".toList then
    let (tokens, parser) :=
      (setOnce parser (!event.activityId.isEmpty) "activity_id already set").nextTokens
        .requiredLast "expected Activity Id variable"
    ({ state with event := { event with activityId := tokens } }, parser)
  else if name = "related_id".toList then
    let (tokens, parser) :=
      (setOnce parser (!event.relatedId.isEmpty) "related_id already set").nextTokens
        .requiredLast "expected Related Id variable"
    ({ state with event := { event with relatedId := tokens } }, parser)
  else (state, parser.addError "unrecognized option")

/-- The count of the fields behind a field option, with the limits of a struct and of the event. -/
def countField (inStruct : Bool) (option : FieldOption) (logicalFieldsAdded : ℕ) (parser : Parser) :
    ℕ × Parser :=
  if option.strategy.hasMetadata then
    (min 255 (logicalFieldsAdded + 1),
      if inStruct ∧ logicalFieldsAdded = structFieldsMax then
        parser.addError "too many fields in struct (limit 127)"
      else if ¬inStruct ∧ logicalFieldsAdded = 254 then
        parser.addError "too many fields in event (limit 254)"
      else parser)
  else (logicalFieldsAdded, parser)

/-- The field count of a struct, once its fields are parsed. -/
def EventInfo.setFieldCount (event : EventInfo) (structIndex fieldCount : ℕ) : EventInfo :=
  { event with
    fields := event.fields.modify structIndex fun field ↦
      { field with
        formatOrFieldCountInt := UInt8.ofNat fieldCount &&& FieldFormat.valueMask } }

mutual

/-- The loop over the options of a field, which ends by pushing the field: at the end of the options, or
at the braces of a struct with the fields inside. -/
def fieldLoop : ℕ → FieldInfo → Parser → EventInfo → Exec (EventInfo × Parser)
  | 0, _, _, _ => .error .unfinished
  | fuel + 1, field, optionParser, event => do
    match ← optionParser.nextArg field.option.strategy.wantsStruct with
    | (.none, optionParser) => .ok (event.pushField optionParser field)
    | (.struct tokens, optionParser) =>
      let structIndex := event.fields.length
      let (event, structParser) :=
        event.pushField (optionParser.fromGroup tokens) { field with formatOrFieldCountInt := 1 }
      let state ← optionsLoop true fuel ⟨event, structParser, 0, false, false⟩
      let structParser :=
        if state.logicalFieldsAdded = 0 then
          state.parser.addError "struct must have at least 1 field"
        else state.parser
      .ok (state.event.setFieldCount structIndex state.logicalFieldsAdded,
        optionParser.resume structParser)
    | (.option name tokens, optionParser) =>
      let (field, fieldOptionParser) := fieldOption display field name (optionParser.fromGroup tokens)
      fieldLoop fuel field (optionParser.resume fieldOptionParser) event

/-- The loop of `parse_event_options`. -/
def optionsLoop (inStruct : Bool) : ℕ → OptionsState → Exec OptionsState
  | 0, _ => .error .unfinished
  | fuel + 1, state => do
    match ← state.parser.nextArg false with
    | (.none, parser) => .ok { state with parser := parser }
    | (.struct _, parser) => .ok { state with parser := parser }
    | (.option name tokens, parser) =>
      match findFieldOption name with
      | some option => do
        let (field, optionParser) ← fieldStart display inStruct option (parser.fromGroup tokens)
        let (event, optionParser) ← fieldLoop fuel field optionParser state.event
        let (logicalFieldsAdded, optionParser) :=
          countField inStruct option state.logicalFieldsAdded optionParser
        optionsLoop inStruct fuel
          { state with
            event := event
            parser := parser.resume optionParser
            logicalFieldsAdded := logicalFieldsAdded }
      | none =>
        let (state, optionParser) :=
          eventOption display inStruct name (parser.fromGroup tokens) state
        optionsLoop inStruct fuel { state with parser := parser.resume optionParser }

end

/-! ### The whole declaration -/

/-- The defaults that `try_from_tokens` gives to options that are not set. -/
def EventInfo.setDefaults (event : EventInfo) : EventInfo :=
  let literal (text : String) : List TokenTree := [.literal text.toList]
  { event with
    idTokens := if event.idTokens.isEmpty then literal "0" else event.idTokens
    versionTokens := if event.versionTokens.isEmpty then literal "0" else event.versionTokens
    level :=
      if event.level.isEmpty then pathTokens ["eventheader", "Level", "Verbose"] else event.level
    opcodeTokens :=
      if event.opcodeTokens.isEmpty then pathTokens ["eventheader", "Opcode", "Info"]
      else event.opcodeTokens
    keywords := if event.keywords.isEmpty then [literal "1u64"] else event.keywords
    tag := if event.tag.isEmpty then literal "0" else event.tag }

/-- The event before any argument is read. -/
def EventInfo.initial : EventInfo where
  providerSymbol := "x".toList
  name := []
  idTokens := []
  versionTokens := []
  opcodeTokens := []
  level := []
  keywords := []
  tag := []
  activityId := []
  relatedId := []
  fields := []
  debug := false
  metadataBytesUsed := 1

/-- The event name, once it is read. -/
def EventInfo.setName (event : EventInfo) (eventName : List Char) (parser : Parser) :
    EventInfo × Parser :=
  let (event, parser) :=
    { event with name := eventName }.addEstimatedMetadata parser ((utf8 eventName).length + 1)
  (event, if '\x00' ∈ eventName then parser.addError "event name must not contain '\\0'" else parser)

/-- The provider symbol and the event name. -/
def eventHead (parser : Parser) : Exec (EventInfo × Parser) := do
  let (ident, parser) := parser.nextIdent .requiredNotLast
    "expected identifier for provider symbol, e.g. MY_PROVIDER"
  let event := { EventInfo.initial with providerSymbol := ident.getD "x".toList }
  match ← parser.nextStringLiteral .required
      "expected string literal for event name, e.g. write_event!(PROVIDER, \"EventName\", ...)" with
  | (some eventName, parser) => .ok (event.setName eventName parser)
  | (none, parser) => .ok (event, parser)

/-- `try_from_tokens`: the event, or the messages of the errors. -/
def tryFromTokens (argTokens : List TokenTree) : Exec (Except (List String) EventInfo) := do
  let (event, parser) ← eventHead ⟨argTokens, []⟩
  let state ← optionsLoop display false (TokenTree.weights parser.tokens + 1)
    ⟨event, parser, 0, false, false⟩
  let event := state.event.setDefaults
  .ok (if state.parser.errors.isEmpty then .ok event else .error state.parser.errors)

end Options

end Tracepoints
