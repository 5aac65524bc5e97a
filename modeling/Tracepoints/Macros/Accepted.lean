import Tracepoints.Macros.EventGenerator

/-!
# What the macro accepts

An accepted declaration was read without an error, so every field has what its option requires
(`FieldParsed`), and the fields are listed in the order of a walk through structs, each in front of as
many fields as it counts (`FieldsDeclared`). `tryFromTokens_returns` says that the parser returns, and what
holds of the event that it accepts (`EventParsed`).
-/

set_option autoImplicit false
set_option relaxedAutoImplicit false

namespace Tracepoints

open Exec
open Tracepoints.Parser

/-! ### Fields -/

/-- Options whose encoding is given by an argument. -/
def FieldStrategy.hasEncodingTokens : FieldStrategy → Bool
  | rawField | rawFieldSlice | rawMeta | rawMetaSlice => true
  | _ => false

/-- Options whose field count is given by an argument. -/
def FieldStrategy.hasFieldCountTokens : FieldStrategy → Bool
  | rawStruct | rawStructSlice => true
  | _ => false

/-- What holds of a field of an option that was read without an error. -/
structure FieldParsed (option : FieldOption) (field : FieldInfo) : Prop where
  option_eq : field.option = option
  name : '\x00' ∉ field.name
  format_eq : field.formatOrFieldCountInt = option.format
  encodingTokens : option.strategy.hasEncodingTokens = false → field.encodingTokens = []
  formatTokens : option.strategy.acceptsFormat = false →
    option.strategy.hasFieldCountTokens = false → field.formatOrFieldCountExpr = []

/-- The fields of so many logical fields, in the order of the declaration: a struct is followed by the
fields that it counts. -/
inductive FieldsDeclared : List FieldInfo → ℕ → Prop
  | nil : FieldsDeclared [] 0
  | data {field : FieldInfo} {rest : List FieldInfo} {count : ℕ} (option : FieldOption)
      (hfield : FieldParsed option field) (hoption : option ∈ fieldOptions)
      (hdata : option.strategy.hasMetadata = false) (hrest : FieldsDeclared rest count) :
      FieldsDeclared (field :: rest) count
  | field {field : FieldInfo} {rest : List FieldInfo} {count : ℕ} (option : FieldOption)
      (hfield : FieldParsed option field) (hoption : option ∈ fieldOptions)
      (hmetadata : option.strategy.hasMetadata = true) (hstruct : option.strategy.wantsStruct = false)
      (hrest : FieldsDeclared rest count) : FieldsDeclared (field :: rest) (count + 1)
  | struct {field : FieldInfo} {members rest : List FieldInfo} {memberCount count : ℕ}
      (option : FieldOption) (hfield : FieldParsed option field) (hoption : option ∈ fieldOptions)
      (hstruct : option.strategy.wantsStruct = true) (hmembers : FieldsDeclared members memberCount)
      (hpos : 0 < memberCount) (hle : memberCount ≤ structFieldsMax) (hrest : FieldsDeclared rest count) :
      FieldsDeclared ({ field with formatOrFieldCountInt := UInt8.ofNat memberCount } :: (members ++ rest))
        (count + 1)

theorem FieldsDeclared.append {first second : List FieldInfo} {firstCount secondCount : ℕ}
    (h : FieldsDeclared first firstCount) (h' : FieldsDeclared second secondCount) :
    FieldsDeclared (first ++ second) (firstCount + secondCount) := by
  induction h with
  | nil => simpa using h'
  | data option hfield hoption hdata _ ih => exact .data option hfield hoption hdata ih
  | field option hfield hoption hmetadata hstruct _ ih =>
    rw [Nat.add_right_comm]
    exact .field option hfield hoption hmetadata hstruct ih
  | struct option hfield hoption hstruct hmembers hpos hle _ _ ih =>
    rw [Nat.add_right_comm, List.cons_append, List.append_assoc]
    exact .struct option hfield hoption hstruct hmembers hpos hle ih

/-! ### The arguments of a field -/

theorem fieldName_returns (field : FieldInfo) (parser : Parser) :
    Returns (fieldName field parser) fun result ↦
      Clean parser result.2 ∧
        (result.2.errors = [] → '\x00' ∉ field.name →
          ∃ name, '\x00' ∉ name ∧ result.1 = { field with name := name }) := by
  unfold fieldName
  refine Returns.ite (fun _ ↦ Returns.ok ⟨Clean.refl _, fun _ hname ↦ ⟨field.name, hname, rfl⟩⟩)
    (fun _ ↦ ?_)
  refine Returns.bind (parser.nextStringLiteral_returns (by decide) _) ?_
  rintro ⟨found, next⟩ ⟨hclean, hnone⟩
  cases found with
  | none => exact Returns.ok ⟨hclean, fun herrors ↦ absurd herrors (hnone rfl)⟩
  | some name =>
    refine Returns.ok ?_
    dsimp only
    split_ifs with hnul
    · exact ⟨hclean.trans (addError_clean _ _),
        fun herrors ↦ absurd herrors (addError_errors_ne _ _)⟩
    · exact ⟨hclean, fun _ _ ↦ ⟨name, hnul, rfl⟩⟩

section Options

variable {display : List TokenTree → List Char}

theorem fieldType_clean (inStruct : Bool) (field : FieldInfo) (parser : Parser) :
    Clean parser (fieldType display inStruct field parser).2 := by
  have hbraces (message : String) :
      Clean parser (if inStruct then parser.addError message else parser) := by
    split_ifs
    · exact addError_clean _ _
    · exact Clean.refl _
  unfold fieldType
  cases field.option.strategy
  case rawField | rawFieldSlice | rawMeta | rawMetaSlice => exact nextTokens_clean _ _ _
  case rawStruct | rawStructSlice => exact (hbraces _).trans (nextTokens_clean _ _ _)
  all_goals exact Clean.refl _

/-- The arguments that depend on the strategy keep a field well formed. -/
theorem FieldParsed.fieldType {option : FieldOption} {field : FieldInfo} (h : FieldParsed option field)
    (inStruct : Bool) (parser : Parser) :
    FieldParsed option (fieldType display inStruct field parser).1 := by
  obtain rfl := h.option_eq
  have hencoded (hstrategy : field.option.strategy.hasEncodingTokens = true)
      (tokens : List TokenTree) : FieldParsed field.option { field with encodingTokens := tokens } :=
    ⟨rfl, h.name, h.format_eq, fun hfalse ↦ absurd (hstrategy.symm.trans hfalse) (by decide),
      h.formatTokens⟩
  have hcounted (hstrategy : field.option.strategy.hasFieldCountTokens = true)
      (tokens : List TokenTree) :
      FieldParsed field.option { field with formatOrFieldCountExpr := tokens } :=
    ⟨rfl, h.name, h.format_eq, h.encodingTokens,
      fun _ hfalse ↦ absurd (hstrategy.symm.trans hfalse) (by decide)⟩
  unfold Tracepoints.fieldType
  cases hstrategy : field.option.strategy
  case rawField | rawFieldSlice | rawMeta | rawMetaSlice => exact hencoded (by rw [hstrategy]; rfl) _
  case rawStruct | rawStructSlice => exact hcounted (by rw [hstrategy]; rfl) _
  all_goals exact h

theorem fieldValue_clean (field : FieldInfo) (parser : Parser) :
    Clean parser (fieldValue field parser).2 := by
  unfold fieldValue
  split_ifs
  · exact nextTokens_clean _ _ _
  · exact Clean.refl _

theorem FieldParsed.fieldValue {option : FieldOption} {field : FieldInfo} (h : FieldParsed option field)
    (parser : Parser) : FieldParsed option (fieldValue field parser).1 := by
  unfold Tracepoints.fieldValue
  split_ifs
  · exact ⟨h.option_eq, h.name, h.format_eq, h.encodingTokens, h.formatTokens⟩
  · exact h

/-- A field option up to its value is read without an error only if the field is well formed. -/
theorem fieldStart_returns (inStruct : Bool) (option : FieldOption) (parser : Parser) :
    Returns (fieldStart display inStruct option parser) fun result ↦
      Clean parser result.2 ∧ (result.2.errors = [] → FieldParsed option result.1) := by
  unfold fieldStart
  refine Returns.bind (fieldName_returns _ parser) ?_
  rintro ⟨field, next⟩ ⟨hclean, hname⟩
  have hrest := (@fieldType_clean display inStruct field next).trans
    (fieldValue_clean (fieldType display inStruct field next).1 _)
  refine Returns.ok ⟨hclean.trans hrest, fun herrors ↦ ?_⟩
  obtain ⟨name, hnul, rfl⟩ := hname (hrest.of_nil herrors) (by simp)
  have hfield : FieldParsed option
      { option := option, name := name, valueTokens := [], encodingTokens := [],
        formatOrFieldCountExpr := [], formatOrFieldCountInt := option.format, tag := [] } :=
    ⟨rfl, hnul, rfl, fun _ ↦ rfl, fun _ _ ↦ rfl⟩
  exact (hfield.fieldType inStruct next).fieldValue _

theorem setOnce_clean (parser : Parser) (isSet : Bool) (message : String) :
    Clean parser (setOnce parser isSet message) := by
  unfold setOnce
  split_ifs
  · exact addError_clean _ _
  · exact Clean.refl _

theorem setOnce_nextTokens_clean (parser : Parser) (isSet : Bool) (constraints : ArgConstraints)
    (already message : String) :
    Clean parser ((setOnce parser isSet already).nextTokens constraints message).2 :=
  (setOnce_clean _ _ _).trans (nextTokens_clean _ _ _)

theorem fieldOption_clean (field : FieldInfo) (name : List Char) (parser : Parser) :
    Clean parser (fieldOption display field name parser).2 := by
  unfold fieldOption
  split_ifs
  · exact setOnce_nextTokens_clean _ _ _ _ _
  · exact setOnce_nextTokens_clean _ _ _ _ _
  · exact addError_clean _ _

theorem FieldParsed.fieldOption {option : FieldOption} {field : FieldInfo}
    (h : FieldParsed option field) (name : List Char) (parser : Parser) :
    FieldParsed option (fieldOption display field name parser).1 := by
  unfold Tracepoints.fieldOption
  split_ifs with htag hformat
  · exact ⟨h.option_eq, h.name, h.format_eq, h.encodingTokens, h.formatTokens⟩
  · refine ⟨h.option_eq, h.name, h.format_eq, h.encodingTokens, fun hfalse ↦ ?_⟩
    rw [← h.option_eq, hformat.2] at hfalse
    cases hfalse
  · exact h

/-! ### The options of the event -/

/-- What an option of the event that is not a field leaves alone. -/
structure EventOptionSet (parser : Parser) (state : OptionsState) (result : OptionsState × Parser) :
    Prop where
  clean : Clean parser result.2
  name_eq : result.1.event.name = state.event.name
  fields_eq : result.1.event.fields = state.event.fields
  used_eq : result.1.event.metadataBytesUsed = state.event.metadataBytesUsed
  count_eq : result.1.logicalFieldsAdded = state.logicalFieldsAdded

theorem eventOption_set (inStruct : Bool) (name : List Char) (parser : Parser) (state : OptionsState) :
    EventOptionSet parser state (eventOption display inStruct name parser state) := by
  have hunknown (message : String) : EventOptionSet parser state (state, parser.addError message) :=
    ⟨addError_clean _ _, rfl, rfl, rfl, rfl⟩
  have hset {isSet : Bool} {constraints : ArgConstraints} {already message : String} :=
    setOnce_nextTokens_clean parser isSet constraints already message
  unfold eventOption
  refine iteInduction (fun _ ↦ hunknown _) fun _ ↦ ?_
  refine iteInduction (fun _ ↦ ⟨Clean.refl _, rfl, rfl, rfl, rfl⟩) fun _ ↦ ?_
  refine iteInduction (fun _ ↦ ⟨hset.trans (nextTokens_clean _ _ _), rfl, rfl, rfl, rfl⟩) fun _ ↦ ?_
  refine iteInduction (fun _ ↦ ⟨hset, rfl, rfl, rfl, rfl⟩) fun _ ↦ ?_
  refine iteInduction (fun _ ↦ ⟨hset, rfl, rfl, rfl, rfl⟩) fun _ ↦ ?_
  refine iteInduction (fun _ ↦ ⟨hset, rfl, rfl, rfl, rfl⟩) fun _ ↦ ?_
  refine iteInduction (fun _ ↦ ⟨hset, rfl, rfl, rfl, rfl⟩) fun _ ↦ ?_
  refine iteInduction (fun _ ↦ ⟨nextTokens_clean _ _ _, rfl, rfl, rfl, rfl⟩) fun _ ↦ ?_
  refine iteInduction (fun _ ↦ ⟨hset, rfl, rfl, rfl, rfl⟩) fun _ ↦ ?_
  refine iteInduction (fun _ ↦ ⟨hset, rfl, rfl, rfl, rfl⟩) fun _ ↦ ?_
  exact iteInduction (fun _ ↦ ⟨hset, rfl, rfl, rfl, rfl⟩) fun _ ↦ hunknown _

/-! ### The estimate -/

open EventInfo

/-- The event with some fields more, and their sizes in the estimate. -/
structure Extended (event event' : EventInfo) (added : List FieldInfo) : Prop where
  name_eq : event'.name = event.name
  fields_eq : event'.fields = event.fields ++ added
  used_eq : event.metadataBytesUsed ≠ 0 →
    event'.metadataBytesUsed = event.metadataBytesUsed + (added.map estimatedSize).sum
  used_le : event.metadataBytesUsed ≤ metadataBytesMax → event'.metadataBytesUsed ≤ metadataBytesMax

theorem Extended.trans {first second third : EventInfo} {added more : List FieldInfo}
    (h : Extended first second added) (h' : Extended second third more) :
    Extended first third (added ++ more) := by
  refine ⟨h'.name_eq.trans h.name_eq, ?_, fun hused ↦ ?_, fun hle ↦ h'.used_le (h.used_le hle)⟩
  · rw [h'.fields_eq, h.fields_eq, List.append_assoc]
  · have hsecond := h.used_eq hused
    rw [h'.used_eq (by omega), hsecond, List.map_append, List.sum_append, Nat.add_assoc]

/-- The estimate grows by the size, unless there is an error. -/
theorem addEstimatedMetadata_clean (event : EventInfo) (parser : Parser) (size : ℕ) :
    Clean parser (event.addEstimatedMetadata parser size).2 ∧
      ((event.addEstimatedMetadata parser size).2.errors = [] →
        ∃ used, (event.addEstimatedMetadata parser size).1 = { event with metadataBytesUsed := used } ∧
          (event.metadataBytesUsed ≠ 0 → used = event.metadataBytesUsed + size) ∧
          (event.metadataBytesUsed ≤ metadataBytesMax → used ≤ metadataBytesMax)) := by
  unfold addEstimatedMetadata
  split_ifs with hzero hfits
  · exact ⟨Clean.refl _, fun _ ↦ ⟨_, rfl, fun hne ↦ absurd hzero hne, fun hle ↦ hle⟩⟩
  · exact ⟨Clean.refl _, fun _ ↦ ⟨_, rfl, fun _ ↦ rfl, fun hle ↦ by omega⟩⟩
  · exact ⟨addError_clean _ _, fun herrors ↦ absurd herrors (addError_errors_ne _ _)⟩

theorem pushField_clean (event : EventInfo) (parser : Parser) (field : FieldInfo) :
    Clean parser (event.pushField parser field).2 ∧
      ((event.pushField parser field).2.errors = [] →
        Extended event (event.pushField parser field).1 [field]) := by
  obtain ⟨hclean, hused⟩ := addEstimatedMetadata_clean event parser (estimatedSize field)
  refine ⟨hclean, fun herrors ↦ ?_⟩
  obtain ⟨used, hevent, heq, hle⟩ := hused herrors
  unfold pushField
  dsimp only
  rw [hevent]
  exact ⟨rfl, rfl, fun hne ↦ by simpa using heq hne, hle⟩

/-! ### The loops -/

/-- What the loop over the options of a field returns. Assumes: a field of the option. -/
structure FieldAdded (option : FieldOption) (field : FieldInfo) (event : EventInfo) (parser : Parser)
    (result : EventInfo × Parser) : Prop where
  errors : parser.errors <+: result.2.errors
  added : result.2.errors = [] → option ∈ fieldOptions → FieldParsed option field →
    ∃ fields, Extended event result.1 fields ∧
      FieldsDeclared fields (if option.strategy.hasMetadata then 1 else 0)

/-- What the loop over the options of the event returns. -/
structure OptionsAdded (inStruct : Bool) (state result : OptionsState) : Prop where
  errors : state.parser.errors <+: result.parser.errors
  added : result.parser.errors = [] →
    state.logicalFieldsAdded ≤ (if inStruct then structFieldsMax else 254) →
    ∃ fields count, Extended state.event result.event fields ∧ FieldsDeclared fields count ∧
      result.logicalFieldsAdded = state.logicalFieldsAdded + count ∧
      result.logicalFieldsAdded ≤ (if inStruct then structFieldsMax else 254)

theorem fieldCount_eq {count : ℕ} (hpos : 0 < count) (hle : count ≤ structFieldsMax) :
    UInt8.ofNat count &&& FieldFormat.valueMask = UInt8.ofNat count ∧ UInt8.ofNat count ≠ 0 := by
  have hall : ∀ index : Fin 128, index ≠ 0 →
      UInt8.ofNat index &&& FieldFormat.valueMask = UInt8.ofNat index ∧ UInt8.ofNat index ≠ 0 := by
    decide
  exact hall ⟨count, Nat.lt_succ_of_le hle⟩ (by simpa [Fin.ext_iff] using hpos.ne')

/-- A struct and its members, once they are counted. -/
theorem Extended.setFieldCount {event pushed result : EventInfo} {field : FieldInfo}
    {members : List FieldInfo} {count : ℕ}
    (h : Extended event pushed [{ field with formatOrFieldCountInt := 1 }])
    (hmembers : Extended pushed result members) (hpos : 0 < count) (hle : count ≤ structFieldsMax) :
    Extended event (result.setFieldCount event.fields.length count)
      ({ field with formatOrFieldCountInt := UInt8.ofNat count } :: members) := by
  obtain ⟨hmask, hne⟩ := fieldCount_eq hpos hle
  have hboth := h.trans hmembers
  refine ⟨hboth.name_eq, ?_, fun hused ↦ ?_, hboth.used_le⟩
  · unfold EventInfo.setFieldCount
    dsimp only
    rw [hboth.fields_eq, List.modify_eq_take_drop]
    simp [hmask]
  · have hsum := hboth.used_eq hused
    unfold EventInfo.setFieldCount
    dsimp only
    rw [hsum]
    simp [estimatedSize, hne]

/-- The loop over the options of a field returns with this number of rounds. -/
def FieldLoopReturns (display : List TokenTree → List Char) (fuel : ℕ) : Prop :=
  ∀ (option : FieldOption) (field : FieldInfo) (parser : Parser) (event : EventInfo),
    TokenTree.weights parser.tokens < fuel →
      Returns (fieldLoop display fuel field parser event) (FieldAdded option field event parser)

/-- The loop over the options of the event returns with this number of rounds. -/
def OptionsLoopReturns (display : List TokenTree → List Char) (fuel : ℕ) : Prop :=
  ∀ (inStruct : Bool) (state : OptionsState), TokenTree.weights state.parser.tokens < fuel →
    Returns (optionsLoop display inStruct fuel state) (OptionsAdded inStruct state)

/-- One round of the loop over the options of a field. -/
theorem fieldLoop_returns {fuel : ℕ} {option : FieldOption} {field : FieldInfo} {parser : Parser}
    {event : EventInfo}
    (ihField : FieldLoopReturns display fuel) (ihOptions : OptionsLoopReturns display fuel)
    (hfuel : TokenTree.weights parser.tokens < fuel + 1) :
    Returns (fieldLoop display (fuel + 1) field parser event)
      (FieldAdded option field event parser) := by
  rw [fieldLoop]
  refine Returns.bind (parser.nextArg_returns _) ?_
  rintro ⟨arg, next⟩ htaken
  cases arg with
  | none =>
    obtain ⟨hclean, hpushed⟩ := pushField_clean event next field
    refine Returns.ok ⟨htaken.clean.errors.trans hclean.errors, fun herrors hmem hfield ↦ ?_⟩
    have hstruct : option.strategy.wantsStruct = false := by
      by_contra hwants
      rw [← hfield.option_eq] at hwants
      exact htaken.missing rfl (by simpa using hwants) (hclean.of_nil herrors)
    refine ⟨[field], hpushed herrors, ?_⟩
    cases hmetadata : option.strategy.hasMetadata with
    | false => exact .data option hfield hmem hmetadata .nil
    | true => exact .field option hfield hmem hmetadata hstruct .nil
  | struct tokens =>
    have hweights := htaken.weights (by simp)
    obtain ⟨hclean, hpushed⟩ := pushField_clean event (next.fromGroup tokens)
      { field with formatOrFieldCountInt := 1 }
    have hpushedWeights := hclean.weights
    dsimp only
    refine Returns.bind (ihOptions true _ ?_) fun result hresult ↦ ?_
    · simp only [ArgResult.tokens, fromGroup] at hweights hpushedWeights
      dsimp only [fromGroup]
      omega
    have hcount : Clean result.parser (if result.logicalFieldsAdded = 0 then
        result.parser.addError "struct must have at least 1 field" else result.parser) := by
      split_ifs
      · exact addError_clean _ _
      · exact Clean.refl _
    have herrorsPushed : parser.errors <+: result.parser.errors :=
      htaken.clean.errors.trans (hclean.errors.trans hresult.errors)
    refine Returns.ok ⟨herrorsPushed.trans hcount.errors, fun herrors hmem hfield ↦ ?_⟩
    have hwants : option.strategy.wantsStruct = true := by
      rw [← hfield.option_eq]
      exact htaken.wanted tokens rfl
    have hmetadata : option.strategy.hasMetadata = true := by
      revert hwants
      cases option.strategy <;> decide
    have hresultErrors : result.parser.errors = [] := hcount.of_nil herrors
    have hpushedErrors := List.prefix_nil.mp (hresultErrors ▸ hresult.errors)
    obtain ⟨members, count, hextended, hdeclares, heq, hle⟩ :=
      hresult.added hresultErrors (Nat.zero_le _)
    simp only [if_true, Nat.zero_add] at heq hle
    have hpos : 0 < count := by
      rcases Nat.eq_zero_or_pos count with hzero | hpos
      · rw [heq, hzero] at herrors
        exact absurd herrors (addError_errors_ne _ _)
      · exact hpos
    rw [heq] at hle ⊢
    refine ⟨_, (hpushed hpushedErrors).setFieldCount hextended hpos hle, ?_⟩
    rw [hmetadata, if_pos rfl]
    have hstruct := FieldsDeclared.struct option hfield hmem hwants hdeclares hpos hle .nil
    rwa [List.append_nil] at hstruct
  | option name tokens =>
    have hweights := htaken.weights (by simp)
    have hclean := @fieldOption_clean display field name (next.fromGroup tokens)
    refine (ihField option _ (next.resume _) event ?_).mono fun result hresult ↦ ?_
    · simp only [ArgResult.tokens] at hweights
      dsimp only [resume]
      omega
    · refine ⟨htaken.clean.errors.trans (hclean.errors.trans hresult.errors), ?_⟩
      intro herrors hmem hfield
      exact hresult.added herrors hmem (hfield.fieldOption name _)

theorem countField_clean (inStruct : Bool) (option : FieldOption) (count : ℕ) (parser : Parser) :
    Clean parser (countField inStruct option count parser).2 := by
  unfold countField
  split_ifs
  · exact addError_clean _ _
  · exact addError_clean _ _
  · exact Clean.refl _
  · exact Clean.refl _

/-- Below the limit a field is counted, unless there is an error. -/
theorem countField_eq {inStruct : Bool} {option : FieldOption} {count : ℕ} {parser : Parser}
    (herrors : (countField inStruct option count parser).2.errors = [])
    (hle : count ≤ if inStruct then structFieldsMax else 254) :
    (countField inStruct option count parser).1 =
        count + (if option.strategy.hasMetadata then 1 else 0) ∧
      (countField inStruct option count parser).1 ≤ if inStruct then structFieldsMax else 254 := by
  unfold countField at herrors ⊢
  unfold structFieldsMax at *
  cases hmetadata : option.strategy.hasMetadata
  · simpa using hle
  · rw [hmetadata, if_pos rfl] at herrors
    cases inStruct
    · simp only [Bool.false_eq_true, false_and, if_false, not_false_eq_true, true_and] at herrors hle ⊢
      split_ifs at herrors with hlimit
      · exact absurd herrors (addError_errors_ne _ _)
      · simp only [if_true]
        omega
    · simp only [true_and, if_true, not_true_eq_false, false_and, if_false] at herrors hle ⊢
      split_ifs at herrors with hlimit
      · exact absurd herrors (addError_errors_ne _ _)
      · omega

/-- One round of the loop over the options of the event. -/
theorem optionsLoop_returns {fuel : ℕ} {inStruct : Bool} {state : OptionsState}
    (ihField : FieldLoopReturns display fuel) (ihOptions : OptionsLoopReturns display fuel)
    (hfuel : TokenTree.weights state.parser.tokens < fuel + 1) :
    Returns (optionsLoop display inStruct (fuel + 1) state) (OptionsAdded inStruct state) := by
  rw [optionsLoop]
  refine Returns.bind (state.parser.nextArg_returns _) ?_
  rintro ⟨arg, next⟩ htaken
  have hdone : OptionsAdded inStruct state { state with parser := next } :=
    ⟨htaken.clean.errors, fun _ hle ↦ ⟨[], 0, ⟨rfl, by simp, fun _ ↦ by simp, fun h ↦ h⟩, .nil, rfl, hle⟩⟩
  cases arg with
  | none => exact Returns.ok hdone
  | struct tokens => exact Returns.ok hdone
  | option name tokens =>
    have hweights := htaken.weights (by simp)
    simp only [ArgResult.tokens] at hweights
    dsimp only
    cases hfind : findFieldOption name with
    | none =>
      obtain ⟨hclean, hname, hfields, hused, hcount⟩ :=
        @eventOption_set display inStruct name (next.fromGroup tokens) state
      dsimp only
      refine (ihOptions inStruct _ ?_).mono fun result hresult ↦ ?_
      · dsimp only [resume]
        omega
      · refine ⟨htaken.clean.errors.trans (hclean.errors.trans hresult.errors), fun herrors hle ↦ ?_⟩
        obtain ⟨fields, count, hextended, hdeclares, heq, hresultLe⟩ :=
          hresult.added herrors (by rwa [hcount])
        refine ⟨fields, count, ?_, hdeclares, heq.trans (by rw [hcount]), hresultLe⟩
        refine ⟨hextended.name_eq.trans hname, ?_, fun hne ↦ ?_, fun hle ↦ ?_⟩
        · rw [hextended.fields_eq, hfields]
        · rw [hextended.used_eq (by rwa [hused]), hused]
        · exact hextended.used_le (by rwa [hused])
    | some option =>
      have hmem := mem_of_findFieldOption hfind
      dsimp only
      refine Returns.bind (fieldStart_returns inStruct option _) ?_
      rintro ⟨field, optionParser⟩ ⟨hstart, hparsed⟩
      have hstartWeights := hstart.weights
      dsimp only [fromGroup] at hstartWeights
      refine Returns.bind (ihField option field optionParser state.event (by omega)) ?_
      rintro ⟨event, pushedParser⟩ hpushed
      have hcounted := countField_clean inStruct option state.logicalFieldsAdded pushedParser
      dsimp only
      refine (ihOptions inStruct _ ?_).mono fun result hresult ↦ ?_
      · dsimp only [resume]
        omega
      · refine ⟨htaken.clean.errors.trans (hstart.errors.trans (hpushed.errors.trans
          (hcounted.errors.trans hresult.errors))), fun herrors hle ↦ ?_⟩
        have hcountedErrors := List.prefix_nil.mp (herrors ▸ hresult.errors)
        dsimp only [resume] at hcountedErrors
        have hpushedErrors := hcounted.of_nil hcountedErrors
        have hstartErrors := List.prefix_nil.mp (hpushedErrors ▸ hpushed.errors)
        obtain ⟨hcountEq, hcountLe⟩ := countField_eq hcountedErrors hle
        obtain ⟨fields, hextended, hdeclares⟩ := hpushed.added hpushedErrors hmem (hparsed hstartErrors)
        obtain ⟨more, count, hmore, hmoreDeclares, heq, hresultLe⟩ := hresult.added herrors hcountLe
        refine ⟨fields ++ more, _, hextended.trans hmore, hdeclares.append hmoreDeclares, ?_,
          hresultLe⟩
        rw [heq]
        dsimp only
        rw [hcountEq, Nat.add_assoc]

theorem loops_return (fuel : ℕ) :
    FieldLoopReturns display fuel ∧ OptionsLoopReturns display fuel := by
  induction fuel with
  | zero =>
    exact ⟨fun _ _ _ _ hlt ↦ absurd hlt (Nat.not_lt_zero _),
      fun _ _ hlt ↦ absurd hlt (Nat.not_lt_zero _)⟩
  | succ fuel ih =>
    exact ⟨fun _ _ _ _ hfuel ↦ fieldLoop_returns ih.1 ih.2 hfuel,
      fun _ _ hfuel ↦ optionsLoop_returns ih.1 ih.2 hfuel⟩

/-! ### The whole declaration -/

/-- What holds of an event that was accepted. -/
structure EventParsed (event : EventInfo) : Prop where
  name : '\x00' ∉ event.name
  declares : ∃ count ≤ 254, FieldsDeclared event.fields count
  used_eq : event.metadataBytesUsed =
    1 + ((utf8 event.name).length + 1) + (event.fields.map estimatedSize).sum
  used_le : event.metadataBytesUsed ≤ metadataBytesMax

/-- What holds of an event behind its name. -/
structure HeadParsed (event : EventInfo) : Prop where
  name : '\x00' ∉ event.name
  fields_eq : event.fields = []
  used_eq : event.metadataBytesUsed = 1 + ((utf8 event.name).length + 1)
  used_le : event.metadataBytesUsed ≤ metadataBytesMax

theorem setName_parsed {event : EventInfo} (name : List Char) (parser : Parser)
    (hfields : event.fields = []) (hused : event.metadataBytesUsed = 1)
    (herrors : (event.setName name parser).2.errors = []) :
    HeadParsed (event.setName name parser).1 := by
  obtain ⟨-, hestimate⟩ :=
    addEstimatedMetadata_clean { event with name := name } parser ((utf8 name).length + 1)
  unfold EventInfo.setName at herrors ⊢
  dsimp only at herrors ⊢
  split_ifs at herrors with hnul
  · exact absurd herrors (addError_errors_ne _ _)
  · obtain ⟨used, hevent, heq, hle⟩ := hestimate herrors
    rw [hevent]
    refine ⟨hnul, hfields, ?_, hle ?_⟩
    · simpa [hused] using heq
    · dsimp only
      rw [hused]
      decide

theorem eventHead_returns (parser : Parser) :
    Returns (eventHead parser) fun result ↦ result.2.errors = [] → HeadParsed result.1 := by
  unfold eventHead
  refine Returns.bind (nextStringLiteral_returns _ (by decide) _) ?_
  rintro ⟨found, next⟩ ⟨-, hnone⟩
  cases found with
  | none => exact Returns.ok fun herrors ↦ absurd herrors (hnone rfl)
  | some name => exact Returns.ok (setName_parsed name next rfl rfl)

/-- The parser of the macro returns, and an event that it accepts is well formed. -/
theorem tryFromTokens_returns (argTokens : List TokenTree) :
    Returns (tryFromTokens display argTokens) fun result ↦
      ∀ event, result = .ok event → EventParsed event := by
  unfold tryFromTokens
  refine Returns.bind (eventHead_returns _) ?_
  rintro ⟨event, parser⟩ hhead
  dsimp only
  refine Returns.bind ((loops_return _).2 false ⟨event, parser, 0, false, false⟩ (Nat.lt_succ_self _))
    fun state hstate ↦ Returns.ok ?_
  intro accepted haccepted
  split_ifs at haccepted with hempty
  have herrors := List.isEmpty_iff.mp hempty
  obtain ⟨hname, hfields, hused, hle⟩ := hhead (List.prefix_nil.mp (herrors ▸ hstate.errors))
  dsimp only at hname hfields hused hle
  obtain ⟨fields, count, hextended, hdeclares, heq, hcount⟩ := hstate.added herrors (Nat.zero_le _)
  obtain rfl := Except.ok.inj haccepted
  have hall : state.event.fields = fields := by
    rw [hextended.fields_eq, hfields, List.nil_append]
  refine ⟨?_, ⟨count, ?_, ?_⟩, ?_, hextended.used_le hle⟩
  · change '\x00' ∉ state.event.name
    rw [hextended.name_eq]
    exact hname
  · simpa [heq] using hcount
  · change FieldsDeclared state.event.fields count
    rwa [hall]
  · change state.event.metadataBytesUsed = 1 + ((utf8 state.event.name).length + 1) +
      (state.event.fields.map estimatedSize).sum
    rw [hextended.used_eq (by dsimp only; omega), hused, hextended.name_eq, hall]

end Options

end Tracepoints
