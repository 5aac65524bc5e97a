import Tracepoints.Enumerator.Encoded

/-!
# Reading written fields

The enumerator shows the fields of an event as they were written. `FieldForest.items` lists what it is to
show, and `Shows` is a run of moves with the items that they show. A value is shown (`shows_scalar`) and an
array with its elements (`shows_array`) where their bytes are placed.

Between two fields the enumerator is in one of several states, from which the next move first leaves the
current item and then looks for the next property. `Leads` says that a move from a context does what
`next_property` does from another one; `Advanced` says how far the second has come.
-/

set_option autoImplicit false
set_option relaxedAutoImplicit false

namespace Tracepoints

open Exec EventHeaderEnumeratorContext

/-! ### Items -/

/-- What an enumerator shows of an item: its state, its name, its bytes and its metadata. -/
structure ShownItem where
  state : EventHeaderEnumeratorState
  name : List UInt8
  bytes : List UInt8
  metadata : PerfItemMetadata
  deriving DecidableEq, Repr

/-- The item that an enumerator shows, by `item_info` and `name_bytes`. -/
def shownItem (build : Build) (data : List UInt8) (c : EventHeaderEnumeratorContext) :
    Exec ShownItem := do
  let info ← itemInfo build data c
  let name ← info.nameBytes data
  .ok ⟨c.state, name, info.bytes, info.metadata⟩

/-- A run of moves, with the items that they show. -/
inductive Shows (build : Build) (data : List UInt8) :
    EventHeaderEnumeratorContext → List ShownItem → EventHeaderEnumeratorContext → Prop
  | nil (c : EventHeaderEnumeratorContext) : Shows build data c [] c
  | cons {c next last : EventHeaderEnumeratorContext} {item : ShownItem} {items : List ShownItem}
      (hmove : moveNextImpl build data c = .ok (true, next))
      (hshown : shownItem build data next = .ok item) (hrest : Shows build data next items last) :
      Shows build data c (item :: items) last

theorem Shows.append {build : Build} {data : List UInt8} {first second third : EventHeaderEnumeratorContext}
    {items more : List ShownItem} (h : Shows build data first items second)
    (h' : Shows build data second more third) : Shows build data first (items ++ more) third := by
  induction h with
  | nil => exact h'
  | cons hmove hshown _ ih => exact .cons hmove hshown (ih h')

/-- The size of the values of an encoding, zero if they differ in size. -/
def encodingSize (encoding : FieldEncoding) : ℕ :=
  match arrayElementSize encoding with
  | .ok size => size
  | .error _ => 0

namespace FieldDecl

variable (order : ByteOrder) (decl : FieldDecl)

/-- An item of a field. -/
def item (state : EventHeaderEnumeratorState) (isScalar : Bool) (typeSize elementCount : ℕ)
    (bytes : List UInt8) : ShownItem where
  state := state
  name := decl.name
  bytes := bytes
  metadata :=
    { elementCount := elementCount
      fieldTag := decl.fieldType.tag
      typeSize := typeSize
      encodingAndArrayFlagAndIsScalar :=
        decl.fieldType.encoding ||| (if isScalar then FieldEncoding.chainFlag else 0)
      format := decl.fieldType.format
      byteReader := order }

/-- The size of the values of a field. -/
def typeSize : ℕ := encodingSize (FieldEncoding.withoutFlags decl.fieldType.encoding)

/-- A value, alone or in an array. -/
def valueItem (value : EncodedValue) : ShownItem :=
  decl.item order .value true decl.typeSize 1 value.cooked

/-- The bytes that the begin of an array shows: all of them if its values have one size. -/
def arrayBytes (elements : List EncodedValue) : List UInt8 :=
  if decl.typeSize = 0 then [] else elements.flatMap EncodedValue.raw

/-- The begin of an array. -/
def arrayBeginItem (elements : List EncodedValue) : ShownItem :=
  decl.item order .arrayBegin false decl.typeSize elements.length (decl.arrayBytes elements)

/-- The end of an array. -/
def arrayEndItem (elements : List EncodedValue) : ShownItem :=
  decl.item order .arrayEnd false decl.typeSize elements.length []

/-- The begin or the end of a struct. -/
def structItem (state : EventHeaderEnumeratorState) : ShownItem := decl.item order state true 0 1 []

end FieldDecl

/-- The items of fields, in the order in which they are shown. -/
def FieldForest.items (order : ByteOrder) : FieldForest → List ShownItem
  | nil => []
  | scalar decl value rest => decl.valueItem order value :: rest.items order
  | array decl elements rest =>
    decl.arrayBeginItem order elements ::
      (elements.map (decl.valueItem order) ++ decl.arrayEndItem order elements :: rest.items order)
  | struct decl members rest =>
    decl.structItem order .structBegin ::
      (members.items order ++ decl.structItem order .structEnd :: rest.items order)

section Run

variable {build : Build} {data : List UInt8}

/-! ### Positions -/

/-- A context stands at an item of a field. -/
structure AtDecl (data : List UInt8) (c : EventHeaderEnumeratorContext) (decl : FieldDecl) : Prop where
  fieldType_eq : c.fieldType = decl.fieldType
  nameLen_eq : c.stackTop.nameLen = decl.name.length
  placed : PlacedAt data c.stackTop.nameOffset decl.bytes

/-- Definitions and values stand where a context looks for the next property. -/
structure ReadyAt (data : List UInt8) (c : EventHeaderEnumeratorContext)
    (metaBytes dataBytes : List UInt8) : Prop where
  metaAt : PlacedAt data c.stackTop.nextOffset metaBytes
  meta_le : c.stackTop.nextOffset + metaBytes.length ≤ c.metaEnd
  metaEnd_le : c.metaEnd ≤ data.length
  metaSize_le : c.metaEnd ≤ c.metaStart + 65535
  metaStart_le : c.metaStart ≤ c.stackTop.nextOffset
  dataAt : PlacedAt data c.dataPosRaw dataBytes
  dataPosRaw_le : c.dataPosRaw ≤ data.length

/-- How far a context has come: behind so many bytes of definitions and of values, so many fields and so
many items. -/
structure Advanced (c c' : EventHeaderEnumeratorContext) (metaLen dataLen fields items : ℕ) : Prop where
  frame_eq : c'.frame = c.frame
  nextOffset_eq : c'.stackTop.nextOffset = c.stackTop.nextOffset + metaLen
  dataPosRaw_eq : c'.dataPosRaw = c.dataPosRaw + dataLen
  remaining_eq : c'.stackTop.remainingFieldCount = c.stackTop.remainingFieldCount - fields
  stackIndex_eq : c'.stackIndex = c.stackIndex
  stack_eq : ∀ (index : ℕ) (h : index < 8), index < c.stackIndex → c'.stack[index] = c.stack[index]
  budget_eq : c'.moveNextRemaining = c.moveNextRemaining - items

theorem Advanced.refl (c : EventHeaderEnumeratorContext) : Advanced c c 0 0 0 0 :=
  ⟨rfl, rfl, rfl, rfl, rfl, fun _ _ _ ↦ rfl, rfl⟩

theorem Advanced.trans {c c' c'' : EventHeaderEnumeratorContext}
    {metaLen dataLen fields items metaLen' dataLen' fields' items' : ℕ}
    (h : Advanced c c' metaLen dataLen fields items)
    (h' : Advanced c' c'' metaLen' dataLen' fields' items') :
    Advanced c c'' (metaLen + metaLen') (dataLen + dataLen') (fields + fields') (items + items') where
  frame_eq := h'.frame_eq.trans h.frame_eq
  nextOffset_eq := by rw [h'.nextOffset_eq, h.nextOffset_eq, Nat.add_assoc]
  dataPosRaw_eq := by rw [h'.dataPosRaw_eq, h.dataPosRaw_eq, Nat.add_assoc]
  remaining_eq := by rw [h'.remaining_eq, h.remaining_eq, Nat.sub_sub]
  stackIndex_eq := h'.stackIndex_eq.trans h.stackIndex_eq
  stack_eq := fun index hindex hlt ↦
    (h'.stack_eq index hindex (by rwa [h.stackIndex_eq])).trans (h.stack_eq index hindex hlt)
  budget_eq := by rw [h'.budget_eq, h.budget_eq, Nat.sub_sub]

theorem frame_byteReader {c c' : EventHeaderEnumeratorContext} (h : c'.frame = c.frame) :
    c'.byteReader = c.byteReader :=
  congrArg EventFrame.byteReader h

theorem frame_metaEnd {c c' : EventHeaderEnumeratorContext} (h : c'.frame = c.frame) :
    c'.metaEnd = c.metaEnd :=
  congrArg EventFrame.metaEnd h

theorem frame_metaStart {c c' : EventHeaderEnumeratorContext} (h : c'.frame = c.frame) :
    c'.metaStart = c.metaStart :=
  congrArg (fun frame ↦ frame.info.nameStart) h

/-- Behind some of the bytes the others are ready. -/
theorem ReadyAt.advance {c c' : EventHeaderEnumeratorContext} {meta1 meta2 data1 data2 : List UInt8}
    {fields items : ℕ} (h : ReadyAt data c (meta1 ++ meta2) (data1 ++ data2))
    (hadvanced : Advanced c c' meta1.length data1.length fields items) :
    ReadyAt data c' meta2 data2 := by
  have hmeta := (placedAt_append.mp h.metaAt).2
  have hdata := placedAt_append.mp h.dataAt
  have hle := h.meta_le
  have hstart := h.metaStart_le
  rw [List.length_append] at hle
  have hend := frame_metaEnd hadvanced.frame_eq
  have hbegin := frame_metaStart hadvanced.frame_eq
  refine ⟨?_, ?_, ?_, ?_, ?_, ?_, ?_⟩
  · rwa [hadvanced.nextOffset_eq]
  · rw [hadvanced.nextOffset_eq, hend]
    omega
  · rw [hend]
    exact h.metaEnd_le
  · rw [hend, hbegin]
    exact h.metaSize_le
  · rw [hadvanced.nextOffset_eq, hbegin]
    omega
  · rw [hadvanced.dataPosRaw_eq]
    exact hdata.2
  · rw [hadvanced.dataPosRaw_eq]
    exact hdata.1.length_le h.dataPosRaw_le

/-! ### Showing an item -/

/-- What the metadata of an item of a field asserts. -/
structure ItemAllowed (decl : FieldDecl) (isScalar : Bool) (typeSize elementCount : ℕ) : Prop where
  arrayFlags : FieldEncoding.arrayFlags decl.fieldType.encoding ≠ FieldEncoding.arrayFlagMask
  counted : if isScalar then elementCount = 1 else FieldEncoding.isArray decl.fieldType.encoding
  struct : FieldEncoding.withoutFlags decl.fieldType.encoding = FieldEncoding.struct →
    typeSize = 0 ∧ decl.fieldType.format ≠ 0

theorem shownItem_eq {c : EventHeaderEnumeratorContext} {decl : FieldDecl} {bytes : List UInt8}
    (hat : AtDecl data c decl) (hvalid : decl.Valid c.byteReader) (hstate : c.state.canItemInfo = true)
    (hplaced : PlacedAt data c.dataPosCooked bytes) (hlength : c.itemSizeCooked = bytes.length)
    (hpos : c.dataPosCooked ≤ data.length)
    (hallowed : ItemAllowed decl c.isScalarItem c.elementSize
      (if c.isScalarItem then 1 else c.stackTop.arrayCount)) :
    shownItem build data c = .ok (decl.item c.byteReader c.state c.isScalarItem c.elementSize
      (if c.isScalarItem then 1 else c.stackTop.arrayCount) bytes) := by
  have hname : PlacedAt data c.stackTop.nameOffset decl.name := (placedAt_append.mp hat.placed).1
  have hnamePos : c.stackTop.nameOffset ≤ data.length := by
    have hle := hat.placed.length_le_of_ne (by simp [FieldDecl.bytes])
    omega
  have hitem := hplaced.slice_eq hpos
  have hslice := hname.slice_eq hnamePos
  have hformat : ¬FieldFormat.hasChainFlag decl.fieldType.format = true := by
    rw [hvalid.format]
    decide
  have hencoding : ¬FieldEncoding.hasChainFlag decl.fieldType.encoding = true := by
    rw [hvalid.encoding]
    decide
  unfold shownItem itemInfo itemBytes itemMetadataImpl PerfItemMetadata.new
  rw [debugAssert_of hstate, ok_bind, hlength, hitem, ok_bind, ok_bind, hat.fieldType_eq,
    debugAssert_of hencoding, ok_bind, debugAssert_of hformat, ok_bind,
    debugAssert_of hallowed.arrayFlags, ok_bind, debugAssert_of hallowed.counted, ok_bind,
    debugAssert_of hallowed.struct, ok_bind, ok_bind, ok_bind]
  unfold EventHeaderItemInfo.nameBytes
  dsimp only
  rw [hat.nameLen_eq, hslice, ok_bind]
  rfl

/-! ### The next property -/

/-- The field definition that a definition is read back as. -/
def declaredField (c : EventHeaderEnumeratorContext) (decl : FieldDecl) : FieldDef :=
  ⟨decl.name.length, decl.fieldType, c.stackTop.nextOffset + decl.bytes.length⟩

variable {c : EventHeaderEnumeratorContext} {decl : FieldDecl} {metaBytes dataBytes : List UInt8}

theorem atDecl_atField (hready : ReadyAt data c (decl.bytes ++ metaBytes) dataBytes)
    (count nextOffset : ℕ) :
    AtDecl data (c.atField (declaredField c decl) count nextOffset) decl :=
  ⟨rfl, rfl, (placedAt_append.mp hready.metaAt).1⟩

theorem readFieldNameAndType_decl (hready : ReadyAt data c (decl.bytes ++ metaBytes) dataBytes)
    (hvalid : decl.Valid c.byteReader) :
    readFieldNameAndType build data
        { c with
          stackTop :=
            { c.stackTop with
              remainingFieldCount := c.stackTop.remainingFieldCount - 1
              arrayIndex := 0
              nameOffset := c.stackTop.nextOffset } } =
      .ok (decl.fieldType,
        { c with
          stackTop :=
            { nextOffset := c.stackTop.nextOffset + decl.bytes.length
              nameOffset := c.stackTop.nextOffset
              nameLen := decl.name.length
              arrayIndex := 0
              arrayCount := c.stackTop.arrayCount
              remainingFieldCount := c.stackTop.remainingFieldCount - 1 } }) := by
  have hle := hready.meta_le
  have hstart := hready.metaStart_le
  have hsize := hready.metaSize_le
  have hlength := decl.length_bytes
  rw [List.length_append] at hle
  have hfield : fieldAt c.byteReader data c.metaEnd c.stackTop.nextOffset = some (declaredField c decl) :=
    fieldAt_decl hvalid (placedAt_append.mp hready.metaAt).1 (by omega)
  have hnameLen : decl.name.length % 65536 = decl.name.length := Nat.mod_eq_of_lt (by omega)
  rw [readFieldNameAndType_eq build (by dsimp only; omega) (by exact hready.metaEnd_le)]
  dsimp only
  rw [hfield]
  dsimp only [declaredField]
  rw [hnameLen]

theorem nextProperty_eq_decodeField (hready : ReadyAt data c (decl.bytes ++ metaBytes) dataBytes)
    (hremaining : c.stackTop.remainingFieldCount ≠ 0) :
    nextProperty build data c = decodeField build data c := by
  have hle := hready.meta_le
  have hlength := decl.length_bytes
  rw [List.length_append] at hle
  unfold nextProperty
  rw [if_pos ⟨hremaining, by omega⟩]

/-- A value is next. -/
theorem nextProperty_scalar (hready : ReadyAt data c (decl.bytes ++ metaBytes) dataBytes)
    (hvalid : decl.Valid c.byteReader) (hremaining : c.stackTop.remainingFieldCount ≠ 0)
    (hknown : decl.fieldType.encoding ≠ readFieldError)
    (hscalar : FieldEncoding.isArray decl.fieldType.encoding = false)
    (hstruct : decl.fieldType.encoding ≠ FieldEncoding.struct) :
    nextProperty build data c = startValue build data
      ((c.atField (declaredField c decl) 1 (declaredField c decl).typeEnd).setState .value
        .valueScalar) := by
  rw [nextProperty_eq_decodeField hready hremaining]
  unfold decodeField
  dsimp only
  rw [readFieldNameAndType_decl hready hvalid, ok_bind]
  dsimp only
  rw [if_neg hknown, if_pos (by simp [hscalar]), if_pos hstruct.symm]
  rfl

/-- A struct is next. -/
theorem nextProperty_struct (hready : ReadyAt data c (decl.bytes ++ metaBytes) dataBytes)
    (hvalid : decl.Valid c.byteReader) (hremaining : c.stackTop.remainingFieldCount ≠ 0)
    (hstruct : decl.fieldType.encoding = FieldEncoding.struct)
    (hformat : decl.fieldType.format ≠ FieldFormat.default) :
    nextProperty build data c = .ok (true,
      (c.atField (declaredField c decl) 1 (declaredField c decl).typeEnd).atStructBegin) := by
  rw [nextProperty_eq_decodeField hready hremaining]
  unfold decodeField
  dsimp only
  rw [readFieldNameAndType_decl hready hvalid, ok_bind]
  dsimp only
  rw [hstruct, if_neg (by decide), if_pos (by decide), if_neg (by decide), if_neg hformat]
  unfold startStruct
  rw [debugAssert_of (by dsimp only; rw [hstruct]; decide), ok_bind]
  rfl

/-- An array is next. -/
theorem nextProperty_array {count : ℕ} (hready : ReadyAt data c (decl.bytes ++ metaBytes) dataBytes)
    (hvalid : decl.Valid c.byteReader) (hremaining : c.stackTop.remainingFieldCount ≠ 0)
    (hvariable : FieldEncoding.isVariableLengthArray decl.fieldType.encoding = true)
    (hcount : count < 65536) (hplaced : PlacedAt data c.dataPosRaw (c.byteReader.toBytes 2 count)) :
    nextProperty build data c = startArray
      { c.atField (declaredField c decl) count (declaredField c decl).typeEnd with
        dataPosRaw := c.dataPosRaw + 2 } data.length := by
  have hle := hplaced.length_le hready.dataPosRaw_le
  rw [ByteOrder.length_toBytes] at hle
  have hknown : decl.fieldType.encoding ≠ readFieldError := by
    intro hzero
    rw [hzero] at hvariable
    exact absurd hvariable (by decide)
  rw [nextProperty_eq_decodeField hready hremaining]
  unfold decodeField
  dsimp only
  rw [readFieldNameAndType_decl hready hvalid, ok_bind]
  dsimp only
  rw [if_neg hknown, if_neg (by simp [FieldEncoding.isArray_eq, hvariable]), if_pos hvariable,
    sub_of_le hready.dataPosRaw_le, ok_bind, if_neg (by omega),
    hplaced.readUInt_eq (by decide) (by simpa using hcount), ok_bind]
  rfl

/-! ### Moves -/

theorem moveNextImpl_eq (hmove : c.state.canMoveNext = true) (hbudget : c.moveNextRemaining ≠ 0) :
    moveNextImpl build data c = moveNextSubstate build data c.spend := by
  unfold moveNextImpl
  rw [debugAssert_of hmove, ok_bind, if_neg hbudget]
  rfl

/-- Behind a value the next property follows. -/
theorem moveNext_scalar (hstate : c.state = .value) (hsubstate : c.substate = .valueScalar)
    (hstruct : FieldEncoding.withoutFlags c.fieldType.encoding ≠ FieldEncoding.struct)
    (hscalar : FieldEncoding.isArray c.fieldType.encoding = false)
    (hrange : c.dataPosRaw + c.itemSizeRaw ≤ data.length) (hbudget : c.moveNextRemaining ≠ 0) :
    moveNextImpl build data c = nextProperty build data c.spend.pastItem := by
  have hvalue : ValueInRange data c.spend := ⟨by dsimp only [spend]; omega, by dsimp only [spend]; omega⟩
  rw [moveNextImpl_eq (by rw [hstate]; rfl) hbudget, moveNextSubstate,
    show c.spend.substate = .valueScalar from hsubstate]
  dsimp only
  unfold moveNextValueScalar
  rw [debugAssert_of (by exact hstate), ok_bind, debugAssert_of (by exact hstruct), ok_bind,
    debugAssert_of (by simpa [spend] using hscalar), ok_bind, debugAssert_of (by exact hvalue), ok_bind]
  rfl

/-- Behind an array the next property follows. -/
theorem moveNext_arrayEnd (hstate : c.state = .arrayEnd) (hsubstate : c.substate = .arrayEnd)
    (hstruct : FieldEncoding.withoutFlags c.fieldType.encoding ≠ FieldEncoding.struct)
    (harray : FieldEncoding.isArray c.fieldType.encoding = true)
    (hindex : c.stackTop.arrayCount = c.stackTop.arrayIndex) (hbudget : c.moveNextRemaining ≠ 0) :
    moveNextImpl build data c = nextProperty build data c.spend := by
  rw [moveNextImpl_eq (by rw [hstate]; rfl) hbudget, moveNextSubstate,
    show c.spend.substate = .arrayEnd from hsubstate]
  dsimp only
  unfold moveNextArrayEnd
  rw [debugAssert_of (by exact hstate), ok_bind, debugAssert_of (by exact harray), ok_bind, debugAssert_of (by exact hindex), ok_bind,
    if_neg (fun h ↦ hstruct h.1)]

/-- Inside a struct its first member follows. -/
theorem moveNext_structBegin (hstate : c.state = .structBegin) (hsubstate : c.substate = .structBegin)
    (hroom : c.stackIndex < 8) (hbudget : c.moveNextRemaining ≠ 0) :
    moveNextImpl build data c = nextProperty build data (c.spend.pushed hroom) := by
  rw [moveNextImpl_eq (by rw [hstate]; rfl) hbudget, moveNextSubstate,
    show c.spend.substate = .structBegin from hsubstate]
  dsimp only
  unfold moveNextStructBegin
  rw [debugAssert_of (by exact hstate), ok_bind, if_neg (by dsimp only [structNestLimit, spend]; omega),
    dif_pos (by exact hroom)]
  rfl

/-- Behind a struct the next property follows. -/
theorem moveNext_structEnd (hstate : c.state = .structEnd) (hsubstate : c.substate = .structEnd)
    (hstruct : c.fieldType.encoding = FieldEncoding.struct) (hraw : c.itemSizeRaw = 0)
    (hindex : c.stackTop.arrayCount = c.stackTop.arrayIndex + 1) (hbudget : c.moveNextRemaining ≠ 0) :
    moveNextImpl build data c = nextProperty build data c.spend.nextElement := by
  have hflags : FieldEncoding.withoutFlags FieldEncoding.struct = FieldEncoding.struct := by decide
  rw [moveNextImpl_eq (by rw [hstate]; rfl) hbudget, moveNextSubstate,
    show c.spend.substate = .structEnd from hsubstate]
  dsimp only
  unfold moveNextStructEnd
  rw [debugAssert_of (by exact hstate), ok_bind, debugAssert_of (by dsimp only [spend]; rw [hstruct, hflags]), ok_bind,
    debugAssert_of (by exact hraw), ok_bind]
  dsimp only
  rw [if_neg (not_not.mpr (by exact hindex)), if_neg (by dsimp only [spend]; rw [hstruct]; decide)]
  rfl

/-- A move from a context is the search for the next property from another one. -/
def Leads (build : Build) (data : List UInt8) (c ready : EventHeaderEnumeratorContext) : Prop :=
  moveNextImpl build data c = nextProperty build data ready

/-- Moves show items, and behind them the next property is looked for so much further. -/
def ShowsFrom (build : Build) (data : List UInt8) (c ready : EventHeaderEnumeratorContext)
    (items : List ShownItem) (metaLen dataLen fields : ℕ) : Prop :=
  ∃ c' ready', Shows build data c items c' ∧ Leads build data c' ready' ∧
    Advanced ready ready' metaLen dataLen fields items.length

theorem ShowsFrom.append {c ready : EventHeaderEnumeratorContext} {items more : List ShownItem}
    {metaLen dataLen fields metaLen' dataLen' fields' : ℕ}
    (h : ShowsFrom build data c ready items metaLen dataLen fields)
    (h' : ∀ c' ready', Leads build data c' ready' →
      Advanced ready ready' metaLen dataLen fields items.length →
        ShowsFrom build data c' ready' more metaLen' dataLen' fields') :
    ShowsFrom build data c ready (items ++ more) (metaLen + metaLen') (dataLen + dataLen')
      (fields + fields') := by
  obtain ⟨c', ready', hshows, hleads, hadvanced⟩ := h
  obtain ⟨c'', ready'', hshows', hleads', hadvanced'⟩ := h' c' ready' hleads hadvanced
  refine ⟨c'', ready'', hshows.append hshows', hleads', ?_⟩
  rw [List.length_append]
  exact hadvanced.trans hadvanced'

theorem encodingSize_eq {encoding : FieldEncoding} {size : ℕ} (h : arrayElementSize encoding = .ok size) :
    encodingSize encoding = size := by
  unfold encodingSize
  rw [h]

/-- The byte at the type of a definition is its encoding. -/
theorem AtDecl.encoding_byte (hat : AtDecl data c decl) (hvalid : decl.Valid c.byteReader) :
    data[c.stackTop.nameOffset + c.stackTop.nameLen + 1]?.map FieldEncoding.withoutChainFlag =
      some c.fieldType.encoding := by
  obtain ⟨hself, hchain, hback⟩ := FieldEncoding.chain_facts _ hvalid.encoding
  have hlength := decl.length_bytes
  have hpos := hvalid.written.length_pos
  have hget := hat.placed.getElem?_eq (show decl.name.length + 1 < decl.bytes.length by omega)
  have htype : decl.bytes[decl.name.length + 1]? = decl.typeBytes[0]? := by
    unfold FieldDecl.bytes
    rw [List.getElem?_append_right (by omega)]
    simp
  rw [hat.nameLen_eq, Nat.add_assoc, hget, htype, hat.fieldType_eq]
  have hwritten := hvalid.written
  generalize decl.typeBytes = bytes at hwritten ⊢
  generalize decl.fieldType = typ at hwritten hself hback ⊢
  cases hwritten with
  | short => simpa using hself
  | formatted => simpa using hback
  | tagged htag => simpa using hback

/-! ### Values -/

/-- An encoding with values is neither invalid nor that of a struct. -/
theorem ValueWritten.encoding_ne {order : ByteOrder} {encoding : FieldEncoding} {value : EncodedValue}
    (h : ValueWritten order encoding value) :
    encoding ≠ FieldEncoding.struct ∧ encoding ≠ FieldEncoding.invalid := by
  cases h with
  | fixed hsize hpos _ =>
    constructor
    · rintro rfl
      exact hpos (Except.ok.inj hsize).symm
    · rintro rfl
      cases hsize
  | zstring hencoding _ =>
    simp only [zstringEncodings, List.mem_cons, Prod.mk.injEq, List.not_mem_nil, or_false] at hencoding
    rcases hencoding with ⟨rfl, -⟩ | ⟨rfl, -⟩ | ⟨rfl, -⟩ <;> decide
  | counted hencoding _ _ =>
    simp only [countedEncodings, List.mem_cons, Prod.mk.injEq, List.not_mem_nil, or_false] at hencoding
    rcases hencoding with ⟨rfl, -⟩ | ⟨rfl, -⟩ | ⟨rfl, -⟩ | ⟨rfl, -⟩ <;> decide

theorem FieldEncoding.scalar_facts (encoding : FieldEncoding) (hchain : hasChainFlag encoding = false)
    (hscalar : isArray encoding = false) :
    withoutFlags encoding = encoding ∧ arrayFlags encoding ≠ arrayFlagMask := by
  cases encoding with | ofBitVec bits => revert bits; decide +kernel

/-- The context at the value of a field. -/
def atValue (ready : EventHeaderEnumeratorContext) (decl : FieldDecl) (value : EncodedValue)
    (pos : ℕ) : EventHeaderEnumeratorContext :=
  ((ready.atField (declaredField ready decl) 1 (declaredField ready decl).typeEnd).setState .value
    .valueScalar).withItem pos decl.typeSize value.cooked.length value.raw.length

theorem atValue_advanced (ready : EventHeaderEnumeratorContext) (value : EncodedValue) (pos : ℕ) :
    Advanced ready (atValue ready decl value pos).spend.pastItem decl.bytes.length value.raw.length 1
      1 := by
  constructor
  · dsimp only [frame, eventInfo, atValue, spend, pastItem, withItem, setState, atField]
  · rfl
  · rfl
  · rfl
  · rfl
  · intro _ _ _; rfl
  · rfl

/-- A value is shown. -/
theorem shows_scalar {ready : EventHeaderEnumeratorContext} {value : EncodedValue}
    (hleads : Leads build data c ready)
    (hready : ReadyAt data ready (decl.bytes ++ metaBytes) (value.raw ++ dataBytes))
    (hvalid : decl.Valid ready.byteReader) (hremaining : ready.stackTop.remainingFieldCount ≠ 0)
    (hscalar : FieldEncoding.isArray decl.fieldType.encoding = false)
    (hvalue : ValueWritten ready.byteReader (FieldEncoding.withoutFlags decl.fieldType.encoding) value)
    (hbudget : ready.moveNextRemaining ≠ 0) :
    ShowsFrom build data c ready [decl.valueItem ready.byteReader value] decl.bytes.length
      value.raw.length 1 := by
  obtain ⟨hflags, harrayFlags⟩ := FieldEncoding.scalar_facts _ hvalid.encoding hscalar
  obtain ⟨hstruct, hinvalid⟩ := hvalue.encoding_ne
  obtain ⟨size, hsize, -⟩ := hvalue.elementSize
  have hplaced := (placedAt_append.mp hready.dataAt).1
  have hrange := hplaced.length_le hready.dataPosRaw_le
  have hat := atDecl_atField hready 1 (declaredField ready decl).typeEnd
  obtain rfl : decl.typeSize = size := encodingSize_eq hsize
  obtain ⟨pos, hcooked, hpos, hstart⟩ := @startValue_written build data
    ((ready.atField (declaredField ready decl) 1 (declaredField ready decl).typeEnd).setState .value
      .valueScalar) value decl.typeSize rfl (hat.encoding_byte hvalid) hvalue hsize hplaced
      hready.dataPosRaw_le
  have hmove : moveNextImpl build data c = .ok (true, atValue ready decl value pos) :=
    hleads.trans ((nextProperty_scalar hready hvalid hremaining
      (by rw [hflags] at hinvalid; exact hinvalid) hscalar (by rwa [hflags] at hstruct)).trans hstart)
  have hshown : shownItem build data (atValue ready decl value pos) =
      .ok (decl.valueItem ready.byteReader value) :=
    @shownItem_eq build data (atValue ready decl value pos) decl value.cooked
      ⟨hat.fieldType_eq, hat.nameLen_eq, hat.placed⟩ hvalid rfl hcooked rfl hpos
      ⟨harrayFlags, rfl, fun h ↦ absurd h hstruct⟩
  exact ⟨atValue ready decl value pos, (atValue ready decl value pos).spend.pastItem,
    .cons hmove hshown (.nil _),
    moveNext_scalar rfl rfl hstruct hscalar hrange hbudget, atValue_advanced ready value pos⟩

/-! ### Arrays -/

/-- What follows in an array of values: its end or the next element. -/
def arrayNext (build : Build) (data : List UInt8) (c : EventHeaderEnumeratorContext) :
    Exec (Bool × EventHeaderEnumeratorContext) :=
  if c.stackTop.arrayCount = c.stackTop.arrayIndex then .ok (true, c.atArrayEnd)
  else if c.elementSize ≠ 0 then .ok (true, c.atSimpleElement)
  else startValue build data (c.setState .value .valueComplexArrayElement)

theorem moveNext_arrayBegin (hstate : c.state = .arrayBegin) (hsubstate : c.substate = .arrayBegin)
    (hstruct : FieldEncoding.withoutFlags c.fieldType.encoding ≠ FieldEncoding.struct)
    (harray : FieldEncoding.isArray c.fieldType.encoding = true) (hindex : c.stackTop.arrayIndex = 0)
    (hbudget : c.moveNextRemaining ≠ 0) :
    moveNextImpl build data c = arrayNext build data c.spend := by
  rw [moveNextImpl_eq (by rw [hstate]; rfl) hbudget, moveNextSubstate,
    show c.spend.substate = .arrayBegin from hsubstate]
  dsimp only
  unfold moveNextArrayBegin arrayNext
  rw [debugAssert_of (by exact hstate), ok_bind, debugAssert_of (by exact harray), ok_bind,
    debugAssert_of (by exact hindex), ok_bind, show c.spend.stackTop.arrayIndex = 0 from hindex,
    if_pos (show FieldEncoding.withoutFlags c.spend.fieldType.encoding ≠ FieldEncoding.struct from
      hstruct)]
  split_ifs with hcount hsize
  · rfl
  · rw [debugAssert_of (by exact hstruct), ok_bind]
    dsimp only
    rw [startValueSimple_eq (by exact hindex ▸ Nat.pos_of_ne_zero hcount) (by exact harray)
      (by exact hstruct) (by exact hsize) rfl rfl rfl, ok_bind]
    rfl
  · rfl

theorem moveNext_simpleElement (hstate : c.state = .value)
    (hsubstate : c.substate = .valueSimpleArrayElement)
    (hstruct : FieldEncoding.withoutFlags c.fieldType.encoding ≠ FieldEncoding.struct)
    (harray : FieldEncoding.isArray c.fieldType.encoding = true)
    (hindex : c.stackTop.arrayIndex < c.stackTop.arrayCount) (hsize : c.elementSize ≠ 0)
    (hcooked : c.itemSizeCooked = c.elementSize) (hraw : c.itemSizeRaw = c.elementSize)
    (hrange : c.dataPosRaw + c.itemSizeRaw ≤ data.length) (hbudget : c.moveNextRemaining ≠ 0) :
    moveNextImpl build data c = arrayNext build data c.spend.pastItem.nextElement := by
  have hvalue : ValueInRange data c.spend := ⟨by dsimp only [spend]; omega, by dsimp only [spend]; omega⟩
  rw [moveNextImpl_eq (by rw [hstate]; rfl) hbudget, moveNextSubstate,
    show c.spend.substate = .valueSimpleArrayElement from hsubstate]
  dsimp only
  unfold moveNextSimpleArrayElement arrayNext
  rw [debugAssert_of (by exact hstate), ok_bind, debugAssert_of (by exact hstruct), ok_bind,
    debugAssert_of (by exact harray), ok_bind, debugAssert_of (by exact hindex), ok_bind,
    debugAssert_of (by exact hsize), ok_bind, debugAssert_of (by exact hvalue), ok_bind,
    if_pos (show c.spend.pastItem.nextElement.elementSize ≠ 0 from hsize),
    nextElement_atSimpleElement hstate hsubstate hcooked hraw]
  refine ite_congr rfl (fun _ ↦ rfl) fun hmore ↦ ?_
  have hne : c.stackTop.arrayCount ≠ c.stackTop.arrayIndex + 1 := hmore
  rw [startValueSimple_eq (by dsimp only [spend]; omega) (by exact harray) (by exact hstruct)
    (by exact hsize) (by exact hcooked) (by exact hraw) (by exact hstate), ok_bind]
  rfl

theorem moveNext_complexElement (hstate : c.state = .value)
    (hsubstate : c.substate = .valueComplexArrayElement)
    (hstruct : FieldEncoding.withoutFlags c.fieldType.encoding ≠ FieldEncoding.struct)
    (harray : FieldEncoding.isArray c.fieldType.encoding = true)
    (hindex : c.stackTop.arrayIndex < c.stackTop.arrayCount) (hsize : c.elementSize = 0)
    (hrange : c.dataPosRaw + c.itemSizeRaw ≤ data.length) (hbudget : c.moveNextRemaining ≠ 0) :
    moveNextImpl build data c = arrayNext build data c.spend.pastItem.nextElement := by
  have hvalue : ValueInRange data c.spend := ⟨by dsimp only [spend]; omega, by dsimp only [spend]; omega⟩
  have hsame : c.spend.pastItem.nextElement.setState .value .valueComplexArrayElement =
      c.spend.pastItem.nextElement := by
    dsimp only [setState, EventHeaderEnumeratorContext.nextElement, pastItem, spend]
    rw [hstate, hsubstate]
  rw [moveNextImpl_eq (by rw [hstate]; rfl) hbudget, moveNextSubstate,
    show c.spend.substate = .valueComplexArrayElement from hsubstate]
  dsimp only
  unfold moveNextComplexArrayElement arrayNext
  rw [debugAssert_of (by exact hstate), ok_bind, debugAssert_of (by exact hstruct), ok_bind,
    debugAssert_of (by exact harray), ok_bind, debugAssert_of (by exact hindex), ok_bind,
    debugAssert_of (by exact hsize), ok_bind, debugAssert_of (by exact hvalue), ok_bind,
    if_neg (not_not.mpr (show c.spend.pastItem.nextElement.elementSize = 0 from hsize)), hsame]
  rfl

/-- What the type of an array of values allows. -/
structure ArrayDecl (order : ByteOrder) (decl : FieldDecl) : Prop where
  valid : decl.Valid order
  isVariable : FieldEncoding.isVariableLengthArray decl.fieldType.encoding = true
  notConstant : FieldEncoding.isConstantLengthArray decl.fieldType.encoding = false
  notStruct : FieldEncoding.withoutFlags decl.fieldType.encoding ≠ FieldEncoding.struct
  size : arrayElementSize (FieldEncoding.withoutFlags decl.fieldType.encoding) = .ok decl.typeSize

theorem FieldEncoding.array_facts (encoding : FieldEncoding) (hvariable : isVariableLengthArray encoding = true)
    (hconstant : isConstantLengthArray encoding = false) :
    isArray encoding = true ∧ arrayFlags encoding ≠ arrayFlagMask := by
  cases encoding with | ofBitVec bits => revert bits; decide +kernel

/-- Values stand where a context looks for the next element of an array. -/
structure InArray (data : List UInt8) (c : EventHeaderEnumeratorContext) (decl : FieldDecl)
    (values : List EncodedValue) : Prop where
  atDecl : AtDecl data c decl
  elementSize_eq : c.elementSize = decl.typeSize
  count_eq : c.stackTop.arrayCount = c.stackTop.arrayIndex + values.length
  placed : PlacedAt data c.dataPosRaw (values.flatMap EncodedValue.raw)
  dataPosRaw_le : c.dataPosRaw ≤ data.length

/-- The context at an element of an array. -/
def atElement (c : EventHeaderEnumeratorContext) (decl : FieldDecl) (value : EncodedValue) (pos : ℕ) :
    EventHeaderEnumeratorContext :=
  (c.withItem pos decl.typeSize value.cooked.length value.raw.length).setState .value
    (if decl.typeSize = 0 then .valueComplexArrayElement else .valueSimpleArrayElement)

/-- The next element of an array. -/
theorem arrayNext_cons {value : EncodedValue} {values : List EncodedValue}
    (h : InArray data c decl (value :: values)) (hdecl : ArrayDecl c.byteReader decl)
    (hvalue : ValueWritten c.byteReader (FieldEncoding.withoutFlags decl.fieldType.encoding) value) :
    ∃ pos, PlacedAt data pos value.cooked ∧ pos ≤ data.length ∧
      arrayNext build data c = .ok (true, atElement c decl value pos) := by
  have hcount := h.count_eq
  rw [List.length_cons] at hcount
  have hplaced := h.placed
  rw [List.flatMap_cons] at hplaced
  replace hplaced := (placedAt_append.mp hplaced).1
  obtain ⟨size, hsize, hsimple⟩ := hvalue.elementSize
  obtain rfl : decl.typeSize = size := encodingSize_eq hsize
  unfold arrayNext atElement
  rw [if_neg (by omega), h.elementSize_eq]
  by_cases hzero : decl.typeSize = 0
  · have htype := h.atDecl.fieldType_eq
    obtain ⟨pos, hcooked, hpos, hstart⟩ := @startValue_written build data
      (c.setState .value .valueComplexArrayElement) value decl.typeSize rfl
      (h.atDecl.encoding_byte hdecl.valid) (by dsimp only [setState]; rwa [htype])
      (by dsimp only [setState]; rwa [htype]) hplaced h.dataPosRaw_le
    refine ⟨pos, hcooked, hpos, ?_⟩
    rw [if_neg (not_not.mpr hzero), if_pos hzero, hstart]
    rfl
  · obtain ⟨hlength, hcooked⟩ := hsimple hzero
    refine ⟨c.dataPosRaw, by rwa [hcooked], h.dataPosRaw_le, ?_⟩
    unfold atSimpleElement
    rw [if_pos hzero, if_neg hzero, hcooked, hlength, h.elementSize_eq]

theorem atElement_shown {value : EncodedValue} {pos : ℕ} (hat : AtDecl data c decl)
    (hdecl : ArrayDecl c.byteReader decl) (hplaced : PlacedAt data pos value.cooked)
    (hpos : pos ≤ data.length) :
    shownItem build data (atElement c decl value pos) = .ok (decl.valueItem c.byteReader value) :=
  @shownItem_eq build data (atElement c decl value pos) decl value.cooked
    ⟨hat.fieldType_eq, hat.nameLen_eq, hat.placed⟩ hdecl.valid rfl hplaced rfl hpos
    ⟨(FieldEncoding.array_facts _ hdecl.isVariable hdecl.notConstant).2, rfl,
      fun h ↦ absurd h hdecl.notStruct⟩

/-- The context behind an element of an array. -/
def behindElement (c : EventHeaderEnumeratorContext) (decl : FieldDecl) (value : EncodedValue)
    (pos : ℕ) : EventHeaderEnumeratorContext :=
  (atElement c decl value pos).spend.pastItem.nextElement

/-- Behind an element the next one follows. -/
theorem moveNext_atElement {value : EncodedValue} {values : List EncodedValue} {pos : ℕ}
    (h : InArray data c decl (value :: values)) (hdecl : ArrayDecl c.byteReader decl)
    (hvalue : ValueWritten c.byteReader (FieldEncoding.withoutFlags decl.fieldType.encoding) value)
    (hbudget : c.moveNextRemaining ≠ 0) :
    moveNextImpl build data (atElement c decl value pos) =
      arrayNext build data (behindElement c decl value pos) := by
  have hcount := h.count_eq
  rw [List.length_cons] at hcount
  have hplaced := h.placed
  rw [List.flatMap_cons] at hplaced
  have hrange := (placedAt_append.mp hplaced).1.length_le h.dataPosRaw_le
  have htype := h.atDecl.fieldType_eq
  have harray : FieldEncoding.isArray c.fieldType.encoding = true := by
    rw [htype]
    exact (FieldEncoding.array_facts _ hdecl.isVariable hdecl.notConstant).1
  have hstruct : FieldEncoding.withoutFlags c.fieldType.encoding ≠ FieldEncoding.struct := by
    rw [htype]
    exact hdecl.notStruct
  have hindex : c.stackTop.arrayIndex < c.stackTop.arrayCount := by omega
  obtain ⟨size, hsize, hsimple⟩ := hvalue.elementSize
  obtain rfl : decl.typeSize = size := encodingSize_eq hsize
  by_cases hzero : decl.typeSize = 0
  · exact moveNext_complexElement rfl (if_pos hzero) hstruct harray hindex hzero hrange hbudget
  · obtain ⟨hlength, hcooked⟩ := hsimple hzero
    exact moveNext_simpleElement rfl (if_neg hzero) hstruct harray hindex hzero
      ((congrArg List.length hcooked).trans hlength) hlength hrange hbudget

theorem behindElement_advanced (c : EventHeaderEnumeratorContext) (decl : FieldDecl)
    (value : EncodedValue) (pos : ℕ) :
    Advanced c (behindElement c decl value pos) 0 value.raw.length 0 1 := by
  refine ⟨?_, ?_, ?_, ?_, ?_, fun _ _ _ ↦ ?_, ?_⟩ <;>
    dsimp only [frame, eventInfo, behindElement, atElement, EventHeaderEnumeratorContext.nextElement,
      spend, pastItem, withItem, setState, Nat.add_zero, Nat.sub_zero]

theorem InArray.next {value : EncodedValue} {values : List EncodedValue}
    (h : InArray data c decl (value :: values)) (pos : ℕ) :
    InArray data (behindElement c decl value pos) decl values := by
  have hcount := h.count_eq
  rw [List.length_cons] at hcount
  have hplaced := h.placed
  rw [List.flatMap_cons] at hplaced
  obtain ⟨hfirst, hrest⟩ := placedAt_append.mp hplaced
  have hend := hfirst.length_le h.dataPosRaw_le
  obtain ⟨htype, hname, hat⟩ := h.atDecl
  refine ⟨⟨?_, ?_, ?_⟩, ?_, ?_, ?_, ?_⟩ <;>
    dsimp only [behindElement, atElement, EventHeaderEnumeratorContext.nextElement, spend, pastItem,
      withItem, setState]
  · exact htype
  · exact hname
  · exact hat
  · omega
  · exact hrest
  · exact hend

theorem atArrayEnd_shown {elements : List EncodedValue} (h : InArray data c decl [])
    (hdecl : ArrayDecl c.byteReader decl) (hcount : c.stackTop.arrayCount = elements.length) :
    shownItem build data c.atArrayEnd = .ok (decl.arrayEndItem c.byteReader elements) := by
  obtain ⟨harray, hflags⟩ := FieldEncoding.array_facts _ hdecl.isVariable hdecl.notConstant
  have hshown := @shownItem_eq build data c.atArrayEnd decl []
    ⟨h.atDecl.fieldType_eq, h.atDecl.nameLen_eq, h.atDecl.placed⟩ hdecl.valid rfl (placedAt_nil _ _) rfl
    h.dataPosRaw_le ⟨hflags, harray, fun hstruct ↦ absurd hstruct hdecl.notStruct⟩
  unfold FieldDecl.arrayEndItem
  rw [← h.elementSize_eq, ← hcount]
  exact hshown

theorem atArrayEnd_leads (h : InArray data c decl []) (hdecl : ArrayDecl c.byteReader decl)
    (hbudget : c.moveNextRemaining ≠ 0) : Leads build data c.atArrayEnd c.atArrayEnd.spend := by
  have htype := h.atDecl.fieldType_eq
  refine moveNext_arrayEnd rfl rfl ?_ ?_ h.count_eq hbudget
  · dsimp only [atArrayEnd, setEndState]
    rw [htype]
    exact hdecl.notStruct
  · dsimp only [atArrayEnd, setEndState]
    rw [htype]
    exact (FieldEncoding.array_facts _ hdecl.isVariable hdecl.notConstant).1

theorem atArrayEnd_advanced (c : EventHeaderEnumeratorContext) :
    Advanced c c.atArrayEnd.spend 0 0 0 1 := by
  constructor
  · dsimp only [frame, eventInfo, atArrayEnd, setEndState, spend]
  · rfl
  · rfl
  · rfl
  · rfl
  · exact fun _ _ _ ↦ rfl
  · rfl

/-- The values of an array and its end are shown. -/
theorem shows_elements {elements values : List EncodedValue} {start : EventHeaderEnumeratorContext}
    (hmove : moveNextImpl build data start = arrayNext build data c)
    (h : InArray data c decl values) (hdecl : ArrayDecl c.byteReader decl)
    (hcount : c.stackTop.arrayCount = elements.length)
    (hvalues : ∀ value ∈ values,
      ValueWritten c.byteReader (FieldEncoding.withoutFlags decl.fieldType.encoding) value)
    (hbudget : values.length < c.moveNextRemaining) :
    ShowsFrom build data start c
      (values.map (decl.valueItem c.byteReader) ++ [decl.arrayEndItem c.byteReader elements]) 0
      (values.flatMap EncodedValue.raw).length 0 := by
  induction values generalizing start c with
  | nil =>
    have hend : arrayNext build data c = .ok (true, c.atArrayEnd) := if_pos h.count_eq
    exact ⟨c.atArrayEnd, c.atArrayEnd.spend,
      .cons (hmove.trans hend) (atArrayEnd_shown h hdecl hcount) (.nil _),
      atArrayEnd_leads h hdecl (by omega), atArrayEnd_advanced c⟩
  | cons value values ih =>
    obtain ⟨hvalue, hothers⟩ := List.forall_mem_cons.mp hvalues
    rw [List.length_cons] at hbudget
    obtain ⟨pos, hcooked, hpos, hnext⟩ := @arrayNext_cons build data c decl value values h hdecl hvalue
    have hadvanced := behindElement_advanced c decl value pos
    have hreader := frame_byteReader hadvanced.frame_eq
    have hrun := ih (moveNext_atElement h hdecl hvalue (by omega)) (h.next pos)
    rw [hreader, hadvanced.budget_eq] at hrun
    obtain ⟨last, ready, hshows, hleads, hrest⟩ := hrun hdecl hcount hothers (by omega)
    refine ⟨last, ready, .cons (hmove.trans hnext) (atElement_shown h.atDecl hdecl hcooked hpos) hshows,
      hleads, ?_⟩
    have htrans := hadvanced.trans hrest
    rw [List.flatMap_cons, List.length_append, List.map_cons, List.cons_append, List.length_cons,
      Nat.add_comm _ 1]
    exact htrans

theorem FieldDecl.length_arrayBytes {order : ByteOrder} {elements : List EncodedValue}
    (hvalues : ∀ value ∈ elements,
      ValueWritten order (FieldEncoding.withoutFlags decl.fieldType.encoding) value) :
    (decl.arrayBytes elements).length = elements.length * decl.typeSize := by
  unfold arrayBytes
  split_ifs with hzero
  · rw [hzero]
    rfl
  · induction elements with
    | nil => simp
    | cons value elements ih =>
      obtain ⟨hvalue, hothers⟩ := List.forall_mem_cons.mp hvalues
      obtain ⟨size, hsize, hsimple⟩ := hvalue.elementSize
      obtain rfl : decl.typeSize = size := encodingSize_eq hsize
      rw [List.flatMap_cons, List.length_append, ih hothers, (hsimple hzero).1, List.length_cons,
        Nat.add_mul, Nat.one_mul, Nat.add_comm]

/-- The begin of an array whose bytes are there. -/
theorem startArray_eq {size length : ℕ}
    (hsize : arrayElementSize (FieldEncoding.withoutFlags c.fieldType.encoding) = .ok size)
    (hroom : c.dataPosRaw + c.stackTop.arrayCount * size ≤ length) :
    startArray c length = .ok (true, (c.withItem c.dataPosRaw size (c.stackTop.arrayCount * size)
      (c.stackTop.arrayCount * size)).setState .arrayBegin .arrayBegin) := by
  unfold startArray
  dsimp only
  split
  next herror => cases hsize.symm.trans herror
  next hzero =>
    obtain rfl : size = 0 := Except.ok.inj (hsize.symm.trans hzero)
    rfl
  next known _ hknown =>
    obtain rfl : size = known := Except.ok.inj (hsize.symm.trans hknown)
    rw [sub_of_le (by omega), ok_bind, if_neg (by omega)]
    rfl

/-- The context at the begin of an array. -/
def atArrayBegin (ready : EventHeaderEnumeratorContext) (decl : FieldDecl)
    (elements : List EncodedValue) : EventHeaderEnumeratorContext :=
  ({ ready.atField (declaredField ready decl) elements.length (declaredField ready decl).typeEnd with
      dataPosRaw := ready.dataPosRaw + 2 }.withItem (ready.dataPosRaw + 2) decl.typeSize
    (elements.length * decl.typeSize) (elements.length * decl.typeSize)).setState .arrayBegin .arrayBegin

theorem atArrayBegin_advanced (ready : EventHeaderEnumeratorContext) (decl : FieldDecl)
    (elements : List EncodedValue) :
    Advanced ready (atArrayBegin ready decl elements).spend decl.bytes.length 2 1 1 := by
  refine ⟨?_, ?_, ?_, ?_, ?_, fun _ _ _ ↦ ?_, ?_⟩ <;>
    dsimp only [frame, eventInfo, atArrayBegin, atField, declaredField, spend, withItem, setState]

/-- An array is shown. -/
theorem shows_array {ready : EventHeaderEnumeratorContext} {elements : List EncodedValue}
    (hleads : Leads build data c ready)
    (hready : ReadyAt data ready (decl.bytes ++ metaBytes)
      (ready.byteReader.toBytes 2 elements.length ++ elements.flatMap EncodedValue.raw ++ dataBytes))
    (hdecl : ArrayDecl ready.byteReader decl) (hremaining : ready.stackTop.remainingFieldCount ≠ 0)
    (hcount : elements.length < 65536)
    (hvalues : ∀ value ∈ elements,
      ValueWritten ready.byteReader (FieldEncoding.withoutFlags decl.fieldType.encoding) value)
    (hbudget : elements.length + 2 ≤ ready.moveNextRemaining) :
    ShowsFrom build data c ready
      (decl.arrayBeginItem ready.byteReader elements ::
        (elements.map (decl.valueItem ready.byteReader) ++
          [decl.arrayEndItem ready.byteReader elements]))
      decl.bytes.length
      (ready.byteReader.toBytes 2 elements.length ++ elements.flatMap EncodedValue.raw).length 1 := by
  obtain ⟨harray, hflags⟩ := FieldEncoding.array_facts _ hdecl.isVariable hdecl.notConstant
  have hplaced := (placedAt_append.mp hready.dataAt).1
  obtain ⟨hlength, hbytes⟩ := placedAt_append.mp hplaced
  have hposition := hlength.length_le hready.dataPosRaw_le
  rw [ByteOrder.length_toBytes] at hbytes hposition
  have hshort : PlacedAt data (ready.dataPosRaw + 2) (decl.arrayBytes elements) := by
    unfold FieldDecl.arrayBytes
    split_ifs
    · exact placedAt_nil _ _
    · exact hbytes
  have hsize := decl.length_arrayBytes hvalues
  have hroom := hshort.length_le hposition
  rw [hsize] at hroom
  have hat := atDecl_atField hready elements.length (declaredField ready decl).typeEnd
  have hmove : moveNextImpl build data c = .ok (true, atArrayBegin ready decl elements) :=
    hleads.trans ((nextProperty_array hready hdecl.valid hremaining hdecl.isVariable hcount
      hlength).trans (startArray_eq hdecl.size hroom))
  have hshown : shownItem build data (atArrayBegin ready decl elements) =
      .ok (decl.arrayBeginItem ready.byteReader elements) :=
    @shownItem_eq build data (atArrayBegin ready decl elements) decl (decl.arrayBytes elements)
      ⟨hat.fieldType_eq, hat.nameLen_eq, hat.placed⟩ hdecl.valid rfl hshort hsize.symm hposition
      ⟨hflags, harray, fun h ↦ absurd h hdecl.notStruct⟩
  have hadvanced := atArrayBegin_advanced ready decl elements
  have hrun := @shows_elements build data (atArrayBegin ready decl elements).spend decl elements elements
    (atArrayBegin ready decl elements)
    (moveNext_arrayBegin rfl rfl hdecl.notStruct harray rfl (Nat.ne_of_gt (Nat.lt_of_lt_of_le (by omega) hbudget)))
    ⟨⟨hat.fieldType_eq, hat.nameLen_eq, hat.placed⟩, rfl, (Nat.zero_add _).symm, hbytes, hposition⟩
  rw [frame_byteReader hadvanced.frame_eq, hadvanced.budget_eq] at hrun
  obtain ⟨last, next, hshows, hleads', hrest⟩ := hrun hdecl rfl hvalues (by omega)
  refine ⟨last, next, .cons hmove hshown hshows, hleads', ?_⟩
  have htrans := hadvanced.trans hrest
  rw [List.length_append, ByteOrder.length_toBytes, List.length_cons, Nat.add_comm _ 1]
  exact htrans

end Run

end Tracepoints
