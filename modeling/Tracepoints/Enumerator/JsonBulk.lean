import Tracepoints.Enumerator.JsonWriter
import Tracepoints.Enumerator.Sibling

/-!
# Arrays written in one step

`write_json_item_and_move_next_sibling` writes an array of simple elements from the bytes of its
begin and jumps over it. The plain traversal makes one `move_next` after the other and writes each
element from its own item. Both write the same text and end alike (`writeJson_refines`).
-/

set_option autoImplicit false
set_option relaxedAutoImplicit false

namespace Tracepoints

open Exec

/-! ### Elements of an array -/

namespace PerfItemValue

variable {build : Build} {value : PerfItemValue}

/-- `write_json_simple_element_to`. -/
def writeJsonSimpleElementTo (build : Build) (value : PerfItemValue) (index : ℕ) : Exec JsonLeaf :=
  let encoding := value.metadata.encoding
  if encoding = FieldEncoding.value8 then value.writeJsonValue8To build index
  else if encoding = FieldEncoding.value16 then value.writeJsonValue16To build index
  else if encoding = FieldEncoding.value32 then value.writeJsonValue32To build index
  else if encoding = FieldEncoding.value64 then value.writeJsonValue64To build index
  else if encoding = FieldEncoding.value128 then value.writeJsonValue128To build index
  else .ok (.quotedEncoding encoding)

/-- The bytes of an element. -/
def elementBytes (value : PerfItemValue) (size index : ℕ) : List UInt8 :=
  (value.bytes.drop (index * size)).take size

theorem element_eq (build : Build) {size index : ℕ} (hsize : 0 < size)
    (h : (index + 1) * size ≤ value.bytes.length) :
    value.element build size index = .ok (value.elementBytes size index) := by
  have hend : index * size + size = (index + 1) * size := (Nat.succ_mul index size).symm
  have hindex : value.bytes.length / size > index := (Nat.le_div_iff_mul_le hsize).2 h
  unfold element
  rw [debugAssert_of hindex, ok_bind,
    slice_of_le (Nat.le_add_right _ _) (by rw [hend]; exact h), Nat.add_sub_cancel_left]
  rfl

/-- The value of an element of an array, as its own item shows it. -/
def elementValue (value : PerfItemValue) (size index : ℕ) (metadata : PerfItemMetadata) :
    PerfItemValue :=
  ⟨value.elementBytes size index, metadata⟩

/-- An element is written from the bytes of the array as from its own. -/
theorem element_elementValue (build : Build) {size index : ℕ} (hsize : 0 < size)
    (h : (index + 1) * size ≤ value.bytes.length) (metadata : PerfItemMetadata) :
    (value.elementValue size index metadata).element build size 0 =
      value.element build size index := by
  have hend : index * size + size = (index + 1) * size := (Nat.succ_mul index size).symm
  have hlength : (value.elementBytes size index).length = size := by
    unfold elementBytes
    rw [List.length_take, List.length_drop]
    omega
  rw [element_eq build hsize h, element_eq build hsize (by
    show (0 + 1) * size ≤ (value.elementBytes size index).length
    omega)]
  congr 1
  show ((value.elementBytes size index).drop (0 * size)).take size = _
  rw [Nat.zero_mul, List.drop_zero, List.take_of_length_le hlength.le]

/-- The metadata of an element and that of its array go together: they differ in the count and in
the flag of a scalar. -/
structure ElementMetadata (array element : PerfItemMetadata) : Prop where
  encoding_eq : element.encoding = array.encoding
  format_eq : element.format = array.format
  byteReader_eq : element.byteReader = array.byteReader
  typeSize_eq : element.typeSize = array.typeSize
  fieldTag_eq : element.fieldTag = array.fieldTag

/-- The encoding of a simple element has the size of the element. -/
def HasSize (encoding : FieldEncoding) (size : ℕ) : Prop :=
  encoding = FieldEncoding.value8 ∧ size = 1 ∨ encoding = FieldEncoding.value16 ∧ size = 2 ∨
    encoding = FieldEncoding.value32 ∧ size = 4 ∨ encoding = FieldEncoding.value64 ∧ size = 8 ∨
    encoding = FieldEncoding.value128 ∧ size = 16

/-- `write_json_scalar_to` of an element writes what `write_json_simple_element_to` writes of the
array. -/
theorem writeJsonScalarTo_elementValue (build : Build) {size index : ℕ}
    {metadata : PerfItemMetadata} (hsize : HasSize value.metadata.encoding size)
    (htype : value.metadata.typeSize = size) (hmetadata : ElementMetadata value.metadata metadata)
    (h : (index + 1) * size ≤ value.bytes.length) :
    (value.elementValue size index metadata).writeJsonScalarTo build =
      value.writeJsonSimpleElementTo build index := by
  have hend : index * size + size = (index + 1) * size := (Nat.succ_mul index size).symm
  have hlength : (value.elementBytes size index).length = size := by
    unfold elementBytes
    rw [List.length_take, List.length_drop]
    omega
  have hfits : (value.elementValue size index metadata).metadata.typeSize ≤
      (value.elementValue size index metadata).bytes.length := by
    show metadata.typeSize ≤ (value.elementBytes size index).length
    rw [hmetadata.typeSize_eq, htype, hlength]
  have hformat : (value.elementValue size index metadata).metadata.format =
      value.metadata.format := hmetadata.format_eq
  have hreader : (value.elementValue size index metadata).metadata.byteReader =
      value.metadata.byteReader := hmetadata.byteReader_eq
  have hencoding : (value.elementValue size index metadata).metadata.encoding =
      value.metadata.encoding := hmetadata.encoding_eq
  unfold writeJsonScalarTo writeJsonSimpleElementTo
  rw [debugAssert_of hfits, ok_bind]
  dsimp only
  rw [hencoding]
  rcases hsize with ⟨h8, rfl⟩ | ⟨h16, rfl⟩ | ⟨h32, rfl⟩ | ⟨h64, rfl⟩ | ⟨h128, rfl⟩
  · rw [h8, if_neg (by decide), if_neg (by decide), if_pos rfl, if_pos rfl]
    unfold writeJsonValue8To
    rw [element_elementValue build (by decide) h, hformat, hreader]
  · rw [h16, if_neg (by decide), if_neg (by decide), if_neg (by decide), if_pos rfl,
      if_neg (by decide), if_pos rfl]
    unfold writeJsonValue16To
    rw [element_elementValue build (by decide) h, hformat, hreader]
  · rw [h32, if_neg (by decide), if_neg (by decide), if_neg (by decide), if_neg (by decide),
      if_pos rfl, if_neg (by decide), if_neg (by decide), if_pos rfl]
    unfold writeJsonValue32To
    rw [element_elementValue build (by decide) h, hformat, hreader]
  · rw [h64, if_neg (by decide), if_neg (by decide), if_neg (by decide), if_neg (by decide),
      if_neg (by decide), if_pos rfl, if_neg (by decide), if_neg (by decide), if_neg (by decide),
      if_pos rfl]
    unfold writeJsonValue64To
    rw [element_elementValue build (by decide) h, hformat, hreader]
  · rw [h128, if_neg (by decide), if_neg (by decide), if_neg (by decide), if_neg (by decide),
      if_neg (by decide), if_neg (by decide), if_pos rfl, if_neg (by decide), if_neg (by decide),
      if_neg (by decide), if_neg (by decide), if_pos rfl]
    unfold writeJsonValue128To
    rw [element_elementValue build (by decide) h, hformat]

/-- An array of simple elements is written element by element. -/
theorem writeJsonSimpleArrayTo_eq (build : Build) (writers : ValueWriters) {size count : ℕ}
    (hsize : HasSize value.metadata.encoding size) (htype : value.metadata.typeSize = size)
    (hcount : value.bytes.length = count * size) (json : JsonWriter) :
    value.writeJsonSimpleArrayTo build writers json = (do
      let json ← json.writeArrayBegin.writeElements writers (value.writeJsonSimpleElementTo build)
        count 0
      .ok json.writeArrayEnd) := by
  have hne : size ≠ 0 := by rcases hsize with h | h | h | h | h <;> omega
  have hdiv : value.bytes.length / size = count := by
    rw [hcount]
    exact Nat.mul_div_cancel _ (by omega)
  unfold writeJsonSimpleArrayTo
  rw [debugAssert_of (by rw [htype]; exact hne), ok_bind]
  dsimp only
  unfold writeJsonSimpleElementTo
  rcases hsize with ⟨h8, rfl⟩ | ⟨h16, rfl⟩ | ⟨h32, rfl⟩ | ⟨h64, rfl⟩ | ⟨h128, rfl⟩
  · rw [Nat.div_one] at hdiv
    simp only [h8, hdiv, if_true]
  · simp only [h16, hdiv, if_true, show ¬FieldEncoding.value16 = FieldEncoding.value8 by decide,
      if_false]
  · simp only [h32, hdiv, if_true, show ¬FieldEncoding.value32 = FieldEncoding.value8 by decide,
      show ¬FieldEncoding.value32 = FieldEncoding.value16 by decide, if_false]
  · simp only [h64, hdiv, if_true, show ¬FieldEncoding.value64 = FieldEncoding.value8 by decide,
      show ¬FieldEncoding.value64 = FieldEncoding.value16 by decide,
      show ¬FieldEncoding.value64 = FieldEncoding.value32 by decide, if_false]
  · simp only [h128, hdiv, if_true, show ¬FieldEncoding.value128 = FieldEncoding.value8 by decide,
      show ¬FieldEncoding.value128 = FieldEncoding.value16 by decide,
      show ¬FieldEncoding.value128 = FieldEncoding.value32 by decide,
      show ¬FieldEncoding.value128 = FieldEncoding.value64 by decide, if_false]

theorem element_ends (build : Build) (value : PerfItemValue) (size index : ℕ) :
    Ends (value.element build size index) :=
  Ends.bind (Ends.debugAssert _ _) fun _ ↦ Ends.slice _ _ _

theorem writeJsonValueTo_ends (build : Build) (value : PerfItemValue) (index : ℕ) :
    Ends (value.writeJsonValue8To build index) ∧ Ends (value.writeJsonValue16To build index) ∧
      Ends (value.writeJsonValue32To build index) ∧ Ends (value.writeJsonValue64To build index) ∧
      Ends (value.writeJsonValue128To build index) :=
  ⟨Ends.bind (element_ends build value 1 index) fun _ ↦ Ends.ok _,
    Ends.bind (element_ends build value 2 index) fun _ ↦ Ends.ok _,
    Ends.bind (element_ends build value 4 index) fun _ ↦ Ends.ok _,
    Ends.bind (element_ends build value 8 index) fun _ ↦ Ends.ok _,
    Ends.bind (element_ends build value 16 index) fun _ ↦ Ends.ok _⟩

theorem writeJsonScalarTo_ends (build : Build) (value : PerfItemValue) :
    Ends (value.writeJsonScalarTo build) := by
  obtain ⟨h8, h16, h32, h64, h128⟩ := writeJsonValueTo_ends build value 0
  refine Ends.bind (Ends.debugAssert _ _) fun _ ↦ ?_
  refine Ends.ite (Ends.ok _) (Ends.ite (Ends.ok _) (Ends.ite h8 (Ends.ite h16 (Ends.ite h32 ?_))))
  exact Ends.ite h64 (Ends.ite h128 (Ends.ite (Ends.ok _) (Ends.ite (Ends.ok _)
    (Ends.ite (Ends.ok _) (Ends.ite (Ends.ok _) (Ends.ok _))))))

theorem writeElements_ends (writers : ValueWriters) {element : ℕ → Exec JsonLeaf}
    (helement : ∀ index, Ends (element index)) (count index : ℕ) (json : JsonWriter) :
    Ends (json.writeElements writers element count index) := by
  induction count generalizing index json with
  | zero => exact Ends.ok json
  | succ count ih => exact Ends.bind (helement index) fun _ ↦ ih _ _

theorem writeJsonSimpleArrayTo_ends (build : Build) (writers : ValueWriters) (value : PerfItemValue)
    (json : JsonWriter) : Ends (value.writeJsonSimpleArrayTo build writers json) := by
  have hvalue := writeJsonValueTo_ends build value
  have hloop {element : ℕ → Exec JsonLeaf} (helement : ∀ index, Ends (element index)) (count : ℕ) :
      Ends (do
        let json ← json.writeArrayBegin.writeElements writers element count 0
        .ok json.writeArrayEnd) :=
    Ends.bind (writeElements_ends writers helement count 0 _) fun _ ↦ Ends.ok _
  refine Ends.bind (Ends.debugAssert _ _) fun _ ↦ ?_
  refine Ends.ite (hloop (fun index ↦ (hvalue index).1) _) ?_
  refine Ends.ite (hloop (fun index ↦ (hvalue index).2.1) _) ?_
  refine Ends.ite (hloop (fun index ↦ (hvalue index).2.2.1) _) ?_
  refine Ends.ite (hloop (fun index ↦ (hvalue index).2.2.2.1) _) ?_
  exact Ends.ite (hloop (fun index ↦ (hvalue index).2.2.2.2) _) (Ends.ok _)

end PerfItemValue

namespace EventHeaderEnumeratorContext

open PerfItemValue

variable {build : Build} {data : List UInt8} {writers : ValueWriters}
  {c : EventHeaderEnumeratorContext}

/-! ### The items of an array and of its elements -/

/-- The metadata that `PerfItemMetadata::new` returns. -/
def metadataOf (c : EventHeaderEnumeratorContext) (isScalar : Bool) (elementCount : ℕ) :
    PerfItemMetadata where
  elementCount := elementCount
  fieldTag := c.fieldType.tag
  typeSize := c.elementSize
  encodingAndArrayFlagAndIsScalar :=
    c.fieldType.encoding ||| if isScalar then FieldEncoding.chainFlag else 0
  format := c.fieldType.format
  byteReader := c.byteReader

/-- What the assertions of `PerfItemMetadata::new` say of the field, whichever item it is. -/
structure FieldAsserted (c : EventHeaderEnumeratorContext) : Prop where
  encoding : FieldEncoding.hasChainFlag c.fieldType.encoding = false
  format : FieldFormat.hasChainFlag c.fieldType.format = false
  flags : FieldEncoding.arrayFlags c.fieldType.encoding ≠ FieldEncoding.arrayFlagMask

/-- What `item_info` returns. -/
def infoOf (data : List UInt8) (c : EventHeaderEnumeratorContext) : EventHeaderItemInfo where
  nameStart := c.stackTop.nameOffset
  nameLen := c.stackTop.nameLen
  bytes := (data.drop c.dataPosCooked).take c.itemSizeCooked
  metadata := c.metadataOf c.isScalarItem (if c.isScalarItem then 1 else c.stackTop.arrayCount)

/-- Where `item_info` returns, it returns the name, the bytes and the metadata of the item, and the
assertions on the field hold where they are checked. -/
theorem itemInfo_eq_ok {info : EventHeaderItemInfo} (h : itemInfo build data c = .ok info) :
    info = c.infoOf data ∧ (build.debugAssertions = true → FieldAsserted c) := by
  unfold itemInfo itemBytes slice itemMetadataImpl PerfItemMetadata.new at h
  obtain ⟨_, _, h⟩ := bind_eq_ok.1 h
  obtain ⟨bytes, hbytes, h⟩ := bind_eq_ok.1 h
  obtain ⟨metadata, hmetadata, h⟩ := bind_eq_ok.1 h
  obtain ⟨_, _, hmetadata⟩ := bind_eq_ok.1 hmetadata
  obtain ⟨_, hencoding, hmetadata⟩ := bind_eq_ok.1 hmetadata
  obtain ⟨_, hformat, hmetadata⟩ := bind_eq_ok.1 hmetadata
  obtain ⟨_, hflags, hmetadata⟩ := bind_eq_ok.1 hmetadata
  obtain ⟨_, _, hmetadata⟩ := bind_eq_ok.1 hmetadata
  obtain ⟨_, _, hmetadata⟩ := bind_eq_ok.1 hmetadata
  refine ⟨?_, fun hdebug ↦ ⟨?_, ?_, of_debugAssert_eq_ok hflags hdebug⟩⟩
  · split_ifs at hbytes with hrange
    rw [← Except.ok.inj h, ← Except.ok.inj hbytes, ← Except.ok.inj hmetadata,
      Nat.add_sub_cancel_left]
    rfl
  · simpa using of_debugAssert_eq_ok hencoding hdebug
  · simpa using of_debugAssert_eq_ok hformat hdebug

/-- Assumes: an item inside the event, of a field on which the assertions hold. `item_info`
returns. -/
theorem itemInfo_of_asserted (hshows : c.state.canItemInfo = true)
    (hrange : c.dataPosCooked + c.itemSizeCooked ≤ data.length)
    (hasserted : build.debugAssertions = true → FieldAsserted c)
    (hcount : c.isScalarItem = true ∨ FieldEncoding.isArray c.fieldType.encoding = true)
    (hstruct : FieldEncoding.withoutFlags c.fieldType.encoding = FieldEncoding.struct →
      c.elementSize = 0 ∧ c.fieldType.format ≠ 0) :
    itemInfo build data c = .ok (c.infoOf data) := by
  have hassert (condition : Prop) [Decidable condition]
      (h : build.debugAssertions = true → condition) : debugAssert build condition = .ok () := by
    unfold debugAssert
    rw [if_neg fun hfails ↦ hfails.2 (h hfails.1)]
  unfold itemInfo itemBytes itemMetadataImpl PerfItemMetadata.new
  rw [debugAssert_of hshows, ok_bind, slice_of_le (Nat.le_add_right _ _) hrange, ok_bind, ok_bind,
    hassert _ fun hdebug ↦ by simp [(hasserted hdebug).encoding], ok_bind,
    hassert _ fun hdebug ↦ by simp [(hasserted hdebug).format], ok_bind,
    hassert _ fun hdebug ↦ (hasserted hdebug).flags, ok_bind,
    hassert _ fun _ ↦ by split_ifs <;> simp_all, ok_bind, hassert _ fun _ ↦ hstruct, ok_bind, ok_bind,
    Nat.add_sub_cancel_left]
  rfl

theorem withoutFlags_or_chainFlag (encoding : FieldEncoding) :
    FieldEncoding.withoutFlags (encoding ||| FieldEncoding.chainFlag) =
      FieldEncoding.withoutFlags (encoding ||| 0) := by
  cases encoding with | ofBitVec bits => revert bits; decide

theorem isElement_or_chainFlag (encoding : FieldEncoding) :
    (FieldEncoding.hasChainFlag (encoding ||| FieldEncoding.chainFlag) &&
      FieldEncoding.arrayFlags (encoding ||| FieldEncoding.chainFlag) != 0) =
        FieldEncoding.isArray encoding := by
  cases encoding with | ofBitVec bits => revert bits; decide

/-- A scalar item is an element exactly when its field is an array. -/
theorem isElement_metadataOf (c : EventHeaderEnumeratorContext) (count : ℕ) :
    (c.metadataOf true count).isElement = FieldEncoding.isArray c.fieldType.encoding :=
  isElement_or_chainFlag c.fieldType.encoding

/-- An array and an element of it: the same field, and the element where its index says. -/
structure ElementOf (array element : EventHeaderEnumeratorContext) : Prop where
  fieldType_eq : element.fieldType = array.fieldType
  elementSize_eq : element.elementSize = array.elementSize
  byteReader_eq : element.byteReader = array.byteReader
  count_eq : element.stackTop.arrayCount = array.stackTop.arrayCount
  pos_eq : element.dataPosRaw = array.dataPosRaw + element.stackTop.arrayIndex * array.elementSize

/-- The value of an array of simple elements. -/
def arrayValue (data : List UInt8) (c : EventHeaderEnumeratorContext) : PerfItemValue :=
  ⟨(data.drop c.dataPosRaw).take (c.stackTop.arrayCount * c.elementSize),
    c.metadataOf false c.stackTop.arrayCount⟩

theorem ArrayBeginItem.infoOf_value (h : ArrayBeginItem data c) :
    (c.infoOf data).value = c.arrayValue data := by
  have hscalar : c.isScalarItem = false := by
    unfold isScalarItem
    rw [h.state_eq]
    rfl
  unfold EventHeaderItemInfo.value infoOf arrayValue
  rw [hscalar, h.pos_eq, h.cooked_eq]
  rfl

theorem ArrayBeginItem.length_arrayValue (h : ArrayBeginItem data c) :
    (c.arrayValue data).bytes.length = c.stackTop.arrayCount * c.elementSize := by
  have hfits := h.array_le
  show ((data.drop c.dataPosRaw).take (c.stackTop.arrayCount * c.elementSize)).length = _
  rw [List.length_take, List.length_drop]
  omega

/-- The encoding of an array of simple elements has the size of its elements. -/
theorem hasSize_of_arrayElementSize {encoding : FieldEncoding} {size : ℕ}
    (h : arrayElementSize encoding = .ok size) (hsize : size ≠ 0) : HasSize encoding size := by
  unfold arrayElementSize at h
  unfold HasSize
  split_ifs at h <;> simp_all

theorem ArrayBeginItem.hasSize (h : ArrayBeginItem data c) (hsize : c.elementSize ≠ 0) :
    HasSize (c.arrayValue data).metadata.encoding c.elementSize := by
  have hencoding : (c.arrayValue data).metadata.encoding =
      FieldEncoding.withoutFlags c.fieldType.encoding := by
    show FieldEncoding.withoutFlags (c.fieldType.encoding ||| 0) = _
    rw [UInt8.or_zero]
  rw [hencoding]
  exact hasSize_of_arrayElementSize h.elementSize_eq hsize

/-- The item of an element shows the bytes of the array that are its own. -/
theorem SimpleElement.infoOf_value {array : EventHeaderEnumeratorContext}
    (h : SimpleElement data c) (hof : ElementOf array c) :
    (c.infoOf data).value = (array.arrayValue data).elementValue array.elementSize
      c.stackTop.arrayIndex (c.metadataOf true 1) := by
  have hscalar : c.isScalarItem = true := by
    unfold isScalarItem
    rw [h.state_eq]
    rfl
  have hindex : c.stackTop.arrayIndex + 1 ≤ array.stackTop.arrayCount := by
    rw [← hof.count_eq]
    exact h.index_lt
  have hroom : array.elementSize ≤ array.stackTop.arrayCount * array.elementSize -
      c.stackTop.arrayIndex * array.elementSize := by
    have hmul := Nat.mul_le_mul_right array.elementSize hindex
    rw [Nat.succ_mul] at hmul
    omega
  unfold EventHeaderItemInfo.value infoOf elementValue elementBytes arrayValue
  dsimp only
  rw [hscalar, h.pos_eq, h.cooked_eq, hof.pos_eq, hof.elementSize_eq, List.drop_take, List.drop_drop,
    List.take_take, Nat.min_eq_left hroom]
  rfl

theorem elementMetadata_metadataOf {array : EventHeaderEnumeratorContext} (hof : ElementOf array c)
    (count : ℕ) :
    ElementMetadata (array.metadataOf false array.stackTop.arrayCount) (c.metadataOf true count) := by
  refine ⟨?_, ?_, hof.byteReader_eq, hof.elementSize_eq, ?_⟩
  · show FieldEncoding.withoutFlags (c.fieldType.encoding ||| FieldEncoding.chainFlag) =
      FieldEncoding.withoutFlags (array.fieldType.encoding ||| 0)
    rw [hof.fieldType_eq, withoutFlags_or_chainFlag]
  · exact congrArg FieldType.format hof.fieldType_eq
  · exact congrArg FieldType.tag hof.fieldType_eq

/-- An element is written as the array writes it. -/
theorem SimpleElement.writeJsonScalarTo_eq {array : EventHeaderEnumeratorContext} (build : Build)
    (h : SimpleElement data c) (harray : ArrayBeginItem data array) (hof : ElementOf array c) :
    (c.infoOf data).value.writeJsonScalarTo build =
      (array.arrayValue data).writeJsonSimpleElementTo build c.stackTop.arrayIndex := by
  have hsize : array.elementSize ≠ 0 := by
    rw [← hof.elementSize_eq]
    exact h.elementSize_ne
  rw [h.infoOf_value hof]
  refine writeJsonScalarTo_elementValue build (harray.hasSize hsize) rfl
    (elementMetadata_metadataOf hof 1) ?_
  rw [harray.length_arrayValue, ← hof.count_eq]
  exact Nat.mul_le_mul_right _ h.index_lt

/-! ### The plain traversal -/

/-- The item that the plain traversal writes at an element of an array. -/
theorem writeJsonItem_element {simpleArrays : Bool} {array : EventHeaderEnumeratorContext}
    {json : JsonWriter} {item : JsonItem} (h : SimpleElement data c)
    (harray : ArrayBeginItem data array) (hof : ElementOf array c)
    (hitem : writeJsonItem build data writers simpleArrays true json c = .ok item) :
    ∃ leaf, (array.arrayValue data).writeJsonSimpleElementTo build c.stackTop.arrayIndex = .ok leaf ∧
      item = .item (json.writeValue writers leaf) := by
  have hscalar : c.isScalarItem = true := by
    unfold isScalarItem
    rw [h.state_eq]
    rfl
  unfold writeJsonItem at hitem
  rw [h.state_eq] at hitem
  obtain ⟨info, hinfo, hitem⟩ := bind_eq_ok.1 hitem
  obtain ⟨rfl, _⟩ := itemInfo_eq_ok hinfo
  have helement : (c.infoOf data).metadata.isElement = true := by
    show (c.metadataOf c.isScalarItem _).isElement = true
    rw [hscalar, isElement_metadataOf]
    exact h.array
  rw [helement] at hitem
  obtain ⟨named, hnamed, hitem⟩ := bind_eq_ok.1 hitem
  obtain rfl := Except.ok.inj hnamed
  obtain ⟨leaf, hleaf, hitem⟩ := bind_eq_ok.1 hitem
  rw [h.writeJsonScalarTo_eq build harray hof] at hleaf
  exact ⟨leaf, hleaf, (Except.ok.inj hitem).symm⟩

/-- The plain traversal enters arrays. -/
theorem writeJsonItem_plain {wantName : Bool} {json : JsonWriter} {item : JsonItem}
    (hmove : c.state.canMoveNext = true)
    (hitem : writeJsonItem build data writers false wantName json c = .ok item) :
    ∃ json', item = .item json' := by
  unfold writeJsonItem at hitem
  cases hstate : c.state with
  | error | afterLastItem =>
    rw [hstate] at hmove
    cases hmove
  | beforeFirstItem | arrayEnd | structEnd =>
    rw [hstate] at hitem
    exact ⟨_, (Except.ok.inj hitem).symm⟩
  | value =>
    rw [hstate] at hitem
    obtain ⟨_, _, hitem⟩ := bind_eq_ok.1 hitem
    obtain ⟨_, _, hitem⟩ := bind_eq_ok.1 hitem
    obtain ⟨_, _, hitem⟩ := bind_eq_ok.1 hitem
    exact ⟨_, (Except.ok.inj hitem).symm⟩
  | arrayBegin | structBegin =>
    rw [hstate] at hitem
    obtain ⟨_, _, hitem⟩ := bind_eq_ok.1 hitem
    obtain ⟨_, _, hitem⟩ := bind_eq_ok.1 hitem
    exact ⟨_, (Except.ok.inj hitem).symm⟩

/-- What follows the move behind an item: the loop stops, or goes on from the next item. -/
def JsonFollows (build : Build) (data : List UInt8) (writers : ValueWriters) (simpleArrays : Bool)
    (fuel : ℕ) (depth : ℤ) (wantName : Bool) (json : JsonWriter)
    (next : Bool × EventHeaderEnumeratorContext)
    (result : Option Bool × JsonWriter × EventHeaderEnumeratorContext) : Prop :=
  (next.1 = false ∨ depth ≤ 0) ∧ result = (some json.jsonComma, json, next.2) ∨
    next.1 = true ∧ 0 < depth ∧
      writeJsonLoop build data writers simpleArrays fuel depth wantName json next.2 = .ok result

theorem jsonFollows_of_ite {simpleArrays : Bool} {fuel : ℕ} {depth : ℤ} {wantName : Bool}
    {json : JsonWriter} {next : Bool × EventHeaderEnumeratorContext}
    {result : Option Bool × JsonWriter × EventHeaderEnumeratorContext}
    (h : (if ¬next.1 = true ∨ depth ≤ 0 then .ok (some json.jsonComma, json, next.2)
      else writeJsonLoop build data writers simpleArrays fuel depth wantName json next.2) =
        .ok result) :
    JsonFollows build data writers simpleArrays fuel depth wantName json next result := by
  by_cases hstop : ¬next.1 = true ∨ depth ≤ 0
  · rw [if_pos hstop] at h
    exact .inl ⟨by simpa using hstop, (Except.ok.inj h).symm⟩
  · rw [if_neg hstop] at h
    obtain ⟨hmoved, hdepth⟩ := not_or.1 hstop
    exact .inr ⟨by simpa using hmoved, by omega, h⟩

/-- One iteration of the plain traversal that does not run out of budget. -/
theorem writeJsonLoop_succ {fuel : ℕ} {depth : ℤ} {wantName : Bool} {json : JsonWriter}
    {result : Option Bool × JsonWriter × EventHeaderEnumeratorContext} (h : EnumeratorInv data c)
    (hmove : c.state.canMoveNext = true) (hvalue : c.substate ≠ .valueMetadata)
    (hplain : writeJsonLoop build data writers false (fuel + 1) depth wantName json c = .ok result)
    (hlimit : result.2.2.lastError ≠ .implementationLimit) :
    c.moveNextRemaining ≠ 0 ∧ ∃ json' next,
      writeJsonItem build data writers false wantName json c = .ok (.item json') ∧
      moveNextImpl build data c = .ok next ∧ MoveStep build data c next ∧
      JsonFollows build data writers false fuel (jsonDepth depth c.state) true json' next result := by
  rw [writeJsonLoop] at hplain
  obtain ⟨item, hitem, hplain⟩ := bind_eq_ok.1 hplain
  obtain ⟨json', rfl⟩ := writeJsonItem_plain hmove hitem
  obtain ⟨next, hnext, hrest⟩ := bind_eq_ok.1 hplain
  have hstep := (moveNextImpl_returns h hmove hvalue).of_eq_ok hnext
  have hfollows := jsonFollows_of_ite hrest
  refine ⟨fun hzero ↦ ?_, json', next, hitem, hnext, hstep, hfollows⟩
  have hexhausted : next = c.setErrorState .implementationLimit := by
    cases hstep <;> first | rfl | contradiction
  rcases hfollows with ⟨_, rfl⟩ | ⟨hmoved, _⟩
  · rw [hexhausted] at hlimit
    exact hlimit rfl
  · rw [hexhausted] at hmoved
    cases hmoved

/-- The next element is an element of the same array. -/
theorem ElementOf.nextElement {array : EventHeaderEnumeratorContext} (hof : ElementOf array c)
    (hraw : c.itemSizeRaw = c.elementSize) :
    ElementOf array c.spend.pastItem.nextElement.atSimpleElement := by
  refine ⟨hof.fieldType_eq, hof.elementSize_eq, hof.byteReader_eq, hof.count_eq, ?_⟩
  show c.dataPosRaw + c.itemSizeRaw =
    array.dataPosRaw + (c.stackTop.arrayIndex + 1) * array.elementSize
  rw [hraw, hof.elementSize_eq, hof.pos_eq, Nat.succ_mul]
  omega

/-- From an element of simple type, inside another item, the plain traversal gets to the end of the
array and has written the elements that were left. -/
theorem writeJsonLoop_elements {array : EventHeaderEnumeratorContext}
    (harray : ArrayBeginItem data array) {fuel : ℕ} {depth : ℤ} {json : JsonWriter}
    {result : Option Bool × JsonWriter × EventHeaderEnumeratorContext} (h : EnumeratorInv data c)
    (hsubstate : c.substate = .valueSimpleArrayElement) (hof : ElementOf array c)
    (hdepth : 0 < depth)
    (hplain : writeJsonLoop build data writers false fuel depth true json c = .ok result)
    (hlimit : result.2.2.lastError ≠ .implementationLimit) :
    ∃ fuel' budget json', fuel' < fuel ∧ budget ≤ c.moveNextRemaining ∧
      EnumeratorInv data (c.behindElements c.elementsEnd budget) ∧
      json.writeElements writers ((array.arrayValue data).writeJsonSimpleElementTo build)
        (c.stackTop.arrayCount - c.stackTop.arrayIndex) c.stackTop.arrayIndex = .ok json' ∧
      writeJsonLoop build data writers false fuel' depth true json'
        (c.behindElements c.elementsEnd budget) = .ok result := by
  induction fuel generalizing c json with
  | zero => cases hplain
  | succ fuel ih =>
    have hvalue : c.substate ≠ .valueMetadata := by
      rw [hsubstate]
      decide
    have hstate : c.state = .value := by
      rw [h.state_eq hvalue, hsubstate]
      rfl
    have hitem : SimpleElement data c := by
      have hitem := h.item
      unfold ItemInv at hitem
      simpa only [hsubstate] using hitem
    have hlt := hitem.index_lt
    obtain ⟨hbudget, _, next, hwritten, _, hstep, hfollows⟩ := writeJsonLoop_succ h
      (by rw [hstate]; rfl) hvalue hplain hlimit
    obtain ⟨leaf, hleaf, hjson⟩ := writeJsonItem_element hitem harray hof hwritten
    obtain rfl := JsonItem.item.inj hjson
    have hinv := (hstep.moved h).inv
    rw [hstate] at hfollows
    -- a value keeps the depth, so that the traversal goes on from the next item
    have hgoesOn : next.1 = true → writeJsonLoop build data writers false fuel depth true
        (json.writeValue writers leaf) next.2 = .ok result := by
      intro hmoved
      rcases hfollows with ⟨hstop | hstop, _⟩ | ⟨_, _, hrun⟩
      · rw [hmoved] at hstop
        cases hstop
      · exact absurd hdepth (not_lt.mpr hstop)
      · exact hrun
    rcases hstep.simpleElement hbudget hsubstate with ⟨hmore, rfl⟩ | ⟨hdone, rfl⟩
    · obtain ⟨fuel', budget, json', hfuel, hle, hinv', helements, hrun⟩ :=
        ih hinv rfl (hof.nextElement hitem.raw_eq) (hgoesOn rfl)
      have hend := elementsEnd_nextElement hlt hitem.raw_eq
      have hle' : budget ≤ c.moveNextRemaining - 1 := hle
      dsimp only at hrun hinv'
      rw [hend, behindElements_nextElement] at hrun hinv'
      refine ⟨fuel', budget, json', by omega, by omega, hinv', ?_, hrun⟩
      have hsucc : c.stackTop.arrayCount - c.stackTop.arrayIndex =
          c.stackTop.arrayCount - (c.stackTop.arrayIndex + 1) + 1 := by omega
      rw [hsucc, JsonWriter.writeElements, hleaf, ok_bind]
      exact helements
    · have heq := lastElement_eq_behindElements hdone hitem.raw_eq
      dsimp only at hinv hgoesOn
      rw [heq] at hinv hgoesOn
      refine ⟨fuel, c.moveNextRemaining - 1, _, Nat.lt_succ_self _, Nat.sub_le _ _, hinv, ?_,
        hgoesOn rfl⟩
      have hone : c.stackTop.arrayCount - c.stackTop.arrayIndex = 0 + 1 := by omega
      rw [hone, JsonWriter.writeElements, hleaf, ok_bind]
      rfl

/-- The begin of an array of simple elements: its name, and the elements in one step or an opening
bracket. -/
theorem writeJsonItem_simpleArray {wantName : Bool} {json json' : JsonWriter}
    (h : ArrayBeginItem data c) (hsize : c.elementSize ≠ 0)
    (hitem : writeJsonItem build data writers false wantName json c = .ok (.item json')) :
    ∃ named, json' = named.writeArrayBegin ∧
      writeJsonItem build data writers true wantName json c = (do
        let json ← (c.arrayValue data).writeJsonSimpleArrayTo build writers named
        .ok (.array json)) := by
  unfold writeJsonItem at hitem ⊢
  rw [h.state_eq] at hitem ⊢
  obtain ⟨info, hinfo, hitem⟩ := bind_eq_ok.1 hitem
  obtain ⟨named, hnamed, hitem⟩ := bind_eq_ok.1 hitem
  refine ⟨named, (JsonItem.item.inj (Except.ok.inj hitem)).symm, ?_⟩
  dsimp only
  rw [hinfo, ok_bind, hnamed, ok_bind]
  obtain ⟨rfl, _⟩ := itemInfo_eq_ok hinfo
  have htype : (c.infoOf data).metadata.typeSize = c.elementSize := rfl
  rw [htype, h.infoOf_value, if_pos (by simpa using hsize)]
  rfl

/-- From the begin of an array of simple elements the plain traversal gets to the end of the array,
one level deeper, and has written its elements. -/
theorem writeJsonLoop_array {fuel : ℕ} {depth : ℤ} {wantName : Bool} {json : JsonWriter}
    {result : Option Bool × JsonWriter × EventHeaderEnumeratorContext} (h : EnumeratorInv data c)
    (hstate : c.state = .arrayBegin) (hvalue : c.substate ≠ .valueMetadata)
    (hsize : c.elementSize ≠ 0) (hdepth : 0 ≤ depth)
    (hplain : writeJsonLoop build data writers false fuel depth wantName json c = .ok result)
    (hlimit : result.2.2.lastError ≠ .implementationLimit) :
    ∃ fuel' budget named json', fuel' < fuel ∧ budget ≤ c.moveNextRemaining ∧
      EnumeratorInv data (c.behindElements
        (c.dataPosRaw + c.stackTop.arrayCount * c.elementSize) budget) ∧
      writeJsonItem build data writers true wantName json c = (do
        let json ← (c.arrayValue data).writeJsonSimpleArrayTo build writers named
        .ok (.array json)) ∧
      named.writeArrayBegin.writeElements writers ((c.arrayValue data).writeJsonSimpleElementTo build)
        c.stackTop.arrayCount 0 = .ok json' ∧
      writeJsonLoop build data writers false fuel' (depth + 1) true json' (c.behindElements
        (c.dataPosRaw + c.stackTop.arrayCount * c.elementSize) budget) = .ok result := by
  obtain ⟨hsubstate, hitem⟩ := h.arrayBegin hstate hvalue
  cases fuel with
  | zero => cases hplain
  | succ fuel =>
    obtain ⟨hbudget, opened, next, hwritten, _, hstep, hfollows⟩ := writeJsonLoop_succ h
      (by rw [hstate]; rfl) hvalue hplain hlimit
    obtain ⟨named, rfl, hbulk⟩ := writeJsonItem_simpleArray hitem hsize hwritten
    have hinv := (hstep.moved h).inv
    rw [hstate] at hfollows
    have hgoesOn : next.1 = true → writeJsonLoop build data writers false fuel (depth + 1) true
        named.writeArrayBegin next.2 = .ok result := by
      intro hmoved
      rcases hfollows with ⟨hstop | hstop, _⟩ | ⟨_, _, hrun⟩
      · rw [hmoved] at hstop
        cases hstop
      · have hstop' : depth + 1 ≤ 0 := hstop
        omega
      · exact hrun
    rcases hstep.simpleArrayBegin hbudget hsubstate hsize (hitem.notStruct hsize) with
      ⟨hcount, rfl⟩ | ⟨_, rfl⟩
    · have heq : c.spend.atArrayEnd = c.behindElements
          (c.dataPosRaw + c.stackTop.arrayCount * c.elementSize) (c.moveNextRemaining - 1) := by
        refine atArrayEnd_eq_behindElements c.stackTop.arrayIndex ?_ ?_
        · show c.dataPosRaw = _
          rw [hcount, Nat.zero_mul, Nat.add_zero]
        · rw [hitem.index_eq, hcount]
      dsimp only at hinv hgoesOn
      rw [heq] at hinv hgoesOn
      refine ⟨fuel, c.moveNextRemaining - 1, named, _, Nat.lt_succ_self _, Nat.sub_le _ _, hinv, hbulk,
        ?_, hgoesOn rfl⟩
      rw [hcount]
      rfl
    · have hof : ElementOf c c.spend.atSimpleElement := by
        refine ⟨rfl, rfl, rfl, rfl, ?_⟩
        show c.dataPosRaw = c.dataPosRaw + c.stackTop.arrayIndex * c.elementSize
        rw [hitem.index_eq, Nat.zero_mul, Nat.add_zero]
      obtain ⟨fuel', budget, json', hfuel, hle, hinv', helements, hrun⟩ :=
        writeJsonLoop_elements hitem hinv rfl hof (by omega) (hgoesOn rfl) hlimit
      have hend : c.spend.atSimpleElement.elementsEnd =
          c.dataPosRaw + c.stackTop.arrayCount * c.elementSize := by
        show c.dataPosRaw + (c.stackTop.arrayCount - c.stackTop.arrayIndex) * c.elementSize = _
        rw [hitem.index_eq, Nat.sub_zero]
      have hle' : budget ≤ c.moveNextRemaining - 1 := hle
      have hindex : c.spend.atSimpleElement.stackTop.arrayIndex = 0 := hitem.index_eq
      dsimp only at hrun hinv' helements
      rw [hend, behindElements_first] at hrun hinv'
      rw [hindex] at helements
      exact ⟨fuel', budget, named, json', by omega, by omega, hinv', hbulk, helements, hrun⟩

/-! ### The traversal of the source follows the plain one -/

/-- Away from the arrays of simple elements both traversals write an item alike. -/
theorem writeJsonItem_of_plain {wantName : Bool} {json : JsonWriter}
    (harray : c.state = .arrayBegin → c.elementSize = 0) :
    writeJsonItem build data writers true wantName json c =
      writeJsonItem build data writers false wantName json c := by
  unfold writeJsonItem
  cases hstate : c.state with
  | arrayBegin =>
    dsimp only
    cases hinfo : itemInfo build data c with
    | error fault => rfl
    | ok info =>
      obtain ⟨rfl, _⟩ := itemInfo_eq_ok hinfo
      have htype : (c.infoOf data).metadata.typeSize = 0 := harray hstate
      rw [ok_bind, ok_bind, htype]
      rfl
  | _ => rfl

/-- Two traversals end alike: with the same result and text, and in contexts that behave alike. -/
structure SameJson (data : List UInt8) (c : EventHeaderEnumeratorContext)
    (left right : Option Bool × JsonWriter × EventHeaderEnumeratorContext) : Prop where
  result_eq : left.1 = right.1
  json_eq : left.2.1 = right.2.1
  outcome : ∃ moved budget, SameOutcome budget (moved, left.2.2) (moved, right.2.2) ∧
    Moved data c (moved, left.2.2)

theorem SameJson.of_frame {before : EventHeaderEnumeratorContext}
    {left right : Option Bool × JsonWriter × EventHeaderEnumeratorContext}
    (h : SameJson data c left right) (hframe : c.frame = before.frame) :
    SameJson data before left right := by
  obtain ⟨moved, budget, hsame, hmoved⟩ := h.outcome
  exact ⟨h.result_eq, h.json_eq, moved, budget, hsame, hmoved.of_frame hframe⟩

/-- At an array of simple elements, with budget left, the sibling move is the jump over it. -/
theorem moveNextSiblingImpl_of_canJump (h : CanJumpArray c) :
    moveNextSiblingImpl build data c = jumpArray build data c := by
  unfold moveNextSiblingImpl
  rw [debugAssert_of (by rw [h.1]; rfl), ok_bind, moveNextSiblingLoop, if_pos h]
  cases hjump : jumpArray build data c with
  | error fault => rfl
  | ok next =>
    rw [ok_bind]
    exact if_pos (Or.inr le_rfl)

/-- Assumes: the invariant, in a state of value enumeration that allows a move, inside an item only
with names wanted, and a plain traversal that does not run out of budget. The traversal of the
source, with at least that budget, writes the same text and ends alike. -/
theorem writeJsonLoop_refines (fuel : ℕ) {fuel' budget : ℕ} {depth : ℤ} {wantName : Bool}
    {json : JsonWriter} {result : Option Bool × JsonWriter × EventHeaderEnumeratorContext}
    (h : EnumeratorInv data c) (hmove : c.state.canMoveNext = true)
    (hvalue : c.substate ≠ .valueMetadata) (hdepth : 0 ≤ depth)
    (hname : 0 < depth → wantName = true) (hbudget : c.moveNextRemaining ≤ budget)
    (hfuel : budget < fuel')
    (hplain : writeJsonLoop build data writers false fuel depth wantName json c = .ok result)
    (hlimit : result.2.2.lastError ≠ .implementationLimit) :
    ∃ result', writeJsonLoop build data writers true fuel' depth wantName json
        (c.withBudget budget) = .ok result' ∧
      SameJson data c result result' := by
  induction fuel using Nat.strong_induction_on generalizing fuel' budget depth wantName json c with
  | _ fuel ih =>
  obtain ⟨fuel', rfl⟩ := Nat.exists_eq_succ_of_ne_zero (Nat.ne_zero_of_lt hfuel)
  cases fuel with
  | zero => cases hplain
  | succ fuel =>
    obtain ⟨hremaining, written, next, hitem, hnext, hstep, hfollows⟩ :=
      writeJsonLoop_succ h hmove hvalue hplain hlimit
    -- both loops stop after a move, or go on from contexts that differ in the budget
    have hfollow : ∀ {after second : Bool × EventHeaderEnumeratorContext} {fuelNext : ℕ}
        {depthNext : ℤ} {wantNext : Bool} {jsonNext : JsonWriter}, fuelNext ≤ fuel →
        SameOutcome (budget - 1) after second → Moved data c after →
        after.2.moveNextRemaining + 1 ≤ c.moveNextRemaining →
        (0 < depthNext → wantNext = true) →
        JsonFollows build data writers false fuelNext depthNext true jsonNext after result →
        ∃ result',
          (if ¬second.1 = true ∨ depthNext ≤ 0 then
              .ok (some jsonNext.jsonComma, jsonNext, second.2)
            else writeJsonLoop build data writers true fuel' depthNext wantNext jsonNext second.2) =
              .ok result' ∧
          SameJson data c result result' := by
      intro after second fuelNext depthNext wantNext jsonNext hfuelNext hsame hmoved hcost hwant
        hfollows
      rcases hfollows with ⟨hstop, rfl⟩ | ⟨hgoesOn, hpositive, hrun⟩
      · cases hsame with
        | item middle =>
          exact ⟨_, if_pos (hstop.imp (by simp) id), rfl, rfl, true, budget - 1, .item middle,
            hmoved⟩
        | ended hstale =>
          exact ⟨_, if_pos (Or.inl (by simp)), rfl, rfl, false, budget - 1, .ended hstale, hmoved⟩
      · cases hsame with
        | ended => cases hgoesOn
        | item middle =>
          rw [if_neg (not_or.mpr ⟨not_not.mpr rfl, not_le.mpr hpositive⟩), hwant hpositive]
          obtain ⟨result', hloop, hend⟩ := @ih fuelNext (by omega) middle fuel' (budget - 1)
            depthNext true jsonNext hmoved.inv hmoved.stops hmoved.value hpositive.le
            (fun _ ↦ rfl) (by dsimp only at hcost; omega) (by omega) hrun
          exact ⟨result', hloop, hend.of_frame hmoved.frame_eq⟩
    rw [writeJsonLoop]
    by_cases hsimple : c.state = .arrayBegin ∧ c.elementSize ≠ 0
    · -- the plain traversal goes through the elements to the end of the array
      obtain ⟨hstate, hsize⟩ := hsimple
      have hjump : CanJumpArray (c.withBudget budget) :=
        ⟨hstate, not_or.mpr ⟨hsize, fun hzero ↦ hremaining (Nat.le_zero.1 (hzero ▸ hbudget))⟩⟩
      obtain ⟨_, harray⟩ := h.arrayBegin hstate hvalue
      obtain ⟨fuelEnd, budgetEnd, named, elements, hfuelEnd, hbudgetEnd, hinvEnd, hbulk, helements,
        hplainEnd⟩ := writeJsonLoop_array h hstate hvalue hsize hdepth hplain hlimit
      cases fuelEnd with
      | zero => cases hplainEnd
      | succ fuelEnd =>
        obtain ⟨hremainingEnd, jsonEnd, nextEnd, hitemEnd, hnextEnd, hstepEnd, hfollowsEnd⟩ :=
          writeJsonLoop_succ hinvEnd rfl (fun heq ↦ by cases heq) hplainEnd hlimit
        obtain rfl : elements.writeArrayEnd = jsonEnd :=
          JsonItem.item.inj (Except.ok.inj hitemEnd)
        obtain ⟨second, hsecond, hsame⟩ := (jumpArray_related build h hvalue hjump rfl
          hremainingEnd hinvEnd).of_left_ok hnextEnd
        have hdepthEnd : jsonDepth (depth + 1) .arrayEnd = depth := add_sub_cancel_right depth 1
        rw [show (c.behindElements _ budgetEnd).state = .arrayEnd from rfl, hdepthEnd]
          at hfollowsEnd
        have hcost : nextEnd.2.moveNextRemaining + 1 = budgetEnd :=
          hstepEnd.remaining_eq hremainingEnd
        have hwritten : writeJsonItem build data writers true wantName json (c.withBudget budget) =
            .ok (.array elements.writeArrayEnd) := by
          refine hbulk.trans ?_
          rw [writeJsonSimpleArrayTo_eq build writers (harray.hasSize hsize) rfl
            harray.length_arrayValue, helements]
          rfl
        rw [hwritten, ok_bind]
        dsimp only
        rw [moveNextSiblingImpl_of_canJump hjump, hsecond, ok_bind]
        exact hfollow (by omega) hsame ((hstepEnd.moved hinvEnd).of_frame rfl) (by omega) hname
          hfollowsEnd
    · obtain ⟨second, hsecond, hsame⟩ := (@moveNextImpl_related _ _ build h budget
        hremaining (by omega)).of_left_ok hnext
      have hcost := hstep.remaining_eq hremaining
      have hwritten : writeJsonItem build data writers true wantName json (c.withBudget budget) =
          .ok (.item written) :=
        (writeJsonItem_of_plain fun hstate ↦ by
          by_contra hsize
          exact hsimple ⟨hstate, hsize⟩).trans hitem
      rw [hwritten, ok_bind]
      dsimp only
      rw [hsecond, ok_bind]
      exact hfollow le_rfl hsame (hstep.moved h) hcost.le (fun _ ↦ rfl) hfollows

/-! ### The plain traversal follows that of the source -/

/-- The element of an array whose begin passes the assertions is written as the array writes it. -/
theorem writeJsonItem_element_eq {array : EventHeaderEnumeratorContext} {json : JsonWriter}
    {leaf : JsonLeaf} (h : SimpleElement data c) (harray : ArrayBeginItem data array)
    (hof : ElementOf array c) (hasserted : build.debugAssertions = true → FieldAsserted array)
    (hleaf : (array.arrayValue data).writeJsonSimpleElementTo build c.stackTop.arrayIndex =
      .ok leaf) :
    writeJsonItem build data writers false true json c =
      .ok (.item (json.writeValue writers leaf)) := by
  have hscalar : c.isScalarItem = true := by
    unfold isScalarItem
    rw [h.state_eq]
    rfl
  have hinfo : itemInfo build data c = .ok (c.infoOf data) := by
    refine itemInfo_of_asserted (by rw [h.state_eq]; rfl) ?_ (fun hdebug ↦ ?_) (Or.inl hscalar)
      (fun hstruct ↦ absurd hstruct h.notStruct)
    · rw [h.pos_eq, h.cooked_eq, ← h.raw_eq]
      exact h.raw_le
    · obtain ⟨hencoding, hformat, hflags⟩ := hasserted hdebug
      rw [← hof.fieldType_eq] at hencoding hformat hflags
      exact ⟨hencoding, hformat, hflags⟩
  have helement : (c.infoOf data).metadata.isElement = true := by
    show (c.metadataOf c.isScalarItem _).isElement = true
    rw [hscalar, isElement_metadataOf]
    exact h.array
  unfold writeJsonItem
  rw [h.state_eq]
  dsimp only
  rw [hinfo, ok_bind, helement]
  show (do
    let leaf ← (c.infoOf data).value.writeJsonScalarTo build
    .ok (JsonItem.item (json.writeValue writers leaf))) = _
  rw [h.writeJsonScalarTo_eq build harray hof, hleaf]
  rfl

/-- With budget left, the move from an element of simple type returns. -/
theorem moveNextImpl_simpleElement (build : Build) (h : EnumeratorInv data c)
    (hsubstate : c.substate = .valueSimpleArrayElement) (hbudget : c.moveNextRemaining ≠ 0) :
    Returns (moveNextImpl build data c) (MoveStep build data c) := by
  have hitem : SimpleElement data c := by
    have hitem := h.item
    unfold ItemInv at hitem
    simpa only [hsubstate] using hitem
  unfold moveNextImpl
  rw [debugAssert_of (by rw [hitem.state_eq]; rfl), ok_bind, if_neg hbudget]
  show Returns (moveNextSubstate build data c.spend) _
  have hspend : c.spend.substate = .valueSimpleArrayElement := hsubstate
  unfold moveNextSubstate
  rw [hspend]
  exact moveNextSimpleArrayElement_returns h.positioned hitem hbudget hsubstate

/-- With budget left, the move from the begin of an array returns. -/
theorem moveNextImpl_arrayBegin (build : Build) (h : EnumeratorInv data c)
    (hsubstate : c.substate = .arrayBegin) (hitem : ArrayBeginItem data c)
    (hbudget : c.moveNextRemaining ≠ 0) :
    Returns (moveNextImpl build data c) (MoveStep build data c) := by
  unfold moveNextImpl
  rw [debugAssert_of (by rw [hitem.state_eq]; rfl), ok_bind, if_neg hbudget]
  show Returns (moveNextSubstate build data c.spend) _
  have hspend : c.spend.substate = .arrayBegin := hsubstate
  unfold moveNextSubstate
  rw [hspend]
  exact moveNextArrayBegin_returns h.positioned hitem hbudget hsubstate

/-- An iteration of the plain traversal inside an item that goes on. -/
theorem writeJsonLoop_goesOn {fuel : ℕ} {depth : ℤ} {wantName : Bool} {json json' : JsonWriter}
    {next : EventHeaderEnumeratorContext} (hdepth : 0 < jsonDepth depth c.state)
    (hitem : writeJsonItem build data writers false wantName json c = .ok (.item json'))
    (hnext : moveNextImpl build data c = .ok (true, next)) :
    writeJsonLoop build data writers false (fuel + 1) depth wantName json c =
      writeJsonLoop build data writers false fuel (jsonDepth depth c.state) true json' next := by
  rw [writeJsonLoop, hitem, ok_bind]
  dsimp only
  rw [hnext, ok_bind]
  exact if_neg (not_or.mpr ⟨not_not.mpr rfl, not_le.mpr hdepth⟩)

/-- From an element of simple type, inside another item and with the budget for the elements that
are left, the plain traversal writes them. -/
theorem writeJsonLoop_elements_eq {array : EventHeaderEnumeratorContext}
    (harray : ArrayBeginItem data array)
    (hasserted : build.debugAssertions = true → FieldAsserted array) {count fuel budget : ℕ}
    {depth : ℤ} {json json' : JsonWriter} (h : EnumeratorInv data c)
    (hsubstate : c.substate = .valueSimpleArrayElement) (hof : ElementOf array c)
    (hdepth : 0 < depth) (hcount : c.stackTop.arrayCount - c.stackTop.arrayIndex = count)
    (hbudget : c.moveNextRemaining = budget + count)
    (helements : json.writeElements writers ((array.arrayValue data).writeJsonSimpleElementTo build)
      count c.stackTop.arrayIndex = .ok json') :
    EnumeratorInv data (c.behindElements c.elementsEnd budget) ∧
      writeJsonLoop build data writers false (fuel + count) depth true json c =
        writeJsonLoop build data writers false fuel depth true json'
          (c.behindElements c.elementsEnd budget) := by
  induction count generalizing c json with
  | zero =>
    have hitem := h.item
    unfold ItemInv at hitem
    simp only [hsubstate] at hitem
    have hlt := hitem.index_lt
    omega
  | succ count ih =>
    have hitem : SimpleElement data c := by
      have hitem := h.item
      unfold ItemInv at hitem
      simpa only [hsubstate] using hitem
    have hremaining : c.moveNextRemaining ≠ 0 := by omega
    rw [JsonWriter.writeElements] at helements
    obtain ⟨leaf, hleaf, helements⟩ := bind_eq_ok.1 helements
    have hwritten : writeJsonItem build data writers false true json c =
        .ok (.item (json.writeValue writers leaf)) :=
      writeJsonItem_element_eq hitem harray hof hasserted hleaf
    obtain ⟨next, hnext, hstep⟩ := moveNextImpl_simpleElement build h hsubstate hremaining
    have hinv := (hstep.moved h).inv
    have hkeeps : jsonDepth depth c.state = depth := by
      rw [hitem.state_eq]
      rfl
    rcases hstep.simpleElement hremaining hsubstate with ⟨hmore, rfl⟩ | ⟨hdone, rfl⟩
    · have hend := elementsEnd_nextElement hitem.index_lt hitem.raw_eq
      have hcount' : c.stackTop.arrayCount - (c.stackTop.arrayIndex + 1) = count := by omega
      have hbudget' : c.moveNextRemaining - 1 = budget + count := by omega
      obtain ⟨hinv', hrun⟩ := ih hinv rfl (hof.nextElement hitem.raw_eq) hcount' hbudget'
        helements
      dsimp only at hrun hinv'
      rw [hend, behindElements_nextElement] at hrun hinv'
      refine ⟨hinv', ?_⟩
      rw [← Nat.add_assoc, writeJsonLoop_goesOn (by rw [hkeeps]; exact hdepth) hwritten hnext, hkeeps]
      exact hrun
    · have heq := lastElement_eq_behindElements hdone hitem.raw_eq
      have hone : count = 0 := by omega
      have hrest : c.moveNextRemaining - 1 = budget := by omega
      subst hone
      dsimp only at hinv hnext
      rw [heq, hrest] at hinv hnext
      refine ⟨hinv, ?_⟩
      rw [writeJsonLoop_goesOn (by rw [hkeeps]; exact hdepth) hwritten hnext, hkeeps]
      obtain rfl : json.writeValue writers leaf = json' := Except.ok.inj helements
      rfl

/-- Where the source writes an array of simple elements, it writes a name, the brackets and the
elements, and the assertions on the array hold. -/
theorem writeJsonItem_array {wantName : Bool} {json json' : JsonWriter} (h : ArrayBeginItem data c)
    (hsize : c.elementSize ≠ 0)
    (hitem : writeJsonItem build data writers true wantName json c = .ok (.array json')) :
    ∃ named elements : JsonWriter, json' = elements.writeArrayEnd ∧
      writeJsonItem build data writers false wantName json c = .ok (.item named.writeArrayBegin) ∧
      named.writeArrayBegin.writeElements writers
        ((c.arrayValue data).writeJsonSimpleElementTo build) c.stackTop.arrayCount 0 =
          .ok elements ∧
      (build.debugAssertions = true → FieldAsserted c) := by
  unfold writeJsonItem at hitem ⊢
  rw [h.state_eq] at hitem ⊢
  obtain ⟨info, hinfo, hitem⟩ := bind_eq_ok.1 hitem
  obtain ⟨named, hnamed, hitem⟩ := bind_eq_ok.1 hitem
  obtain ⟨rfl, hasserted⟩ := itemInfo_eq_ok hinfo
  have htype : (c.infoOf data).metadata.typeSize = c.elementSize := rfl
  rw [htype, h.infoOf_value, if_pos (by simpa using hsize),
    writeJsonSimpleArrayTo_eq build writers (h.hasSize hsize) rfl h.length_arrayValue] at hitem
  obtain ⟨written, hwritten, hitem⟩ := bind_eq_ok.1 hitem
  obtain ⟨elements, helements, hwritten⟩ := bind_eq_ok.1 hwritten
  refine ⟨named, elements, ?_, ?_, helements, hasserted⟩
  · rw [← JsonItem.array.inj (Except.ok.inj hitem), ← Except.ok.inj hwritten]
  · dsimp only
    rw [hinfo, ok_bind, hnamed, ok_bind]
    rfl

/-- From the begin of an array of simple elements that the source writes, with the budget for its
items, the plain traversal writes the same elements and gets to the end of the array. -/
theorem writeJsonLoop_array_eq {fuel budget : ℕ} {depth : ℤ} {wantName : Bool}
    {json json' : JsonWriter} (h : EnumeratorInv data c) (hstate : c.state = .arrayBegin)
    (hvalue : c.substate ≠ .valueMetadata) (hsize : c.elementSize ≠ 0) (hdepth : 0 ≤ depth)
    (hbudget : c.moveNextRemaining = budget + c.stackTop.arrayCount + 1)
    (hitem : writeJsonItem build data writers true wantName json c = .ok (.array json')) :
    EnumeratorInv data (c.behindElements
        (c.dataPosRaw + c.stackTop.arrayCount * c.elementSize) budget) ∧
      ∃ elements : JsonWriter, json' = elements.writeArrayEnd ∧
        writeJsonLoop build data writers false (fuel + c.stackTop.arrayCount + 1) depth wantName json
            c =
          writeJsonLoop build data writers false fuel (depth + 1) true elements (c.behindElements
            (c.dataPosRaw + c.stackTop.arrayCount * c.elementSize) budget) := by
  obtain ⟨hsubstate, harray⟩ := h.arrayBegin hstate hvalue
  have hremaining : c.moveNextRemaining ≠ 0 := by omega
  obtain ⟨named, elements, rfl, hopened, helements, hasserted⟩ :=
    writeJsonItem_array harray hsize hitem
  obtain ⟨next, hnext, hstep⟩ := moveNextImpl_arrayBegin build h hsubstate harray hremaining
  have hinv := (hstep.moved h).inv
  have hdeeper : jsonDepth depth c.state = depth + 1 := by
    rw [hstate]
    rfl
  rcases hstep.simpleArrayBegin hremaining hsubstate hsize (harray.notStruct hsize) with
    ⟨hcount, rfl⟩ | ⟨_, rfl⟩
  · have heq : c.spend.atArrayEnd = c.behindElements
        (c.dataPosRaw + c.stackTop.arrayCount * c.elementSize) (c.moveNextRemaining - 1) := by
      refine atArrayEnd_eq_behindElements c.stackTop.arrayIndex ?_ ?_
      · show c.dataPosRaw = _
        rw [hcount, Nat.zero_mul, Nat.add_zero]
      · rw [harray.index_eq, hcount]
    have hrest : c.moveNextRemaining - 1 = budget := by omega
    dsimp only at hinv hnext
    rw [heq, hrest] at hinv hnext
    refine ⟨hinv, elements, rfl, ?_⟩
    rw [writeJsonLoop_goesOn (by rw [hdeeper]; omega) hopened hnext, hdeeper]
    rw [hcount] at helements ⊢
    rw [← Except.ok.inj helements]
    rfl
  · have hof : ElementOf c c.spend.atSimpleElement := by
      refine ⟨rfl, rfl, rfl, rfl, ?_⟩
      show c.dataPosRaw = c.dataPosRaw + c.stackTop.arrayIndex * c.elementSize
      rw [harray.index_eq, Nat.zero_mul, Nat.add_zero]
    have hend : c.spend.atSimpleElement.elementsEnd =
        c.dataPosRaw + c.stackTop.arrayCount * c.elementSize := by
      show c.dataPosRaw + (c.stackTop.arrayCount - c.stackTop.arrayIndex) * c.elementSize = _
      rw [harray.index_eq, Nat.sub_zero]
    have hindex : c.spend.atSimpleElement.stackTop.arrayIndex = 0 := harray.index_eq
    have hcount : c.spend.atSimpleElement.stackTop.arrayCount -
        c.spend.atSimpleElement.stackTop.arrayIndex = c.stackTop.arrayCount := by
      rw [hindex]
      rfl
    have hbudget' : c.spend.atSimpleElement.moveNextRemaining = budget + c.stackTop.arrayCount := by
      show c.moveNextRemaining - 1 = _
      omega
    rw [← hindex] at helements
    obtain ⟨hinv', hrun⟩ := @writeJsonLoop_elements_eq _ _ writers _ _ harray hasserted _ fuel budget
      (depth + 1) _ _ hinv rfl hof (by omega) hcount hbudget' helements
    rw [hend, behindElements_first] at hrun hinv'
    refine ⟨hinv', elements, rfl, ?_⟩
    rw [writeJsonLoop_goesOn (by rw [hdeeper]; omega) hopened hnext, hdeeper]
    exact hrun

theorem SameOutcome.symm {budget : ℕ} {first second : Bool × EventHeaderEnumeratorContext}
    (h : SameOutcome budget first second) : ∃ other, SameOutcome other second first := by
  cases h with
  | item c => exact ⟨c.moveNextRemaining, .item (c.withBudget budget)⟩
  | @ended left right hstale =>
    obtain ⟨arrayIndex, pos, raw, cooked, other, rfl⟩ := hstale
    exact ⟨budget, .ended ⟨left.stackTop.arrayIndex, left.dataPosCooked, left.itemSizeRaw,
      left.itemSizeCooked, left.moveNextRemaining, rfl⟩⟩

/-- Where the second of two moves arrives at an item, the first arrives there with its budget. -/
theorem SameOutcome.eq_of_moved {budget other : ℕ}
    {first second : Bool × EventHeaderEnumeratorContext} (h : SameOutcome other first second)
    (hmoved : second.1 = true) (hbudget : first.2.moveNextRemaining = budget) :
    first = (true, second.2.withBudget budget) := by
  cases h with
  | item c =>
    rw [← hbudget]
    rfl
  | ended => cases hmoved

/-- Without budget `move_next` ends in an error. -/
theorem moveNextImpl_exhausted {next : Bool × EventHeaderEnumeratorContext}
    (hmove : c.state.canMoveNext = true) (hzero : c.moveNextRemaining = 0)
    (hnext : moveNextImpl build data c = .ok next) :
    next = c.setErrorState .implementationLimit := by
  unfold moveNextImpl at hnext
  rw [debugAssert_of hmove, ok_bind, if_pos hzero] at hnext
  exact (Except.ok.inj hnext).symm

/-- Without budget `move_next_sibling` ends in an error. -/
theorem moveNextSiblingImpl_exhausted {next : Bool × EventHeaderEnumeratorContext}
    (hmove : c.state.canMoveNext = true) (hzero : c.moveNextRemaining = 0)
    (hnext : moveNextSiblingImpl build data c = .ok next) :
    next = c.setErrorState .implementationLimit := by
  unfold moveNextSiblingImpl at hnext
  rw [debugAssert_of hmove, ok_bind, moveNextSiblingLoop,
    if_neg fun hjump ↦ hjump.2 (Or.inr hzero)] at hnext
  obtain ⟨first, hfirst, hnext⟩ := bind_eq_ok.1 hnext
  obtain rfl := moveNextImpl_exhausted hmove hzero hfirst
  exact (Except.ok.inj hnext).symm

/-- A traversal that does not run out of budget goes on from moves that do not either. -/
theorem JsonFollows.not_exhausted {simpleArrays : Bool} {fuel : ℕ} {depth : ℤ} {wantName : Bool}
    {json : JsonWriter} {next : Bool × EventHeaderEnumeratorContext}
    {result : Option Bool × JsonWriter × EventHeaderEnumeratorContext}
    (h : JsonFollows build data writers simpleArrays fuel depth wantName json next result)
    (hlimit : result.2.2.lastError = .implementationLimit → result.2.2.state ≠ .error) :
    next ≠ c.setErrorState .implementationLimit := by
  rintro rfl
  rcases h with ⟨_, rfl⟩ | ⟨hmoved, _⟩
  · exact hlimit rfl rfl
  · cases hmoved

/-- The source writes an array of simple elements up to its end. -/
theorem writeJsonItem_eq_array {wantName : Bool} {json : JsonWriter} {item : JsonItem}
    (h : ArrayBeginItem data c) (hsize : c.elementSize ≠ 0)
    (hitem : writeJsonItem build data writers true wantName json c = .ok item) :
    ∃ written, item = .array written := by
  unfold writeJsonItem at hitem
  rw [h.state_eq] at hitem
  obtain ⟨info, hinfo, hitem⟩ := bind_eq_ok.1 hitem
  obtain ⟨named, _, hitem⟩ := bind_eq_ok.1 hitem
  obtain ⟨rfl, _⟩ := itemInfo_eq_ok hinfo
  have htype : (c.infoOf data).metadata.typeSize = c.elementSize := rfl
  rw [htype, if_pos (by simpa using hsize)] at hitem
  obtain ⟨written, _, hitem⟩ := bind_eq_ok.1 hitem
  exact ⟨written, (Except.ok.inj hitem).symm⟩

/-- The plain traversal, with whatever budget is to be left, gets behind the item that a move of the
source went over, with the same text, and goes on as the source does. -/
def PlainlyFollowed (build : Build) (data : List UInt8) (writers : ValueWriters) (depth : ℤ)
    (wantName : Bool) (json : JsonWriter) (c : EventHeaderEnumeratorContext) (depthNext : ℤ)
    (jsonNext : JsonWriter) (next : Bool × EventHeaderEnumeratorContext) : Prop :=
  ∀ budget, ∃ total second other,
    writeJsonLoop build data writers false (total + 1) depth wantName json (c.withBudget total) =
      (if ¬second.1 = true ∨ depthNext ≤ 0 then
          .ok (some jsonNext.jsonComma, jsonNext, second.2)
        else writeJsonLoop build data writers false (budget + 1) depthNext true jsonNext second.2) ∧
    SameOutcome other second next ∧ Moved data c second ∧ second.2.moveNextRemaining = budget

/-- An item that both traversals write alike. -/
theorem plainlyFollowed_item {depth : ℤ} {wantName : Bool} {json written : JsonWriter}
    {next : Bool × EventHeaderEnumeratorContext} (h : EnumeratorInv data c)
    (hmove : c.state.canMoveNext = true) (hvalue : c.substate ≠ .valueMetadata)
    (hremaining : c.moveNextRemaining ≠ 0)
    (hitem : writeJsonItem build data writers false wantName json c = .ok (.item written))
    (hnext : moveNextImpl build data c = .ok next) :
    PlainlyFollowed build data writers depth wantName json c (jsonDepth depth c.state) written
      next := by
  intro budget
  have hnonzero : budget + 1 ≠ 0 := Nat.succ_ne_zero budget
  obtain ⟨second, hsecond, hsame⟩ :=
    (moveNextImpl_related build h hremaining hnonzero).of_left_ok hnext
  have hstep : MoveStep build data (c.withBudget (budget + 1)) second :=
    (moveNextImpl_returns (h.withBudget (budget + 1)) hmove hvalue).of_eq_ok hsecond
  obtain ⟨other, hother⟩ := hsame.symm
  have hcost := hstep.remaining_eq (by exact hnonzero)
  refine ⟨budget + 1, second, other, ?_, hother, (hstep.moved (h.withBudget _)).of_frame rfl,
    Nat.succ.inj hcost⟩
  have hwritten : writeJsonItem build data writers false wantName json (c.withBudget (budget + 1)) =
      .ok (.item written) := hitem
  rw [writeJsonLoop, hwritten, ok_bind]
  dsimp only
  rw [hsecond, ok_bind]
  rfl

/-- An array of simple elements. -/
theorem plainlyFollowed_array {depth : ℤ} {wantName : Bool} {json written : JsonWriter}
    {next : Bool × EventHeaderEnumeratorContext} (h : EnumeratorInv data c)
    (hstate : c.state = .arrayBegin) (hvalue : c.substate ≠ .valueMetadata)
    (hsize : c.elementSize ≠ 0) (hremaining : c.moveNextRemaining ≠ 0) (hdepth : 0 ≤ depth)
    (hitem : writeJsonItem build data writers true wantName json c = .ok (.array written))
    (hnext : moveNextSiblingImpl build data c = .ok next) :
    PlainlyFollowed build data writers depth wantName json c depth written next := by
  intro budget
  have hjump : CanJumpArray (c.withBudget c.moveNextRemaining) :=
    ⟨hstate, not_or.mpr ⟨hsize, hremaining⟩⟩
  have hjumped : jumpArray build data (c.withBudget c.moveNextRemaining) = .ok next :=
    (moveNextSiblingImpl_of_canJump hjump).symm.trans hnext
  obtain ⟨hinv, elements, rfl, hrun⟩ := @writeJsonLoop_array_eq build data writers
    (c.withBudget (budget + 1 + c.stackTop.arrayCount + 1)) (budget + 1 + 1) (budget + 1) depth
    wantName json written (h.withBudget _) hstate hvalue hsize hdepth rfl hitem
  have hnonzero : budget + 1 ≠ 0 := Nat.succ_ne_zero budget
  obtain ⟨second, hsecond, hsame⟩ :=
    (jumpArray_related build h hvalue hjump rfl hnonzero hinv).of_right_ok hjumped
  have hstep := (moveNextImpl_returns hinv rfl (fun heq ↦ by cases heq)).of_eq_ok hsecond
  have hcost := hstep.remaining_eq (by exact hnonzero)
  refine ⟨budget + 1 + c.stackTop.arrayCount + 1, second, _, ?_, hsame,
    (hstep.moved hinv).of_frame rfl, Nat.succ.inj hcost⟩
  have hfuel : budget + 1 + c.stackTop.arrayCount + 1 + 1 =
      budget + 1 + 1 + c.stackTop.arrayCount + 1 := by omega
  rw [hfuel]
  refine hrun.trans ?_
  have hdepthEnd : jsonDepth (depth + 1) .arrayEnd = depth := add_sub_cancel_right depth 1
  have hended : ∀ pos left, writeJsonItem build data writers false true elements
      ((c.withBudget (budget + 1 + c.stackTop.arrayCount + 1)).behindElements pos left) =
        .ok (.item elements.writeArrayEnd) := fun _ _ ↦ rfl
  have hstateEnd : ∀ pos left, ((c.withBudget (budget + 1 + c.stackTop.arrayCount + 1)).behindElements
      pos left).state = .arrayEnd := fun _ _ ↦ rfl
  rw [writeJsonLoop, hended, ok_bind]
  dsimp only
  rw [hstateEnd, hdepthEnd]
  exact (congrArg (· >>= _) hsecond).trans rfl

/-- Assumes: the invariant, in a state of value enumeration that allows a move, inside an item only
with names wanted, and a traversal of the source that does not run out of budget. With some budget
the plain traversal writes the same text and ends alike. -/
theorem writeJsonLoop_expands {fuel : ℕ} {depth : ℤ} {wantName : Bool} {json : JsonWriter}
    {result : Option Bool × JsonWriter × EventHeaderEnumeratorContext} (h : EnumeratorInv data c)
    (hmove : c.state.canMoveNext = true) (hvalue : c.substate ≠ .valueMetadata)
    (hdepth : 0 ≤ depth) (hname : 0 < depth → wantName = true)
    (hcode : writeJsonLoop build data writers true fuel depth wantName json c = .ok result)
    (hlimit : result.2.2.lastError = .implementationLimit → result.2.2.state ≠ .error) :
    ∃ budget plain, writeJsonLoop build data writers false (budget + 1) depth wantName json
        (c.withBudget budget) = .ok plain ∧
      SameJson data c plain result := by
  induction fuel generalizing depth wantName json c with
  | zero => cases hcode
  | succ fuel ih =>
    -- what follows the move of the source, the plain traversal follows
    have hfollow : ∀ {next : Bool × EventHeaderEnumeratorContext} {depthNext : ℤ} {wantNext : Bool}
        {jsonNext : JsonWriter}, (0 < depthNext → wantNext = true) →
        PlainlyFollowed build data writers depth wantName json c depthNext jsonNext next →
        JsonFollows build data writers true fuel depthNext wantNext jsonNext next result →
        ∃ budget plain, writeJsonLoop build data writers false (budget + 1) depth wantName json
            (c.withBudget budget) = .ok plain ∧ SameJson data c plain result := by
      intro next depthNext wantNext jsonNext hwant hplainly hfollows
      rcases hfollows with ⟨hstop, rfl⟩ | ⟨hgoesOn, hpositive, hrun⟩
      · obtain ⟨total, second, other, hrun, hsame, hmoved, _⟩ := hplainly 0
        refine ⟨total, (some jsonNext.jsonComma, jsonNext, second.2), ?_, ?_⟩
        · rw [hrun, if_pos ?_]
          cases hsame with
          | item => exact hstop.imp (by simp) id
          | ended => exact Or.inl (by simp)
        · cases hsame with
          | item middle => exact ⟨rfl, rfl, true, other, .item middle, hmoved⟩
          | ended hstale => exact ⟨rfl, rfl, false, other, .ended hstale, hmoved⟩
      · obtain ⟨_, second, _, _, hsame, hmoved, hzero⟩ := hplainly 0
        obtain rfl := hsame.eq_of_moved hgoesOn hzero
        rw [hwant hpositive] at hrun
        have hinv : EnumeratorInv data next.2 := hmoved.inv.withBudget next.2.moveNextRemaining
        obtain ⟨budget, plain, hplain, hend⟩ := ih hinv hmoved.stops hmoved.value hpositive.le
          (fun _ ↦ rfl) hrun
        obtain ⟨total, second, _, hrun', hsame', _, hbudget⟩ := hplainly budget
        obtain rfl := hsame'.eq_of_moved hgoesOn hbudget
        rw [if_neg (not_or.mpr ⟨not_not.mpr rfl, not_le.mpr hpositive⟩)] at hrun'
        exact ⟨total, plain, hrun'.trans hplain, hend.of_frame hmoved.frame_eq⟩
    rw [writeJsonLoop] at hcode
    obtain ⟨item, hitem, hcode⟩ := bind_eq_ok.1 hcode
    by_cases hsimple : c.state = .arrayBegin ∧ c.elementSize ≠ 0
    · obtain ⟨hstate, hsize⟩ := hsimple
      obtain ⟨_, harray⟩ := h.arrayBegin hstate hvalue
      obtain ⟨written, rfl⟩ := writeJsonItem_eq_array harray hsize hitem
      obtain ⟨next, hnext, hcode⟩ := bind_eq_ok.1 hcode
      have hfollows := jsonFollows_of_ite hcode
      have hremaining : c.moveNextRemaining ≠ 0 := fun hzero ↦ by
        have hexhausted := moveNextSiblingImpl_exhausted hmove hzero hnext
        exact hfollows.not_exhausted hlimit hexhausted
      exact hfollow hname (plainlyFollowed_array h hstate hvalue hsize hremaining hdepth hitem hnext)
        hfollows
    · rw [writeJsonItem_of_plain fun hstate ↦ by
        by_contra hsize
        exact hsimple ⟨hstate, hsize⟩] at hitem
      obtain ⟨written, rfl⟩ := writeJsonItem_plain hmove hitem
      obtain ⟨next, hnext, hcode⟩ := bind_eq_ok.1 hcode
      have hfollows := jsonFollows_of_ite hcode
      have hremaining : c.moveNextRemaining ≠ 0 := fun hzero ↦
        hfollows.not_exhausted hlimit (moveNextImpl_exhausted hmove hzero hnext)
      exact hfollow (fun _ ↦ rfl) (plainlyFollowed_item h hmove hvalue hremaining hitem hnext)
        hfollows

/-! ### Both traversals end -/

theorem itemInfo_ends (build : Build) (data : List UInt8) (c : EventHeaderEnumeratorContext) :
    Ends (itemInfo build data c) := by
  refine Ends.bind (Ends.debugAssert _ _) fun _ ↦ Ends.bind (Ends.slice _ _ _) fun _ ↦ ?_
  refine Ends.bind ?_ fun _ ↦ Ends.ok _
  refine Ends.bind (Ends.debugAssert _ _) fun _ ↦ Ends.bind (Ends.debugAssert _ _) fun _ ↦ ?_
  refine Ends.bind (Ends.debugAssert _ _) fun _ ↦ Ends.bind (Ends.debugAssert _ _) fun _ ↦ ?_
  exact Ends.bind (Ends.debugAssert _ _) fun _ ↦ Ends.bind (Ends.debugAssert _ _) fun _ ↦ Ends.ok _

theorem writeJsonItem_ends (build : Build) (data : List UInt8) (writers : ValueWriters)
    (simpleArrays wantName : Bool) (json : JsonWriter) (c : EventHeaderEnumeratorContext) :
    Ends (writeJsonItem build data writers simpleArrays wantName json c) := by
  have hname (wanted : Bool) (info : EventHeaderItemInfo) :
      Ends (writeJsonName data writers wanted info json) :=
    Ends.ite (Ends.bind (Ends.slice _ _ _) fun _ ↦ Ends.ok _) (Ends.ok json)
  unfold writeJsonItem
  cases c.state with
  | beforeFirstItem | arrayEnd | structEnd => exact Ends.ok _
  | error | afterLastItem => exact Ends.bind (Ends.debugAssert _ _) fun _ ↦ Ends.ok _
  | value =>
    refine Ends.bind (itemInfo_ends build data c) fun _ ↦ Ends.bind (hname _ _) fun _ ↦ ?_
    exact Ends.bind (writeJsonScalarTo_ends build _) fun _ ↦ Ends.ok _
  | structBegin =>
    exact Ends.bind (itemInfo_ends build data c) fun _ ↦ Ends.bind (hname _ _) fun _ ↦ Ends.ok _
  | arrayBegin =>
    refine Ends.bind (itemInfo_ends build data c) fun _ ↦ Ends.bind (hname _ _) fun _ ↦ ?_
    exact Ends.ite (Ends.bind (writeJsonSimpleArrayTo_ends build writers _ _) fun _ ↦ Ends.ok _)
      (Ends.ok _)

/-- Only arrays of simple elements are written up to their end. -/
theorem writeJsonItem_simple {simpleArrays wantName : Bool} {json written : JsonWriter}
    (hitem : writeJsonItem build data writers simpleArrays wantName json c = .ok (.array written)) :
    c.state = .arrayBegin ∧ c.elementSize ≠ 0 := by
  unfold writeJsonItem at hitem
  cases hstate : c.state with
  | arrayBegin =>
    rw [hstate] at hitem
    obtain ⟨info, hinfo, hitem⟩ := bind_eq_ok.1 hitem
    obtain ⟨_, _, hitem⟩ := bind_eq_ok.1 hitem
    obtain ⟨rfl, _⟩ := itemInfo_eq_ok hinfo
    refine ⟨rfl, fun hzero ↦ ?_⟩
    have htype : (c.infoOf data).metadata.typeSize = 0 := hzero
    rw [htype, if_neg (by simp)] at hitem
    cases hitem
  | beforeFirstItem | arrayEnd | structEnd =>
    rw [hstate] at hitem
    cases hitem
  | error | afterLastItem =>
    rw [hstate] at hitem
    obtain ⟨_, _, hitem⟩ := bind_eq_ok.1 hitem
    cases hitem
  | value =>
    rw [hstate] at hitem
    obtain ⟨_, _, hitem⟩ := bind_eq_ok.1 hitem
    obtain ⟨_, _, hitem⟩ := bind_eq_ok.1 hitem
    obtain ⟨_, _, hitem⟩ := bind_eq_ok.1 hitem
    cases hitem
  | structBegin =>
    rw [hstate] at hitem
    obtain ⟨_, _, hitem⟩ := bind_eq_ok.1 hitem
    obtain ⟨_, _, hitem⟩ := bind_eq_ok.1 hitem
    cases hitem

/-- The sibling move over an array of simple elements costs budget. -/
theorem moveNextSiblingImpl_simpleArray (build : Build) (h : EnumeratorInv data c)
    (hstate : c.state = .arrayBegin) (hvalue : c.substate ≠ .valueMetadata)
    (hsize : c.elementSize ≠ 0) :
    Returns (moveNextSiblingImpl build data c) fun result ↦ Moved data c result ∧
      (result.1 = true → result.2.moveNextRemaining + 1 = c.moveNextRemaining) := by
  by_cases hzero : c.moveNextRemaining = 0
  · unfold moveNextSiblingImpl
    rw [debugAssert_of (by rw [hstate]; rfl), ok_bind, moveNextSiblingLoop,
      if_neg fun hjump ↦ hjump.2 (Or.inr hzero)]
    unfold moveNextImpl
    rw [debugAssert_of (by rw [hstate]; rfl), ok_bind, if_pos hzero]
    exact Returns.ok ⟨moved_setErrorState h.positioned _, fun hmoved ↦ by cases hmoved⟩
  · have hjump : CanJumpArray c := ⟨hstate, not_or.mpr ⟨hsize, hzero⟩⟩
    rw [moveNextSiblingImpl_of_canJump hjump]
    refine (jumpArray_returns h hvalue hjump).mono fun result hresult ↦ ⟨hresult.2, fun _ ↦ ?_⟩
    have hcost : result.2.moveNextRemaining = c.moveNextRemaining - 1 := hresult.1.remaining_eq
    omega

/-- Assumes: the invariant, in a state of value enumeration that allows a move, and more iterations
than budget. The traversal ends. -/
theorem writeJsonLoop_ends (simpleArrays : Bool) (fuel : ℕ) (depth : ℤ) (wantName : Bool)
    (json : JsonWriter) (h : EnumeratorInv data c) (hmove : c.state.canMoveNext = true)
    (hvalue : c.substate ≠ .valueMetadata) (hfuel : c.moveNextRemaining < fuel) :
    Ends (writeJsonLoop build data writers simpleArrays fuel depth wantName json c) := by
  induction fuel generalizing depth wantName json c with
  | zero => omega
  | succ fuel ih =>
    have hitem := writeJsonItem_ends build data writers simpleArrays wantName json c
    have hgoesOn : ∀ {next : Bool × EventHeaderEnumeratorContext} {depthNext : ℤ} {wantNext : Bool}
        {jsonNext : JsonWriter}, Moved data c next →
        (next.1 = true → next.2.moveNextRemaining + 1 = c.moveNextRemaining) →
        Ends (if ¬next.1 = true ∨ depthNext ≤ 0 then .ok (some jsonNext.jsonComma, jsonNext, next.2)
          else writeJsonLoop build data writers simpleArrays fuel depthNext wantNext jsonNext
            next.2) := by
      intro next depthNext wantNext jsonNext hmoved hcost
      by_cases hstop : ¬next.1 = true ∨ depthNext ≤ 0
      · rw [if_pos hstop]
        exact Ends.ok _
      · rw [if_neg hstop]
        have htrue : next.1 = true := by simpa using (not_or.mp hstop).1
        have hcost' := hcost htrue
        exact ih depthNext wantNext jsonNext hmoved.inv (hmoved.stops.trans htrue) hmoved.value
          (by omega)
    have hoverflow : ¬CounterOverflow build .unfinished := fun hfault ↦ by cases hfault.1
    rw [writeJsonLoop]
    cases hwritten : writeJsonItem build data writers simpleArrays wantName json c with
    | error fault =>
      rw [hwritten] at hitem
      exact fun hfault ↦ hitem (congrArg Except.error (Except.error.inj hfault))
    | ok item =>
      rw [ok_bind]
      cases item with
      | invalid => exact Ends.ok _
      | array written =>
        obtain ⟨hstate, hsize⟩ := writeJsonItem_simple hwritten
        refine Ends.bind_of_returnsUnless
          (.of_returns (moveNextSiblingImpl_simpleArray build h hstate hvalue hsize)) hoverflow ?_
        exact fun next hnext ↦ hgoesOn hnext.1 hnext.2
      | item written =>
        refine Ends.bind_of_returnsUnless (moveNextImpl_returns h hmove hvalue) hoverflow ?_
        exact fun next hstep ↦ hgoesOn (hstep.moved h) hstep.remaining_of_moved

/-- Assumes: an event that `enumerate_with_name_and_data` accepts, and a state of value enumeration
that permitted operations reach from there and that allows a move. Writing JSON ends, with every
budget, and so does the plain traversal, which makes one `move_next` for every item and writes each
element of an array from its own item. Where one of the two ends within its budget, so does the
other, given enough: the same text is written, the same result returned, and the contexts have the
same behaviour. -/
theorem writeJson_refines (build : Build) (writers : ValueWriters)
    (context : EventHeaderEnumeratorContext) (tracepointName data : List UInt8) (limit : ℕ)
    (start c : EventHeaderEnumeratorContext)
    (haccept : enumerateWithNameAndData data context tracepointName limit = .ok (.ok (), start))
    (hreaches : EnumeratorReaches build data start c) (hmove : c.state.canMoveNext = true)
    (hvalue : c.substate ≠ .valueMetadata) (dest : List UInt8) (addComma : Bool)
    (options : PerfConvertOptions) :
    (∀ simpleArrays budget, Ends (writeJsonItems build data writers simpleArrays dest addComma
      options (c.withBudget budget))) ∧
    (∀ result json plain,
      writeJsonItems build data writers false dest addComma options c =
        .ok (result, json, plain) → plain.lastError ≠ .implementationLimit →
      ∃ bulk, writeJsonItemAndMoveNextSiblingImpl build data writers dest addComma options c =
          .ok (result, json, bulk) ∧
        SameBehaviour build data plain bulk) ∧
    ∀ result json bulk,
      writeJsonItemAndMoveNextSiblingImpl build data writers dest addComma options c =
        .ok (result, json, bulk) → bulk.lastError ≠ .implementationLimit →
      ∃ budget plain, writeJsonItems build data writers false dest addComma options
          (c.withBudget budget) = .ok (result, json, plain) ∧
        SameBehaviour build data plain bulk := by
  obtain ⟨hstart, _⟩ :=
    (enumerateWithNameAndData_returns tracepointName limit).of_eq_ok haccept rfl
  obtain ⟨hinv, _⟩ := hstart.reaches hreaches
  have hassert (budget : ℕ) : debugAssert build ((c.withBudget budget).state.canMoveNext = true) =
      .ok () := debugAssert_of hmove
  have hunasserted (simpleArrays : Bool) (budget : ℕ) :
      writeJsonItems build data writers simpleArrays dest addComma options (c.withBudget budget) =
        writeJsonLoop build data writers simpleArrays (budget + 1) 0 (options.hasFlag .rootName)
          (.new dest options addComma) (c.withBudget budget) := by
    unfold writeJsonItems
    rw [hassert, ok_bind]
    rfl
  have hsame {left right : Option Bool × JsonWriter × EventHeaderEnumeratorContext}
      (h : SameJson data c left right) :
      right = (left.1, left.2.1, right.2.2) ∧ SameBehaviour build data left.2.2 right.2.2 := by
    obtain ⟨hresult, hjson, moved, budget, houtcome, hmoved⟩ := h
    exact ⟨by rw [hresult, hjson], (houtcome.sameBehaviour build hmoved).2⟩
  refine ⟨fun simpleArrays budget ↦ ?_, fun result json plain hplain hlimit ↦ ?_,
    fun result json bulk hbulk hlimit ↦ ?_⟩
  · rw [hunasserted]
    exact writeJsonLoop_ends simpleArrays _ _ _ _ (hinv.withBudget budget) hmove hvalue
      (Nat.lt_succ_self budget)
  · have hloop := (hunasserted false c.moveNextRemaining).symm.trans hplain
    obtain ⟨bulk, hbulk, hjson⟩ := writeJsonLoop_refines _ hinv hmove hvalue le_rfl
      (fun hpositive ↦ absurd hpositive (lt_irrefl 0)) le_rfl (Nat.lt_succ_self _) hloop hlimit
    obtain ⟨heq, hbehaviour⟩ := hsame hjson
    exact ⟨bulk.2.2, ((hunasserted true c.moveNextRemaining).trans hbulk).trans (by rw [heq]),
      hbehaviour⟩
  · have hloop := (hunasserted true c.moveNextRemaining).symm.trans hbulk
    obtain ⟨budget, plain, hplain, hjson⟩ := writeJsonLoop_expands hinv hmove hvalue le_rfl
      (fun hpositive ↦ absurd hpositive (lt_irrefl 0)) hloop fun heq ↦ absurd heq hlimit
    obtain ⟨heq, hbehaviour⟩ := hsame hjson
    refine ⟨budget, plain.2.2, (hunasserted false budget).trans (hplain.trans ?_), hbehaviour⟩
    have hresult : result = plain.1 := congrArg Prod.fst heq
    have hwriter : json = plain.2.1 := congrArg (fun written ↦ written.2.1) heq
    rw [hresult, hwriter]

/-- A byte of a JSON string, escaped where it has to be. -/
def sampleEscape (byte : UInt8) : List UInt8 :=
  if byte = 0x22 ∨ byte = 0x5C then [0x5C, byte]
  else if byte < 0x20 then [0x5C, 0x75, 0x30, 0x30, 0x30 + byte / 16,
    if byte % 16 < 10 then 0x30 + byte % 16 else 0x57 + byte % 16]
  else [byte]

/-- Writers that write natural numbers in decimal and names of ASCII characters. -/
def sampleWriters : ValueWriters where
  leaf _ leaf := match leaf with
    | .display value => decimal value.toNat
    | _ => ascii "null"
  utf8WithJsonEscape name := name.flatMap sampleEscape

/-- What the array of the sample event is written as. -/
def sampleArrayJson : JsonWriter where
  dest := ascii ", \"a\": [ 1, 2 ]"
  options := PerfConvertOptions.space ||| PerfConvertOptions.rootName
  jsonComma := true
  jsonSpace := true

/-- The bulk and the plain traversal of the sample array write the same text and arrive at the field
behind it. -/
theorem sampleArrayEvent_json :
    ∃ bulk, writeJsonItemAndMoveNextSiblingImpl ⟨true, .little, true⟩ sampleArrayEvent sampleWriters
        [] true sampleArrayJson.options sampleArrayBegin = .ok (some true, sampleArrayJson, bulk) ∧
      SameBehaviour ⟨true, .little, true⟩ sampleArrayEvent sampleArrayPlain bulk := by
  have haccept : enumerateWithNameAndData sampleArrayEvent new sampleName 10 =
      .ok (.ok (), sampleArrayStart) := by decide +kernel
  have hfirst : moveNextImpl ⟨true, .little, true⟩ sampleArrayEvent sampleArrayStart =
      .ok (true, sampleArrayBegin) := by decide +kernel
  have hpermitted : EnumeratorOp.moveNext.Permitted sampleArrayStart := by decide +kernel
  obtain ⟨_, hrefines, _⟩ := writeJson_refines ⟨true, .little, true⟩ sampleWriters new sampleName
    sampleArrayEvent 10 sampleArrayStart sampleArrayBegin haccept (.step .refl hpermitted hfirst)
    (by decide +kernel) (by decide +kernel) [] true sampleArrayJson.options
  exact hrefines (some true) sampleArrayJson sampleArrayPlain (by decide +kernel) (by decide +kernel)

end EventHeaderEnumeratorContext

end Tracepoints
