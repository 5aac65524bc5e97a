import Tracepoints.Enumerator.Steps
import Tracepoints.Lib.Placed

/-!
# Fields as they are written

What a writer of events puts into metadata and data, apart from any writer: a definition with its name and
its type (`FieldDecl`), a value with the bytes it takes and the bytes it shows (`EncodedValue`), and the
fields of an event with the members of structs (`FieldForest`). The enumerator reads them back: a
definition where it is placed (`fieldAt_decl`), and a value (`startValue_written`).
-/

set_option autoImplicit false
set_option relaxedAutoImplicit false

namespace Tracepoints

open Exec EventHeaderEnumeratorContext

/-! ### Definitions -/

/-- The definition of a field: its name, its type and the bytes of its type. -/
structure FieldDecl where
  name : List UInt8
  fieldType : FieldType
  typeBytes : List UInt8

/-- The ways to write a type: the encoding alone, with a format, or with a format and a tag. -/
inductive TypeWritten (order : ByteOrder) : FieldType → List UInt8 → Prop
  | short {encoding : FieldEncoding} :
      TypeWritten order ⟨encoding, FieldFormat.default, 0⟩ [encoding]
  | formatted {encoding : FieldEncoding} {format : FieldFormat} :
      TypeWritten order ⟨encoding, format, 0⟩ [encoding ||| FieldEncoding.chainFlag, format]
  | tagged {encoding : FieldEncoding} {format : FieldFormat} {tag : ℕ} (htag : tag < 65536) :
      TypeWritten order ⟨encoding, format, tag⟩
        ([encoding ||| FieldEncoding.chainFlag, format ||| FieldFormat.chainFlag] ++
          order.toBytes 2 tag)

/-- The bytes of a definition in the metadata. -/
def FieldDecl.bytes (decl : FieldDecl) : List UInt8 := decl.name ++ 0 :: decl.typeBytes

/-- A definition that is written as it should be: a name without NUL, and a type that leaves the chain
flags to the way it is written. -/
structure FieldDecl.Valid (order : ByteOrder) (decl : FieldDecl) : Prop where
  name : 0 ∉ decl.name
  written : TypeWritten order decl.fieldType decl.typeBytes
  encoding : FieldEncoding.hasChainFlag decl.fieldType.encoding = false
  format : FieldFormat.hasChainFlag decl.fieldType.format = false

theorem FieldEncoding.chain_facts (encoding : FieldEncoding) (h : hasChainFlag encoding = false) :
    withoutChainFlag encoding = encoding ∧ hasChainFlag (encoding ||| chainFlag) = true ∧
      withoutChainFlag (encoding ||| chainFlag) = encoding := by
  cases encoding with | ofBitVec bits => revert bits; decide +kernel

theorem FieldFormat.chain_facts (format : FieldFormat) (h : hasChainFlag format = false) :
    withoutFlags format = format ∧ hasChainFlag (format ||| chainFlag) = true ∧
      withoutFlags (format ||| chainFlag) = format := by
  cases format with | ofBitVec bits => revert bits; decide +kernel

theorem TypeWritten.length_pos {order : ByteOrder} {typ : FieldType} {bytes : List UInt8}
    (h : TypeWritten order typ bytes) : 0 < bytes.length := by
  cases h <;> simp

/-- A type is read back. -/
theorem typeAt_written {order : ByteOrder} {typ : FieldType} {bytes data : List UInt8}
    {metaEnd offset : ℕ} (h : TypeWritten order typ bytes)
    (hencoding : FieldEncoding.hasChainFlag typ.encoding = false)
    (hformat : FieldFormat.hasChainFlag typ.format = false) (hplaced : PlacedAt data offset bytes)
    (hle : offset + bytes.length ≤ metaEnd) :
    typeAt order data metaEnd offset = (typ, offset + bytes.length) := by
  have hdefault : FieldFormat.withoutFlags FieldFormat.default = FieldFormat.default := by decide
  obtain ⟨hself, hchain, hback⟩ := FieldEncoding.chain_facts typ.encoding hencoding
  obtain ⟨hformatSelf, hformatChain, hformatBack⟩ := FieldFormat.chain_facts typ.format hformat
  unfold typeAt
  cases h with
  | short =>
    rw [hplaced.getD_eq]
    simp only [hencoding, Bool.false_eq_true, if_false, hself, hdefault, List.length_singleton]
  | formatted =>
    have hsecond := hplaced.tail
    simp only [List.length_cons, List.length_nil, Nat.zero_add] at hle
    rw [hplaced.getD_eq, hsecond.getD_eq]
    simp only [hchain, if_true, hformat, Bool.false_eq_true, if_false, hback, hformatSelf]
    rw [if_neg (by omega)]
    rfl
  | tagged htag =>
    obtain ⟨hfirst, htagAt⟩ := placedAt_append.mp hplaced
    have hsecond := hfirst.tail
    simp only [List.length_append, List.length_cons, List.length_nil, Nat.zero_add,
      ByteOrder.length_toBytes] at hle htagAt
    have htake := htagAt.take_drop
    rw [ByteOrder.length_toBytes] at htake
    rw [hfirst.getD_eq, hsecond.getD_eq]
    simp only [hchain, if_true, hformatChain, hback, hformatBack]
    rw [if_neg (by omega), if_neg (by omega), htake,
      ByteOrder.ofBytes_toBytes (by simpa using htag)]
    simp

/-- A name ends at its NUL. -/
theorem nulAt_placed {name data : List UInt8} {start stop : ℕ} (hname : 0 ∉ name)
    (hplaced : PlacedAt data start (name ++ [0])) (hlt : start + name.length < stop) :
    nulAt data start stop = start + name.length := by
  obtain ⟨behind, hdrop⟩ := hplaced
  have htake : (data.drop start).take (stop - start) =
      name ++ 0 :: behind.take (stop - start - (name.length + 1)) := by
    rw [← hdrop, List.append_assoc, List.take_append, List.take_of_length_le (by omega),
      show stop - start - name.length = stop - start - (name.length + 1) + 1 by omega]
    rfl
  have hne : ∀ byte ∈ name, decide (byte ≠ 0) = true := by
    intro byte hbyte
    simpa using fun hzero : byte = 0 ↦ hname (hzero ▸ hbyte)
  unfold nulAt
  rw [htake, List.takeWhile_append_of_pos hne]
  simp

theorem FieldDecl.length_bytes (decl : FieldDecl) :
    decl.bytes.length = decl.name.length + 1 + decl.typeBytes.length := by
  unfold FieldDecl.bytes
  rw [List.length_append, List.length_cons]
  omega

theorem FieldDecl.bytes_eq (decl : FieldDecl) : decl.bytes = (decl.name ++ [0]) ++ decl.typeBytes := by
  unfold FieldDecl.bytes
  rw [List.append_assoc, List.singleton_append]

/-- The type of a definition is read back. -/
theorem typeAt_decl {order : ByteOrder} {decl : FieldDecl} {data : List UInt8} {metaEnd offset : ℕ}
    (h : decl.Valid order) (hplaced : PlacedAt data offset decl.bytes)
    (hle : offset + decl.bytes.length ≤ metaEnd) :
    typeAt order data metaEnd (offset + decl.name.length + 1) =
      (decl.fieldType, offset + decl.bytes.length) := by
  have hlength := decl.length_bytes
  rw [decl.bytes_eq] at hplaced
  have htype := (placedAt_append.mp hplaced).2
  rw [List.length_append, List.length_singleton, ← Nat.add_assoc] at htype
  rw [typeAt_written h.written h.encoding h.format htype (by omega), hlength]
  congr 1
  omega

/-- A definition is read back where it is placed. -/
theorem fieldAt_decl {order : ByteOrder} {decl : FieldDecl} {data : List UInt8} {metaEnd offset : ℕ}
    (h : decl.Valid order) (hplaced : PlacedAt data offset decl.bytes)
    (hle : offset + decl.bytes.length ≤ metaEnd) :
    fieldAt order data metaEnd offset =
      some ⟨decl.name.length, decl.fieldType, offset + decl.bytes.length⟩ := by
  have hpos := h.written.length_pos
  have hlength := decl.length_bytes
  have htype := typeAt_decl h hplaced hle
  rw [decl.bytes_eq] at hplaced
  have hnul : nulAt data offset metaEnd = offset + decl.name.length :=
    nulAt_placed h.name (placedAt_append.mp hplaced).1 (by omega)
  unfold fieldAt
  dsimp only
  rw [hnul, if_neg (by omega), htype, Nat.add_sub_cancel_left]

/-! ### Values -/

/-- A value: the bytes that it takes, and those of them that an item shows. -/
structure EncodedValue where
  raw : List UInt8
  cooked : List UInt8

/-- The encodings of strings ended by a zero element, with the size of an element. -/
def zstringEncodings : List (FieldEncoding × ℕ) :=
  [(FieldEncoding.zStringChar8, 1), (FieldEncoding.zStringChar16, 2),
    (FieldEncoding.zStringChar32, 4)]

/-- The encodings of strings with a count of elements, with the shift of their size. -/
def countedEncodings : List (FieldEncoding × ℕ) :=
  [(FieldEncoding.stringLength16Char8, 0), (FieldEncoding.binaryLength16Char8, 0),
    (FieldEncoding.stringLength16Char16, 1), (FieldEncoding.stringLength16Char32, 2)]

/-- How a value of an encoding is written. -/
inductive ValueWritten (order : ByteOrder) : FieldEncoding → EncodedValue → Prop
  | fixed {encoding : FieldEncoding} {size : ℕ} {bytes : List UInt8}
      (hsize : arrayElementSize encoding = .ok size) (hpos : size ≠ 0)
      (hlength : bytes.length = size) : ValueWritten order encoding ⟨bytes, bytes⟩
  | zstring {encoding : FieldEncoding} {size : ℕ} {elements : List (List UInt8)}
      (hencoding : (encoding, size) ∈ zstringEncodings)
      (helements : ∀ element ∈ elements, element.length = size ∧ element.all (· = 0) = false) :
      ValueWritten order encoding
        ⟨elements.flatten ++ List.replicate size 0, elements.flatten⟩
  | counted {encoding : FieldEncoding} {shift count : ℕ} {bytes : List UInt8}
      (hencoding : (encoding, shift) ∈ countedEncodings) (hcount : count < 65536)
      (hlength : bytes.length = count * 2 ^ shift) :
      ValueWritten order encoding ⟨order.toBytes 2 count ++ bytes, bytes⟩

theorem fixed_cases {encoding : FieldEncoding} {size : ℕ} (hsize : arrayElementSize encoding = .ok size)
    (hpos : size ≠ 0) :
    encoding = FieldEncoding.value8 ∧ size = 1 ∨ encoding = FieldEncoding.value16 ∧ size = 2 ∨
      encoding = FieldEncoding.value32 ∧ size = 4 ∨ encoding = FieldEncoding.value64 ∧ size = 8 ∨
      encoding = FieldEncoding.value128 ∧ size = 16 := by
  unfold arrayElementSize at hsize
  split_ifs at hsize with h0 h1 h2 h3 h4 h5
  all_goals
    obtain rfl := Except.ok.inj hsize
    simp_all

section Values

variable {build : Build} {data : List UInt8} {c : EventHeaderEnumeratorContext}

theorem startValueFixedLength_placed {size : ℕ} {bytes : List UInt8} (hpos : c.dataPosRaw ≤ data.length)
    (hplaced : PlacedAt data c.dataPosRaw bytes) (hlength : bytes.length = size) :
    startValueFixedLength data { c with dataPosCooked := c.dataPosRaw, elementSize := 0 } size =
      .ok (true, c.withItem c.dataPosRaw size size size) := by
  have hle := hplaced.length_le hpos
  unfold startValueFixedLength
  dsimp only
  rw [sub_of_le hpos, ok_bind, if_neg (by omega)]
  rfl

/-- The search for a zero element passes the elements of a string and ends at the zero behind them. -/
theorem findZeroElementLoop_placed {size endPos : ℕ} {elements : List (List UInt8)} (hsize : 0 < size)
    (helements : ∀ element ∈ elements, element.length = size ∧ element.all (· = 0) = false)
    {pos count : ℕ} (hplaced : PlacedAt data pos (elements.flatten ++ List.replicate size 0))
    (hend : pos + elements.flatten.length < endPos) (hcount : elements.length < count)
    (hpos : pos ≤ data.length) :
    findZeroElementLoop data size endPos count pos = .ok (some (pos + elements.flatten.length)) := by
  induction elements generalizing pos count with
  | nil =>
    obtain ⟨count, rfl⟩ := Nat.exists_eq_add_of_lt hcount
    rw [List.flatten_nil, List.nil_append] at hplaced
    rw [List.flatten_nil, List.length_nil, Nat.add_zero] at hend
    have hslice := hplaced.slice_eq hpos
    rw [List.length_replicate] at hslice
    rw [List.length_nil, Nat.zero_add, findZeroElementLoop, if_pos hend, hslice, ok_bind,
      if_pos (by simp)]
    simp
  | cons element elements ih =>
    obtain ⟨count, rfl⟩ := Nat.exists_eq_add_of_lt hcount
    obtain ⟨⟨hlength, hnonzero⟩, hothers⟩ := List.forall_mem_cons.mp helements
    rw [List.flatten_cons, List.append_assoc] at hplaced
    obtain ⟨hfirst, hrest⟩ := placedAt_append.mp hplaced
    have hslice := hfirst.slice_eq hpos
    have hle := hfirst.length_le hpos
    rw [List.flatten_cons, List.length_append] at hend
    rw [hlength] at hslice hrest hle
    rw [List.length_cons, show elements.length + 1 + count + 1 = (elements.length + count + 1) + 1 by
      omega, findZeroElementLoop, if_pos (by omega), hslice, ok_bind, if_neg (by simp [hnonzero]),
      ih hothers hrest (by omega) (by omega) hle, List.flatten_cons, List.length_append, hlength,
      Nat.add_assoc]

theorem length_le_flatten {elements : List (List UInt8)}
    (h : ∀ element ∈ elements, 0 < element.length) : elements.length ≤ elements.flatten.length := by
  induction elements with
  | nil => exact Nat.zero_le _
  | cons element elements ih =>
    obtain ⟨hfirst, hothers⟩ := List.forall_mem_cons.mp h
    have hrest := ih hothers
    rw [List.flatten_cons, List.length_append, List.length_cons]
    omega

theorem startValueZstring_placed {size : ℕ} {elements : List (List UInt8)} (hsize : 0 < size)
    (helements : ∀ element ∈ elements, element.length = size ∧ element.all (· = 0) = false)
    (hplaced : PlacedAt data c.dataPosRaw (elements.flatten ++ List.replicate size 0))
    (hpos : c.dataPosRaw ≤ data.length) :
    startValueZstring data { c with dataPosCooked := c.dataPosRaw, elementSize := 0 } size =
      .ok (c.withItem c.dataPosRaw 0 elements.flatten.length (elements.flatten.length + size)) := by
  have hle := hplaced.length_le hpos
  rw [List.length_append, List.length_replicate] at hle
  have hcount : elements.length ≤ elements.flatten.length :=
    length_le_flatten fun element helement ↦ by
      rw [(helements element helement).1]
      exact hsize
  unfold startValueZstring
  dsimp only
  rw [sub_of_le (by omega), ok_bind,
    findZeroElementLoop_placed hsize helements hplaced (by omega) (by omega) hpos, ok_bind]
  dsimp only
  rw [sub_of_le (by omega), ok_bind, Nat.add_sub_cancel_left]
  rfl

theorem startValueString_placed {shift count : ℕ} {bytes : List UInt8} (hcount : count < 65536)
    (hlength : bytes.length = count * 2 ^ shift) (hpos : c.dataPosRaw ≤ data.length)
    (hplaced : PlacedAt data c.dataPosRaw (c.byteReader.toBytes 2 count ++ bytes)) :
    startValueString data { c with dataPosCooked := c.dataPosRaw, elementSize := 0 } shift =
      .ok (c.withItem (c.dataPosRaw + 2) 0 bytes.length (bytes.length + 2)) := by
  have hle := hplaced.length_le hpos
  rw [List.length_append, ByteOrder.length_toBytes] at hle
  unfold startValueString
  dsimp only
  rw [sub_of_le hpos, ok_bind, if_neg (by omega),
    (placedAt_append.mp hplaced).1.readUInt_eq (by decide) (by simpa using hcount), ok_bind, hlength]
  rfl

/-- The size that `start_array` gives the elements of an encoding is that of its values. -/
theorem ValueWritten.elementSize {order : ByteOrder} {encoding : FieldEncoding} {value : EncodedValue}
    (h : ValueWritten order encoding value) :
    ∃ size, arrayElementSize encoding = .ok size ∧
      (size ≠ 0 → value.raw.length = size ∧ value.cooked = value.raw) := by
  cases h with
  | fixed hsize _ hlength => exact ⟨_, hsize, fun _ ↦ ⟨hlength, rfl⟩⟩
  | zstring hencoding _ =>
    refine ⟨0, ?_, fun h ↦ absurd rfl h⟩
    simp only [zstringEncodings, List.mem_cons, Prod.mk.injEq, List.not_mem_nil, or_false] at hencoding
    rcases hencoding with ⟨rfl, -⟩ | ⟨rfl, -⟩ | ⟨rfl, -⟩ <;> rfl
  | counted hencoding _ _ =>
    refine ⟨0, ?_, fun h ↦ absurd rfl h⟩
    simp only [countedEncodings, List.mem_cons, Prod.mk.injEq, List.not_mem_nil, or_false] at hencoding
    rcases hencoding with ⟨rfl, -⟩ | ⟨rfl, -⟩ | ⟨rfl, -⟩ | ⟨rfl, -⟩ <;> rfl

/-- Assumes: a value at the data position, of the type in the metadata. The value is read back. -/
theorem startValue_written {value : EncodedValue} {size : ℕ} (hstate : c.state = .value)
    (htype : data[c.stackTop.nameOffset + c.stackTop.nameLen + 1]?.map
      FieldEncoding.withoutChainFlag = some c.fieldType.encoding)
    (hvalue : ValueWritten c.byteReader (FieldEncoding.withoutFlags c.fieldType.encoding) value)
    (hsize : arrayElementSize (FieldEncoding.withoutFlags c.fieldType.encoding) = .ok size)
    (hplaced : PlacedAt data c.dataPosRaw value.raw) (hpos : c.dataPosRaw ≤ data.length) :
    ∃ pos, PlacedAt data pos value.cooked ∧ pos ≤ data.length ∧
      startValue build data c =
        .ok (true, c.withItem pos size value.cooked.length value.raw.length) := by
  unfold startValue
  rw [sub_of_le hpos, ok_bind, debugAssert_of hstate, ok_bind, debugAssert_of htype, ok_bind]
  dsimp only
  have hfinish {pos cooked raw : ℕ} (hraw : c.dataPosRaw + raw ≤ data.length) :
      finishValue (c.withItem pos 0 cooked raw) (data.length - c.dataPosRaw) =
        (true, c.withItem pos 0 cooked raw) := by
    unfold finishValue
    rw [if_neg (by dsimp only [withItem]; omega)]
  generalize FieldEncoding.withoutFlags c.fieldType.encoding = encoding at hvalue hsize ⊢
  cases hvalue with
  | @fixed known bytes hknown hne hlength =>
    obtain rfl : known = size := Except.ok.inj (hknown.symm.trans hsize)
    have hfixed := startValueFixedLength_placed hpos hplaced hlength
    refine ⟨c.dataPosRaw, hplaced, hpos, ?_⟩
    dsimp only
    rw [hlength, ← hfixed]
    rcases fixed_cases hknown hne with ⟨rfl, rfl⟩ | ⟨rfl, rfl⟩ | ⟨rfl, rfl⟩ | ⟨rfl, rfl⟩ | ⟨rfl, rfl⟩ <;>
      rfl
  | @zstring width elements hencoding helements =>
    have hle := hplaced.length_le hpos
    dsimp only at hle
    rw [List.length_append, List.length_replicate] at hle
    refine ⟨c.dataPosRaw, (placedAt_append.mp hplaced).1, hpos, ?_⟩
    dsimp only
    rw [List.length_append, List.length_replicate]
    simp only [zstringEncodings, List.mem_cons, Prod.mk.injEq, List.not_mem_nil, or_false] at hencoding
    rcases hencoding with ⟨rfl, rfl⟩ | ⟨rfl, rfl⟩ | ⟨rfl, rfl⟩
    all_goals
      obtain rfl : 0 = size := Except.ok.inj hsize
      have hstring := startValueZstring_placed (by decide) helements hplaced hpos
      simp +decide only [if_false, if_true, hstring, ok_bind, hfinish hle, pure_eq_ok]
  | @counted shift count bytes hencoding hcount hlength =>
    have hle := hplaced.length_le hpos
    dsimp only at hle
    rw [List.length_append, ByteOrder.length_toBytes] at hle
    have hbytes := (placedAt_append.mp hplaced).2
    rw [ByteOrder.length_toBytes] at hbytes
    refine ⟨c.dataPosRaw + 2, hbytes, by omega, ?_⟩
    dsimp only
    have hstring := startValueString_placed hcount hlength hpos hplaced
    have hdone := @hfinish (c.dataPosRaw + 2) bytes.length (bytes.length + 2) (by omega)
    rw [List.length_append, ByteOrder.length_toBytes, Nat.add_comm 2]
    simp only [countedEncodings, List.mem_cons, Prod.mk.injEq, List.not_mem_nil, or_false] at hencoding
    rcases hencoding with ⟨rfl, rfl⟩ | ⟨rfl, rfl⟩ | ⟨rfl, rfl⟩ | ⟨rfl, rfl⟩
    all_goals
      obtain rfl : 0 = size := Except.ok.inj hsize
      simp +decide only [if_false, if_true, hstring, ok_bind, hdone, pure_eq_ok]

end Values

/-! ### Fields -/

/-- The fields of an event or of a struct. A field is a value, an array with its elements, or a struct
with its members. -/
inductive FieldForest
  | nil
  | scalar (decl : FieldDecl) (value : EncodedValue) (rest : FieldForest)
  | array (decl : FieldDecl) (elements : List EncodedValue) (rest : FieldForest)
  | struct (decl : FieldDecl) (members rest : FieldForest)

namespace FieldForest

/-- The number of fields, those of structs apart. -/
def count : FieldForest → ℕ
  | nil => 0
  | scalar _ _ rest => rest.count + 1
  | array _ _ rest => rest.count + 1
  | struct _ _ rest => rest.count + 1

/-- The depth of structs. -/
def depth : FieldForest → ℕ
  | nil => 0
  | scalar _ _ rest => rest.depth
  | array _ _ rest => rest.depth
  | struct _ members rest => max (members.depth + 1) rest.depth

/-- The definitions in the metadata. -/
def metaBytes : FieldForest → List UInt8
  | nil => []
  | scalar decl _ rest => decl.bytes ++ rest.metaBytes
  | array decl _ rest => decl.bytes ++ rest.metaBytes
  | struct decl members rest => decl.bytes ++ (members.metaBytes ++ rest.metaBytes)

/-- The values in the data. -/
def dataBytes (order : ByteOrder) : FieldForest → List UInt8
  | nil => []
  | scalar _ value rest => value.raw ++ rest.dataBytes order
  | array _ elements rest =>
    order.toBytes 2 elements.length ++ elements.flatMap EncodedValue.raw ++ rest.dataBytes order
  | struct _ members rest => members.dataBytes order ++ rest.dataBytes order

/-- Fields that are written as they should be. A struct has as many members as its format says; only at
the end of the metadata, where `last` says that nothing follows, some of them may be missing. -/
def WellFormed (order : ByteOrder) : Bool → FieldForest → Prop
  | _, nil => True
  | last, scalar decl value rest =>
    decl.Valid order ∧ FieldEncoding.isArray decl.fieldType.encoding = false ∧
      ValueWritten order (FieldEncoding.withoutFlags decl.fieldType.encoding) value ∧
      rest.WellFormed order last
  | last, array decl elements rest =>
    decl.Valid order ∧ FieldEncoding.isVariableLengthArray decl.fieldType.encoding = true ∧
      FieldEncoding.isConstantLengthArray decl.fieldType.encoding = false ∧
      FieldEncoding.withoutFlags decl.fieldType.encoding ≠ FieldEncoding.struct ∧
      (∃ size, arrayElementSize (FieldEncoding.withoutFlags decl.fieldType.encoding) = .ok size) ∧
      (∀ value ∈ elements,
        ValueWritten order (FieldEncoding.withoutFlags decl.fieldType.encoding) value) ∧
      elements.length < 65536 ∧ rest.WellFormed order last
  | last, struct decl members rest =>
    decl.Valid order ∧ decl.fieldType.encoding = FieldEncoding.struct ∧
      decl.fieldType.format ≠ FieldFormat.default ∧
      (members.count = decl.fieldType.format.toNat ∨
        members.count < decl.fieldType.format.toNat ∧ last = true ∧ rest.count = 0) ∧
      members.WellFormed order (last && rest.count == 0) ∧ rest.WellFormed order last

end FieldForest

end Tracepoints
