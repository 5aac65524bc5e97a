import Mathlib.Data.UInt
import Tracepoints.Perf.AttrOffsets

/-!
# Attributes of the other byte order

`PerfEventAttr::byte_swap` (`tracepoint_decode/src/perf_abi.rs`) against its documentation, that it
reverses the byte order of all fields. An attribute is compared field by field in its bytes:
`foreignImage` lays it out as a machine of the other byte order does, `fieldBytes_byteSwap` says which
fields `byte_swap` turns around, and `add_attr` sees either image cut off at any size
(`fieldBytes_readAttr`). Five fields are left as they are, so that the two images give the same
attribute only where those read the same in both directions (`swapsWhole_iff`).
-/

set_option autoImplicit false
set_option relaxedAutoImplicit false

namespace Tracepoints

open ByteOrder

/-! ### Bits of a byte -/

/-- The bits of a byte in reverse. -/
def reverseByte (byte : UInt8) : UInt8 := ⟨byte.toBitVec.reverse⟩

@[simp]
theorem reverseByte_reverseByte (byte : UInt8) : reverseByte (reverseByte byte) = byte := by
  unfold reverseByte
  rw [BitVec.reverse_reverse_eq]

theorem map_reverseByte_map_reverseByte (bytes : List UInt8) :
    (bytes.map reverseByte).map reverseByte = bytes := by
  rw [List.map_map]
  exact List.map_id'' reverseByte_reverseByte bytes

/-- A bit of a byte of an integer. -/
theorem getLsbD_ofNat_div (value index : ℕ) {bit : ℕ} (hbit : bit < 8) :
    (UInt8.ofNat (value / 256 ^ index)).toBitVec.getLsbD bit = value.testBit (8 * index + bit) := by
  have hpow : 256 ^ index = 2 ^ (8 * index) := by rw [Nat.pow_mul]
  rw [UInt8.toBitVec_ofNat', BitVec.getLsbD_ofNat, hpow, Nat.testBit_div_two_pow, Nat.add_comm bit]
  simp only [hbit, decide_true, Bool.true_and]

namespace PerfEventAttr

/-- Reversing the bits of an integer reverses its bytes and the bits of each. -/
theorem leBytes_reverseBits (value : UInt64) :
    leBytes 8 (reverseBits value).toNat = ((leBytes 8 value.toNat).map reverseByte).reverse := by
  apply List.ext_getElem
  · simp
  · intro index hindex _
    rw [length_leBytes] at hindex
    rw [getElem_leBytes, List.getElem_reverse, List.getElem_map, getElem_leBytes]
    apply UInt8.toBitVec_inj.1
    apply BitVec.eq_of_getLsbD_eq
    intro bit hbit
    unfold reverseByte
    rw [getLsbD_ofNat_div _ _ hbit, BitVec.getLsbD_reverse, BitVec.getMsbD_eq_getLsbD,
      getLsbD_ofNat_div _ _ (by omega), List.length_map, length_leBytes]
    change (value.toBitVec.reverse.toNat.testBit _) = _
    rw [BitVec.testBit_toNat, BitVec.getLsbD_reverse, BitVec.getMsbD_eq_getLsbD,
      ← BitVec.testBit_toNat]
    have hmirror : 64 - 1 - (8 * index + bit) = 8 * (8 - 1 - index) + (8 - 1 - bit) := by omega
    have hwide : 8 * index + bit < 64 := by omega
    simp only [hbit, hwide, hmirror, decide_true, Bool.true_and]
    rfl

variable (host : ByteOrder)

/-- The bytes of swapped integers. -/
theorem toBytes_swap16 (value : UInt16) :
    host.toBytes 2 (swap16 value).toNat = (host.toBytes 2 value.toNat).reverse := by
  rw [swap16, UInt16.toNat_ofNat_of_lt' (swapBytes_lt 2 _), toBytes_swapBytes]

theorem toBytes_swap32 (value : UInt32) :
    host.toBytes 4 (swap32 value).toNat = (host.toBytes 4 value.toNat).reverse := by
  rw [swap32, UInt32.toNat_ofNat_of_lt' (swapBytes_lt 4 _), toBytes_swapBytes]

theorem toBytes_swap64 (value : UInt64) :
    host.toBytes 8 (swap64 value).toNat = (host.toBytes 8 value.toNat).reverse := by
  rw [swap64, UInt64.toNat_ofNat_of_lt' (swapBytes_lt 8 _), toBytes_swapBytes]

/-- The bytes of reversed option bits. -/
theorem toBytes_reverseBits (value : UInt64) :
    host.toBytes 8 (reverseBits value).toNat
      = ((host.toBytes 8 value.toNat).map reverseByte).reverse := by
  cases host
  · exact leBytes_reverseBits value
  · rw [ByteOrder.toBytes, leBytes_reverseBits, ByteOrder.toBytes, List.map_reverse]

/-! ### Images -/

/-- The bytes of each field, as the host lays them out. -/
def fieldBytes (attr : PerfEventAttr) : List (List UInt8) :=
  Record.layout host (widths.zip attr.values)

/-- What a machine of the other byte order does to the bytes of each field: integers are turned
around, the bits of the bit-field are in the opposite order in each byte. -/
def foreignSwaps : List (List UInt8 → List UInt8) :=
  List.replicate 6 List.reverse ++ [List.map reverseByte] ++ List.replicate 15 List.reverse

/-- What `byte_swap` does to the bytes of each field. -/
def hostSwaps : List (List UInt8 → List UInt8) :=
  List.replicate 6 List.reverse ++ [List.map reverseByte] ++ List.replicate 7 List.reverse ++
    [id, id] ++ List.replicate 2 List.reverse ++ [id] ++ [List.reverse] ++ [id, id]

/-- Each field changed in its own way. -/
def applySwaps (swaps : List (List UInt8 → List UInt8)) (fields : List (List UInt8)) :
    List (List UInt8) :=
  List.zipWith (fun swap field ↦ swap field) swaps fields

/-- The image of an attribute on a machine of the other byte order. -/
def foreignImage (attr : PerfEventAttr) : List UInt8 :=
  (applySwaps foreignSwaps (attr.fieldBytes host)).flatten

theorem toBytes_eq_flatten (attr : PerfEventAttr) :
    attr.toBytes host = (attr.fieldBytes host).flatten :=
  Record.encode_eq_flatten host _

/-- The bytes of its fields determine an attribute. -/
theorem fieldBytes_inj {first second : PerfEventAttr} :
    first.fieldBytes host = second.fieldBytes host ↔ first = second := by
  constructor
  · intro h
    have hfirst := ofBytes_toBytes host first []
    rw [toBytes_eq_flatten, h, ← toBytes_eq_flatten, ofBytes_toBytes] at hfirst
    exact hfirst.symm
  · intro h
    rw [h]

/-- `byte_swap` in bytes. -/
theorem fieldBytes_byteSwap (attr : PerfEventAttr) :
    attr.byteSwap.fieldBytes host = applySwaps hostSwaps (attr.fieldBytes host) := by
  simp only [fieldBytes, Record.layout, widths, values, byteSwap, List.zip_cons_cons,
    List.zip_nil_left, List.map_cons, List.map_nil, toBytes_swap16, toBytes_swap32, toBytes_swap64,
    toBytes_reverseBits, List.reverse_reverse]
  rfl

/-- The fields that are read from an image are its parts. -/
theorem fieldBytes_ofBytes {bytes : List UInt8} (h : byteSize ≤ bytes.length) :
    (ofBytes host bytes).fieldBytes host = Record.split widths bytes := by
  have hfits (width : ℕ) (bytes : List UInt8) : host.ofBytes (bytes.take width) < 256 ^ width :=
    Nat.lt_of_lt_of_le (host.ofBytes_lt _)
      (Nat.pow_le_pow_right (by decide) (List.length_take_le width bytes))
  have h16 (bytes : List UInt8) : (UInt16.ofNat (host.ofBytes (bytes.take 2))).toNat
      = host.ofBytes (bytes.take 2) := UInt16.toNat_ofNat_of_lt' (hfits 2 bytes)
  have h32 (bytes : List UInt8) : (UInt32.ofNat (host.ofBytes (bytes.take 4))).toNat
      = host.ofBytes (bytes.take 4) := UInt32.toNat_ofNat_of_lt' (hfits 4 bytes)
  have h64 (bytes : List UInt8) : (UInt64.ofNat (host.ofBytes (bytes.take 8))).toNat
      = host.ofBytes (bytes.take 8) := UInt64.toNat_ofNat_of_lt' (hfits 8 bytes)
  have hvalues : (ofBytes host bytes).values = Record.decode host widths bytes := by
    simp only [ofBytes, ofValues, values, widths, Record.decode, List.getD_cons_zero,
      List.getD_cons_succ, h16, h32, h64]
  rw [fieldBytes, hvalues, Record.layout_decode]
  exact h

/-! ### Front and tail -/

/-- The fields of the first version of the struct, in its first 64 bytes. -/
def frontBytes (attr : PerfEventAttr) : List (List UInt8) :=
  [host.toBytes 4 attr.attrType.toNat, host.toBytes 4 attr.size.toNat,
    host.toBytes 8 attr.config.toNat, host.toBytes 8 attr.sampleTime.toNat,
    host.toBytes 8 attr.sampleType.toNat, host.toBytes 8 attr.readFormat.toNat,
    host.toBytes 8 attr.options.toNat, host.toBytes 4 attr.wakeupValue.toNat,
    host.toBytes 4 attr.bpType.toNat, host.toBytes 8 attr.config1.toNat]

/-- The fields behind the first 64 bytes. -/
def tailBytes (attr : PerfEventAttr) : List (List UInt8) :=
  [host.toBytes 8 attr.config2.toNat, host.toBytes 8 attr.branchSampleType.toNat,
    host.toBytes 8 attr.sampleRegsUser.toNat, host.toBytes 4 attr.sampleStackUser.toNat,
    host.toBytes 4 attr.clockid.toNat, host.toBytes 8 attr.sampleRegsIntr.toNat,
    host.toBytes 4 attr.auxWatermark.toNat, host.toBytes 2 attr.sampleMaxStack.toNat,
    host.toBytes 2 attr.reserved2.toNat, host.toBytes 4 attr.auxSampleSize.toNat,
    host.toBytes 4 attr.reserved3.toNat, host.toBytes 8 attr.sigData.toNat]

theorem fieldBytes_eq_append (attr : PerfEventAttr) :
    attr.fieldBytes host = attr.frontBytes host ++ attr.tailBytes host :=
  rfl

/-- What `byte_swap` does to the fields behind the first 64 bytes. -/
def hostTailSwaps : List (List UInt8 → List UInt8) := hostSwaps.drop 10

/-- The fields that `byte_swap` leaves as they are. -/
def missedBytes (attr : PerfEventAttr) : List (List UInt8) :=
  [host.toBytes 4 attr.clockid.toNat, host.toBytes 8 attr.sampleRegsIntr.toNat,
    host.toBytes 2 attr.reserved2.toNat, host.toBytes 4 attr.reserved3.toNat,
    host.toBytes 8 attr.sigData.toNat]

/-- The other fields behind the first 64 bytes, each with its offset. -/
def turnedBytes (attr : PerfEventAttr) : List (ℕ × List UInt8) :=
  [(64, host.toBytes 8 attr.config2.toNat), (72, host.toBytes 8 attr.branchSampleType.toNat),
    (80, host.toBytes 8 attr.sampleRegsUser.toNat), (88, host.toBytes 4 attr.sampleStackUser.toNat),
    (104, host.toBytes 4 attr.auxWatermark.toNat), (108, host.toBytes 2 attr.sampleMaxStack.toNat),
    (112, host.toBytes 4 attr.auxSampleSize.toNat)]

/-- The fields that `byte_swap` misses read the same in both directions. -/
def MissedPalindromic (attr : PerfEventAttr) : Prop :=
  ∀ field ∈ attr.missedBytes host, field.reverse = field

/-- An image that is cut off at a size cuts no other field apart, or only such that its parts in the
two images agree. -/
def CutHarmless (attr : PerfEventAttr) (size : ℕ) : Prop :=
  ∀ field ∈ attr.turnedBytes host,
    (Record.cut (size - field.1) field.2.reverse).reverse = Record.cut (size - field.1) field.2

/-- Turning the foreign fields around gives back those of the host exactly where the missed ones
are palindromic. -/
theorem applySwaps_foreign_iff (attr : PerfEventAttr) :
    applySwaps hostSwaps (applySwaps foreignSwaps (attr.fieldBytes host)) = attr.fieldBytes host ↔
      attr.MissedPalindromic host := by
  rw [fieldBytes_eq_append]
  simp only [applySwaps, hostSwaps, foreignSwaps, frontBytes, tailBytes, MissedPalindromic,
    missedBytes, List.replicate_succ, List.replicate_zero, List.cons_append, List.nil_append,
    List.zipWith_cons_cons, List.zipWith_nil_left, List.reverse_reverse, map_reverseByte_map_reverseByte, id,
    List.cons.injEq, true_and, and_true, List.forall_mem_cons, List.not_mem_nil, false_implies,
    implies_true]

/-- The front of an image that is cut off is whole. -/
theorem cutFields_fieldBytes (attr : PerfEventAttr) {size : ℕ} (h : 64 ≤ size) :
    Record.cutFields size 0 (attr.fieldBytes host)
      = attr.frontBytes host ++ Record.cutFields size 64 (attr.tailBytes host) := by
  have hfront : ((attr.frontBytes host).map List.length).sum = 64 := by
    simp only [frontBytes, List.map_cons, List.map_nil, ByteOrder.length_toBytes]
    rfl
  rw [fieldBytes_eq_append, Record.cutFields_append (by omega), hfront]

/-- The front of a foreign image that is cut off is whole, and `byte_swap` turns it around. -/
theorem applySwaps_cutFields (attr : PerfEventAttr) {size : ℕ} (h : 64 ≤ size) :
    applySwaps hostSwaps (Record.cutFields size 0 (applySwaps foreignSwaps (attr.fieldBytes host)))
      = attr.frontBytes host ++ applySwaps hostTailSwaps
        (Record.cutFields size 64 ((attr.tailBytes host).map List.reverse)) := by
  have hforeign : applySwaps foreignSwaps (attr.fieldBytes host)
      = applySwaps (foreignSwaps.take 10) (attr.frontBytes host)
        ++ (attr.tailBytes host).map List.reverse :=
    rfl
  have hfront : ((applySwaps (foreignSwaps.take 10) (attr.frontBytes host)).map List.length).sum
      = 64 := by
    simp only [applySwaps, foreignSwaps, frontBytes, List.replicate_succ, List.replicate_zero,
      List.cons_append, List.nil_append, List.take_succ_cons, List.take_zero,
      List.zipWith_cons_cons, List.zipWith_nil_left, List.map_cons, List.map_nil,
      List.length_reverse, List.length_map, ByteOrder.length_toBytes]
    rfl
  have hback : applySwaps (hostSwaps.take 10)
      (applySwaps (foreignSwaps.take 10) (attr.frontBytes host)) = attr.frontBytes host := by
    simp only [applySwaps, hostSwaps, foreignSwaps, frontBytes, List.replicate_succ,
      List.replicate_zero, List.cons_append, List.nil_append, List.take_succ_cons, List.take_zero,
      List.zipWith_cons_cons, List.zipWith_nil_left, List.reverse_reverse, map_reverseByte_map_reverseByte]
  have hlength : (hostSwaps.take 10).length
      = (applySwaps (foreignSwaps.take 10) (attr.frontBytes host)).length := rfl
  have hswaps : hostSwaps = hostSwaps.take 10 ++ hostTailSwaps :=
    (List.take_append_drop 10 hostSwaps).symm
  rw [hforeign, Record.cutFields_append (by omega), hfront, hswaps, applySwaps,
    List.zipWith_append hlength, ← applySwaps, ← applySwaps, hback]

/-- The tails of the two images agree exactly where no cut does harm. Assumes: the missed fields
are palindromic. -/
theorem tail_iff (attr : PerfEventAttr) (size : ℕ) (h : attr.MissedPalindromic host) :
    applySwaps hostTailSwaps (Record.cutFields size 64 ((attr.tailBytes host).map List.reverse))
        = Record.cutFields size 64 (attr.tailBytes host) ↔
      attr.CutHarmless host size := by
  simp only [MissedPalindromic, missedBytes, List.forall_mem_cons, List.not_mem_nil, false_implies,
    implies_true, and_true] at h
  obtain ⟨hclockid, hregsIntr, hreserved2, hreserved3, hsigData⟩ := h
  simp only [applySwaps, hostTailSwaps, hostSwaps, tailBytes, CutHarmless, turnedBytes,
    List.replicate_succ, List.replicate_zero, List.cons_append, List.nil_append, List.drop_succ_cons,
    List.drop_zero, List.map_cons, List.map_nil, Record.cutFields, ByteOrder.length_toBytes,
    List.length_reverse, List.zipWith_cons_cons, List.zipWith_nil_left, id, List.cons.injEq,
    List.forall_mem_cons, List.not_mem_nil, false_implies, implies_true, hclockid, hregsIntr,
    hreserved2, hreserved3, hsigData, true_and, and_true, Nat.reduceAdd]

/-! ### What is loaded -/

theorem map_length_fieldBytes (attr : PerfEventAttr) :
    (attr.fieldBytes host).map List.length = widths := by
  rw [fieldBytes_eq_append]
  simp only [frontBytes, tailBytes, List.cons_append, List.nil_append, List.map_cons, List.map_nil,
    ByteOrder.length_toBytes]
  rfl

theorem map_length_foreign (attr : PerfEventAttr) :
    (applySwaps foreignSwaps (attr.fieldBytes host)).map List.length = widths := by
  rw [fieldBytes_eq_append]
  simp only [applySwaps, foreignSwaps, frontBytes, tailBytes, List.replicate_succ,
    List.replicate_zero, List.cons_append, List.nil_append, List.zipWith_cons_cons,
    List.zipWith_nil_left, List.map_cons, List.map_nil, List.length_reverse, List.length_map,
    ByteOrder.length_toBytes]
  rfl

/-- An image has the size of the struct. -/
theorem length_flatten_of_widths {fields : List (List UInt8)}
    (h : fields.map List.length = widths) : fields.flatten.length = byteSize := by
  rw [List.length_flatten, h]
  rfl

/-- The fields that are loaded from an image that is cut off. -/
theorem fieldBytes_ofBytes_cut {fields : List (List UInt8)}
    (h : fields.map List.length = widths) (size : ℕ) :
    (ofBytes host (Record.cut size fields.flatten)).fieldBytes host
      = Record.cutFields size 0 fields := by
  have hlength : byteSize ≤ (Record.cut size fields.flatten).length := by
    rw [Record.length_cut, length_flatten_of_widths h]
  rw [fieldBytes_ofBytes host hlength, ← h]
  exact Record.split_cut size 0 fields

/-- `byte_swap` of the whole foreign image gives the attribute back exactly where the missed fields
are palindromic. -/
theorem byteSwap_foreignImage_iff (attr : PerfEventAttr) :
    (ofBytes host (attr.foreignImage host)).byteSwap = attr ↔ attr.MissedPalindromic host := by
  have hfields := map_length_foreign host attr
  have hwhole : Record.cut byteSize (attr.foreignImage host) = attr.foreignImage host :=
    Record.cut_of_le (Nat.le_of_eq (length_flatten_of_widths hfields))
  have hloaded : (ofBytes host (attr.foreignImage host)).fieldBytes host
      = applySwaps foreignSwaps (attr.fieldBytes host) := by
    have hcut := fieldBytes_ofBytes_cut host hfields byteSize
    have hsum : 0 + ((applySwaps foreignSwaps (attr.fieldBytes host)).map List.length).sum
        ≤ byteSize := by
      rw [hfields]
      exact Nat.le_refl _
    rw [Record.cutFields_of_le hsum] at hcut
    rw [← hwhole]
    exact hcut
  rw [← fieldBytes_inj host, fieldBytes_byteSwap, hloaded]
  exact applySwaps_foreign_iff host attr

/-- `byte_swap` undoes itself. -/
theorem byteSwap_byteSwap (attr : PerfEventAttr) : attr.byteSwap.byteSwap = attr := by
  rw [← fieldBytes_inj .little, fieldBytes_byteSwap, fieldBytes_byteSwap, fieldBytes_eq_append]
  simp only [applySwaps, hostSwaps, frontBytes, tailBytes, List.replicate_succ, List.replicate_zero,
    List.cons_append, List.nil_append, List.zipWith_cons_cons, List.zipWith_nil_left,
    List.reverse_reverse, map_reverseByte_map_reverseByte, id]

end PerfEventAttr

/-! ### `add_attr` of either image -/

namespace ReaderAttrs

open PerfEventAttr

variable (build : Build)

/-- The attributes of the descriptions. -/
def descAttrs (attrs : ReaderAttrs) : List PerfEventAttr := attrs.eventDescList.map (·.attr)

/-- The bytes that `add_attr` fills up are an image that is cut off. -/
theorem filled_eq_cut {fields : List (List UInt8)} (h : fields.map List.length = widths)
    {size : ℕ} (hsize : size ≤ byteSize) :
    fields.flatten.take size ++ List.replicate (byteSize - (fields.flatten.take size).length) 0
      = Record.cut size fields.flatten := by
  have hlength := length_flatten_of_widths h
  rw [List.length_take_of_le (by omega), Record.cut, hlength]

/-- The attribute with the size that was read. -/
def withSize (attr : PerfEventAttr) (size : ℕ) : PerfEventAttr := { attr with size := .ofNat size }

theorem fieldBytes_withSize (host : ByteOrder) (attr : PerfEventAttr) (size : ℕ) :
    (withSize attr size).fieldBytes host
      = (attr.fieldBytes host).set 1 (host.toBytes 4 (UInt32.ofNat size).toNat) :=
  rfl

/-- The attribute that is read from the image of the host. -/
theorem readAttr_host (attr : PerfEventAttr) {size : ℕ} (hmax : size ≤ byteSize) :
    readAttr build build.targetEndian ((attr.toBytes build.targetEndian).take size)
      = withSize (PerfEventAttr.ofBytes build.targetEndian
          (Record.cut size (attr.fieldBytes build.targetEndian).flatten)) size := by
  have hfields := map_length_fieldBytes build.targetEndian attr
  have hlength := length_flatten_of_widths hfields
  unfold readAttr
  dsimp only
  rw [toBytes_eq_flatten, filled_eq_cut hfields hmax, if_neg (not_not.2 rfl),
    List.length_take_of_le (by omega)]
  rfl

/-- The attribute that is read from the image of a machine of the other byte order. -/
theorem readAttr_foreign (attr : PerfEventAttr) {size : ℕ} (hmax : size ≤ byteSize) :
    readAttr build build.targetEndian.flip ((attr.foreignImage build.targetEndian).take size)
      = withSize (PerfEventAttr.ofBytes build.targetEndian (Record.cut size
          (applySwaps foreignSwaps (attr.fieldBytes build.targetEndian)).flatten)).byteSwap size := by
  have hfields := map_length_foreign build.targetEndian attr
  have hlength := length_flatten_of_widths hfields
  have hother : build.targetEndian.flip ≠ build.targetEndian := by
    cases build.targetEndian <;> decide
  unfold readAttr
  dsimp only
  rw [foreignImage, filled_eq_cut hfields hmax, if_pos hother, List.length_take_of_le (by omega)]
  rfl

/-- `add_attr` reads the same attribute from both images exactly where their tails agree. -/
theorem readAttr_eq_iff (attr : PerfEventAttr) {size : ℕ} (hmin : 64 ≤ size)
    (hmax : size ≤ byteSize) :
    readAttr build build.targetEndian.flip ((attr.foreignImage build.targetEndian).take size)
        = readAttr build build.targetEndian ((attr.toBytes build.targetEndian).take size) ↔
      applySwaps hostTailSwaps (Record.cutFields size 64
          ((attr.tailBytes build.targetEndian).map List.reverse))
        = Record.cutFields size 64 (attr.tailBytes build.targetEndian) := by
  rw [readAttr_host build attr hmax, readAttr_foreign build attr hmax,
    ← fieldBytes_inj build.targetEndian, fieldBytes_withSize, fieldBytes_withSize,
    fieldBytes_byteSwap, fieldBytes_ofBytes_cut _ (map_length_fieldBytes _ attr),
    fieldBytes_ofBytes_cut _ (map_length_foreign _ attr), applySwaps_cutFields _ attr hmin,
    cutFields_fieldBytes _ attr hmin]
  simp only [frontBytes, List.cons_append, List.nil_append, List.set_cons_succ, List.set_cons_zero,
    List.cons.injEq, true_and]

/-- The attributes of the descriptions after `add_attr`. -/
theorem descAttrs_addAttr (order : ByteOrder) {attrBytes : List UInt8} (name idsBytes : List UInt8)
    (attrs : ReaderAttrs) (h : attrBytes.length ≤ byteSize) :
    (addAttr build order attrBytes name idsBytes attrs).map descAttrs
      = .ok (attrs.descAttrs ++
        if (agreeOffsets attrs.offsets (.ofAttr (readAttr build order attrBytes))).1 then
          [readAttr build order attrBytes]
        else []) := by
  rw [addAttr_eq_receive h]
  unfold receive record
  dsimp only
  generalize agreeOffsets attrs.offsets _ = agreed
  obtain ⟨_ | _, offsets⟩ := agreed
  · exact congrArg Except.ok (List.append_nil _).symm
  · change Except.ok (List.map _ (_ ++ [_])) = _
    rw [List.map_append, List.map_singleton, PerfEventDesc.new, updateName_attr]
    rfl

/-- The images of one attribute for both byte orders, cut off at a size: `byte_swap` gives the
attribute back from the whole one of the other byte order, undoes itself, and `add_attr` makes a
description of the same attribute of both. -/
structure SwapsWhole (attr : PerfEventAttr) (size : ℕ) : Prop where
  whole : (PerfEventAttr.ofBytes build.targetEndian
    (attr.foreignImage build.targetEndian)).byteSwap = attr
  involution : attr.byteSwap.byteSwap = attr
  descriptor : ∀ attrs name hostIds foreignIds,
    (addAttr build build.targetEndian.flip ((attr.foreignImage build.targetEndian).take size) name
        foreignIds attrs).map descAttrs
      = (addAttr build build.targetEndian ((attr.toBytes build.targetEndian).take size) name hostIds
        attrs).map descAttrs

/-- `byte_swap` converts the whole struct exactly where the fields it misses read the same in both
directions and no other field is cut apart. Assumes: a size that the reader accepts. -/
theorem swapsWhole_iff (attr : PerfEventAttr) {size : ℕ} (hmin : 64 ≤ size)
    (hmax : size ≤ byteSize) :
    SwapsWhole build attr size ↔
      attr.MissedPalindromic build.targetEndian ∧ attr.CutHarmless build.targetEndian size := by
  have hforeign : ((attr.foreignImage build.targetEndian).take size).length ≤ byteSize :=
    Nat.le_trans (List.length_take_le _ _) hmax
  have hhost : ((attr.toBytes build.targetEndian).take size).length ≤ byteSize :=
    Nat.le_trans (List.length_take_le _ _) hmax
  constructor
  · intro h
    have hmissed := (byteSwap_foreignImage_iff build.targetEndian attr).1 h.whole
    refine ⟨hmissed, (tail_iff _ attr size hmissed).1 ((readAttr_eq_iff build attr hmin hmax).1 ?_)⟩
    have hnew := h.descriptor .new [] [] []
    rw [descAttrs_addAttr build _ _ _ _ hforeign, descAttrs_addAttr build _ _ _ _ hhost] at hnew
    change Except.ok (_ ++ ite ((agreeOffsets .unset _).1 = true) _ _)
      = Except.ok (_ ++ ite ((agreeOffsets .unset _).1 = true) _ _) at hnew
    rw [agreeOffsets_unset, agreeOffsets_unset] at hnew
    exact List.head_eq_of_cons_eq (Except.ok.inj hnew)
  · rintro ⟨hmissed, hcut⟩
    have hread := (readAttr_eq_iff build attr hmin hmax).2 ((tail_iff _ attr size hmissed).2 hcut)
    constructor
    · exact (byteSwap_foreignImage_iff build.targetEndian attr).2 hmissed
    · exact byteSwap_byteSwap attr
    · intro attrs name hostIds foreignIds
      rw [descAttrs_addAttr build _ _ _ _ hforeign, descAttrs_addAttr build _ _ _ _ hhost, hread]

/-- An attribute with some fields of the first versions of the struct. -/
def plainAttr : PerfEventAttr :=
  .ofValues [2, 128, 0x123, 1, 0x46, 4, 0x40000, 1, 2, 5, 0x456, 0x789, 0xABC, 0x1000]

/-- An attribute that does not use the missed fields, cut off behind `clockid`. -/
theorem plainAttr_swapsWhole : SwapsWhole ⟨true, .little, true⟩ plainAttr 96 :=
  (swapsWhole_iff ⟨true, .little, true⟩ plainAttr (by decide) (by decide)).2
    ⟨by unfold MissedPalindromic; decide +kernel, by unfold CutHarmless; decide +kernel⟩

/-- Data of a signal of 1 in a file of a big-endian machine: the code reads it as `2 ^ 56`. -/
theorem sigData_not_swapped :
    (PerfEventAttr.ofBytes .little (PerfEventAttr.foreignImage .little
      { plainAttr with sigData := 1 })).byteSwap.sigData = 2 ^ 56 ∧
      ¬SwapsWhole ⟨true, .little, true⟩ { plainAttr with sigData := 1 } 128 := by
  have hread : (PerfEventAttr.ofBytes .little (PerfEventAttr.foreignImage .little
      { plainAttr with sigData := 1 })).byteSwap.sigData = 2 ^ 56 := by
    decide +kernel
  refine ⟨hread, ?_⟩
  intro h
  have hsame := congrArg PerfEventAttr.sigData h.whole
  rw [hread] at hsame
  exact absurd hsame (by decide)

end ReaderAttrs

end Tracepoints
