import Tracepoints.Lib.ByteOrder

/-!
# Records of fixed-width integers

A record is laid out as the bytes of its fields, one after the other. `encode` lays out fields
given as width and value, `decode` reads the values of given widths back (`decode_encode`).

Where the bytes matter rather than the values, `layout` gives the bytes field by field and `split`
takes them apart again. A record that is cut off and filled up with zeros has its fields cut off one
by one (`split_cut`).
-/

set_option autoImplicit false
set_option relaxedAutoImplicit false

namespace Tracepoints

namespace Record

/-- The bytes of a list of fields, each a width and a value. -/
def encode (order : ByteOrder) : List (ℕ × ℕ) → List UInt8
  | [] => []
  | (width, value) :: fields => order.toBytes width value ++ encode order fields

/-- The values of the fields of given widths. -/
def decode (order : ByteOrder) : List ℕ → List UInt8 → List ℕ
  | [], _ => []
  | width :: widths, bytes =>
    order.ofBytes (bytes.take width) :: decode order widths (bytes.drop width)

theorem length_encode (order : ByteOrder) (fields : List (ℕ × ℕ)) :
    (encode order fields).length = (fields.map Prod.fst).sum := by
  induction fields with
  | nil => rfl
  | cons field fields ih =>
    rw [encode, List.length_append, ByteOrder.length_toBytes, ih, List.map_cons, List.sum_cons]

/-- Reading back fields whose values fit their widths gives the values. -/
theorem decode_encode (order : ByteOrder) {fields : List (ℕ × ℕ)} (rest : List UInt8)
    (hfields : ∀ field ∈ fields, field.2 < 256 ^ field.1) :
    decode order (fields.map Prod.fst) (encode order fields ++ rest) = fields.map Prod.snd := by
  induction fields with
  | nil => rfl
  | cons field fields ih =>
    have hlength : (order.toBytes field.1 field.2).length = field.1 := order.length_toBytes _ _
    rw [List.map_cons, encode, List.append_assoc, decode, List.take_left' hlength,
      List.drop_left' hlength, ByteOrder.ofBytes_toBytes (hfields field List.mem_cons_self),
      ih fun field' hfield' ↦ hfields field' (List.mem_cons_of_mem _ hfield'), List.map_cons]

/-! ### Fields as bytes -/

/-- The bytes of each field. -/
def layout (order : ByteOrder) (fields : List (ℕ × ℕ)) : List (List UInt8) :=
  fields.map fun field ↦ order.toBytes field.1 field.2

/-- The fields of given widths, as bytes. -/
def split : List ℕ → List UInt8 → List (List UInt8)
  | [], _ => []
  | width :: widths, bytes => bytes.take width :: split widths (bytes.drop width)

/-- A field cut off and filled up with zeros. -/
def cut (size : ℕ) (field : List UInt8) : List UInt8 :=
  field.take size ++ List.replicate (field.length - size) 0

/-- The fields of a record that is cut off at a size, from an offset on. -/
def cutFields (size : ℕ) : ℕ → List (List UInt8) → List (List UInt8)
  | _, [] => []
  | offset, field :: fields =>
    cut (size - offset) field :: cutFields size (offset + field.length) fields

theorem encode_eq_flatten (order : ByteOrder) (fields : List (ℕ × ℕ)) :
    encode order fields = (layout order fields).flatten := by
  induction fields with
  | nil => rfl
  | cons field fields ih => rw [encode, ih, layout, layout, List.map_cons, List.flatten_cons]

/-- The values of the fields are those of their bytes. -/
theorem layout_decode (order : ByteOrder) {widths : List ℕ} {bytes : List UInt8}
    (h : widths.sum ≤ bytes.length) :
    layout order (widths.zip (decode order widths bytes)) = split widths bytes := by
  induction widths generalizing bytes with
  | nil => rfl
  | cons width widths ih =>
    rw [List.sum_cons] at h
    have hwidth : (bytes.take width).length = width := List.length_take_of_le (by omega)
    have hhead := order.toBytes_ofBytes (bytes.take width)
    rw [hwidth] at hhead
    rw [decode, List.zip_cons_cons, layout, List.map_cons, hhead, split]
    rw [← layout, ih (by rw [List.length_drop]; omega)]

/-- A field that is not cut off. -/
theorem cut_of_le {size : ℕ} {field : List UInt8} (h : field.length ≤ size) :
    cut size field = field := by
  rw [cut, List.take_of_length_le h, Nat.sub_eq_zero_of_le h, List.replicate_zero, List.append_nil]

theorem length_cut (size : ℕ) (field : List UInt8) : (cut size field).length = field.length := by
  rw [cut, List.length_append, List.length_take, List.length_replicate]
  omega

/-- Cutting off two fields that stand one behind the other. -/
theorem cut_append (size : ℕ) (field rest : List UInt8) :
    cut size (field ++ rest) = cut size field ++ cut (size - field.length) rest := by
  by_cases h : field.length ≤ size
  · have hzeros : (field ++ rest).length - size = rest.length - (size - field.length) := by
      rw [List.length_append]
      omega
    rw [cut_of_le h, cut, cut, hzeros, List.take_append, List.take_of_length_le h, List.append_assoc]
  · have hsize : size - field.length = 0 := by omega
    have hzeros : (field ++ rest).length - size = field.length - size + rest.length := by
      rw [List.length_append]
      omega
    rw [cut, cut, cut, hzeros, List.take_append, hsize, List.take_zero, List.nil_append,
      List.append_nil, Nat.sub_zero, List.append_assoc, List.replicate_append_replicate]

/-- Splitting a record that is cut off cuts its fields off. -/
theorem split_cut (size offset : ℕ) (fields : List (List UInt8)) :
    split (fields.map List.length) (cut (size - offset) fields.flatten)
      = cutFields size offset fields := by
  induction fields generalizing offset with
  | nil => rfl
  | cons field fields ih =>
    have hlength : (cut (size - offset) field).length = field.length := length_cut _ _
    rw [List.map_cons, split, List.flatten_cons, cutFields, cut_append, List.take_left' hlength,
      List.drop_left' hlength, Nat.sub_sub, ih]

/-- Fields in front of the cut stay as they are. -/
theorem cutFields_append {size offset : ℕ} {front : List (List UInt8)}
    (h : offset + (front.map List.length).sum ≤ size) (behind : List (List UInt8)) :
    cutFields size offset (front ++ behind)
      = front ++ cutFields size (offset + (front.map List.length).sum) behind := by
  induction front generalizing offset with
  | nil => rfl
  | cons field front ih =>
    rw [List.map_cons, List.sum_cons, ← Nat.add_assoc] at h
    rw [List.cons_append, cutFields, ih h, cut_of_le (by omega), List.map_cons, List.sum_cons,
      Nat.add_assoc, List.cons_append]

/-- Fields that are not cut off. -/
theorem cutFields_of_le {size offset : ℕ} {fields : List (List UInt8)}
    (h : offset + (fields.map List.length).sum ≤ size) : cutFields size offset fields = fields := by
  have hall := cutFields_append h []
  rwa [cutFields, List.append_nil] at hall

end Record

end Tracepoints
