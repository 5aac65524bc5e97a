import Tracepoints.Lib.Exec

/-!
# A part at a position of a whole

`PlacedAt whole pos part` says that a list stands in another one at a position. A part that is put
together is placed where its parts are (`placedAt_append`), and reading at the position gives the part
back: as a slice (`PlacedAt.slice_eq`), as a byte (`PlacedAt.byteAt_eq`) or as an integer
(`PlacedAt.readUInt_eq`).
-/

set_option autoImplicit false
set_option relaxedAutoImplicit false

namespace Tracepoints

open Exec

variable {α : Type}

/-- A part stands in a whole at a position. -/
def PlacedAt (whole : List α) (pos : ℕ) (part : List α) : Prop := part <+: whole.drop pos

theorem placedAt_nil (whole : List α) (pos : ℕ) : PlacedAt whole pos [] := List.nil_prefix

/-- What is put together is placed where its parts are. -/
theorem placedAt_append {whole first second : List α} {pos : ℕ} :
    PlacedAt whole pos (first ++ second) ↔
      PlacedAt whole pos first ∧ PlacedAt whole (pos + first.length) second := by
  unfold PlacedAt
  rw [← List.drop_drop]
  constructor
  · rintro ⟨behind, h⟩
    rw [← h, List.append_assoc, List.drop_left]
    exact ⟨List.prefix_append _ _, List.prefix_append _ _⟩
  · rintro ⟨⟨behind, hfirst⟩, hsecond⟩
    rw [← hfirst, List.drop_left] at hsecond
    rw [← hfirst]
    exact (List.prefix_append_right_inj _).mpr hsecond

theorem PlacedAt.take_drop {whole part : List α} {pos : ℕ} (h : PlacedAt whole pos part) :
    (whole.drop pos).take part.length = part :=
  (List.prefix_iff_eq_take.mp h).symm

theorem PlacedAt.length_le {whole part : List α} {pos : ℕ} (h : PlacedAt whole pos part)
    (hpos : pos ≤ whole.length) : pos + part.length ≤ whole.length := by
  have hle := List.IsPrefix.length_le h
  rw [List.length_drop] at hle
  omega

theorem PlacedAt.length_le_of_ne {whole part : List α} {pos : ℕ} (h : PlacedAt whole pos part)
    (hne : part ≠ []) : pos + part.length ≤ whole.length := by
  have hle := List.IsPrefix.length_le h
  have hpos := List.length_pos_iff.mpr hne
  rw [List.length_drop] at hle
  omega

theorem PlacedAt.getElem?_eq {whole part : List α} {pos index : ℕ} (h : PlacedAt whole pos part)
    (hindex : index < part.length) : whole[pos + index]? = part[index]? := by
  rw [← h.take_drop, List.getElem?_take_of_lt hindex, List.getElem?_drop]

theorem PlacedAt.tail {whole behind : List α} {pos : ℕ} {first : α}
    (h : PlacedAt whole pos (first :: behind)) : PlacedAt whole (pos + 1) behind :=
  (placedAt_append.mp (show PlacedAt whole pos ([first] ++ behind) from h)).2

theorem PlacedAt.slice_eq {whole part : List UInt8} {pos : ℕ} (h : PlacedAt whole pos part)
    (hpos : pos ≤ whole.length) : slice whole pos (pos + part.length) = .ok part := by
  rw [slice_of_le (Nat.le_add_right _ _) (h.length_le hpos), Nat.add_sub_cancel_left, h.take_drop]

theorem PlacedAt.byteAt_eq {whole : List UInt8} {pos : ℕ} {byte : UInt8} {behind : List UInt8}
    (h : PlacedAt whole pos (byte :: behind)) : byteAt whole pos = .ok byte := by
  have hget := h.getElem?_eq (Nat.succ_pos _)
  rw [Nat.add_zero, List.getElem?_cons_zero] at hget
  unfold byteAt
  rw [hget]

theorem PlacedAt.getD_eq {whole : List UInt8} {pos : ℕ} {byte : UInt8} {behind : List UInt8}
    (h : PlacedAt whole pos (byte :: behind)) : whole.getD pos 0 = byte := by
  have hget := h.getElem?_eq (Nat.succ_pos _)
  rw [Nat.add_zero, List.getElem?_cons_zero] at hget
  rw [List.getD_eq_getElem?_getD, hget, Option.getD_some]

/-- An integer is read back. -/
theorem PlacedAt.readUInt_eq {whole : List UInt8} {pos width value : ℕ} {order : ByteOrder}
    (h : PlacedAt whole pos (order.toBytes width value)) (hwidth : 0 < width)
    (hvalue : value < 256 ^ width) : readUInt order width whole pos = .ok value := by
  have hlength := order.length_toBytes width value
  have hle := h.length_le_of_ne (by rw [← List.length_pos_iff, hlength]; exact hwidth)
  rw [hlength] at hle
  rw [readUInt_of_le hle]
  have htake := h.take_drop
  rw [hlength] at htake
  rw [htake, ByteOrder.ofBytes_toBytes hvalue]

end Tracepoints
