import Mathlib.Data.Nat.Basic
import Mathlib.Tactic.Ring

/-!
# Fixed-width integers in either byte order

An unsigned integer of `width` bytes is a natural number below `256 ^ width`. `toBytes` lays it
out in a byte order and `ofBytes` reads it back. `ofBytes_toBytes` and `toBytes_ofBytes` say that
the two are inverse at a fixed width, and `swapBytes` is what reading in the wrong order computes
(`ofBytes_flip`), an involution on values of the width (`swapBytes_swapBytes`).
-/

set_option autoImplicit false
set_option relaxedAutoImplicit false

namespace Tracepoints

/-- The two byte orders of a multi-byte integer. -/
inductive ByteOrder
  | little
  | big
  deriving DecidableEq, Repr

namespace ByteOrder

/-- The opposite byte order. -/
def flip : ByteOrder → ByteOrder
  | little => big
  | big => little

@[simp] theorem flip_flip (order : ByteOrder) : order.flip.flip = order := by
  cases order <;> rfl

/-- The low `width` bytes of a value, least significant byte first. -/
def leBytes : ℕ → ℕ → List UInt8
  | 0, _ => []
  | width + 1, value => UInt8.ofNat value :: leBytes width (value / 256)

/-- The value of a byte string, least significant byte first. -/
def leValue : List UInt8 → ℕ
  | [] => 0
  | byte :: rest => byte.toNat + 256 * leValue rest

/-- The `width` bytes of a value in a byte order. -/
def toBytes (order : ByteOrder) (width value : ℕ) : List UInt8 :=
  match order with
  | little => leBytes width value
  | big => (leBytes width value).reverse

/-- The value of a byte string in a byte order. -/
def ofBytes (order : ByteOrder) (bytes : List UInt8) : ℕ :=
  match order with
  | little => leValue bytes
  | big => leValue bytes.reverse

@[simp] theorem length_leBytes (width value : ℕ) : (leBytes width value).length = width := by
  induction width generalizing value with
  | zero => rfl
  | succ width ih => simp [leBytes, ih]

@[simp] theorem length_toBytes (order : ByteOrder) (width value : ℕ) :
    (order.toBytes width value).length = width := by
  cases order <;> simp [toBytes]

theorem leValue_lt (bytes : List UInt8) : leValue bytes < 256 ^ bytes.length := by
  induction bytes with
  | nil => simp [leValue]
  | cons byte rest ih =>
    have hbyte : byte.toNat < 256 := byte.toNat_lt
    simp only [leValue, List.length_cons, pow_succ]
    omega

/-- A byte string of `width` bytes denotes a value below `256 ^ width`. -/
theorem ofBytes_lt (order : ByteOrder) (bytes : List UInt8) :
    order.ofBytes bytes < 256 ^ bytes.length := by
  cases order
  · exact leValue_lt bytes
  · simpa [ofBytes] using leValue_lt bytes.reverse

theorem ofBytes_singleton (order : ByteOrder) (byte : UInt8) : order.ofBytes [byte] = byte.toNat := by
  cases order <;> rfl

theorem leValue_leBytes (width value : ℕ) : leValue (leBytes width value) = value % 256 ^ width := by
  induction width generalizing value with
  | zero => simp [leBytes, leValue, Nat.mod_one]
  | succ width ih =>
    simp only [leBytes, leValue, ih, UInt8.toNat_ofNat']
    rw [Nat.pow_succ 256, mul_comm (256 ^ width) 256, Nat.mod_mul]

theorem leBytes_leValue (bytes : List UInt8) :
    leBytes bytes.length (leValue bytes) = bytes := by
  induction bytes with
  | nil => rfl
  | cons byte rest ih =>
    have hbyte : byte.toNat < 256 := byte.toNat_lt
    have hdiv : (byte.toNat + 256 * leValue rest) / 256 = leValue rest := by omega
    have hmod : UInt8.ofNat (byte.toNat + 256 * leValue rest) = byte := by
      apply UInt8.toNat_inj.mp
      simp only [UInt8.toNat_ofNat']
      omega
    simp only [List.length_cons, leBytes, leValue, hdiv, hmod, ih]

/-- Reading back what was laid out gives the value reduced to the width. -/
theorem ofBytes_toBytes_mod (order : ByteOrder) (width value : ℕ) :
    order.ofBytes (order.toBytes width value) = value % 256 ^ width := by
  cases order <;> simp [ofBytes, toBytes, leValue_leBytes]

/-- Reading back a value that fits its width gives the value. -/
theorem ofBytes_toBytes {order : ByteOrder} {width value : ℕ} (hvalue : value < 256 ^ width) :
    order.ofBytes (order.toBytes width value) = value := by
  rw [ofBytes_toBytes_mod, Nat.mod_eq_of_lt hvalue]

/-- Laying out what was read gives the bytes back. -/
theorem toBytes_ofBytes (order : ByteOrder) (bytes : List UInt8) :
    order.toBytes bytes.length (order.ofBytes bytes) = bytes := by
  cases order
  · exact leBytes_leValue bytes
  · have h := leBytes_leValue bytes.reverse
    rw [List.length_reverse] at h
    simp only [ofBytes, toBytes, h, List.reverse_reverse]

/-- The value whose bytes are those of `value` in reverse. -/
def swapBytes (width value : ℕ) : ℕ :=
  leValue (leBytes width value).reverse

theorem swapBytes_lt (width value : ℕ) : swapBytes width value < 256 ^ width := by
  simpa [swapBytes] using leValue_lt (leBytes width value).reverse

/-- Reading in the opposite order swaps the bytes of the value. -/
theorem ofBytes_flip (order : ByteOrder) (bytes : List UInt8) :
    order.flip.ofBytes bytes = swapBytes bytes.length (order.ofBytes bytes) := by
  cases order
  · simp only [flip, ofBytes, swapBytes, leBytes_leValue]
  · have h := leBytes_leValue bytes.reverse
    rw [List.length_reverse] at h
    simp only [flip, ofBytes, swapBytes, h, List.reverse_reverse]

/-- The bytes in the opposite order. -/
theorem toBytes_flip (order : ByteOrder) (width value : ℕ) :
    order.flip.toBytes width value = (order.toBytes width value).reverse := by
  cases order
  · rfl
  · exact (List.reverse_reverse _).symm

/-- The bytes of a swapped value. -/
theorem toBytes_swapBytes (order : ByteOrder) (width value : ℕ) :
    order.toBytes width (swapBytes width value) = (order.toBytes width value).reverse := by
  have h := leBytes_leValue (leBytes width value).reverse
  rw [List.length_reverse, length_leBytes] at h
  cases order
  · exact h
  · exact congrArg List.reverse h

/-- The bytes of a value, one by one. -/
theorem getElem_leBytes (width value index : ℕ) (h : index < (leBytes width value).length) :
    (leBytes width value)[index] = UInt8.ofNat (value / 256 ^ index) := by
  induction width generalizing value index with
  | zero => exact absurd h (Nat.not_lt_zero _)
  | succ width ih =>
    cases index with
    | zero =>
      rw [pow_zero, Nat.div_one]
      rfl
    | succ index =>
      rw [pow_succ', ← Nat.div_div_eq_div_mul]
      exact ih (value / 256) index _

/-- Swapping the bytes of a value that fits its width twice gives the value back. -/
theorem swapBytes_swapBytes {width value : ℕ} (hvalue : value < 256 ^ width) :
    swapBytes width (swapBytes width value) = value := by
  have hlen : (leBytes width value).reverse.length = width := by simp
  have h := leBytes_leValue (leBytes width value).reverse
  rw [hlen] at h
  simp only [swapBytes, h, List.reverse_reverse, leValue_leBytes, Nat.mod_eq_of_lt hvalue]

end ByteOrder

/-- Bits below a shifted value are added to it. -/
theorem shiftLeft_or (high : ℕ) {low shift : ℕ} (h : low < 2 ^ shift) :
    high <<< shift ||| low = high * 2 ^ shift + low := by
  rw [← Nat.shiftLeft_add_eq_or_of_lt h, Nat.shiftLeft_eq]

end Tracepoints
