import Tracepoints.Lib.Exec
import Mathlib.Data.Int.Basic

/-!
# Integers of a fixed width

An integer type is the interval of its values (`IntType`). `IntType.wrap` is a conversion into it, as
`as` does it, and `Exec.fit` the result of an operation whose overflow is checked in some builds and
wraps around in the others. Both leave a value of the type as it is (`IntType.wrap_of_mem`,
`Exec.fit_of_mem`).
-/

set_option autoImplicit false
set_option relaxedAutoImplicit false

namespace Tracepoints

/-- The integers from `low` up to and excluding `high`. -/
structure IntType where
  low : ℤ
  high : ℤ

namespace IntType

def u32 : IntType := ⟨0, 2 ^ 32⟩
def u64 : IntType := ⟨0, 2 ^ 64⟩
def i64 : IntType := ⟨-2 ^ 63, 2 ^ 63⟩

instance : Membership ℤ IntType := ⟨fun type value ↦ type.low ≤ value ∧ value < type.high⟩

theorem mem_def {type : IntType} {value : ℤ} :
    value ∈ type ↔ type.low ≤ value ∧ value < type.high := Iff.rfl

instance (type : IntType) (value : ℤ) : Decidable (value ∈ type) :=
  inferInstanceAs (Decidable (_ ∧ _))

theorem mem_u32 {value : ℤ} : value ∈ u32 ↔ 0 ≤ value ∧ value < 2 ^ 32 := Iff.rfl

theorem mem_u64 {value : ℤ} : value ∈ u64 ↔ 0 ≤ value ∧ value < 2 ^ 64 := Iff.rfl

theorem mem_i64 {value : ℤ} : value ∈ i64 ↔ -2 ^ 63 ≤ value ∧ value < 2 ^ 63 := Iff.rfl

/-- The value of the type that is congruent to a number. -/
def wrap (type : IntType) (value : ℤ) : ℤ :=
  (value - type.low) % (type.high - type.low) + type.low

theorem wrap_of_mem {type : IntType} {value : ℤ} (h : value ∈ type) : type.wrap value = value := by
  obtain ⟨hlow, hhigh⟩ := h
  unfold wrap
  rw [Int.emod_eq_of_lt (by omega) (by omega)]
  omega

end IntType

/-- The result of an operation: an overflow faults where the build checks for it and wraps
elsewhere. -/
def Exec.fit (build : Build) (type : IntType) (value : ℤ) : Exec ℤ :=
  if value ∈ type then .ok value
  else if build.debugAssertions then .error .overflow
  else .ok (type.wrap value)

theorem Exec.fit_of_mem {build : Build} {type : IntType} {value : ℤ} (h : value ∈ type) :
    Exec.fit build type value = .ok value :=
  if_pos h

theorem Exec.fit_overflow {build : Build} {type : IntType} {value : ℤ}
    (hbuild : build.debugAssertions = true) (h : value ∉ type) :
    Exec.fit build type value = .error .overflow := by
  unfold Exec.fit
  rw [if_neg h, if_pos hbuild]

end Tracepoints
