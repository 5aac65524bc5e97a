import Mathlib.Data.List.Destutter
import Mathlib.Data.List.Sort
import Tracepoints.Lib.Exec

/-!
# Lists that are changed in place

The checked accesses `Exec.elementAt` and `Exec.setAt` to an array, which is a list, with their
equations for a list that is split at the index. Then the lists without adjacent repetitions
(`List.destutter`) of a list in descending order: they are in strictly descending order
(`pairwise_destutter`) and have the same members (`mem_destutter`).
-/

set_option autoImplicit false
set_option relaxedAutoImplicit false

namespace Tracepoints

namespace Exec

variable {α : Type}

/-- The element at an index, checked. -/
def elementAt (list : List α) (index : ℕ) : Exec α :=
  match list[index]? with
  | some element => .ok element
  | none => .error .indexOutOfRange

/-- A list with another element at an index, checked. -/
def setAt (list : List α) (index : ℕ) (element : α) : Exec (List α) :=
  if index < list.length then .ok (list.set index element) else .error .indexOutOfRange

theorem elementAt_of_lt {list : List α} {index : ℕ} (h : index < list.length) :
    elementAt list index = .ok list[index] := by
  simp [elementAt, List.getElem?_eq_getElem h]

theorem elementAt_split {list front rest : List α} {element : α} {index : ℕ}
    (hlist : list = front ++ element :: rest) (hindex : index = front.length) :
    elementAt list index = .ok element := by
  unfold elementAt
  rw [hlist, hindex, List.getElem?_append_right le_rfl, Nat.sub_self, List.getElem?_cons_zero]

theorem setAt_split {list front rest : List α} {old element : α} {index : ℕ}
    (hlist : list = front ++ old :: rest) (hindex : index = front.length) :
    setAt list index element = .ok (front ++ element :: rest) := by
  unfold setAt
  rw [hlist, hindex, if_pos (by simp), List.set_append_right _ _ le_rfl, Nat.sub_self,
    List.set_cons_zero]

end Exec

section Destutter

variable {α : Type} [LinearOrder α]

theorem mem_destutterFrom (first : α) (list : List α) (x : α) :
    x ∈ list.destutter' (· ≠ ·) first ↔ x = first ∨ x ∈ list := by
  induction list generalizing first with
  | nil => simp
  | cons head list ih =>
    by_cases heq : first = head
    · rw [List.destutter'_cons_neg _ (not_not.mpr heq), ih, List.mem_cons, heq]
      simp
    · rw [List.destutter'_cons_pos _ heq, List.mem_cons, ih, List.mem_cons]

theorem mem_destutter (list : List α) (x : α) : x ∈ list.destutter (· ≠ ·) ↔ x ∈ list := by
  cases list with
  | nil => rfl
  | cons first list => rw [List.destutter_cons', mem_destutterFrom, List.mem_cons]

/-- A list in descending order without adjacent repetitions has none. -/
theorem pairwise_gt_of_isChain {list : List α} (hsorted : list.Pairwise (· ≥ ·))
    (hchain : list.IsChain (· ≠ ·)) : list.Pairwise (· > ·) := by
  rw [← List.isChain_iff_pairwise]
  induction hchain with
  | nil => exact .nil
  | singleton first => exact .singleton first
  | cons_cons hne _ ih =>
    have hhead := List.rel_of_pairwise_cons hsorted List.mem_cons_self
    exact .cons_cons (lt_of_le_of_ne hhead hne.symm) (ih hsorted.of_cons)

/-- Assumes: a list in descending order. -/
theorem pairwise_destutter {list : List α} (h : list.Pairwise (· ≥ ·)) :
    (list.destutter (· ≠ ·)).Pairwise (· > ·) := by
  apply pairwise_gt_of_isChain
  · exact h.sublist (List.destutter_sublist _ _)
  · exact List.isChain_destutter _ _

end Destutter

end Tracepoints
