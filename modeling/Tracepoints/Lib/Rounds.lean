import Mathlib.Data.List.Sort
import Mathlib.Tactic.Ring

/-!
# Sorting a sequence round by round

A sequence is cut into rounds behind each element that ends a round. `sortedRounds` is the sequence
of the rounds that are complete, each stably sorted by a key with the element that ends it last.
`sortedRounds_round` takes off the first round and `sortedRounds_perm` says that no element is lost
or duplicated. `mergeSort_stamped` is how a sort that need not be stable computes a round: the
elements are numbered and their numbers decide between equal keys.
-/

set_option autoImplicit false
set_option relaxedAutoImplicit false

namespace Tracepoints

namespace Rounds

variable {α β : Type}

/-! ### Stable sorting -/

/-- The order of keys. -/
def keyLe (key : α → ℕ) (left right : α) : Bool := key left ≤ key right

theorem keyLe_trans (key : α → ℕ) (a b c : α) (hab : keyLe key a b = true)
    (hbc : keyLe key b c = true) : keyLe key a c = true := by
  simp only [keyLe, decide_eq_true_eq] at *
  exact le_trans hab hbc

theorem keyLe_total (key : α → ℕ) (a b : α) : (keyLe key a b || keyLe key b a) = true := by
  simp only [keyLe, Bool.or_eq_true, decide_eq_true_eq]
  exact le_total _ _

/-- Sorting depends only on the keys of the elements. -/
theorem mergeSort_congr {key key' : α → ℕ} {l : List α} (h : ∀ x ∈ l, key x = key' x) :
    l.mergeSort (keyLe key) = l.mergeSort (keyLe key') := by
  have hmap := List.map_mergeSort (r := keyLe key) (s := keyLe key') (f := id) (l := l)
    (fun a ha b hb ↦ by simp only [keyLe, h a ha, h b hb, id])
  simpa using hmap

/-- A last element with the greatest key stays last. -/
theorem mergeSort_concat {key : α → ℕ} {l : List α} {last : α}
    (h : ∀ x ∈ l, key x ≤ key last) :
    (l ++ [last]).mergeSort (keyLe key) = l.mergeSort (keyLe key) ++ [last] := by
  -- numbered elements are ordered strictly, so the sorted list of them is unique
  have hstamped : ((l ++ [last]).zipIdx).mergeSort (List.zipIdxLE (keyLe key)) =
      (l.zipIdx).mergeSort (List.zipIdxLE (keyLe key)) ++ [(last, l.length)] := by
    refine List.Perm.eq_of_pairwise ?_ (List.pairwise_mergeSort
      (List.zipIdxLE_trans (keyLe_trans key)) (List.zipIdxLE_total (keyLe_total key)) _) ?_ ?_
    · intro a b ha hb hab hba
      have ha' : a ∈ (l ++ [last]).zipIdx := List.mem_mergeSort.mp ha
      have hb' : b ∈ (l ++ [last]).zipIdx := by
        rw [List.zipIdx_append]
        simpa using hb
      have hindex : a.2 = b.2 := by
        simp only [List.zipIdxLE, keyLe] at hab hba
        split_ifs at hab hba <;> simp_all
        omega
      have hax := List.mem_zipIdx_iff_getElem?.mp ha'
      have hbx := List.mem_zipIdx_iff_getElem?.mp hb'
      rw [hindex, hbx] at hax
      exact Prod.ext (Option.some.inj hax).symm hindex
    · rw [List.pairwise_append]
      refine ⟨List.pairwise_mergeSort (List.zipIdxLE_trans (keyLe_trans key))
        (List.zipIdxLE_total (keyLe_total key)) _, List.pairwise_singleton _ _, ?_⟩
      intro a ha b hb
      obtain rfl := List.mem_singleton.mp hb
      have ha' : a ∈ l.zipIdx := List.mem_mergeSort.mp ha
      have hax := List.mem_zipIdx_iff_getElem?.mp ha'
      have hlt : a.2 < l.length := (List.getElem?_eq_some_iff.mp hax).1
      have hmem : a.1 ∈ l := List.mem_of_getElem? hax
      have hle := h a.1 hmem
      have hkey : keyLe key a.1 last = true := by simpa [keyLe] using hle
      unfold List.zipIdxLE
      rw [if_pos hkey]
      split_ifs
      · simpa using hlt.le
      · rfl
    · refine (List.mergeSort_perm _ _).trans ?_
      rw [List.zipIdx_append]
      simpa using ((List.mergeSort_perm l.zipIdx _).append_right [(last, l.length)]).symm
  have hmap := congrArg (List.map Prod.fst) hstamped
  rw [List.mergeSort_zipIdx, List.map_append, List.mergeSort_zipIdx] at hmap
  simpa using hmap

/-- Elements that are numbered and sorted by key and number give the stable sort of what they
stand for. -/
theorem mergeSort_stamped (key : α → ℕ) {le : β → β → Bool} {stamp : α × ℕ → β} {l : List α}
    (h : ∀ a ∈ l.zipIdx, ∀ b ∈ l.zipIdx, le (stamp a) (stamp b) =
      (decide (key a.1 < key b.1) || decide (key a.1 = key b.1) && decide (a.2 ≤ b.2))) :
    (l.zipIdx.map stamp).mergeSort le =
      (l.zipIdx.mergeSort (List.zipIdxLE (keyLe key))).map stamp := by
  refine (List.map_mergeSort fun a ha b hb ↦ ?_).symm
  rw [h a ha b hb]
  simp only [List.zipIdxLE, keyLe]
  rcases lt_trichotomy (key a.1) (key b.1) with hlt | heq | hgt
  · simp [hlt, hlt.le, not_le.mpr hlt]
  · simp [heq]
  · simp [not_le.mpr hgt, not_lt.mpr hgt.le, hgt.ne']

/-! ### Rounds -/

/-- The complete rounds of a sequence, each sorted by key with the element that ends it last;
`round` is what the current round has so far. -/
def sortedRounds (key : α → ℕ) (ends : α → Bool) : List α → List α → List α
  | _, [] => []
  | round, x :: rest =>
    if ends x then round.mergeSort (keyLe key) ++ x :: sortedRounds key ends [] rest
    else sortedRounds key ends (round ++ [x]) rest

/-- The length of the longest round, the element that ends it included; `count` is the length of
the current round so far. -/
def longestRound (ends : α → Bool) : ℕ → List α → ℕ
  | count, [] => count
  | count, x :: rest =>
    if ends x then max (count + 1) (longestRound ends 0 rest)
    else longestRound ends (count + 1) rest

variable {key : α → ℕ} {ends : α → Bool}

/-- The first round of a sequence. -/
theorem sortedRounds_round {round : List α} {last : α} (acc rest : List α)
    (hround : ∀ x ∈ round, ends x = false) (hlast : ends last = true) :
    sortedRounds key ends acc (round ++ last :: rest) =
      (acc ++ round).mergeSort (keyLe key) ++ last :: sortedRounds key ends [] rest := by
  induction round generalizing acc with
  | nil => rw [List.nil_append, sortedRounds, if_pos hlast, List.append_nil]
  | cons x round ih =>
    have hx : ends x = false := hround x List.mem_cons_self
    rw [List.cons_append, sortedRounds, if_neg (by simp [hx]),
      ih _ fun y hy ↦ hround y (List.mem_cons_of_mem _ hy), List.append_assoc,
      List.singleton_append]

/-- A sequence that does not end its first round has no complete round. -/
theorem sortedRounds_open {l : List α} (acc : List α) (h : ∀ x ∈ l, ends x = false) :
    sortedRounds key ends acc l = [] := by
  induction l generalizing acc with
  | nil => rfl
  | cons x l ih =>
    rw [sortedRounds, if_neg (by simp [h x List.mem_cons_self])]
    exact ih _ fun y hy ↦ h y (List.mem_cons_of_mem _ hy)

/-- A sequence has a first complete round or does not end its first round. -/
theorem split_round (ends : α → Bool) (l : List α) :
    (∀ x ∈ l, ends x = false) ∨
      ∃ round last rest, l = round ++ last :: rest ∧ (∀ x ∈ round, ends x = false) ∧
        ends last = true := by
  induction l with
  | nil => exact .inl (by simp)
  | cons x l ih =>
    by_cases hx : ends x = true
    · exact .inr ⟨[], x, l, rfl, by simp, hx⟩
    · rw [Bool.not_eq_true] at hx
      rcases ih with hopen | ⟨round, last, rest, rfl, hround, hlast⟩
      · exact .inl (by simpa [hx] using hopen)
      · exact .inr ⟨x :: round, last, rest, rfl, by simpa [hx] using hround, hlast⟩

theorem longestRound_round {round : List α} {last : α} (count : ℕ) (rest : List α)
    (hround : ∀ x ∈ round, ends x = false) (hlast : ends last = true) :
    longestRound ends count (round ++ last :: rest) =
      max (count + round.length + 1) (longestRound ends 0 rest) := by
  induction round generalizing count with
  | nil => rw [List.nil_append, longestRound, if_pos hlast, List.length_nil, Nat.add_zero]
  | cons x round ih =>
    have hx : ends x = false := hround x List.mem_cons_self
    rw [List.cons_append, longestRound, if_neg (by simp [hx]),
      ih _ fun y hy ↦ hround y (List.mem_cons_of_mem _ hy), List.length_cons]
    congr 1
    ring

/-- The complete rounds, sorted, are a permutation of the part of the sequence they are. -/
theorem sortedRounds_perm (l : List α) :
    (sortedRounds key ends [] l).Perm (l.take (sortedRounds key ends [] l).length) := by
  induction h : l.length using Nat.strong_induction_on generalizing l with
  | _ n ih =>
    rcases split_round ends l with hopen | ⟨round, last, rest, rfl, hround, hlast⟩
    · rw [sortedRounds_open [] hopen]
      simp
    · have hrest := ih rest.length (by simp [← h]; omega) rest rfl
      rw [sortedRounds_round [] rest hround hlast, List.nil_append]
      have hlength : (round.mergeSort (keyLe key) ++ last :: sortedRounds key ends [] rest).length =
          round.length + ((sortedRounds key ends [] rest).length + 1) := by simp
      rw [hlength, List.take_length_add_append, List.take_succ_cons]
      exact (List.mergeSort_perm _ _).append (hrest.cons _)

end Rounds

end Tracepoints
