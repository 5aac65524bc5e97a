import Tracepoints.Lib.InPlace

/-!
# The list of tracepoints of a provider

The fix-up of the list in `Provider::register_impl` (`eventheader/src/provider.rs`) and the loops of
`register` and `unregister` over it. A pointer is its address, and null is zero. The list is sorted in
descending order, then compacted in place: `scanLoop` looks for the first repetition, `compactLoop`
moves the elements behind it, and `fillLoop` clears the rest.

`fixUp_eq` gives the list that is left in terms of the sorted one, and `fixUp_fixedUp` what the fix-up
is for.
-/

set_option autoImplicit false
set_option relaxedAutoImplicit false

namespace Tracepoints

open Exec

namespace Provider

/-! ### The fix-up -/

/-- `sort_unstable_by`, in reverse. Addresses that compare equal are the same. -/
def sortDescending (events : List ℕ) : List ℕ := events.mergeSort fun first second ↦ second ≤ first

/-- The inner loop behind the first repetition: the position of the last element that is kept. -/
def compactLoop : ℕ → ℕ → ℕ → List ℕ → Exec (ℕ × List ℕ)
  | 0, _, _, _ => .error .unfinished
  | fuel + 1, goodPos, nextPos, events => do
    if nextPos = events.length then .ok (goodPos, events)
    else
      let good ← elementAt events goodPos
      let next ← elementAt events nextPos
      if good ≠ next then
        let events ← setAt events (goodPos + 1) next
        compactLoop fuel (goodPos + 1) (nextPos + 1) events
      else compactLoop fuel goodPos (nextPos + 1) events

/-- The outer loop, up to the first repetition. -/
def scanLoop : ℕ → ℕ → List ℕ → Exec (ℕ × List ℕ)
  | 0, _, _ => .error .unfinished
  | fuel + 1, goodPos, events => do
    if goodPos = (← sub events.length 1) then .ok (goodPos, events)
    else
      let good ← elementAt events goodPos
      let next ← elementAt events (goodPos + 1)
      if good = next then compactLoop events.length goodPos (goodPos + 2) events
      else scanLoop fuel (goodPos + 1) events

/-- The loop that fills the remaining entries with null. -/
def fillLoop : ℕ → ℕ → List ℕ → Exec (List ℕ)
  | 0, _, _ => .error .unfinished
  | fuel + 1, nextPos, events => do
    if nextPos = events.length then .ok events
    else
      let events ← setAt events nextPos 0
      fillLoop fuel (nextPos + 1) events

/-- The fix-up of the list in `register_impl`. -/
def fixUp (events : List ℕ) : Exec (List ℕ) :=
  if events = [] then .ok events
  else do
    let sorted := sortDescending events
    let (goodPos, compacted) ← scanLoop sorted.length 0 sorted
    fillLoop (compacted.length + 1) (goodPos + 1) compacted

/-- The loops of `register_impl` and of `unregister` over the list: the tracepoints that `call` is made
for, and the first error. -/
def callLoop (call : ℕ → ℤ) : List ℕ → ℤ → List ℕ × ℤ
  | [], result => ([], result)
  | event :: events, result =>
    if event = 0 then ([], result)
    else
      let result := if result = 0 then call event else result
      let (visited, result) := callLoop call events result
      (event :: visited, result)

/-- `register_impl`: the list it leaves, the tracepoints it registers, and the first error. -/
def register (registerState : ℕ → ℤ) (events : List ℕ) : Exec (List ℕ × List ℕ × ℤ) := do
  let events ← fixUp events
  .ok (events, callLoop registerState events 0)

/-- `unregister`: the tracepoints it unregisters, and the first error. -/
def unregister (unregisterState : ℕ → ℤ) (events : List ℕ) : List ℕ × ℤ :=
  callLoop unregisterState events 0

/-! ### What the loops leave -/

/-- A loop leaves `kept` in front of the list, and the position of its last element. -/
def Compacted (kept : List ℕ) (length : ℕ) (result : Exec (ℕ × List ℕ)) : Prop :=
  ∃ goodPos rest, result = .ok (goodPos, kept ++ rest) ∧ goodPos + 1 = kept.length ∧
    (kept ++ rest).length = length

/-- Between the elements that are kept and those that are not looked at is a gap. -/
theorem compactLoop_compacted (rest : List ℕ) :
    ∀ (fuel : ℕ) (front gap : List ℕ) (good : ℕ), rest.length < fuel → gap ≠ [] →
      Compacted (front ++ rest.destutter' (· ≠ ·) good) (front ++ good :: gap ++ rest).length
        (compactLoop fuel front.length (front.length + 1 + gap.length)
          (front ++ good :: gap ++ rest)) := by
  induction rest with
  | nil =>
    intro fuel front gap good hfuel hgap
    obtain ⟨fuel, rfl⟩ := Nat.exists_eq_succ_of_ne_zero (Nat.ne_zero_of_lt hfuel)
    unfold compactLoop
    rw [if_pos (by simp; omega), List.append_nil, List.destutter'_nil]
    refine ⟨front.length, gap, ?_, ?_, ?_⟩
    · simp
    · simp
    · simp
  | cons next rest ih =>
    intro fuel front gap good hfuel hgap
    obtain ⟨fuel, rfl⟩ := Nat.exists_eq_succ_of_ne_zero (Nat.ne_zero_of_lt hfuel)
    rw [List.length_cons] at hfuel
    unfold compactLoop
    rw [if_neg (by simp; omega),
      @elementAt_split _ _ front (gap ++ next :: rest) good _ (by simp) rfl, ok_bind,
      @elementAt_split _ _ (front ++ good :: gap) rest next _ rfl (by simp; omega), ok_bind]
    by_cases heq : good = next
    · have hrest := ih fuel front (gap ++ [next]) good (by omega) (by simp)
      rw [if_neg (not_not.mpr heq), List.destutter'_cons_neg _ (not_not.mpr heq)]
      simpa [Nat.add_assoc] using hrest
    · obtain ⟨old, gap, rfl⟩ := List.exists_cons_of_ne_nil hgap
      have hrest := ih fuel (front ++ [good]) (gap ++ [next]) next (by omega) (by simp)
      rw [if_pos heq, List.destutter'_cons_pos _ heq,
        @setAt_split _ _ (front ++ [good]) (gap ++ next :: rest) old next _ (by simp) (by simp),
        ok_bind]
      simpa [Nat.add_assoc, Nat.add_comm, Nat.add_left_comm] using hrest

/-- Up to the first repetition, everything is kept where it is. -/
theorem scanLoop_compacted (rest : List ℕ) :
    ∀ (fuel : ℕ) (front : List ℕ) (good : ℕ), rest.length < fuel →
      Compacted (front ++ rest.destutter' (· ≠ ·) good) (front ++ good :: rest).length
        (scanLoop fuel front.length (front ++ good :: rest)) := by
  induction rest with
  | nil =>
    intro fuel front good hfuel
    obtain ⟨fuel, rfl⟩ := Nat.exists_eq_succ_of_ne_zero (Nat.ne_zero_of_lt hfuel)
    unfold scanLoop
    rw [sub_of_le (by simp), ok_bind, if_pos (by simp), List.destutter'_nil]
    refine ⟨front.length, [], ?_, ?_, ?_⟩
    · simp
    · simp
    · simp
  | cons next rest ih =>
    intro fuel front good hfuel
    obtain ⟨fuel, rfl⟩ := Nat.exists_eq_succ_of_ne_zero (Nat.ne_zero_of_lt hfuel)
    rw [List.length_cons] at hfuel
    unfold scanLoop
    rw [sub_of_le (by simp; omega), ok_bind, if_neg (by simp),
      @elementAt_split _ _ front (next :: rest) good _ rfl rfl, ok_bind,
      @elementAt_split _ _ (front ++ [good]) rest next _ (by simp) (by simp), ok_bind]
    by_cases heq : good = next
    · have hrest := compactLoop_compacted rest (front ++ good :: next :: rest).length front [next]
        good (by simp; omega) (by simp)
      rw [if_pos heq, List.destutter'_cons_neg _ (not_not.mpr heq)]
      simpa using hrest
    · have hrest := ih fuel (front ++ [good]) next (by omega)
      rw [if_neg heq, List.destutter'_cons_pos _ heq]
      simpa using hrest

theorem fillLoop_eq (rest : List ℕ) :
    ∀ (fuel : ℕ) (front : List ℕ), rest.length < fuel →
      fillLoop fuel front.length (front ++ rest) =
        .ok (front ++ List.replicate rest.length 0) := by
  induction rest with
  | nil =>
    intro fuel front hfuel
    obtain ⟨fuel, rfl⟩ := Nat.exists_eq_succ_of_ne_zero (Nat.ne_zero_of_lt hfuel)
    unfold fillLoop
    rw [List.append_nil, if_pos rfl]
    simp
  | cons old rest ih =>
    intro fuel front hfuel
    obtain ⟨fuel, rfl⟩ := Nat.exists_eq_succ_of_ne_zero (Nat.ne_zero_of_lt hfuel)
    rw [List.length_cons] at hfuel
    have hrest := ih fuel (front ++ [0]) (by omega)
    unfold fillLoop
    rw [if_neg (by simp), setAt_split rfl rfl, ok_bind]
    rw [List.length_append, List.length_singleton, List.append_assoc, List.append_assoc] at hrest
    rw [List.length_cons, List.replicate_succ]
    exact hrest

/-- The elements that are kept. -/
def distinct (events : List ℕ) : List ℕ := (sortDescending events).destutter (· ≠ ·)

theorem sortDescending_pairwise (events : List ℕ) :
    (sortDescending events).Pairwise (· ≥ ·) := by
  have hsorted := @List.pairwise_mergeSort _ (fun first second : ℕ ↦ decide (second ≤ first))
    (fun _ _ _ hab hbc ↦ decide_eq_true (le_trans (of_decide_eq_true hbc) (of_decide_eq_true hab)))
    (fun first second ↦ by simpa using le_total second first) events
  exact hsorted.imp fun h ↦ of_decide_eq_true h

theorem distinct_pairwise (events : List ℕ) : (distinct events).Pairwise (· > ·) :=
  pairwise_destutter (sortDescending_pairwise events)

theorem mem_distinct (events : List ℕ) (event : ℕ) : event ∈ distinct events ↔ event ∈ events := by
  rw [distinct, mem_destutter]
  exact List.mem_mergeSort

/-- The fix-up leaves the distinct elements in descending order, and null behind them. -/
theorem fixUp_eq (events : List ℕ) :
    ∃ count, fixUp events = .ok (distinct events ++ List.replicate count 0) ∧
      (distinct events ++ List.replicate count 0).length = events.length := by
  unfold fixUp
  by_cases hempty : events = []
  · have hdistinct : distinct [] = [] := by
      unfold distinct sortDescending
      rw [List.mergeSort_nil, List.destutter_nil]
    rw [if_pos hempty, hempty, hdistinct]
    exact ⟨0, rfl, rfl⟩
  · have hlength : (sortDescending events).length = events.length := List.length_mergeSort _
    have hne : sortDescending events ≠ [] := by
      rw [← List.length_pos_iff_ne_nil, hlength]
      exact List.length_pos_iff_ne_nil.mpr hempty
    obtain ⟨first, rest, hsorted⟩ := List.exists_cons_of_ne_nil hne
    have hscan := scanLoop_compacted rest (sortDescending events).length [] first
      (by rw [hsorted]; simp)
    rw [List.nil_append, List.nil_append, ← List.destutter_cons', ← hsorted] at hscan
    obtain ⟨goodPos, behind, hresult, hgood, hlen⟩ := hscan
    rw [if_neg hempty]
    dsimp only
    rw [show (0 : ℕ) = ([] : List ℕ).length from rfl, hresult, ok_bind]
    refine ⟨behind.length, ?_, ?_⟩
    · dsimp only
      rw [hgood]
      exact fillLoop_eq behind _ _ (by rw [List.length_append]; omega)
    · rw [← hlength, ← hlen]
      simp [distinct]

/-! ### What the fix-up is for -/

/-- A list that holds the tracepoints of another one, each once in descending order, and null behind
them. -/
structure FixedUp (events fixed kept : List ℕ) : Prop where
  length_eq : fixed.length = events.length
  fixed_eq : fixed = kept ++ List.replicate (events.length - kept.length) 0
  descending : kept.Pairwise (· > ·)
  mem_kept : ∀ event, event ∈ kept ↔ event ≠ 0 ∧ event ∈ events

/-- Null is only at the end of a list in strictly descending order. -/
theorem nulls_last {list : List ℕ} (h : list.Pairwise (· > ·)) :
    ∃ kept count, list = kept ++ List.replicate count 0 ∧ 0 ∉ kept := by
  induction list with
  | nil => exact ⟨[], 0, rfl, List.not_mem_nil⟩
  | cons first list ih =>
    by_cases hzero : first = 0
    · have hempty : list = [] := by
        refine List.eq_nil_iff_forall_not_mem.mpr fun event hevent ↦ ?_
        have hlt := List.rel_of_pairwise_cons h hevent
        omega
      exact ⟨[], 1, by rw [hempty, hzero]; rfl, List.not_mem_nil⟩
    · obtain ⟨kept, count, hlist, hkept⟩ := ih h.of_cons
      refine ⟨first :: kept, count, by rw [hlist]; rfl, ?_⟩
      rw [List.mem_cons, not_or]
      exact ⟨fun h ↦ hzero h.symm, hkept⟩

theorem fixUp_kept (events : List ℕ) :
    ∃ fixed kept, fixUp events = .ok fixed ∧ FixedUp events fixed kept := by
  obtain ⟨count, hresult, hlength⟩ := fixUp_eq events
  obtain ⟨kept, zeros, hdistinct, hnull⟩ := nulls_last (distinct_pairwise events)
  have hdescending := distinct_pairwise events
  have hmem := mem_distinct events
  rw [hdistinct] at hresult hlength hdescending hmem
  refine ⟨_, kept, hresult, hlength, ?_, (List.pairwise_append.mp hdescending).1, fun event ↦ ?_⟩
  · rw [List.append_assoc, List.replicate_append_replicate]
    congr 2
    simp only [List.length_append, List.length_replicate] at hlength
    omega
  · constructor
    · intro hevent
      refine ⟨fun hzero ↦ hnull (hzero ▸ hevent), ?_⟩
      rw [← hmem, List.mem_append]
      exact .inl hevent
    · rintro ⟨hne, hevent⟩
      rw [← hmem, List.mem_append] at hevent
      rcases hevent with hevent | hevent
      · exact hevent
      · exact absurd (List.eq_of_mem_replicate hevent) hne

theorem FixedUp.unique {events fixed kept other otherKept : List ℕ} (h : FixedUp events fixed kept)
    (h' : FixedUp events other otherKept) : other = fixed ∧ otherKept = kept := by
  have hkept : otherKept = kept := by
    have hperm : otherKept.Perm kept := by
      rw [List.perm_ext_iff_of_nodup (h'.descending.imp fun h ↦ (ne_of_gt h))
        (h.descending.imp fun h ↦ (ne_of_gt h))]
      exact fun event ↦ (h'.mem_kept event).trans (h.mem_kept event).symm
    exact hperm.eq_of_pairwise (fun _ _ _ _ hgt hlt ↦ absurd hgt (Nat.lt_asymm hlt)) h'.descending
      h.descending
  refine ⟨?_, hkept⟩
  rw [h'.fixed_eq, h.fixed_eq, hkept]

/-- The tracepoints of a list that is fixed up are its own. -/
theorem FixedUp.again {events fixed kept : List ℕ} (h : FixedUp events fixed kept) :
    FixedUp fixed fixed kept := by
  refine ⟨rfl, ?_, h.descending, fun event ↦ ?_⟩
  · rw [h.length_eq]
    exact h.fixed_eq
  · constructor
    · intro hevent
      refine ⟨((h.mem_kept event).mp hevent).1, ?_⟩
      rw [h.fixed_eq, List.mem_append]
      exact .inl hevent
    · rintro ⟨hne, hevent⟩
      rw [h.fixed_eq, List.mem_append] at hevent
      rcases hevent with hevent | hevent
      · exact hevent
      · exact absurd (List.eq_of_mem_replicate hevent) hne

/-- A loop over a list that is fixed up is made for the tracepoints. -/
theorem callLoop_kept (call : ℕ → ℤ) (kept : List ℕ) (count : ℕ) :
    ∀ result, 0 ∉ kept → (callLoop call (kept ++ List.replicate count 0) result).1 = kept := by
  induction kept with
  | nil =>
    intro result _
    cases count with
    | zero => rfl
    | succ count =>
      rw [List.nil_append, List.replicate_succ]
      rfl
  | cons event kept ih =>
    intro result hnull
    rw [List.mem_cons, not_or] at hnull
    rw [List.cons_append, callLoop, if_neg (Ne.symm hnull.1)]
    dsimp only
    rw [ih _ hnull.2]

/-- The fix-up leaves each tracepoint once; these are registered and then unregistered, and registering
again finds the same list. -/
theorem fixUp_fixedUp (events : List ℕ) (registerState unregisterState : ℕ → ℤ) :
    ∃ fixed kept result, FixedUp events fixed kept ∧
      register registerState events = .ok (fixed, kept, result) ∧
      (unregister unregisterState fixed).1 = kept ∧ fixUp fixed = .ok fixed := by
  obtain ⟨fixed, kept, hfixed, hkept⟩ := fixUp_kept events
  obtain ⟨again, againKept, hagain, hsame⟩ := fixUp_kept fixed
  have hnull : 0 ∉ kept := fun hmem ↦ ((hkept.mem_kept 0).mp hmem).1 rfl
  have hcalls (call : ℕ → ℤ) : (callLoop call fixed 0).1 = kept := by
    rw [hkept.fixed_eq]
    exact callLoop_kept call kept _ 0 hnull
  refine ⟨fixed, kept, (callLoop registerState fixed 0).2, hkept, ?_, hcalls unregisterState, ?_⟩
  · unfold register
    rw [hfixed, ok_bind, ← hcalls registerState]
  · rw [hagain, (hkept.again.unique hsame).1]

end Provider

end Tracepoints
