import Mathlib.Data.List.Basic

/-!
# Maps in the order of their keys

`OrderedMap` is a map as a list of entries with ascending keys, so that no key occurs twice.
`OrderedMap.upsert` changes the entry of a key or adds one; `find?_upsert` says what is found behind
that, and `mem_entries_iff` that the entries are what is found. `groups` is about a map that collects
the values of a key.
-/

set_option autoImplicit false
set_option relaxedAutoImplicit false

namespace Tracepoints

open Std

/-- A map: its entries, in the order of their keys. -/
structure OrderedMap (κ α : Type) [Ord κ] where
  entries : List (κ × α)
  ascending : entries.Pairwise fun first second ↦ compare first.1 second.1 = .lt

namespace OrderedMap

variable {κ α : Type} [Ord κ]

/-- The map without entries. -/
def empty : OrderedMap κ α := ⟨[], .nil⟩

/-- The value of a key. -/
def find? (map : OrderedMap κ α) (key : κ) : Option α :=
  (map.entries.find? fun entry ↦ compare key entry.1 == .eq).map Prod.snd

/-- The values in the order of their keys. -/
def values (map : OrderedMap κ α) : List α := map.entries.map Prod.snd

/-- The entries with the one of a key changed or added. -/
def upsertEntries (key : κ) (change : Option α → α) : List (κ × α) → List (κ × α)
  | [] => [(key, change none)]
  | entry :: entries =>
    match compare key entry.1 with
    | .lt => (key, change none) :: entry :: entries
    | .eq => (entry.1, change (some entry.2)) :: entries
    | .gt => entry :: upsertEntries key change entries

/-- The keys behind a change are those before it and the key that was changed. -/
theorem mem_upsertEntries {key : κ} {change : Option α → α} {entries : List (κ × α)}
    {entry : κ × α} (h : entry ∈ upsertEntries key change entries) :
    entry.1 = key ∨ ∃ before ∈ entries, before.1 = entry.1 := by
  induction entries with
  | nil =>
    rw [upsertEntries, List.mem_singleton] at h
    exact .inl (h ▸ rfl)
  | cons first entries ih =>
    unfold upsertEntries at h
    split at h
    · rcases List.mem_cons.mp h with rfl | hmem
      · exact .inl rfl
      · exact .inr ⟨entry, hmem, rfl⟩
    · rcases List.mem_cons.mp h with rfl | hmem
      · exact .inr ⟨first, List.mem_cons_self, rfl⟩
      · exact .inr ⟨entry, List.mem_cons_of_mem _ hmem, rfl⟩
    · rcases List.mem_cons.mp h with rfl | hmem
      · exact .inr ⟨entry, List.mem_cons_self, rfl⟩
      · rcases ih hmem with hkey | ⟨before, hbefore, hsame⟩
        · exact .inl hkey
        · exact .inr ⟨before, List.mem_cons_of_mem _ hbefore, hsame⟩

section Lawful

variable [TransOrd κ] [LawfulEqOrd κ] {key other : κ} {change : Option α → α}

omit [LawfulEqOrd κ] in
/-- A change keeps the keys ascending. -/
theorem ascending_upsertEntries {entries : List (κ × α)}
    (h : entries.Pairwise fun first second ↦ compare first.1 second.1 = .lt) :
    (upsertEntries key change entries).Pairwise
      fun first second ↦ compare first.1 second.1 = .lt := by
  induction entries with
  | nil => exact List.pairwise_singleton _ _
  | cons first entries ih =>
    obtain ⟨hfirst, hrest⟩ := List.pairwise_cons.mp h
    unfold upsertEntries
    split
    · next hlt =>
      refine List.pairwise_cons.mpr ⟨fun entry hentry ↦ ?_, h⟩
      rcases List.mem_cons.mp hentry with rfl | hmem
      · exact hlt
      · exact TransCmp.lt_trans hlt (hfirst entry hmem)
    · exact List.pairwise_cons.mpr ⟨hfirst, hrest⟩
    · next hgt =>
      refine List.pairwise_cons.mpr ⟨fun entry hentry ↦ ?_, ih hrest⟩
      rcases mem_upsertEntries hentry with hkey | ⟨before, hbefore, hsame⟩
      · rw [hkey]
        exact OrientedCmp.lt_of_gt hgt
      · rw [← hsame]
        exact hfirst before hbefore

/-- The entry of a key changed, or a new entry. -/
def upsert (key : κ) (change : Option α → α) (map : OrderedMap κ α) : OrderedMap κ α :=
  ⟨upsertEntries key change map.entries, ascending_upsertEntries map.ascending⟩

/-- What is found in entries. -/
theorem find?_entries_upsert [DecidableEq κ] {entries : List (κ × α)}
    (h : entries.Pairwise fun first second ↦ compare first.1 second.1 = .lt) :
    ((upsertEntries key change entries).find? fun entry ↦ compare other entry.1 == .eq).map Prod.snd =
      if other = key then
        some (change ((entries.find? fun entry ↦ compare key entry.1 == .eq).map Prod.snd))
      else (entries.find? fun entry ↦ compare other entry.1 == .eq).map Prod.snd := by
  induction entries with
  | nil =>
    unfold upsertEntries
    by_cases hsame : other = key
    · rw [if_pos hsame, List.find?_cons_of_pos (by simp [hsame])]
      rfl
    · rw [if_neg hsame, List.find?_cons_of_neg (by simp [hsame])]
  | cons first entries ih =>
    obtain ⟨hfirst, hrest⟩ := List.pairwise_cons.mp h
    unfold upsertEntries
    split
    · next hlt =>
      -- the key is below all others, so that it has no entry yet
      have hnone : (first :: entries).find? (fun entry ↦ compare key entry.1 == .eq) = none := by
        refine List.find?_eq_none.mpr fun entry hentry heq ↦ ?_
        have hkey : key = entry.1 := LawfulEqOrd.eq_of_compare (by simpa using heq)
        rcases List.mem_cons.mp hentry with rfl | hmem
        · rw [← hkey, ReflOrd.compare_self] at hlt
          cases hlt
        · have hbelow := TransCmp.lt_trans hlt (hfirst entry hmem)
          rw [← hkey, ReflOrd.compare_self] at hbelow
          cases hbelow
      by_cases hsame : other = key
      · rw [if_pos hsame, List.find?_cons_of_pos (by simp [hsame]), hnone]
        rfl
      · rw [if_neg hsame, List.find?_cons_of_neg (by simp [hsame])]
    · next heq =>
      have hkey : key = first.1 := LawfulEqOrd.eq_of_compare heq
      by_cases hsame : other = key
      · rw [if_pos hsame, List.find?_cons_of_pos (by simp [hsame, hkey]),
          List.find?_cons_of_pos (by simp [hkey])]
        rfl
      · have hother : other ≠ first.1 := hkey ▸ hsame
        rw [if_neg hsame, List.find?_cons_of_neg (by simpa using hother),
          List.find?_cons_of_neg (by simpa using hother)]
    · next hgt =>
      have hkey : key ≠ first.1 := by
        rintro rfl
        rw [ReflOrd.compare_self] at hgt
        cases hgt
      by_cases hother : other = first.1
      · have hsame : other ≠ key := fun h ↦ hkey (h.symm.trans hother)
        rw [if_neg hsame, List.find?_cons_of_pos (by simp [hother]),
          List.find?_cons_of_pos (by simp [hother])]
      · rw [List.find?_cons_of_neg (by simpa using hother), ih hrest,
          @List.find?_cons_of_neg _ _ first entries (by simpa using hkey),
          @List.find?_cons_of_neg _ _ first entries (by simpa using hother)]

/-- What is found behind a change. -/
theorem find?_upsert [DecidableEq κ] (map : OrderedMap κ α) :
    (map.upsert key change).find? other =
      if other = key then some (change (map.find? key)) else map.find? other :=
  find?_entries_upsert map.ascending

omit [TransOrd κ] in
/-- The entries are what is found. -/
theorem mem_entries_iff [OrientedOrd κ] (map : OrderedMap κ α) {value : α} :
    (key, value) ∈ map.entries ↔ map.find? key = some value := by
  obtain ⟨entries, h⟩ := map
  unfold find?
  dsimp only
  induction entries with
  | nil => simp
  | cons first entries ih =>
    obtain ⟨hfirst, hrest⟩ := List.pairwise_cons.mp h
    by_cases hkey : key = first.1
    · rw [List.find?_cons_of_pos (by simp [hkey])]
      constructor
      · intro hmem
        rcases List.mem_cons.mp hmem with heq | hmem
        · rw [← heq]
          rfl
        · have hbelow := hfirst _ hmem
          dsimp only at hbelow
          rw [← hkey, ReflOrd.compare_self] at hbelow
          cases hbelow
      · intro heq
        obtain ⟨firstKey, firstValue⟩ := first
        cases heq
        rw [hkey]
        exact List.mem_cons_self
    · rw [List.find?_cons_of_neg (by simpa using hkey), ← ih hrest]
      constructor
      · intro hmem
        rcases List.mem_cons.mp hmem with heq | hmem
        · exact absurd (congrArg Prod.fst heq) hkey
        · exact hmem
      · exact List.mem_cons_of_mem _

end Lawful

/-! ### Groups -/

section Groups

variable {key : α → κ}

/-- The values by a key of theirs, each behind those of the same key that came before. -/
theorem flatMap_upsertEntries_push {group : κ} {value : α} {entries : List (κ × List α)} :
    ((upsertEntries group (fun values ↦ values.getD [] ++ [value]) entries).flatMap Prod.snd).Perm
      (value :: entries.flatMap Prod.snd) := by
  induction entries with
  | nil => exact .refl _
  | cons first entries ih =>
    unfold upsertEntries
    split
    · exact .refl _
    · rw [List.flatMap_cons, List.flatMap_cons, Option.getD_some, List.append_assoc,
        List.singleton_append]
      exact List.perm_middle
    · rw [List.flatMap_cons, List.flatMap_cons]
      exact ((List.Perm.append_left _ ih).trans List.perm_middle)

/-- A group has members, whose key is that of the group. -/
def IsGroup (key : α → κ) (entry : κ × List α) : Prop :=
  entry.2 ≠ [] ∧ ∀ member ∈ entry.2, key member = entry.1

theorem isGroup_of_mem_upsertEntries [LawfulEqOrd κ] {value : α} {entries : List (κ × List α)}
    (h : ∀ entry ∈ entries, IsGroup key entry) :
    ∀ entry ∈ upsertEntries (key value) (fun values ↦ values.getD [] ++ [value]) entries,
      IsGroup key entry := by
  have hnew : IsGroup key (key value, [value]) :=
    ⟨List.cons_ne_nil _ _, fun member hmember ↦ by rw [List.mem_singleton.mp hmember]⟩
  induction entries with
  | nil =>
    intro entry hentry
    rw [upsertEntries, List.mem_singleton] at hentry
    rw [hentry]
    exact hnew
  | cons first entries ih =>
    rw [List.forall_mem_cons] at h
    unfold upsertEntries
    split
    · rw [List.forall_mem_cons, List.forall_mem_cons]
      exact ⟨hnew, h⟩
    · next heq =>
      have hkey : key value = first.1 := LawfulEqOrd.eq_of_compare heq
      rw [List.forall_mem_cons]
      refine ⟨⟨List.append_ne_nil_of_right_ne_nil _ (List.cons_ne_nil _ _), fun member hmember ↦ ?_⟩,
        h.2⟩
      rcases List.mem_append.mp hmember with hold | hnew
      · exact h.1.2 member hold
      · rw [List.mem_singleton.mp hnew]
        exact hkey
    · rw [List.forall_mem_cons]
      exact ⟨h.1, ih h.2⟩

variable [TransOrd κ] [LawfulEqOrd κ]

/-- Values in groups are the values, and the key of a group is that of its members. -/
theorem groups (values : List α) (map : OrderedMap κ (List α))
    (hmap : ∀ entry ∈ map.entries, IsGroup key entry) :
    let grouped := values.foldl
      (fun map value ↦ map.upsert (key value) fun values ↦ values.getD [] ++ [value]) map
    (grouped.entries.flatMap Prod.snd).Perm (map.entries.flatMap Prod.snd ++ values) ∧
      ∀ entry ∈ grouped.entries, IsGroup key entry := by
  induction values generalizing map with
  | nil => exact ⟨by rw [List.append_nil]; exact .refl _, hmap⟩
  | cons value values ih =>
    obtain ⟨hperm, hgroups⟩ := ih (map.upsert (key value) fun values ↦ values.getD [] ++ [value])
      (isGroup_of_mem_upsertEntries hmap)
    refine ⟨hperm.trans ?_, hgroups⟩
    exact (List.Perm.append_right values flatMap_upsertEntries_push).trans List.perm_middle.symm

end Groups

end OrderedMap

end Tracepoints
