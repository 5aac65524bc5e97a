import Mathlib.Logic.Function.Basic
import Mathlib.Logic.Relation
import Mathlib.Data.Int.Basic

/-!
# The data file

The protocol of `UserEventsDataFile` (`tracepoint/src/native.rs`): `get` and `update` as sequences of
atomic steps on `file_or_error` and on the descriptors that the kernel has open, taken by any number of
threads in any order. `open` returns a descriptor that is not open, or an error.

`Kept` is the invariant: an open descriptor is the stored one or in the hands of the thread that opened
it, and one that is not open any more was closed once, by that thread. It is kept by every step
(`Step.kept`), and `descriptor_survives` is what follows for whole runs.
-/

set_option autoImplicit false
set_option relaxedAutoImplicit false

namespace Tracepoints

namespace UserEventsDataFile

/-! ### Steps -/

def eagainError : ℤ := -11

/-- Where a thread is in a call. -/
inductive Call
  /-- Not in a call. -/
  | idle
  /-- In `update`, before `open`. -/
  | opening
  /-- In `update`, before `compare_exchange`. -/
  | exchanging (oldFileOrError newFileOrError : ℤ)
  /-- In `update`, before `close`. -/
  | closing (newFileOrError currentFileOrError : ℤ)
  deriving DecidableEq, Repr

/-- The descriptor that a thread has opened and neither stored nor closed. -/
def Call.Holds (fd : ℤ) : Call → Prop
  | exchanging _ newFileOrError => newFileOrError = fd ∧ 0 ≤ fd
  | closing newFileOrError _ => newFileOrError = fd ∧ 0 ≤ fd
  | _ => False

/-- A file that was opened: the thread that opened it, its descriptor, and the threads that closed
it. -/
structure OpenedFile (T : Type) where
  thread : T
  file : ℤ
  closedBy : List T

/-- The data file, the calls, the files that were opened, in this order, and which of them the
descriptors are of. -/
structure Shared (T : Type) where
  fileOrError : ℤ
  call : T → Call
  files : List (OpenedFile T)
  table : ℤ → Option ℕ
  /-- The number of times that a descriptor was closed that was not open. -/
  strayCloses : ℕ

/-- One atomic step of a thread. -/
inductive Action
  | get
  | update
  | opened (newFile : ℤ)
  | failed (error : ℤ)
  | exchange
  | close
  deriving DecidableEq, Repr

variable {T : Type} [DecidableEq T]

/-- `new`, before any thread uses it. -/
def new : Shared T := ⟨eagainError, fun _ ↦ .idle, [], fun _ ↦ none, 0⟩

namespace Shared

/-- The thread goes on with a call. -/
def go (s : Shared T) (t : T) (call : Call) : Shared T :=
  { s with call := Function.update s.call t call }

/-- The kernel opens a file. -/
def addFile (s : Shared T) (t : T) (fd : ℤ) : Shared T :=
  { s with
    files := s.files ++ [⟨t, fd, []⟩]
    table := Function.update s.table fd (some s.files.length) }

/-- The kernel closes a descriptor. -/
def closeFile (s : Shared T) (t : T) (fd : ℤ) : Shared T :=
  match s.table fd with
  | some i =>
    { s with
      files := s.files.modify i fun file ↦ { file with closedBy := file.closedBy ++ [t] }
      table := Function.update s.table fd none }
  | none => { s with strayCloses := s.strayCloses + 1 }

/-- A round of the loop of `update`: the state behind it, and what the call returns if it does. -/
def exchange (s : Shared T) (t : T) (oldFileOrError newFileOrError : ℤ) : Shared T × Option ℤ :=
  if s.fileOrError = oldFileOrError then
    ({ s with fileOrError := newFileOrError }.go t .idle, some newFileOrError)
  else if 0 ≤ s.fileOrError ∨ newFileOrError < 0 then
    if 0 ≤ newFileOrError then (s.go t (.closing newFileOrError s.fileOrError), none)
    else (s.go t .idle, some s.fileOrError)
  else (s.go t (.exchanging s.fileOrError newFileOrError), none)

/-- A step of a thread, if it is at that step, with what its call returns if it does. -/
def step (s : Shared T) (t : T) : Action → Option (Shared T × Option ℤ)
  | .get =>
    if s.call t = .idle then
      some (if s.fileOrError = eagainError then (s.go t .opening, none) else (s, some s.fileOrError))
    else none
  | .update => if s.call t = .idle then some (s.go t .opening, none) else none
  | .opened newFile =>
    -- the kernel returns a descriptor that is not open
    if s.call t = .opening ∧ 0 ≤ newFile ∧ s.table newFile = none then
      some ((s.addFile t newFile).go t (.exchanging eagainError newFile), none)
    else none
  | .failed error =>
    if s.call t = .opening ∧ error < 0 then
      some (s.go t (.exchanging eagainError error), none)
    else none
  | .exchange =>
    match s.call t with
    | .exchanging oldFileOrError newFileOrError =>
      some (s.exchange t oldFileOrError newFileOrError)
    | _ => none
  | .close =>
    match s.call t with
    | .closing newFileOrError currentFileOrError =>
      some ((s.closeFile t newFileOrError).go t .idle, some currentFileOrError)
    | _ => none

/-- A step of the threads. -/
def Step (s s' : Shared T) : Prop := ∃ t action result, s.step t action = some (s', result)

/-! ### The invariant -/

/-- A thread has opened a descriptor and neither stored nor closed it. -/
def Holds (s : Shared T) (t : T) (fd : ℤ) : Prop := (s.call t).Holds fd

/-- The invariant. -/
structure Kept (s : Shared T) : Prop where
  exchanging : ∀ t old new, s.call t = .exchanging old new → old < 0
  closing : ∀ t new current, s.call t = .closing new current →
    0 ≤ new ∧ 0 ≤ current ∧ current = s.fileOrError
  held : ∀ t fd, s.Holds t fd → fd ≠ s.fileOrError ∧
    ∃ i file, s.table fd = some i ∧ s.files[i]? = some file ∧ file.thread = t
  live : ∀ fd i, s.table fd = some i → 0 ≤ fd ∧ ∃ file, s.files[i]? = some file ∧
    file.file = fd ∧ file.closedBy = [] ∧ (s.fileOrError = fd ∨ s.Holds file.thread fd)
  stored : 0 ≤ s.fileOrError → ∃ i, s.table s.fileOrError = some i
  files : ∀ i file, s.files[i]? = some file → file.closedBy = [file.thread] ∨
    file.closedBy = [] ∧ s.table file.file = some i
  stray : s.strayCloses = 0

variable {s s' : Shared T} {t u : T} {fd : ℤ}

@[simp] theorem go_call_self (s : Shared T) (t : T) (call : Call) : (s.go t call).call t = call :=
  Function.update_self _ _ _

theorem go_call_of_ne (s : Shared T) {t u : T} (call : Call) (h : u ≠ t) :
    (s.go t call).call u = s.call u :=
  Function.update_of_ne h _ _

omit [DecidableEq T] in
theorem new_kept : (new : Shared T).Kept where
  exchanging _ _ _ h := by cases h
  closing _ _ _ h := by cases h
  held _ _ h := h.elim
  live _ _ h := by cases h
  stored h := absurd (show (0 : ℤ) ≤ eagainError from h) (by decide)
  files _ _ h := by cases h
  stray := rfl

omit [DecidableEq T] in
/-- A thread holds one descriptor at most. -/
theorem Call.Holds.unique {call : Call} {other : ℤ} (h : call.Holds fd) (h' : call.Holds other) :
    fd = other := by
  cases call with
  | idle => exact h.elim
  | opening => exact h.elim
  | exchanging old new => exact h.1.symm.trans h'.1
  | closing new current => exact h.1.symm.trans h'.1

omit [DecidableEq T] in
theorem Call.Holds.nonneg {call : Call} (h : call.Holds fd) : 0 ≤ fd := by
  cases call with
  | idle => exact h.elim
  | opening => exact h.elim
  | exchanging old new => exact h.2
  | closing new current => exact h.2

omit [DecidableEq T] in
/-- Different threads hold different descriptors. -/
theorem Kept.ne_of_holds (h : s.Kept) {other : ℤ} (ht : s.Holds t fd) (hu : s.Holds u other)
    (hne : u ≠ t) : other ≠ fd := by
  rintro rfl
  obtain ⟨-, i, file, htable, hfile, hthread⟩ := h.held t other ht
  obtain ⟨-, j, file', htable', hfile', hthread'⟩ := h.held u other hu
  obtain rfl : j = i := Option.some.inj (htable'.symm.trans htable)
  obtain rfl : file' = file := Option.some.inj (hfile'.symm.trans hfile)
  exact hne (hthread'.symm.trans hthread)

/-- A thread that goes on with the descriptor that it holds keeps the invariant. -/
theorem Kept.go (h : s.Kept) {call : Call} (hholds : ∀ fd, call.Holds fd ↔ s.Holds t fd)
    (hexchanging : ∀ old new, call = .exchanging old new → old < 0)
    (hclosing : ∀ new current, call = .closing new current →
      0 ≤ new ∧ 0 ≤ current ∧ current = s.fileOrError) : (s.go t call).Kept := by
  have hsame (u : T) (fd : ℤ) : (s.go t call).Holds u fd ↔ s.Holds u fd := by
    unfold Holds
    by_cases hu : u = t
    · rw [hu, go_call_self]
      exact hholds fd
    · rw [go_call_of_ne _ _ hu]
  refine ⟨fun u old new hcall ↦ ?_, fun u new current hcall ↦ ?_, fun u fd hu ↦ ?_,
    fun fd i htable ↦ ?_, h.stored, h.files, h.stray⟩
  · by_cases hu : u = t
    · rw [hu, go_call_self] at hcall
      exact hexchanging old new hcall
    · rw [go_call_of_ne _ _ hu] at hcall
      exact h.exchanging u old new hcall
  · by_cases hu : u = t
    · rw [hu, go_call_self] at hcall
      exact hclosing new current hcall
    · rw [go_call_of_ne _ _ hu] at hcall
      exact h.closing u new current hcall
  · exact h.held u fd ((hsame u fd).mp hu)
  · obtain ⟨hnonneg, file, hfile, hfd, hopen, howner⟩ := h.live fd i htable
    refine ⟨hnonneg, file, hfile, hfd, hopen, ?_⟩
    rw [hsame]
    exact howner

/-! ### Steps keep the invariant -/

/-- A thread gets a descriptor that is not open. -/
theorem opened_kept (h : s.Kept) (hcall : s.call t = .opening) (hnonneg : 0 ≤ fd)
    (hfresh : s.table fd = none) :
    ((s.addFile t fd).go t (.exchanging eagainError fd)).Kept := by
  have hunstored : fd ≠ s.fileOrError := by
    rintro rfl
    obtain ⟨i, hi⟩ := h.stored hnonneg
    rw [hfresh] at hi
    cases hi
  have hother {u : T} {other : ℤ} (hne : u ≠ t) :
      ((s.addFile t fd).go t (.exchanging eagainError fd)).Holds u other ↔ s.Holds u other := by
    unfold Holds
    rw [go_call_of_ne _ _ hne]
    rfl
  have hself : ((s.addFile t fd).go t (.exchanging eagainError fd)).Holds t fd := by
    unfold Holds
    rw [go_call_self]
    exact ⟨rfl, hnonneg⟩
  have htable : (s.addFile t fd).table fd = some s.files.length := Function.update_self _ _ _
  have htables {other : ℤ} (hne : other ≠ fd) : (s.addFile t fd).table other = s.table other :=
    Function.update_of_ne hne _ _
  have hlast : (s.addFile t fd).files[s.files.length]? = some ⟨t, fd, []⟩ :=
    List.getElem?_concat_length
  have hfiles {i : ℕ} {file : OpenedFile T} (hfile : s.files[i]? = some file) :
      (s.addFile t fd).files[i]? = some file := by
    have hlt := (List.getElem?_eq_some_iff.mp hfile).1
    rw [← hfile]
    exact List.getElem?_append_left hlt
  refine ⟨fun u old new hu ↦ ?_, fun u new current hu ↦ ?_, fun u other hu ↦ ?_, fun other i hi ↦ ?_,
    fun hstored ↦ ?_, fun i file hfile ↦ ?_, h.stray⟩
  · by_cases hne : u = t
    · rw [hne, go_call_self] at hu
      cases hu
      decide
    · rw [go_call_of_ne _ _ hne] at hu
      exact h.exchanging u old new hu
  · by_cases hne : u = t
    · rw [hne, go_call_self] at hu
      cases hu
    · rw [go_call_of_ne _ _ hne] at hu
      exact h.closing u new current hu
  · by_cases hne : u = t
    · rw [hne] at hu ⊢
      rw [Call.Holds.unique hu hself]
      exact ⟨hunstored, _, _, htable, hlast, rfl⟩
    · obtain ⟨hdiffers, i, file, hi, hfile, hthread⟩ := h.held u other ((hother hne).mp hu)
      have hfd : other ≠ fd := by
        rintro rfl
        rw [hfresh] at hi
        cases hi
      exact ⟨hdiffers, i, file, (htables hfd).trans hi, hfiles hfile, hthread⟩
  · by_cases hfd : other = fd
    · subst hfd
      obtain rfl := Option.some.inj (htable.symm.trans hi)
      exact ⟨hnonneg, _, hlast, rfl, rfl, .inr hself⟩
    · obtain ⟨hge, file, hfile, hname, hopen, howner⟩ := h.live other i ((htables hfd).symm.trans hi)
      refine ⟨hge, file, hfiles hfile, hname, hopen, howner.imp_right fun hholds ↦ ?_⟩
      have hne : file.thread ≠ t := by
        intro heq
        unfold Holds at hholds
        rw [heq, hcall] at hholds
        exact hholds
      exact (hother hne).mpr hholds
  · obtain ⟨i, hi⟩ := h.stored hstored
    exact ⟨i, (htables hunstored.symm).trans hi⟩
  · by_cases hlt : i < s.files.length
    · have hold : s.files[i]? = some file := by
        rw [← hfile]
        exact (List.getElem?_append_left hlt).symm
      rcases h.files i file hold with hclosed | ⟨hopen, hi⟩
      · exact .inl hclosed
      · have hfd : file.file ≠ fd := by
          intro heq
          rw [heq, hfresh] at hi
          cases hi
        exact .inr ⟨hopen, (htables hfd).trans hi⟩
    · have hlength := (List.getElem?_eq_some_iff.mp hfile).1
      have hi : i = s.files.length := by
        change i < (s.files ++ [_]).length at hlength
        rw [List.length_append, List.length_singleton] at hlength
        omega
      subst hi
      obtain rfl := Option.some.inj (hlast.symm.trans hfile)
      exact .inr ⟨rfl, htable⟩

/-- A thread that returns holds no descriptor, and the others hold what they held. -/
theorem holds_go_idle (s : Shared T) (t u : T) (fd : ℤ) :
    (s.go t .idle).Holds u fd ↔ u ≠ t ∧ s.Holds u fd := by
  unfold Holds
  by_cases hu : u = t
  · rw [hu, go_call_self]
    exact iff_of_false id fun h ↦ h.1 rfl
  · rw [go_call_of_ne _ _ hu]
    exact ⟨fun h ↦ ⟨hu, h⟩, fun h ↦ h.2⟩

/-- The calls of the other threads when a thread returns. -/
theorem call_go_idle {call : Call} (hcall : call ≠ .idle) (h : (s.go t .idle).call u = call) :
    u ≠ t ∧ s.call u = call := by
  by_cases hu : u = t
  · rw [hu, go_call_self] at h
    exact absurd h.symm hcall
  · rw [go_call_of_ne _ _ hu] at h
    exact ⟨hu, h⟩

/-- A thread stores its value in place of an error. -/
theorem stored_kept (h : s.Kept) {old new : ℤ} (hcall : s.call t = .exchanging old new)
    (hvalue : s.fileOrError = old) : ({ s with fileOrError := new }.go t .idle).Kept := by
  have hnegative : s.fileOrError < 0 := by
    rw [hvalue]
    exact h.exchanging t old new hcall
  have hholds (hnonneg : 0 ≤ new) : s.Holds t new := by
    unfold Holds
    rw [hcall]
    exact ⟨rfl, hnonneg⟩
  refine ⟨fun u old' new' hu ↦ ?_, fun u new' current hu ↦ ?_, fun u fd hu ↦ ?_, fun fd i hi ↦ ?_,
    fun hnonneg ↦ ?_, h.files, h.stray⟩
  · exact h.exchanging u old' new' (call_go_idle (by simp) hu).2
  · -- no thread closes its descriptor while an error is stored
    obtain ⟨-, hcurrent, heq⟩ := h.closing u new' current (call_go_idle (by simp) hu).2
    omega
  · obtain ⟨hne, hu⟩ := (holds_go_idle _ t u fd).mp hu
    refine ⟨?_, (h.held u fd hu).2⟩
    rintro rfl
    exact h.ne_of_holds (hholds (Call.Holds.nonneg hu)) hu hne rfl
  · obtain ⟨hnonneg, file, hfile, hfd, hopen, howner⟩ := h.live fd i hi
    refine ⟨hnonneg, file, hfile, hfd, hopen, ?_⟩
    rcases howner with hstored | hheld
    · omega
    · by_cases hu : file.thread = t
      · left
        rw [hu] at hheld
        unfold Holds at hheld
        rw [hcall] at hheld
        exact hheld.1
      · exact .inr ((holds_go_idle _ t _ fd).mpr ⟨hu, hheld⟩)
  · obtain ⟨-, i, -, hi, -⟩ := h.held t new (hholds hnonneg)
    exact ⟨i, hi⟩

/-- A thread closes its descriptor. -/
theorem closed_kept (h : s.Kept) {new current : ℤ} (hcall : s.call t = .closing new current) :
    ((s.closeFile t new).go t .idle).Kept := by
  obtain ⟨hnew, hcurrent, hstored⟩ := h.closing t new current hcall
  have hholds : s.Holds t new := by
    unfold Holds
    rw [hcall]
    exact ⟨rfl, hnew⟩
  obtain ⟨hunstored, i, file, htable, hfile, hthread⟩ := h.held t new hholds
  obtain ⟨-, file', hfile', hfd, hopen, -⟩ := h.live new i htable
  obtain rfl : file' = file := Option.some.inj (hfile'.symm.trans hfile)
  have hclose : s.closeFile t new = { s with
      files := s.files.modify i fun file ↦ { file with closedBy := file.closedBy ++ [t] }
      table := Function.update s.table new none } := by
    unfold closeFile
    rw [htable]
  have htables {other : ℤ} (hne : other ≠ new) : (s.closeFile t new).table other = s.table other := by
    rw [hclose]
    exact Function.update_of_ne hne _ _
  have hgone : (s.closeFile t new).table new = none := by
    rw [hclose]
    exact Function.update_self _ _ _
  have hfiles {j : ℕ} (hne : j ≠ i) : (s.closeFile t new).files[j]? = s.files[j]? := by
    rw [hclose]
    exact List.getElem?_modify_ne _ _ hne.symm
  have hindex {other : ℤ} {j : ℕ} (hne : other ≠ new) (hj : s.table other = some j) : j ≠ i := by
    rintro rfl
    obtain ⟨-, file'', hfile'', hother, -⟩ := h.live other j hj
    obtain rfl := Option.some.inj (hfile''.symm.trans hfile)
    exact hne (hother.symm.trans hfd)
  have hvalue : (s.closeFile t new).fileOrError = s.fileOrError := by
    rw [hclose]
  have hcalls : (s.closeFile t new).call = s.call := by
    rw [hclose]
  have hholdsIff (u : T) (fd : ℤ) : ((s.closeFile t new).go t .idle).Holds u fd ↔
      u ≠ t ∧ s.Holds u fd := by
    rw [holds_go_idle]
    unfold Holds
    rw [hcalls]
  refine ⟨fun u old' new' hu ↦ ?_, fun u new' current' hu ↦ ?_, fun u fd hu ↦ ?_, fun fd j hj ↦ ?_,
    fun hnonneg ↦ ?_, fun j other hother ↦ ?_, ?_⟩
  · have hu := (call_go_idle (by simp) hu).2
    rw [hcalls] at hu
    exact h.exchanging u old' new' hu
  · have hu := (call_go_idle (by simp) hu).2
    rw [hcalls] at hu
    change 0 ≤ new' ∧ 0 ≤ current' ∧ current' = (s.closeFile t new).fileOrError
    rw [hvalue]
    exact h.closing u new' current' hu
  · obtain ⟨hne, hu⟩ := (hholdsIff u fd).mp hu
    obtain ⟨hdiffers, j, other, hj, hother, howner⟩ := h.held u fd hu
    have hnew' := h.ne_of_holds hholds hu hne
    refine ⟨?_, j, other, (htables hnew').trans hj, (hfiles (hindex hnew' hj)).trans hother, howner⟩
    change fd ≠ (s.closeFile t new).fileOrError
    rw [hvalue]
    exact hdiffers
  · have hne : fd ≠ new := by
      rintro rfl
      exact Option.some_ne_none _ (hj.symm.trans hgone)
    have hj' : s.table fd = some j := (htables hne).symm.trans hj
    obtain ⟨hge, other, hother, hname, hunclosed, howner⟩ := h.live fd j hj'
    refine ⟨hge, other, (hfiles (hindex hne hj')).trans hother, hname, hunclosed, ?_⟩
    rcases howner with heq | hheld
    · exact .inl (hvalue.trans heq)
    · refine .inr ((hholdsIff _ fd).mpr ⟨fun hu ↦ ?_, hheld⟩)
      rw [hu] at hheld
      exact hne (Call.Holds.unique hheld hholds)
  · change 0 ≤ (s.closeFile t new).fileOrError at hnonneg
    change ∃ j, (s.closeFile t new).table (s.closeFile t new).fileOrError = some j
    rw [hvalue] at hnonneg ⊢
    obtain ⟨j, hj⟩ := h.stored hnonneg
    exact ⟨j, (htables hunstored.symm).trans hj⟩
  · change (s.closeFile t new).files[j]? = some other at hother
    change _ ∨ _ ∧ (s.closeFile t new).table other.file = some j
    by_cases hji : j = i
    · left
      rw [hji, hclose, List.getElem?_modify_eq, hfile] at hother
      obtain rfl := Option.some.inj hother
      dsimp only
      rw [hopen, hthread, List.nil_append]
    · rw [hfiles hji] at hother
      rcases h.files j other hother with hclosed | ⟨hunclosed, hj⟩
      · exact .inl hclosed
      · refine .inr ⟨hunclosed, (htables fun heq ↦ hji ?_).trans hj⟩
        rw [heq, htable] at hj
        exact (Option.some.inj hj).symm
  · change (s.closeFile t new).strayCloses = 0
    rw [hclose]
    exact h.stray

/-- What a step can do: it goes on with what the thread holds, opens a file, stores a value in place of
an error, or closes a file. A returned descriptor is the stored one. -/
inductive Effect (s : Shared T) (t : T) : Shared T → Option ℤ → Prop
  | went {call : Call} {result : Option ℤ} (hholds : ∀ fd, call.Holds fd ↔ s.Holds t fd)
      (hexchanging : ∀ old new, call = .exchanging old new → old < 0)
      (hclosing : ∀ new current, call = .closing new current →
        0 ≤ new ∧ 0 ≤ current ∧ current = s.fileOrError)
      (hresult : ∀ value ∈ result, value = s.fileOrError) : Effect s t (s.go t call) result
  | opened {fd : ℤ} (hcall : s.call t = .opening) (hnonneg : 0 ≤ fd) (hfresh : s.table fd = none) :
      Effect s t ((s.addFile t fd).go t (.exchanging eagainError fd)) none
  | stored {old new : ℤ} (hcall : s.call t = .exchanging old new) (hvalue : s.fileOrError = old) :
      Effect s t ({ s with fileOrError := new }.go t .idle) (some new)
  | closed {new current : ℤ} (hcall : s.call t = .closing new current) :
      Effect s t ((s.closeFile t new).go t .idle) (some current)

/-- A value below zero is no descriptor. -/
theorem holds_negative {old new : ℤ} (hnew : new < 0) (fd : ℤ) : ¬(Call.exchanging old new).Holds fd := by
  rintro ⟨rfl, hnonneg⟩
  omega

theorem go_self (s : Shared T) (t : T) : s.go t (s.call t) = s := by
  unfold go
  rw [Function.update_eq_self]

theorem exchange_effect {old new : ℤ} (hcall : s.call t = .exchanging old new) :
    Effect s t (s.exchange t old new).1 (s.exchange t old new).2 := by
  have hsame (call : Call) (hcall' : ∀ fd, call.Holds fd ↔ new = fd ∧ 0 ≤ fd) (fd : ℤ) :
      call.Holds fd ↔ s.Holds t fd := by
    unfold Holds
    rw [hcall, hcall']
    rfl
  unfold exchange
  by_cases hvalue : s.fileOrError = old
  · rw [if_pos hvalue]
    exact .stored hcall hvalue
  · rw [if_neg hvalue]
    by_cases hprefer : 0 ≤ s.fileOrError ∨ new < 0
    · rw [if_pos hprefer]
      by_cases hnew : 0 ≤ new
      · rw [if_pos hnew]
        refine .went (hsame _ fun fd ↦ Iff.rfl) (fun _ _ heq ↦ by cases heq) (fun new' current heq ↦ ?_)
          fun value hmem ↦ by cases hmem
        cases heq
        exact ⟨hnew, by omega, rfl⟩
      · rw [if_neg hnew]
        refine .went (fun fd ↦ ?_) (fun _ _ heq ↦ by cases heq) (fun _ _ heq ↦ by cases heq)
          fun value hmem ↦ (Option.mem_some_iff.mp hmem).symm
        unfold Holds
        rw [hcall]
        exact iff_of_false id (holds_negative (by omega) fd)
    · rw [if_neg hprefer]
      refine .went (hsame _ fun fd ↦ Iff.rfl) (fun old' new' heq ↦ ?_) (fun _ _ heq ↦ by cases heq)
        fun value hmem ↦ by cases hmem
      cases heq
      omega

/-- Every step has one of the effects. -/
theorem step_effect (h : s.Kept) {action : Action} {result : Option ℤ}
    (hstep : s.step t action = some (s', result)) : Effect s t s' result := by
  cases action with
  | get =>
    obtain ⟨hcall, hs'⟩ := Option.ite_none_right_eq_some.1 hstep
    split_ifs at hs' with hvalue
    · cases hs'
      refine .went (fun fd ↦ ?_) (fun _ _ heq ↦ by cases heq) (fun _ _ heq ↦ by cases heq)
        fun value hmem ↦ by cases hmem
      unfold Holds
      rw [hcall]
      rfl
    · cases hs'
      have heffect := @Effect.went T _ s t (s.call t) (some s.fileOrError) (fun fd ↦ Iff.rfl)
        (fun old new heq ↦ h.exchanging t old new heq)
        (fun new current heq ↦ h.closing t new current heq)
        fun value hmem ↦ (Option.mem_some_iff.mp hmem).symm
      rw [go_self] at heffect
      exact heffect
  | update =>
    obtain ⟨hcall, hs'⟩ := Option.ite_none_right_eq_some.1 hstep
    cases hs'
    refine .went (fun fd ↦ ?_) (fun _ _ heq ↦ by cases heq) (fun _ _ heq ↦ by cases heq)
      fun value hmem ↦ by cases hmem
    unfold Holds
    rw [hcall]
    rfl
  | opened newFile =>
    obtain ⟨⟨hcall, hnonneg, hfresh⟩, hs'⟩ := Option.ite_none_right_eq_some.1 hstep
    cases hs'
    exact .opened hcall hnonneg hfresh
  | failed error =>
    obtain ⟨⟨hcall, herror⟩, hs'⟩ := Option.ite_none_right_eq_some.1 hstep
    cases hs'
    refine .went (fun fd ↦ ?_) (fun old new heq ↦ ?_) (fun _ _ heq ↦ by cases heq)
      fun value hmem ↦ by cases hmem
    · unfold Holds
      rw [hcall]
      exact iff_of_false (holds_negative herror fd) id
    · cases heq
      decide
  | exchange =>
    unfold step at hstep
    dsimp only at hstep
    split at hstep
    · rename_i old new hcall
      have heffect := exchange_effect hcall
      rw [Option.some.inj hstep] at heffect
      exact heffect
    · cases hstep
  | close =>
    unfold step at hstep
    dsimp only at hstep
    split at hstep
    · rename_i new current hcall
      cases hstep
      exact .closed hcall
    · cases hstep

theorem Effect.kept {result : Option ℤ} (heffect : Effect s t s' result) (h : s.Kept) : s'.Kept := by
  cases heffect with
  | went hholds hexchanging hclosing => exact h.go hholds hexchanging hclosing
  | opened hcall hnonneg hfresh => exact opened_kept h hcall hnonneg hfresh
  | stored hcall hvalue => exact stored_kept h hcall hvalue
  | closed hcall => exact closed_kept h hcall

omit [DecidableEq T] in
theorem closeFile_fileOrError (s : Shared T) (t : T) (fd : ℤ) :
    (s.closeFile t fd).fileOrError = s.fileOrError := by
  unfold closeFile
  split <;> rfl

/-- A stored descriptor is not replaced. -/
theorem Effect.fileOrError {result : Option ℤ} (heffect : Effect s t s' result) (h : s.Kept)
    (hstored : 0 ≤ s.fileOrError) : s'.fileOrError = s.fileOrError := by
  cases heffect with
  | went => rfl
  | opened => rfl
  | stored hcall hvalue =>
    have hnegative := h.exchanging t _ _ hcall
    omega
  | closed => exact closeFile_fileOrError s t _

/-- A call that returns a descriptor returns the stored one. -/
theorem Effect.result {value : ℤ} (heffect : Effect s t s' (some value)) (h : s.Kept) :
    s'.fileOrError = value := by
  cases heffect with
  | went _ _ _ hresult => exact (hresult value rfl).symm
  | stored => rfl
  | closed hcall => exact (closeFile_fileOrError s t _).trans (h.closing t _ _ hcall).2.2.symm

theorem Step.kept (hstep : s.Step s') (h : s.Kept) : s'.Kept := by
  obtain ⟨t, action, result, hstep⟩ := hstep
  exact (step_effect h hstep).kept h

theorem kept_of_run (hrun : Relation.ReflTransGen Step new s) : s.Kept := by
  induction hrun with
  | refl => exact new_kept
  | tail _ hstep ih => exact hstep.kept ih

theorem fileOrError_of_run (h : s.Kept) (hstored : 0 ≤ s.fileOrError)
    (hrun : Relation.ReflTransGen Step s s') :
    s'.Kept ∧ s'.fileOrError = s.fileOrError := by
  induction hrun with
  | refl => exact ⟨h, rfl⟩
  | tail _ hstep ih =>
    obtain ⟨hkept, hvalue⟩ := ih
    obtain ⟨t, action, result, hstep⟩ := hstep
    have heffect := step_effect hkept hstep
    exact ⟨heffect.kept hkept, (heffect.fileOrError hkept (by omega)).trans hvalue⟩

/-! ### A thread on its own -/

/-- How many steps a call has left at most while no other thread stores a value. -/
def Call.stepsLeft (fileOrError : ℤ) : Call → ℕ
  | .idle => 0
  | .opening => 4
  | .exchanging old _ => if fileOrError = old then 1 else 3
  | .closing _ _ => 1

def stepsLeft (s : Shared T) (t : T) : ℕ := Call.stepsLeft s.fileOrError (s.call t)

/-- The states after steps of a thread in its call. -/
inductive Alone (t : T) : ℕ → Shared T → Shared T → Prop
  | refl (s : Shared T) : Alone t 0 s s
  | step {n : ℕ} {s s' s'' : Shared T} {action : Action} {result : Option ℤ} (hcall : s.call t ≠ .idle)
      (hstep : s.step t action = some (s', result)) (hrest : Alone t n s' s'') : Alone t (n + 1) s s''

theorem stepsLeft_go (s : Shared T) (t : T) (call : Call) :
    (s.go t call).stepsLeft t = Call.stepsLeft s.fileOrError call := by
  unfold stepsLeft
  rw [go_call_self]
  rfl

/-- A second round of the loop succeeds. -/
theorem stepsLeft_exchange {old new : ℤ} (hcall : s.call t = .exchanging old new) :
    (s.exchange t old new).1.stepsLeft t < s.stepsLeft t := by
  have hleft : s.stepsLeft t = if s.fileOrError = old then 1 else 3 := by
    unfold stepsLeft
    rw [hcall]
    rfl
  rw [hleft]
  unfold exchange
  by_cases hvalue : s.fileOrError = old
  · rw [if_pos hvalue, if_pos hvalue, stepsLeft_go]
    exact Nat.zero_lt_one
  · rw [if_neg hvalue, if_neg hvalue]
    by_cases hprefer : 0 ≤ s.fileOrError ∨ new < 0
    · rw [if_pos hprefer]
      by_cases hnew : 0 ≤ new
      · rw [if_pos hnew, stepsLeft_go]
        exact Nat.lt_add_left 1 Nat.one_lt_two
      · rw [if_neg hnew, stepsLeft_go]
        exact Nat.zero_lt_succ 2
    · rw [if_neg hprefer, stepsLeft_go]
      change (if s.fileOrError = s.fileOrError then 1 else 3) < 3
      rw [if_pos rfl]
      decide

theorem stepsLeft_step {action : Action} {result : Option ℤ} (hcall : s.call t ≠ .idle)
    (hstep : s.step t action = some (s', result)) : s'.stepsLeft t < s.stepsLeft t := by
  have hopening (hopening : s.call t = .opening) (s' : Shared T) (old new : ℤ) :
      (s'.go t (.exchanging old new)).stepsLeft t < s.stepsLeft t := by
    have hleft : s.stepsLeft t = 4 := by
      unfold stepsLeft
      rw [hopening]
      rfl
    rw [hleft, stepsLeft_go]
    change (if s'.fileOrError = old then 1 else 3) < 4
    split_ifs <;> decide
  cases action with
  | get => exact absurd (Option.ite_none_right_eq_some.1 hstep).1 hcall
  | update => exact absurd (Option.ite_none_right_eq_some.1 hstep).1 hcall
  | opened newFile =>
    obtain ⟨⟨hat, -⟩, hs'⟩ := Option.ite_none_right_eq_some.1 hstep
    cases hs'
    exact hopening hat _ _ _
  | failed error =>
    obtain ⟨⟨hat, -⟩, hs'⟩ := Option.ite_none_right_eq_some.1 hstep
    cases hs'
    exact hopening hat _ _ _
  | exchange =>
    unfold step at hstep
    dsimp only at hstep
    split at hstep
    · rename_i old new hat
      have hless := stepsLeft_exchange hat
      rw [Option.some.inj hstep] at hless
      exact hless
    · cases hstep
  | close =>
    unfold step at hstep
    dsimp only at hstep
    split at hstep
    · rename_i new current hat
      cases hstep
      have hleft : s.stepsLeft t = 1 := by
        unfold stepsLeft
        rw [hat]
        rfl
      rw [hleft, stepsLeft_go]
      exact Nat.zero_lt_one
    · cases hstep

/-- A thread in a call can take a step. -/
theorem exists_step (hcall : s.call t ≠ .idle) : ∃ action s' result,
    s.step t action = some (s', result) := by
  cases hat : s.call t with
  | idle => exact absurd hat hcall
  | opening =>
    exact ⟨.failed (-1), _, _, if_pos ⟨hat, by decide⟩⟩
  | exchanging old new =>
    refine ⟨.exchange, (s.exchange t old new).1, (s.exchange t old new).2, ?_⟩
    unfold step
    dsimp only
    rw [hat]
  | closing new current =>
    refine ⟨.close, (s.closeFile t new).go t .idle, some current, ?_⟩
    unfold step
    dsimp only
    rw [hat]

theorem Alone.le {n : ℕ} (h : Alone t n s s') : n + s'.stepsLeft t ≤ s.stepsLeft t := by
  induction h with
  | refl s => omega
  | step hcall hstep _ ih =>
    have hless := stepsLeft_step hcall hstep
    omega

omit [DecidableEq T] in
theorem stepsLeft_le (s : Shared T) (t : T) : s.stepsLeft t ≤ 4 := by
  unfold stepsLeft Call.stepsLeft
  split
  · decide
  · decide
  · split_ifs <;> decide
  · decide

/-- A thread on its own returns from its call. -/
theorem Alone.exists_idle (s : Shared T) (t : T) : ∃ n s', Alone t n s s' ∧ s'.call t = .idle := by
  induction hleft : s.stepsLeft t using Nat.strong_induction_on generalizing s with
  | _ left ih =>
    by_cases hcall : s.call t = .idle
    · exact ⟨0, s, .refl s, hcall⟩
    · obtain ⟨action, s', result, hstep⟩ := exists_step hcall
      have hless := stepsLeft_step hcall hstep
      obtain ⟨n, s'', halone, hidle⟩ := ih (s'.stepsLeft t) (hleft ▸ hless) s' rfl
      exact ⟨n + 1, s'', .step hcall hstep halone, hidle⟩

/-! ### One descriptor survives -/

/-- What holds in a state of a run: a stored descriptor stays stored; a file that was opened is closed,
once and by the thread that opened it, or is the stored one or still in the hands of that thread; nothing
else is closed; of the files that no thread has in hand one is open at most; a thread on its own returns
from its call within four steps; and a descriptor that a call returns is the stored one. -/
structure Survives (s : Shared T) : Prop where
  stored : 0 ≤ s.fileOrError → ∀ s', Relation.ReflTransGen Step s s' →
    s'.fileOrError = s.fileOrError
  files : ∀ file ∈ s.files, file.closedBy = [file.thread] ∨
    file.closedBy = [] ∧ (s.fileOrError = file.file ∨ s.Holds file.thread file.file)
  stray : s.strayCloses = 0
  one : ∀ (i j : ℕ) (file other : OpenedFile T), s.files[i]? = some file → s.files[j]? = some other →
    file.closedBy = [] → other.closedBy = [] → ¬s.Holds file.thread file.file →
      ¬s.Holds other.thread other.file → i = j
  ends : ∀ t, (∀ n s', Alone t n s s' → n ≤ 4) ∧ ∃ n s', Alone t n s s' ∧ s'.call t = .idle
  returns : ∀ t action s' value, s.step t action = some (s', some value) → 0 ≤ value →
    s'.fileOrError = value

omit [DecidableEq T] in
/-- A file that is not closed is the stored one, or in the hands of its thread. -/
theorem Kept.unclosed (h : s.Kept) {i : ℕ} {file : OpenedFile T} (hfile : s.files[i]? = some file)
    (hopen : file.closedBy = []) :
    s.table file.file = some i ∧ (s.fileOrError = file.file ∨ s.Holds file.thread file.file) := by
  rcases h.files i file hfile with hclosed | ⟨-, htable⟩
  · rw [hopen] at hclosed
    cases hclosed
  · obtain ⟨-, other, hother, -, -, howner⟩ := h.live _ i htable
    obtain rfl := Option.some.inj (hother.symm.trans hfile)
    exact ⟨htable, howner⟩

theorem Kept.survives (h : s.Kept) : s.Survives where
  stored hstored _ hrun := (fileOrError_of_run h hstored hrun).2
  files file hmem := by
    obtain ⟨i, hfile⟩ := List.mem_iff_getElem?.mp hmem
    rcases h.files i file hfile with hclosed | ⟨hopen, -⟩
    · exact .inl hclosed
    · exact .inr ⟨hopen, (h.unclosed hfile hopen).2⟩
  stray := h.stray
  one i j file other hfile hother hopen hopen' hfree hfree' := by
    obtain ⟨htable, howner⟩ := h.unclosed hfile hopen
    obtain ⟨htable', howner'⟩ := h.unclosed hother hopen'
    have hstored := howner.resolve_right hfree
    have hstored' := howner'.resolve_right hfree'
    rw [← hstored] at htable
    rw [← hstored'] at htable'
    exact Option.some.inj (htable.symm.trans htable')
  ends t := by
    refine ⟨fun n s' halone ↦ ?_, Alone.exists_idle s t⟩
    have hle := halone.le
    have hfour := stepsLeft_le s t
    omega
  returns _ _ _ _ hstep _ := (step_effect h hstep).result h

/-- One descriptor survives every run. -/
theorem descriptor_survives (hrun : Relation.ReflTransGen Step new s) : s.Survives :=
  (kept_of_run hrun).survives

/-- Two threads open a file each: the second stores its descriptor, and the first closes its own and
returns the stored one. -/
theorem twoOpens_survives : ∃ s : Shared (Fin 2), Relation.ReflTransGen Step new s ∧
    s.fileOrError = 4 ∧ s.files = [⟨0, 3, [0]⟩, ⟨1, 4, []⟩] ∧ s.Survives := by
  have hrun : Relation.ReflTransGen Step new _ :=
    Relation.ReflTransGen.refl
      |>.tail ⟨(0 : Fin 2), .get, _, rfl⟩
      |>.tail ⟨1, .get, _, rfl⟩
      |>.tail ⟨0, .opened 3, _, rfl⟩
      |>.tail ⟨1, .opened 4, _, rfl⟩
      |>.tail ⟨1, .exchange, _, rfl⟩
      |>.tail ⟨0, .exchange, _, rfl⟩
      |>.tail ⟨0, .close, _, rfl⟩
  exact ⟨_, hrun, rfl, rfl, descriptor_survives hrun⟩

end Shared

end UserEventsDataFile

end Tracepoints
