import Mathlib.Data.Fintype.Basic
import Mathlib.Logic.Function.Basic
import Mathlib.Logic.Relation

/-!
# Registration of a tracepoint

The protocol of `TracepointState` (`tracepoint/src/native.rs`): `register_with_flags`, `unregister`,
`write` and `drop` as sequences of atomic steps on `write_index` and on the registration that the
kernel holds, taken by any number of threads in any order. The kernel does what it is asked, or
fails to register without effect.

`Owned` is the invariant: at most one thread is between the two swaps of a call, `write_index` is
busy exactly then, and otherwise it is the index of the registration. A `register` that panics
because the tracepoint is registered breaks it, since its swap is not taken back; `Regular` steps
are all others. `write` does not keep the registration alive between its load and `writev`, so that
the index it passes on is the kernel's in the runs of `Undisturbed` steps.
-/

set_option autoImplicit false
set_option relaxedAutoImplicit false

namespace Tracepoints

namespace TracepointState

/-! ### Steps -/

def unregisteredWriteIndex : UInt32 := 0xFFFFFFFF
def busyWriteIndex : UInt32 := 0xFFFFFFFE
def highestValidWriteIndex : UInt32 := 0xFFFFFFFD

/-- Where a thread is in a call. -/
inductive Call
  /-- Not in a call. -/
  | idle
  /-- In `register_with_flags`, before the `ioctl`. -/
  | registering
  /-- In `register_with_flags`, before the swap that stores the new index. -/
  | storing (newWriteIndex : UInt32)
  /-- In `unregister`, before the `ioctl`. -/
  | unregistering
  /-- In `unregister`, before the swap that marks the tracepoint as unregistered. -/
  | clearing
  /-- In `write`, before `writev`. -/
  | writing (writeIndex : UInt32)
  deriving DecidableEq, Repr

/-- Whether the tracepoint is shared, is being dropped, or is freed. -/
inductive Phase
  | shared
  | dropping
  | freed
  deriving DecidableEq, Repr

/-- The tracepoint, the index of the registration that the kernel holds, and the calls. -/
structure Shared (T : Type) where
  writeIndex : UInt32
  kernel : Option UInt32
  call : T → Call
  phase : Phase

/-- One atomic step of a thread. -/
inductive Action
  | register
  | registerIoctl (newWriteIndex : UInt32)
  | registerFailed
  | registerStore
  | unregister
  | unregisterIoctl
  | unregisterStore
  | write (enabled : Bool)
  | writev
  | drop
  deriving DecidableEq, Repr

variable {T : Type} [DecidableEq T]

/-- A new tracepoint. -/
def new : Shared T := ⟨unregisteredWriteIndex, none, fun _ ↦ .idle, .shared⟩

namespace Shared

/-- The thread goes on with a call. -/
def go (s : Shared T) (t : T) (call : Call) : Shared T :=
  { s with call := Function.update s.call t call }

/-- The thread returns from a call, and from the drop that made it. -/
def return_ (s : Shared T) (t : T) : Shared T :=
  { s.go t .idle with phase := if s.phase = .dropping then .freed else s.phase }

/-- The first swap of `unregister` and what follows from the index it finds. -/
def beginUnregister (s : Shared T) (t : T) : Shared T :=
  let s' := { s with writeIndex := busyWriteIndex }
  if s.writeIndex = busyWriteIndex then s'.return_ t
  else if s.writeIndex = unregisteredWriteIndex then s'.go t .clearing
  else s'.go t .unregistering

/-- A step of a thread, if it is at that step. A call can begin while the tracepoint is shared. -/
def step (s : Shared T) (t : T) : Action → Option (Shared T)
  | .register =>
    if s.call t = .idle ∧ s.phase = .shared then
      let s' := { s with writeIndex := busyWriteIndex }
      -- the assertion panics where the tracepoint was not unregistered
      some (if s.writeIndex = unregisteredWriteIndex then s'.go t .registering else s')
    else none
  | .registerIoctl newWriteIndex =>
    if s.call t = .registering ∧ newWriteIndex ≤ highestValidWriteIndex then
      some ({ s with kernel := some newWriteIndex }.go t (.storing newWriteIndex))
    else none
  | .registerFailed =>
    if s.call t = .registering then some (s.go t (.storing unregisteredWriteIndex)) else none
  | .registerStore =>
    match s.call t with
    | .storing newWriteIndex => some ({ s with writeIndex := newWriteIndex }.return_ t)
    | _ => none
  | .unregister =>
    if s.call t = .idle ∧ s.phase = .shared then some (s.beginUnregister t) else none
  | .unregisterIoctl =>
    if s.call t = .unregistering then some ({ s with kernel := none }.go t .clearing) else none
  | .unregisterStore =>
    if s.call t = .clearing then
      some ({ s with writeIndex := unregisteredWriteIndex }.return_ t)
    else none
  | .write enabled =>
    if s.call t = .idle ∧ s.phase = .shared then
      some (if enabled = false ∨ highestValidWriteIndex < s.writeIndex then s
        else s.go t (.writing s.writeIndex))
    else none
  | .writev =>
    match s.call t with
    | .writing _ => some (s.go t .idle)
    | _ => none
  | .drop =>
    if s.call t = .idle ∧ s.phase = .shared then
      some ({ s with phase := .dropping }.beginUnregister t)
    else none

/-- A step of the threads. A tracepoint is dropped only when no thread uses it. -/
def Step (s s' : Shared T) : Prop :=
  ∃ t action, s.step t action = some s' ∧ (action = .drop → ∀ u, s.call u = .idle)

/-- A step that does not register a registered tracepoint. -/
def Regular (s s' : Shared T) : Prop :=
  ∃ t action, s.step t action = some s' ∧ (action = .drop → ∀ u, s.call u = .idle) ∧
    (action = .register → highestValidWriteIndex < s.writeIndex)

/-- A regular step that does not take the registration away in the middle of a `write`. -/
def Undisturbed (s s' : Shared T) : Prop :=
  s.Regular s' ∧ (s.kernel ≠ none → s'.kernel = none → ∀ t index, s.call t ≠ .writing index)

end Shared

/-! ### The invariant -/

/-- What the kernel holds while a thread is between the two swaps of a call. -/
def Call.Holding (kernel : Option UInt32) : Call → Prop
  | registering => kernel = none
  | storing newWriteIndex =>
    newWriteIndex ≤ highestValidWriteIndex ∧ kernel = some newWriteIndex ∨
      newWriteIndex = unregisteredWriteIndex ∧ kernel = none
  | unregistering => True
  | clearing => kernel = none
  | _ => False

/-- A thread is not between the two swaps of a call. -/
def Call.Outside : Call → Prop
  | idle => True
  | writing _ => True
  | _ => False

namespace Shared

/-- No thread is between two swaps, and `write_index` tells what the kernel holds. -/
structure Free (s : Shared T) : Prop where
  outside : ∀ t, (s.call t).Outside
  index : s.writeIndex ≤ highestValidWriteIndex ∧ s.kernel = some s.writeIndex ∨
    s.writeIndex = unregisteredWriteIndex ∧ s.kernel = none

/-- One thread is between two swaps, and `write_index` is busy. -/
structure Held (s : Shared T) (t : T) : Prop where
  outside : ∀ u, u ≠ t → (s.call u).Outside
  busy : s.writeIndex = busyWriteIndex
  holding : (s.call t).Holding s.kernel

/-- The invariant of regular runs. -/
structure Owned (s : Shared T) : Prop where
  index : s.Free ∨ ∃ t, s.Held t
  dropping : s.phase = .dropping → ∀ t, s.call t = .idle ∨ s.call t = .unregistering ∨
    s.call t = .clearing
  freed : s.phase = .freed → s.kernel = none ∧ ∀ t, s.call t = .idle

/-- The invariant of undisturbed runs: a thread writes with the index of the registration. -/
def Writes (s : Shared T) : Prop := ∀ t index, s.call t = .writing index → s.kernel = some index

variable {s s' : Shared T} {t u : T}

@[simp] theorem go_call_self (s : Shared T) (t : T) (call : Call) : (s.go t call).call t = call :=
  Function.update_self _ _ _

theorem go_call_of_ne (s : Shared T) {t u : T} (call : Call) (h : u ≠ t) :
    (s.go t call).call u = s.call u :=
  Function.update_of_ne h _ _

@[simp] theorem return_call (s : Shared T) (t : T) : (s.return_ t).call = (s.go t .idle).call := rfl

@[simp] theorem go_writeIndex (s : Shared T) (t : T) (call : Call) :
    (s.go t call).writeIndex = s.writeIndex := rfl

@[simp] theorem go_kernel (s : Shared T) (t : T) (call : Call) :
    (s.go t call).kernel = s.kernel := rfl

@[simp] theorem go_phase (s : Shared T) (t : T) (call : Call) : (s.go t call).phase = s.phase := rfl

omit [DecidableEq T] in
theorem new_owned : (new : Shared T).Owned := by
  refine ⟨.inl ⟨fun _ ↦ trivial, .inr ⟨rfl, rfl⟩⟩, ?_, ?_⟩
  · intro h
    cases h
  · intro h
    cases h

/-- The threads other than the one that goes on are outside of their swaps where they were. -/
theorem outside_go {call : Call} (h : ∀ u, u ≠ t → (s.call u).Outside) :
    ∀ u, u ≠ t → ((s.go t call).call u).Outside := by
  intro u hu
  rw [go_call_of_ne s call hu]
  exact h u hu

/-- A thread that goes on outside of its swaps leaves all threads there. -/
theorem outside_go_self {call : Call} (hcall : call.Outside)
    (h : ∀ u, u ≠ t → (s.call u).Outside) (u : T) : ((s.go t call).call u).Outside := by
  by_cases hu : u = t
  · rw [hu, go_call_self]
    exact hcall
  · exact outside_go h u hu

omit [DecidableEq T] in
/-- A thread that is not outside of its swaps is the one that holds the tracepoint. -/
theorem Owned.held (h : s.Owned) (ht : ¬(s.call t).Outside) : s.Held t := by
  rcases h.index with hfree | ⟨u, hheld⟩
  · exact absurd (hfree.outside t) ht
  · by_cases htu : t = u
    · rw [htu]
      exact hheld
    · exact absurd (hheld.outside t htu) ht

omit [DecidableEq T] in
/-- Where `write_index` is not busy the tracepoint is free. -/
theorem Owned.free_of_ne_busy (h : s.Owned) (hindex : s.writeIndex ≠ busyWriteIndex) : s.Free := by
  rcases h.index with hfree | ⟨u, hheld⟩
  · exact hfree
  · exact absurd hheld.busy hindex

theorem Call.Holding.not_outside {kernel : Option UInt32} {call : Call}
    (h : call.Holding kernel) : ¬call.Outside := by
  intro hout
  cases call with
  | idle => exact h
  | writing index => exact h
  | registering => exact hout
  | storing index => exact hout
  | unregistering => exact hout
  | clearing => exact hout

omit [DecidableEq T] in
/-- Where no thread is between two swaps the tracepoint is free. -/
theorem Owned.free (h : s.Owned) (hquiet : ∀ t, (s.call t).Outside) : s.Free := by
  rcases h.index with hfree | ⟨u, hheld⟩
  · exact hfree
  · exact absurd (hquiet u) (Call.Holding.not_outside hheld.holding)

omit [DecidableEq T] in
/-- A free tracepoint is not busy. -/
theorem Free.ne_busy (h : s.Free) : s.writeIndex ≠ busyWriteIndex := by
  intro hbusy
  rcases h.index with ⟨hvalid, _⟩ | ⟨hunregistered, _⟩
  · rw [hbusy] at hvalid
    exact absurd hvalid (by decide)
  · rw [hbusy] at hunregistered
    exact absurd hunregistered (by decide)

omit [DecidableEq T] in
/-- The kernel holds no registration of a free tracepoint that is marked as unregistered. -/
theorem Free.kernel_none (h : s.Free) (hindex : s.writeIndex = unregisteredWriteIndex) :
    s.kernel = none := by
  rcases h.index with ⟨hvalid, _⟩ | ⟨_, hnone⟩
  · rw [hindex] at hvalid
    exact absurd hvalid (by decide)
  · exact hnone

omit [DecidableEq T] in
/-- While the tracepoint is shared the invariant is about its index only. -/
theorem owned_of_shared (hindex : s.Free ∨ ∃ t, s.Held t) (hphase : s.phase = .shared) :
    s.Owned := by
  refine ⟨hindex, ?_, ?_⟩
  · intro h
    rw [hphase] at h
    cases h
  · intro h
    rw [hphase] at h
    cases h

/-! ### Steps keep the invariant -/

theorem register_owned (h : s.Owned) (hregular : highestValidWriteIndex < s.writeIndex)
    (hstep : s.step t .register = some s') : s'.Owned := by
  obtain ⟨⟨_, hphase⟩, hs'⟩ := Option.ite_none_right_eq_some.1 hstep
  rw [← Option.some.inj hs']
  by_cases hindex : s.writeIndex = unregisteredWriteIndex
  · rw [if_pos hindex]
    have hfree := h.free_of_ne_busy (by rw [hindex]; decide)
    refine owned_of_shared (.inr ⟨t, outside_go fun u _ ↦ hfree.outside u, rfl, ?_⟩) hphase
    rw [go_call_self]
    exact hfree.kernel_none hindex
  · -- the panic leaves the tracepoint as it was, since it was busy
    rw [if_neg hindex]
    have hbusy : s.writeIndex = busyWriteIndex := by
      rw [unregisteredWriteIndex, ← UInt32.toNat_inj] at hindex
      rw [highestValidWriteIndex, UInt32.lt_iff_toNat_lt] at hregular
      rw [busyWriteIndex, ← UInt32.toNat_inj]
      have := s.writeIndex.toNat_lt
      simp only [UInt32.reduceToNat] at hindex hregular ⊢
      omega
    rw [← hbusy]
    exact h

omit [DecidableEq T] in
/-- Only `unregister` runs once the tracepoint is being dropped, and nothing once it is freed. -/
theorem Owned.shared (h : s.Owned) (hidle : s.call t ≠ .idle)
    (hunregister : s.call t ≠ .unregistering) (hclear : s.call t ≠ .clearing) :
    s.phase = .shared := by
  cases hphase : s.phase with
  | shared => rfl
  | dropping =>
    rcases h.dropping hphase t with ht | ht | ht
    · exact absurd ht hidle
    · exact absurd ht hunregister
    · exact absurd ht hclear
  | freed => exact absurd ((h.freed hphase).2 t) hidle

theorem return_phase_of_shared (hphase : s.phase = .shared) : (s.return_ t).phase = .shared := by
  unfold return_
  dsimp only
  rw [hphase]
  rfl

theorem registerIoctl_owned (h : s.Owned) {newWriteIndex : UInt32}
    (hstep : s.step t (.registerIoctl newWriteIndex) = some s') : s'.Owned := by
  obtain ⟨⟨hcall, hvalid⟩, hs'⟩ := Option.ite_none_right_eq_some.1 hstep
  rw [← Option.some.inj hs']
  have hheld : s.Held t := h.held (by rw [hcall]; exact id)
  have hphase : s.phase = .shared :=
    h.shared (by rw [hcall]; simp) (by rw [hcall]; simp) (by rw [hcall]; simp)
  refine owned_of_shared (.inr ⟨t, outside_go hheld.outside, hheld.busy, ?_⟩) hphase
  rw [go_call_self]
  exact .inl ⟨hvalid, rfl⟩

theorem registerFailed_owned (h : s.Owned) (hstep : s.step t .registerFailed = some s') :
    s'.Owned := by
  obtain ⟨hcall, hs'⟩ := Option.ite_none_right_eq_some.1 hstep
  rw [← Option.some.inj hs']
  have hheld : s.Held t := h.held (by rw [hcall]; exact id)
  have hphase : s.phase = .shared :=
    h.shared (by rw [hcall]; simp) (by rw [hcall]; simp) (by rw [hcall]; simp)
  have hnone := hheld.holding
  rw [hcall] at hnone
  refine owned_of_shared (.inr ⟨t, outside_go hheld.outside, hheld.busy, ?_⟩) hphase
  rw [go_call_self]
  exact .inr ⟨rfl, hnone⟩

theorem registerStore_owned (h : s.Owned) (hstep : s.step t .registerStore = some s') :
    s'.Owned := by
  unfold step at hstep
  dsimp only at hstep
  split at hstep
  · rename_i newWriteIndex hcall
    rw [← Option.some.inj hstep]
    have hheld : s.Held t := h.held (by rw [hcall]; exact id)
    have hphase : s.phase = .shared :=
      h.shared (by rw [hcall]; simp) (by rw [hcall]; simp) (by rw [hcall]; simp)
    have hstored := hheld.holding
    rw [hcall] at hstored
    exact owned_of_shared (.inl ⟨outside_go_self trivial hheld.outside, hstored⟩)
      (return_phase_of_shared hphase)
  · cases hstep

/-- The first swap of `unregister` takes a free tracepoint, and leaves a busy one. -/
theorem beginUnregister_index (h : s.Owned) (hidle : s.call t = .idle) :
    (s.beginUnregister t).Free ∨ ∃ u, (s.beginUnregister t).Held u := by
  unfold beginUnregister
  dsimp only
  by_cases hbusy : s.writeIndex = busyWriteIndex
  · rw [if_pos hbusy]
    rcases h.index with hfree | ⟨u, hheld⟩
    · exact absurd hbusy hfree.ne_busy
    · have hut : u ≠ t := by
        rintro rfl
        have hholding := hheld.holding
        rw [hidle] at hholding
        exact hholding
      refine .inr ⟨u, fun v hv ↦ ?_, rfl, ?_⟩
      · by_cases hvt : v = t
        · rw [return_call, hvt, go_call_self]
          trivial
        · rw [return_call, go_call_of_ne _ _ hvt]
          exact hheld.outside v hv
      · rw [return_call, go_call_of_ne _ _ hut]
        exact hheld.holding
  · rw [if_neg hbusy]
    have hfree := h.free_of_ne_busy hbusy
    by_cases hindex : s.writeIndex = unregisteredWriteIndex
    · rw [if_pos hindex]
      refine .inr ⟨t, outside_go fun u _ ↦ hfree.outside u, rfl, ?_⟩
      rw [go_call_self]
      exact hfree.kernel_none hindex
    · rw [if_neg hindex]
      refine .inr ⟨t, outside_go fun u _ ↦ hfree.outside u, rfl, ?_⟩
      rw [go_call_self]
      trivial

theorem unregister_owned (h : s.Owned) (hstep : s.step t .unregister = some s') : s'.Owned := by
  obtain ⟨⟨hidle, hphase⟩, hs'⟩ := Option.ite_none_right_eq_some.1 hstep
  rw [← Option.some.inj hs']
  refine owned_of_shared (beginUnregister_index h hidle) ?_
  unfold beginUnregister
  dsimp only
  split_ifs
  · exact return_phase_of_shared hphase
  · exact hphase
  · exact hphase

theorem unregisterIoctl_owned (h : s.Owned) (hstep : s.step t .unregisterIoctl = some s') :
    s'.Owned := by
  obtain ⟨hcall, hs'⟩ := Option.ite_none_right_eq_some.1 hstep
  rw [← Option.some.inj hs']
  have hheld : s.Held t := h.held (by rw [hcall]; exact id)
  refine ⟨.inr ⟨t, outside_go hheld.outside, hheld.busy, ?_⟩, ?_, ?_⟩
  · rw [go_call_self]
    rfl
  · intro hphase u
    by_cases hu : u = t
    · rw [hu, go_call_self]
      exact .inr (.inr rfl)
    · rw [go_call_of_ne _ _ hu]
      exact h.dropping hphase u
  · intro hphase
    have hidle := (h.freed hphase).2 t
    rw [hcall] at hidle
    cases hidle

theorem unregisterStore_owned (h : s.Owned) (hstep : s.step t .unregisterStore = some s') :
    s'.Owned := by
  obtain ⟨hcall, hs'⟩ := Option.ite_none_right_eq_some.1 hstep
  rw [← Option.some.inj hs']
  have hheld : s.Held t := h.held (by rw [hcall]; exact id)
  have hnone := hheld.holding
  rw [hcall] at hnone
  refine ⟨.inl ⟨outside_go_self trivial hheld.outside, .inr ⟨rfl, hnone⟩⟩, ?_, ?_⟩
  · intro hphase
    unfold return_ at hphase
    dsimp only at hphase
    split_ifs at hphase with hdropping
    exact absurd hphase hdropping
  · intro hphase
    refine ⟨hnone, fun u ↦ ?_⟩
    by_cases hu : u = t
    · rw [hu, return_call, go_call_self]
    · rw [return_call, go_call_of_ne _ _ hu]
      cases hold : s.phase with
      | shared =>
        unfold return_ at hphase
        dsimp only at hphase
        rw [hold] at hphase
        cases hphase
      | dropping =>
        -- the other threads are outside of their swaps, so that only `idle` is left
        have hout := hheld.outside u hu
        rcases h.dropping hold u with hidle | hun | hclear
        · exact hidle
        · rw [hun] at hout
          exact absurd hout id
        · rw [hclear] at hout
          exact absurd hout id
      | freed => exact (h.freed hold).2 u

omit [DecidableEq T] in
/-- A valid `write_index` is the index that the kernel holds. -/
theorem Owned.kernel_of_valid (h : s.Owned) (hvalid : s.writeIndex ≤ highestValidWriteIndex) :
    s.Free ∧ s.kernel = some s.writeIndex := by
  have hfree : s.Free := by
    apply h.free_of_ne_busy
    intro hbusy
    rw [hbusy] at hvalid
    exact absurd hvalid (by decide)
  refine ⟨hfree, ?_⟩
  rcases hfree.index with ⟨_, hkernel⟩ | ⟨hunregistered, _⟩
  · exact hkernel
  · rw [hunregistered] at hvalid
    exact absurd hvalid (by decide)

theorem write_owned (h : s.Owned) {enabled : Bool} (hstep : s.step t (.write enabled) = some s') :
    s'.Owned := by
  obtain ⟨⟨_, hphase⟩, hs'⟩ := Option.ite_none_right_eq_some.1 hstep
  rw [← Option.some.inj hs']
  by_cases hclosed : enabled = false ∨ highestValidWriteIndex < s.writeIndex
  · rw [if_pos hclosed]
    exact h
  · rw [if_neg hclosed]
    have hvalid := UInt32.not_lt.1 fun hlt ↦ hclosed (.inr hlt)
    have hfree := (h.kernel_of_valid hvalid).1
    refine owned_of_shared (.inl ⟨?_, hfree.index⟩) hphase
    exact outside_go_self trivial fun u _ ↦ hfree.outside u

theorem writev_owned (h : s.Owned) (hstep : s.step t .writev = some s') : s'.Owned := by
  unfold step at hstep
  dsimp only at hstep
  split at hstep
  · rename_i index hcall
    rw [← Option.some.inj hstep]
    have hphase : s.phase = .shared :=
      h.shared (by rw [hcall]; simp) (by rw [hcall]; simp) (by rw [hcall]; simp)
    refine owned_of_shared ?_ hphase
    rcases h.index with hfree | ⟨u, hheld⟩
    · exact .inl ⟨outside_go_self trivial fun u _ ↦ hfree.outside u, hfree.index⟩
    · have hut : u ≠ t := by
        rintro rfl
        have hholding := hheld.holding
        rw [hcall] at hholding
        exact hholding
      refine .inr ⟨u, fun v hv ↦ ?_, hheld.busy, ?_⟩
      · by_cases hvt : v = t
        · rw [hvt, go_call_self]
          trivial
        · rw [go_call_of_ne _ _ hvt]
          exact hheld.outside v hv
      · rw [go_call_of_ne _ _ hut]
        exact hheld.holding
  · cases hstep

theorem drop_owned (h : s.Owned) (hidle : ∀ u, s.call u = .idle)
    (hstep : s.step t .drop = some s') : s'.Owned := by
  obtain ⟨⟨_, hphase⟩, hs'⟩ := Option.ite_none_right_eq_some.1 hstep
  rw [← Option.some.inj hs']
  have hfree : s.Free := h.free fun u ↦ by rw [hidle u]; trivial
  unfold beginUnregister
  dsimp only
  rw [if_neg hfree.ne_busy]
  have hothers (call : Call) : ∀ u, u ≠ t →
      (go ⟨busyWriteIndex, s.kernel, s.call, .dropping⟩ t call).call u = .idle := by
    intro u hu
    rw [go_call_of_ne _ _ hu]
    exact hidle u
  by_cases hindex : s.writeIndex = unregisteredWriteIndex
  · rw [if_pos hindex]
    refine ⟨.inr ⟨t, outside_go fun u _ ↦ hfree.outside u, rfl, ?_⟩, fun _ u ↦ ?_, fun hfreed ↦ ?_⟩
    · rw [go_call_self]
      exact hfree.kernel_none hindex
    · by_cases hu : u = t
      · rw [hu, go_call_self]
        exact .inr (.inr rfl)
      · exact .inl (hothers _ u hu)
    · cases hfreed
  · rw [if_neg hindex]
    refine ⟨.inr ⟨t, outside_go fun u _ ↦ hfree.outside u, rfl, ?_⟩, fun _ u ↦ ?_, fun hfreed ↦ ?_⟩
    · rw [go_call_self]
      trivial
    · by_cases hu : u = t
      · rw [hu, go_call_self]
        exact .inr (.inl rfl)
      · exact .inl (hothers _ u hu)
    · cases hfreed

/-- A regular step keeps the invariant. -/
theorem Regular.owned (hstep : s.Regular s') (h : s.Owned) : s'.Owned := by
  obtain ⟨t, action, hstep, hdrop, hregister⟩ := hstep
  cases action with
  | register => exact register_owned h (hregister rfl) hstep
  | registerIoctl newWriteIndex => exact registerIoctl_owned h hstep
  | registerFailed => exact registerFailed_owned h hstep
  | registerStore => exact registerStore_owned h hstep
  | unregister => exact unregister_owned h hstep
  | unregisterIoctl => exact unregisterIoctl_owned h hstep
  | unregisterStore => exact unregisterStore_owned h hstep
  | write enabled => exact write_owned h hstep
  | writev => exact writev_owned h hstep
  | drop => exact drop_owned h (hdrop rfl) hstep

/-- A regular run keeps the invariant. -/
theorem owned_of_run (hrun : Relation.ReflTransGen Regular new s) : s.Owned := by
  induction hrun with
  | refl => exact new_owned
  | tail _ hstep ih => exact hstep.owned ih

/-! ### The index of a write -/

/-- A thread goes on with a call other than `write`, so that all writes are as they were. -/
theorem writing_of_go {call : Call} {index : UInt32} (hcall : ∀ index, call ≠ .writing index)
    (h : (s.go t call).call u = .writing index) : s.call u = .writing index := by
  by_cases hu : u = t
  · rw [hu, go_call_self] at h
    exact absurd h (hcall index)
  · rw [go_call_of_ne _ _ hu] at h
    exact h

theorem writing_of_beginUnregister {index : UInt32}
    (h : (s.beginUnregister t).call u = .writing index) : s.call u = .writing index := by
  unfold beginUnregister at h
  dsimp only at h
  split_ifs at h
  · rw [return_call] at h
    exact writing_of_go (by simp) h
  · exact writing_of_go (by simp) h
  · exact writing_of_go (by simp) h

/-- A thread that is about to write was so before, or has loaded a valid index in this step. -/
theorem step_writing {action : Action} {index : UInt32} (hstep : s.step t action = some s')
    (hwriting : s'.call u = .writing index) :
    s.call u = .writing index ∨
      s.writeIndex = index ∧ s.writeIndex ≤ highestValidWriteIndex ∧ s'.kernel = s.kernel := by
  cases action with
  | register =>
    obtain ⟨_, hs'⟩ := Option.ite_none_right_eq_some.1 hstep
    rw [← Option.some.inj hs'] at hwriting
    split_ifs at hwriting
    · exact .inl (writing_of_go (by simp) hwriting)
    · exact .inl hwriting
  | registerIoctl newWriteIndex =>
    obtain ⟨_, hs'⟩ := Option.ite_none_right_eq_some.1 hstep
    rw [← Option.some.inj hs'] at hwriting
    exact .inl (writing_of_go (by simp) hwriting)
  | registerFailed =>
    obtain ⟨_, hs'⟩ := Option.ite_none_right_eq_some.1 hstep
    rw [← Option.some.inj hs'] at hwriting
    exact .inl (writing_of_go (by simp) hwriting)
  | registerStore =>
    unfold step at hstep
    dsimp only at hstep
    split at hstep
    · rw [← Option.some.inj hstep, return_call] at hwriting
      exact .inl (writing_of_go (by simp) hwriting)
    · cases hstep
  | unregister =>
    obtain ⟨_, hs'⟩ := Option.ite_none_right_eq_some.1 hstep
    rw [← Option.some.inj hs'] at hwriting
    exact .inl (writing_of_beginUnregister hwriting)
  | unregisterIoctl =>
    obtain ⟨_, hs'⟩ := Option.ite_none_right_eq_some.1 hstep
    rw [← Option.some.inj hs'] at hwriting
    exact .inl (writing_of_go (by simp) hwriting)
  | unregisterStore =>
    obtain ⟨_, hs'⟩ := Option.ite_none_right_eq_some.1 hstep
    rw [← Option.some.inj hs', return_call] at hwriting
    exact .inl (writing_of_go (by simp) hwriting)
  | write enabled =>
    obtain ⟨_, hs'⟩ := Option.ite_none_right_eq_some.1 hstep
    rw [← Option.some.inj hs'] at hwriting ⊢
    split_ifs at hwriting ⊢ with hclosed
    · exact .inl hwriting
    · by_cases hu : u = t
      · rw [hu, go_call_self] at hwriting
        have hvalid := UInt32.not_lt.1 fun hlt ↦ hclosed (.inr hlt)
        exact .inr ⟨Call.writing.inj hwriting, hvalid, rfl⟩
      · rw [go_call_of_ne _ _ hu] at hwriting
        exact .inl hwriting
  | writev =>
    unfold step at hstep
    dsimp only at hstep
    split at hstep
    · rw [← Option.some.inj hstep] at hwriting
      exact .inl (writing_of_go (by simp) hwriting)
    · cases hstep
  | drop =>
    obtain ⟨_, hs'⟩ := Option.ite_none_right_eq_some.1 hstep
    rw [← Option.some.inj hs'] at hwriting
    have hbefore := writing_of_beginUnregister hwriting
    exact .inl hbefore

theorem beginUnregister_kernel (s : Shared T) (t : T) :
    (s.beginUnregister t).kernel = s.kernel := by
  unfold beginUnregister
  dsimp only
  split_ifs
  · rfl
  · rfl
  · rfl

/-- The registration changes in the `ioctl` of a `register` call, or is taken away. -/
theorem step_kernel {action : Action} (hstep : s.step t action = some s') :
    s'.kernel = s.kernel ∨ s.call t = .registering ∨ s'.kernel = none := by
  cases action with
  | register =>
    obtain ⟨_, hs'⟩ := Option.ite_none_right_eq_some.1 hstep
    rw [← Option.some.inj hs']
    split_ifs
    · exact .inl rfl
    · exact .inl rfl
  | registerIoctl newWriteIndex =>
    obtain ⟨⟨hcall, _⟩, _⟩ := Option.ite_none_right_eq_some.1 hstep
    exact .inr (.inl hcall)
  | registerFailed =>
    obtain ⟨hcall, _⟩ := Option.ite_none_right_eq_some.1 hstep
    exact .inr (.inl hcall)
  | registerStore =>
    unfold step at hstep
    dsimp only at hstep
    split at hstep
    · rw [← Option.some.inj hstep]
      exact .inl rfl
    · cases hstep
  | unregister =>
    obtain ⟨_, hs'⟩ := Option.ite_none_right_eq_some.1 hstep
    rw [← Option.some.inj hs']
    exact .inl (beginUnregister_kernel s t)
  | unregisterIoctl =>
    obtain ⟨_, hs'⟩ := Option.ite_none_right_eq_some.1 hstep
    rw [← Option.some.inj hs']
    exact .inr (.inr rfl)
  | unregisterStore =>
    obtain ⟨_, hs'⟩ := Option.ite_none_right_eq_some.1 hstep
    rw [← Option.some.inj hs']
    exact .inl rfl
  | write enabled =>
    obtain ⟨_, hs'⟩ := Option.ite_none_right_eq_some.1 hstep
    rw [← Option.some.inj hs']
    split_ifs
    · exact .inl rfl
    · exact .inl rfl
  | writev =>
    unfold step at hstep
    dsimp only at hstep
    split at hstep
    · rw [← Option.some.inj hstep]
      exact .inl rfl
    · cases hstep
  | drop =>
    obtain ⟨_, hs'⟩ := Option.ite_none_right_eq_some.1 hstep
    rw [← Option.some.inj hs']
    exact .inl (beginUnregister_kernel _ t)

/-- An undisturbed step keeps the indexes of the writes. -/
theorem Undisturbed.writes (hstep : s.Undisturbed s') (h : s.Owned) (hwrites : s.Writes) :
    s'.Writes := by
  obtain ⟨⟨t, action, hstep, _, _⟩, hundisturbed⟩ := hstep
  intro u index hwriting
  rcases step_writing hstep hwriting with hbefore | ⟨hindex, hvalid, hkernel⟩
  · have hsome := hwrites u index hbefore
    rcases step_kernel hstep with hkernel | hcall | hnone
    · rw [hkernel]
      exact hsome
    · -- the kernel holds nothing while a thread registers the tracepoint
      have hholding := (h.held (t := t) (by rw [hcall]; exact id)).holding
      rw [hcall] at hholding
      rw [hholding] at hsome
      cases hsome
    · exact absurd hbefore (hundisturbed (by simp [hsome]) hnone u index)
  · rw [hkernel, ← hindex]
    exact (h.kernel_of_valid hvalid).2

theorem writes_of_run (hrun : Relation.ReflTransGen Undisturbed new s) : s.Owned ∧ s.Writes := by
  induction hrun with
  | refl =>
    refine ⟨new_owned, ?_⟩
    intro t index h
    cases h
  | tail _ hstep ih => exact ⟨hstep.1.owned ih.1, hstep.writes ih.1 ih.2⟩

/-! ### Registration is not lost -/

/-- What holds in a state of a run: without a call in progress `write_index` is the kernel's index
or marks the tracepoint as unregistered, so that `unregister` goes on to its `ioctl`; behind the
`ioctl`, and before the memory is freed, the kernel holds nothing; and a `write` loads the index that
the kernel holds. -/
structure Kept (s : Shared T) : Prop where
  index : (∀ t, s.call t = .idle) →
    s.writeIndex ≤ highestValidWriteIndex ∧ s.kernel = some s.writeIndex ∨
      s.writeIndex = unregisteredWriteIndex ∧ s.kernel = none
  unregister : (∀ t, s.call t = .idle) → s.kernel ≠ none →
    ∀ t s', s.step t .unregister = some s' ∨ s.step t .drop = some s' →
      s'.call t = .unregistering
  cleared : ∀ t, s.call t = .clearing → s.kernel = none
  freed : s.phase = .freed → s.kernel = none
  load : s.writeIndex ≤ highestValidWriteIndex → s.kernel = some s.writeIndex

theorem beginUnregister_of_valid (hvalid : s.writeIndex ≤ highestValidWriteIndex) :
    (s.beginUnregister t).call t = .unregistering := by
  unfold beginUnregister
  dsimp only
  rw [if_neg, if_neg, go_call_self]
  · intro hindex
    rw [hindex] at hvalid
    exact absurd hvalid (by decide)
  · intro hindex
    rw [hindex] at hvalid
    exact absurd hvalid (by decide)

theorem Owned.kept (h : s.Owned) : s.Kept := by
  have hindex (hidle : ∀ t, s.call t = .idle) : s.writeIndex ≤ highestValidWriteIndex ∧
      s.kernel = some s.writeIndex ∨ s.writeIndex = unregisteredWriteIndex ∧ s.kernel = none :=
    (h.free fun t ↦ by rw [hidle t]; trivial).index
  refine ⟨hindex, ?_, ?_, fun hphase ↦ (h.freed hphase).1, fun hvalid ↦ (h.kernel_of_valid hvalid).2⟩
  · intro hidle hkernel t s' hstep
    rcases hindex hidle with ⟨hvalid, _⟩ | ⟨_, hnone⟩
    · rcases hstep with hstep | hstep
      · obtain ⟨_, hs'⟩ := Option.ite_none_right_eq_some.1 hstep
        rw [← Option.some.inj hs']
        exact beginUnregister_of_valid hvalid
      · obtain ⟨_, hs'⟩ := Option.ite_none_right_eq_some.1 hstep
        rw [← Option.some.inj hs']
        exact beginUnregister_of_valid hvalid
    · exact absurd hnone hkernel
  · intro t hcall
    have hholding := (h.held (t := t) (by rw [hcall]; exact id)).holding
    rw [hcall] at hholding
    exact hholding

/-- Registration is not lost in a regular run, and in an undisturbed run a `write` passes on an index
that the kernel holds. -/
theorem registration_kept (s : Shared T) :
    (Relation.ReflTransGen Regular new s → s.Kept) ∧
      (Relation.ReflTransGen Undisturbed new s → s.Kept ∧ s.Writes) := by
  constructor
  · intro hrun
    exact (owned_of_run hrun).kept
  · intro hrun
    exact ⟨(writes_of_run hrun).1.kept, (writes_of_run hrun).2⟩

/-- Two threads: the first registers the tracepoint, and the second is about to write. -/
theorem sampleRun_kept : ∃ s : Shared (Fin 2), Relation.ReflTransGen Undisturbed new s ∧
    s.kernel = some 7 ∧ s.call 1 = .writing 7 ∧ s.Kept ∧ s.Writes := by
  have hrun : Relation.ReflTransGen Undisturbed new _ :=
    Relation.ReflTransGen.refl
      |>.tail ⟨⟨(0 : Fin 2), .register, rfl, by simp, fun _ ↦ by decide⟩, fun h ↦ absurd rfl h⟩
      |>.tail ⟨⟨0, .registerIoctl 7, rfl, by simp, by simp⟩, fun h ↦ absurd rfl h⟩
      |>.tail ⟨⟨0, .registerStore, rfl, by simp, by simp⟩, fun _ h ↦ by cases h⟩
      |>.tail ⟨⟨1, .write true, rfl, by simp, by simp⟩, fun _ h ↦ by cases h⟩
  exact ⟨_, hrun, rfl, rfl, (registration_kept _).2 hrun⟩

/-- A thread that registers a registered tracepoint panics and leaves it busy: no call is in
progress, the kernel holds a registration, and the drop frees the memory without removing it. -/
theorem register_active_lost : ∃ s s' : Shared (Fin 1), Relation.ReflTransGen Step new s ∧
    (∀ t, s.call t = .idle) ∧ s.kernel = some 7 ∧ s.writeIndex = busyWriteIndex ∧
      s.Step s' ∧ s'.phase = .freed ∧ s'.kernel = some 7 := by
  have hrun : Relation.ReflTransGen Step new _ :=
    Relation.ReflTransGen.refl
      |>.tail ⟨(0 : Fin 1), .register, rfl, by simp⟩
      |>.tail ⟨0, .registerIoctl 7, rfl, by simp⟩
      |>.tail ⟨0, .registerStore, rfl, by simp⟩
      |>.tail ⟨0, .register, rfl, by simp⟩
  exact ⟨_, _, hrun, by decide, rfl, rfl, ⟨0, .drop, rfl, fun _ ↦ by decide⟩, rfl, rfl⟩

end Shared

end TracepointState

end Tracepoints
