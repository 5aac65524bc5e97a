import Mathlib.Data.List.Basic
import Tracepoints.Lib.ByteOrder

/-!
# Executions that may fault

Code whose indexing, subtractions and assertions are checked at run time is modelled in
`Exec`: a computation returns a value or ends in a `Fault`. `Build` is the compile-time
configuration such code sees. The checked primitives (`sub`, `subUsize`, `byteAt`, `slice`,
`readUInt`, `addU8`, `subU8`, `debugAssert`) come each with the equation for the case in which no fault
occurs.

`Exec.Returns x post` says that `x` returns a value satisfying `post`, so in particular that it
does not fault; `Exec.ReturnsUnless allowed x post` allows `x` some faults. Their rules (`Returns.ok`,
`Returns.bind`, `Returns.mono`, `Returns.ite`, and those of `ReturnsUnless`) follow the program
text. `Exec.Ends` says only that `x` does not run forever. `Exec.Related` compares two runs of the
same program text.
-/

set_option autoImplicit false
set_option relaxedAutoImplicit false

namespace Tracepoints

/-- What is said of all members of a list is decided by a run over the list, also where all values of the
type could be tried. -/
instance (priority := high) decidableForallMem {α : Type} (list : List α) (p : α → Prop)
    [DecidablePred p] : Decidable (∀ a ∈ list, p a) :=
  List.decidableBAll p list

instance (priority := high) decidableForallMemOption {α : Type} (option : Option α) (p : α → Prop)
    [DecidablePred p] : Decidable (∀ a ∈ option, p a) :=
  Option.decidableForallMem option

/-- The ways an execution stops without a result. `unfinished` is a loop that did not end within
the number of iterations the model allows it. -/
inductive Fault
  | indexOutOfRange
  | underflow
  | overflow
  | assertion
  | unfinished
  deriving DecidableEq, Repr

/-- A computation that returns a value or faults. -/
abbrev Exec (α : Type) := Except Fault α

/-- The compile-time configuration: whether assertions and overflow checks are compiled in, the
byte order of the target and whether its pointers have 64 bits. -/
structure Build where
  debugAssertions : Bool
  targetEndian : ByteOrder
  pointer64 : Bool
  deriving DecidableEq, Repr

namespace Exec

/-- A checked subtraction of unsigned integers. -/
def sub (left right : ℕ) : Exec ℕ :=
  if right ≤ left then .ok (left - right) else .error .underflow

/-- Subtraction of `usize` integers: an underflow faults where the build checks for it and wraps
elsewhere. -/
def subUsize (build : Build) (left right : ℕ) : Exec ℕ :=
  if right ≤ left then .ok (left - right)
  else if build.debugAssertions then .error .underflow
  else .ok (left + 2 ^ (if build.pointer64 then 64 else 32) - right)

/-- The byte at an index, checked. -/
def byteAt (data : List UInt8) (index : ℕ) : Exec UInt8 :=
  match data[index]? with
  | some byte => .ok byte
  | none => .error .indexOutOfRange

/-- The bytes from `start` up to and excluding `stop`, checked. -/
def slice (data : List UInt8) (start stop : ℕ) : Exec (List UInt8) :=
  if start ≤ stop ∧ stop ≤ data.length then .ok ((data.drop start).take (stop - start))
  else .error .indexOutOfRange

/-- The unsigned integer of `width` bytes at an index, checked. -/
def readUInt (order : ByteOrder) (width : ℕ) (data : List UInt8) (index : ℕ) : Exec ℕ :=
  if index + width ≤ data.length then .ok (order.ofBytes ((data.drop index).take width))
  else .error .indexOutOfRange

/-- An assertion, checked only where the build has assertions. -/
def debugAssert (build : Build) (condition : Prop) [Decidable condition] : Exec Unit :=
  if build.debugAssertions = true ∧ ¬condition then .error .assertion else .ok ()

/-- Addition of bytes: an overflow faults where the build checks for it and wraps elsewhere. -/
def addU8 (build : Build) (left right : ℕ) : Exec ℕ :=
  if left + right < 256 then .ok (left + right)
  else if build.debugAssertions then .error .overflow
  else .ok ((left + right) % 256)

/-- Subtraction of bytes: an underflow faults where the build checks for it and wraps
elsewhere. -/
def subU8 (build : Build) (left right : ℕ) : Exec ℕ :=
  if right ≤ left then .ok (left - right)
  else if build.debugAssertions then .error .underflow
  else .ok (left + 256 - right)

@[simp] theorem ok_bind {α β : Type} (value : α) (next : α → Exec β) :
    ((Except.ok value : Exec α) >>= next) = next value := rfl

@[simp] theorem error_bind {α β : Type} (fault : Fault) (next : α → Exec β) :
    ((Except.error fault : Exec α) >>= next) = Except.error fault := rfl

@[simp] theorem pure_eq_ok {α : Type} (value : α) : (pure value : Exec α) = Except.ok value := rfl

/-- A sequence of two computations returns a value exactly when the first returns a value on
which the second does. -/
theorem bind_eq_ok {α β : Type} {first : Exec α} {next : α → Exec β} {result : β} :
    first >>= next = .ok result ↔ ∃ value, first = .ok value ∧ next value = .ok result := by
  cases first with
  | error fault => simp
  | ok value => simp

theorem sub_of_le {left right : ℕ} (h : right ≤ left) : sub left right = .ok (left - right) :=
  if_pos h

theorem subUsize_of_le {build : Build} {left right : ℕ} (h : right ≤ left) :
    subUsize build left right = .ok (left - right) :=
  if_pos h

theorem byteAt_of_lt {data : List UInt8} {index : ℕ} (h : index < data.length) :
    byteAt data index = .ok data[index] := by
  simp [byteAt, List.getElem?_eq_getElem h]

theorem byteAt_getD {data : List UInt8} {index : ℕ} (h : index < data.length) :
    byteAt data index = .ok (data.getD index 0) := by
  simp [byteAt, List.getElem?_eq_getElem h]

theorem slice_of_le {data : List UInt8} {start stop : ℕ} (hstart : start ≤ stop)
    (hstop : stop ≤ data.length) :
    slice data start stop = .ok ((data.drop start).take (stop - start)) :=
  if_pos ⟨hstart, hstop⟩

theorem readUInt_of_le {order : ByteOrder} {width index : ℕ} {data : List UInt8}
    (h : index + width ≤ data.length) :
    readUInt order width data index = .ok (order.ofBytes ((data.drop index).take width)) :=
  if_pos h

theorem debugAssert_of {build : Build} {condition : Prop} [Decidable condition]
    (h : condition) : debugAssert build condition = .ok () :=
  if_neg fun hfail ↦ hfail.2 h

/-- An assertion does nothing in a build without assertions. -/
theorem debugAssert_release {build : Build} {condition : Prop} [Decidable condition]
    (h : build.debugAssertions = false) : debugAssert build condition = .ok () :=
  if_neg fun hfails ↦ Bool.false_ne_true (h.symm.trans hfails.1)

/-- An assertion that passes holds where it is checked. -/
theorem of_debugAssert_eq_ok {build : Build} {condition : Prop} [Decidable condition] {result : Unit}
    (h : debugAssert build condition = .ok result) (hdebug : build.debugAssertions = true) :
    condition := by
  by_contra hfails
  unfold debugAssert at h
  rw [if_pos ⟨hdebug, hfails⟩] at h
  cases h

/-- A value read from `width` bytes is below `256 ^ width`. -/
theorem lt_of_readUInt {order : ByteOrder} {width index value : ℕ} {data : List UInt8}
    (h : readUInt order width data index = .ok value) : value < 256 ^ width := by
  unfold readUInt at h
  split_ifs at h with hindex
  have hvalue : order.ofBytes ((data.drop index).take width) = value := by simpa using h
  have hlength : ((data.drop index).take width).length = width := by
    rw [List.length_take, List.length_drop]
    omega
  have hlt := order.ofBytes_lt ((data.drop index).take width)
  rwa [hvalue, hlength] at hlt

/-- The computation returns, and its value satisfies the postcondition. -/
def Returns {α : Type} (computation : Exec α) (post : α → Prop) : Prop :=
  ∃ value, computation = .ok value ∧ post value

namespace Returns

variable {α β : Type}

theorem ok {post : α → Prop} {value : α} (h : post value) : Returns (.ok value) post :=
  ⟨value, rfl, h⟩

theorem bind {first : Exec α} {next : α → Exec β} {mid : α → Prop} {post : β → Prop}
    (hfirst : Returns first mid) (hnext : ∀ value, mid value → Returns (next value) post) :
    Returns (first >>= next) post := by
  obtain ⟨value, rfl, hvalue⟩ := hfirst
  exact hnext value hvalue

theorem mono {computation : Exec α} {post weaker : α → Prop} (h : Returns computation post)
    (himp : ∀ value, post value → weaker value) : Returns computation weaker := by
  obtain ⟨value, heq, hvalue⟩ := h
  exact ⟨value, heq, himp value hvalue⟩

theorem ite {condition : Prop} [Decidable condition] {yes no : Exec α} {post : α → Prop}
    (hyes : condition → Returns yes post) (hno : ¬condition → Returns no post) :
    Returns (if condition then yes else no) post := by
  by_cases h : condition
  · rw [if_pos h]
    exact hyes h
  · rw [if_neg h]
    exact hno h

/-- What a computation that returns satisfies, of a value it is known to return. -/
theorem of_eq_ok {computation : Exec α} {post : α → Prop} {value : α}
    (h : Returns computation post) (heq : computation = .ok value) : post value := by
  obtain ⟨other, heq', hother⟩ := h
  rw [heq] at heq'
  obtain rfl : value = other := by simpa using heq'
  exact hother

end Returns

/-- The computation ends in one of the given faults or returns a value that satisfies the
postcondition. -/
def ReturnsUnless {α : Type} (allowed : Fault → Prop) (computation : Exec α) (post : α → Prop) :
    Prop :=
  (∃ fault, computation = .error fault ∧ allowed fault) ∨ Returns computation post

namespace ReturnsUnless

variable {α β : Type} {allowed : Fault → Prop}

theorem of_returns {computation : Exec α} {post : α → Prop} (h : Returns computation post) :
    ReturnsUnless allowed computation post := Or.inr h

theorem of_fault {fault : Fault} {post : α → Prop} (h : allowed fault) :
    ReturnsUnless allowed (.error fault : Exec α) post := Or.inl ⟨fault, rfl, h⟩

theorem bind {first : Exec α} {next : α → Exec β} {mid : α → Prop} {post : β → Prop}
    (hfirst : ReturnsUnless allowed first mid)
    (hnext : ∀ value, mid value → ReturnsUnless allowed (next value) post) :
    ReturnsUnless allowed (first >>= next) post := by
  rcases hfirst with ⟨fault, rfl, hfault⟩ | ⟨value, rfl, hvalue⟩
  · exact of_fault hfault
  · exact hnext value hvalue

theorem mono {computation : Exec α} {post weaker : α → Prop}
    (h : ReturnsUnless allowed computation post) (himp : ∀ value, post value → weaker value) :
    ReturnsUnless allowed computation weaker :=
  h.imp id fun hreturns ↦ hreturns.mono himp

theorem ite {condition : Prop} [Decidable condition] {yes no : Exec α} {post : α → Prop}
    (hyes : condition → ReturnsUnless allowed yes post)
    (hno : ¬condition → ReturnsUnless allowed no post) :
    ReturnsUnless allowed (if condition then yes else no) post := by
  by_cases h : condition
  · rw [if_pos h]
    exact hyes h
  · rw [if_neg h]
    exact hno h

/-- Where every fault is allowed nothing is to be shown. -/
theorem any (computation : Exec α) :
    ReturnsUnless (fun _ ↦ True) computation fun _ ↦ True := by
  cases computation with
  | error fault => exact of_fault trivial
  | ok value => exact of_returns (Returns.ok trivial)

/-- What a computation that may fault satisfies, of a value it is known to return. -/
theorem of_eq_ok {computation : Exec α} {post : α → Prop} {value : α}
    (h : ReturnsUnless allowed computation post) (heq : computation = .ok value) : post value := by
  rcases h with ⟨fault, hfault, _⟩ | hreturns
  · rw [hfault] at heq
    cases heq
  · exact hreturns.of_eq_ok heq

/-- A fault of a computation that may fault is one of those allowed. -/
theorem of_eq_error {computation : Exec α} {post : α → Prop} {fault : Fault}
    (h : ReturnsUnless allowed computation post) (heq : computation = .error fault) :
    allowed fault := by
  rcases h with ⟨other, hother, hallowed⟩ | ⟨value, hvalue, _⟩
  · rw [heq] at hother
    cases hother
    exact hallowed
  · rw [heq] at hvalue
    cases hvalue

end ReturnsUnless

/-! ### Loops over a list -/

section Loops

variable {α σ τ : Type} {step : τ → α → Exec τ} {next : σ → α → σ} {relation : σ → τ → Prop}
  {valid good : α → Prop} {small : σ → Prop}

theorem small_of_foldl (hsmaller : ∀ abstract x, small (next abstract x) → small abstract)
    {xs : List α} {abstract : σ} (h : small (xs.foldl next abstract)) : small abstract := by
  induction xs generalizing abstract with
  | nil => exact h
  | cons x xs ih => exact hsmaller abstract x (ih h)

/-- A loop returns what an abstract loop gives, if every round does for good elements as long as the
abstract state is small, and the state is small at the end. -/
theorem foldlM_returns (hsmaller : ∀ abstract x, small (next abstract x) → small abstract)
    (hstep : ∀ abstract state x, relation abstract state → good x → small (next abstract x) →
      Returns (step state x) (relation (next abstract x)))
    {xs : List α} {abstract : σ} {state : τ} (h : relation abstract state)
    (hgood : ∀ x ∈ xs, good x) (hsmall : small (xs.foldl next abstract)) :
    Returns (xs.foldlM step state) (relation (xs.foldl next abstract)) := by
  induction xs generalizing abstract state with
  | nil => exact .ok h
  | cons x xs ih =>
    rw [List.foldlM_cons]
    refine Returns.bind (hstep abstract state x h (hgood x List.mem_cons_self)
      (small_of_foldl hsmaller hsmall)) fun state' hstate' ↦ ?_
    exact ih hstate' (fun y hy ↦ hgood y (List.mem_cons_of_mem x hy)) hsmall

/-- A loop over valid elements that returns went through good ones, and returns what the abstract loop
gives, if every round that returns does. -/
theorem foldlM_eq_ok (hstep : ∀ abstract state x state', relation abstract state → valid x →
      step state x = .ok state' → good x ∧ relation (next abstract x) state')
    {xs : List α} {abstract : σ} {state state' : τ} (h : relation abstract state)
    (hvalid : ∀ x ∈ xs, valid x) (heq : xs.foldlM step state = .ok state') :
    (∀ x ∈ xs, good x) ∧ relation (xs.foldl next abstract) state' := by
  induction xs generalizing abstract state with
  | nil =>
    obtain rfl := Except.ok.inj heq
    exact ⟨fun x hx ↦ absurd hx List.not_mem_nil, h⟩
  | cons x xs ih =>
    rw [List.foldlM_cons] at heq
    obtain ⟨middle, hmiddle, heq⟩ := bind_eq_ok.mp heq
    obtain ⟨hx, hothers⟩ := List.forall_mem_cons.mp hvalid
    obtain ⟨hgood, hrelation⟩ := hstep abstract state x middle h hx hmiddle
    obtain ⟨hgoods, hlast⟩ := ih hrelation hothers heq
    exact ⟨List.forall_mem_cons.mpr ⟨hgood, hgoods⟩, hlast⟩

/-- A loop that counts from `start` keeps an invariant that every round takes to the next number. -/
theorem foldlM_range'_returns {step : τ → ℕ → Exec τ} {invariant : ℕ → τ → Prop} {start : ℕ}
    (count : ℕ) (hstep : ∀ index state, start ≤ index → index < start + count →
      invariant index state → Returns (step state index) (invariant (index + 1)))
    {state : τ} (h : invariant start state) :
    Returns ((List.range' start count).foldlM step state) (invariant (start + count)) := by
  induction count with
  | zero => exact .ok h
  | succ count ih =>
    rw [List.range'_concat, List.foldlM_append, Nat.one_mul]
    refine (ih fun index state hle hlt ↦ hstep index state hle (by omega)).bind fun state hstate ↦ ?_
    rw [List.foldlM_cons]
    exact (hstep _ state (by omega) (by omega) hstate).bind fun last hlast ↦ .ok hlast

end Loops

/-- The computation returns or faults, and does not run out of the iterations the model allows. -/
def Ends {α : Type} (computation : Exec α) : Prop := computation ≠ .error .unfinished

namespace Ends

variable {α β : Type}

theorem ok (value : α) : Ends (.ok value : Exec α) := fun h ↦ by cases h

theorem bind {first : Exec α} {next : α → Exec β} (hfirst : Ends first)
    (hnext : ∀ value, Ends (next value)) : Ends (first >>= next) := by
  cases first with
  | error fault => exact fun h ↦ hfirst (congrArg Except.error (Except.error.inj h))
  | ok value => exact hnext value

theorem bind_of_returnsUnless {allowed : Fault → Prop} {first : Exec α} {next : α → Exec β}
    {mid : α → Prop} (hfirst : ReturnsUnless allowed first mid) (hallowed : ¬allowed .unfinished)
    (hnext : ∀ value, mid value → Ends (next value)) : Ends (first >>= next) := by
  rcases hfirst with ⟨fault, rfl, hfault⟩ | ⟨value, rfl, hvalue⟩
  · intro h
    rw [Except.error.inj h] at hfault
    exact hallowed hfault
  · exact hnext value hvalue

theorem ite {condition : Prop} [Decidable condition] {yes no : Exec α} (hyes : Ends yes)
    (hno : Ends no) : Ends (if condition then yes else no) := by
  split_ifs
  · exact hyes
  · exact hno

theorem debugAssert (build : Build) (condition : Prop) [Decidable condition] :
    Ends (debugAssert build condition) :=
  ite (fun h ↦ by cases h) (ok ())

theorem slice (data : List UInt8) (start stop : ℕ) : Ends (slice data start stop) :=
  ite (ok _) (fun h ↦ by cases h)

end Ends

/-- Two computations end in the same fault, or return related values. -/
inductive Related {α β : Type} (relation : α → β → Prop) : Exec α → Exec β → Prop
  | ok {left : α} {right : β} (h : relation left right) : Related relation (.ok left) (.ok right)
  | error (fault : Fault) : Related relation (.error fault) (.error fault)

namespace Related

variable {α β γ δ : Type}

theorem bind {relation : α → β → Prop} {post : γ → δ → Prop} {left : Exec α} {right : Exec β}
    {leftNext : α → Exec γ} {rightNext : β → Exec δ} (h : Related relation left right)
    (hnext : ∀ x y, relation x y → Related post (leftNext x) (rightNext y)) :
    Related post (left >>= leftNext) (right >>= rightNext) := by
  cases h with
  | ok hvalue => exact hnext _ _ hvalue
  | error fault => exact .error fault

theorem bind_same {post : γ → δ → Prop} {first : Exec α} {leftNext : α → Exec γ}
    {rightNext : α → Exec δ} (hnext : ∀ x, Related post (leftNext x) (rightNext x)) :
    Related post (first >>= leftNext) (first >>= rightNext) := by
  cases first with
  | ok value => exact hnext value
  | error fault => exact .error fault

theorem ite {post : γ → δ → Prop} {condition : Prop} [Decidable condition]
    {leftYes leftNo : Exec γ} {rightYes rightNo : Exec δ}
    (hyes : condition → Related post leftYes rightYes)
    (hno : ¬condition → Related post leftNo rightNo) :
    Related post (if condition then leftYes else leftNo)
      (if condition then rightYes else rightNo) := by
  by_cases h : condition
  · rw [if_pos h, if_pos h]
    exact hyes h
  · rw [if_neg h, if_neg h]
    exact hno h

theorem mono {relation weaker : α → β → Prop} {left : Exec α} {right : Exec β}
    (h : Related relation left right) (himp : ∀ x y, relation x y → weaker x y) :
    Related weaker left right := by
  cases h with
  | ok hvalue => exact .ok (himp _ _ hvalue)
  | error fault => exact .error fault

/-- Two related computations of which the first satisfies a postcondition where it returns. -/
theorem and_left {relation : α → β → Prop} {allowed : Fault → Prop} {post : α → Prop}
    {left : Exec α} {right : Exec β} (h : Related relation left right)
    (hleft : ReturnsUnless allowed left post) :
    Related (fun x y ↦ relation x y ∧ post x) left right := by
  cases h with
  | ok hvalue => exact .ok ⟨hvalue, hleft.of_eq_ok rfl⟩
  | error fault => exact .error fault

theorem of_eq {relation : α → α → Prop} {left right : Exec α} (h : left = right)
    (hrefl : ∀ x, relation x x) : Related relation left right := by
  subst h
  cases left with
  | ok value => exact .ok (hrefl value)
  | error fault => exact .error fault

/-- What the second of two related computations does where the first returns. -/
theorem of_left_ok {relation : α → β → Prop} {left : Exec α} {right : Exec β} {x : α}
    (h : Related relation left right) (heq : left = .ok x) :
    ∃ y, right = .ok y ∧ relation x y := by
  subst heq
  cases h with
  | ok hvalue => exact ⟨_, rfl, hvalue⟩

/-- What the first of two related computations does where the second returns. -/
theorem of_right_ok {relation : α → β → Prop} {left : Exec α} {right : Exec β} {y : β}
    (h : Related relation left right) (heq : right = .ok y) :
    ∃ x, left = .ok x ∧ relation x y := by
  subst heq
  cases h with
  | ok hvalue => exact ⟨_, rfl, hvalue⟩

end Related

end Exec

end Tracepoints
