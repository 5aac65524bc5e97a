import Tracepoints.Lib.Exec

/-!
# Actions on a state that may return early

`Act σ ε α` models code that changes a state of type `σ` and returns a value of type `α` or leaves
early with an `ε`, keeping the changes made so far; it may also fault. `Act.bind` goes on only
behind a value. The rules `bind_of_ok`, `bind_of_early` and `bind_eq_ok` evaluate a sequence on a
state. `Act.Keeps` says that an action keeps an invariant of the state, and its rules follow the
program text; `Act.Ensures` says in addition that it does not fault, and what holds behind it.
-/

set_option autoImplicit false
set_option relaxedAutoImplicit false

namespace Tracepoints

/-- An action on a state: it returns a value or leaves early, with the state it leaves behind. -/
def Act (σ ε α : Type) : Type := σ → Exec (Except ε α × σ)

namespace Act

variable {σ ε α β : Type}

/-- Return a value. -/
def done (value : α) : Act σ ε α := fun state ↦ .ok (.ok value, state)

/-- Leave early. -/
def leave (early : ε) : Act σ ε α := fun state ↦ .ok (.error early, state)

/-- One action behind the other. -/
def andThen (first : Act σ ε α) (next : α → Act σ ε β) : Act σ ε β := fun state ↦
  match first state with
  | .error fault => .error fault
  | .ok (.error early, state) => .ok (.error early, state)
  | .ok (.ok value, state) => next value state

instance : Monad (Act σ ε) where
  pure := done
  bind := andThen

/-- The current state. -/
def read : Act σ ε σ := fun state ↦ .ok (.ok state, state)

/-- Change the state. -/
def update (change : σ → σ) : Act σ ε Unit := fun state ↦ .ok (.ok (), change state)

/-- A computation without a state. -/
def compute (computation : Exec α) : Act σ ε α := fun state ↦
  match computation with
  | .error fault => .error fault
  | .ok value => .ok (.ok value, state)

/-- Change the state by a computation. -/
def updateM (change : σ → Exec σ) : Act σ ε Unit := fun state ↦
  match change state with
  | .error fault => .error fault
  | .ok state => .ok (.ok (), state)

section Rules

variable {first : Act σ ε α} {next : α → Act σ ε β} {state state' : σ}

theorem bind_of_ok {value : α} (h : first state = .ok (.ok value, state')) :
    (first >>= next) state = next value state' := by
  show andThen first next state = _
  rw [andThen, h]

theorem bind_of_early {early : ε} (h : first state = .ok (.error early, state')) :
    (first >>= next) state = .ok (.error early, state') := by
  show andThen first next state = _
  rw [andThen, h]

theorem bind_of_fault {fault : Fault} (h : first state = .error fault) :
    (first >>= next) state = .error fault := by
  show andThen first next state = _
  rw [andThen, h]

@[simp] theorem pure_apply (value : α) : (pure value : Act σ ε α) state = .ok (.ok value, state) :=
  rfl

@[simp] theorem done_bind (value : α) : ((pure value : Act σ ε α) >>= next) = next value := rfl

@[simp] theorem read_bind {next : σ → Act σ ε β} : (read >>= next) state = next state state := rfl

@[simp] theorem update_bind {change : σ → σ} {next : Unit → Act σ ε β} :
    (update change >>= next) state = next () (change state) := rfl

/-- A sequence returns a value exactly when its first action does and its second does behind
it. -/
theorem bind_eq_ok {value : β} :
    (first >>= next) state = .ok (.ok value, state') ↔
      ∃ mid midState, first state = .ok (.ok mid, midState) ∧
        next mid midState = .ok (.ok value, state') := by
  show andThen first next state = _ ↔ _
  unfold andThen
  cases h : first state with
  | error fault => simp
  | ok result =>
    obtain ⟨outcome, midState⟩ := result
    cases outcome with
    | error early => simp
    | ok mid => simp

/-- A sequence ends where its first action leaves early, or as its second does behind a value. -/
theorem bind_cases {outcome : Except ε β} (h : (first >>= next) state = .ok (outcome, state')) :
    (∃ early, first state = .ok (.error early, state') ∧ outcome = .error early) ∨
      ∃ value mid, first state = .ok (.ok value, mid) ∧ next value mid = .ok (outcome, state') := by
  change andThen first next state = _ at h
  unfold andThen at h
  cases heq : first state with
  | error fault =>
    rw [heq] at h
    cases h
  | ok result =>
    rw [heq] at h
    obtain ⟨early | value, mid⟩ := result
    · obtain ⟨rfl, rfl⟩ := Prod.mk.inj (Except.ok.inj h)
      exact .inl ⟨early, rfl, rfl⟩
    · exact .inr ⟨value, mid, rfl, h⟩

theorem compute_ok {computation : Exec α} {value : α} (h : computation = .ok value) :
    (compute computation : Act σ ε α) state = .ok (.ok value, state) := by
  unfold compute
  rw [h]

theorem compute_fault {computation : Exec α} {fault : Fault} (h : computation = .error fault) :
    (compute computation : Act σ ε α) state = .error fault := by
  unfold compute
  rw [h]

/-- A computation that returns does not change the state. -/
theorem compute_eq_ok {computation : Exec α} {value : α}
    (h : (compute computation : Act σ ε α) state = .ok (.ok value, state')) :
    computation = .ok value ∧ state = state' := by
  unfold compute at h
  cases computation with
  | error fault => cases h
  | ok other =>
    obtain ⟨hvalue, hstate⟩ := Prod.mk.inj (Except.ok.inj h)
    exact ⟨congrArg _ (Except.ok.inj hvalue), hstate⟩

theorem updateM_ok {change : σ → Exec σ} (h : change state = .ok state') :
    (updateM change : Act σ ε Unit) state = .ok (.ok (), state') := by
  unfold updateM
  rw [h]

/-- A change that returns is the change of the state. -/
theorem updateM_eq_ok {change : σ → Exec σ} {outcome : Except ε Unit}
    (h : (updateM change : Act σ ε Unit) state = .ok (outcome, state')) :
    change state = .ok state' := by
  unfold updateM at h
  split at h
  · cases h
  next next heq =>
    rw [heq]
    exact congrArg _ (Prod.mk.inj (Except.ok.inj h)).2

end Rules

/-- The action keeps an invariant, whether it returns or leaves early, and what it returns satisfies a
postcondition. -/
def Keeps (inv : σ → Prop) (action : Act σ ε α) (post : α → Prop) : Prop :=
  ∀ state outcome state', inv state → action state = .ok (outcome, state') →
    inv state' ∧ ∀ value, outcome = .ok value → post value

namespace Keeps

variable {inv : σ → Prop} {post : α → Prop} {after : β → Prop}

theorem bind {first : Act σ ε α} {next : α → Act σ ε β} (hfirst : Keeps inv first post)
    (hnext : ∀ value, post value → Keeps inv (next value) after) :
    Keeps inv (first >>= next) after := by
  intro state outcome state' hinv h
  rcases bind_cases h with ⟨early, heq, rfl⟩ | ⟨value, mid, heq, hrest⟩
  · exact ⟨(hfirst state _ state' hinv heq).1, nofun⟩
  · obtain ⟨hmid, hpost⟩ := hfirst state _ mid hinv heq
    exact hnext value (hpost value rfl) mid outcome state' hmid hrest

theorem done {value : α} (h : post value) : Keeps inv (pure value : Act σ ε α) post := by
  intro state outcome state' hinv heq
  obtain ⟨rfl, rfl⟩ := Prod.mk.inj (Except.ok.inj heq)
  exact ⟨hinv, fun other hother ↦ by cases hother; exact h⟩

theorem leave (early : ε) : Keeps inv (leave early : Act σ ε α) post := by
  intro state outcome state' hinv heq
  obtain ⟨rfl, rfl⟩ := Prod.mk.inj (Except.ok.inj heq)
  exact ⟨hinv, nofun⟩

theorem leave_bind (early : ε) (next : α → Act σ ε β) :
    Keeps inv (Act.leave early >>= next) after := by
  intro state outcome state' hinv heq
  obtain ⟨rfl, rfl⟩ := Prod.mk.inj (Except.ok.inj heq)
  exact ⟨hinv, nofun⟩

theorem read : Keeps inv (read : Act σ ε σ) inv := by
  intro state outcome state' hinv heq
  obtain ⟨rfl, rfl⟩ := Prod.mk.inj (Except.ok.inj heq)
  exact ⟨hinv, fun other hother ↦ by cases hother; exact hinv⟩

theorem update {change : σ → σ} (h : ∀ state, inv state → inv (change state)) :
    Keeps inv (update change : Act σ ε Unit) fun _ ↦ True := by
  intro state outcome state' hinv heq
  obtain ⟨rfl, rfl⟩ := Prod.mk.inj (Except.ok.inj heq)
  exact ⟨h state hinv, fun _ _ ↦ trivial⟩

theorem compute {computation : Exec α} (h : ∀ value, computation = .ok value → post value) :
    Keeps inv (compute computation : Act σ ε α) post := by
  intro state outcome state' hinv heq
  unfold Act.compute at heq
  cases hvalue : computation with
  | error fault =>
    rw [hvalue] at heq
    cases heq
  | ok value =>
    rw [hvalue] at heq
    obtain ⟨rfl, rfl⟩ := Prod.mk.inj (Except.ok.inj heq)
    exact ⟨hinv, fun other hother ↦ by cases hother; exact h value hvalue⟩

theorem compute_any (computation : Exec α) :
    Keeps inv (Act.compute computation : Act σ ε α) fun _ ↦ True :=
  compute fun _ _ ↦ trivial

theorem updateM {change : σ → Exec σ}
    (h : ∀ state state', inv state → change state = .ok state' → inv state') :
    Keeps inv (updateM change : Act σ ε Unit) fun _ ↦ True := by
  intro state outcome state' hinv heq
  unfold Act.updateM at heq
  cases hchange : change state with
  | error fault =>
    rw [hchange] at heq
    cases heq
  | ok next =>
    rw [hchange] at heq
    obtain ⟨rfl, rfl⟩ := Prod.mk.inj (Except.ok.inj heq)
    exact ⟨h state next hinv hchange, fun _ _ ↦ trivial⟩

theorem ite {condition : Prop} [Decidable condition] {yes no : Act σ ε α}
    (hyes : condition → Keeps inv yes post) (hno : ¬condition → Keeps inv no post) :
    Keeps inv (if condition then yes else no) post := by
  by_cases h : condition
  · rw [if_pos h]
    exact hyes h
  · rw [if_neg h]
    exact hno h

end Keeps

/-- From a state with the precondition the action does not fault, and a value it returns satisfies the
postcondition together with the state behind it. Nothing is said of the state where it leaves early. -/
def Ensures (pre : σ → Prop) (action : Act σ ε α) (post : α → σ → Prop) : Prop :=
  ∀ state, pre state → Exec.Returns (action state) fun result ↦
    ∀ value, result.1 = .ok value → post value result.2

namespace Ensures

variable {pre : σ → Prop} {post : α → σ → Prop} {after : β → σ → Prop}

theorem bind {first : Act σ ε α} {next : α → Act σ ε β} (hfirst : Ensures pre first post)
    (hnext : ∀ value, Ensures (post value) (next value) after) :
    Ensures pre (first >>= next) after := by
  intro state hpre
  obtain ⟨⟨outcome, mid⟩, heq, hpost⟩ := hfirst state hpre
  cases outcome with
  | error early =>
    refine ⟨(.error early, mid), bind_of_early heq, ?_⟩
    exact fun value hvalue ↦ nomatch hvalue
  | ok value =>
    rw [bind_of_ok heq]
    exact hnext value mid (hpost value rfl)

/-- What holds of a value that is returned. -/
theorem of_ok {action : Act σ ε α} {state state' : σ} {value : α} (h : Ensures pre action post)
    (hpre : pre state) (heq : action state = .ok (.ok value, state')) : post value state' := by
  obtain ⟨result, hresult, hpost⟩ := h state hpre
  rw [heq] at hresult
  obtain rfl := Except.ok.inj hresult
  exact hpost value rfl

theorem mono {action : Act σ ε α} {weaker : α → σ → Prop} (h : Ensures pre action post)
    (himp : ∀ value state, post value state → weaker value state) : Ensures pre action weaker := by
  intro state hpre
  obtain ⟨result, heq, hpost⟩ := h state hpre
  exact ⟨result, heq, fun value hvalue ↦ himp value _ (hpost value hvalue)⟩

theorem weaken {action : Act σ ε α} {weaker : σ → Prop} (himp : ∀ state, pre state → weaker state)
    (h : Ensures weaker action post) : Ensures pre action post :=
  fun state hpre ↦ h state (himp state hpre)

theorem done {value : α} (h : ∀ state, pre state → post value state) :
    Ensures pre (pure value : Act σ ε α) post := by
  intro state hpre
  refine ⟨(.ok value, state), rfl, fun other hother ↦ ?_⟩
  obtain rfl := Except.ok.inj hother
  exact h state hpre

theorem leave (early : ε) : Ensures pre (Act.leave early : Act σ ε α) post :=
  fun state _ ↦ ⟨(.error early, state), rfl, fun _ hvalue ↦ nomatch hvalue⟩

theorem leave_bind (early : ε) (next : α → Act σ ε β) :
    Ensures pre (Act.leave early >>= next) after :=
  fun state _ ↦ ⟨(.error early, state), rfl, fun _ hvalue ↦ nomatch hvalue⟩

theorem read : Ensures pre (read : Act σ ε σ) fun value state ↦ value = state ∧ pre state := by
  intro state hpre
  refine ⟨(.ok state, state), rfl, fun other hother ↦ ?_⟩
  exact ⟨(Except.ok.inj hother).symm, hpre⟩

theorem update {change : σ → σ} {post : Unit → σ → Prop}
    (h : ∀ state, pre state → post () (change state)) :
    Ensures pre (update change : Act σ ε Unit) post :=
  fun state hpre ↦ ⟨(.ok (), change state), rfl, fun _ _ ↦ h state hpre⟩

theorem compute {computation : Exec α}
    (h : ∀ state, pre state → Exec.Returns computation fun value ↦ post value state) :
    Ensures pre (compute computation : Act σ ε α) post := by
  intro state hpre
  obtain ⟨value, rfl, hpost⟩ := h state hpre
  refine ⟨(.ok value, state), rfl, fun other hother ↦ ?_⟩
  obtain rfl := Except.ok.inj hother
  exact hpost

/-- A check that passes changes nothing. -/
theorem check {computation : Exec Unit} (h : ∀ state, pre state → computation = .ok ()) :
    Ensures pre (Act.compute computation : Act σ ε Unit) fun _ ↦ pre :=
  compute fun state hpre ↦ ⟨(), h state hpre, hpre⟩

theorem ite {condition : Prop} [Decidable condition] {yes no : Act σ ε α}
    (hyes : condition → Ensures pre yes post) (hno : ¬condition → Ensures pre no post) :
    Ensures pre (if condition then yes else no) post := by
  by_cases h : condition
  · rw [if_pos h]
    exact hyes h
  · rw [if_neg h]
    exact hno h

/-- A part of the precondition that does not depend on the state. -/
theorem of_pure {fact : Prop} {action : Act σ ε α} (h : fact → Ensures pre action post) :
    Ensures (fun state ↦ pre state ∧ fact) action post :=
  fun state hpre ↦ h hpre.2 state hpre.1

end Ensures

end Act

end Tracepoints
