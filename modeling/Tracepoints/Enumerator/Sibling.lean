import Tracepoints.Enumerator.Stale

/-!
# The sibling move refines the plain move

`move_next_sibling` jumps over an array of simple elements by arithmetic on the data position. The
plain traversal (`plainSiblingLoop`) makes one `move_next` after the other instead, until it is
behind the end that matches the current item. Both end alike: what the enumerator shows is the
same, and so is every later run of operations (`SameBehaviour`), whatever budget it is given.

The two contexts need not be equal: the jump leaves the element index and the sizes of the array
behind. `Alike` is the relation that the operations keep.
-/

set_option autoImplicit false
set_option relaxedAutoImplicit false

namespace Tracepoints

open Exec

namespace EventHeaderEnumeratorContext

/-! ### Observations -/

/-- What a caller sees of an enumerator. -/
structure Observation where
  state : EventHeaderEnumeratorState
  lastError : EventHeaderEnumeratorError
  event : EventHeaderEventInfo
  item : Option (Exec EventHeaderItemInfo)
  rawData : Exec (List UInt8)

section Observe

variable (build : Build) (data : List UInt8)

/-- The observation in a context; the item is shown where the state allows it. -/
def observe (c : EventHeaderEnumeratorContext) : Observation where
  state := c.state
  lastError := c.lastError
  event := c.eventInfo
  item := if c.state.canItemInfo then some (itemInfo build data c) else none
  rawData := rawDataPosition data c

/-- The results and observations of a sequence of operations, up to the first one that is not
permitted. -/
def observeRun : List EnumeratorOp → EventHeaderEnumeratorContext →
    Exec (List (Bool × Observation))
  | [], _ => .ok []
  | op :: ops, c =>
    if op.Permitted c then do
      let (result, c) ← op.apply build data c
      let rest ← observeRun ops c
      .ok ((result, observe build data c) :: rest)
    else .ok []

/-- Two contexts that show the same, now and, given the same budget, after every later sequence of
operations. -/
structure SameBehaviour (left right : EventHeaderEnumeratorContext) : Prop where
  observe_eq : observe build data left = observe build data right
  run_eq : ∀ (budget : ℕ) (ops : List EnumeratorOp),
    observeRun build data ops (left.withBudget budget) =
      observeRun build data ops (right.withBudget budget)

/-- The traversal by `move_next` alone: until the depth of the begun and not yet ended items,
counted as `move_next_sibling` counts it, is back at zero. -/
def plainSiblingLoop : ℕ → ℤ → EventHeaderEnumeratorContext →
    Exec (Bool × EventHeaderEnumeratorContext)
  | 0, _, _ => .error .unfinished
  | fuel + 1, depth, c => do
    let depth := siblingDepth depth c.state
    let (movedToItem, c) ← moveNextImpl build data c
    if ¬movedToItem ∨ depth ≤ 0 then .ok (movedToItem, c)
    else plainSiblingLoop fuel depth c

end Observe

variable {build : Build} {data : List UInt8} {c left right : EventHeaderEnumeratorContext}

/-! ### Contexts that behave alike -/

/-- Two contexts with the same budget and the same behaviour: equal, idle with other stale fields,
or at a field definition with another stale size. -/
inductive Alike : EventHeaderEnumeratorContext → EventHeaderEnumeratorContext → Prop
  | refl (c : EventHeaderEnumeratorContext) : Alike c c
  | idle {c : EventHeaderEnumeratorContext} (h : c.state.canItemInfo = false)
      (arrayIndex pos raw cooked : ℕ) :
      Alike c (c.restale arrayIndex pos raw cooked c.moveNextRemaining)
  | metadata {c : EventHeaderEnumeratorContext} (h : c.substate = .valueMetadata) (raw : ℕ) :
      Alike c { c with itemSizeRaw := raw }

theorem Alike.observe_eq (h : Alike left right) :
    observe build data left = observe build data right := by
  cases h with
  | refl => rfl
  | idle h =>
    unfold observe
    rw [if_neg (by rw [h]; decide), if_neg (by show ¬left.state.canItemInfo = true; rw [h]; decide)]
    rfl
  | metadata => rfl

theorem Alike.permitted_iff (h : Alike left right) (op : EnumeratorOp) :
    op.Permitted left ↔ op.Permitted right := by
  cases h <;> cases op <;> exact Iff.rfl

/-- Two operations end alike: with the same result in contexts that behave alike. -/
def AlikeResults (left right : Bool × EventHeaderEnumeratorContext) : Prop :=
  left.1 = right.1 ∧ Alike left.2 right.2

/-- Assumes: two outcomes of moves that cost the same from contexts with the same budget. -/
theorem SameOutcome.alike {budget : ℕ} {first second : Bool × EventHeaderEnumeratorContext}
    (h : SameOutcome budget first second) (hmoved : first.2.state.canItemInfo = first.1)
    (hfirst : first.2.moveNextRemaining = budget) (hsecond : second.2.moveNextRemaining = budget) :
    AlikeResults first second := by
  cases h with
  | item c =>
    have hsame : c.withBudget budget = c := by
      rw [← hfirst]
      rfl
    rw [hsame]
    exact ⟨rfl, .refl c⟩
  | ended hstale =>
    obtain ⟨arrayIndex, pos, raw, cooked, budget', rfl⟩ := hstale
    have hbudget : budget' = budget := hsecond
    refine ⟨rfl, ?_⟩
    rw [hbudget, ← hfirst]
    exact .idle hmoved arrayIndex pos raw cooked

/-- `next_property` from two contexts between items with the same budget. -/
theorem nextProperty_alike (build : Build) (h : Positioned data c) (arrayIndex pos raw cooked : ℕ)
    (state : EventHeaderEnumeratorState) (substate : SubState) :
    Related AlikeResults (nextProperty build data c)
      (nextProperty build data
        (c.between arrayIndex pos raw cooked c.moveNextRemaining state substate)) := by
  have hother : Positioned data
      (c.between arrayIndex pos raw cooked c.moveNextRemaining state substate) :=
    h.of_frame rfl rfl rfl h.nextOffset_ge h.nextOffset_le h.dataPosRaw_le
  obtain ⟨first, hfirst, hstep⟩ := nextProperty_returns build h
  obtain ⟨second, hsecond, houtcome⟩ := (nextProperty_related arrayIndex pos raw
    cooked c.moveNextRemaining state substate build h).of_left_ok hfirst
  have hstep' := (nextProperty_returns build hother).of_eq_ok hsecond
  rw [hfirst, hsecond]
  exact .ok (houtcome.alike (hstep.moved h).shows hstep.remaining_eq hstep'.remaining_eq)

/-- The first `move_next` from two idle contexts. -/
theorem moveNextImpl_alike (h : EnumeratorInv data c) (hstate : c.state = .beforeFirstItem)
    (hvalue : c.substate ≠ .valueMetadata) (arrayIndex pos raw cooked : ℕ) :
    Related AlikeResults (moveNextImpl build data c)
      (moveNextImpl build data (c.restale arrayIndex pos raw cooked c.moveNextRemaining)) := by
  have hsubstate := h.beforeFirstItem hstate hvalue
  unfold moveNextImpl
  refine Related.bind_same fun _ ↦ Related.ite (fun _ ↦ ?_) (fun _ ↦ ?_)
  · exact .ok ⟨rfl, .idle rfl arrayIndex pos raw cooked⟩
  · unfold moveNextSubstate
    dsimp only [restale]
    rw [hsubstate]
    refine Related.bind_same fun _ ↦ ?_
    have halike := nextProperty_alike build h.positioned.spend arrayIndex pos raw cooked
      c.state .beforeFirstItem
    unfold EventHeaderEnumeratorContext.spend at halike
    dsimp only [between, restale, setState] at halike
    rw [hsubstate] at halike
    exact halike

/-- The first sibling move from two idle contexts. -/
theorem moveNextSiblingImpl_alike (h : EnumeratorInv data c) (hstate : c.state = .beforeFirstItem)
    (hvalue : c.substate ≠ .valueMetadata) (arrayIndex pos raw cooked : ℕ) :
    Related AlikeResults (moveNextSiblingImpl build data c)
      (moveNextSiblingImpl build data
        (c.restale arrayIndex pos raw cooked c.moveNextRemaining)) := by
  have hnoJump : ¬CanJumpArray c := fun hjump ↦ by
    have heq := hstate.symm.trans hjump.1
    cases heq
  unfold moveNextSiblingImpl
  refine Related.bind_same fun _ ↦ ?_
  rw [moveNextSiblingLoop, moveNextSiblingLoop, if_neg hnoJump, if_neg (by exact hnoJump)]
  refine Related.bind (moveNextImpl_alike h hstate hvalue arrayIndex pos raw cooked) ?_
  rintro ⟨moved, first⟩ ⟨moved', second⟩ ⟨hsame, halike⟩
  obtain rfl : moved = moved' := hsame
  dsimp only
  refine Related.ite (fun _ ↦ .ok ⟨rfl, halike⟩) (fun hmore ↦ ?_)
  -- before the first item the depth is zero, so that one move is all
  exfalso
  refine (not_or.mp hmore).2 ?_
  rw [hstate]
  exact le_rfl

/-- A metadata move within metadata enumeration does not look at the raw size. -/
theorem nextFieldMetadata_alike (h : Positioned data c) (raw : ℕ) :
    Related AlikeResults (nextFieldMetadata build data c)
      (nextFieldMetadata build data { c with itemSizeRaw := raw }) := by
  have hle := h.nextOffset_le
  have hmeta := h.metaEnd_le
  unfold nextFieldMetadata
  dsimp only
  rw [readFieldNameAndType_eq build (by exact hle) (by exact hmeta),
    readFieldNameAndType_eq build (by exact hle) (by exact hmeta)]
  simp only [ok_bind]
  cases fieldAt c.byteReader data c.metaEnd c.stackTop.nextOffset with
  | none =>
    dsimp only
    rw [if_pos rfl, if_pos rfl]
    exact .ok ⟨rfl, .idle rfl _ _ raw _⟩
  | some field =>
    dsimp only
    refine Related.ite (fun _ ↦ ?_) (fun _ ↦ Related.ite (fun _ ↦ ?_) (fun _ ↦
      Related.ite (fun _ ↦ ?_) (fun _ ↦ Related.ite (fun _ ↦ ?_) (fun _ ↦
        Related.ite (fun _ ↦ ?_) (fun _ ↦ ?_)))))
    · exact .ok ⟨rfl, .idle rfl _ _ raw _⟩
    · exact .ok ⟨rfl, .idle rfl _ _ raw _⟩
    · exact .ok ⟨rfl, .metadata rfl raw⟩
    · exact .ok ⟨rfl, .metadata rfl raw⟩
    · refine Related.bind_same fun _ ↦ Related.ite (fun _ ↦ ?_) (fun _ ↦ ?_)
      · exact .ok ⟨rfl, .idle rfl _ _ raw _⟩
      · refine Related.bind_same fun count ↦ Related.ite (fun _ ↦ ?_) (fun _ ↦ ?_)
        · exact .ok ⟨rfl, .idle rfl _ _ raw _⟩
        · exact .ok ⟨rfl, .metadata rfl raw⟩
    · exact .ok ⟨rfl, .idle rfl _ _ raw _⟩

/-- The switch to metadata enumeration leaves two contexts that behave alike with other raw sizes
at most. -/
theorem startMetadata_alike (build : Build) (h : EnumeratorInv data left) (halike : Alike left right) :
    Related (fun first second ↦ ∃ raw, second = { first with itemSizeRaw := raw })
      (startMetadata build data left) (startMetadata build data right) := by
  cases halike with
  | refl => exact Related.of_eq rfl fun c ↦ ⟨c.itemSizeRaw, rfl⟩
  | idle hidle arrayIndex pos raw cooked =>
    unfold startMetadata
    refine Related.ite (fun _ ↦ ?_) (fun hmetadata ↦ ?_)
    · exact Related.bind_same fun _ ↦ Related.bind_same fun _ ↦ .ok ⟨raw, rfl⟩
    · have hitem := h.item
      unfold ItemInv at hitem
      simp only [not_not.mp hmetadata] at hitem
      rcases hitem.state_eq with hstate | hstate <;> rw [hstate] at hidle <;> cases hidle
  | metadata hsubstate raw =>
    unfold startMetadata
    exact Related.ite (fun hvalue ↦ absurd hsubstate hvalue) (fun _ ↦ .ok ⟨raw, rfl⟩)

/-- Assumes: the invariant, in the first of two contexts that behave alike. Metadata moves from
both end alike. -/
theorem moveNextMetadataImpl_alike (h : EnumeratorInv data left) (halike : Alike left right)
    (hop : EnumeratorOp.moveNextMetadata.Permitted left) :
    Related AlikeResults (moveNextMetadataImpl build data left)
      (moveNextMetadataImpl build data right) := by
  obtain ⟨first, hfirst, hpos, _⟩ := startMetadata_returns build h hop.2
  obtain ⟨_, hsecond, raw, rfl⟩ := (startMetadata_alike build h halike).of_left_ok hfirst
  unfold moveNextMetadataImpl
  rw [hfirst, hsecond]
  simp only [ok_bind]
  refine Related.bind_same fun _ ↦ Related.ite (fun _ ↦ ?_) (fun _ ↦ .ok ⟨rfl, .refl _⟩)
  exact nextFieldMetadata_alike hpos raw

/-- A reset leaves two contexts that behave alike. -/
theorem Alike.resetImpl (h : Alike left right) (limit : ℕ) :
    Alike (left.resetImpl limit) (right.resetImpl limit) := by
  cases h with
  | refl => exact .refl _
  | idle _ arrayIndex pos raw cooked => exact .idle rfl arrayIndex pos raw cooked
  | metadata _ raw => exact .idle rfl _ _ raw _

/-- Assumes: the invariant, in the first of two contexts that behave alike. A permitted operation
ends alike in both. -/
theorem apply_alike (build : Build) (h : EnumeratorInv data left) (halike : Alike left right) {op : EnumeratorOp}
    (hop : op.Permitted left) :
    Related AlikeResults (op.apply build data left) (op.apply build data right) := by
  have hidle : left.state.canItemInfo = false → left.state.canMoveNext = true →
      left.state = .beforeFirstItem := by
    cases left.state <;> decide
  cases op with
  | moveNext =>
    cases halike with
    | refl => exact Related.of_eq rfl fun result ↦ ⟨rfl, .refl _⟩
    | idle hstate arrayIndex pos raw cooked =>
      exact moveNextImpl_alike h (hidle hstate hop.1) hop.2 arrayIndex pos raw cooked
    | metadata hsubstate => exact absurd hsubstate hop.2
  | moveNextSibling =>
    cases halike with
    | refl => exact Related.of_eq rfl fun result ↦ ⟨rfl, .refl _⟩
    | idle hstate arrayIndex pos raw cooked =>
      exact moveNextSiblingImpl_alike h (hidle hstate hop.1) hop.2 arrayIndex pos raw cooked
    | metadata hsubstate => exact absurd hsubstate hop.2
  | moveNextMetadata => exact moveNextMetadataImpl_alike h halike hop
  | reset => exact .ok ⟨rfl, halike.resetImpl _⟩
  | resetWithLimit limit => exact .ok ⟨rfl, halike.resetImpl limit⟩

/-- Contexts that behave alike show the same along every sequence of operations. -/
theorem observeRun_alike (ops : List EnumeratorOp) (h : EnumeratorInv data left)
    (halike : Alike left right) :
    observeRun build data ops left = observeRun build data ops right := by
  induction ops generalizing left right with
  | nil => rfl
  | cons op ops ih =>
    rw [observeRun, observeRun]
    by_cases hop : op.Permitted left
    · rw [if_pos hop, if_pos ((halike.permitted_iff op).mp hop)]
      have hrelated := apply_alike build h halike hop
      have hreturns := apply_returns build h hop
      generalize op.apply build data left = first at hrelated hreturns ⊢
      generalize op.apply build data right = second at hrelated ⊢
      cases hrelated with
      | error fault => rfl
      | @ok result other hresults =>
        obtain ⟨hresult, hnext⟩ := hresults
        obtain ⟨hinv, _⟩ := hreturns.of_eq_ok rfl
        simp only [ok_bind]
        rw [ih hinv hnext, hresult, hnext.observe_eq]
    · rw [if_neg hop, if_neg fun hright ↦ hop ((halike.permitted_iff op).mpr hright)]

/-- Assumes: the invariant. Two outcomes of one traversal behave alike, whatever their budgets. -/
theorem SameOutcome.sameBehaviour (build : Build) {budget : ℕ}
    {first second : Bool × EventHeaderEnumeratorContext} (h : SameOutcome budget first second)
    (hmoved : Moved data c first) :
    first.1 = second.1 ∧ SameBehaviour build data first.2 second.2 := by
  cases h with
  | item c => exact ⟨rfl, rfl, fun _ _ ↦ rfl⟩
  | @ended left right hstale =>
    obtain ⟨arrayIndex, pos, raw, cooked, other, rfl⟩ := hstale
    refine ⟨rfl, ?_, fun budget ops ↦ ?_⟩
    · exact (Alike.idle hmoved.shows arrayIndex pos raw cooked).observe_eq
    · exact observeRun_alike ops (hmoved.inv.withBudget budget)
        (.idle (c := left.withBudget budget) hmoved.shows arrayIndex pos raw cooked)

/-! ### The plain traversal of an array of simple elements -/

/-- One iteration of the plain traversal that does not run out of budget. -/
theorem plainSiblingLoop_succ {fuel : ℕ} {depth : ℤ}
    {result : Bool × EventHeaderEnumeratorContext} (h : EnumeratorInv data c)
    (hmove : c.state.canMoveNext = true) (hvalue : c.substate ≠ .valueMetadata)
    (hplain : plainSiblingLoop build data (fuel + 1) depth c = .ok result)
    (hlimit : result.2.lastError ≠ .implementationLimit) :
    c.moveNextRemaining ≠ 0 ∧ ∃ next, moveNextImpl build data c = .ok next ∧
      MoveStep build data c next ∧
      ((next.1 = false ∨ siblingDepth depth c.state ≤ 0) ∧ result = next ∨
        next.1 = true ∧ 0 < siblingDepth depth c.state ∧
          plainSiblingLoop build data fuel (siblingDepth depth c.state) next.2 = .ok result) := by
  rw [plainSiblingLoop] at hplain
  obtain ⟨next, hnext, hrest⟩ := bind_eq_ok.mp hplain
  have hstep := (moveNextImpl_returns h hmove hvalue).of_eq_ok hnext
  have houtcome : (next.1 = false ∨ siblingDepth depth c.state ≤ 0) ∧ result = next ∨
      next.1 = true ∧ 0 < siblingDepth depth c.state ∧
        plainSiblingLoop build data fuel (siblingDepth depth c.state) next.2 = .ok result := by
    dsimp only at hrest
    split_ifs at hrest with hstop
    · refine Or.inl ⟨by simpa using hstop, ?_⟩
      exact (Except.ok.inj hrest).symm
    · obtain ⟨hmoved, hdepth⟩ := not_or.mp hstop
      exact Or.inr ⟨by simpa using hmoved, by omega, hrest⟩
  refine ⟨fun hzero ↦ ?_, next, hnext, hstep, houtcome⟩
  have hexhausted : next = c.setErrorState .implementationLimit := by
    cases hstep <;> first | rfl | contradiction
  rcases houtcome with ⟨_, rfl⟩ | ⟨hmoved, _⟩
  · rw [hexhausted] at hlimit
    exact hlimit rfl
  · rw [hexhausted] at hmoved
    cases hmoved

/-- The moves from an element of simple type. -/
theorem MoveStep.simpleElement {result : Bool × EventHeaderEnumeratorContext}
    (hstep : MoveStep build data c result) (hbudget : c.moveNextRemaining ≠ 0)
    (hsubstate : c.substate = .valueSimpleArrayElement) :
    c.stackTop.arrayCount ≠ c.stackTop.arrayIndex + 1 ∧
        result = (true, c.spend.pastItem.nextElement.atSimpleElement) ∨
      c.stackTop.arrayCount = c.stackTop.arrayIndex + 1 ∧
        result = (true, c.spend.pastItem.nextElement.atArrayEnd) := by
  cases hstep with
  | exhausted hzero => exact absurd hzero hbudget
  | simpleNext _ _ hmore => exact Or.inl ⟨hmore, rfl⟩
  | elementsDone _ _ hdone => exact Or.inr ⟨hdone, rfl⟩
  | _ => simp_all

/-- The moves from the begin of an array of simple elements. -/
theorem MoveStep.simpleArrayBegin {result : Bool × EventHeaderEnumeratorContext}
    (hstep : MoveStep build data c result) (hbudget : c.moveNextRemaining ≠ 0)
    (hsubstate : c.substate = .arrayBegin) (hsize : c.elementSize ≠ 0)
    (hstruct : FieldEncoding.withoutFlags c.fieldType.encoding ≠ FieldEncoding.struct) :
    c.stackTop.arrayCount = 0 ∧ result = (true, c.spend.atArrayEnd) ∨
      c.stackTop.arrayCount ≠ 0 ∧ result = (true, c.spend.atSimpleElement) := by
  cases hstep with
  | exhausted hzero => exact absurd hzero hbudget
  | arrayEmpty _ _ hcount => exact Or.inl ⟨hcount, rfl⟩
  | simpleFirst _ _ hcount => exact Or.inr ⟨hcount, rfl⟩
  | _ => simp_all

/-- The end of the array that `c` stands in, behind its elements. -/
def behindElements (c : EventHeaderEnumeratorContext) (dataPosRaw budget : ℕ) :
    EventHeaderEnumeratorContext :=
  { c with
    dataPosRaw := dataPosRaw
    stackTop := { c.stackTop with arrayIndex := c.stackTop.arrayCount }
    moveNextRemaining := budget }.atArrayEnd

/-- The position behind the current element and those that follow it in the array. -/
def elementsEnd (c : EventHeaderEnumeratorContext) : ℕ :=
  c.dataPosRaw + (c.stackTop.arrayCount - c.stackTop.arrayIndex) * c.elementSize

theorem elementsEnd_nextElement (hlt : c.stackTop.arrayIndex < c.stackTop.arrayCount)
    (hraw : c.itemSizeRaw = c.elementSize) :
    c.spend.pastItem.nextElement.atSimpleElement.elementsEnd = c.elementsEnd := by
  show c.dataPosRaw + c.itemSizeRaw +
    (c.stackTop.arrayCount - (c.stackTop.arrayIndex + 1)) * c.elementSize =
      c.dataPosRaw + (c.stackTop.arrayCount - c.stackTop.arrayIndex) * c.elementSize
  have hsucc : c.stackTop.arrayCount - c.stackTop.arrayIndex =
      c.stackTop.arrayCount - (c.stackTop.arrayIndex + 1) + 1 := by omega
  rw [hsucc, Nat.succ_mul, hraw]
  omega

/-- A context at the end of the array, with all elements behind it. -/
theorem atArrayEnd_eq_behindElements {start pos budget : ℕ} (index : ℕ) (hpos : start = pos)
    (hindex : index = c.stackTop.arrayCount) :
    { c with
      dataPosRaw := start
      stackTop := { c.stackTop with arrayIndex := index }
      moveNextRemaining := budget }.atArrayEnd = c.behindElements pos budget := by
  subst hpos hindex
  rfl

/-- What describes the current element does not matter behind the elements. -/
theorem behindElements_nextElement (pos budget : ℕ) :
    c.spend.pastItem.nextElement.atSimpleElement.behindElements pos budget =
      c.behindElements pos budget := by
  simp only [behindElements, atArrayEnd, setEndState, atSimpleElement, withItem, setState,
    nextElement, pastItem, spend]

theorem behindElements_first (pos budget : ℕ) :
    c.spend.atSimpleElement.behindElements pos budget = c.behindElements pos budget := by
  simp only [behindElements, atArrayEnd, setEndState, atSimpleElement, withItem, setState, spend]

/-- The last element ends where the array does. -/
theorem lastElement_eq_behindElements (hdone : c.stackTop.arrayCount = c.stackTop.arrayIndex + 1)
    (hraw : c.itemSizeRaw = c.elementSize) :
    c.spend.pastItem.nextElement.atArrayEnd =
      c.behindElements c.elementsEnd (c.moveNextRemaining - 1) := by
  have hpos : c.dataPosRaw + c.itemSizeRaw = c.elementsEnd := by
    unfold elementsEnd
    rw [hraw, hdone, Nat.add_sub_cancel_left, Nat.one_mul]
  exact atArrayEnd_eq_behindElements _ hpos hdone.symm

/-- From an element of simple type, inside another item, the plain traversal gets to the end of the
array. -/
theorem plainSiblingLoop_elements {fuel : ℕ} {depth : ℤ}
    {result : Bool × EventHeaderEnumeratorContext} (h : EnumeratorInv data c)
    (hsubstate : c.substate = .valueSimpleArrayElement) (hdepth : 0 < depth)
    (hplain : plainSiblingLoop build data fuel depth c = .ok result)
    (hlimit : result.2.lastError ≠ .implementationLimit) :
    ∃ fuel' budget, fuel' < fuel ∧ budget ≤ c.moveNextRemaining ∧
      EnumeratorInv data (c.behindElements c.elementsEnd budget) ∧
      plainSiblingLoop build data fuel' depth (c.behindElements c.elementsEnd budget) =
        .ok result := by
  induction fuel generalizing c with
  | zero => cases hplain
  | succ fuel ih =>
    have hvalue : c.substate ≠ .valueMetadata := by
      rw [hsubstate]
      decide
    have hstate : c.state = .value := by
      rw [h.state_eq hvalue, hsubstate]
      rfl
    have hitem : SimpleElement data c := by
      have hitem := h.item
      unfold ItemInv at hitem
      simpa only [hsubstate] using hitem
    obtain ⟨hbudget, next, _, hstep, houtcome⟩ := plainSiblingLoop_succ h
      (by rw [hstate]; rfl) hvalue hplain hlimit
    have hinv := (hstep.moved h).inv
    rw [hstate] at houtcome
    -- a value keeps the depth, so that the traversal goes on from the next item
    have hgoesOn : next.1 = true →
        plainSiblingLoop build data fuel depth next.2 = .ok result := by
      intro hmoved
      rcases houtcome with ⟨hstop | hstop, _⟩ | ⟨_, _, hrun⟩
      · rw [hmoved] at hstop
        cases hstop
      · exact absurd hdepth (not_lt.mpr hstop)
      · exact hrun
    rcases hstep.simpleElement hbudget hsubstate with ⟨_, rfl⟩ | ⟨hdone, rfl⟩
    · obtain ⟨fuel', budget, hfuel, hle, hinv', hrun⟩ := ih hinv rfl (hgoesOn rfl)
      have hend := elementsEnd_nextElement hitem.index_lt hitem.raw_eq
      have hle' : budget ≤ c.moveNextRemaining - 1 := hle
      dsimp only at hrun hinv'
      rw [hend, behindElements_nextElement] at hrun hinv'
      exact ⟨fuel', budget, by omega, by omega, hinv', hrun⟩
    · have heq := lastElement_eq_behindElements hdone hitem.raw_eq
      dsimp only at hinv hgoesOn
      rw [heq] at hinv hgoesOn
      exact ⟨fuel, c.moveNextRemaining - 1, Nat.lt_succ_self _, Nat.sub_le _ _, hinv, hgoesOn rfl⟩

/-- From the begin of an array of simple elements the plain traversal gets to the end of the
array, one level deeper. -/
theorem plainSiblingLoop_array {fuel : ℕ} {depth : ℤ}
    {result : Bool × EventHeaderEnumeratorContext} (h : EnumeratorInv data c)
    (hstate : c.state = .arrayBegin) (hvalue : c.substate ≠ .valueMetadata)
    (hsize : c.elementSize ≠ 0) (hdepth : 0 ≤ depth)
    (hplain : plainSiblingLoop build data fuel depth c = .ok result)
    (hlimit : result.2.lastError ≠ .implementationLimit) :
    ∃ fuel' budget, fuel' < fuel ∧ budget ≤ c.moveNextRemaining ∧
      EnumeratorInv data (c.behindElements
        (c.dataPosRaw + c.stackTop.arrayCount * c.elementSize) budget) ∧
      plainSiblingLoop build data fuel' (depth + 1) (c.behindElements
        (c.dataPosRaw + c.stackTop.arrayCount * c.elementSize) budget) = .ok result := by
  obtain ⟨hsubstate, hitem⟩ := h.arrayBegin hstate hvalue
  cases fuel with
  | zero => cases hplain
  | succ fuel =>
    obtain ⟨hbudget, next, _, hstep, houtcome⟩ := plainSiblingLoop_succ h
      (by rw [hstate]; rfl) hvalue hplain hlimit
    have hinv := (hstep.moved h).inv
    rw [hstate] at houtcome
    have hgoesOn : next.1 = true →
        plainSiblingLoop build data fuel (depth + 1) next.2 = .ok result := by
      intro hmoved
      rcases houtcome with ⟨hstop | hstop, _⟩ | ⟨_, _, hrun⟩
      · rw [hmoved] at hstop
        cases hstop
      · have hstop' : depth + 1 ≤ 0 := hstop
        omega
      · exact hrun
    rcases hstep.simpleArrayBegin hbudget hsubstate hsize (hitem.notStruct hsize) with
      ⟨hcount, rfl⟩ | ⟨_, rfl⟩
    · have heq : c.spend.atArrayEnd = c.behindElements
          (c.dataPosRaw + c.stackTop.arrayCount * c.elementSize) (c.moveNextRemaining - 1) := by
        refine atArrayEnd_eq_behindElements c.stackTop.arrayIndex ?_ ?_
        · show c.dataPosRaw = _
          rw [hcount, Nat.zero_mul, Nat.add_zero]
        · rw [hitem.index_eq, hcount]
      dsimp only at hinv hgoesOn
      rw [heq] at hinv hgoesOn
      exact ⟨fuel, c.moveNextRemaining - 1, Nat.lt_succ_self _, Nat.sub_le _ _, hinv, hgoesOn rfl⟩
    · obtain ⟨fuel', budget, hfuel, hle, hinv', hrun⟩ :=
        plainSiblingLoop_elements hinv rfl (by omega) (hgoesOn rfl) hlimit
      have hend : c.spend.atSimpleElement.elementsEnd =
          c.dataPosRaw + c.stackTop.arrayCount * c.elementSize := by
        show c.dataPosRaw + (c.stackTop.arrayCount - c.stackTop.arrayIndex) * c.elementSize = _
        rw [hitem.index_eq, Nat.sub_zero]
      have hle' : budget ≤ c.moveNextRemaining - 1 := hle
      dsimp only at hrun hinv'
      rw [hend, behindElements_first] at hrun hinv'
      exact ⟨fuel', budget, by omega, by omega, hinv', hrun⟩

/-! ### The sibling move follows the plain traversal -/

/-- From behind the elements of an array of simple elements, `move_next` goes to the next
property. -/
theorem moveNextImpl_behindElements (hitem : ArrayBeginItem data c) (hsize : c.elementSize ≠ 0)
    {pos budget : ℕ} (hbudget : budget ≠ 0) :
    moveNextImpl build data (c.behindElements pos budget) =
      nextProperty build data (c.behindElements pos (budget - 1)) := by
  have hnotStruct := hitem.notStruct hsize
  unfold moveNextImpl
  rw [debugAssert_of (by rfl), ok_bind, if_neg (by exact hbudget)]
  show moveNextArrayEnd build data (c.behindElements pos (budget - 1)) = _
  unfold moveNextArrayEnd
  rw [debugAssert_of (by rfl), ok_bind, debugAssert_of (by exact hitem.array), ok_bind,
    debugAssert_of (by rfl), ok_bind, if_neg (fun hskip ↦ hnotStruct hskip.1)]

/-- The jump goes to the same next property, with stale fields. -/
theorem jumped_eq_between (pos budget other : ℕ) (hpos : pos = c.dataPosRaw +
    c.stackTop.arrayCount * c.elementSize) :
    (c.withBudget other).jumped = (c.behindElements pos budget).between c.stackTop.arrayIndex
      c.dataPosCooked c.itemSizeRaw c.itemSizeCooked (other - 1) c.state c.substate := by
  subst hpos
  simp only [jumped, withBudget, behindElements, between, restale, setState, atArrayEnd,
    setEndState]

/-- Assumes: the invariant, at an array of simple elements in which the plain traversal does not
run out of budget. The jump over the array ends as the `move_next` from its end. -/
theorem jumpArray_related (build : Build) (h : EnumeratorInv data c) (hvalue : c.substate ≠ .valueMetadata)
    {pos budget other : ℕ} (hjump : CanJumpArray (c.withBudget other))
    (hpos : pos = c.dataPosRaw + c.stackTop.arrayCount * c.elementSize) (hbudget : budget ≠ 0)
    (hinv : EnumeratorInv data (c.behindElements pos budget)) :
    Related (SameOutcome (other - 1)) (moveNextImpl build data (c.behindElements pos budget))
      (jumpArray build data (c.withBudget other)) := by
  obtain ⟨hstate, hcan⟩ := hjump
  have hsize : c.elementSize ≠ 0 := (not_or.mp hcan).1
  obtain ⟨hsubstate, hitem⟩ := h.arrayBegin hstate hvalue
  rw [moveNextImpl_behindElements hitem hsize hbudget]
  unfold jumpArray
  rw [debugAssert_of (by exact hsubstate), ok_bind,
    debugAssert_of (by exact hitem.notStruct hsize), ok_bind,
    debugAssert_of (by exact hitem.array), ok_bind, debugAssert_of (by exact hitem.index_eq),
    ok_bind]
  have hspend : Positioned data (c.behindElements pos (budget - 1)) := hinv.positioned.spend
  have hrelated := nextProperty_related c.stackTop.arrayIndex c.dataPosCooked
    c.itemSizeRaw c.itemSizeCooked (other - 1) c.state c.substate build hspend
  rw [← jumped_eq_between pos (budget - 1) other hpos] at hrelated
  exact hrelated

/-- Assumes: the invariant, in a state of value enumeration that allows a move, and a plain
traversal that does not run out of budget. The sibling loop, with at least that budget, ends as the
plain traversal. -/
theorem moveNextSiblingLoop_refines (fuel : ℕ) {fuel' budget : ℕ} {depth : ℤ}
    {result : Bool × EventHeaderEnumeratorContext} (h : EnumeratorInv data c)
    (hmove : c.state.canMoveNext = true) (hvalue : c.substate ≠ .valueMetadata)
    (hdepth : 0 ≤ depth) (hbudget : c.moveNextRemaining ≤ budget) (hfuel : budget < fuel')
    (hplain : plainSiblingLoop build data fuel depth c = .ok result)
    (hlimit : result.2.lastError ≠ .implementationLimit) :
    ∃ result' other, moveNextSiblingLoop build data fuel' depth (c.withBudget budget) = .ok result' ∧
      SameOutcome other result result' ∧ Moved data c result := by
  induction fuel using Nat.strong_induction_on generalizing fuel' budget depth c with
  | _ fuel ih =>
  obtain ⟨fuel', rfl⟩ := Nat.exists_eq_succ_of_ne_zero (Nat.ne_zero_of_lt hfuel)
  cases fuel with
  | zero => cases hplain
  | succ fuel =>
    obtain ⟨hremaining, next, hnext, hstep, houtcome⟩ :=
      plainSiblingLoop_succ h hmove hvalue hplain hlimit
    -- both loops stop after a move, or go on from contexts that differ in the budget
    have hfollow : ∀ {after second : Bool × EventHeaderEnumeratorContext} {fuelNext : ℕ}
        {depthNext : ℤ}, fuelNext ≤ fuel → SameOutcome (budget - 1) after second →
        Moved data c after → after.2.moveNextRemaining + 1 ≤ c.moveNextRemaining →
        ((after.1 = false ∨ depthNext ≤ 0) ∧ result = after ∨
          after.1 = true ∧ 0 < depthNext ∧
            plainSiblingLoop build data fuelNext depthNext after.2 = .ok result) →
        ∃ result' other,
          (if ¬second.1 = true ∨ depthNext ≤ 0 then .ok (second.1, second.2)
            else moveNextSiblingLoop build data fuel' depthNext second.2) = .ok result' ∧
          SameOutcome other result result' ∧ Moved data c result := by
      intro after second fuelNext depthNext hfuelNext hsame hmoved hcost houtcome
      rcases houtcome with ⟨hstop, rfl⟩ | ⟨hgoesOn, hpositive, hrun⟩
      · have hstop' : ¬second.1 = true ∨ depthNext ≤ 0 := by
          cases hsame with
          | item => exact hstop.imp (by simp) id
          | ended => exact Or.inl (by simp)
        exact ⟨second, budget - 1, if_pos hstop', hsame, hmoved⟩
      · cases hsame with
        | ended => cases hgoesOn
        | item middle =>
          rw [if_neg (not_or.mpr ⟨not_not.mpr rfl, not_le.mpr hpositive⟩)]
          obtain ⟨result', other, hsibling, hend, hmovedEnd⟩ := @ih fuelNext (by omega)
            middle fuel' (budget - 1) depthNext hmoved.inv hmoved.stops hmoved.value hpositive.le
            (by dsimp only at hcost; omega) (by omega) hrun
          exact ⟨result', other, hsibling, hend, hmovedEnd.of_frame hmoved.frame_eq⟩
    rw [moveNextSiblingLoop]
    by_cases hjump : CanJumpArray (c.withBudget budget)
    · -- the plain traversal goes through the elements to the end of the array
      have hsize : c.elementSize ≠ 0 := (not_or.mp hjump.2).1
      obtain ⟨fuelEnd, budgetEnd, hfuelEnd, hbudgetEnd, hinvEnd, hplainEnd⟩ :=
        plainSiblingLoop_array h hjump.1 hvalue hsize hdepth hplain hlimit
      cases fuelEnd with
      | zero => cases hplainEnd
      | succ fuelEnd =>
        obtain ⟨hremainingEnd, nextEnd, hnextEnd, hstepEnd, houtcomeEnd⟩ :=
          plainSiblingLoop_succ hinvEnd rfl (fun heq ↦ by cases heq) hplainEnd hlimit
        obtain ⟨second, hsecond, hsame⟩ := (jumpArray_related build h hvalue hjump rfl
          hremainingEnd hinvEnd).of_left_ok hnextEnd
        have hdepthEnd : siblingDepth (depth + 1) .arrayEnd = depth :=
          add_sub_cancel_right depth 1
        rw [show (c.behindElements _ budgetEnd).state = .arrayEnd from rfl, hdepthEnd]
          at houtcomeEnd
        have hcost : nextEnd.2.moveNextRemaining + 1 = budgetEnd :=
          hstepEnd.remaining_eq hremainingEnd
        rw [if_pos hjump, hsecond, ok_bind]
        exact hfollow (by omega) hsame ((hstepEnd.moved hinvEnd).of_frame rfl) (by omega)
          houtcomeEnd
    · obtain ⟨second, hsecond, hsame⟩ := (@moveNextImpl_related _ _ build h budget
        hremaining (by omega)).of_left_ok hnext
      have hcost := hstep.remaining_eq hremaining
      rw [if_neg hjump, hsecond, ok_bind]
      exact hfollow le_rfl hsame (hstep.moved h) hcost.le houtcome

/-- Assumes: the invariant, in a state of value enumeration that allows a move, and more iterations
than budget. The plain traversal ends. -/
theorem plainSiblingLoop_returns (fuel : ℕ) (depth : ℤ) (h : EnumeratorInv data c)
    (hmove : c.state.canMoveNext = true) (hvalue : c.substate ≠ .valueMetadata)
    (hfuel : c.moveNextRemaining < fuel) :
    ReturnsUnless (CounterOverflow build) (plainSiblingLoop build data fuel depth c)
      fun _ ↦ True := by
  induction fuel generalizing depth c with
  | zero => omega
  | succ fuel ih =>
    rw [plainSiblingLoop]
    refine ReturnsUnless.bind (moveNextImpl_returns h hmove hvalue) ?_
    rintro ⟨movedToItem, next⟩ hstep
    have hmoved := hstep.moved h
    refine ReturnsUnless.ite (fun _ ↦ .of_returns (Returns.ok trivial)) (fun hmore ↦ ?_)
    have htrue : movedToItem = true := by simpa using (not_or.mp hmore).1
    have hremaining := hstep.remaining_of_moved htrue
    exact ih (c := next) _ hmoved.inv (hmoved.stops.trans htrue) hmoved.value (by
      dsimp only at hremaining
      omega)

/-- Away from the begin of an array or a struct the sibling move is one `move_next`. -/
theorem moveNextSiblingImpl_eq_moveNextImpl (hmove : c.state.canMoveNext = true)
    (harray : c.state ≠ .arrayBegin) (hstruct : c.state ≠ .structBegin) :
    moveNextSiblingImpl build data c = moveNextImpl build data c := by
  have hdepth : siblingDepth 0 c.state ≤ 0 := by
    cases hstate : c.state <;> simp_all [siblingDepth]
  have hstop : ∀ movedToItem : Bool, ¬movedToItem = true ∨ siblingDepth 0 c.state ≤ 0 :=
    fun _ ↦ Or.inr hdepth
  unfold moveNextSiblingImpl
  rw [debugAssert_of hmove, ok_bind, moveNextSiblingLoop, if_neg fun hjump ↦ harray hjump.1]
  simp only [hstop, if_true]
  cases moveNextImpl build data c <;> rfl

/-- Assumes: an event that `enumerate_with_name_and_data` accepts, and a state of value enumeration
that permitted operations reach from there and that allows a move. For every budget the sibling
move ends. Where the plain traversal ends within its budget, the sibling move returns the same
result in a context with the same behaviour. Away from the begin of an array or a struct it is one
`move_next`. -/
theorem moveNextSibling_refines (build : Build) (context : EventHeaderEnumeratorContext)
    (tracepointName data : List UInt8) (limit : ℕ) (start c : EventHeaderEnumeratorContext)
    (haccept : enumerateWithNameAndData data context tracepointName limit = .ok (.ok (), start))
    (hreaches : EnumeratorReaches build data start c) (hmove : c.state.canMoveNext = true)
    (hvalue : c.substate ≠ .valueMetadata) :
    (∀ budget, moveNextSiblingImpl build data (c.withBudget budget) ≠ .error .unfinished) ∧
      plainSiblingLoop build data (c.moveNextRemaining + 1) 0 c ≠ .error .unfinished ∧
      (∀ result plain, plainSiblingLoop build data (c.moveNextRemaining + 1) 0 c =
          .ok (result, plain) → plain.lastError ≠ .implementationLimit →
        ∃ sibling, moveNextSiblingImpl build data c = .ok (result, sibling) ∧
          SameBehaviour build data plain sibling) ∧
      (c.state ≠ .arrayBegin → c.state ≠ .structBegin →
        moveNextSiblingImpl build data c = moveNextImpl build data c) := by
  obtain ⟨hstart, _⟩ :=
    (enumerateWithNameAndData_returns tracepointName limit).of_eq_ok haccept rfl
  obtain ⟨hinv, _⟩ := hstart.reaches hreaches
  refine ⟨fun budget hunfinished ↦ ?_, fun hunfinished ↦ ?_, fun result plain hplain hlimit ↦ ?_,
    moveNextSiblingImpl_eq_moveNextImpl hmove⟩
  · cases ((moveNextSiblingImpl_returns (hinv.withBudget budget) hmove hvalue).of_eq_error
      hunfinished).1
  · cases ((plainSiblingLoop_returns _ 0 hinv hmove hvalue (Nat.lt_succ_self _)).of_eq_error
      hunfinished).1
  · obtain ⟨⟨result', sibling⟩, other, hsibling, hsame, hmoved⟩ := moveNextSiblingLoop_refines
      (c.moveNextRemaining + 1) hinv hmove hvalue le_rfl le_rfl (Nat.lt_succ_self _) hplain hlimit
    obtain ⟨hresult, hbehaviour⟩ := hsame.sameBehaviour build hmoved
    obtain rfl : result = result' := hresult
    refine ⟨sibling, ?_, hbehaviour⟩
    unfold moveNextSiblingImpl
    rw [debugAssert_of hmove, ok_bind]
    exact hsibling

/-- An event `n` with an array `a` of two `u16` elements and a `u8` field `b`. -/
def sampleArrayEvent : List UInt8 :=
  [6, 0, 0, 0, 0, 0, 0, 5] ++ [8, 0, 1, 0] ++ [110, 0, 97, 0, 67, 98, 0, 2] ++ [2, 0, 1, 0, 2, 0, 7]

/-- The array event before its first item. -/
def sampleArrayStart : EventHeaderEnumeratorContext :=
  contextOf (enumerateWithNameAndData sampleArrayEvent new sampleName 10)

/-- The array event at the begin of its array. -/
def sampleArrayBegin : EventHeaderEnumeratorContext :=
  contextOf (moveNextImpl ⟨true, .little, true⟩ sampleArrayEvent sampleArrayStart)

/-- The array event behind its array, reached by plain moves. -/
def sampleArrayPlain : EventHeaderEnumeratorContext :=
  contextOf (plainSiblingLoop ⟨true, .little, true⟩ sampleArrayEvent
    (sampleArrayBegin.moveNextRemaining + 1) 0 sampleArrayBegin)

/-- From the begin of the array the sibling move and four plain moves arrive at the field behind
it. -/
theorem sampleArrayEvent_refines :
    sampleArrayBegin.state = .arrayBegin ∧ sampleArrayPlain.state = .value ∧
      ∃ sibling, moveNextSiblingImpl ⟨true, .little, true⟩ sampleArrayEvent sampleArrayBegin =
          .ok (true, sibling) ∧
        SameBehaviour ⟨true, .little, true⟩ sampleArrayEvent sampleArrayPlain sibling := by
  have haccept : enumerateWithNameAndData sampleArrayEvent new sampleName 10 =
      .ok (.ok (), sampleArrayStart) := by decide +kernel
  have hfirst : moveNextImpl ⟨true, .little, true⟩ sampleArrayEvent sampleArrayStart =
      .ok (true, sampleArrayBegin) := by decide +kernel
  have hpermitted : EnumeratorOp.moveNext.Permitted sampleArrayStart := by decide +kernel
  have hstate : sampleArrayBegin.state = .arrayBegin := by decide +kernel
  have hplain : plainSiblingLoop ⟨true, .little, true⟩ sampleArrayEvent
      (sampleArrayBegin.moveNextRemaining + 1) 0 sampleArrayBegin =
        .ok (true, sampleArrayPlain) := by decide +kernel
  obtain ⟨_, _, hrefines, _⟩ := moveNextSibling_refines ⟨true, .little, true⟩ new sampleName
    sampleArrayEvent 10 sampleArrayStart sampleArrayBegin haccept (.step .refl hpermitted hfirst)
    (by rw [hstate]; rfl) (by decide +kernel)
  exact ⟨hstate, by decide +kernel, hrefines true sampleArrayPlain hplain (by decide +kernel)⟩

end EventHeaderEnumeratorContext

end Tracepoints
