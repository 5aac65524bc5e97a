import Mathlib.Logic.Function.Basic
import Tracepoints.Builder.EventBuilder

/-!
# Bookmarks of structures

`add_struct_with_bookmark` returns where the number of fields of a structure is in the metadata, and
`set_struct_field_count` changes it there, after any number of other calls. `EventBuilder.setCount` is
the change; it commutes with every call (`AddCall.run_setCount`) as the other bookmarks are elsewhere.

`EventBuilder.bookmark_law` is the result: a structure whose number of fields is set late is as one that
had it from the begin.
-/

set_option autoImplicit false
set_option relaxedAutoImplicit false

namespace Tracepoints

open Exec

/-! ### Calls with bookmarks -/

/-- A call that adds a field, or one with a bookmark, which the caller keeps in a variable. -/
inductive AddCall
  | field (call : FieldCall)
  | addStructWithBookmark (fieldName : List UInt8) (initialStructFieldCount : UInt8)
      (fieldTag : UInt16) (slot : ℕ)
  | setStructFieldCount (slot : ℕ) (updatedStructFieldCount : UInt8)

/-- A builder and the bookmarks in the variables of its caller. -/
abbrev BuilderState := EventBuilder × (ℕ → ℕ)

def AddCall.run (build : Build) (state : BuilderState) : AddCall → Exec BuilderState
  | field call => do
    let builder ← call.run build state.1
    .ok (builder, state.2)
  | addStructWithBookmark name count tag slot => do
    let (builder, bookmark) ← state.1.addStructWithBookmark build name tag count
    .ok (builder, Function.update state.2 slot bookmark)
  | setStructFieldCount slot count => do
    let builder ← state.1.setStructFieldCount build (state.2 slot) count
    .ok (builder, state.2)

/-- A sequence of calls. -/
def runCalls (build : Build) (calls : List AddCall) (state : BuilderState) : Exec BuilderState :=
  calls.foldlM (AddCall.run build) state

/-! ### Setting a count -/

namespace EventBuilder

variable {build : Build}

/-- A byte of the metadata with another number of fields in its low bits. -/
def setCount (builder : EventBuilder) (bookmark : ℕ) (count : UInt8) : EventBuilder :=
  { builder with metadata := builder.metadata.modify bookmark fun byte ↦ (byte &&& 0x80) ||| count }

theorem length_setCount (builder : EventBuilder) (bookmark : ℕ) (count : UInt8) :
    (builder.setCount bookmark count).metadata.length = builder.metadata.length :=
  List.length_modify _ _ _

theorem setStructFieldCount_eq (builder : EventBuilder) (bookmark : ℕ) (count : UInt8) :
    builder.setStructFieldCount build bookmark count = (do
      let masked ← maskFieldCount build count
      if bookmark < builder.metadata.length then .ok (builder.setCount bookmark masked)
      else .error .indexOutOfRange) := by
  unfold setStructFieldCount setCount
  congr 1
  funext masked
  by_cases hlt : bookmark < builder.metadata.length
  · have hset : builder.metadata.set bookmark ((builder.metadata[bookmark] &&& 0x80) ||| masked) =
        builder.metadata.modify bookmark fun byte ↦ (byte &&& 0x80) ||| masked := by
      rw [List.modify_eq_set, List.getElem?_eq_getElem hlt, Option.getD_some]
    rw [if_pos hlt, byteAt_of_lt hlt, ok_bind]
    unfold setAt
    rw [if_pos hlt, ok_bind, hset]
  · rw [if_neg hlt]
    unfold byteAt
    rw [List.getElem?_eq_none (by omega)]
    rfl

theorem modify_append_left {first second : List UInt8} {index : ℕ} (f : UInt8 → UInt8)
    (h : index < first.length) : (first ++ second).modify index f = first.modify index f ++ second := by
  rw [List.modify_eq_set, List.modify_eq_set, List.set_append_left _ _ h,
    List.getElem?_append_left h]

theorem append_setCount {builder : EventBuilder} {bookmark : ℕ}
    (h : bookmark < builder.metadata.length) (count : UInt8) (metaBytes dataBytes : List UInt8) :
    (builder.append metaBytes dataBytes).setCount bookmark count =
      (builder.setCount bookmark count).append metaBytes dataBytes := by
  unfold append setCount
  dsimp only
  rw [modify_append_left _ h]

theorem setCount_comm (builder : EventBuilder) {first second : ℕ} (h : first ≠ second)
    (count count' : UInt8) :
    (builder.setCount first count).setCount second count' =
      (builder.setCount second count').setCount first count := by
  unfold setCount
  dsimp only
  rw [List.modify_modify_ne _ _ _ h]

/-! ### The place of the count -/

/-- A masked number of fields has no flag. -/
theorem mask_flag (count other : UInt8) :
    ((count &&& FieldFormat.valueMask) &&& 0x80) ||| other = other ∧
      ((0x80 ||| count) &&& 0x80) ||| other = 0x80 ||| other := by
  have hzero : (count &&& FieldFormat.valueMask) &&& 0x80 = 0 := by
    cases count with
    | ofBitVec bits =>
      revert bits
      decide +kernel
  have hflag : (0x80 ||| count) &&& 0x80 = 0x80 := by
    cases count with
    | ofBitVec bits =>
      revert bits
      decide +kernel
  rw [hzero, hflag]
  exact ⟨UInt8.zero_or, rfl⟩

/-- The number of fields is the second byte behind the name and its terminator. -/
theorem fieldBytes_struct {count other : UInt8} (name : List UInt8) (tag : UInt16)
    (hcount : count &&& FieldFormat.valueMask ≠ 0) (hother : other ≠ 0) :
    ∃ rest, rest.length = (if tag = 0 then 0 else 2) ∧
      fieldBytes build name .struct (count &&& FieldFormat.valueMask) tag =
        name ++ 0 :: 0x81 :: (if tag = 0 then count &&& FieldFormat.valueMask
          else 0x80 ||| (count &&& FieldFormat.valueMask)) :: rest ∧
      fieldBytes build name .struct other tag =
        name ++ 0 :: 0x81 :: (if tag = 0 then other else 0x80 ||| other) :: rest := by
  unfold fieldBytes typeBytes
  by_cases htag : tag = 0
  · rw [if_neg (not_not.mpr htag), if_neg (not_not.mpr htag), if_pos hcount, if_pos hother,
      if_pos htag, if_pos htag, if_pos htag]
    exact ⟨[], rfl, rfl, rfl⟩
  · rw [if_pos htag, if_pos htag, if_neg htag, if_neg htag, if_neg htag]
    exact ⟨build.targetEndian.toBytes 2 tag.toNat, ByteOrder.length_toBytes _ _ _, rfl, rfl⟩

theorem masked_ne_zero {count masked : UInt8} (h : maskFieldCount build count = .ok masked) :
    masked ≠ 0 := by
  unfold maskFieldCount at h
  obtain ⟨-, -, h⟩ := bind_eq_ok.mp h
  split_ifs at h with hmasked
  rw [← Except.ok.inj h]
  exact hmasked

/-- A structure with a bookmark is added as one without, and the bookmark is where its number of fields
is. -/
theorem addStructWithBookmark_eq (builder : EventBuilder) (name : List UInt8) (tag : UInt16)
    (count : UInt8) :
    builder.addStructWithBookmark build name tag count = (do
      let builder' ← builder.addStruct build name tag count
      .ok (builder', builder.metadata.length + name.length + 2)) := by
  unfold addStructWithBookmark addStruct
  cases hmask : maskFieldCount build count with
  | error fault => rfl
  | ok masked =>
    have hnonzero := masked_ne_zero hmask
    obtain rfl := eq_of_maskFieldCount hmask
    obtain ⟨rest, hrest, hbytes, -⟩ := @fieldBytes_struct build _ _ name tag hnonzero hnonzero
    rw [ok_bind, ok_bind, rawAddMeta_eq]
    cases debugAssert build (0 ∉ name) with
    | error fault => rfl
    | ok _ =>
      have hlength : (builder.append (fieldBytes build name .struct
          (count &&& FieldFormat.valueMask) tag) []).metadata.length =
          builder.metadata.length + name.length + 2 + (if tag = 0 then 1 else 3) := by
        unfold append
        dsimp only
        rw [hbytes, List.length_append, List.length_append, List.length_cons, List.length_cons,
          List.length_cons, hrest]
        split_ifs <;> omega
      rw [ok_bind, ok_bind, ok_bind, sub_of_le (by omega), hlength, ok_bind, Nat.add_sub_cancel]

/-- Setting the number of fields of a structure gives the structure with that number. -/
theorem setCount_addStruct {builder : EventBuilder} (name : List UInt8) (tag : UInt16)
    {count masked : UInt8} (hcount : count &&& FieldFormat.valueMask ≠ 0) (hmasked : masked ≠ 0) :
    (builder.append (fieldBytes build name .struct (count &&& FieldFormat.valueMask) tag) []).setCount
      (builder.metadata.length + name.length + 2) masked =
      builder.append (fieldBytes build name .struct masked tag) [] := by
  obtain ⟨rest, -, hold, hnew⟩ := @fieldBytes_struct build _ _ name tag hcount hmasked
  have hbyte : ((if tag = 0 then count &&& FieldFormat.valueMask
      else 0x80 ||| (count &&& FieldFormat.valueMask)) &&& 0x80) ||| masked =
      if tag = 0 then masked else 0x80 ||| masked := by
    split_ifs
    · exact (mask_flag count masked).1
    · exact (mask_flag _ masked).2
  have hsplit (byte : UInt8) : builder.metadata ++ (name ++ 0 :: 0x81 :: byte :: rest) =
      (builder.metadata ++ name ++ [0, 0x81]) ++ byte :: rest := by
    simp
  have hlength : builder.metadata.length + name.length + 2 =
      (builder.metadata ++ name ++ [0, 0x81]).length := by
    rw [List.length_append, List.length_append]
    rfl
  unfold setCount append
  dsimp only
  rw [hold, hnew, hsplit, hsplit, List.modify_eq_set, hlength, List.getElem?_append_right le_rfl,
    Nat.sub_self, List.getElem?_cons_zero, Option.getD_some, hbyte, List.set_append_right _ _ le_rfl,
    Nat.sub_self, List.set_cons_zero]

end EventBuilder

/-! ### Calls in between -/

section Between

open EventBuilder

variable {build : Build} {bookmark : ℕ} {count : UInt8}

/-- A place in the metadata that no variable is a bookmark of. -/
def Elsewhere (bookmark : ℕ) (state : BuilderState) : Prop :=
  bookmark < state.1.metadata.length ∧ ∀ slot, state.2 slot ≠ bookmark

/-- A state with another number of fields at a place. -/
def setCountState (bookmark : ℕ) (count : UInt8) (state : BuilderState) : BuilderState :=
  (state.1.setCount bookmark count, state.2)

/-- Every call appends to the metadata behind the place. -/
theorem elsewhere_append {state : BuilderState} (h : Elsewhere bookmark state)
    (metaBytes dataBytes : List UInt8) :
    Elsewhere bookmark (state.1.append metaBytes dataBytes, state.2) := by
  refine ⟨?_, h.2⟩
  have hlt := h.1
  unfold append
  dsimp only
  rw [List.length_append]
  omega

theorem field_setCount {state : BuilderState} (h : Elsewhere bookmark state) (call : FieldCall) :
    call.run build (state.1.setCount bookmark count) =
      (call.run build state.1).map (·.setCount bookmark count) ∧
    ∀ builder, call.run build state.1 = .ok builder →
      ∃ metaBytes dataBytes, builder = state.1.append metaBytes dataBytes := by
  rw [call.run_eq, call.run_eq]
  cases call.check build with
  | error fault =>
    refine ⟨rfl, fun builder hbuilder ↦ ?_⟩
    cases hbuilder
  | ok _ =>
    refine ⟨?_, fun builder hbuilder ↦ ⟨_, _, (Except.ok.inj hbuilder).symm⟩⟩
    rw [ok_bind, ok_bind, ← append_setCount h.1]
    rfl

/-- A call does the same before and after a number of fields is set that no bookmark is of. -/
theorem AddCall.run_setCount {state : BuilderState} (h : Elsewhere bookmark state)
    (call : AddCall) :
    call.run build (setCountState bookmark count state) =
      (call.run build state).map (setCountState bookmark count) ∧
    ∀ state', call.run build state = .ok state' → Elsewhere bookmark state' := by
  cases call with
  | field call =>
    obtain ⟨hrun, happend⟩ := @field_setCount build bookmark count state h call
    unfold AddCall.run setCountState
    dsimp only
    rw [hrun]
    cases hcall : call.run build state.1 with
    | error fault =>
      refine ⟨rfl, fun state' hstate' ↦ ?_⟩
      cases hstate'
    | ok builder =>
      refine ⟨rfl, fun state' hstate' ↦ ?_⟩
      obtain ⟨metaBytes, dataBytes, rfl⟩ := happend builder hcall
      obtain rfl := Except.ok.inj hstate'
      exact elsewhere_append h metaBytes dataBytes
  | addStructWithBookmark name initial tag slot =>
    obtain ⟨hrun, happend⟩ := @field_setCount build bookmark count state h (.addStruct name initial tag)
    unfold AddCall.run setCountState
    dsimp only
    rw [addStructWithBookmark_eq, addStructWithBookmark_eq, length_setCount]
    change ((FieldCall.addStruct name initial tag).run build (state.1.setCount bookmark count) >>= _) >>=
      _ = _ ∧ _
    rw [hrun]
    change _ = Except.map _ (((FieldCall.addStruct name initial tag).run build state.1 >>= _) >>= _) ∧
      ∀ _, (((FieldCall.addStruct name initial tag).run build state.1 >>= _) >>= _) = _ → _
    cases hcall : (FieldCall.addStruct name initial tag).run build state.1 with
    | error fault =>
      refine ⟨rfl, fun state' hstate' ↦ ?_⟩
      cases hstate'
    | ok builder =>
      refine ⟨rfl, fun state' hstate' ↦ ?_⟩
      obtain ⟨metaBytes, dataBytes, rfl⟩ := happend builder hcall
      obtain rfl := Except.ok.inj hstate'
      obtain ⟨hlt, hslots⟩ := elsewhere_append h metaBytes dataBytes
      refine ⟨hlt, fun other ↦ ?_⟩
      have hbookmark := h.1
      by_cases hslot : other = slot
      · dsimp only
        rw [hslot, Function.update_self]
        omega
      · dsimp only
        rw [Function.update_of_ne hslot]
        exact hslots other
  | setStructFieldCount slot updated =>
    unfold AddCall.run setCountState
    dsimp only
    rw [setStructFieldCount_eq, setStructFieldCount_eq, length_setCount]
    cases maskFieldCount build updated with
    | error fault =>
      refine ⟨rfl, fun state' hstate' ↦ ?_⟩
      cases hstate'
    | ok masked =>
      rw [ok_bind, ok_bind]
      by_cases hlt : state.2 slot < state.1.metadata.length
      · rw [if_pos hlt, if_pos hlt, ok_bind, ok_bind, setCount_comm _ (h.2 slot).symm]
        refine ⟨rfl, fun state' hstate' ↦ ?_⟩
        obtain rfl := Except.ok.inj hstate'
        refine ⟨?_, h.2⟩
        rw [length_setCount]
        exact h.1
      · rw [if_neg hlt, if_neg hlt]
        refine ⟨rfl, fun state' hstate' ↦ ?_⟩
        cases hstate'

theorem runCalls_setCount {state : BuilderState} (h : Elsewhere bookmark state)
    (calls : List AddCall) :
    runCalls build calls (setCountState bookmark count state) =
      (runCalls build calls state).map (setCountState bookmark count) ∧
    ∀ state', runCalls build calls state = .ok state' → Elsewhere bookmark state' := by
  unfold runCalls
  induction calls generalizing state with
  | nil =>
    refine ⟨rfl, fun state' hstate' ↦ ?_⟩
    obtain rfl := Except.ok.inj hstate'
    exact h
  | cons call calls ih =>
    obtain ⟨hrun, hkeeps⟩ := @AddCall.run_setCount build bookmark count state h call
    rw [List.foldlM_cons, List.foldlM_cons, hrun]
    cases hcall : call.run build state with
    | error fault =>
      refine ⟨rfl, fun state' hstate' ↦ ?_⟩
      cases hstate'
    | ok next => exact ih (hkeeps next hcall)

end Between

/-! ### The law -/

namespace EventBuilder

/-- A number of fields that the builder accepts. -/
def IsFieldCount (count : UInt8) : Prop := 1 ≤ count ∧ count ≤ 127

theorem maskFieldCount_of {count : UInt8} (h : IsFieldCount count) (build : Build) :
    maskFieldCount build count = .ok count := by
  have hmask : count &&& FieldFormat.valueMask = count ∧ count ≠ 0 := by
    obtain ⟨hle, hge⟩ := h
    cases count with
    | ofBitVec bits =>
      revert bits
      decide +kernel
  unfold maskFieldCount
  dsimp only
  rw [hmask.1, debugAssert_of rfl, ok_bind, if_pos hmask.2]

/-- A number of fields that is set late. -/
theorem setStructFieldCount_late {build : Build} {builder builder' : EventBuilder} {name : List UInt8}
    {tag : UInt16} {initial count : UInt8} {bookmark : ℕ} (hcount : IsFieldCount count)
    (hadd : builder.addStructWithBookmark build name tag initial = .ok (builder', bookmark))
    (calls : List AddCall) {bookmarks : ℕ → ℕ} (hother : ∀ slot, bookmarks slot ≠ bookmark) :
    (do let state ← runCalls build calls (builder', bookmarks)
        state.1.setStructFieldCount build bookmark count) =
    (do let builder' ← builder.addStruct build name tag count
        let state ← runCalls build calls (builder', bookmarks)
        .ok state.1) := by
  have hmask := maskFieldCount_of hcount build
  rw [addStructWithBookmark_eq] at hadd
  obtain ⟨added, hstruct, hpair⟩ := bind_eq_ok.mp hadd
  obtain ⟨rfl, rfl⟩ := Prod.mk.inj (Except.ok.inj hpair)
  unfold addStruct at hstruct ⊢
  obtain ⟨masked, hinitial, hmeta⟩ := bind_eq_ok.mp hstruct
  have hnonzero := masked_ne_zero hinitial
  obtain rfl := eq_of_maskFieldCount hinitial
  rw [rawAddMeta_eq] at hmeta
  obtain ⟨_, hname, hmeta⟩ := bind_eq_ok.mp hmeta
  obtain rfl := Except.ok.inj hmeta
  rw [hmask, ok_bind, rawAddMeta_eq, hname, ok_bind, ok_bind,
    ← setCount_addStruct name tag hnonzero (masked_ne_zero hmask)]
  -- Both sides run the calls on builders that differ in the number of fields only.
  have helsewhere : Elsewhere (builder.metadata.length + name.length + 2) (builder.append
      (fieldBytes build name .struct (initial &&& FieldFormat.valueMask) tag) [], bookmarks) := by
    refine ⟨?_, hother⟩
    unfold append fieldBytes typeBytes
    dsimp only
    rw [List.length_append, List.length_append, List.length_cons, if_pos hnonzero]
    split_ifs <;> simp <;> omega
  obtain ⟨hruns, hkeeps⟩ := @runCalls_setCount build _ count _ helsewhere calls
  unfold setCountState at hruns
  rw [hruns]
  cases hcalls : runCalls build calls (builder.append
      (fieldBytes build name .struct (initial &&& FieldFormat.valueMask) tag) [], bookmarks) with
  | error fault => rfl
  | ok state =>
    rw [ok_bind, setStructFieldCount_eq, hmask, ok_bind, if_pos (hkeeps state hcalls).1]
    rfl

theorem or_and_distrib (first second mask : UInt8) :
    (first ||| second) &&& mask = (first &&& mask) ||| (second &&& mask) := by
  apply UInt8.eq_of_toBitVec_eq
  rw [UInt8.toBitVec_and, UInt8.toBitVec_or, UInt8.toBitVec_or, UInt8.toBitVec_and,
    UInt8.toBitVec_and, BitVec.and_or_distrib_right]

/-- The bits of a byte with another number of fields. -/
theorem setCount_bits (old count : UInt8) :
    ((old &&& 0x80) ||| (count &&& FieldFormat.valueMask)) &&& 0x80 = old &&& 0x80 ∧
      ((old &&& 0x80) ||| (count &&& FieldFormat.valueMask)) &&& 0x7F = count &&& 0x7F := by
  have hzero : (count &&& FieldFormat.valueMask) &&& 0x80 = 0 ∧
      (count &&& FieldFormat.valueMask) &&& 0x7F = count &&& 0x7F := by
    cases count with
    | ofBitVec bits =>
      revert bits
      decide +kernel
  have hflag : (old &&& 0x80) &&& 0x80 = old &&& 0x80 ∧ (old &&& 0x80) &&& 0x7F = 0 := by
    cases old with
    | ofBitVec bits =>
      revert bits
      decide +kernel
  rw [or_and_distrib, or_and_distrib, hzero.1, hzero.2, hflag.1, hflag.2]
  exact ⟨UInt8.or_zero, UInt8.zero_or⟩

/-- A structure that is added with a bookmark and whose number of fields is set after some other calls
is as one that is added with that number. Setting a number of fields changes the low bits of one byte,
and through different bookmarks it commutes. -/
theorem bookmark_law (build : Build) :
    (∀ (builder builder' : EventBuilder) (name : List UInt8) (tag : UInt16) (initial count : UInt8)
        (bookmark : ℕ), IsFieldCount count →
      builder.addStructWithBookmark build name tag initial = .ok (builder', bookmark) →
      ∀ (calls : List AddCall) (bookmarks : ℕ → ℕ), (∀ slot, bookmarks slot ≠ bookmark) →
        (do let state ← runCalls build calls (builder', bookmarks)
            state.1.setStructFieldCount build bookmark count) =
        (do let builder' ← builder.addStruct build name tag count
            let state ← runCalls build calls (builder', bookmarks)
            .ok state.1)) ∧
    (∀ (builder builder' : EventBuilder) (bookmark : ℕ) (count : UInt8),
      builder.setStructFieldCount build bookmark count = .ok builder' →
      builder' = { builder with metadata := builder'.metadata } ∧
      builder'.metadata.length = builder.metadata.length ∧
      (∀ index, index ≠ bookmark → builder'.metadata[index]? = builder.metadata[index]?) ∧
      ∃ old new, builder.metadata[bookmark]? = some old ∧ builder'.metadata[bookmark]? = some new ∧
        new &&& 0x80 = old &&& 0x80 ∧ new &&& 0x7F = count &&& 0x7F) ∧
    ∀ (builder : EventBuilder) (first second : ℕ) (count count' : UInt8), first ≠ second →
      IsFieldCount count → IsFieldCount count' →
      (do let builder ← builder.setStructFieldCount build first count
          builder.setStructFieldCount build second count') =
      (do let builder ← builder.setStructFieldCount build second count'
          builder.setStructFieldCount build first count) := by
  refine ⟨?_, ?_, ?_⟩
  · intro builder builder' name tag initial count bookmark hcount hadd calls bookmarks hother
    exact setStructFieldCount_late hcount hadd calls hother
  · intro builder builder' bookmark count hset
    rw [setStructFieldCount_eq] at hset
    obtain ⟨masked, hmask, hset⟩ := bind_eq_ok.mp hset
    obtain rfl := eq_of_maskFieldCount hmask
    split_ifs at hset with hlt
    obtain rfl := Except.ok.inj hset
    refine ⟨rfl, length_setCount _ _ _, fun index hindex ↦ ?_, builder.metadata[bookmark], _,
      List.getElem?_eq_getElem hlt, ?_, setCount_bits _ count⟩
    · exact List.getElem?_modify_ne _ _ hindex.symm
    · unfold setCount
      rw [List.getElem?_modify_eq, List.getElem?_eq_getElem hlt]
      rfl
  · intro builder first second count count' hne hcount hcount'
    simp only [setStructFieldCount_eq, maskFieldCount_of hcount, maskFieldCount_of hcount', ok_bind]
    by_cases hfirst : first < builder.metadata.length
    · by_cases hsecond : second < builder.metadata.length
      · rw [if_pos hfirst, if_pos hsecond, ok_bind, ok_bind, length_setCount, length_setCount,
          if_pos hfirst, if_pos hsecond, setCount_comm builder hne]
      · rw [if_pos hfirst, if_neg hsecond, ok_bind, length_setCount, if_neg hsecond]
        rfl
    · by_cases hsecond : second < builder.metadata.length
      · rw [if_neg hfirst, if_pos hsecond, ok_bind, length_setCount, if_neg hfirst]
        rfl
      · rw [if_neg hfirst, if_neg hsecond]
        rfl

/-- A structure with another one in it, whose number of fields is also set late. -/
theorem bookmark_law_nested :
    let build : Build := ⟨true, .little, true⟩
    let outer := (new build).append (fieldBytes build [0x73] .struct 1 5) []
    let calls := [AddCall.addStructWithBookmark [0x74] 1 0 0,
      .field (.addCstr [0x75] [CharSize.size1.zero] 0 0), .setStructFieldCount 0 2]
    (new build).addStructWithBookmark build [0x73] 5 1 = .ok (outer, 4) ∧
    (do let state ← runCalls build calls (outer, fun _ ↦ 0)
        state.1.setStructFieldCount build 4 3) =
      (do let builder' ← (new build).addStruct build [0x73] 5 3
          let state ← runCalls build calls (builder', fun _ ↦ 0)
          .ok state.1) := by
  intro build outer calls
  have hadd : (new build).addStructWithBookmark build [0x73] 5 1 = .ok (outer, 4) := rfl
  exact ⟨hadd, (bookmark_law build).1 _ _ _ _ _ _ _ ⟨by decide, by decide⟩ hadd calls _
    fun _ ↦ by decide⟩

end EventBuilder

end Tracepoints
