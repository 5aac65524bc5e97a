import Tracepoints.Perf.ArrivalOrder
import Tracepoints.Perf.CurrentEvent
import Tracepoints.Perf.TracingRanges

/-!
# The offsets of id and time

A reader keeps one set of offsets for all its descriptions. They are unset as long as there is no
description; the first one sets them, and `add_attr` rejects one whose own offsets differ
(`AttrsInv`). What a reader receives later leaves them as they are (`Extends`).
-/

set_option autoImplicit false
set_option relaxedAutoImplicit false

namespace Tracepoints

open Exec DataFileReader

/-! ### Agreement -/

namespace EventOffsets

/-- None of the offsets is unset. -/
structure IsSet (offsets : EventOffsets) : Prop where
  sampleId : offsets.sampleId ≠ offsetUnset
  nonSampleId : offsets.nonSampleId ≠ offsetUnset
  sampleTime : offsets.sampleTime ≠ offsetUnset
  nonSampleTime : offsets.nonSampleTime ≠ offsetUnset

theorem idOffsets_set (sampleType : UInt64) :
    (idOffsets sampleType).1 ≠ offsetUnset ∧ (idOffsets sampleType).2 ≠ offsetUnset := by
  unfold idOffsets offsetNotPresent offsetUnset
  split_ifs
  · exact ⟨by decide, by decide⟩
  · exact ⟨by decide, by decide⟩
  · exact ⟨by dsimp only; omega, by dsimp only; omega⟩

theorem timeOffsets_set (sampleType : UInt64) :
    (timeOffsets sampleType).1 ≠ offsetUnset ∧ (timeOffsets sampleType).2 ≠ offsetUnset := by
  unfold timeOffsets offsetNotPresent offsetUnset
  split_ifs
  · exact ⟨by decide, by decide⟩
  · exact ⟨by dsimp only; omega, by dsimp only; omega⟩

theorem ofAttr_isSet (attr : PerfEventAttr) : (ofAttr attr).IsSet := by
  have hid := idOffsets_set attr.sampleType
  have htime := timeOffsets_set attr.sampleType
  unfold ofAttr
  constructor
  · exact hid.1
  · dsimp only
    split_ifs
    · exact hid.2
    · decide
  · exact htime.1
  · dsimp only
    split_ifs
    · exact htime.2
    · decide

theorem agree_unset (new : ℤ) : agree offsetUnset new = some new := by
  unfold agree
  by_cases h : new = offsetUnset
  · rw [if_neg (not_not.mpr h), h]
  · rw [if_pos h, if_neg (not_not.mpr rfl)]

theorem agree_self (old : ℤ) : agree old old = some old := if_neg (not_not.mpr rfl)

theorem agree_ne {old new : ℤ} (hold : old ≠ offsetUnset) (h : new ≠ old) : agree old new = none := by
  unfold agree
  rw [if_pos h, if_pos hold]

end EventOffsets

namespace ReaderAttrs

open EventOffsets

/-- The first attribute sets the offsets. -/
theorem agreeOffsets_unset (new : EventOffsets) : agreeOffsets .unset new = (true, new) := by
  unfold agreeOffsets unset
  dsimp only
  rw [agree_unset, agree_unset, agree_unset, agree_unset]

/-- Offsets that are set stay, and only the same ones agree with them. -/
theorem agreeOffsets_set {old : EventOffsets} (hold : old.IsSet) (new : EventOffsets) :
    agreeOffsets old new = (decide (new = old), old) := by
  obtain ⟨oldSampleId, oldNonSampleId, oldSampleTime, oldNonSampleTime⟩ := old
  obtain ⟨newSampleId, newNonSampleId, newSampleTime, newNonSampleTime⟩ := new
  obtain ⟨h1, h2, h3, h4⟩ := hold
  unfold agreeOffsets
  dsimp only at h1 h2 h3 h4 ⊢
  by_cases hsampleId : newSampleId = oldSampleId
  · subst hsampleId
    rw [agree_self]
    by_cases hnonSampleId : newNonSampleId = oldNonSampleId
    · subst hnonSampleId
      rw [agree_self]
      by_cases hsampleTime : newSampleTime = oldSampleTime
      · subst hsampleTime
        rw [agree_self]
        by_cases hnonSampleTime : newNonSampleTime = oldNonSampleTime
        · subst hnonSampleTime
          rw [agree_self]
          simp
        · rw [agree_ne h4 hnonSampleTime]
          simp [hnonSampleTime]
      · rw [agree_ne h3 hsampleTime]
        simp [hsampleTime]
    · rw [agree_ne h2 hnonSampleId]
      simp [hnonSampleId]
  · rw [agree_ne h1 hsampleId]
    simp [hsampleId]

/-! ### The invariant -/

/-- Either there is no description and no offset is set, or the offsets are those of every
description. -/
def OffsetsAgree (attrs : ReaderAttrs) : Prop :=
  attrs.eventDescList = [] ∧ attrs.offsets = .unset ∨
    attrs.eventDescList ≠ [] ∧ ∀ desc ∈ attrs.eventDescList, .ofAttr desc.attr = attrs.offsets

/-- What holds of the attributes of a reader. -/
structure AttrsInv (attrs : ReaderAttrs) : Prop where
  agree : attrs.OffsetsAgree
  indexes : ∀ id index, attrs.eventDescIdToIndex.lookup id = some index →
    index < attrs.eventDescList.length

/-- What `add_attr` returns. -/
def addAttrResult (build : Build) (byteReader : ByteOrder) (attrBytes : List UInt8)
    (attrs : ReaderAttrs) : Bool :=
  (agreeOffsets attrs.offsets (.ofAttr (readAttr build byteReader attrBytes))).1

variable {attrs : ReaderAttrs}

theorem AttrsInv.new : AttrsInv .new := ⟨.inl ⟨rfl, rfl⟩, nofun⟩

/-- The offsets of a reader with a description. -/
theorem OffsetsAgree.isSet (h : attrs.OffsetsAgree) (hlist : attrs.eventDescList ≠ []) :
    attrs.offsets.IsSet := by
  rcases h with ⟨hempty, _⟩ | ⟨_, hagree⟩
  · exact absurd hempty hlist
  · obtain ⟨desc, hdesc⟩ := List.exists_mem_of_ne_nil _ hlist
    rw [← hagree desc hdesc]
    exact ofAttr_isSet desc.attr

/-- Agreement leaves the offsets of a reader with a description as they are, and those of the new
attribute where there was none. -/
theorem OffsetsAgree.agreeOffsets_cases (h : attrs.OffsetsAgree) (attr : PerfEventAttr) :
    agreeOffsets attrs.offsets (.ofAttr attr) = (true, .ofAttr attr) ∧
        (attrs.eventDescList = [] ∨ .ofAttr attr = attrs.offsets) ∨
      agreeOffsets attrs.offsets (.ofAttr attr) = (false, attrs.offsets) := by
  by_cases hlist : attrs.eventDescList = []
  · rcases h with ⟨_, hunset⟩ | ⟨hne, _⟩
    · rw [hunset, agreeOffsets_unset]
      exact .inl ⟨rfl, .inl hlist⟩
    · exact absurd hlist hne
  · rw [agreeOffsets_set (h.isSet hlist)]
    by_cases heq : EventOffsets.ofAttr attr = attrs.offsets
    · rw [decide_eq_true heq, ← heq]
      exact .inl ⟨rfl, .inr rfl⟩
    · rw [decide_eq_false heq]
      exact .inr rfl

theorem lookup_insertIds {map : List (UInt64 × ℕ)} {ids : List UInt64} {index : ℕ} {id : UInt64}
    {found : ℕ} (h : (insertIds map ids index).lookup id = some found) :
    found = index ∨ map.lookup id = some found := by
  unfold insertIds at h
  induction ids generalizing map with
  | nil => exact .inr h
  | cons head ids ih =>
    rcases ih h with heq | hlookup
    · exact .inl heq
    · rw [List.lookup_cons] at hlookup
      split at hlookup
      · exact .inl (Option.some.inj hlookup).symm
      · exact .inr hlookup

/-- `PerfEventDesc::new` keeps the attribute. -/
theorem updateName_attr (desc : PerfEventDesc) : desc.updateName.attr = desc.attr := by
  unfold PerfEventDesc.updateName
  split
  · split_ifs <;> rfl
  · rfl

/-- An attribute that does not agree changes nothing. -/
theorem AttrsInv.rejected (h : attrs.AttrsInv) {record : AttrRecord}
    (hrejected : (agreeOffsets attrs.offsets (.ofAttr record.attr)).1 = false) :
    attrs.receive record = attrs := by
  unfold receive
  rcases h.agree.agreeOffsets_cases record.attr with ⟨htrue, _⟩ | hfalse
  · rw [htrue] at hrejected
    cases hrejected
  · rw [hfalse]

/-- Receiving an attribute keeps the invariant. -/
theorem AttrsInv.receive (h : attrs.AttrsInv) (record : AttrRecord) :
    (attrs.receive record).AttrsInv := by
  rcases h.agree.agreeOffsets_cases record.attr with ⟨htrue, hsame⟩ | hfalse
  · unfold ReaderAttrs.receive
    rw [htrue]
    constructor
    · refine .inr ⟨List.append_ne_nil_of_right_ne_nil _ (List.cons_ne_nil _ _), ?_⟩
      intro desc hdesc
      rcases List.mem_append.mp hdesc with hold | hnew
      · rcases hsame with hempty | hagree
        · rw [hempty] at hold
          cases hold
        · rcases h.agree with ⟨hempty, _⟩ | ⟨_, hall⟩
          · rw [hempty] at hold
            cases hold
          · exact (hall desc hold).trans hagree.symm
      · rw [List.mem_singleton.mp hnew]
        exact congrArg EventOffsets.ofAttr (updateName_attr _)
    · intro id index hlookup
      show index < (attrs.eventDescList ++ [_]).length
      rw [List.length_append, List.length_singleton]
      rcases lookup_insertIds hlookup with rfl | hold
      · exact Nat.lt_succ_self _
      · exact Nat.lt_succ_of_lt (h.indexes id index hold)
  · rw [h.rejected (by rw [hfalse])]
    exact h

end ReaderAttrs

/-! ### Later states -/

namespace ReaderState

variable {build : Build} {state next : ReaderState}

/-- What a reader receives later leaves as it is: the byte order, and with a description the
offsets. -/
structure Extends (first last : ReaderState) : Prop where
  byteReader : last.sessionInfo.byteReader = first.sessionInfo.byteReader
  offsets : first.attrs.eventDescList ≠ [] →
    last.attrs.eventDescList ≠ [] ∧ last.attrs.offsets = first.attrs.offsets

theorem Extends.refl (state : ReaderState) : Extends state state := ⟨rfl, fun h ↦ ⟨h, rfl⟩⟩

theorem Extends.trans {first mid last : ReaderState} (hfirst : Extends first mid)
    (hlast : Extends mid last) : Extends first last := by
  constructor
  · exact hlast.byteReader.trans hfirst.byteReader
  · intro hlist
    obtain ⟨hmid, hoffsets⟩ := hfirst.offsets hlist
    obtain ⟨hend, hoffsets'⟩ := hlast.offsets hmid
    exact ⟨hend, hoffsets'.trans hoffsets⟩

/-- The two states have the same session and the same descriptions, up to their names and formats. -/
structure SameDescs (first last : ReaderState) : Prop where
  session : last.sessionInfo = first.sessionInfo
  offsets : last.attrs.offsets = first.attrs.offsets
  ids : last.attrs.eventDescIdToIndex = first.attrs.eventDescIdToIndex
  descs : last.attrs.eventDescList.map PerfEventDesc.attr =
    first.attrs.eventDescList.map PerfEventDesc.attr

theorem addFormat_sameDescs {first : ReaderState} {format : PerfEventFormat}
    (h : addFormat state format = .ok next) (hstate : SameDescs first state) :
    SameDescs first next := by
  unfold addFormat at h
  obtain ⟨common, _, h⟩ := bind_eq_ok.1 h
  cases common with
  | none =>
    obtain rfl := Except.ok.inj h
    exact hstate
  | some offsetAndSize =>
    dsimp only at h
    split_ifs at h
    · obtain rfl := Except.ok.inj h
      exact ⟨hstate.session, hstate.offsets, hstate.ids, hstate.descs⟩
    · obtain rfl := Except.ok.inj h
      exact hstate
    · obtain rfl := Except.ok.inj h
      exact ⟨hstate.session, hstate.offsets, hstate.ids, hstate.descs⟩

theorem updateFormats_descs (attrs : ReaderAttrs) :
    (updateFormats attrs).eventDescList.map PerfEventDesc.attr =
      attrs.eventDescList.map PerfEventDesc.attr := by
  unfold updateFormats
  rw [List.map_map]
  refine List.map_congr_left fun desc _ ↦ ?_
  dsimp only [Function.comp_apply]
  split
  · exact ReaderAttrs.updateName_attr _
  · rfl

/-- The parser of tracing data changes the names and formats of descriptions only. -/
theorem sameDescs_parserKeeps (data : List UInt8) (first : ReaderState) :
    ParserKeeps data (SameDescs first) where
  flag _ h := ⟨h.session, h.offsets, h.ids, h.descs⟩
  longSize _ _ h := ⟨h.session, h.offsets, h.ids, h.descs⟩
  pageSize _ _ h := ⟨h.session, h.offsets, h.ids, h.descs⟩
  headerPage _ _ _ h := ⟨h.session, h.offsets, h.ids, h.descs⟩
  headerEvent _ _ _ h := ⟨h.session, h.offsets, h.ids, h.descs⟩
  ftraces _ _ _ h := ⟨h.session, h.offsets, h.ids, h.descs⟩
  format _ _ _ hformat h := addFormat_sameDescs hformat h
  links _ h := ⟨h.session, h.offsets, h.ids, (updateFormats_descs _).trans h.descs⟩
  kallsyms _ _ _ h := ⟨h.session, h.offsets, h.ids, h.descs⟩
  printk _ _ _ h := ⟨h.session, h.offsets, h.ids, h.descs⟩
  cmdLine _ _ _ h := ⟨h.session, h.offsets, h.ids, h.descs⟩

theorem SameDescs.nonempty_iff {first last : ReaderState} (h : SameDescs first last) :
    last.attrs.eventDescList = [] ↔ first.attrs.eventDescList = [] := by
  rw [← List.map_eq_nil_iff, h.descs, List.map_eq_nil_iff]

theorem SameDescs.extends {first last : ReaderState} (h : SameDescs first last) :
    Extends first last := by
  constructor
  · rw [h.session]
  · exact fun hlist ↦ ⟨fun hempty ↦ hlist (h.nonempty_iff.mp hempty), h.offsets⟩

theorem SameDescs.attrsInv {first last : ReaderState} (h : SameDescs first last)
    (hinv : first.attrs.AttrsInv) : last.attrs.AttrsInv := by
  constructor
  · rcases hinv.agree with ⟨hempty, hunset⟩ | ⟨hne, hagree⟩
    · exact .inl ⟨h.nonempty_iff.mpr hempty, h.offsets.trans hunset⟩
    · refine .inr ⟨fun hempty ↦ hne (h.nonempty_iff.mp hempty), fun desc hdesc ↦ ?_⟩
      have hmem : desc.attr ∈ first.attrs.eventDescList.map PerfEventDesc.attr := by
        rw [← h.descs]
        exact List.mem_map_of_mem hdesc
      obtain ⟨old, hold, heq⟩ := List.mem_map.mp hmem
      rw [← heq, hagree old hold, h.offsets]
  · intro id index hlookup
    rw [h.ids] at hlookup
    have hlength := congrArg List.length h.descs
    rw [List.length_map, List.length_map] at hlength
    rw [hlength]
    exact hinv.indexes id index hlookup

/-! ### The byte order stays -/

theorem parseHeaderClockid_byteReader (state : ReaderState) :
    state.parseHeaderClockid.sessionInfo.byteReader = state.sessionInfo.byteReader := by
  unfold parseHeaderClockid
  dsimp only
  split_ifs
  · rfl
  · rfl

theorem parseHeaderClockData_byteReader (build : Build) (state : ReaderState) :
    (state.parseHeaderClockData build).sessionInfo.byteReader = state.sessionInfo.byteReader := by
  unfold parseHeaderClockData PerfSessionInfo.setClockData
  dsimp only
  split_ifs <;> rfl

theorem parseHeaderEventDesc_byteReader (h : state.parseHeaderEventDesc build = .ok next) :
    next.sessionInfo.byteReader = state.sessionInfo.byteReader := by
  unfold parseHeaderEventDesc at h
  dsimp only at h
  split_ifs at h
  · obtain rfl := Except.ok.inj h
    rfl
  obtain ⟨eventCount, _, h⟩ := bind_eq_ok.1 h
  obtain ⟨attrSize, _, h⟩ := bind_eq_ok.1 h
  split_ifs at h
  · obtain rfl := Except.ok.inj h
    rfl
  · obtain ⟨attrs, _, h⟩ := bind_eq_ok.1 h
    obtain rfl := Except.ok.inj h
    rfl

theorem parseTracingData_byteReader (h : state.parseTracingData build = .ok next) :
    next.sessionInfo.byteReader = state.sessionInfo.byteReader := by
  unfold parseTracingData at h
  dsimp only at h
  split_ifs at h
  · obtain rfl := Except.ok.inj h
    rfl
  · obtain ⟨⟨outcome, last⟩, hbody, h⟩ := bind_eq_ok.1 h
    obtain rfl := Except.ok.inj h
    have hsame := (tracingBody_keeps (sameDescs_parserKeeps _ state) _ _ _ ⟨rfl, rfl, rfl, rfl⟩
      hbody).1
    rw [hsame.session]

theorem headerFeature_byteReader {data : List UInt8}
    (h : headerFeature build state data = .ok next) :
    next.sessionInfo.byteReader = state.sessionInfo.byteReader := by
  unfold headerFeature at h
  split_ifs at h
  · obtain rfl := Except.ok.inj h
    rfl
  · obtain ⟨index, _, h⟩ := bind_eq_ok.1 h
    split_ifs at h
    · rw [← Except.ok.inj h]
      exact parseHeaderClockid_byteReader _
    · rw [← Except.ok.inj h]
      exact parseHeaderClockData_byteReader build _
    · obtain rfl := Except.ok.inj h
      rfl
    · obtain rfl := Except.ok.inj h
      rfl

theorem plainEvent_byteReader {ty : ℕ} {data : List UInt8}
    (h : plainEvent build state ty data = .ok next) :
    next.sessionInfo.byteReader = state.sessionInfo.byteReader := by
  unfold plainEvent at h
  split_ifs at h
  · obtain ⟨records, _, rfl⟩ := headerAttr_records h
    rfl
  · obtain rfl := Except.ok.inj h
    rfl
  · exact headerFeature_byteReader h
  · exact parseHeaderEventDesc_byteReader h
  · obtain rfl := Except.ok.inj h
    rfl

theorem parseHeader_byteReader {index : Fin 32}
    (h : OpenState.parseHeader build index state = .ok next) :
    next.sessionInfo.byteReader = state.sessionInfo.byteReader := by
  unfold OpenState.parseHeader at h
  split_ifs at h
  · rw [← Except.ok.inj h]
    exact parseHeaderClockid_byteReader state
  · rw [← Except.ok.inj h]
    exact parseHeaderClockData_byteReader build state
  · exact parseHeaderEventDesc_byteReader h
  · exact parseTracingData_byteReader h
  · obtain rfl := Except.ok.inj h
    rfl

end ReaderState

/-! ### Runs -/

variable {build : Build} {state next : ReaderState}

theorem ReaderOp.run_byteReader {op : ReaderOp} (h : op.run build state = .ok next) :
    next.sessionInfo.byteReader = state.sessionInfo.byteReader := by
  cases op with
  | attrsEntry attrBytes idsBytes =>
    obtain ⟨attrs, _, h⟩ := bind_eq_ok.1 h
    obtain rfl := Except.ok.inj h
    rfl
  | header index bytes => exact (ReaderState.parseHeader_byteReader h).trans rfl
  | dataSection start stop =>
    obtain rfl := Except.ok.inj h
    rfl
  | event ty data => exact ReaderState.plainEvent_byteReader h
  | tracingData data =>
    change tracingDataEvent build state data = .ok next at h
    unfold tracingDataEvent at h
    split_ifs at h
    · obtain rfl := Except.ok.inj h
      rfl
    · exact (ReaderState.parseTracingData_byteReader h).trans rfl

/-- Attributes that are received one behind the other. -/
theorem ReaderAttrs.AttrsInv.receiveAll {attrs : ReaderAttrs} (h : attrs.AttrsInv)
    (records : List AttrRecord) :
    (attrs.receiveAll records).AttrsInv ∧ (attrs.eventDescList ≠ [] →
      (attrs.receiveAll records).eventDescList ≠ [] ∧
        (attrs.receiveAll records).offsets = attrs.offsets) := by
  induction records generalizing attrs with
  | nil => exact ⟨h, fun hlist ↦ ⟨hlist, rfl⟩⟩
  | cons record records ih =>
    obtain ⟨hinv, hkept⟩ := ih (h.receive record)
    refine ⟨hinv, fun hlist ↦ ?_⟩
    have hreceive : (attrs.receive record).eventDescList ≠ [] ∧
        (attrs.receive record).offsets = attrs.offsets := by
      rcases h.agree.agreeOffsets_cases record.attr with ⟨htrue, hsame⟩ | hfalse
      · unfold ReaderAttrs.receive
        rw [htrue]
        refine ⟨List.append_ne_nil_of_right_ne_nil _ (List.cons_ne_nil _ _), ?_⟩
        rcases hsame with hempty | hagree
        · exact absurd hempty hlist
        · exact hagree
      · rw [h.rejected (by rw [hfalse])]
        exact ⟨hlist, rfl⟩
    obtain ⟨hend, hoffsets⟩ := hkept hreceive.1
    exact ⟨hend, hoffsets.trans hreceive.2⟩

/-- One operation keeps the invariant and extends the state. -/
theorem ReaderOp.run_attrsInv {op : ReaderOp} (h : op.run build state = .ok next)
    (hinv : state.attrs.AttrsInv) : next.attrs.AttrsInv ∧ state.Extends next := by
  have hbyteReader := run_byteReader h
  obtain ⟨received, _, heffect⟩ := run_effect h
  cases heffect with
  | attrs records hattrs _ =>
    obtain ⟨hreceived, hkept⟩ := hinv.receiveAll records
    rw [← hattrs] at hreceived hkept
    exact ⟨hreceived, hbyteReader, hkept⟩
  | @block before _ data outcome hattrs _ hparse =>
    have hsame := (ReaderState.tracingBody_keeps (ReaderState.sameDescs_parserKeeps _ before) _ _ _
      ⟨rfl, rfl, rfl, rfl⟩ hparse).1
    have hbefore : before.attrs.AttrsInv := by
      rw [hattrs]
      exact hinv
    refine ⟨hsame.attrsInv hbefore, hbyteReader, ?_⟩
    have hkept := hsame.extends.offsets
    rw [hattrs] at hkept
    exact hkept

/-- A run keeps the invariant. -/
theorem ReaderOp.runAll_attrsInv {ops : List ReaderOp} {received : List Receipt}
    (h : ReaderOp.runAll build ops state = .ok (received, next)) (hinv : state.attrs.AttrsInv) :
    next.attrs.AttrsInv ∧ state.Extends next := by
  induction ops generalizing state received with
  | nil =>
    obtain ⟨_, rfl⟩ := Prod.mk.inj (Except.ok.inj h)
    exact ⟨hinv, .refl state⟩
  | cons op ops ih =>
    obtain ⟨own, _, h⟩ := bind_eq_ok.1 h
    obtain ⟨mid, hmid, h⟩ := bind_eq_ok.1 h
    obtain ⟨⟨rest, last⟩, hrest, h⟩ := bind_eq_ok.1 h
    obtain ⟨_, rfl⟩ := Prod.mk.inj (Except.ok.inj h)
    obtain ⟨hmidInv, hmidExtends⟩ := run_attrsInv hmid hinv
    obtain ⟨hlastInv, hlastExtends⟩ := ih hrest hmidInv
    exact ⟨hlastInv, hmidExtends.trans hlastExtends⟩

theorem ReaderRun.attrsInv {received : List Receipt} (h : ReaderRun build received state) :
    state.attrs.AttrsInv := by
  obtain ⟨order, ops, hrun⟩ := h
  exact (ReaderOp.runAll_attrsInv hrun .new).1

/-- What a read does keeps the invariant and extends the state. -/
theorem DataFileReader.StateEffect.attrsInv {file : InputFile}
    (h : StateEffect build state file next) (hinv : state.attrs.AttrsInv) :
    next.attrs.AttrsInv ∧ state.Extends next := by
  cases h with
  | same => exact ⟨hinv, .refl state⟩
  | @event header _ _ hevent =>
    exact ReaderOp.run_attrsInv (show (ReaderOp.event _ _).run build state = .ok next from hevent)
      hinv
  | tracingData _ _ hevent =>
    exact ReaderOp.run_attrsInv
      (show (ReaderOp.tracingData _).run build state = .ok next from hevent) hinv

/-- The parsed part of every reader is reached by a run of operations. -/
theorem HandleCalls.readerRun {condition : ReaderHandle → DataFileReader → Prop}
    {handle : ReaderHandle} {events : Set EventRead} {last : Option (Except IoError Bool)}
    (h : HandleCalls build condition handle events last) :
    ∃ received, ReaderRun build received handle.reader.toReaderState := by
  induction h with
  | new => exact ⟨[], .little, [], rfl⟩
  | openFile _ _ _ hopen _ => exact Opened.readerRun (ReaderHandle.openFile_opened hopen)
  | close _ _ => exact ⟨[], .little, [], rfl⟩
  | moved _ _ hmoved ih =>
    exact @ReaderHandle.moveNextEvent_state _ _ _ _
      (fun state ↦ ∃ received, ReaderRun build received state) hmoved
      (fun _ _ _ _ hread hstate ↦ StateEffect.readerRun hread.effect hstate) ih

/-- The handles that calls reach from a new reader. -/
def ReaderHandle.Reachable (build : Build) (handle : ReaderHandle) : Prop :=
  ∃ events last, HandleCalls build (fun _ _ ↦ True) handle events last

/-- The attributes of every reader keep the invariant. -/
theorem ReaderHandle.Reachable.attrsInv {handle : ReaderHandle} (h : handle.Reachable build) :
    handle.reader.attrs.AttrsInv := by
  obtain ⟨events, last, hcalls⟩ := h
  obtain ⟨received, hrun⟩ := hcalls.readerRun
  exact hrun.attrsInv

/-! ### A stream with an attribute -/

/-- A build with assertions. -/
def debugBuild : Build := ⟨true, .little, true⟩

/-- A stream in pipe mode: a `HeaderAttr` event for an attribute with the given sample type and one id,
whose other events have the id too, and more events behind it. -/
def attrStream (sampleType id : ℕ) (behind : List UInt8) : List UInt8 :=
  PerfFileHeaderPipe.toBytes .little ⟨perfile2MagicHostEndian, PerfFileHeaderPipe.byteSize⟩ ++
    PerfEventHeader.toBytes .little ⟨PerfEventHeaderType.headerAttr, 0, 80⟩ ++
    [1, 0, 0, 0, 64, 0, 0, 0] ++ List.replicate 16 0 ++ ByteOrder.little.toBytes 8 sampleType ++
    List.replicate 8 0 ++ ByteOrder.little.toBytes 8 PerfEventAttrOptions.sampleIdAll.toNat ++
    List.replicate 16 0 ++ ByteOrder.little.toBytes 8 id ++ behind

/-- The handle that opened such a stream, behind a number of calls of `move_next_event`. -/
def attrHandle (build : Build) (eventOrder : PerfDataFileEventOrder) (content : List UInt8) :
    ℕ → ReaderHandle
  | 0 =>
    match ReaderHandle.new.openFile build (.ok content) eventOrder with
    | .ok (_, opened) => opened
    | .error _ => .new
  | count + 1 =>
    match (attrHandle build eventOrder content count).moveNextEvent build with
    | .ok (_, next) => next
    | .error _ => .new

theorem attrHandle_reachable (build : Build) (eventOrder : PerfDataFileEventOrder)
    (content : List UInt8) (count : ℕ) :
    (attrHandle build eventOrder content count).Reachable build := by
  induction count with
  | zero =>
    rw [attrHandle]
    split
    next outcome opened hopen => exact ⟨_, _, .openFile .new _ _ hopen⟩
    next => exact ⟨_, _, .new⟩
  | succ count ih =>
    rw [attrHandle]
    split
    next result next hmoved =>
      obtain ⟨events, last, hcalls⟩ := ih
      exact ⟨_, _, .moved hcalls (fun _ _ _ ↦ trivial) hmoved⟩
    next => exact ⟨_, _, .new⟩

end Tracepoints
