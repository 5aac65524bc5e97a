import Tracepoints.Perf.FormatLinks

/-!
# The order in which attributes and tracing data arrive

A reader receives attributes from the attrs section, from `HeaderAttr` events and from the records of
an `EVENT_DESC` header, and tracing data from its header or from a `HeaderTracingData` event. A
`ReaderOp` is what it does with one of these, a `Receipt` what it gets by it. `ReaderRun` are the runs
of such operations in any order; the parsed part of every reader is reached by one
(`HandleReaches.readerRun`).

Where one block of tracing data was received and read to its end, the descriptions are those of the
attributes with the formats of the block (`LinkInv`), wherever the block came.
-/

set_option autoImplicit false
set_option relaxedAutoImplicit false

namespace Tracepoints

open Exec ReaderAttrs ReaderState DataFileReader

/-! ### The attributes of events and headers -/

/-- The attribute of a `HeaderAttr` event, if it has one. -/
def headerAttrRecords (build : Build) (byteReader : ByteOrder) (data : List UInt8) :
    Exec (List AttrRecord) := do
  if data.length < PerfEventAttrSize.ver0 then .ok []
  else
    let attrSize ← readUInt byteReader 4 data PerfEventAttr.sizeOffset
    if PerfEventAttrSize.ver0 ≤ attrSize ∧ attrSize < data.length then
      let attrBytes ← slice data 0 (min attrSize PerfEventAttr.byteSize)
      let idsBytes ← slice data attrSize data.length
      .ok [record build byteReader attrBytes [] idsBytes]
    else .ok []

/-- The attributes of the records of an `EVENT_DESC` header, up to the first one that is not as
expected. -/
def eventDescLoopRecords (build : Build) (byteReader : ByteOrder) (data : List UInt8)
    (attrSize : ℕ) : ℕ → ℕ → Exec (List AttrRecord)
  | 0, _ => .ok []
  | count + 1, pos => do
    let left ← sub data.length pos
    if left < attrSize + 4 + 4 then .ok []
    else
      let idsCount ← readUInt byteReader 4 data (pos + attrSize)
      let stringSize ← readUInt byteReader 4 data (pos + attrSize + 4)
      let recordSize ← readUInt byteReader 4 data (pos + PerfEventAttr.sizeOffset)
      let stringPos := pos + attrSize + 8
      let left ← sub data.length stringPos
      if attrSize ≠ recordSize ∨ 0x10000 < idsCount ∨ 0x10000 < stringSize ∨
          left < stringSize + idsCount * 8 then .ok []
      else
        let string ← slice data stringPos (stringPos + stringSize)
        if 0 ∉ string then .ok []
        else
          let idsPos := stringPos + stringSize
          let idsBytes ← slice data idsPos (idsPos + idsCount * 8)
          let attrBytes ← slice data pos (pos + min attrSize PerfEventAttr.byteSize)
          let records ←
            eventDescLoopRecords build byteReader data attrSize count (idsPos + idsBytes.length)
          .ok (record build byteReader attrBytes (string.takeWhile (· ≠ 0)) idsBytes :: records)

/-- The attributes that `parse_header_event_desc` finds. -/
def eventDescRecords (build : Build) (state : ReaderState) : Exec (List AttrRecord) := do
  let data := state.header PerfHeaderIndex.eventDesc
  if state.parsedHeaderEventDesc ∨ data.length < 4 + 4 then .ok []
  else
    let byteReader := state.sessionInfo.byteReader
    let eventCount ← readUInt byteReader 4 data 0
    let attrSize ← readUInt byteReader 4 data 4
    if attrSize < PerfEventAttrSize.ver0 ∨ 0x10000 < attrSize then .ok []
    else eventDescLoopRecords build byteReader data attrSize eventCount 8

variable {build : Build} {state next : ReaderState}

theorem headerAttr_records {data : List UInt8} (h : headerAttr build state data = .ok next) :
    ∃ records, headerAttrRecords build state.sessionInfo.byteReader data = .ok records ∧
      next = { state with attrs := state.attrs.receiveAll records } := by
  unfold headerAttr at h
  unfold headerAttrRecords
  by_cases hshort : data.length < PerfEventAttrSize.ver0
  · rw [if_pos hshort] at h ⊢
    exact ⟨[], rfl, (Except.ok.inj h).symm⟩
  rw [if_neg hshort] at h ⊢
  obtain ⟨attrSize, hattrSize, h⟩ := bind_eq_ok.1 h
  rw [hattrSize, ok_bind]
  by_cases hsize : PerfEventAttrSize.ver0 ≤ attrSize ∧ attrSize < data.length
  · rw [if_pos hsize] at h ⊢
    obtain ⟨attrBytes, hattrBytes, h⟩ := bind_eq_ok.1 h
    obtain ⟨idsBytes, hidsBytes, h⟩ := bind_eq_ok.1 h
    obtain ⟨attrs, hattrs, h⟩ := bind_eq_ok.1 h
    rw [hattrBytes, ok_bind, hidsBytes, ok_bind]
    refine ⟨_, rfl, ?_⟩
    rw [← Except.ok.inj h, receive_of_addAttr hattrs]
    rfl
  · rw [if_neg hsize] at h ⊢
    exact ⟨[], rfl, (Except.ok.inj h).symm⟩

theorem eventDescLoop_records {byteReader : ByteOrder} {data : List UInt8} {attrSize count pos : ℕ}
    {attrs last : ReaderAttrs}
    (h : eventDescLoop build byteReader data attrSize count pos attrs = .ok last) :
    ∃ records, eventDescLoopRecords build byteReader data attrSize count pos = .ok records ∧
      last = attrs.receiveAll records := by
  induction count generalizing pos attrs with
  | zero => exact ⟨[], rfl, (Except.ok.inj h).symm⟩
  | succ count ih =>
    unfold eventDescLoop at h
    unfold eventDescLoopRecords
    obtain ⟨left, hleft, h⟩ := bind_eq_ok.1 h
    rw [hleft, ok_bind]
    by_cases hend : left < attrSize + 4 + 4
    · rw [if_pos hend] at h ⊢
      exact ⟨[], rfl, (Except.ok.inj h).symm⟩
    rw [if_neg hend] at h ⊢
    obtain ⟨idsCount, hidsCount, h⟩ := bind_eq_ok.1 h
    obtain ⟨stringSize, hstringSize, h⟩ := bind_eq_ok.1 h
    obtain ⟨recordSize, hrecordSize, h⟩ := bind_eq_ok.1 h
    dsimp only at h ⊢
    obtain ⟨room, hroom, h⟩ := bind_eq_ok.1 h
    rw [hidsCount, ok_bind, hstringSize, ok_bind, hrecordSize, ok_bind, hroom, ok_bind]
    by_cases hbad : attrSize ≠ recordSize ∨ 0x10000 < idsCount ∨ 0x10000 < stringSize ∨
        room < stringSize + idsCount * 8
    · rw [if_pos hbad] at h ⊢
      exact ⟨[], rfl, (Except.ok.inj h).symm⟩
    rw [if_neg hbad] at h ⊢
    obtain ⟨string, hstring, h⟩ := bind_eq_ok.1 h
    rw [hstring, ok_bind]
    by_cases hzero : 0 ∉ string
    · rw [if_pos hzero] at h ⊢
      exact ⟨[], rfl, (Except.ok.inj h).symm⟩
    rw [if_neg hzero] at h ⊢
    obtain ⟨idsBytes, hidsBytes, h⟩ := bind_eq_ok.1 h
    obtain ⟨attrBytes, hattrBytes, h⟩ := bind_eq_ok.1 h
    obtain ⟨added, hadded, h⟩ := bind_eq_ok.1 h
    obtain ⟨records, hrecords, hlast⟩ := ih h
    rw [hidsBytes, ok_bind, hattrBytes, ok_bind, hrecords, ok_bind]
    refine ⟨_, rfl, ?_⟩
    rw [hlast, receive_of_addAttr hadded]
    rfl

theorem parseHeaderEventDesc_records (h : state.parseHeaderEventDesc build = .ok next) :
    ∃ records, eventDescRecords build state = .ok records ∧
      next.attrs = state.attrs.receiveAll records ∧
      next.commonTypeOffset = state.commonTypeOffset := by
  unfold parseHeaderEventDesc at h
  unfold eventDescRecords
  dsimp only at h ⊢
  by_cases hdone : state.parsedHeaderEventDesc = true ∨
      (state.header PerfHeaderIndex.eventDesc).length < 4 + 4
  · rw [if_pos hdone] at h ⊢
    obtain rfl := Except.ok.inj h
    exact ⟨[], rfl, rfl, rfl⟩
  rw [if_neg hdone] at h ⊢
  obtain ⟨eventCount, heventCount, h⟩ := bind_eq_ok.1 h
  obtain ⟨attrSize, hattrSize, h⟩ := bind_eq_ok.1 h
  rw [heventCount, ok_bind, hattrSize, ok_bind]
  by_cases hbad : attrSize < PerfEventAttrSize.ver0 ∨ 0x10000 < attrSize
  · rw [if_pos hbad] at h ⊢
    obtain rfl := Except.ok.inj h
    exact ⟨[], rfl, rfl, rfl⟩
  rw [if_neg hbad] at h ⊢
  obtain ⟨attrs, hattrs, h⟩ := bind_eq_ok.1 h
  obtain ⟨records, hrecords, hlast⟩ := eventDescLoop_records hattrs
  obtain rfl := Except.ok.inj h
  exact ⟨records, hrecords, hlast, rfl⟩

/-! ### Operations and what is received by them -/

/-- What a reader receives: an attribute, or tracing data that it parses, with whether it reads it to
its end. -/
inductive Receipt
  | attr (record : AttrRecord)
  | block (data : List UInt8) (readToEnd : Bool)
  deriving DecidableEq, Repr

namespace Receipt

/-- The attributes that were received. -/
def attrs (receipts : List Receipt) : List AttrRecord :=
  receipts.filterMap fun
    | .attr record => some record
    | .block _ _ => none

/-- The blocks of tracing data that were received. -/
def blocks (receipts : List Receipt) : List (List UInt8 × Bool) :=
  receipts.filterMap fun
    | .attr _ => none
    | .block data readToEnd => some (data, readToEnd)

theorem attrs_append (first second : List Receipt) :
    attrs (first ++ second) = attrs first ++ attrs second :=
  List.filterMap_append

theorem blocks_append (first second : List Receipt) :
    blocks (first ++ second) = blocks first ++ blocks second :=
  List.filterMap_append

theorem attrs_map (records : List AttrRecord) : attrs (records.map .attr) = records := by
  unfold attrs
  rw [List.filterMap_map]
  exact List.filterMap_some

theorem blocks_map (records : List AttrRecord) : blocks (records.map .attr) = [] := by
  unfold blocks
  rw [List.filterMap_map]
  exact List.filterMap_eq_nil_iff.mpr fun _ _ ↦ rfl

end Receipt

/-- The tracing data that `parse_tracing_data` finds, if it has the signature. -/
def blockReceipts (build : Build) (state : ReaderState) : Exec (List Receipt) :=
  let data := state.header PerfHeaderIndex.tracingData
  if data.take tracingSignature.length ≠ tracingSignature then .ok []
  else do
    let (outcome, _) ← tracingBody build data state
    .ok [.block data outcome.isOk]

/-- What a reader does to its parsed part with a piece of a file. -/
inductive ReaderOp
  /-- An entry of the attrs section. -/
  | attrsEntry (attrBytes idsBytes : List UInt8)
  /-- A header of a file that is not in pipe mode. -/
  | header (index : Fin 32) (bytes : List UInt8)
  /-- The place of the events. -/
  | dataSection (start stop : ℕ)
  /-- An event without data behind it. -/
  | event (ty : ℕ) (data : List UInt8)
  /-- The tracing data behind a `HeaderTracingData` event. -/
  | tracingData (data : List UInt8)

namespace ReaderOp

/-- The effect of an operation. -/
def run (build : Build) (state : ReaderState) : ReaderOp → Exec ReaderState
  | .attrsEntry attrBytes idsBytes => do
    let attrs ← state.attrs.addAttr build state.sessionInfo.byteReader attrBytes [] idsBytes
    .ok { state with attrs := attrs }
  | .header index bytes => OpenState.parseHeader build index (state.setHeader index bytes)
  | .dataSection start stop => .ok { state with dataBeginFilePos := start, dataEndFilePos := stop }
  | .event ty data => plainEvent build state ty data
  | .tracingData data => tracingDataEvent build state data

/-- What is received by an operation. -/
def receipts (build : Build) (state : ReaderState) : ReaderOp → Exec (List Receipt)
  | .attrsEntry attrBytes idsBytes =>
    .ok [.attr (record build state.sessionInfo.byteReader attrBytes [] idsBytes)]
  | .header index bytes =>
    if index = PerfHeaderIndex.eventDesc then do
      let records ← eventDescRecords build (state.setHeader index bytes)
      .ok (records.map .attr)
    else if index = PerfHeaderIndex.tracingData then
      blockReceipts build (state.setHeader index bytes)
    else .ok []
  | .dataSection _ _ => .ok []
  | .event ty data =>
    if ty = PerfEventHeaderType.headerAttr then do
      let records ← headerAttrRecords build state.sessionInfo.byteReader data
      .ok (records.map .attr)
    else if ty = PerfEventHeaderType.finishedInit ∧
        state.header PerfHeaderIndex.eventDesc ≠ [] then do
      let records ← eventDescRecords build state
      .ok (records.map .attr)
    else .ok []
  | .tracingData data =>
    if state.parsedTracingData then .ok []
    else blockReceipts build (state.setHeader PerfHeaderIndex.tracingData data)

/-- Operations one behind the other, with what is received by them. -/
def runAll (build : Build) : List ReaderOp → ReaderState → Exec (List Receipt × ReaderState)
  | [], state => .ok ([], state)
  | op :: ops, state => do
    let received ← op.receipts build state
    let state ← op.run build state
    let (more, state) ← runAll build ops state
    .ok (received ++ more, state)

/-- What an operation does to the descriptions: it adds the attributes that are received, or parses
the block. -/
inductive Effect (build : Build) (state : ReaderState) : List Receipt → ReaderState → Prop
  | attrs {next : ReaderState} (records : List AttrRecord)
      (hattrs : next.attrs = state.attrs.receiveAll records)
      (hcommon : next.commonTypeOffset = state.commonTypeOffset) :
      Effect build state (records.map .attr) next
  | block {before next : ReaderState} {data : List UInt8} {outcome : Except Unit Unit}
      (hattrs : before.attrs = state.attrs)
      (hcommon : before.commonTypeOffset = state.commonTypeOffset)
      (hparse : tracingBody build data before = .ok (outcome, next)) :
      Effect build state [.block data outcome.isOk] next

/-- An operation without an effect on the descriptions. -/
theorem Effect.none (hattrs : next.attrs = state.attrs)
    (hcommon : next.commonTypeOffset = state.commonTypeOffset) : Effect build state [] next :=
  .attrs [] hattrs hcommon

theorem parseTracingData_effect {before : ReaderState} (hattrs : before.attrs = state.attrs)
    (hcommon : before.commonTypeOffset = state.commonTypeOffset)
    (h : before.parseTracingData build = .ok next) :
    ∃ received, blockReceipts build before = .ok received ∧ Effect build state received next := by
  unfold parseTracingData at h
  unfold blockReceipts
  dsimp only at h ⊢
  by_cases hsignature : (before.header PerfHeaderIndex.tracingData).take tracingSignature.length ≠
      tracingSignature
  · rw [if_pos hsignature] at h ⊢
    obtain rfl := Except.ok.inj h
    exact ⟨[], rfl, .none hattrs hcommon⟩
  · rw [if_neg hsignature] at h ⊢
    obtain ⟨⟨outcome, last⟩, hparse, h⟩ := bind_eq_ok.1 h
    obtain rfl := Except.ok.inj h
    rw [hparse, ok_bind]
    exact ⟨_, rfl, .block hattrs hcommon hparse⟩

theorem parseHeaderClockid_kept (state : ReaderState) :
    state.parseHeaderClockid.attrs = state.attrs ∧
      state.parseHeaderClockid.commonTypeOffset = state.commonTypeOffset := by
  unfold parseHeaderClockid
  dsimp only
  split_ifs
  · exact ⟨rfl, rfl⟩
  · exact ⟨rfl, rfl⟩

theorem parseHeaderClockData_kept (build : Build) (state : ReaderState) :
    (state.parseHeaderClockData build).attrs = state.attrs ∧
      (state.parseHeaderClockData build).commonTypeOffset = state.commonTypeOffset := by
  unfold parseHeaderClockData
  dsimp only
  split_ifs
  · exact ⟨rfl, rfl⟩
  · exact ⟨rfl, rfl⟩
  · exact ⟨rfl, rfl⟩
  · exact ⟨rfl, rfl⟩
  · exact ⟨rfl, rfl⟩

theorem headerFeature_kept {data : List UInt8} (h : headerFeature build state data = .ok next) :
    next.attrs = state.attrs ∧ next.commonTypeOffset = state.commonTypeOffset := by
  unfold headerFeature at h
  split_ifs at h
  · obtain rfl := Except.ok.inj h
    exact ⟨rfl, rfl⟩
  · obtain ⟨index, _, h⟩ := bind_eq_ok.1 h
    split_ifs at h
    · rw [← Except.ok.inj h]
      exact parseHeaderClockid_kept _
    · rw [← Except.ok.inj h]
      exact parseHeaderClockData_kept build _
    · rw [← Except.ok.inj h]
      exact ⟨rfl, rfl⟩
    · rw [← Except.ok.inj h]
      exact ⟨rfl, rfl⟩

theorem header_effect {index : Fin 32} {bytes : List UInt8}
    (h : (ReaderOp.header index bytes).run build state = .ok next) :
    ∃ received, (ReaderOp.header index bytes).receipts build state = .ok received ∧
      Effect build state received next := by
  change OpenState.parseHeader build index (state.setHeader index bytes) = .ok next at h
  unfold OpenState.parseHeader at h
  unfold receipts
  dsimp only
  by_cases hclockId : index = PerfHeaderIndex.clockId
  · subst hclockId
    obtain rfl := Except.ok.inj h
    obtain ⟨hattrs, hcommon⟩ := parseHeaderClockid_kept (state.setHeader PerfHeaderIndex.clockId bytes)
    exact ⟨[], rfl, .none hattrs hcommon⟩
  rw [if_neg hclockId] at h
  by_cases hclockData : index = PerfHeaderIndex.clockData
  · subst hclockData
    obtain rfl := Except.ok.inj h
    obtain ⟨hattrs, hcommon⟩ :=
      parseHeaderClockData_kept build (state.setHeader PerfHeaderIndex.clockData bytes)
    exact ⟨[], rfl, .none hattrs hcommon⟩
  rw [if_neg hclockData] at h
  by_cases heventDesc : index = PerfHeaderIndex.eventDesc
  · rw [if_pos heventDesc] at h ⊢
    obtain ⟨records, hrecords, hattrs, hcommon⟩ := parseHeaderEventDesc_records h
    rw [hrecords, ok_bind]
    exact ⟨_, rfl, .attrs records hattrs hcommon⟩
  rw [if_neg heventDesc] at h ⊢
  by_cases htracing : index = PerfHeaderIndex.tracingData
  · rw [if_pos htracing] at h ⊢
    exact parseTracingData_effect rfl rfl h
  · rw [if_neg htracing] at h ⊢
    obtain rfl := Except.ok.inj h
    exact ⟨[], rfl, .none rfl rfl⟩

theorem event_effect {ty : ℕ} {data : List UInt8}
    (h : (ReaderOp.event ty data).run build state = .ok next) :
    ∃ received, (ReaderOp.event ty data).receipts build state = .ok received ∧
      Effect build state received next := by
  change plainEvent build state ty data = .ok next at h
  unfold plainEvent at h
  unfold receipts
  dsimp only
  by_cases hattr : ty = PerfEventHeaderType.headerAttr
  · rw [if_pos hattr] at h ⊢
    obtain ⟨records, hrecords, rfl⟩ := headerAttr_records h
    rw [hrecords, ok_bind]
    exact ⟨_, rfl, .attrs records rfl rfl⟩
  rw [if_neg hattr] at h ⊢
  by_cases hbuildId : ty = PerfEventHeaderType.headerBuildId
  · subst hbuildId
    obtain rfl := Except.ok.inj h
    rw [if_neg fun hinit ↦ absurd hinit.1 (by decide)]
    exact ⟨[], rfl, .none rfl rfl⟩
  rw [if_neg hbuildId] at h
  by_cases hfeature : ty = PerfEventHeaderType.headerFeature
  · subst hfeature
    rw [if_pos rfl] at h
    obtain ⟨hattrs, hcommon⟩ := headerFeature_kept h
    rw [if_neg fun hinit ↦ absurd hinit.1 (by decide)]
    exact ⟨[], rfl, .none hattrs hcommon⟩
  rw [if_neg hfeature] at h
  by_cases hinit : ty = PerfEventHeaderType.finishedInit ∧
      state.header PerfHeaderIndex.eventDesc ≠ []
  · rw [if_pos hinit] at h ⊢
    obtain ⟨records, hrecords, hattrs, hcommon⟩ := parseHeaderEventDesc_records h
    rw [hrecords, ok_bind]
    exact ⟨_, rfl, .attrs records hattrs hcommon⟩
  · rw [if_neg hinit] at h ⊢
    obtain rfl := Except.ok.inj h
    exact ⟨[], rfl, .none rfl rfl⟩

/-- Every operation has such an effect. -/
theorem run_effect {op : ReaderOp} (h : op.run build state = .ok next) :
    ∃ received, op.receipts build state = .ok received ∧ Effect build state received next := by
  cases op with
  | attrsEntry attrBytes idsBytes =>
    obtain ⟨attrs, hattrs, h⟩ := bind_eq_ok.1 h
    obtain rfl := Except.ok.inj h
    exact ⟨_, rfl, .attrs [_] (receive_of_addAttr hattrs) rfl⟩
  | header index bytes => exact header_effect h
  | dataSection start stop =>
    obtain rfl := Except.ok.inj h
    exact ⟨[], rfl, .none rfl rfl⟩
  | event ty data => exact event_effect h
  | tracingData data =>
    change tracingDataEvent build state data = .ok next at h
    unfold tracingDataEvent at h
    unfold receipts
    dsimp only
    by_cases hparsed : state.parsedTracingData = true
    · rw [if_pos hparsed] at h ⊢
      obtain rfl := Except.ok.inj h
      exact ⟨[], rfl, .none rfl rfl⟩
    · rw [if_neg hparsed] at h ⊢
      exact parseTracingData_effect rfl rfl h

/-! ### Runs -/

theorem runAll_append {first second : List ReaderOp} {received more : List Receipt}
    {mid last : ReaderState} (hfirst : runAll build first state = .ok (received, mid))
    (hsecond : runAll build second mid = .ok (more, last)) :
    runAll build (first ++ second) state = .ok (received ++ more, last) := by
  induction first generalizing state received with
  | nil =>
    obtain ⟨rfl, rfl⟩ := Prod.mk.inj (Except.ok.inj hfirst)
    exact hsecond
  | cons op ops ih =>
    obtain ⟨own, hown, hfirst⟩ := bind_eq_ok.1 hfirst
    obtain ⟨next, hnext, hfirst⟩ := bind_eq_ok.1 hfirst
    obtain ⟨⟨rest, last'⟩, hrest, hfirst⟩ := bind_eq_ok.1 hfirst
    obtain ⟨rfl, rfl⟩ := Prod.mk.inj (Except.ok.inj hfirst)
    rw [List.cons_append, runAll, hown, ok_bind, hnext, ok_bind, ih hrest, ok_bind,
      List.append_assoc]

end ReaderOp

/-- A run of operations of a reader of a file with the given byte order. -/
def ReaderRun (build : Build) (received : List Receipt) (state : ReaderState) : Prop :=
  ∃ (order : ByteOrder) (ops : List ReaderOp),
    ReaderOp.runAll build ops { ReaderState.new with sessionInfo := .new order } =
      .ok (received, state)

/-- What was received so far, and the descriptions: those of the attributes, with the formats of the
block once there was one. Nothing is said of runs with more than one block, or with one that was not
read to its end. -/
inductive LinkInv (build : Build) (received : List Receipt) (state : ReaderState) : Prop
  | unparsed (hblocks : Receipt.blocks received = [])
      (hattrs : state.attrs = ReaderAttrs.new.receiveAll (Receipt.attrs received))
      (hunset : state.commonTypeOffset = EventOffsets.offsetUnset)
  | parsed {data : List UInt8} {formats : List PerfEventFormat}
      (hblocks : Receipt.blocks received = [(data, true)])
      (hformats : blockFormats build data = .ok formats)
      (hattrs : state.attrs =
        (ReaderAttrs.new.receiveAll (Receipt.attrs received)).linked (usableFormats formats))
  | other (hblocks : ∀ data, ¬Receipt.blocks received <+: [(data, true)])

theorem new_unlinked : ReaderAttrs.new.Unlinked := ⟨rfl, nofun⟩

/-- One operation keeps the invariant. -/
theorem LinkInv.step {received more : List Receipt} (hinv : LinkInv build received state)
    (heffect : ReaderOp.Effect build state more next) : LinkInv build (received ++ more) next := by
  cases heffect with
  | attrs records hattrs hcommon =>
    have hblocksEq : Receipt.blocks (received ++ records.map .attr) = Receipt.blocks received := by
      rw [Receipt.blocks_append, Receipt.blocks_map, List.append_nil]
    have hattrsEq : Receipt.attrs (received ++ records.map .attr) =
        Receipt.attrs received ++ records := by
      rw [Receipt.attrs_append, Receipt.attrs_map]
    cases hinv with
    | unparsed hblocks hold hunset =>
      refine .unparsed (hblocksEq.trans hblocks) ?_ (hcommon.trans hunset)
      rw [hattrs, hold, hattrsEq, receiveAll_append]
    | parsed hblocks hformats hold =>
      refine .parsed (hblocksEq.trans hblocks) hformats ?_
      rw [hattrs, hold, hattrsEq, receiveAll_append]
      exact receiveAll_linked _ (new_unlinked.receiveAll _) records
    | other hblocks =>
      refine .other fun data ↦ ?_
      rw [hblocksEq]
      exact hblocks data
  | @block before next data outcome hattrs hcommon hparse =>
    have hblocksEq : Receipt.blocks (received ++ [.block data outcome.isOk]) =
        Receipt.blocks received ++ [(data, outcome.isOk)] := Receipt.blocks_append _ _
    have hattrsEq : Receipt.attrs (received ++ [.block data outcome.isOk]) =
        Receipt.attrs received :=
      (Receipt.attrs_append _ _).trans (List.append_nil _)
    cases hinv with
    | unparsed hblocks hold hunset =>
      cases outcome with
      | error early =>
        refine .other fun other ↦ ?_
        rw [hblocksEq, hblocks]
        intro hle
        cases (List.prefix_cons_iff.mp hle) with
        | inl h => cases h
        | inr h =>
          obtain ⟨_, heq, _⟩ := h
          cases (Prod.mk.inj (List.cons.inj heq).1).2
      | ok value =>
        have hunlinked : before.attrs.Unlinked := by
          rw [hattrs, hold]
          exact new_unlinked.receiveAll _
        obtain ⟨formats, hformats, hlinked⟩ :=
          tracingBody_linked hunlinked (hcommon.trans hunset) hparse
        refine .parsed (hblocksEq.trans (by rw [hblocks]; rfl)) hformats ?_
        rw [hlinked, hattrs, hold, hattrsEq]
    | parsed hblocks _ _ =>
      refine .other fun other hle ↦ ?_
      have hlength := hle.length_le
      rw [hblocksEq, hblocks] at hlength
      exact absurd hlength (by simp)
    | other hblocks =>
      refine .other fun other hle ↦ hblocks other ?_
      rw [hblocksEq] at hle
      exact (List.prefix_append _ _).trans hle

/-- A run keeps the invariant. -/
theorem LinkInv.runAll {ops : List ReaderOp} {received more : List Receipt}
    (hinv : LinkInv build received state)
    (h : ReaderOp.runAll build ops state = .ok (more, next)) :
    LinkInv build (received ++ more) next := by
  induction ops generalizing state received more with
  | nil =>
    obtain ⟨rfl, rfl⟩ := Prod.mk.inj (Except.ok.inj h)
    rw [List.append_nil]
    exact hinv
  | cons op ops ih =>
    obtain ⟨own, hown, h⟩ := bind_eq_ok.1 h
    obtain ⟨mid, hmid, h⟩ := bind_eq_ok.1 h
    obtain ⟨⟨rest, last⟩, hrest, h⟩ := bind_eq_ok.1 h
    obtain ⟨rfl, rfl⟩ := Prod.mk.inj (Except.ok.inj h)
    obtain ⟨own', hown', heffect⟩ := ReaderOp.run_effect hmid
    rw [hown] at hown'
    obtain rfl := Except.ok.inj hown'
    rw [← List.append_assoc]
    exact ih (hinv.step heffect) hrest

theorem ReaderRun.linkInv {received : List Receipt} (h : ReaderRun build received state) :
    LinkInv build received state := by
  obtain ⟨order, ops, hrun⟩ := h
  have hstart : LinkInv build [] { ReaderState.new with sessionInfo := .new order } :=
    .unparsed rfl rfl rfl
  exact hstart.runAll hrun

/-- Where one block was received and read to its end, the descriptions are linked. -/
theorem ReaderRun.linked {received : List Receipt} {data : List UInt8}
    (h : ReaderRun build received state) (hblock : Receipt.blocks received = [(data, true)]) :
    ∃ formats, blockFormats build data = .ok formats ∧ state.attrs =
      (ReaderAttrs.new.receiveAll (Receipt.attrs received)).linked (usableFormats formats) := by
  cases h.linkInv with
  | unparsed hblocks _ _ => cases hblocks.symm.trans hblock
  | parsed hblocks hformats hattrs =>
    obtain ⟨rfl, _⟩ := Prod.mk.inj (List.cons.inj (hblocks.symm.trans hblock)).1
    exact ⟨_, hformats, hattrs⟩
  | other hblocks => exact absurd (hblock ▸ List.prefix_rfl) (hblocks data)

/-! ### Readers -/

/-- One more operation. -/
theorem ReaderRun.op {received : List Receipt} (h : ReaderRun build received state) (op : ReaderOp)
    (hop : op.run build state = .ok next) : ∃ received, ReaderRun build received next := by
  obtain ⟨order, ops, hrun⟩ := h
  obtain ⟨more, hmore, _⟩ := ReaderOp.run_effect hop
  refine ⟨received ++ (more ++ []), order, ops ++ [op], ReaderOp.runAll_append hrun ?_⟩
  rw [ReaderOp.runAll, hmore, ok_bind, hop, ok_bind, ReaderOp.runAll, ok_bind]

theorem AddsAttrs.readerRun {start : ReaderState} (h : AddsAttrs build start state)
    (hstart : ∃ received, ReaderRun build received start) :
    ∃ received, ReaderRun build received state := by
  induction h with
  | refl => exact hstart
  | @step state attrBytes idsBytes attrs _ hadd ih =>
    obtain ⟨received, hrun⟩ := ih
    refine hrun.op (.attrsEntry attrBytes idsBytes) ?_
    unfold ReaderOp.run
    dsimp only
    rw [hadd, ok_bind]

theorem LoadsHeaders.readerRun {source : Fin 32 → List UInt8} {indexes : List (Fin 32)}
    {last : ReaderState} (h : LoadsHeaders build source indexes state last)
    (hstate : ∃ received, ReaderRun build received state) :
    ∃ received, ReaderRun build received last := by
  induction h with
  | nil => exact hstate
  | cons hparse _ ih =>
    obtain ⟨received, hrun⟩ := hstate
    exact ih (hrun.op (.header _ _) hparse)

theorem Opened.readerRun {content : Except IoError (List UInt8)} (h : Opened build content state) :
    ∃ received, ReaderRun build received state := by
  have hstart (order : ByteOrder) : ∃ received, ReaderRun build received
      { ReaderState.new with sessionInfo := .new order } := ⟨[], order, [], rfl⟩
  cases h with
  | new => exact hstart .little
  | @loaded _ order _ _ _ _ _ hattrs hheaders _ dataBegin dataEnd =>
    obtain ⟨received, hrun⟩ := LoadsHeaders.readerRun hheaders
      (AddsAttrs.readerRun hattrs (hstart order))
    exact hrun.op (.dataSection dataBegin dataEnd) rfl

/-- What a read does is an operation. -/
theorem StateEffect.readerRun {file : InputFile} (h : StateEffect build state file next)
    (hstate : ∃ received, ReaderRun build received state) :
    ∃ received, ReaderRun build received next := by
  obtain ⟨received, hrun⟩ := hstate
  cases h with
  | same => exact ⟨received, hrun⟩
  | event _ hevent => exact hrun.op (.event _ _) hevent
  | tracingData _ _ hevent => exact hrun.op (.tracingData _) hevent

/-- The parsed part of every reader that opened a file and moved to events is reached by a run of
operations. -/
theorem HandleReaches.readerRun {condition : DataFileReader → Prop}
    {handle opened reached : ReaderHandle} {content : Except IoError (List UInt8)}
    {eventOrder : PerfDataFileEventOrder} {outcome : Except IoError Unit}
    (hopen : handle.openFile build content eventOrder = .ok (outcome, opened))
    (hreaches : HandleReaches build condition opened reached) :
    ∃ received, ReaderRun build received reached.reader.toReaderState :=
  @HandleReaches.state build condition opened reached
    (fun state ↦ ∃ received, ReaderRun build received state) hreaches
    (fun _ _ _ hread hstate ↦ StateEffect.readerRun hread.effect hstate)
    (Opened.readerRun (ReaderHandle.openFile_opened hopen))

/-- Format linking does not depend on the order of arrival. Assumes: a reader that received one block
of tracing data and read it to its end, and attributes before or behind it. A description has the last
usable format of the block with its id, or none; and a reader that received the same attributes in
their order has the same descriptions, ids and formats, wherever it received the block. -/
theorem formatLinks_orderFree {received : List Receipt} {data : List UInt8}
    (hrun : ReaderRun build received state) (hblock : Receipt.blocks received = [(data, true)]) :
    ∃ formats, blockFormats build data = .ok formats ∧
      (∀ desc ∈ state.attrs.eventDescList,
        desc.format = linkFormat (usableFormats formats) desc.attr) ∧
      ∀ (received' : List Receipt) (state' : ReaderState), ReaderRun build received' state' →
        Receipt.blocks received' = [(data, true)] →
        Receipt.attrs received' = Receipt.attrs received →
        state'.attrs.eventDescList = state.attrs.eventDescList ∧
          state'.attrs.eventDescIdToIndex = state.attrs.eventDescIdToIndex ∧
          state'.attrs.formatById = state.attrs.formatById := by
  obtain ⟨formats, hformats, hattrs⟩ := hrun.linked hblock
  refine ⟨formats, hformats, ?_, ?_⟩
  · rw [hattrs]
    intro desc hdesc
    exact (new_unlinked.receiveAll _).linked_format _ hdesc
  · intro received' state' hrun' hblock' hsame
    obtain ⟨formats', hformats', hattrs'⟩ := hrun'.linked hblock'
    obtain rfl : formats' = formats := Except.ok.inj (hformats'.symm.trans hformats)
    rw [hattrs', hattrs, hsame]
    exact ⟨rfl, rfl, rfl⟩

/-- A format file with the id 7. -/
def sampleFormatFile : List UInt8 :=
  ascii "name: ev\nID: 7\nformat:\n\tfield:short common_type;\toffset:0;\tsize:2;\n\nprint fmt: \n"

/-- Tracing data with one system and one format. -/
def sampleBlock : List UInt8 :=
  tracingSignature ++ ascii "0.5" ++ [0, 0, 8, 0, 16, 0, 0] ++ ascii "header_page" ++
    List.replicate 9 0 ++ ascii "header_event" ++ List.replicate 9 0 ++ [0, 0, 0, 0, 1, 0, 0, 0] ++
    ascii "sys" ++ [0, 1, 0, 0, 0] ++
    [.ofNat sampleFormatFile.length, 0, 0, 0, 0, 0, 0, 0] ++ sampleFormatFile ++ List.replicate 8 0

/-- A `HeaderAttr` event of the tracepoint 7 with the sample id 5. -/
def sampleAttrEvent : ReaderOp :=
  .event PerfEventHeaderType.headerAttr ([2, 0, 0, 0, 64, 0, 0, 0, 7, 0, 0, 0, 0, 0, 0, 0] ++
    List.replicate 48 0 ++ [5, 0, 0, 0, 0, 0, 0, 0])

/-- What a run of operations on a little-endian file ends with. -/
def sampleRun (ops : List ReaderOp) : List Receipt × ReaderState :=
  match ReaderOp.runAll releaseBuild ops .new with
  | .ok result => result
  | .error _ => ([], .new)

theorem sampleRun_readerRun {ops : List ReaderOp}
    (h : (ReaderOp.runAll releaseBuild ops .new).isOk = true) :
    ReaderRun releaseBuild (sampleRun ops).1 (sampleRun ops).2 := by
  refine ⟨.little, ops, ?_⟩
  unfold sampleRun
  cases hrun : ReaderOp.runAll releaseBuild ops .new with
  | error fault =>
    rw [hrun] at h
    cases h
  | ok result => exact hrun

/-- The attribute in front of the block and behind it: one description, with the format. -/
theorem sampleBlock_orderFree :
    (sampleRun [sampleAttrEvent, .tracingData sampleBlock]).2.attrs.eventDescList.map
        (fun desc ↦ desc.format.map PerfEventFormat.id) = [some 7] ∧
      (sampleRun [.tracingData sampleBlock, sampleAttrEvent]).2.attrs.eventDescList =
        (sampleRun [sampleAttrEvent, .tracingData sampleBlock]).2.attrs.eventDescList := by
  have hfirst : ReaderRun releaseBuild (sampleRun [sampleAttrEvent, .tracingData sampleBlock]).1
      (sampleRun [sampleAttrEvent, .tracingData sampleBlock]).2 :=
    sampleRun_readerRun (by decide +kernel)
  have hsecond : ReaderRun releaseBuild (sampleRun [.tracingData sampleBlock, sampleAttrEvent]).1
      (sampleRun [.tracingData sampleBlock, sampleAttrEvent]).2 :=
    sampleRun_readerRun (by decide +kernel)
  have hblock : Receipt.blocks (sampleRun [sampleAttrEvent, .tracingData sampleBlock]).1 =
      [(sampleBlock, true)] := by decide +kernel
  obtain ⟨_, _, _, hsame⟩ := formatLinks_orderFree hfirst hblock
  exact ⟨by decide +kernel, (hsame _ _ hsecond (by decide +kernel) (by decide +kernel)).1⟩

end Tracepoints
