import Mathlib.Data.List.Induction
import Tracepoints.Perf.AttrOffsets
import Tracepoints.Perf.FormatLinks
import Tracepoints.Perf.WrittenHeaders

/-!
# The EVENT_DESC header read back

`parse_header_event_desc` on the header that `synthesize_event_desc` makes. A record is `Readable` where
the reader does not stop at it: its attribute says the size that is written, and it has at most 65536
ids. `eventDescLoop_written` says that the reader receives the descriptions in front of the first one
that is not; `eventDescRoundTrips_iff` is when it receives all of them.
-/

set_option autoImplicit false
set_option relaxedAutoImplicit false

namespace Tracepoints

open Exec

/-! ### Attributes, ids and names -/

namespace ReaderAttrs

theorem readIds_idsBytes (build : Build) (ids : List UInt64) :
    readIds build.targetEndian (DataFileWriter.idsBytes build ids) = ids := by
  unfold readIds
  rw [DataFileWriter.length_idsBytes, Nat.mul_div_cancel _ (by decide)]
  induction ids with
  | nil => rfl
  | cons id ids ih =>
    have hlength : (build.targetEndian.toBytes 8 id.toNat).length = 8 :=
      build.targetEndian.length_toBytes _ _
    have hbytes : DataFileWriter.idsBytes build (id :: ids) =
        build.targetEndian.toBytes 8 id.toNat ++ DataFileWriter.idsBytes build ids := rfl
    rw [List.length_cons, List.range_succ_eq_map, List.map_cons, List.map_map, hbytes]
    refine congrArg₂ List.cons ?_ (Eq.trans ?_ ih)
    · rw [Nat.mul_zero, List.drop_zero, List.take_left' hlength,
        ByteOrder.ofBytes_toBytes id.toNat_lt, UInt64.ofNat_toNat]
    · refine List.map_congr_left fun index _ ↦ ?_
      dsimp only [Function.comp]
      rw [Nat.mul_succ, Nat.add_comm, ← List.drop_drop, List.drop_left' hlength]

/-- An attribute of the full size is read back. -/
theorem readAttr_toBytes (build : Build) (attr : PerfEventAttr) :
    readAttr build build.targetEndian (attr.toBytes build.targetEndian) =
      { attr with size := 128 } := by
  unfold readAttr
  rw [PerfEventAttr.length_toBytes, Nat.sub_self, List.replicate_zero,
    PerfEventAttr.ofBytes_toBytes]
  dsimp only
  rw [if_neg (not_not.mpr rfl)]
  rfl

theorem fromLatin1_of_ascii {bytes : List UInt8} (h : ∀ c ∈ bytes, c ≤ 0x7F) :
    fromLatin1 bytes = bytes := by
  induction bytes with
  | nil => rfl
  | cons c bytes ih =>
    rw [List.forall_mem_cons] at h
    have hc : c < 0x80 := by
      have hle := UInt8.le_iff_toNat_le.mp h.1
      rw [UInt8.lt_iff_toNat_lt]
      exact Nat.lt_succ_of_le hle
    unfold fromLatin1 at ih ⊢
    rw [List.flatMap_cons, if_pos hc, ih h.2]
    rfl

end ReaderAttrs

/-! ### Records -/

namespace WriterEventDesc

/-- What `add_attr` is given for a description. -/
def record (desc : WriterEventDesc) : AttrRecord := ⟨desc.attr, desc.name, desc.sampleIds⟩

/-- The reader does not stop at the record of a description. -/
def Readable (desc : WriterEventDesc) : Prop :=
  desc.attr.size = 128 ∧ desc.sampleIds.length ≤ 0x10000

instance (desc : WriterEventDesc) : Decidable desc.Readable :=
  inferInstanceAs (Decidable (_ ∧ _))

/-- The sizes of a description that a writer has. -/
structure Sized (desc : WriterEventDesc) : Prop where
  name_length : desc.name.length < DataFileWriter.nameMaxSize
  ids_length : desc.sampleIds.length < DataFileWriter.sampleIdsMaxSize
  name_nul : 0 ∉ desc.name

end WriterEventDesc

namespace ReaderState

open DataFileWriter

section Loop

variable {build : Build} {data : List UInt8} {pos : ℕ} {desc : WriterEventDesc}

/-- Where the fields of a record are. -/
structure RecordAt (build : Build) (data : List UInt8) (pos : ℕ) (desc : WriterEventDesc) : Prop where
  attr : PlacedAt data pos (desc.attr.toBytes build.targetEndian)
  size : PlacedAt data (pos + 4) (build.targetEndian.toBytes 4 desc.attr.size.toNat)
  idsCount : PlacedAt data (pos + 128) (build.targetEndian.toBytes 4 desc.sampleIds.length)
  stringSize : PlacedAt data (pos + 128 + 4)
    (build.targetEndian.toBytes 4 (desc.name.length + (8 - desc.name.length % 8)))
  string : PlacedAt data (pos + 128 + 8)
    (desc.name ++ List.replicate (8 - desc.name.length % 8) 0)
  ids : PlacedAt data (pos + 128 + 8 + (desc.name.length + (8 - desc.name.length % 8)))
    (idsBytes build desc.sampleIds)

theorem recordAt (h : PlacedAt data pos (eventDescRecord build desc)) :
    RecordAt build data pos desc := by
  have hattr : (desc.attr.toBytes build.targetEndian).length = 128 :=
    PerfEventAttr.length_toBytes _ _
  have hword (value : ℕ) : (build.targetEndian.toBytes 4 value).length = 4 :=
    build.targetEndian.length_toBytes _ _
  have hfields : desc.attr.toBytes build.targetEndian =
      build.targetEndian.toBytes 4 desc.attr.attrType.toNat ++
        (build.targetEndian.toBytes 4 desc.attr.size.toNat ++
          Record.encode build.targetEndian
            ((PerfEventAttr.widths.zip desc.attr.values).drop 2)) := rfl
  unfold eventDescRecord at h
  dsimp only at h
  obtain ⟨h, hids⟩ := placedAt_append.mp h
  obtain ⟨h, hstring⟩ := placedAt_append.mp h
  obtain ⟨h, hsize⟩ := placedAt_append.mp h
  obtain ⟨hattrAt, hcount⟩ := placedAt_append.mp h
  simp only [List.length_append, hattr, hword, List.length_replicate] at hids hstring hsize hcount
  refine ⟨hattrAt, ?_, hcount, ?_, ?_, ?_⟩
  · rw [hfields] at hattrAt
    have hbehind := (placedAt_append.mp hattrAt).2
    rw [hword] at hbehind
    exact (placedAt_append.mp hbehind).1
  · rw [Nat.add_assoc]
    exact hsize
  · rw [Nat.add_assoc]
    exact hstring
  · rw [Nat.add_assoc, Nat.add_assoc, ← Nat.add_assoc 128]
    exact hids

theorem length_eventDescRecord (desc : WriterEventDesc) :
    (eventDescRecord build desc).length = 128 + 8 +
      (desc.name.length + (8 - desc.name.length % 8)) + desc.sampleIds.length * 8 := by
  have hattr : (desc.attr.toBytes build.targetEndian).length = 128 :=
    PerfEventAttr.length_toBytes _ _
  unfold eventDescRecord
  simp only [List.length_append, hattr, ByteOrder.length_toBytes, length_idsBytes,
    List.length_replicate]

theorem takeWhile_string {name : List UInt8} (hnul : 0 ∉ name) {pad : ℕ} (hpad : 0 < pad) :
    (name ++ List.replicate pad 0).takeWhile (· ≠ 0) = name := by
  rw [List.takeWhile_append_of_pos]
  · obtain ⟨rest, rfl⟩ : ∃ rest, pad = rest + 1 := ⟨pad - 1, by omega⟩
    rw [List.replicate_succ, List.takeWhile_cons_of_neg (by simp), List.append_nil]
  · intro c hc
    have hne : c ≠ 0 := fun heq ↦ hnul (heq ▸ hc)
    simpa using hne

/-- One record: the reader receives it, or stops. -/
theorem eventDescLoop_succ (hsized : desc.Sized) {behind : List UInt8} {count : ℕ}
    {attrs : ReaderAttrs} (hpos : pos ≤ data.length)
    (h : PlacedAt data pos (eventDescRecord build desc ++ behind)) :
    eventDescLoop build build.targetEndian data 128 (count + 1) pos attrs =
      if desc.Readable then
        eventDescLoop build build.targetEndian data 128 count
          (pos + (eventDescRecord build desc).length) (attrs.receive desc.record)
      else .ok attrs := by
  obtain ⟨hrecord, -⟩ := placedAt_append.mp h
  have hat := recordAt hrecord
  have hlength := hrecord.length_le hpos
  rw [length_eventDescRecord] at hlength
  have hname := hsized.name_length
  have hids := hsized.ids_length
  unfold nameMaxSize at hname
  unfold sampleIdsMaxSize at hids
  have hpad : 8 - desc.name.length % 8 ≤ 8 := Nat.sub_le _ _
  have hstringSize : desc.name.length + (8 - desc.name.length % 8) ≤ 0x10000 := by omega
  have hsize : readUInt build.targetEndian 4 data (pos + 4) = .ok desc.attr.size.toNat :=
    hat.size.readUInt_eq (by decide) desc.attr.size.toNat_lt
  have hcount : readUInt build.targetEndian 4 data (pos + 128) = .ok desc.sampleIds.length :=
    hat.idsCount.readUInt_eq (by decide) (by omega)
  have hstring : readUInt build.targetEndian 4 data (pos + 128 + 4) =
      .ok (desc.name.length + (8 - desc.name.length % 8)) :=
    hat.stringSize.readUInt_eq (by decide) (by omega)
  rw [eventDescLoop, sub_of_le hpos, ok_bind, if_neg (by omega), hcount, ok_bind, hstring, ok_bind]
  unfold PerfEventAttr.sizeOffset
  rw [hsize, ok_bind]
  dsimp only
  rw [sub_of_le (by omega), ok_bind]
  by_cases hreadable : desc.Readable
  · obtain ⟨hfull, hfew⟩ := hreadable
    have hsame : (128 : ℕ) = desc.attr.size.toNat := by rw [hfull]; rfl
    have hstringLength : (desc.name ++ List.replicate (8 - desc.name.length % 8) 0).length =
        desc.name.length + (8 - desc.name.length % 8) := by
      rw [List.length_append, List.length_replicate]
    have hslice := hat.string.slice_eq (by omega)
    rw [hstringLength] at hslice
    have hidsSlice := hat.ids.slice_eq (by omega)
    rw [length_idsBytes] at hidsSlice
    have hattrSlice := hat.attr.slice_eq hpos
    rw [PerfEventAttr.length_toBytes] at hattrSlice
    have hnul : 0 ∈ desc.name ++ List.replicate (8 - desc.name.length % 8) 0 :=
      List.mem_append_right _ (List.mem_replicate.mpr ⟨by omega, rfl⟩)
    rw [if_pos (show desc.Readable from ⟨hfull, hfew⟩), if_neg (by omega), hslice, ok_bind, if_neg (not_not.mpr hnul), hidsSlice,
      ok_bind, show min 128 PerfEventAttr.byteSize = PerfEventAttr.byteSize from rfl, hattrSlice,
      ok_bind, takeWhile_string hsized.name_nul (by omega),
      ReaderAttrs.addAttr_eq_receive (by rw [PerfEventAttr.length_toBytes]), ok_bind,
      length_idsBytes, length_eventDescRecord]
    have hattr : ({ desc.attr with size := 128 } : PerfEventAttr) = desc.attr := by rw [← hfull]
    unfold ReaderAttrs.record
    rw [ReaderAttrs.readAttr_toBytes, ReaderAttrs.readIds_idsBytes, hattr]
    congr 1
    omega
  · rw [if_neg hreadable, if_pos ?_]
    by_contra hcheck
    simp only [not_or, not_lt, ne_eq, not_not] at hcheck
    refine hreadable ⟨?_, hcheck.2.1⟩
    rw [← UInt32.toNat_inj, ← hcheck.1]
    rfl

/-- The reader receives the descriptions in front of the first one that is not readable. -/
theorem eventDescLoop_written {descs : List WriterEventDesc} (hsized : ∀ desc ∈ descs, desc.Sized)
    {attrs : ReaderAttrs} (hpos : pos ≤ data.length)
    (h : PlacedAt data pos (descs.flatMap (eventDescRecord build))) :
    eventDescLoop build build.targetEndian data 128 descs.length pos attrs =
      .ok (attrs.receiveAll ((descs.takeWhile fun desc ↦ desc.Readable).map WriterEventDesc.record)) := by
  induction descs generalizing pos attrs with
  | nil => rfl
  | cons desc descs ih =>
    rw [List.forall_mem_cons] at hsized
    rw [List.flatMap_cons] at h
    rw [List.length_cons, eventDescLoop_succ hsized.1 hpos h]
    by_cases hreadable : desc.Readable
    · obtain ⟨hrecord, hrest⟩ := placedAt_append.mp h
      rw [if_pos hreadable, ih hsized.2 (hrecord.length_le hpos) hrest,
        List.takeWhile_cons_of_pos (by simpa using hreadable), List.map_cons]
      rfl
    · rw [if_neg hreadable, List.takeWhile_cons_of_neg (by simpa using hreadable)]
      rfl

/-- What the reader receives from an `EVENT_DESC` header. -/
theorem parseHeaderEventDesc_written {descs : List WriterEventDesc} {state : ReaderState}
    (hcount : descs.length ≤ 0xFFFFFFFF) (hsized : ∀ desc ∈ descs, desc.Sized)
    (hheader : state.header PerfHeaderIndex.eventDesc = eventDescHeader build descs)
    (hunparsed : state.parsedHeaderEventDesc = false)
    (horder : state.sessionInfo.byteReader = build.targetEndian) :
    state.parseHeaderEventDesc build =
      .ok { state with
        parsedHeaderEventDesc := true
        attrs := state.attrs.receiveAll
          ((descs.takeWhile fun desc ↦ desc.Readable).map WriterEventDesc.record) } := by
  have hword (value : ℕ) : (build.targetEndian.toBytes 4 value).length = 4 :=
    build.targetEndian.length_toBytes _ _
  have hwhole : PlacedAt (eventDescHeader build descs) 0 (eventDescHeader build descs) :=
    List.prefix_rfl
  unfold eventDescHeader at hwhole
  obtain ⟨hfront, hrecords⟩ := placedAt_append.mp hwhole
  obtain ⟨hnr, hattrSize⟩ := placedAt_append.mp hfront
  rw [List.length_append, hword, hword, Nat.zero_add] at hrecords
  rw [hword, Nat.zero_add] at hattrSize
  have hlength : 8 ≤ (eventDescHeader build descs).length := by
    unfold eventDescHeader
    simp only [List.length_append, hword]
    omega
  have hloop := @eventDescLoop_written build _ _ descs hsized state.attrs hlength hrecords
  change eventDescLoop build build.targetEndian (eventDescHeader build descs) 128 descs.length 8
    state.attrs = _ at hloop
  have hnr : readUInt build.targetEndian 4 (eventDescHeader build descs) 0 = .ok descs.length :=
    hnr.readUInt_eq (by decide) (by omega)
  have hattrSize : readUInt build.targetEndian 4 (eventDescHeader build descs) 4 = .ok 128 :=
    hattrSize.readUInt_eq (by decide) (by decide)
  unfold parseHeaderEventDesc
  rw [hheader, hunparsed, horder]
  dsimp only
  rw [if_neg (by simp; omega), hnr, ok_bind, hattrSize, ok_bind, if_neg (by decide), hloop]
  rfl

end Loop

end ReaderState

/-! ### Receiving what was written -/

namespace ReaderAttrs

/-- The description that a reader makes of one that was written. -/
def readDesc (attrs : ReaderAttrs) (desc : WriterEventDesc) : PerfEventDesc :=
  .new desc.attr desc.name (attrs.formatOf desc.attr) desc.sampleIds

/-- The offsets of a reader are those of some attributes, or not known yet. -/
def Accepts (attrs : ReaderAttrs) (offsets : EventOffsets) : Prop :=
  attrs.offsets = .unset ∨ attrs.offsets = offsets

section Receive

variable {attrs : ReaderAttrs} {desc : WriterEventDesc} {offsets : EventOffsets}

theorem receive_written (haccepts : attrs.Accepts (.ofAttr desc.attr))
    (hascii : ∀ c ∈ desc.name, c ≤ 0x7F) :
    attrs.receive desc.record =
      { attrs with
        offsets := .ofAttr desc.attr
        eventDescList := attrs.eventDescList ++ [attrs.readDesc desc]
        eventDescIdToIndex := insertIds attrs.eventDescIdToIndex desc.sampleIds
          attrs.eventDescList.length } := by
  have hagree : agreeOffsets attrs.offsets (.ofAttr desc.attr) = (true, .ofAttr desc.attr) := by
    rcases haccepts with h | h
    · rw [h, agreeOffsets_unset]
    · rw [h, agreeOffsets_set (EventOffsets.ofAttr_isSet _), decide_eq_true rfl]
  unfold receive WriterEventDesc.record
  dsimp only
  rw [hagree, fromLatin1_of_ascii hascii]
  rfl

theorem lookup_insertIds_self {map : List (UInt64 × ℕ)} {ids : List UInt64} {index : ℕ} {id : UInt64} :
    (insertIds map ids index).lookup id =
      if id ∈ ids then some index else map.lookup id := by
  unfold insertIds
  induction ids generalizing map with
  | nil => rfl
  | cons head ids ih =>
    rw [List.foldl_cons, ih]
    by_cases hrest : id ∈ ids
    · rw [if_pos hrest, if_pos (List.mem_cons_of_mem _ hrest)]
    · rw [if_neg hrest, List.lookup_cons]
      by_cases hhead : id = head
      · rw [hhead, if_pos List.mem_cons_self, beq_self_eq_true]
      · rw [beq_false_of_ne hhead, if_neg (by rw [List.mem_cons, not_or]; exact ⟨hhead, hrest⟩)]

/-- What a reader has after it received descriptions: they are behind those it had, and each id denotes
the last of them that lists it. -/
structure Received (before after : ReaderAttrs) (descs : List WriterEventDesc) : Prop where
  list : after.eventDescList = before.eventDescList ++ descs.map before.readDesc
  byId : ∀ id desc, (descs.reverse.find? fun desc ↦ id ∈ desc.sampleIds) = some desc →
    after.eventDescById id = some (before.readDesc desc)

/-- Descriptions with the same offsets and names in ASCII are received. -/
theorem received_receiveAll {descs : List WriterEventDesc} (haccepts : attrs.Accepts offsets)
    (hagree : ∀ desc ∈ descs, EventOffsets.ofAttr desc.attr = offsets)
    (hascii : ∀ desc ∈ descs, ∀ c ∈ desc.name, c ≤ 0x7F) :
    Received attrs (attrs.receiveAll (descs.map WriterEventDesc.record)) descs ∧
      (attrs.receiveAll (descs.map WriterEventDesc.record)).Accepts offsets ∧
      (attrs.receiveAll (descs.map WriterEventDesc.record)).formatById = attrs.formatById := by
  induction descs using List.reverseRecOn with
  | nil => exact ⟨⟨(List.append_nil _).symm, nofun⟩, haccepts, rfl⟩
  | append_singleton descs desc ih =>
    simp only [List.forall_mem_append, List.forall_mem_singleton] at hagree hascii
    obtain ⟨hreceived, haccepts', hformats⟩ := ih hagree.1 hascii.1
    set before := attrs.receiveAll (descs.map WriterEventDesc.record) with hbefore
    have hstep : attrs.receiveAll ((descs ++ [desc]).map WriterEventDesc.record) =
        before.receive desc.record := by
      rw [List.map_append, receiveAll, List.foldl_append]
      rfl
    have hread : before.readDesc = attrs.readDesc := by
      funext other
      unfold readDesc formatOf
      rw [hformats]
    rw [hstep, receive_written (by rw [hagree.2]; exact haccepts') hascii.2, hread]
    refine ⟨⟨?_, fun id found hfound ↦ ?_⟩, .inr hagree.2, hformats⟩
    · dsimp only
      rw [hreceived.list, List.append_assoc, List.map_append, List.map_singleton]
    · unfold eventDescById
      dsimp only
      rw [lookup_insertIds_self]
      rw [List.reverse_append, List.reverse_singleton, List.singleton_append] at hfound
      by_cases hid : id ∈ desc.sampleIds
      · rw [List.find?_cons_of_pos (by simpa using hid)] at hfound
        obtain rfl := Option.some.inj hfound
        rw [if_pos hid, Option.bind_some, List.getElem?_concat_length]
      · rw [List.find?_cons_of_neg (by simpa using hid)] at hfound
        have hold := hreceived.byId id found hfound
        rw [if_neg hid]
        unfold eventDescById at hold
        obtain ⟨index, hindex, hget⟩ := Option.bind_eq_some_iff.mp hold
        rw [hindex, Option.bind_some, List.getElem?_append_left (List.getElem?_eq_some_iff.mp hget).1]
        exact hget

end Receive

end ReaderAttrs

/-! ### The round trip -/

namespace DataFileWriter

/-- The `EVENT_DESC` header is made without a panic, and a reader that parses it receives the
descriptions. -/
def EventDescRoundTrips (build : Build) (writer : DataFileWriter) (descs : List WriterEventDesc) :
    Prop :=
  ∃ after, writer.synthesizeEventDesc build = .ok after ∧
    ∀ state : ReaderState, state.header PerfHeaderIndex.eventDesc =
        after.header PerfHeaderIndex.eventDesc →
      state.parsedHeaderEventDesc = false → state.sessionInfo.byteReader = build.targetEndian →
      (∀ desc ∈ descs, state.attrs.Accepts (.ofAttr desc.attr)) →
      ∃ next, state.parseHeaderEventDesc build = .ok next ∧ state.attrs.Received next.attrs descs

/-- A state that has read nothing but an `EVENT_DESC` header. -/
def onlyEventDesc (build : Build) (header : List UInt8) : ReaderState :=
  { ReaderState.new with
    sessionInfo := .new build.targetEndian
    headers := ReaderState.new.headers.put PerfHeaderIndex.eventDesc header }

/-- The descriptions that a run of calls added come back exactly where their names are in ASCII, their
attributes have the size 128 and none has more than 65536 ids. -/
theorem eventDescRoundTrips_iff {build : Build} {calls : List WriterCall} {writer : PerfDataFileWriter}
    (hcollects : ∀ call ∈ calls, call.Collects)
    (hrun : WriterCall.runAll build calls .new = .ok (true, writer))
    (hunset : writer.inner.header PerfHeaderIndex.eventDesc = [])
    (hagree : ∀ first ∈ calls.filterMap WriterCall.newDesc?,
      ∀ second ∈ calls.filterMap WriterCall.newDesc?,
        EventOffsets.ofAttr first.attr = EventOffsets.ofAttr second.attr) :
    EventDescRoundTrips build writer.inner (calls.filterMap WriterCall.newDesc?) ↔
      ∀ desc ∈ calls.filterMap WriterCall.newDesc?,
        (∀ c ∈ desc.name, c ≤ 0x7F) ∧ desc.attr.size = 128 ∧ desc.sampleIds.length ≤ 0x10000 := by
  have hbounded := (WriterCall.runAll_sound .new hrun).bounded
  have hdescs : writer.inner.eventDescs = calls.filterMap WriterCall.newDesc? :=
    WriterCall.runAll_eventDescs hcollects hrun
  generalize calls.filterMap WriterCall.newDesc? = descs at hagree hdescs ⊢
  have hsized : ∀ desc ∈ descs, desc.Sized := fun desc hdesc ↦
    ⟨hbounded.name_length desc (hdescs ▸ hdesc), hbounded.ids_length desc (hdescs ▸ hdesc),
      hbounded.name_nul desc (hdescs ▸ hdesc)⟩
  have hsynthesize := synthesizeEventDesc_eq hbounded
    (.inr hunset : build.debugAssertions = false ∨ _)
  have hheader : (writer.inner.putHeader PerfHeaderIndex.eventDesc
      (eventDescHeader build writer.inner.eventDescs)).header PerfHeaderIndex.eventDesc =
        eventDescHeader build descs := by
    rw [PerfDataFileWriter.header_putHeader_self, hdescs]
  constructor
  · rintro ⟨after, hafter, hreads⟩
    by_cases hnames : writer.inner.AsciiNames
    swap
    · rw [hsynthesize, if_neg hnames] at hafter
      cases hafter
    rw [hsynthesize, if_pos hnames] at hafter
    obtain rfl := Except.ok.inj hafter
    have hput : (onlyEventDesc build (eventDescHeader build descs)).header PerfHeaderIndex.eventDesc =
        eventDescHeader build descs := Vector.getElem_set_self PerfHeaderIndex.eventDesc.isLt
    obtain ⟨next, hparse, hreceived⟩ := hreads _ (hput.trans hheader.symm) rfl rfl
      fun _ _ ↦ .inl rfl
    rw [ReaderState.parseHeaderEventDesc_written (hdescs ▸ hbounded.descs_length) hsized hput rfl rfl]
      at hparse
    obtain rfl := Except.ok.inj hparse
    have hascii : ∀ desc ∈ descs, ∀ c ∈ desc.name, c ≤ 0x7F := by
      rw [← hdescs]
      exact hnames
    -- the reader received a part at the front, of the same length
    have hfront : (descs.takeWhile fun desc ↦ desc.Readable) <+: descs := List.takeWhile_prefix _
    have hlist : (ReaderAttrs.new.receiveAll ((descs.takeWhile fun desc ↦ desc.Readable).map
        WriterEventDesc.record)).eventDescList =
          (descs.takeWhile fun desc ↦ desc.Readable).map ReaderAttrs.new.readDesc := by
      cases hcut : descs.takeWhile fun desc ↦ desc.Readable with
      | nil => rfl
      | cons first rest =>
        rw [hcut] at hfront
        have hmem := fun desc (hdesc : desc ∈ first :: rest) ↦ hfront.subset hdesc
        exact (ReaderAttrs.received_receiveAll (.inl rfl)
          (fun desc hdesc ↦ hagree desc (hmem desc hdesc) first (hmem first List.mem_cons_self))
          fun desc hdesc ↦ hascii desc (hmem desc hdesc)).1.list
    have hlength := congrArg List.length (hlist.symm.trans hreceived.list)
    rw [List.length_map, List.length_append, List.length_map] at hlength
    have hwhole : (descs.takeWhile fun desc ↦ desc.Readable) = descs :=
      hfront.eq_of_length (hlength.trans (Nat.zero_add _))
    intro desc hdesc
    have hreadable := List.takeWhile_eq_self_iff.mp hwhole desc hdesc
    exact ⟨hascii desc hdesc, of_decide_eq_true hreadable⟩
  · intro hall
    have hnames : writer.inner.AsciiNames := by
      rw [AsciiNames, hdescs]
      exact fun desc hdesc ↦ (hall desc hdesc).1
    rw [if_pos hnames] at hsynthesize
    refine ⟨_, hsynthesize, fun state hsame hunparsed horder haccepts ↦ ?_⟩
    have hparse := ReaderState.parseHeaderEventDesc_written (hdescs ▸ hbounded.descs_length) hsized
      (hsame.trans hheader) hunparsed horder
    have hreadable : (descs.takeWhile fun desc ↦ desc.Readable) = descs :=
      List.takeWhile_eq_self_iff.mpr fun desc hdesc ↦ decide_eq_true (hall desc hdesc).2
    rw [hreadable] at hparse
    refine ⟨_, hparse, ?_⟩
    cases descs with
    | nil => exact ⟨(List.append_nil _).symm, nofun⟩
    | cons first rest =>
      exact (ReaderAttrs.received_receiveAll (haccepts first List.mem_cons_self)
        (fun desc hdesc ↦ hagree desc hdesc first List.mem_cons_self)
        fun desc hdesc ↦ (hall desc hdesc).1).1

/-- An attribute without options. -/
def plainWritten : PerfEventAttr := { PerfEventAttr.ofValues [] with size := 128 }

/-- A writer without a file that was given one description. -/
def oneDesc (name : List UInt8) : PerfDataFileWriter :=
  ⟨DataFileWriter.new.addEventDesc name [5] plainWritten, none⟩

/-- Calls that add two descriptions. -/
def descCalls : List WriterCall :=
  [.addEventDesc [5] plainWritten (ascii "a"), .addEventDesc [6, 7] plainWritten (ascii "bc")]

/-- A writer without a file that was given two descriptions. -/
def twoDescs : PerfDataFileWriter :=
  ⟨(DataFileWriter.new.addEventDesc (ascii "a") [5] plainWritten).addEventDesc (ascii "bc") [6, 7]
    plainWritten, none⟩

theorem eventDescRoundTrips_ascii :
    WriterCall.runAll ⟨true, .little, true⟩ descCalls .new = .ok (true, twoDescs) ∧
      EventDescRoundTrips ⟨true, .little, true⟩ twoDescs.inner
        [⟨ascii "a", [5], plainWritten⟩, ⟨ascii "bc", [6, 7], plainWritten⟩] := by
  have hattrs (desc : WriterEventDesc)
      (hdesc : desc ∈ descCalls.filterMap WriterCall.newDesc?) : desc.attr = plainWritten := by
    rcases List.mem_cons.mp hdesc with rfl | hdesc
    · rfl
    · obtain rfl := List.mem_singleton.mp hdesc
      rfl
  have hcollects (call : WriterCall) (hcall : call ∈ descCalls) : call.Collects := by
    rcases List.mem_cons.mp hcall with rfl | hcall
    · trivial
    · obtain rfl := List.mem_singleton.mp hcall
      trivial
  refine ⟨rfl, (@eventDescRoundTrips_iff ⟨true, .little, true⟩ descCalls twoDescs hcollects rfl rfl
    (fun first hfirst second hsecond ↦ ?_)).mpr (by decide)⟩
  rw [hattrs first hfirst, hattrs second hsecond]

/-- A description with the name `é`, two bytes in UTF-8: it is accepted, and finalizing panics. -/
theorem eventDesc_not_ascii_panics :
    WriterCall.runAll ⟨true, .little, true⟩ [.addEventDesc [5] plainWritten [0xC3, 0xA9]] .new =
        .ok (true, oneDesc [0xC3, 0xA9]) ∧
      ¬EventDescRoundTrips ⟨true, .little, true⟩ (oneDesc [0xC3, 0xA9]).inner
        [⟨[0xC3, 0xA9], [5], plainWritten⟩] := by
  refine ⟨rfl, ?_⟩
  rintro ⟨after, hafter, -⟩
  have hpanics : ((oneDesc [0xC3, 0xA9]).inner.synthesizeEventDesc ⟨true, .little, true⟩).map
      (·.headers) = .error .indexOutOfRange := by decide +kernel
  rw [hafter] at hpanics
  cases hpanics

end DataFileWriter

end Tracepoints
