import Tracepoints.Perf.NonSampleInfo

/-!
# The keys of time order

`read_event_time_order` reads the time of an event at the shared offset, from the start of a sample and
from the end of other events, when it reads the event; `get_sample_event_info` and
`get_non_sample_event_info` walk over the parts that the sample type of the description selects, some
time later. They find the same time, since the offsets are those of every description (`AttrsInv`) and
stay what they are (`Extends`).
-/

set_option autoImplicit false
set_option relaxedAutoImplicit false

namespace Tracepoints

open Exec DataFileReader

/-! ### The offsets of the time -/

namespace EventOffsets

theorem sampleTime_eq {attr : PerfEventAttr}
    (h : hasFlag attr.sampleType PerfEventAttrSampleType.time = true) :
    (ofAttr attr).sampleTime = SamplePart.time.pos attr.sampleType := by
  have hcount : 8 * SamplePart.count attr.sampleType [.identifier, .ip, .tid] =
      SamplePart.identifier.size attr.sampleType + (SamplePart.ip.size attr.sampleType +
        (SamplePart.tid.size attr.sampleType + 0)) := by
    simp only [SamplePart.count_cons, SamplePart.count_nil]
  unfold SamplePart.pos
  rw [show SamplePart.all.takeWhile (· ≠ SamplePart.time) =
    [SamplePart.identifier, SamplePart.ip, SamplePart.tid] from rfl]
  unfold ofAttr timeOffsets
  unfold SamplePart.size SamplePart.flag at hcount
  dsimp only at hcount ⊢
  rw [h, Bool.not_true, if_neg Bool.false_ne_true]
  dsimp only
  omega

theorem nonSampleTime_eq {attr : PerfEventAttr}
    (h : hasFlag attr.sampleType PerfEventAttrSampleType.time = true)
    (hall : hasFlag attr.options PerfEventAttrOptions.sampleIdAll = true) :
    (ofAttr attr).nonSampleTime = (8 * SamplePart.count attr.sampleType
      [.time, .id, .streamId, .cpu, .identifier] : ℕ) := by
  have hcount : 8 * SamplePart.count attr.sampleType [.time, .id, .streamId, .cpu, .identifier] =
      SamplePart.time.size attr.sampleType + (SamplePart.id.size attr.sampleType +
        (SamplePart.streamId.size attr.sampleType + (SamplePart.cpu.size attr.sampleType +
          (SamplePart.identifier.size attr.sampleType + 0)))) := by
    simp only [SamplePart.count_cons, SamplePart.count_nil]
  have htime := @SamplePart.size_of_flag _ .time h
  rw [htime] at hcount
  unfold ofAttr timeOffsets
  unfold SamplePart.size SamplePart.flag at hcount
  dsimp only at hcount ⊢
  rw [h, Bool.not_true, if_neg Bool.false_ne_true, if_pos hall]
  dsimp only
  omega

/-- Where an event that is not a sample has an id, all events have it. -/
theorem sampleIdAll_of_nonSampleId {attr : PerfEventAttr} (h : ¬(ofAttr attr).nonSampleId < 8) :
    hasFlag attr.options PerfEventAttrOptions.sampleIdAll = true := by
  by_contra hall
  unfold ofAttr at h
  dsimp only at h
  rw [if_neg hall] at h
  exact h (by decide)

end EventOffsets

/-! ### The time of an event -/

namespace ReaderState

open InfoReader

variable {build : Build} {before later : ReaderState} {event : PerfEventBytes}

/-- The time that is read from a sample. -/
theorem sampleParts_time {data : List UInt8} {desc : PerfEventDesc} {id last : ℕ}
    {info : PerfSampleEventInfo} (hlower : 16 ≤ data.length)
    (h : sampleParts build later data desc id PerfEventHeader.byteSize = .ok (.ok info, last)) :
    info.eventDesc = desc ∧
      info.time = SamplePart.value later.sessionInfo.byteReader data desc.attr.sampleType .time 0 8 ∧
      SampleLayout.readStart desc.attr ≤ data.length := by
  unfold sampleParts at h
  dsimp only at h
  rw [Nat.mul_comm (data.length / 8) 8] at h
  have hdata : 8 * (data.length / 8) ≤ data.length := Nat.mul_div_le _ _
  have hone : 1 < data.length / 8 := by omega
  generalize data.length / 8 = n at hdata hone h
  have h0 : Behind desc.attr.sampleType n [] PerfEventHeader.byteSize := ⟨rfl, hone.le⟩
  obtain ⟨_, p1, hact, h⟩ := Act.bind_eq_ok.1 h
  have h1 := (identifierPart_ensures hone).of_ok h0 hact
  obtain ⟨ip, p2, hact, h⟩ := Act.bind_eq_ok.1 h
  have h2 := (@u64Part_ensures _ _ _ _ _ .ip hdata rfl).of_ok h1 hact
  obtain ⟨tid, p3, hact, h⟩ := Act.bind_eq_ok.1 h
  have h3 := (@u32Part_ensures _ _ _ _ _ .tid hdata rfl).of_ok h2.1 hact
  obtain ⟨time, p4, hact, h⟩ := Act.bind_eq_ok.1 h
  have h4 := (@u64Part_ensures _ _ _ _ _ .time hdata rfl).of_ok h3.1 hact
  obtain ⟨addr, p5, hact, h⟩ := Act.bind_eq_ok.1 h
  have h5 := (@u64Part_ensures _ _ _ _ _ .addr hdata rfl).of_ok h4.1 hact
  obtain ⟨_, p6, hact, h⟩ := Act.bind_eq_ok.1 h
  have h6 := idPart_ensures.of_ok h5.1 hact
  obtain ⟨streamId, p7, hact, h⟩ := Act.bind_eq_ok.1 h
  have h7 := (@u64Part_ensures _ _ _ _ _ .streamId hdata rfl).of_ok h6 hact
  obtain ⟨cpu, p8, hact, h⟩ := Act.bind_eq_ok.1 h
  have h8 := (@u32Part_ensures _ _ _ _ _ .cpu hdata rfl).of_ok h7.1 hact
  obtain ⟨period, p9, hact, h⟩ := Act.bind_eq_ok.1 h
  have h9 := (@u64Part_ensures _ _ _ _ _ .period hdata rfl).of_ok h8.1 hact
  obtain ⟨readRange, p10, _, h⟩ := Act.bind_eq_ok.1 h
  obtain ⟨callchainRange, p11, _, h⟩ := Act.bind_eq_ok.1 h
  obtain ⟨rawRange, p12, _, h⟩ := Act.bind_eq_ok.1 h
  obtain ⟨pos, p13, _, h⟩ := Act.bind_eq_ok.1 h
  obtain ⟨_, p14, _, h⟩ := Act.bind_eq_ok.1 h
  obtain ⟨hinfo, _⟩ := Prod.mk.inj (Except.ok.inj h)
  rw [← Except.ok.inj hinfo]
  refine ⟨rfl, h4.2, ?_⟩
  exact (Nat.mul_le_mul_left 8 h9.1.2).trans hdata

/-- The parts in front of the time, and the time, are among the parts of a sample. -/
theorem timePos_le_readStart {attr : PerfEventAttr}
    (h : hasFlag attr.sampleType PerfEventAttrSampleType.time = true) :
    SamplePart.time.pos attr.sampleType + 8 ≤ SampleLayout.readStart attr := by
  have htime := @SamplePart.size_of_flag _ .time h
  unfold SamplePart.pos SampleLayout.readStart
  rw [show SamplePart.all.takeWhile (· ≠ SamplePart.time) =
    [SamplePart.identifier, SamplePart.ip, SamplePart.tid] from rfl, Nat.mul_add, Nat.mul_add]
  unfold SamplePart.all
  simp only [SamplePart.count_cons, SamplePart.count_nil]
  omega

/-- The offsets of a description that is found later are those that were known before. -/
theorem offsets_of_found (hextends : before.Extends later) (hlist : before.attrs.eventDescList ≠ [])
    (hinv : later.attrs.AttrsInv) {id : UInt64} {desc : PerfEventDesc}
    (hdesc : later.attrs.eventDescById id = some desc) :
    before.attrs.offsets = .ofAttr desc.attr := by
  obtain ⟨hlater, hoffsets⟩ := hextends.offsets hlist
  have hmem : desc ∈ later.attrs.eventDescList := by
    unfold ReaderAttrs.eventDescById at hdesc
    obtain ⟨index, _, hindex⟩ := Option.bind_eq_some_iff.mp hdesc
    exact List.mem_of_getElem? hindex
  rcases hinv.agree with ⟨hempty, _⟩ | ⟨_, hagree⟩
  · exact absurd hempty hlater
  · rw [hagree desc hmem, hoffsets]

/-- The key of a sample is the time in its information. -/
theorem sample_timeKey (hextends : before.Extends later) (hlist : before.attrs.eventDescList ≠ [])
    (hinv : later.attrs.AttrsInv)
    (hty : readUInt before.sessionInfo.byteReader 4 event.data 0 = .ok PerfEventHeaderType.sample)
    {info : PerfSampleEventInfo} (hinfo : later.getSampleEventInfo build event = .ok (.ok info))
    (htime : hasFlag info.eventDesc.attr.sampleType PerfEventAttrSampleType.time = true) :
    eventTime before event.data = .ok info.time := by
  unfold getSampleEventInfo at hinfo
  dsimp only at hinfo
  by_cases hoffset : later.attrs.offsets.sampleId < 8
  · rw [if_pos hoffset] at hinfo
    cases hinfo
  rw [if_neg hoffset] at hinfo
  by_cases hshort : event.data.length < later.attrs.offsets.sampleId.toNat + 8
  · rw [if_pos hshort] at hinfo
    cases hinfo
  rw [if_neg hshort, readUInt_of_le (by omega), ok_bind, findDesc_returns hinv, ok_bind] at hinfo
  generalize later.sessionInfo.byteReader.ofBytes _ = id at hinfo
  cases hdesc : later.attrs.eventDescById (.ofNat id) with
  | none =>
    rw [hdesc] at hinfo
    cases hinfo
  | some desc =>
    rw [hdesc] at hinfo
    dsimp only at hinfo
    rw [debugAssert_of (by omega), ok_bind] at hinfo
    obtain ⟨⟨outcome, last⟩, hparts, hinfo⟩ := bind_eq_ok.1 hinfo
    obtain rfl := Except.ok.inj hinfo
    obtain ⟨rfl, hvalue, hfits⟩ := sampleParts_time (by omega) hparts
    have hpos := timePos_le_readStart htime
    have heq := offsets_of_found hextends hlist hinv hdesc
    have hsampleTime := EventOffsets.sampleTime_eq htime
    have hfirst : 8 ≤ SamplePart.time.pos info.eventDesc.attr.sampleType := by
      unfold SamplePart.pos
      omega
    unfold eventTime
    dsimp only
    rw [hty, ok_bind, if_pos rfl, heq, hsampleTime, if_neg (by omega), Int.toNat_natCast,
      readUInt_of_le (by omega), hvalue, ← hextends.byteReader]
    unfold SamplePart.value
    exact congrArg Except.ok (if_pos htime).symm

/-- The information about an event whose description selects the time. -/
theorem nonSampleInfo_correct (hinv : later.attrs.AttrsInv) (halign : 8 ∣ event.data.length)
    {info : PerfNonSampleEventInfo} {desc : PerfEventDesc}
    (hdesc : later.nonSampleDesc event = some desc)
    (hinfo : later.getNonSampleEventInfo build event = .ok (.ok info))
    (htime : hasFlag info.eventDesc.attr.sampleType PerfEventAttrSampleType.time = true) :
    info.eventDesc = desc ∧
      NonSampleCorrect later.sessionInfo.byteReader event.data desc.attr info := by
  obtain ⟨id, hid, hoffset, hfits, hvalue, heq⟩ :=
    @getNonSampleEventInfo_some build _ hinv event desc halign hdesc
  rw [heq] at hinfo
  obtain ⟨_, hassert, hinfo⟩ := bind_eq_ok.1 hinfo
  obtain ⟨⟨outcome, last⟩, hparts, hinfo⟩ := bind_eq_ok.1 hinfo
  obtain rfl := Except.ok.inj hinfo
  by_cases hlower : 8 + SamplePart.identifier.size desc.attr.sampleType ≤ event.data.length
  · rw [nonSampleParts_eq desc id hlower halign rfl] at hparts
    by_cases hroom : 8 * SamplePart.count desc.attr.sampleType SamplePart.trailing <
        event.data.length
    · rw [if_pos hroom] at hparts
      split_ifs at hparts
      obtain ⟨hok, _⟩ := Prod.mk.inj (Except.ok.inj hparts)
      obtain rfl := Except.ok.inj hok
      refine ⟨rfl, ?_⟩
      rw [hvalue]
      exact nonSampleInfoAt_correct (by omega) hoffset rfl
    · rw [if_neg hroom] at hparts
      cases hparts
  · -- the identifier is the header: there is no assertion, and a time would be read outside
    have hident : hasFlag desc.attr.sampleType PerfEventAttrSampleType.identifier = true := by
      by_contra hnot
      rw [@SamplePart.size_of_not_flag _ .identifier hnot] at hlower
      rcases nonSampleId_offset hoffset with ⟨hflag, _⟩ | ⟨_, _, hlength⟩
      · exact hnot hflag
      · omega
    rw [@SamplePart.size_of_flag _ .identifier hident] at hlower
    have hlength : event.data.length = 8 := by
      rcases nonSampleId_offset hoffset with ⟨_, hlength⟩ | ⟨hnot, _⟩
      · omega
      · exact absurd hident hnot
    have hrelease : build.debugAssertions = false := by
      cases hdebug : build.debugAssertions with
      | false => rfl
      | true =>
        unfold debugAssert at hassert
        rw [if_pos ⟨hdebug, by omega⟩] at hassert
        cases hassert
    rw [hlength] at hparts
    obtain ⟨other, hother, hdescEq, hnot⟩ :=
      nonSampleParts_header hrelease desc id hident hlength hparts
    obtain rfl := Except.ok.inj hother
    rw [hdescEq] at htime
    exact absurd htime hnot

/-- The key of another event of the kernel is the time in its information. -/
theorem nonSample_timeKey (hextends : before.Extends later)
    (hlist : before.attrs.eventDescList ≠ []) (hinv : later.attrs.AttrsInv)
    (halign : 8 ∣ event.data.length)
    (hty : readUInt before.sessionInfo.byteReader 4 event.data 0 = .ok event.header.ty)
    (hother : event.header.ty ≠ PerfEventHeaderType.sample)
    {info : PerfNonSampleEventInfo}
    (hinfo : later.getNonSampleEventInfo build event = .ok (.ok info))
    (htime : hasFlag info.eventDesc.attr.sampleType PerfEventAttrSampleType.time = true) :
    eventTime before event.data = .ok info.time := by
  cases hdesc : later.nonSampleDesc event with
  | none =>
    obtain ⟨error, herror⟩ := @getNonSampleEventInfo_none build _ hinv event hdesc
    rw [herror] at hinfo
    cases hinfo
  | some desc =>
    obtain ⟨rfl, hcorrect⟩ := nonSampleInfo_correct hinv halign hdesc hinfo htime
    obtain ⟨id, hid, hoffset, _⟩ :=
      @getNonSampleEventInfo_some build _ hinv event info.eventDesc halign hdesc
    have hoffsets := offsets_of_found hextends hlist hinv hid
    have hnonSampleTime :=
      EventOffsets.nonSampleTime_eq htime (EventOffsets.sampleIdAll_of_nonSampleId hoffset)
    have hsize := @SamplePart.size_of_flag _ .time htime
    have htotal := SamplePart.count_trailing info.eventDesc.attr.sampleType
    have hcount : 8 * SamplePart.count info.eventDesc.attr.sampleType
        [.time, .id, .streamId, .cpu, .identifier] =
          8 * SamplePart.count info.eventDesc.attr.sampleType SamplePart.trailing -
            SamplePart.tid.size info.eventDesc.attr.sampleType := by
      rw [htotal]
      simp only [SamplePart.count_cons, SamplePart.count_nil]
      omega
    have hbehind := hcorrect.behindHeader
    have hkernel : ¬PerfEventHeaderType.userTypeStart ≤ event.header.ty := by
      intro huser
      unfold nonSampleDesc at hdesc
      rw [if_pos (Or.inl huser)] at hdesc
      cases hdesc
    have hnot : ¬(PerfEventHeaderType.userTypeStart ≤ event.header.ty ∨
        before.attrs.offsets.nonSampleTime < 8 ∨
          event.data.length < before.attrs.offsets.nonSampleTime) := by
      rw [hoffsets, hnonSampleTime, hcount]
      rintro (h | h | h)
      · exact hkernel h
      · omega
      · omega
    unfold eventTime
    dsimp only
    rw [hty, ok_bind, if_neg hother, if_neg hnot, hoffsets, hnonSampleTime, Int.toNat_natCast,
      sub_of_le (by omega), ok_bind, readUInt_of_le (by omega), hcorrect.time,
      ← hextends.byteReader]
    unfold SamplePart.trailingValue
    exact congrArg Except.ok (if_pos htime).symm

end ReaderState

/-! ### From the read of an event to a later call -/

variable {build : Build}

namespace DataFileReader

variable {reader r next last : DataFileReader}

/-- What holds of a state that extends another one. -/
def ExtendsInv (first state : ReaderState) : Prop := state.attrs.AttrsInv ∧ first.Extends state

theorem ExtendsInv.effect {first state state' : ReaderState} {file : InputFile}
    (h : ExtendsInv first state) (heffect : StateEffect build state file state') :
    ExtendsInv first state' := by
  obtain ⟨hinv, hextends⟩ := heffect.attrsInv h.1
  exact ⟨hinv, h.2.trans hextends⟩

theorem FillReads.attrsInv (h : FillReads build reader r) (hinv : reader.attrs.AttrsInv) :
    r.attrs.AttrsInv := by
  induction h with
  | first => exact hinv
  | later hstep _ ih => exact ih ((fillStep_leaves hstep).effect.attrsInv hinv).1

/-- The rest of the loop extends what an iteration leaves. -/
theorem FillReads.extends {goesOn : Bool} {fuel : ℕ} (hreads : FillReads build reader r)
    (hinv : reader.attrs.AttrsInv) (hstep : fillStep build r = .ok (goesOn, next))
    (h : fillQueue build fuel reader = .ok last) :
    ExtendsInv next.toReaderState last.toReaderState := by
  induction hreads generalizing fuel with
  | first reader =>
    cases fuel with
    | zero => cases h
    | succ fuel =>
      rw [fillQueue_succ, hstep, ok_bind] at h
      have hstart : ExtendsInv next.toReaderState next.toReaderState :=
        ⟨((fillStep_leaves hstep).effect.attrsInv hinv).1, .refl _⟩
      cases goesOn with
      | false =>
        obtain rfl := Except.ok.inj h
        exact hstart
      | true =>
        exact @fillQueue_state _ _ (ExtendsInv next.toReaderState) fuel last
          (fun _ _ _ hread hstate ↦ hstate.effect hread.effect) h hstart
  | later hfirst _ ih =>
    cases fuel with
    | zero => cases h
    | succ fuel =>
      rw [fillQueue_succ, hfirst, ok_bind] at h
      exact ih ((fillStep_leaves hfirst).effect.attrsInv hinv).1 hstep h

/-- The entry that an iteration queues. -/
theorem fillStep_entry {goesOn : Bool} {entry : QueueEntry} {bytes : List UInt8}
    (hstep : fillStep build reader = .ok (goesOn, next))
    (hqueue : next.eventQueue = reader.eventQueue ++ [entry])
    (hbytes : next.bytesOf entry.bytesRef = .ok bytes) :
    ∃ time closes, eventTime next.toReaderState bytes = .ok time ∧
      closesRound next.toReaderState bytes = .ok closes ∧
      entry.time = if closes then 2 ^ 64 - 1 else time := by
  unfold fillStep at hstep
  obtain ⟨read, hread, hstep⟩ := bind_eq_ok.1 hstep
  have hsame : read.reader.eventQueue = reader.eventQueue := by
    rw [(readOneEvent_readEvent hread).rest]
  match hresult : read.result with
  | .ok true =>
    rw [hresult] at hstep
    dsimp only at hstep
    obtain ⟨other, hother, hstep⟩ := bind_eq_ok.1 hstep
    obtain ⟨time, htime, hstep⟩ := bind_eq_ok.1 hstep
    obtain ⟨closes, hcloses, hstep⟩ := bind_eq_ok.1 hstep
    obtain ⟨_, rfl⟩ := Prod.mk.inj (Except.ok.inj hstep)
    dsimp only at hqueue
    rw [hsame] at hqueue
    obtain rfl := (List.cons.inj (List.append_cancel_left hqueue)).1
    obtain rfl : other = bytes := Except.ok.inj (hother.symm.trans hbytes)
    exact ⟨time, closes, htime, hcloses, rfl⟩
  | .ok false =>
    rw [hresult] at hstep
    obtain ⟨_, rfl⟩ := Prod.mk.inj (Except.ok.inj hstep)
    dsimp only at hqueue
    rw [hsame] at hqueue
    exact absurd hqueue (by simp)
  | .error error =>
    rw [hresult] at hstep
    obtain ⟨_, rfl⟩ := Prod.mk.inj (Except.ok.inj hstep)
    dsimp only at hqueue
    rw [hsame] at hqueue
    exact absurd hqueue (by simp)

end DataFileReader

namespace ReaderHandle

variable {handle moved later : ReaderHandle} {next : DataFileReader} {bytes : List UInt8} {key : ℕ}

/-- A call of `move_next_event` in time order reads the bytes of an event and queues it under a key;
`next` is the reader right behind the read. -/
structure Queues (build : Build) (handle : ReaderHandle) (next : DataFileReader)
    (bytes : List UInt8) (key : ℕ) : Prop where
  isOpen : handle.isOpen = true
  timeOrder : handle.reader.eventOrder = .time
  reads : ∃ reader goesOn entry, ReadsAt build handle.reader reader ∧
    fillStep build reader = .ok (goesOn, next) ∧
    next.eventQueue = reader.eventQueue ++ [entry] ∧ entry.time = key ∧
    next.bytesOf entry.bytesRef = .ok bytes

/-- Later calls extend what the read left. -/
theorem Queues.extends (hqueues : handle.Queues build next bytes key)
    (hinv : handle.reader.attrs.AttrsInv) {result : Except IoError Bool}
    (hmoved : handle.moveNextEvent build = .ok (result, moved))
    (hlater : HandleReaches build (fun _ ↦ True) moved later) :
    ExtendsInv next.toReaderState later.reader.toReaderState := by
  obtain ⟨reader, goesOn, entry, hreads, hstep, _⟩ := hqueues.reads
  unfold ReadsAt at hreads
  rw [hqueues.timeOrder] at hreads
  obtain ⟨hnone, hfill⟩ := hreads
  have hmovedInv : ExtendsInv next.toReaderState moved.reader.toReaderState := by
    unfold moveNextEvent at hmoved
    rw [if_pos hqueues.isOpen] at hmoved
    obtain ⟨read, hread, hmoved⟩ := bind_eq_ok.1 hmoved
    obtain ⟨_, rfl⟩ := Prod.mk.inj (Except.ok.inj hmoved)
    unfold DataFileReader.moveNextEvent at hread
    rw [hqueues.timeOrder] at hread
    rcases readEventTimeOrder_cases hread with htake | ⟨filled, _, hfilled, htake⟩
    · rw [hnone] at htake
      cases htake
    · show ExtendsInv _ read.reader.toReaderState
      rw [takeQueued_state htake]
      show ExtendsInv _ filled.toReaderState
      exact hfill.extends hinv hstep hfilled
  exact @HandleReaches.state _ _ _ _ (ExtendsInv next.toReaderState) hlater
    (fun _ _ _ hread hstate ↦ hstate.effect hread.effect) hmovedInv

end ReaderHandle

/-- An event of the kernel does not close a round, so its key is its time. -/
theorem key_of_kernelEvent {state : ReaderState} {bytes : List UInt8} {ty time key : ℕ} {closes : Bool}
    (hty : readUInt state.sessionInfo.byteReader 4 bytes 0 = .ok ty)
    (hkernel : ty < PerfEventHeaderType.userTypeStart)
    (hcloses : closesRound state bytes = .ok closes)
    (hkey : key = if closes then 2 ^ 64 - 1 else time) : key = time := by
  have hround : ty ≠ PerfEventHeaderType.finishedRound := by
    rintro rfl
    exact absurd hkernel (by decide)
  have hinit : ty ≠ PerfEventHeaderType.finishedInit := by
    rintro rfl
    exact absurd hkernel (by decide)
  unfold closesRound at hcloses
  rw [hty, ok_bind] at hcloses
  have hfalse : closes = false := by
    rw [← Except.ok.inj hcloses]
    exact decide_eq_false (not_or.mpr ⟨hround, hinit⟩)
  rw [hfalse, if_neg Bool.false_ne_true] at hkey
  exact hkey

/-- The offsets of a reader agree, and so do the keys of time order. In every reader, also between the
attributes that it receives one behind the other, no offset is set and there is no description, or the
offsets are those of every description; an attribute that `add_attr` rejects changes nothing. Where an
event of a length that is a multiple of eight is read and queued in time order while there is a
description, and `get_sample_event_info` or `get_non_sample_event_info` returns information about it
later, whose description selects the time, then the key is the time in the information. -/
theorem attrOffsets_timeKeys {handle : ReaderHandle} (hreachable : handle.Reachable build) :
    (∀ records byteReader attrBytes name idsBytes next,
      (handle.reader.attrs.receiveAll records).OffsetsAgree ∧
        ((handle.reader.attrs.receiveAll records).addAttr build byteReader attrBytes name idsBytes =
            .ok next →
          (handle.reader.attrs.receiveAll records).addAttrResult build byteReader attrBytes = false →
          next = handle.reader.attrs.receiveAll records)) ∧
    (∀ reader, ReadsAt build handle.reader reader → reader.attrs.OffsetsAgree) ∧
    ∀ next bytes key, handle.Queues build next bytes key → next.attrs.eventDescList ≠ [] →
      8 ∣ bytes.length → ∀ result moved later, handle.moveNextEvent build = .ok (result, moved) →
      HandleReaches build (fun _ ↦ True) moved later → ∀ event : PerfEventBytes, event.data = bytes →
      readUInt next.sessionInfo.byteReader 4 bytes 0 = .ok event.header.ty →
      (event.header.ty = PerfEventHeaderType.sample → ∀ info,
        later.reader.toReaderState.getSampleEventInfo build event = .ok (.ok info) →
        hasFlag info.eventDesc.attr.sampleType PerfEventAttrSampleType.time = true →
        key = info.time) ∧
      (event.header.ty ≠ PerfEventHeaderType.sample → ∀ info,
        later.reader.toReaderState.getNonSampleEventInfo build event = .ok (.ok info) →
        hasFlag info.eventDesc.attr.sampleType PerfEventAttrSampleType.time = true →
        key = info.time) := by
  have hinv := hreachable.attrsInv
  refine ⟨?_, ?_, ?_⟩
  · intro records byteReader attrBytes name idsBytes next
    have hreceived := (hinv.receiveAll records).1
    refine ⟨hreceived.agree, fun hadd hrejected ↦ ?_⟩
    rw [ReaderAttrs.receive_of_addAttr hadd]
    exact hreceived.rejected hrejected
  · intro reader hreads
    unfold ReadsAt at hreads
    cases horder : handle.reader.eventOrder with
    | file =>
      rw [horder] at hreads
      rw [hreads]
      exact hinv.agree
    | time =>
      rw [horder] at hreads
      exact (hreads.2.attrsInv hinv).agree
  · intro next bytes key hqueues hlist halign result moved later hmoved hlater event hdata hty
    obtain ⟨hlaterInv, hextends⟩ := hqueues.extends hinv hmoved hlater
    obtain ⟨reader, goesOn, entry, _, hstep, hqueue, hkey, hbytes⟩ := hqueues.reads
    obtain ⟨time, closes, htime, hcloses, hentry⟩ := fillStep_entry hstep hqueue hbytes
    rw [hkey] at hentry
    rw [← hdata] at hty halign htime hcloses
    constructor
    · intro hsample info hinfo hflag
      have hkernel : event.header.ty < PerfEventHeaderType.userTypeStart := by
        rw [hsample]
        decide
      rw [key_of_kernelEvent hty hkernel hcloses hentry]
      rw [hsample] at hty
      have hinfoTime := ReaderState.sample_timeKey hextends hlist hlaterInv hty hinfo hflag
      exact Except.ok.inj (htime.symm.trans hinfoTime)
    · intro hother info hinfo hflag
      have hkernel : event.header.ty < PerfEventHeaderType.userTypeStart := by
        by_contra huser
        unfold ReaderState.getNonSampleEventInfo at hinfo
        rw [if_pos (not_lt.mp huser)] at hinfo
        cases hinfo
      rw [key_of_kernelEvent hty hkernel hcloses hentry]
      have hinfoTime :=
        ReaderState.nonSample_timeKey hextends hlist hlaterInv halign hty hother hinfo hflag
      exact Except.ok.inj (htime.symm.trans hinfoTime)

/-- A reader in time order of a stream with an attribute and a sample. -/
def timeHandle : ReaderHandle :=
  attrHandle releaseBuild .time (attrStream 0x10424 5 chainSample.data) 0

/-- The reader behind a number of reads of the first call. -/
def timeReader : ℕ → DataFileReader
  | 0 => timeHandle.reader.drained
  | count + 1 =>
    match fillStep releaseBuild (timeReader count) with
    | .ok (_, next) => next
    | .error _ => timeReader count

/-- The handle behind the first call, which returns the attribute. -/
def timeMoved : ReaderHandle :=
  ⟨⟨{ timeReader 3 with eventQueueConsumed := 1 }, ⟨0, 0, 80⟩⟩, true⟩

/-- The events come in the order of their times. -/
theorem timeHandle_moved : timeHandle.moveNextEvent releaseBuild = .ok (.ok true, timeMoved) := by
  have hnone : timeHandle.reader.takeQueued = none := by decide +kernel
  have hfilled : fillQueue releaseBuild (timeHandle.reader.file.content.length + 1)
      timeHandle.reader.drained = .ok (timeReader 3) := by decide +kernel
  have hsorted : (timeReader 3).eventQueue.mergeSort entryLe = (timeReader 3).eventQueue :=
    List.mergeSort_of_pairwise (by decide +kernel)
  have hround : nextRound releaseBuild timeHandle.reader = .ok (timeReader 3) := by
    unfold nextRound
    change fillQueue releaseBuild _ timeHandle.reader.drained >>= _ = _
    rw [hfilled, ok_bind, hsorted]
  have hread : readEventTimeOrder releaseBuild timeHandle.reader =
      .ok ⟨.ok true, ⟨0, 0, 80⟩, { timeReader 3 with eventQueueConsumed := 1 }⟩ := by
    unfold readEventTimeOrder
    rw [hnone, hround]
    decide +kernel
  have horder : timeHandle.reader.eventOrder = .time := by decide +kernel
  unfold ReaderHandle.moveNextEvent DataFileReader.moveNextEvent
  rw [if_pos (by decide +kernel), horder, hread]
  rfl

/-- The sample is queued under the time in its information. -/
theorem chainSample_timeKey : ∃ info,
    timeHandle.Queues releaseBuild (timeReader 2) chainSample.data 7 ∧
      timeMoved.reader.toReaderState.getSampleEventInfo releaseBuild chainSample = .ok (.ok info) ∧
      7 = info.time := by
  have hfirst : fillStep releaseBuild (timeReader 0) = .ok (true, timeReader 1) := by decide +kernel
  have horder : timeHandle.reader.eventOrder = .time := by decide +kernel
  have hqueues : timeHandle.Queues releaseBuild (timeReader 2) chainSample.data 7 := by
    refine ⟨by decide +kernel, horder, timeReader 1, true, ⟨7, 1, ⟨0, 80, 136⟩⟩, ?_,
      by decide +kernel, by decide +kernel, rfl, by decide +kernel⟩
    unfold ReadsAt
    rw [horder]
    exact ⟨by decide +kernel, .later hfirst (.first _)⟩
  have hsome : (returnedInfo (timeMoved.reader.toReaderState.getSampleEventInfo releaseBuild
      chainSample)).map (fun info ↦ hasFlag info.eventDesc.attr.sampleType
        PerfEventAttrSampleType.time) = some true := by decide +kernel
  have hkeys := (attrOffsets_timeKeys (attrHandle_reachable releaseBuild .time
    (attrStream 0x10424 5 chainSample.data) 0)).2.2 (timeReader 2) chainSample.data 7 hqueues
      (by decide +kernel) (by decide) _ _ _ timeHandle_moved .refl chainSample rfl
      (by decide +kernel)
  generalize timeMoved.reader.toReaderState.getSampleEventInfo releaseBuild chainSample = result
    at hsome hkeys ⊢
  match result with
  | .ok (.ok info) => exact ⟨info, hqueues, rfl, hkeys.1 rfl info rfl (Option.some.inj hsome)⟩
  | .ok (.error error) => cases hsome
  | .error fault => cases hsome

end Tracepoints
