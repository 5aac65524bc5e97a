import Tracepoints.Perf.SampleInfo

/-!
# The layout at the end of other events

Events that are not samples have the selected parts of `struct sample_id` at their end. The parts are
read from the last one on; a part that would start at the start of the event is an error. `StepsBack`
says this of a part and of a sequence of parts, so `get_non_sample_event_info` of an event of at least
16 bytes is one equation (`nonSampleParts_eq`). An event of eight bytes is its header alone: an id that
is found there was read from the header.
-/

set_option autoImplicit false
set_option relaxedAutoImplicit false

namespace Tracepoints

open Exec

/-! ### The layout -/

namespace SamplePart

/-- The parts at the end of an event, in order. -/
def trailing : List SamplePart := [tid, time, id, streamId, cpu, identifier]

/-- The position of a part at the end of an event of the given length. -/
def trailingPos (sampleType : UInt64) (length : ℕ) (part : SamplePart) : ℕ :=
  length - 8 * count sampleType (trailing.dropWhile (· ≠ part))

/-- The integer of `width` bytes at an offset in a part, or 0 where the part is not selected. -/
def trailingValue (order : ByteOrder) (data : List UInt8) (sampleType : UInt64)
    (part : SamplePart) (offset width : ℕ) : ℕ :=
  if hasFlag sampleType part.flag then
    order.ofBytes ((data.drop (part.trailingPos sampleType data.length + offset)).take width)
  else 0

/-- The size of a part. -/
def size (sampleType : UInt64) (part : SamplePart) : ℕ :=
  8 * (hasFlag sampleType part.flag).toNat

theorem size_of_flag {sampleType : UInt64} {part : SamplePart}
    (h : hasFlag sampleType part.flag = true) : part.size sampleType = 8 := by
  unfold size
  rw [h]
  rfl

theorem size_of_not_flag {sampleType : UInt64} {part : SamplePart}
    (h : ¬hasFlag sampleType part.flag = true) : part.size sampleType = 0 := by
  unfold size
  rw [Bool.not_eq_true] at h
  rw [h]
  rfl

theorem count_cons (sampleType : UInt64) (part : SamplePart) (parts : List SamplePart) :
    8 * count sampleType (part :: parts) = part.size sampleType + 8 * count sampleType parts := by
  unfold count size
  rw [List.countP_cons]
  cases hasFlag sampleType part.flag with
  | false => exact (Nat.zero_add _).symm
  | true => exact (Nat.mul_succ _ _).trans (Nat.add_comm _ _)

theorem count_nil (sampleType : UInt64) : 8 * count sampleType [] = 0 := rfl

/-- The size of all parts. -/
theorem count_trailing (sampleType : UInt64) :
    8 * count sampleType trailing = tid.size sampleType + time.size sampleType +
      id.size sampleType + streamId.size sampleType + cpu.size sampleType +
      identifier.size sampleType := by
  unfold trailing
  simp only [count_cons, count_nil]
  omega

end SamplePart

/-- The information is what the layout at the end of the event says for the description, behind the
header of the event. An identifier stands for the id. -/
structure NonSampleCorrect (order : ByteOrder) (data : List UInt8) (attr : PerfEventAttr)
    (info : PerfNonSampleEventInfo) : Prop where
  data_eq : info.data = data
  behindHeader : 8 + 8 * SamplePart.count attr.sampleType SamplePart.trailing ≤ data.length
  pid : info.pid = SamplePart.trailingValue order data attr.sampleType .tid 0 4
  tid : info.tid = SamplePart.trailingValue order data attr.sampleType .tid 4 4
  time : info.time = SamplePart.trailingValue order data attr.sampleType .time 0 8
  streamId : info.streamId = SamplePart.trailingValue order data attr.sampleType .streamId 0 8
  cpu : info.cpu = SamplePart.trailingValue order data attr.sampleType .cpu 0 4
  cpuReserved : info.cpuReserved = SamplePart.trailingValue order data attr.sampleType .cpu 4 4
  id : info.id =
    if hasFlag attr.sampleType PerfEventAttrSampleType.identifier then
      SamplePart.trailingValue order data attr.sampleType .identifier 0 8
    else SamplePart.trailingValue order data attr.sampleType .id 0 8

/-! ### Parts read backwards -/

namespace InfoReader

variable {α β : Type} {build : Build} {order : ByteOrder} {data : List UInt8} {sampleType : UInt64}
  {length : ℕ}

/-- The action takes a part of the given size in front of a position inside the event; it ends with the
result for the position in front of the part, or leaves where the part would start at the start of the
event. -/
def StepsBack (length : ℕ) (action : InfoReader α) (size : ℕ)
    (result : ℕ → Exec (Except PerfDataFileError α × ℕ)) : Prop :=
  8 ∣ size ∧ ∀ pos, 8 ≤ pos → 8 ∣ pos → pos ≤ length →
    action pos = if size < pos then result (pos - size) else .ok (.error .invalidData, 0)

/-- One part in front of the others. -/
theorem StepsBack.bind {first : InfoReader α} {next : α → InfoReader β} {size rest : ℕ}
    {value : ℕ → α} {result : α → ℕ → Exec (Except PerfDataFileError β × ℕ)}
    (hfirst : StepsBack length first size fun pos ↦ .ok (.ok (value pos), pos))
    (hnext : ∀ value, StepsBack length (next value) rest (result value)) :
    StepsBack length (first >>= next) (size + rest) fun pos ↦ result (value (pos + rest)) pos := by
  refine ⟨Nat.dvd_add hfirst.1 (hnext (value 0)).1, fun pos hpos halign hle ↦ ?_⟩
  have heq := hfirst.2 pos hpos halign hle
  by_cases hroom : size < pos
  · rw [if_pos hroom] at heq
    have hsize := hfirst.1
    rw [Act.bind_of_ok heq, (hnext _).2 (pos - size) (by omega) (by omega) (by omega)]
    by_cases hrest : rest < pos - size
    · rw [if_pos hrest, if_pos (by omega), Nat.sub_add_eq]
      dsimp only
      rw [Nat.sub_add_cancel hrest.le]
    · rw [if_neg hrest, if_neg (by omega)]
  · rw [if_neg hroom] at heq
    rw [Act.bind_of_early heq, if_neg (by omega)]

/-- What takes no part. -/
theorem StepsBack.rest (action : InfoReader α) : StepsBack length action 0 action := by
  refine ⟨dvd_zero 8, fun pos hpos _ _ ↦ ?_⟩
  rw [if_pos (by omega), Nat.sub_zero]

theorem stepBack_of_le {count pos : ℕ} (h : count ≤ pos) :
    stepBack build count pos = .ok (.ok (pos - count), pos - count) := by
  have hupdate : (Act.updateM fun pos ↦ subUsize build pos count : InfoReader Unit) pos =
      .ok (.ok (), pos - count) := Act.updateM_ok (subUsize_of_le h)
  unfold stepBack
  rw [Act.bind_of_ok hupdate]
  rfl

theorem expectBehind_ok {pos : ℕ} (h : pos ≠ 0) (state : ℕ) :
    expectBehind pos state = .ok (.ok (), state) := by
  unfold expectBehind
  rw [if_neg h]
  rfl

theorem expectBehind_early {pos : ℕ} (h : pos = 0) (state : ℕ) :
    expectBehind pos state = .ok (.error .invalidData, state) := by
  unfold expectBehind
  rw [if_pos h]
  rfl

/-- A part that the sample type does not select. -/
theorem stepsBack_skip {part : SamplePart} (hflag : ¬hasFlag sampleType part.flag = true) (value : α) :
    StepsBack length (pure value) (part.size sampleType) fun pos ↦ .ok (.ok value, pos) := by
  rw [SamplePart.size_of_not_flag hflag]
  exact .rest _

/-- A part that ends with the check that it is not at the start of the event. -/
theorem stepsBack_part {part : SamplePart} {action : InfoReader α} {value : ℕ → α}
    (hflag : hasFlag sampleType part.flag = true)
    (haction : ∀ pos, pos + 8 ≤ length → action (pos + 8) = (do
      expectBehind pos
      pure (value pos) : InfoReader α) pos) :
    StepsBack length action (part.size sampleType) fun pos ↦ .ok (.ok (value pos), pos) := by
  rw [SamplePart.size_of_flag hflag]
  refine ⟨dvd_refl 8, fun pos hpos halign hle ↦ ?_⟩
  obtain ⟨front, rfl⟩ := Nat.exists_eq_add_of_le' hpos
  rw [haction front hle]
  by_cases hfront : front = 0
  · rw [Act.bind_of_early (expectBehind_early hfront _), if_neg (by omega), hfront]
  · rw [Act.bind_of_ok (expectBehind_ok hfront _), if_pos (by omega), Nat.add_sub_cancel]
    rfl

/-- The value at a position of a part that may not be selected. -/
def valueIf (order : ByteOrder) (data : List UInt8) (sampleType : UInt64) (part : SamplePart)
    (width pos : ℕ) : ℕ :=
  if hasFlag sampleType part.flag then order.ofBytes ((data.drop pos).take width) else 0

theorem valueIf_of_flag {part : SamplePart} (hflag : hasFlag sampleType part.flag = true)
    (width pos : ℕ) :
    valueIf order data sampleType part width pos = order.ofBytes ((data.drop pos).take width) :=
  if_pos hflag

theorem valueIf_of_not_flag {part : SamplePart} (hflag : ¬hasFlag sampleType part.flag = true)
    (width pos : ℕ) : valueIf order data sampleType part width pos = 0 :=
  if_neg hflag

theorem u64Back_stepsBack (part : SamplePart) :
    StepsBack data.length (u64Back build order data sampleType part.flag) (part.size sampleType)
      fun pos ↦ .ok (.ok (valueIf order data sampleType part 8 pos), pos) := by
  unfold u64Back
  by_cases hflag : hasFlag sampleType part.flag = true
  · rw [if_pos hflag]
    refine stepsBack_part hflag fun pos hpos ↦ ?_
    rw [Act.bind_of_ok (stepBack_of_le (Nat.le_add_left 8 pos)), Nat.add_sub_cancel,
      Act.bind_of_ok (Act.compute_ok (readUInt_of_le hpos)), valueIf_of_flag hflag]
  · rw [if_neg hflag]
    simp only [valueIf_of_not_flag hflag]
    exact stepsBack_skip hflag 0

theorem idBack_stepsBack :
    StepsBack data.length (idBack build sampleType) (SamplePart.id.size sampleType)
      fun pos ↦ .ok (.ok (), pos) := by
  unfold idBack
  by_cases hflag : hasFlag sampleType PerfEventAttrSampleType.id = true
  · rw [if_pos hflag]
    refine @stepsBack_part _ _ _ .id _ (fun _ ↦ ()) hflag fun pos hpos ↦ ?_
    rw [Act.bind_of_ok (stepBack_of_le (Nat.le_add_left 8 pos)), Nat.add_sub_cancel]
    by_cases hfront : pos = 0
    · rw [expectBehind_early hfront, Act.bind_of_early (expectBehind_early hfront _)]
    · rw [expectBehind_ok hfront, Act.bind_of_ok (expectBehind_ok hfront _)]
      rfl
  · rw [if_neg hflag]
    exact @stepsBack_skip _ _ _ .id hflag ()

theorem tidBack_stepsBack :
    StepsBack data.length (tidBack build order data sampleType) (SamplePart.tid.size sampleType)
      fun pos ↦ .ok (.ok (valueIf order data sampleType .tid 4 pos,
        valueIf order data sampleType .tid 4 (pos + 4)), pos) := by
  unfold tidBack
  by_cases hflag : hasFlag sampleType PerfEventAttrSampleType.tid = true
  · rw [if_pos hflag]
    refine @stepsBack_part _ _ _ .tid _ (fun pos ↦ (valueIf order data sampleType .tid 4 pos,
      valueIf order data sampleType .tid 4 (pos + 4))) hflag fun pos hpos ↦ ?_
    rw [Act.bind_of_ok (stepBack_of_le (Nat.le_add_left 8 pos)), Nat.add_sub_cancel,
      Act.bind_of_ok (Act.compute_ok (readUInt_of_le (by omega))),
      Act.bind_of_ok (Act.compute_ok (readUInt_of_le (by omega))),
      @valueIf_of_flag _ _ _ .tid hflag, @valueIf_of_flag _ _ _ .tid hflag]
  · rw [if_neg hflag]
    simp only [@valueIf_of_not_flag order data _ .tid hflag]
    exact @stepsBack_skip _ _ _ .tid hflag (0, 0)

/-- The cpu is read behind the reserved bytes. -/
theorem cpuBack_stepsBack :
    StepsBack data.length (cpuBack build order data sampleType) (SamplePart.cpu.size sampleType)
      fun pos ↦ .ok (.ok (valueIf order data sampleType .cpu 4 pos,
        valueIf order data sampleType .cpu 4 (pos + 4)), pos) := by
  unfold cpuBack
  by_cases hflag : hasFlag sampleType PerfEventAttrSampleType.cpu = true
  · rw [if_pos hflag]
    refine @stepsBack_part _ _ _ .cpu _ (fun pos ↦ (valueIf order data sampleType .cpu 4 pos,
      valueIf order data sampleType .cpu 4 (pos + 4))) hflag fun pos hpos ↦ ?_
    have hmid : pos + 8 - 4 = pos + 4 := by omega
    rw [Act.bind_of_ok (stepBack_of_le (show 4 ≤ pos + 8 by omega)), hmid,
      Act.bind_of_ok (Act.compute_ok (readUInt_of_le (by omega))),
      Act.bind_of_ok (stepBack_of_le (Nat.le_add_left 4 pos)), Nat.add_sub_cancel,
      Act.bind_of_ok (Act.compute_ok (readUInt_of_le (by omega))),
      @valueIf_of_flag _ _ _ .cpu hflag, @valueIf_of_flag _ _ _ .cpu hflag]
  · rw [if_neg hflag]
    simp only [@valueIf_of_not_flag order data _ .cpu hflag]
    exact @stepsBack_skip _ _ _ .cpu hflag (0, 0)

end InfoReader

/-! ### All parts together -/

namespace ReaderState

open InfoReader

variable {build : Build} {state : ReaderState} {data : List UInt8}

/-- The information whose parts start at a position. -/
def nonSampleInfoAt (state : ReaderState) (data : List UInt8) (desc : PerfEventDesc) (id pos : ℕ) :
    PerfNonSampleEventInfo :=
  let value := valueIf state.sessionInfo.byteReader data desc.attr.sampleType
  let size := SamplePart.size desc.attr.sampleType
  let timePos := pos + size .tid
  let streamIdPos := timePos + size .time + size .id
  let cpuPos := streamIdPos + size .streamId
  { data := data
    sessionInfo := state.sessionInfo
    eventDesc := desc
    id := id
    cpu := value .cpu 4 cpuPos
    cpuReserved := value .cpu 4 (cpuPos + 4)
    streamId := value .streamId 8 streamIdPos
    time := value .time 8 timePos
    pid := value .tid 4 pos
    tid := value .tid 4 (pos + 4) }

/-- The checks behind the last part. -/
theorem nonSampleChecks (info : PerfNonSampleEventInfo) {pos : ℕ} (hpos : 8 ≤ pos) :
    (do
      let pos ← Act.read
      Act.compute (debugAssert build (8 ≤ pos))
      Act.compute (debugAssert build (pos < 0x10000 / 8))
      pure info : InfoReader PerfNonSampleEventInfo) pos =
    if build.debugAssertions = true ∧ 8192 ≤ pos then .error .assertion else .ok (.ok info, pos) := by
  rw [Act.read_bind, Act.bind_of_ok (Act.compute_ok (debugAssert_of hpos))]
  by_cases hfail : build.debugAssertions = true ∧ 8192 ≤ pos
  · have hassert : debugAssert build (pos < 0x10000 / 8) = .error .assertion :=
      if_pos ⟨hfail.1, by omega⟩
    rw [if_pos hfail, Act.bind_of_fault (Act.compute_fault hassert)]
  · have hassert : debugAssert build (pos < 0x10000 / 8) = .ok () :=
      if_neg fun h ↦ hfail ⟨h.1, by omega⟩
    rw [if_neg hfail, Act.bind_of_ok (Act.compute_ok hassert)]
    rfl

/-- The identifier of an event that is longer than its header. -/
theorem identifierBack_eq {sampleType : UInt64} {pos : ℕ}
    (hpos : 8 + SamplePart.identifier.size sampleType ≤ pos) :
    identifierBack build sampleType pos =
      .ok (.ok (), pos - SamplePart.identifier.size sampleType) := by
  unfold identifierBack
  by_cases hflag : hasFlag sampleType PerfEventAttrSampleType.identifier = true
  · rw [@SamplePart.size_of_flag _ .identifier hflag] at hpos ⊢
    rw [if_pos hflag, Act.bind_of_ok (stepBack_of_le (by omega)),
      Act.compute_ok (debugAssert_of (by omega))]
  · rw [if_neg hflag, @SamplePart.size_of_not_flag _ .identifier hflag]
    rfl

/-- The parts at the end of an event whose identifier lies behind the header. -/
theorem nonSampleParts_eq (desc : PerfEventDesc) (id : ℕ)
    (hlower : 8 + SamplePart.identifier.size desc.attr.sampleType ≤ data.length)
    (halign : 8 ∣ data.length) {size : ℕ}
    (hsize : size = 8 * SamplePart.count desc.attr.sampleType SamplePart.trailing) :
    nonSampleParts build state data desc id data.length =
      if size < data.length then
        if build.debugAssertions = true ∧ 8192 ≤ data.length - size then .error .assertion
        else .ok (.ok (nonSampleInfoAt state data desc id (data.length - size)), data.length - size)
      else .ok (.error .invalidData, 0) := by
  set sampleType := desc.attr.sampleType with hsampleType
  have hrest := StepsBack.bind (@cpuBack_stepsBack build state.sessionInfo.byteReader data sampleType)
    fun cpu ↦ StepsBack.bind (@u64Back_stepsBack build state.sessionInfo.byteReader data sampleType
      .streamId)
    fun streamId ↦ StepsBack.bind (@idBack_stepsBack build data sampleType)
    fun _ ↦ StepsBack.bind (@u64Back_stepsBack build state.sessionInfo.byteReader data sampleType
      .time)
    fun time ↦ StepsBack.bind (@tidBack_stepsBack build state.sessionInfo.byteReader data sampleType)
    fun tid ↦ StepsBack.rest (do
      let pos ← Act.read
      Act.compute (debugAssert build (8 ≤ pos))
      Act.compute (debugAssert build (pos < 0x10000 / 8))
      pure (⟨data, state.sessionInfo, desc, id, cpu.1, cpu.2, streamId, time, tid.1, tid.2⟩ :
        PerfNonSampleEventInfo))
  have hident : SamplePart.identifier.size sampleType = 0 ∨
      SamplePart.identifier.size sampleType = 8 := by
    by_cases hflag : hasFlag sampleType SamplePart.identifier.flag = true
    · exact .inr (SamplePart.size_of_flag hflag)
    · exact .inl (SamplePart.size_of_not_flag hflag)
  have htotal : size = SamplePart.identifier.size sampleType + (SamplePart.cpu.size sampleType +
      (SamplePart.streamId.size sampleType + (SamplePart.id.size sampleType +
        (SamplePart.time.size sampleType + (SamplePart.tid.size sampleType + 0))))) := by
    rw [hsize, SamplePart.count_trailing]
    omega
  have hpos := hrest.2 (data.length - SamplePart.identifier.size sampleType) (by omega) (by omega)
    (by omega)
  unfold nonSampleParts
  dsimp only
  rw [← hsampleType, Act.bind_of_ok (identifierBack_eq hlower)]
  refine hpos.trans ?_
  by_cases hroom : size < data.length
  · rw [if_pos (by omega), if_pos hroom, Nat.sub_sub, ← htotal]
    generalize hstart : data.length - size = start
    have htimePos : start + (SamplePart.tid.size sampleType + 0) =
        start + SamplePart.tid.size sampleType := rfl
    have hstreamIdPos : start + (SamplePart.id.size sampleType + (SamplePart.time.size sampleType +
        (SamplePart.tid.size sampleType + 0))) = start + SamplePart.tid.size sampleType +
          SamplePart.time.size sampleType + SamplePart.id.size sampleType := by omega
    have hcpuPos : start + (SamplePart.streamId.size sampleType + (SamplePart.id.size sampleType +
        (SamplePart.time.size sampleType + (SamplePart.tid.size sampleType + 0)))) =
          start + SamplePart.tid.size sampleType + SamplePart.time.size sampleType +
            SamplePart.id.size sampleType + SamplePart.streamId.size sampleType := by omega
    dsimp only
    rw [nonSampleChecks _ (by omega), htimePos, hstreamIdPos, hcpuPos]
    rfl
  · rw [if_neg (by omega), if_neg hroom]

theorem valueIf_eq_trailingValue {order : ByteOrder} {sampleType : UInt64} {part : SamplePart}
    {offset width pos : ℕ} (h : pos = part.trailingPos sampleType data.length + offset) :
    valueIf order data sampleType part width pos =
      part.trailingValue order data sampleType offset width := by
  unfold valueIf SamplePart.trailingValue
  rw [h]

/-- The offset of the id from the end of an event, where there is one. -/
theorem nonSampleId_offset {attr : PerfEventAttr}
    (h : ¬(EventOffsets.ofAttr attr).nonSampleId < 8) :
    hasFlag attr.sampleType SamplePart.identifier.flag = true ∧
        (EventOffsets.ofAttr attr).nonSampleId.toNat = 8 ∨
      ¬hasFlag attr.sampleType SamplePart.identifier.flag = true ∧
        hasFlag attr.sampleType SamplePart.id.flag = true ∧
        (EventOffsets.ofAttr attr).nonSampleId.toNat =
          8 + SamplePart.streamId.size attr.sampleType + SamplePart.cpu.size attr.sampleType := by
  unfold EventOffsets.ofAttr at h ⊢
  dsimp only at h ⊢
  by_cases hall : hasFlag attr.options PerfEventAttrOptions.sampleIdAll = true
  · rw [if_pos hall] at h ⊢
    unfold EventOffsets.idOffsets at h ⊢
    by_cases hident : hasFlag attr.sampleType PerfEventAttrSampleType.identifier = true
    · rw [if_pos hident]
      exact .inl ⟨hident, rfl⟩
    rw [if_neg hident] at h ⊢
    by_cases hid : hasFlag attr.sampleType PerfEventAttrSampleType.id = true
    · rw [hid, Bool.not_true, if_neg Bool.false_ne_true]
      refine .inr ⟨hident, hid, ?_⟩
      unfold SamplePart.size SamplePart.flag
      dsimp only
      omega
    · rw [Bool.not_eq_true] at hid
      rw [hid, Bool.not_false, if_pos rfl] at h
      exact absurd (by decide) h
  · rw [if_neg hall] at h
    exact absurd (by decide) h

/-- The information is correct where its parts lie behind the header. -/
theorem nonSampleInfoAt_correct {desc : PerfEventDesc} {offset : ℕ}
    (hfits : 8 + 8 * SamplePart.count desc.attr.sampleType SamplePart.trailing ≤ data.length)
    (hid : ¬(EventOffsets.ofAttr desc.attr).nonSampleId < 8)
    (hoffset : offset = (EventOffsets.ofAttr desc.attr).nonSampleId.toNat) :
    NonSampleCorrect state.sessionInfo.byteReader data desc.attr
      (nonSampleInfoAt state data desc
        (state.sessionInfo.byteReader.ofBytes ((data.drop (data.length - offset)).take 8))
        (data.length - 8 * SamplePart.count desc.attr.sampleType SamplePart.trailing)) := by
  have htotal := SamplePart.count_trailing desc.attr.sampleType
  have hpos (part : SamplePart) (parts : List SamplePart)
      (hparts : SamplePart.trailing.dropWhile (· ≠ part) = parts) :
      part.trailingPos desc.attr.sampleType data.length =
        data.length - 8 * SamplePart.count desc.attr.sampleType parts := by
    rw [← hparts]
    rfl
  have htid := hpos .tid SamplePart.trailing rfl
  have htime := hpos .time [.time, .id, .streamId, .cpu, .identifier] rfl
  have hidPos := hpos .id [.id, .streamId, .cpu, .identifier] rfl
  have hstreamId := hpos .streamId [.streamId, .cpu, .identifier] rfl
  have hcpu := hpos .cpu [.cpu, .identifier] rfl
  have hident := hpos .identifier [.identifier] rfl
  simp only [SamplePart.count_cons, SamplePart.count_nil] at htime hidPos hstreamId hcpu hident
  constructor
  · rfl
  · exact hfits
  · exact valueIf_eq_trailingValue (by omega)
  · exact valueIf_eq_trailingValue (by omega)
  · exact valueIf_eq_trailingValue (by omega)
  · exact valueIf_eq_trailingValue (by omega)
  · exact valueIf_eq_trailingValue (by omega)
  · exact valueIf_eq_trailingValue (by omega)
  · show state.sessionInfo.byteReader.ofBytes _ = _
    rcases nonSampleId_offset hid with ⟨hflag, heq⟩ | ⟨hnot, hflag, heq⟩
    · have hsize := SamplePart.size_of_flag hflag
      refine (valueIf_of_flag hflag 8 (data.length - offset)).symm.trans ?_
      exact (valueIf_eq_trailingValue (by omega)).trans (if_pos hflag).symm
    · have hsize := SamplePart.size_of_flag hflag
      have hsize' := SamplePart.size_of_not_flag hnot
      refine (valueIf_of_flag hflag 8 (data.length - offset)).symm.trans ?_
      exact (valueIf_eq_trailingValue (by omega)).trans (if_neg hnot).symm

/-! ### The whole function -/

/-- The description that is found for an event that is not a sample: by the id at the offset from its
end. -/
def nonSampleDesc (state : ReaderState) (event : PerfEventBytes) : Option PerfEventDesc :=
  let offset := state.attrs.offsets.nonSampleId
  if PerfEventHeaderType.userTypeStart ≤ event.header.ty ∨ offset < 8 ∨
      event.data.length < offset.toNat then none
  else
    let bytes := (event.data.drop (event.data.length - offset.toNat)).take 8
    state.attrs.eventDescById (.ofNat (state.sessionInfo.byteReader.ofBytes bytes))

/-- `get_non_sample_event_info` returns, and the information it returns is correct. -/
def NonSampleInfoSound (build : Build) (state : ReaderState) (event : PerfEventBytes) : Prop :=
  ∃ outcome, getNonSampleEventInfo build state event = .ok outcome ∧
    ∀ info, outcome = .ok info →
      state.attrs.eventDescById (.ofNat info.id) = some info.eventDesc ∧
        NonSampleCorrect state.sessionInfo.byteReader event.data info.eventDesc.attr info

/-- Where a description is found: with assertions the event is longer than its header, and parts that
fit behind the header start in front of byte 8192; without them an identifier is not taken from the
header. -/
def NonSampleInfoFits (build : Build) (state : ReaderState) (event : PerfEventBytes) : Prop :=
  ∀ desc, state.nonSampleDesc event = some desc →
    let size := 8 * SamplePart.count desc.attr.sampleType SamplePart.trailing
    if build.debugAssertions then
      16 ≤ event.data.length ∧ (size < event.data.length → event.data.length - size < 8192)
    else
      16 ≤ event.data.length ∨
        ¬hasFlag desc.attr.sampleType PerfEventAttrSampleType.identifier = true

/-- Nothing is found. -/
theorem getNonSampleEventInfo_none (hinv : state.attrs.AttrsInv) {event : PerfEventBytes}
    (hnone : state.nonSampleDesc event = none) :
    ∃ error, getNonSampleEventInfo build state event = .ok (.error error) := by
  unfold nonSampleDesc at hnone
  unfold getNonSampleEventInfo
  dsimp only at hnone ⊢
  by_cases huser : PerfEventHeaderType.userTypeStart ≤ event.header.ty
  · rw [if_pos huser]
    exact ⟨_, rfl⟩
  rw [if_neg huser]
  by_cases hoffset : state.attrs.offsets.nonSampleId < 8
  · rw [if_pos hoffset]
    exact ⟨_, rfl⟩
  rw [if_neg hoffset]
  by_cases hshort : event.data.length < state.attrs.offsets.nonSampleId.toNat
  · rw [if_pos hshort]
    exact ⟨_, rfl⟩
  have hnot : ¬(PerfEventHeaderType.userTypeStart ≤ event.header.ty ∨
      state.attrs.offsets.nonSampleId < 8 ∨
        event.data.length < state.attrs.offsets.nonSampleId.toNat) := by
    rintro (h | h | h)
    · exact huser h
    · exact hoffset h
    · exact hshort h
  rw [if_neg hnot] at hnone
  rw [if_neg hshort, readUInt_of_le (by omega), ok_bind, findDesc_returns hinv, hnone]
  exact ⟨_, rfl⟩

/-- A description is found: what is left is to read its parts. -/
theorem getNonSampleEventInfo_some (hinv : state.attrs.AttrsInv) {event : PerfEventBytes}
    {desc : PerfEventDesc} (halign : 8 ∣ event.data.length)
    (hdesc : state.nonSampleDesc event = some desc) :
    ∃ id, state.attrs.eventDescById (.ofNat id) = some desc ∧
      ¬(EventOffsets.ofAttr desc.attr).nonSampleId < 8 ∧
      (EventOffsets.ofAttr desc.attr).nonSampleId.toNat ≤ event.data.length ∧
      id = state.sessionInfo.byteReader.ofBytes ((event.data.drop
        (event.data.length - (EventOffsets.ofAttr desc.attr).nonSampleId.toNat)).take 8) ∧
      getNonSampleEventInfo build state event = (do
        debugAssert build (8 * 2 ≤ event.data.length)
        let (outcome, _) ← nonSampleParts build state event.data desc id event.data.length
        .ok outcome) := by
  unfold nonSampleDesc at hdesc
  dsimp only at hdesc
  by_cases hnot : PerfEventHeaderType.userTypeStart ≤ event.header.ty ∨
      state.attrs.offsets.nonSampleId < 8 ∨
        event.data.length < state.attrs.offsets.nonSampleId.toNat
  · rw [if_pos hnot] at hdesc
    cases hdesc
  rw [if_neg hnot] at hdesc
  have hmem : desc ∈ state.attrs.eventDescList := by
    unfold ReaderAttrs.eventDescById at hdesc
    obtain ⟨index, _, hindex⟩ := Option.bind_eq_some_iff.mp hdesc
    exact List.mem_of_getElem? hindex
  have hoffsets : EventOffsets.ofAttr desc.attr = state.attrs.offsets := by
    rcases hinv.agree with ⟨hempty, _⟩ | ⟨_, hagree⟩
    · rw [hempty] at hmem
      cases hmem
    · exact hagree desc hmem
  obtain ⟨huser, hoffset, hlength⟩ : ¬PerfEventHeaderType.userTypeStart ≤ event.header.ty ∧
      ¬state.attrs.offsets.nonSampleId < 8 ∧
        ¬event.data.length < state.attrs.offsets.nonSampleId.toNat := by
    refine ⟨fun h ↦ hnot (.inl h), fun h ↦ hnot (.inr (.inl h)), fun h ↦ hnot (.inr (.inr h))⟩
  rw [hoffsets]
  refine ⟨_, hdesc, hoffset, not_lt.mp hlength, rfl, ?_⟩
  unfold getNonSampleEventInfo
  dsimp only
  rw [if_neg huser, if_neg hoffset, if_neg hlength, readUInt_of_le (by omega), ok_bind,
    findDesc_returns hinv, hdesc, ok_bind, Nat.div_mul_cancel halign]

/-! #### An identifier in the header -/

/-- The action faults or returns a value; it does not leave. -/
def NeverLeaves {α : Type} (pre : ℕ → Prop) (action : InfoReader α) (post : α → ℕ → Prop) : Prop :=
  ∀ pos outcome next, pre pos → action pos = .ok (outcome, next) →
    ∃ value, outcome = .ok value ∧ post value next

theorem NeverLeaves.bind {α β : Type} {pre mid : ℕ → Prop} {post : β → ℕ → Prop}
    {first : InfoReader α} {next : α → InfoReader β} (hfirst : NeverLeaves pre first fun _ ↦ mid)
    (hnext : ∀ value, NeverLeaves mid (next value) post) : NeverLeaves pre (first >>= next) post := by
  intro pos outcome last hpos h
  rcases Act.bind_cases h with ⟨early, heq, _⟩ | ⟨value, mid, heq, hrest⟩
  · obtain ⟨_, hvalue, _⟩ := hfirst pos _ last hpos heq
    cases hvalue
  · obtain ⟨_, _, hmid⟩ := hfirst pos _ mid hpos heq
    exact hnext value mid outcome last hmid hrest

theorem NeverLeaves.done {α : Type} {pre : ℕ → Prop} {value : α} {post : α → ℕ → Prop}
    (hpost : ∀ pos, pre pos → post value pos) : NeverLeaves pre (pure value) post := by
  intro pos outcome next hpos h
  obtain ⟨rfl, rfl⟩ := Prod.mk.inj (Except.ok.inj h)
  exact ⟨value, rfl, hpost pos hpos⟩

theorem NeverLeaves.compute {α : Type} (pre : ℕ → Prop) (computation : Exec α) :
    NeverLeaves pre (Act.compute computation) fun _ ↦ pre := by
  intro pos outcome next hpos h
  cases computation with
  | error fault => cases h
  | ok value =>
    obtain ⟨rfl, rfl⟩ := Prod.mk.inj (Except.ok.inj h)
    exact ⟨value, rfl, hpos⟩

theorem NeverLeaves.read (pre : ℕ → Prop) : NeverLeaves pre Act.read fun _ ↦ pre := by
  intro pos outcome next hpos h
  obtain ⟨rfl, rfl⟩ := Prod.mk.inj (Except.ok.inj h)
  exact ⟨pos, rfl, hpos⟩

theorem NeverLeaves.ite {α : Type} {pre : ℕ → Prop} {post : α → ℕ → Prop} {condition : Prop}
    [Decidable condition] {yes no : InfoReader α} (hyes : condition → NeverLeaves pre yes post)
    (hno : ¬condition → NeverLeaves pre no post) :
    NeverLeaves pre (if condition then yes else no) post := by
  by_cases h : condition
  · rw [if_pos h]
    exact hyes h
  · rw [if_neg h]
    exact hno h

/-- A position at the start of the event, or one that wrapped around. -/
def Outside (pos : ℕ) : Prop := pos = 0 ∨ 2 ^ 32 - 8 ≤ pos

/-- A step back from outside ends behind every event. -/
theorem stepBack_outside (hrelease : build.debugAssertions = false) {count pos : ℕ}
    (hpos : Outside pos) (hcount : 0 < count ∧ count ≤ 8) :
    ∃ next, stepBack build count pos = .ok (.ok next, next) ∧ 2 ^ 32 - 16 ≤ next ∧
      (pos = 0 → 2 ^ 32 - 8 ≤ next) := by
  have hsub : ∃ next, subUsize build pos count = .ok next ∧ 2 ^ 32 - 16 ≤ next ∧
      (pos = 0 → 2 ^ 32 - 8 ≤ next) := by
    unfold subUsize
    rcases hpos with rfl | hpos
    · have hwidth : 2 ^ 32 ≤ 2 ^ (if build.pointer64 = true then 64 else 32) := by
        split_ifs <;> norm_num
      rw [if_neg (by omega), hrelease, if_neg Bool.false_ne_true]
      generalize 2 ^ (if build.pointer64 = true then 64 else 32) = wrapped at hwidth
      exact ⟨_, rfl, by omega, fun _ ↦ by omega⟩
    · rw [if_pos (by omega)]
      exact ⟨_, rfl, by omega, by omega⟩
  obtain ⟨next, heq, hnext⟩ := hsub
  refine ⟨next, ?_, hnext⟩
  have hupdate : (Act.updateM fun pos ↦ subUsize build pos count : InfoReader Unit) pos =
      .ok (.ok (), next) := Act.updateM_ok heq
  unfold stepBack
  rw [Act.bind_of_ok hupdate]
  rfl

/-- A read behind a step back from outside faults. -/
theorem read_outside {α : Type} (hrelease : build.debugAssertions = false) {order : ByteOrder}
    {count width : ℕ} {next : ℕ → ℕ → InfoReader α} {post : α → ℕ → Prop}
    (hlength : data.length < 2 ^ 16) (hcount : 0 < count ∧ count ≤ 8) {pre : ℕ → Prop}
    (hpre : ∀ pos, pre pos → Outside pos) :
    NeverLeaves pre (do
      let pos ← stepBack build count
      let value ← Act.compute (readUInt order width data pos)
      next pos value) post := by
  intro pos outcome last hpos h
  obtain ⟨behind, hback, hbehind, _⟩ := stepBack_outside hrelease (hpre pos hpos) hcount
  have hread : readUInt order width data behind = .error .indexOutOfRange := if_neg (by omega)
  rw [Act.bind_of_ok hback, Act.bind_of_fault (Act.compute_fault hread)] at h
  cases h

/-- Behind an identifier that fills the event up to its start, no part leaves. -/
theorem nonSampleParts_header (hrelease : build.debugAssertions = false) (desc : PerfEventDesc)
    (id : ℕ) (hident : hasFlag desc.attr.sampleType PerfEventAttrSampleType.identifier = true)
    (hlength : data.length = 8) {outcome : Except PerfDataFileError PerfNonSampleEventInfo}
    {last : ℕ} (h : nonSampleParts build state data desc id 8 = .ok (outcome, last)) :
    ∃ info, outcome = .ok info ∧ info.eventDesc = desc ∧
      ¬hasFlag desc.attr.sampleType PerfEventAttrSampleType.time = true := by
  have hshort : data.length < 2 ^ 16 := by omega
  have hzero : ∀ pos : ℕ, pos = 0 → Outside pos := fun _ hpos ↦ .inl hpos
  have hidentifier : identifierBack build desc.attr.sampleType 8 = .ok (.ok (), 0) := by
    unfold identifierBack
    rw [if_pos hident, Act.bind_of_ok (stepBack_of_le le_rfl),
      Act.compute_ok (debugAssert_release hrelease)]
  have hcpu : NeverLeaves (· = 0)
      (cpuBack build state.sessionInfo.byteReader data desc.attr.sampleType) fun _ ↦ (· = 0) :=
    .ite (fun _ ↦ read_outside hrelease hshort (by decide) hzero) fun _ ↦ .done fun _ hpos ↦ hpos
  have hu64 (pre : ℕ → Prop) (hpre : ∀ pos, pre pos → Outside pos) (flag : UInt64) : NeverLeaves pre
      (u64Back build state.sessionInfo.byteReader data desc.attr.sampleType flag) fun _ pos ↦
        pre pos ∧ ¬hasFlag desc.attr.sampleType flag = true :=
    .ite (fun _ ↦ read_outside hrelease hshort (by decide) hpre)
      fun hflag ↦ .done fun _ hpos ↦ ⟨hpos, hflag⟩
  have hid (fact : Prop) : NeverLeaves (fun pos ↦ pos = 0 ∧ fact)
      (idBack build desc.attr.sampleType) fun _ ↦ Outside := by
    refine .ite (fun _ ↦ ?_) fun _ ↦ .done fun pos hpos ↦ hzero pos hpos.1
    rintro pos outcome next ⟨hpos, _⟩ h
    obtain ⟨behind, hback, _, hbehind⟩ := stepBack_outside hrelease (hzero pos hpos)
      (show 0 < 8 ∧ 8 ≤ 8 by decide)
    have hle := hbehind hpos
    rw [Act.bind_of_ok hback, expectBehind_ok (by omega)] at h
    obtain ⟨rfl, rfl⟩ := Prod.mk.inj (Except.ok.inj h)
    exact ⟨(), rfl, .inr hle⟩
  have htid (fact : Prop) : NeverLeaves (fun pos ↦ Outside pos ∧ fact)
      (tidBack build state.sessionInfo.byteReader data desc.attr.sampleType) fun _ _ ↦ fact :=
    .ite (fun _ ↦ read_outside hrelease hshort (by decide) fun _ hpos ↦ hpos.1)
      fun _ ↦ .done fun _ hpos ↦ hpos.2
  unfold nonSampleParts at h
  dsimp only at h
  rw [Act.bind_of_ok hidentifier] at h
  refine (?_ : NeverLeaves (· = 0) _ fun (info : PerfNonSampleEventInfo) _ ↦
    info.eventDesc = desc ∧ ¬hasFlag desc.attr.sampleType PerfEventAttrSampleType.time = true)
      0 outcome last rfl h
  exact .bind hcpu fun cpu ↦ .bind (hu64 _ hzero _) fun streamId ↦ .bind (hid _) fun _ ↦
    .bind (hu64 Outside (fun _ hpos ↦ hpos) _) fun time ↦ .bind (htid _) fun tid ↦
    .bind (.read _) fun pos ↦ .bind (.compute _ _) fun _ ↦ .bind (.compute _ _) fun _ ↦
    .done fun _ htime ↦ ⟨rfl, htime⟩

/-! #### Both directions -/

/-- An event of the length of its header: what is found there was read from the header. -/
theorem nonSampleInfoSound_header (hinv : state.attrs.AttrsInv) {event : PerfEventBytes}
    {desc : PerfEventDesc} (hlength : event.data.length = 8)
    (hdesc : state.nonSampleDesc event = some desc) :
    NonSampleInfoSound build state event ↔ build.debugAssertions = false ∧
      ¬hasFlag desc.attr.sampleType PerfEventAttrSampleType.identifier = true := by
  have halign : 8 ∣ event.data.length := by
    rw [hlength]
  obtain ⟨id, hid, hoffset, hfits, _, heq⟩ := getNonSampleEventInfo_some hinv halign hdesc
  unfold NonSampleInfoSound
  rw [heq, hlength]
  cases hdebug : build.debugAssertions with
  | true =>
    have hassert : debugAssert build (8 * 2 ≤ 8) = .error .assertion :=
      if_pos ⟨hdebug, by decide⟩
    rw [hassert]
    constructor
    · rintro ⟨outcome, houtcome, _⟩
      cases houtcome
    · rintro ⟨hfalse, _⟩
      cases hfalse
  | false =>
    rw [debugAssert_release hdebug, ok_bind]
    constructor
    · rintro ⟨outcome, houtcome, hsound⟩
      refine ⟨rfl, fun hident ↦ ?_⟩
      obtain ⟨⟨result, last⟩, hparts, hresult⟩ := bind_eq_ok.1 houtcome
      obtain rfl := Except.ok.inj hresult
      obtain ⟨info, rfl, hinfo, _⟩ := nonSampleParts_header hdebug desc id hident hlength hparts
      have hbehind := (hsound info rfl).2.behindHeader
      have htotal := SamplePart.count_trailing info.eventDesc.attr.sampleType
      have hsize : SamplePart.identifier.size info.eventDesc.attr.sampleType = 8 := by
        rw [hinfo]
        exact SamplePart.size_of_flag hident
      omega
    · rintro ⟨_, hident⟩
      rcases nonSampleId_offset hoffset with ⟨hflag, _⟩ | ⟨hnot, hflag, _⟩
      · exact absurd hflag hident
      · have hsize := SamplePart.size_of_flag hflag
        have hsize' := SamplePart.size_of_not_flag hnot
        have htotal := SamplePart.count_trailing desc.attr.sampleType
        have hparts := @nonSampleParts_eq build state event.data desc id (by omega) halign _ rfl
        rw [if_neg (by omega), hlength] at hparts
        rw [hparts]
        exact ⟨_, rfl, fun _ hinfo ↦ nomatch hinfo⟩

/-- An event that is longer than its header. -/
theorem nonSampleInfoSound_long (hinv : state.attrs.AttrsInv) {event : PerfEventBytes}
    {desc : PerfEventDesc} (hlower : 16 ≤ event.data.length) (halign : 8 ∣ event.data.length)
    (hdesc : state.nonSampleDesc event = some desc) {size : ℕ}
    (hsize : size = 8 * SamplePart.count desc.attr.sampleType SamplePart.trailing) :
    NonSampleInfoSound build state event ↔
      (build.debugAssertions = true → size < event.data.length →
        event.data.length - size < 8192) := by
  obtain ⟨id, hid, hoffset, hfits, hvalue, heq⟩ := getNonSampleEventInfo_some hinv halign hdesc
  have hident : SamplePart.identifier.size desc.attr.sampleType ≤ 8 := by
    unfold SamplePart.size
    cases hasFlag desc.attr.sampleType SamplePart.identifier.flag <;> decide
  unfold NonSampleInfoSound
  rw [heq, debugAssert_of (by omega), ok_bind,
    nonSampleParts_eq desc id (by omega) halign hsize]
  by_cases hroom : size < event.data.length
  · rw [if_pos hroom]
    by_cases hfail : build.debugAssertions = true ∧ 8192 ≤ event.data.length - size
    · rw [if_pos hfail]
      constructor
      · rintro ⟨outcome, houtcome, _⟩
        cases houtcome
      · intro hcondition
        exact absurd (hcondition hfail.1 hroom) (not_lt.mpr hfail.2)
    · rw [if_neg hfail]
      constructor
      · intro _ hdebug _
        exact not_le.mp fun hle ↦ hfail ⟨hdebug, hle⟩
      · intro _
        refine ⟨_, rfl, fun info hinfo ↦ ?_⟩
        obtain rfl := Except.ok.inj hinfo
        refine ⟨hid, ?_⟩
        show NonSampleCorrect _ _ desc.attr _
        rw [hvalue, hsize]
        exact nonSampleInfoAt_correct (by omega) hoffset rfl
  · rw [if_neg hroom]
    constructor
    · intro _ _ hlt
      exact absurd hlt hroom
    · intro _
      exact ⟨_, rfl, fun _ hinfo ↦ nomatch hinfo⟩

end ReaderState

/-- `get_non_sample_event_info` is in bounds and correct exactly where the event fits. Assumes: an
event of 8 to 65535 bytes, a multiple of eight. -/
theorem nonSampleEventInfo_sound_iff {build : Build} {handle : ReaderHandle}
    (hreachable : handle.Reachable build) {event : PerfEventBytes} (hlower : 8 ≤ event.data.length)
    (hupper : event.data.length ≤ 65535) (halign : 8 ∣ event.data.length) :
    handle.reader.toReaderState.NonSampleInfoSound build event ↔
      handle.reader.toReaderState.NonSampleInfoFits build event := by
  have hinv := hreachable.attrsInv
  unfold ReaderState.NonSampleInfoFits
  cases hdesc : handle.reader.toReaderState.nonSampleDesc event with
  | none =>
    obtain ⟨error, herror⟩ := @ReaderState.getNonSampleEventInfo_none build _ hinv event hdesc
    constructor
    · intro _ desc hsome
      cases hsome
    · exact fun _ ↦ ⟨_, herror, fun _ hinfo ↦ nomatch hinfo⟩
  | some desc =>
    have hcondition (condition : PerfEventDesc → Prop) :
        (∀ other, some desc = some other → condition other) ↔ condition desc := by
      constructor
      · exact fun h ↦ h desc rfl
      · rintro h other hother
        exact Option.some.inj hother ▸ h
    rw [hcondition]
    by_cases hlong : 16 ≤ event.data.length
    · rw [ReaderState.nonSampleInfoSound_long hinv hlong halign hdesc rfl]
      cases hdebug : build.debugAssertions with
      | true => exact ⟨fun h ↦ ⟨hlong, h rfl⟩, fun h _ ↦ h.2⟩
      | false => exact ⟨fun _ ↦ .inl hlong, fun _ hfalse ↦ nomatch hfalse⟩
    · rw [ReaderState.nonSampleInfoSound_header hinv (by omega) hdesc]
      cases hdebug : build.debugAssertions with
      | true => exact ⟨fun h ↦ (nomatch h.1), fun h ↦ absurd h.1 hlong⟩
      | false => exact ⟨fun h ↦ .inr h.2, fun h ↦ ⟨rfl, h.resolve_left hlong⟩⟩

/-- An event of the given type with the given bytes behind its header. -/
def eventOf (ty : ℕ) (behind : List UInt8) : PerfEventBytes :=
  ⟨⟨ty, 0, 8 + behind.length⟩,
    PerfEventHeader.toBytes .little ⟨ty, 0, 8 + behind.length⟩ ++ behind⟩

/-- A reader that received an attribute with an identifier and an id. -/
def identifierHandle (build : Build) (id : ℕ) : ReaderHandle :=
  attrHandle build .file (attrStream 0x10000 id []) 1

/-- An event with an identifier behind eight bytes. -/
theorem shortEvent_sound :
    (identifierHandle debugBuild 5).reader.toReaderState.NonSampleInfoSound debugBuild
      (eventOf 3 [1, 2, 3, 4, 5, 6, 7, 8, 5, 0, 0, 0, 0, 0, 0, 0]) := by
  refine (nonSampleEventInfo_sound_iff (attrHandle_reachable _ _ _ _) (by decide) (by decide)
    (by decide)).mpr ?_
  intro desc _
  refine ⟨by decide, fun _ ↦ ?_⟩
  exact lt_of_le_of_lt (Nat.sub_le _ _) (by decide)

/-- A long event whose last bytes are its identifier. -/
def longEvent : PerfEventBytes := eventOf 3 (List.replicate 8192 0 ++ [5, 0, 0, 0, 0, 0, 0, 0])

/-- The id that the header of an event without data stands for. -/
def headerId : ℕ := 3 + 8 * 2 ^ 48

/-- An identifier at the end of a long event fails the assertion on the position. Where the header of an
event without data is a known id, the assertion on the length fails, and without assertions the header
is returned as the id. -/
theorem longEvent_unsound :
    ((identifierHandle debugBuild 5).Reachable debugBuild ∧ longEvent.data.length = 8208 ∧
      (identifierHandle debugBuild 5).reader.toReaderState.getNonSampleEventInfo debugBuild
        longEvent = .error .assertion ∧
      ¬(identifierHandle debugBuild 5).reader.toReaderState.NonSampleInfoSound debugBuild
        longEvent) ∧
    (identifierHandle debugBuild headerId).reader.toReaderState.getNonSampleEventInfo debugBuild
        (eventOf 3 []) = .error .assertion ∧
      (returnedInfo ((identifierHandle releaseBuild headerId).reader.toReaderState
        |>.getNonSampleEventInfo releaseBuild (eventOf 3 []))).map PerfNonSampleEventInfo.id =
          some headerId := by
  have hlong : (identifierHandle debugBuild 5).reader.toReaderState.getNonSampleEventInfo debugBuild
      longEvent = .error .assertion := by decide +kernel
  refine ⟨⟨attrHandle_reachable _ _ _ _, by decide +kernel, hlong, ?_⟩, by decide +kernel,
    by decide +kernel⟩
  rintro ⟨outcome, houtcome, _⟩
  cases hlong.symm.trans houtcome

end Tracepoints
