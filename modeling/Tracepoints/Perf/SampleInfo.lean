import Tracepoints.Perf.AttrOffsets
import Tracepoints.Perf.EventInfo

/-!
# The layout of samples

`SamplePart` lists the parts of a `PERF_RECORD_SAMPLE` that take eight bytes each, in the order of the
layout that `PerfEventHeaderType::Sample` documents; the sample type selects some of them, and the
values of `PERF_SAMPLE_READ`, the call chain and the raw data stand behind them. `get_sample_event_info`
returns what that layout says (`SampleLayout.Correct`), for every event and every description.
-/

set_option autoImplicit false
set_option relaxedAutoImplicit false

namespace Tracepoints

open Exec

/-- The parts of a sample with a fixed size. -/
inductive SamplePart
  | identifier
  | ip
  | tid
  | time
  | addr
  | id
  | streamId
  | cpu
  | period
  deriving DecidableEq, Repr

namespace SamplePart

/-- The flag that selects a part. -/
def flag : SamplePart → UInt64
  | identifier => PerfEventAttrSampleType.identifier
  | ip => PerfEventAttrSampleType.ip
  | tid => PerfEventAttrSampleType.tid
  | time => PerfEventAttrSampleType.time
  | addr => PerfEventAttrSampleType.addr
  | id => PerfEventAttrSampleType.id
  | streamId => PerfEventAttrSampleType.streamId
  | cpu => PerfEventAttrSampleType.cpu
  | period => PerfEventAttrSampleType.period

/-- The parts in the order of the layout. -/
def all : List SamplePart := [identifier, ip, tid, time, addr, id, streamId, cpu, period]

/-- The number of parts among the given ones that a sample type selects. -/
def count (sampleType : UInt64) (parts : List SamplePart) : ℕ :=
  parts.countP fun part ↦ hasFlag sampleType part.flag

/-- The position of a part: behind the header and the parts in front of it. -/
def pos (sampleType : UInt64) (part : SamplePart) : ℕ :=
  8 * (1 + count sampleType (all.takeWhile (· ≠ part)))

/-- The integer of `width` bytes at an offset in a part, or 0 where the part is not selected. -/
def value (order : ByteOrder) (data : List UInt8) (sampleType : UInt64) (part : SamplePart)
    (offset width : ℕ) : ℕ :=
  if hasFlag sampleType part.flag then
    order.ofBytes ((data.drop (part.pos sampleType + offset)).take width)
  else 0

theorem count_append (sampleType : UInt64) (parts : List SamplePart) (part : SamplePart) :
    count sampleType (parts ++ [part]) =
      count sampleType parts + (hasFlag sampleType part.flag).toNat := by
  unfold count
  rw [List.countP_append, List.countP_singleton]
  cases hasFlag sampleType part.flag with
  | false => rfl
  | true => rfl

end SamplePart

/-! ### The parts of variable size -/

namespace SampleLayout

open InfoReader

variable (order : ByteOrder) (data : List UInt8) (attr : PerfEventAttr)

/-- The `u64` at a position. -/
def u64At (pos : ℕ) : ℕ := order.ofBytes ((data.drop pos).take 8)

/-- The size of a part that a flag selects. -/
def sizeIf (flag : UInt64) (size : ℕ) : ℕ := if hasFlag attr.sampleType flag then size else 0

/-- The size of the values of `PERF_SAMPLE_READ` at a position: one counter, or a group of them with
their number in front. -/
def readSize (pos : ℕ) : ℕ :=
  if hasFlag attr.readFormat PerfEventAttrReadFormat.group then
    8 * (1 + timeCount attr.readFormat + u64At order data pos * (1 + counterCount attr.readFormat))
  else 8 * (1 + timeCount attr.readFormat + counterCount attr.readFormat)

/-- Where the values of `PERF_SAMPLE_READ` start. -/
def readStart : ℕ := 8 * (1 + SamplePart.count attr.sampleType SamplePart.all)

/-- Where the call chain starts. -/
def callchainStart : ℕ :=
  readStart attr + sizeIf attr PerfEventAttrSampleType.read (readSize order data attr (readStart attr))

/-- Where the raw data starts, with its size. -/
def rawStart : ℕ :=
  callchainStart order data attr + sizeIf attr PerfEventAttrSampleType.callchain
    (8 * (1 + u64At order data (callchainStart order data attr)))

/-- The size of the raw data. -/
def rawSize : ℕ := order.ofBytes ((data.drop (rawStart order data attr)).take 4)

/-- The range of a part that a flag selects. -/
def rangeIf (flag : UInt64) (range : ByteRange) : ByteRange :=
  if hasFlag attr.sampleType flag then range else ⟨0, 0⟩

/-- The information is what the layout says for the description. -/
structure Correct (info : PerfSampleEventInfo) : Prop where
  data_eq : info.data = data
  fits : readStart attr ≤ data.length
  ip : info.ip = SamplePart.value order data attr.sampleType .ip 0 8
  pid : info.pid = SamplePart.value order data attr.sampleType .tid 0 4
  tid : info.tid = SamplePart.value order data attr.sampleType .tid 4 4
  time : info.time = SamplePart.value order data attr.sampleType .time 0 8
  addr : info.addr = SamplePart.value order data attr.sampleType .addr 0 8
  streamId : info.streamId = SamplePart.value order data attr.sampleType .streamId 0 8
  cpu : info.cpu = SamplePart.value order data attr.sampleType .cpu 0 4
  cpuReserved : info.cpuReserved = SamplePart.value order data attr.sampleType .cpu 4 4
  period : info.period = SamplePart.value order data attr.sampleType .period 0 8
  readRange : info.readRange = rangeIf attr PerfEventAttrSampleType.read
    ⟨readStart attr, callchainStart order data attr⟩
  callchainRange : info.callchainRange = rangeIf attr PerfEventAttrSampleType.callchain
    ⟨callchainStart order data attr, rawStart order data attr⟩
  rawRange : info.rawRange = rangeIf attr PerfEventAttrSampleType.raw
    ⟨rawStart order data attr + 4, rawStart order data attr + 4 + rawSize order data attr⟩
  inBounds : info.readRange.InBounds data ∧ info.callchainRange.InBounds data ∧
    info.rawRange.InBounds data

end SampleLayout

/-! ### What the parts return -/

namespace InfoReader

variable {build : Build} {order : ByteOrder} {data : List UInt8} {sampleType : UInt64} {n : ℕ}

/-- The position is behind the header and the given parts, inside an event of `n` times eight bytes. -/
def Behind (sampleType : UInt64) (n : ℕ) (front : List SamplePart) (pos : ℕ) : Prop :=
  pos = 8 * (1 + SamplePart.count sampleType front) ∧ 1 + SamplePart.count sampleType front ≤ n

section Fixed

variable {front : List SamplePart}

theorem behind_skip (part : SamplePart) (hflag : ¬hasFlag sampleType part.flag = true) {pos : ℕ}
    (h : Behind sampleType n front pos) : Behind sampleType n (front ++ [part]) pos := by
  rw [Bool.not_eq_true] at hflag
  unfold Behind
  rw [SamplePart.count_append, hflag]
  exact h

theorem behind_advance (part : SamplePart) (hflag : hasFlag sampleType part.flag = true) {pos : ℕ}
    (h : Behind sampleType n front pos) (hend : pos ≠ 8 * n) :
    Behind sampleType n (front ++ [part]) (pos + 8) := by
  obtain ⟨hpos, hle⟩ := h
  unfold Behind
  rw [SamplePart.count_append, hflag, Bool.toNat_true]
  constructor
  · omega
  · omega

/-- A position in front of the end has eight bytes behind it. -/
theorem behind_room (hdata : 8 * n ≤ data.length) {pos : ℕ} (h : Behind sampleType n front pos)
    (hend : pos ≠ 8 * n) : pos + 8 ≤ data.length := by
  obtain ⟨hpos, hle⟩ := h
  omega

variable {part : SamplePart}

theorem value_of_flag (hflag : hasFlag sampleType part.flag = true)
    (hfront : SamplePart.all.takeWhile (· ≠ part) = front) {pos : ℕ}
    (h : Behind sampleType n front pos) (offset width : ℕ) :
    order.ofBytes ((data.drop (pos + offset)).take width) =
      part.value order data sampleType offset width := by
  unfold SamplePart.value SamplePart.pos
  rw [if_pos hflag, hfront, h.1]

theorem value_of_not_flag (hflag : ¬hasFlag sampleType part.flag = true) (offset width : ℕ) :
    part.value order data sampleType offset width = 0 :=
  if_neg hflag

theorem identifierPart_ensures (hn : 1 < n) :
    Act.Ensures (Behind sampleType n []) (identifierPart build sampleType (8 * n))
      fun _ ↦ Behind sampleType n [.identifier] := by
  unfold identifierPart
  refine .ite (fun hflag ↦ ?_) fun hflag ↦ .done fun pos hpos ↦ behind_skip .identifier hflag hpos
  have hbefore : ∀ pos, Behind sampleType n [] pos → pos ≠ 8 * n := by
    rintro pos ⟨rfl, _⟩
    show 8 * (1 + 0) ≠ 8 * n
    omega
  refine .bind .read fun pos ↦ .bind (.check ?_) fun _ ↦ .update ?_
  · rintro state ⟨rfl, hstate⟩
    exact debugAssert_of (hbefore pos hstate)
  · rintro state ⟨_, hstate⟩
    exact behind_advance .identifier hflag hstate (hbefore state hstate)

theorem idPart_ensures :
    Act.Ensures (Behind sampleType n front) (idPart sampleType (8 * n))
      fun _ ↦ Behind sampleType n (front ++ [.id]) := by
  unfold idPart
  refine .ite (fun hflag ↦ ?_) fun hflag ↦ .done fun pos hpos ↦ behind_skip .id hflag hpos
  refine .bind .read fun pos ↦ .ite (fun _ ↦ .leave _) fun hend ↦ .update ?_
  rintro state ⟨rfl, hpos⟩
  exact behind_advance .id hflag hpos hend

variable (hdata : 8 * n ≤ data.length) (hfront : SamplePart.all.takeWhile (· ≠ part) = front)
include hdata hfront

theorem u64Part_ensures :
    Act.Ensures (Behind sampleType n front) (u64Part order data sampleType (8 * n) part.flag)
      fun value pos ↦ Behind sampleType n (front ++ [part]) pos ∧
        value = part.value order data sampleType 0 8 := by
  unfold u64Part
  refine .ite (fun hflag ↦ ?_) fun hflag ↦ ?_
  · refine .bind .read fun pos ↦ .ite (fun _ ↦ .leave _) fun hend ↦ ?_
    have hread : Act.Ensures (fun state ↦ pos = state ∧ Behind sampleType n front state)
        (Act.compute (readUInt order 8 data pos) : InfoReader ℕ) fun value state ↦
          (Behind sampleType n front state ∧ state ≠ 8 * n) ∧
            value = part.value order data sampleType 0 8 := by
      refine .compute ?_
      rintro state ⟨rfl, hpos⟩
      exact ⟨_, readUInt_of_le (behind_room hdata hpos hend), ⟨hpos, hend⟩,
        value_of_flag hflag hfront hpos 0 8⟩
    refine .bind hread fun value ↦ .of_pure fun hvalue ↦ ?_
    have hstep : Act.Ensures (fun state ↦ Behind sampleType n front state ∧ state ≠ 8 * n)
        (Act.update (· + 8) : InfoReader Unit) fun _ ↦ Behind sampleType n (front ++ [part]) :=
      .update fun state hstate ↦ behind_advance part hflag hstate.1 hstate.2
    exact .bind hstep fun _ ↦ .done fun state hstate ↦ ⟨hstate, hvalue⟩
  · refine .done fun pos hpos ↦ ⟨behind_skip part hflag hpos, ?_⟩
    exact (value_of_not_flag hflag 0 8).symm

theorem u32Part_ensures :
    Act.Ensures (Behind sampleType n front) (u32Part order data sampleType (8 * n) part.flag)
      fun value pos ↦ Behind sampleType n (front ++ [part]) pos ∧
        value.1 = part.value order data sampleType 0 4 ∧
        value.2 = part.value order data sampleType 4 4 := by
  unfold u32Part
  refine .ite (fun hflag ↦ ?_) fun hflag ↦ ?_
  · refine .bind .read fun pos ↦ .ite (fun _ ↦ .leave _) fun hend ↦ ?_
    have hread : ∀ offset, offset + 4 ≤ 8 →
        Act.Ensures (fun state ↦ pos = state ∧ Behind sampleType n front state)
          (Act.compute (readUInt order 4 data (pos + offset)) : InfoReader ℕ) fun value state ↦
            (pos = state ∧ Behind sampleType n front state) ∧
              value = part.value order data sampleType offset 4 := by
      intro offset hoffset
      refine .compute ?_
      rintro state ⟨rfl, hpos⟩
      have hroom := behind_room hdata hpos hend
      exact ⟨_, readUInt_of_le (by omega), ⟨rfl, hpos⟩, value_of_flag hflag hfront hpos offset 4⟩
    refine .bind (hread 0 (by omega)) fun first ↦ .of_pure fun hfirst ↦ ?_
    refine .bind (hread 4 (by omega)) fun second ↦ .of_pure fun hsecond ↦ ?_
    have hstep : Act.Ensures (fun state ↦ pos = state ∧ Behind sampleType n front state)
        (Act.update (· + 8) : InfoReader Unit) fun _ ↦ Behind sampleType n (front ++ [part]) := by
      refine .update ?_
      rintro state ⟨rfl, hpos⟩
      exact behind_advance part hflag hpos hend
    exact .bind hstep fun _ ↦ .done fun state hstate ↦ ⟨hstate, hfirst, hsecond⟩
  · refine .done fun pos hpos ↦ ⟨behind_skip part hflag hpos, ?_, ?_⟩
    · exact (value_of_not_flag hflag 0 4).symm
    · exact (value_of_not_flag hflag 4 4).symm

end Fixed

section Variable

variable {attr : PerfEventAttr} {start : ℕ}

/-- The position is that of a part, inside an event of `n` times eight bytes. -/
def PartAt (n start pos : ℕ) : Prop := pos = start ∧ 8 ∣ start ∧ start ≤ 8 * n

/-- A part of a known size is taken where it fits. -/
theorem takeSized_ensures (hdata : 8 * n ≤ data.length) (hn : 8 * n < 2 ^ 16) {size : ℕ}
    (hsize : 8 ∣ size) :
    Act.Ensures (PartAt n start)
      (do
        let left ← Act.compute (subUsize build (8 * n) start)
        if left < size then Act.leave .invalidData
        else
          Act.update (· + size)
          pure ⟨start % 2 ^ 16, (start + size) % 2 ^ 16⟩ : InfoReader ByteRange)
      fun range pos ↦ PartAt n (start + size) pos ∧ range = ⟨start, start + size⟩ ∧
        range.InBounds data := by
  have hleft : Act.Ensures (PartAt n start)
      (Act.compute (subUsize build (8 * n) start) : InfoReader ℕ) fun left state ↦
        PartAt n start state ∧ left = 8 * n - start := by
    refine .compute fun state hstate ↦ ⟨_, subUsize_of_le hstate.2.2, hstate, rfl⟩
  refine .bind hleft fun left ↦ .of_pure ?_
  rintro rfl
  refine .ite (fun _ ↦ .leave _) fun hfits ↦ ?_
  have hstep : Act.Ensures (PartAt n start) (Act.update (· + size) : InfoReader Unit)
      fun _ ↦ PartAt n (start + size) := by
    refine .update ?_
    rintro state ⟨rfl, halign, hle⟩
    exact ⟨rfl, Nat.dvd_add halign hsize, by omega⟩
  refine .bind hstep fun _ ↦ .done fun state hstate ↦ ⟨hstate, ?_⟩
  have hle := hstate.2.2
  rw [Nat.mod_eq_of_lt (by omega), Nat.mod_eq_of_lt (by omega)]
  exact ⟨rfl, Nat.le_add_right _ _, hle.trans hdata⟩

/-- The number in front of a part. -/
theorem readNumber_ensures (hdata : 8 * n ≤ data.length) {next : ℕ → InfoReader ByteRange}
    {post : ByteRange → ℕ → Prop}
    (hnext : Act.Ensures (PartAt n start) (next (SampleLayout.u64At order data start)) post) :
    Act.Ensures (PartAt n start)
      (if start = 8 * n then Act.leave .invalidData
      else do
        let nr ← Act.compute (readUInt order 8 data start)
        next nr) post := by
  refine .ite (fun _ ↦ .leave _) fun hend ↦ ?_
  have hread : Act.Ensures (PartAt n start) (Act.compute (readUInt order 8 data start) : InfoReader ℕ)
      fun nr state ↦ PartAt n start state ∧ nr = SampleLayout.u64At order data start := by
    refine .compute fun state hstate ↦ ⟨_, readUInt_of_le ?_, hstate, rfl⟩
    obtain ⟨_, halign, hle⟩ := hstate
    omega
  refine .bind hread fun nr ↦ .of_pure ?_
  rintro rfl
  exact hnext

/-- The position is read at the start of a part. -/
theorem readPos_ensures {next : ℕ → InfoReader ByteRange} {post : ByteRange → ℕ → Prop}
    (hnext : Act.Ensures (PartAt n start) (next start) post) :
    Act.Ensures (PartAt n start) (Act.read >>= next) post := by
  refine .bind .read fun pos ↦ ?_
  rintro state ⟨rfl, hstate⟩
  obtain rfl := hstate.1
  exact hnext pos hstate

/-- A part that the sample type does not select takes no bytes. -/
theorem skipPart_ensures {flag : UInt64} (hflag : ¬hasFlag attr.sampleType flag = true) (size : ℕ)
    (range : ByteRange) :
    Act.Ensures (PartAt n start) (pure ⟨0, 0⟩ : InfoReader ByteRange) fun value pos ↦
      PartAt n (start + SampleLayout.sizeIf attr flag size) pos ∧
        value = SampleLayout.rangeIf attr flag range ∧ value.InBounds data := by
  unfold SampleLayout.sizeIf SampleLayout.rangeIf
  rw [if_neg hflag, if_neg hflag]
  exact .done fun state hstate ↦ ⟨hstate, rfl, le_rfl, Nat.zero_le _⟩

theorem readPart_ensures (hdata : 8 * n ≤ data.length) (hn : 8 * n < 2 ^ 16) :
    Act.Ensures (PartAt n start)
      (readPart build order data attr.sampleType (8 * n) attr.readFormat) fun range pos ↦
        PartAt n (start + SampleLayout.sizeIf attr PerfEventAttrSampleType.read
          (SampleLayout.readSize order data attr start)) pos ∧
        range = SampleLayout.rangeIf attr PerfEventAttrSampleType.read
          ⟨start, start + SampleLayout.sizeIf attr PerfEventAttrSampleType.read
            (SampleLayout.readSize order data attr start)⟩ ∧ range.InBounds data := by
  unfold readPart
  refine .ite (fun hflag ↦ ?_) fun hflag ↦ skipPart_ensures hflag _ _
  unfold SampleLayout.sizeIf SampleLayout.rangeIf
  rw [if_pos hflag, if_pos hflag]
  refine readPos_ensures (.ite (fun _ ↦ .leave _) fun _ ↦ .ite (fun hsingle ↦ ?_) fun hgroup ↦ ?_)
  · rw [Bool.not_eq_true', ← Bool.not_eq_true] at hsingle
    unfold SampleLayout.readSize
    rw [if_neg hsingle, Nat.mul_comm]
    exact takeSized_ensures hdata hn (dvd_mul_right _ _)
  · rw [Bool.not_eq_true', Bool.not_eq_false] at hgroup
    refine readNumber_ensures hdata (.ite (fun _ ↦ .leave _) fun _ ↦ ?_)
    unfold SampleLayout.readSize
    rw [if_pos hgroup]
    exact takeSized_ensures hdata hn (dvd_mul_right _ _)

theorem callchainPart_ensures (hdata : 8 * n ≤ data.length) (hn : 8 * n < 2 ^ 16) :
    Act.Ensures (PartAt n start)
      (callchainPart build order data attr.sampleType (8 * n)) fun range pos ↦
        PartAt n (start + SampleLayout.sizeIf attr PerfEventAttrSampleType.callchain
          (8 * (1 + SampleLayout.u64At order data start))) pos ∧
        range = SampleLayout.rangeIf attr PerfEventAttrSampleType.callchain
          ⟨start, start + SampleLayout.sizeIf attr PerfEventAttrSampleType.callchain
            (8 * (1 + SampleLayout.u64At order data start))⟩ ∧ range.InBounds data := by
  unfold callchainPart
  refine .ite (fun hflag ↦ ?_) fun hflag ↦ skipPart_ensures hflag _ _
  unfold SampleLayout.sizeIf SampleLayout.rangeIf
  rw [if_pos hflag, if_pos hflag]
  refine readPos_ensures (readNumber_ensures hdata (.ite (fun _ ↦ .leave _) fun _ ↦ ?_))
  exact takeSized_ensures hdata hn (dvd_mul_right _ _)

/-- The raw data may end in front of a multiple of eight; the position moves to that multiple. -/
theorem rawPart_ensures (hdata : 8 * n ≤ data.length) (hn : 8 * n < 2 ^ 16) {rawSize : ℕ}
    (hrawSize : rawSize = order.ofBytes ((data.drop start).take 4)) :
    Act.Ensures (PartAt n start)
      (rawPart build order data attr.sampleType (8 * n)) fun range pos ↦ pos ≤ 8 * n ∧
        range = SampleLayout.rangeIf attr PerfEventAttrSampleType.raw
          ⟨start + 4, start + 4 + rawSize⟩ ∧ range.InBounds data := by
  unfold rawPart
  refine .ite (fun hflag ↦ ?_) fun hflag ↦ ?_
  · unfold SampleLayout.rangeIf
    rw [if_pos hflag]
    refine readPos_ensures (.ite (fun _ ↦ .leave _) fun hend ↦ ?_)
    rintro pos ⟨rfl, halign, hle⟩
    have hroom : pos + 8 ≤ 8 * n := by omega
    rw [Act.bind_of_ok (Act.compute_ok (readUInt_of_le (by omega))), ← hrawSize,
      Act.bind_of_ok (Act.compute_ok (subUsize_of_le hle)),
      Act.bind_of_ok (Act.compute_ok (subUsize_of_le (by omega)))]
    by_cases hfits : (8 * n - pos - 4) % 2 ^ 32 < rawSize
    · rw [if_pos hfits]
      exact ⟨_, rfl, fun _ hvalue ↦ nomatch hvalue⟩
    rw [if_neg hfits]
    have hsize : rawSize + 4 ≤ 8 * n - pos := by omega
    have hstart : (pos + 4) % 2 ^ 16 = pos + 4 := Nat.mod_eq_of_lt (by omega)
    have hstop : PerfEventFormat.addU16 build (pos + 4) (rawSize % 2 ^ 16) =
        .ok (pos + 4 + rawSize) := by
      unfold PerfEventFormat.addU16
      rw [Nat.mod_eq_of_lt (by omega), if_pos (by omega)]
    dsimp only
    rw [hstart, Act.bind_of_ok (Act.compute_ok hstop), Act.update_bind, Act.pure_apply]
    refine ⟨_, rfl, fun range hrange ↦ ?_⟩
    obtain rfl := Except.ok.inj hrange
    refine ⟨?_, rfl, ?_, ?_⟩
    · show pos + (4 + rawSize + 7) / 8 * 8 ≤ 8 * n
      omega
    · show pos + 4 ≤ pos + 4 + rawSize
      omega
    · show pos + 4 + rawSize ≤ data.length
      omega
  · unfold SampleLayout.rangeIf
    rw [if_neg hflag]
    refine .done fun pos hpos ↦ ⟨hpos.1 ▸ hpos.2.2, rfl, ?_⟩
    exact ⟨le_rfl, Nat.zero_le _⟩

end Variable

end InfoReader

/-! ### The whole sample -/

namespace ReaderState

open InfoReader SampleLayout

variable {build : Build} {state : ReaderState}

/-- What the parts of a sample ensure together. -/
theorem sampleParts_ensures {data : List UInt8} (desc : PerfEventDesc) (id : ℕ)
    (hlower : 16 ≤ data.length) (hupper : data.length < 2 ^ 16) :
    Act.Ensures (· = PerfEventHeader.byteSize) (sampleParts build state data desc id)
      fun info _ ↦ Correct state.sessionInfo.byteReader data desc.attr info ∧
        info.eventDesc = desc ∧ info.id = id ∧ info.sessionInfo = state.sessionInfo := by
  unfold sampleParts
  dsimp only
  rw [Nat.mul_comm (data.length / 8) 8]
  have hdata : 8 * (data.length / 8) ≤ data.length := Nat.mul_div_le _ _
  have hn : 8 * (data.length / 8) < 2 ^ 16 := hdata.trans_lt hupper
  have hone : 1 < data.length / 8 := by omega
  generalize data.length / 8 = n at hdata hn hone
  have hheader : ∀ pos, pos = PerfEventHeader.byteSize → Behind desc.attr.sampleType n [] pos :=
    fun pos hpos ↦ ⟨hpos, hone.le⟩
  refine .weaken hheader (.bind (identifierPart_ensures hone) fun _ ↦ ?_)
  refine .bind (@u64Part_ensures _ _ _ _ _ .ip hdata rfl) fun ip ↦ .of_pure fun hip ↦ ?_
  refine .bind (@u32Part_ensures _ _ _ _ _ .tid hdata rfl) fun ⟨pid, tid⟩ ↦ .of_pure fun htid ↦ ?_
  refine .bind (@u64Part_ensures _ _ _ _ _ .time hdata rfl) fun time ↦ .of_pure fun htime ↦ ?_
  refine .bind (@u64Part_ensures _ _ _ _ _ .addr hdata rfl) fun addr ↦ .of_pure fun haddr ↦ ?_
  refine .bind idPart_ensures fun _ ↦ ?_
  refine .bind (@u64Part_ensures _ _ _ _ _ .streamId hdata rfl) fun streamId ↦
    .of_pure fun hstreamId ↦ ?_
  refine .bind (@u32Part_ensures _ _ _ _ _ .cpu hdata rfl) fun ⟨cpu, cpuReserved⟩ ↦
    .of_pure fun hcpu ↦ ?_
  refine .bind (@u64Part_ensures _ _ _ _ _ .period hdata rfl) fun period ↦
    .of_pure fun hperiod ↦ ?_
  have hread : ∀ pos, Behind desc.attr.sampleType n SamplePart.all pos →
      PartAt n (readStart desc.attr) pos ∧ readStart desc.attr ≤ data.length := by
    rintro pos ⟨rfl, hle⟩
    have hend := Nat.mul_le_mul_left 8 hle
    exact ⟨⟨rfl, dvd_mul_right _ _, hend⟩, hend.trans hdata⟩
  refine .weaken hread (.of_pure fun hfits ↦ ?_)
  refine .bind (readPart_ensures hdata hn) fun readRange ↦ .of_pure fun hreadRange ↦ ?_
  refine .bind (callchainPart_ensures hdata hn) fun callchainRange ↦ .of_pure fun hcallchain ↦ ?_
  refine .bind (rawPart_ensures hdata hn rfl) fun rawRange ↦ ?_
  refine .bind .read fun pos ↦ .bind (.check ?_) fun _ ↦ .done ?_
  · rintro state ⟨rfl, hpos, _⟩
    exact debugAssert_of hpos
  · rintro state ⟨_, _, hraw⟩
    refine ⟨⟨rfl, hfits, hip, htid.1, htid.2, htime, haddr, hstreamId, hcpu.1, hcpu.2, hperiod,
      hreadRange.1, hcallchain.1, hraw.1, ?_⟩, rfl, rfl, rfl⟩
    exact ⟨hreadRange.2, hcallchain.2, hraw.2⟩

/-- A description that is found by an id is one of the list. -/
theorem findDesc_returns (hinv : state.attrs.AttrsInv) (id : ℕ) :
    state.findDesc id = .ok (state.attrs.eventDescById (.ofNat id)) := by
  unfold findDesc ReaderAttrs.eventDescById
  cases hlookup : state.attrs.eventDescIdToIndex.lookup (.ofNat id) with
  | none => rfl
  | some index =>
    have hindex := hinv.indexes _ _ hlookup
    dsimp only [Option.bind_some]
    rw [List.getElem?_eq_getElem hindex]

/-- What `get_sample_event_info` returns. -/
theorem getSampleEventInfo_returns (hinv : state.attrs.AttrsInv) {event : PerfEventBytes}
    (hlength : event.data.length < 2 ^ 16) :
    Returns (getSampleEventInfo build state event) fun outcome ↦ ∀ info, outcome = .ok info →
      state.attrs.eventDescById (.ofNat info.id) = some info.eventDesc ∧
        Correct state.sessionInfo.byteReader event.data info.eventDesc.attr info := by
  unfold getSampleEventInfo
  dsimp only
  by_cases hoffset : state.attrs.offsets.sampleId < 8
  · rw [if_pos hoffset]
    exact ⟨_, rfl, fun _ hinfo ↦ nomatch hinfo⟩
  rw [if_neg hoffset]
  by_cases hshort : event.data.length < state.attrs.offsets.sampleId.toNat + 8
  · rw [if_pos hshort]
    exact ⟨_, rfl, fun _ hinfo ↦ nomatch hinfo⟩
  rw [if_neg hshort, readUInt_of_le (by omega), ok_bind, findDesc_returns hinv, ok_bind]
  generalize state.sessionInfo.byteReader.ofBytes _ = id
  cases hdesc : state.attrs.eventDescById (.ofNat id) with
  | none => exact ⟨_, rfl, fun _ hinfo ↦ nomatch hinfo⟩
  | some desc =>
    dsimp only
    rw [debugAssert_of (by omega), ok_bind]
    obtain ⟨result, hresult, hcorrect⟩ := @sampleParts_ensures build state event.data desc id
      (by omega) hlength PerfEventHeader.byteSize rfl
    rw [hresult, ok_bind]
    refine ⟨_, rfl, fun info hinfo ↦ ?_⟩
    obtain ⟨hinfoCorrect, rfl, rfl, _⟩ := hcorrect info hinfo
    exact ⟨hdesc, hinfoCorrect⟩

end ReaderState


/-! ### Every reader -/

/-- None of the accessors of the ranges panics. -/
structure PerfSampleEventInfo.AccessorsReturn (build : Build) (info : PerfSampleEventInfo) :
    Prop where
  readFormat : ∃ bytes, info.readFormat = .ok bytes
  callchain : ∃ bytes, info.callchain = .ok bytes
  rawData : ∃ bytes, info.rawData = .ok bytes
  userData : ∃ bytes, info.userData build = .ok bytes

/-- Ranges inside an event of less than 65536 bytes. -/
theorem SampleLayout.Correct.accessorsReturn {build : Build} {order : ByteOrder}
    {data : List UInt8} {attr : PerfEventAttr} {info : PerfSampleEventInfo}
    (h : Correct order data attr info) (hlength : data.length < 2 ^ 16) :
    info.AccessorsReturn build := by
  obtain ⟨hread, hcallchain, hraw⟩ := h.inBounds
  rw [← h.data_eq] at hread hcallchain hraw hlength
  refine ⟨⟨_, slice_of_le hread.1 hread.2⟩, ⟨_, slice_of_le hcallchain.1 hcallchain.2⟩,
    ⟨_, slice_of_le hraw.1 hraw.2⟩, ?_⟩
  obtain ⟨hstart, hstop⟩ := hraw
  unfold PerfSampleEventInfo.userData
  cases info.eventDesc.format with
  | none => exact ⟨_, rfl⟩
  | some format =>
    have hsub : subU16 build info.rawRange.stop info.rawRange.start =
        .ok (info.rawRange.stop - info.rawRange.start) := if_pos hstart
    dsimp only
    rw [hsub, ok_bind]
    by_cases hfits : format.commonFieldsSize ≤ info.rawRange.stop - info.rawRange.start
    · have hadd : PerfEventFormat.addU16 build info.rawRange.start format.commonFieldsSize =
          .ok (info.rawRange.start + format.commonFieldsSize) := if_pos (by omega)
      rw [if_pos hfits, hadd, ok_bind]
      exact ⟨_, slice_of_le (by omega) hstop⟩
    · rw [if_neg hfits]
      exact ⟨_, rfl⟩

/-- `get_sample_event_info` is in bounds and correct. Assumes: an event of 8 to 65535 bytes. For every
reader it returns without a panic; where it returns information, that is what the layout of samples
says for the description that is found for the id, and the accessors of its ranges return. -/
theorem sampleEventInfo_correct {build : Build} {handle : ReaderHandle}
    (hreachable : handle.Reachable build) {event : PerfEventBytes} (hlower : 8 ≤ event.data.length)
    (hupper : event.data.length ≤ 65535) :
    ∃ outcome, handle.reader.toReaderState.getSampleEventInfo build event = .ok outcome ∧
      ∀ info, outcome = .ok info →
        handle.reader.attrs.eventDescById (.ofNat info.id) = some info.eventDesc ∧
          SampleLayout.Correct handle.reader.sessionInfo.byteReader event.data info.eventDesc.attr
            info ∧
          info.AccessorsReturn build := by
  have hlength : event.data.length < 2 ^ 16 := by omega
  obtain ⟨outcome, houtcome, hinfo⟩ :=
    ReaderState.getSampleEventInfo_returns hreachable.attrsInv hlength
  refine ⟨outcome, houtcome, fun info heq ↦ ?_⟩
  obtain ⟨hdesc, hcorrect⟩ := hinfo info heq
  exact ⟨hdesc, hcorrect, hcorrect.accessorsReturn hlength⟩

/-- A sample with identifier, time, call chain and raw data. -/
def chainSample : PerfEventBytes :=
  ⟨⟨PerfEventHeaderType.sample, 0, 56⟩,
    PerfEventHeader.toBytes .little ⟨PerfEventHeaderType.sample, 0, 56⟩ ++ [5, 0, 0, 0, 0, 0, 0, 0] ++
      [7, 0, 0, 0, 0, 0, 0, 0] ++ [1, 0, 0, 0, 0, 0, 0, 0] ++ [9, 0, 0, 0, 0, 0, 0, 0] ++
      [10, 0, 0, 0, 1, 2, 3, 4, 5, 6, 7, 8, 9, 10, 0, 0]⟩

/-- A reader that received an attribute for the sample. -/
def chainHandle : ReaderHandle := attrHandle debugBuild .file (attrStream 0x10424 5 []) 1

/-- The information that is returned, if there is some. -/
def returnedInfo {α : Type} : Exec (Except PerfDataFileError α) → Option α
  | .ok (.ok info) => some info
  | _ => none

/-- The information about the sample. -/
theorem chainSample_correct : ∃ info,
    chainHandle.reader.toReaderState.getSampleEventInfo debugBuild chainSample = .ok (.ok info) ∧
      info.time = 7 ∧ info.callchainRange = ⟨24, 40⟩ ∧ info.rawRange = ⟨44, 54⟩ ∧
      info.AccessorsReturn debugBuild := by
  have hreachable : chainHandle.Reachable debugBuild := attrHandle_reachable _ _ _ _
  obtain ⟨outcome, houtcome, hinfo⟩ := @sampleEventInfo_correct debugBuild chainHandle hreachable
    chainSample (by decide) (by decide)
  have hvalues : (returnedInfo
      (chainHandle.reader.toReaderState.getSampleEventInfo debugBuild chainSample)).map
        (fun info ↦ (info.time, info.callchainRange, info.rawRange)) =
      some (7, ⟨24, 40⟩, ⟨44, 54⟩) := by decide +kernel
  rw [houtcome] at hvalues ⊢
  cases outcome with
  | error error => cases hvalues
  | ok info =>
    obtain ⟨htime, hranges⟩ := Prod.mk.inj (Option.some.inj hvalues)
    obtain ⟨hcallchain, hraw⟩ := Prod.mk.inj hranges
    exact ⟨info, rfl, htime, hcallchain, hraw, (hinfo info rfl).2.2⟩

end Tracepoints
