import Tracepoints.Perf.TimeKeys

/-!
# The times that rounds are sorted by

`Reading` has the time and the end that the reader computes from its shared offsets. Here they are told by
the event and the descriptions known when it is read (`Timed`): every description locates the same time
(`timeIn`), since the offsets of a reader are those of all its descriptions, and the events that end a
round are `FinishedRound` and `FinishedInit`. `timeOrder_sortsRounds` is the result about the two orders:
rounds with these ends, each stably sorted by these times.
-/

set_option autoImplicit false
set_option relaxedAutoImplicit false

namespace Tracepoints

open Exec DataFileReader

/-! ### The time that an attribute locates -/

/-- The time of an event as an attribute locates it: in a sample behind the parts in front of it, in
another event of the kernel at the end, in front of the parts behind it, where the attribute says that
all events have these parts. It is 0 where it is not selected or the event is too short for it. -/
def timeIn (order : ByteOrder) (attr : PerfEventAttr) (bytes : List UInt8) : ℕ :=
  let ty := order.ofBytes (bytes.take 4)
  if ty = PerfEventHeaderType.sample then
    if SamplePart.time.pos attr.sampleType + 8 ≤ bytes.length then
      SamplePart.time.value order bytes attr.sampleType 0 8
    else 0
  else if ty < PerfEventHeaderType.userTypeStart ∧
      hasFlag attr.options PerfEventAttrOptions.sampleIdAll = true ∧
      8 * SamplePart.count attr.sampleType (SamplePart.trailing.dropWhile (· ≠ .time)) ≤
        bytes.length then
    SamplePart.time.trailingValue order bytes attr.sampleType 0 8
  else 0

/-- An integer that is read from the start of the data. -/
theorem ofBytes_of_readUInt {order : ByteOrder} {width value : ℕ} {data : List UInt8}
    (h : readUInt order width data 0 = .ok value) : order.ofBytes (data.take width) = value := by
  unfold readUInt at h
  split_ifs at h
  exact Except.ok.inj h

namespace EventOffsets

variable {attr : PerfEventAttr}

theorem timeOffsets_of_not {sampleType : UInt64}
    (h : ¬hasFlag sampleType PerfEventAttrSampleType.time = true) :
    timeOffsets sampleType = (offsetNotPresent, offsetNotPresent) :=
  if_pos (by simpa using h)

theorem sampleTime_of_not (h : ¬hasFlag attr.sampleType PerfEventAttrSampleType.time = true) :
    (ofAttr attr).sampleTime = offsetNotPresent :=
  congrArg Prod.fst (timeOffsets_of_not h)

theorem nonSampleTime_of_not (h : hasFlag attr.options PerfEventAttrOptions.sampleIdAll = true →
    ¬hasFlag attr.sampleType PerfEventAttrSampleType.time = true) :
    (ofAttr attr).nonSampleTime = offsetNotPresent := by
  unfold ofAttr
  dsimp only
  by_cases hall : hasFlag attr.options PerfEventAttrOptions.sampleIdAll = true
  · rw [if_pos hall, timeOffsets_of_not (h hall)]
  · rw [if_neg hall]

end EventOffsets

namespace ReaderState

variable {state : ReaderState} {bytes : List UInt8} {time : ℕ}

/-- Without offsets there is no time. -/
theorem eventTime_unset (hoffsets : state.attrs.offsets = .unset)
    (h : eventTime state bytes = .ok time) : time = 0 := by
  unfold eventTime at h
  obtain ⟨ty, _, h⟩ := bind_eq_ok.1 h
  dsimp only at h
  have hsampleTime : state.attrs.offsets.sampleTime < 8 := by
    rw [hoffsets]
    decide
  have hnonSampleTime : state.attrs.offsets.nonSampleTime < 8 := by
    rw [hoffsets]
    decide
  rw [if_pos (Or.inl hsampleTime), if_pos (Or.inr (Or.inl hnonSampleTime)), ite_self] at h
  exact (Except.ok.inj h).symm

section Offsets

variable {attr : PerfEventAttr} (hoffsets : state.attrs.offsets = .ofAttr attr)
include hoffsets

/-- The time of a sample, at the offset that an attribute implies. -/
theorem eventTime_sample
    (hty : readUInt state.sessionInfo.byteReader 4 bytes 0 = .ok PerfEventHeaderType.sample)
    (h : eventTime state bytes = .ok time) :
    time = if SamplePart.time.pos attr.sampleType + 8 ≤ bytes.length then
      SamplePart.time.value state.sessionInfo.byteReader bytes attr.sampleType 0 8 else 0 := by
  unfold eventTime at h
  dsimp only at h
  rw [hty, ok_bind, if_pos rfl, hoffsets] at h
  unfold SamplePart.value
  by_cases htime : hasFlag attr.sampleType PerfEventAttrSampleType.time = true
  · have hpos : 8 ≤ SamplePart.time.pos attr.sampleType := by
      unfold SamplePart.pos
      omega
    rw [EventOffsets.sampleTime_eq htime, Int.toNat_natCast] at h
    rw [if_pos (show hasFlag attr.sampleType SamplePart.time.flag = true from htime), Nat.add_zero]
    by_cases hfits : SamplePart.time.pos attr.sampleType + 8 ≤ bytes.length
    · rw [if_neg (by omega), readUInt_of_le hfits] at h
      rw [if_pos hfits]
      exact (Except.ok.inj h).symm
    · rw [if_pos (by omega)] at h
      rw [if_neg hfits]
      exact (Except.ok.inj h).symm
  · rw [if_pos (by rw [EventOffsets.sampleTime_of_not htime]; exact .inl (by decide))] at h
    rw [if_neg (show ¬hasFlag attr.sampleType SamplePart.time.flag = true from htime), ite_self]
    exact (Except.ok.inj h).symm

/-- The time of another event, at the offset from its end that an attribute implies. -/
theorem eventTime_other {ty : ℕ} (hty : readUInt state.sessionInfo.byteReader 4 bytes 0 = .ok ty)
    (hother : ty ≠ PerfEventHeaderType.sample) (h : eventTime state bytes = .ok time) :
    time = if ty < PerfEventHeaderType.userTypeStart ∧
        hasFlag attr.options PerfEventAttrOptions.sampleIdAll = true ∧
        8 * SamplePart.count attr.sampleType (SamplePart.trailing.dropWhile (· ≠ .time)) ≤
          bytes.length then
      SamplePart.time.trailingValue state.sessionInfo.byteReader bytes attr.sampleType 0 8
      else 0 := by
  unfold eventTime at h
  dsimp only at h
  rw [hty, ok_bind, if_neg hother, hoffsets] at h
  unfold SamplePart.trailingValue
  by_cases htime : hasFlag attr.options PerfEventAttrOptions.sampleIdAll = true ∧
      hasFlag attr.sampleType PerfEventAttrSampleType.time = true
  · obtain ⟨hall, htime⟩ := htime
    have hbehind : SamplePart.trailing.dropWhile (· ≠ .time) =
        [.time, .id, .streamId, .cpu, .identifier] := rfl
    have hsize := @SamplePart.size_of_flag _ .time htime
    have hcount := SamplePart.count_cons attr.sampleType .time [.id, .streamId, .cpu, .identifier]
    rw [EventOffsets.nonSampleTime_eq htime hall, Int.toNat_natCast] at h
    rw [if_pos (show hasFlag attr.sampleType SamplePart.time.flag = true from htime)]
    unfold SamplePart.trailingPos
    rw [hbehind]
    generalize 8 * SamplePart.count attr.sampleType [.time, .id, .streamId, .cpu, .identifier] =
      behind at hcount h ⊢
    by_cases hfits : ty < PerfEventHeaderType.userTypeStart ∧ behind ≤ bytes.length
    · rw [if_neg (by omega), sub_of_le hfits.2, ok_bind, readUInt_of_le (by omega)] at h
      rw [if_pos ⟨hfits.1, hall, hfits.2⟩]
      exact (Except.ok.inj h).symm
    · rw [if_pos (by omega)] at h
      rw [if_neg fun hall ↦ hfits ⟨hall.1, hall.2.2⟩]
      exact (Except.ok.inj h).symm
  · have hnot := EventOffsets.nonSampleTime_of_not fun hall htime' ↦ htime ⟨hall, htime'⟩
    rw [if_pos (by rw [hnot]; exact .inr (.inl (by decide)))] at h
    obtain rfl := Except.ok.inj h
    by_cases hall : hasFlag attr.options PerfEventAttrOptions.sampleIdAll = true
    · rw [if_neg (show ¬hasFlag attr.sampleType SamplePart.time.flag = true from
        fun htime' ↦ htime ⟨hall, htime'⟩), ite_self]
    · rw [if_neg fun hfits ↦ hall hfits.2.1]

/-- The time of an event at the offsets that an attribute implies is the one that it locates. -/
theorem eventTime_eq_timeIn (h : eventTime state bytes = .ok time) :
    time = timeIn state.sessionInfo.byteReader attr bytes := by
  obtain ⟨ty, hty, _⟩ := bind_eq_ok.1 (show (readUInt state.sessionInfo.byteReader 4 bytes 0 >>= _) =
    .ok time from h)
  unfold timeIn
  dsimp only
  rw [ofBytes_of_readUInt hty]
  by_cases hsample : ty = PerfEventHeaderType.sample
  · rw [if_pos hsample]
    exact eventTime_sample hoffsets (hsample ▸ hty) h
  · rw [if_neg hsample]
    exact eventTime_other hoffsets hty hsample h

end Offsets

end ReaderState

namespace PerfDataFileReader

variable {build : Build}

/-! ### The readings of a run -/

/-- The time and the end of a reading, told by what was returned and by the descriptions that are known
behind its read. -/
structure Timed (state : ReaderState) (reading : Reading) : Prop where
  unknown : ∀ bytes, reading.returned = .event bytes → state.attrs.eventDescList = [] →
    reading.time = 0
  known : ∀ bytes, reading.returned = .event bytes → ∀ desc ∈ state.attrs.eventDescList,
    reading.time = timeIn state.sessionInfo.byteReader desc.attr bytes
  ends : ∀ bytes, reading.returned = .event bytes → (reading.ends = true ↔
    state.sessionInfo.byteReader.ofBytes (bytes.take 4) ∈
      [PerfEventHeaderType.finishedRound, PerfEventHeaderType.finishedInit])
  other : (∀ bytes, reading.returned ≠ .event bytes) → reading.time = 0 ∧ reading.ends = true

/-- What is not an event has no time and ends a round. -/
theorem Timed.of_other {state : ReaderState} {reading : Reading}
    (hother : ∀ bytes, reading.returned ≠ .event bytes)
    (hvalues : reading.time = 0 ∧ reading.ends = true) : Timed state reading where
  unknown bytes hevent := absurd hevent (hother bytes)
  known bytes hevent := absurd hevent (hother bytes)
  ends bytes hevent := absurd hevent (hother bytes)
  other _ := hvalues

/-- The time and the end that a reader gives to what it returned. -/
theorem readingOf_timed {state : ReaderState} {returned : Returned} {reading : Reading}
    (hagree : state.attrs.OffsetsAgree) (h : readingOf state returned = .ok reading) :
    Timed state reading := by
  cases returned with
  | event bytes =>
    obtain ⟨time, htime, h⟩ := bind_eq_ok.1 h
    obtain ⟨closes, hcloses, h⟩ := bind_eq_ok.1 h
    obtain rfl := Except.ok.inj h
    obtain ⟨ty, hty, hcloses⟩ := bind_eq_ok.1 hcloses
    obtain rfl := Except.ok.inj hcloses
    refine ⟨?_, ?_, ?_, fun hnone ↦ absurd rfl (hnone bytes)⟩
    · rintro _ ⟨rfl⟩ hempty
      rcases hagree with ⟨_, hunset⟩ | ⟨hne, _⟩
      · exact ReaderState.eventTime_unset hunset htime
      · exact absurd hempty hne
    · rintro _ ⟨rfl⟩ desc hdesc
      rcases hagree with ⟨hempty, _⟩ | ⟨_, hoffsets⟩
      · rw [hempty] at hdesc
        cases hdesc
      · exact ReaderState.eventTime_eq_timeIn (hoffsets desc hdesc).symm htime
    · rintro _ ⟨rfl⟩
      dsimp only
      rw [ofBytes_of_readUInt hty, decide_eq_true_eq]
      simp
  | finished =>
    obtain rfl := Except.ok.inj h
    exact .of_other (fun _ ↦ Returned.noConfusion) ⟨rfl, rfl⟩
  | failed error =>
    obtain rfl := Except.ok.inj h
    exact .of_other (fun _ ↦ Returned.noConfusion) ⟨rfl, rfl⟩

/-- Every reading of a run has the time and the end that its event and the descriptions known behind its
read tell. -/
theorem calls_timed {count : ℕ} {reader last : PerfDataFileReader} {readings : List Reading}
    (hinv : reader.reader.attrs.AttrsInv) (h : calls build count reader = .ok (readings, last))
    {k : ℕ} {reading : Reading} (hreading : readings[k]? = some reading) :
    ∃ mid, calls build (k + 1) reader = .ok (readings.take (k + 1), mid) ∧
      Timed mid.reader.toReaderState reading := by
  induction count generalizing reader readings k with
  | zero =>
    obtain ⟨rfl, _⟩ := Prod.mk.inj (Except.ok.inj h)
    cases hreading
  | succ count ih =>
    rw [calls] at h
    obtain ⟨read, hread, h⟩ := bind_eq_ok.1 h
    obtain ⟨returned, hreturned, h⟩ := bind_eq_ok.1 h
    obtain ⟨first, hfirst, h⟩ := bind_eq_ok.1 h
    obtain ⟨⟨rest, last'⟩, hrest, h⟩ := bind_eq_ok.1 h
    obtain ⟨rfl, rfl⟩ := Prod.mk.inj (Except.ok.inj h)
    have hnext : read.reader.attrs.AttrsInv :=
      @moveNextEvent_state _ _ (fun state ↦ state.attrs.AttrsInv) _ _
        (fun _ _ _ hleaves hstate ↦ (hleaves.effect.attrsInv hstate).1) hread hinv
    cases k with
    | zero =>
      obtain rfl := Option.some.inj hreading
      refine ⟨⟨read.reader, read.eventBytes⟩, ?_, readingOf_timed hnext.agree hfirst⟩
      rw [calls, hread, ok_bind, hreturned, ok_bind, hfirst, ok_bind]
      rfl
    | succ k =>
      obtain ⟨mid, hmid, htimed⟩ := ih hnext hrest hreading
      refine ⟨mid, ?_, htimed⟩
      rw [calls, hread, ok_bind, hreturned, ok_bind, hfirst, ok_bind, hmid, ok_bind,
        List.take_succ_cons]

/-- The attributes of a reader that opened a file. -/
theorem openFile_attrsInv {spare : ℕ} {content : List UInt8} {eventOrder : PerfDataFileEventOrder}
    {reader : DataFileReader}
    (h : openFile build spare content eventOrder = .ok (.ok (), reader)) :
    reader.attrs.AttrsInv := by
  obtain ⟨s, hopen, rfl⟩ := openFile_eq_ok.mp h
  obtain ⟨received, hrun⟩ := Opened.readerRun (OpenState.open_opened hopen)
  exact hrun.attrsInv

/-- Assumes: a file that opens in file order, whose id lists have at most 64 KiB, whose records as
file order meets them have no data behind them, and whose rounds have at most `2 ^ 32` readings.

It opens in time order too. For every number of calls in file order, as many calls in time order as
the complete rounds have readings return these rounds one after the other, each stably sorted by
time with the reading that ends it last; every number of calls in time order is covered. The
readings that are returned are a permutation of those in file order. The time of each reading is the
one that every description known behind its read locates, 0 where there is none, and the readings that
end a round are `FinishedRound`, `FinishedInit` and what is not an event. -/
theorem timeOrder_sortsRounds (build : Build) (spare spare' : ℕ) (content : List UInt8)
    {fileReader : DataFileReader}
    (hopen : openFile build spare content .file = .ok (.ok (), fileReader))
    (hids : Loading.IdListsWithin 0x10000 build content)
    (hplain : ∀ n readings last, calls build n (opened fileReader) = .ok (readings, last) →
      PlainNext build last.reader.toReaderState last.reader.file)
    (hrounds : ∀ n readings last, calls build n (opened fileReader) = .ok (readings, last) →
      Rounds.longestRound Reading.ends 0 readings ≤ 2 ^ 32) :
    ∃ timeReader, openFile build spare' content .time = .ok (.ok (), timeReader) ∧
      (∀ n, ∃ readings last, calls build n (opened fileReader) = .ok (readings, last) ∧
        (∃ delivered last', calls build (timeOrdered readings).length (opened timeReader) =
            .ok (delivered, last') ∧
          delivered.map Reading.returned = (timeOrdered readings).map Reading.returned) ∧
        (timeOrdered readings).Perm (readings.take (timeOrdered readings).length) ∧
        ∀ k reading, readings[k]? = some reading → ∃ mid,
          calls build (k + 1) (opened fileReader) = .ok (readings.take (k + 1), mid) ∧
          Timed mid.reader.toReaderState reading) ∧
      ∀ m, ∃ n readings last, calls build n (opened fileReader) = .ok (readings, last) ∧
        m ≤ (timeOrdered readings).length := by
  obtain ⟨timeReader, htime, hcalls, hcovers⟩ :=
    timeOrder_deliversRounds build spare spare' content hopen hids hplain hrounds
  refine ⟨timeReader, htime, fun n ↦ ?_, hcovers⟩
  obtain ⟨readings, last, hfile, hdelivered, hperm⟩ := hcalls n
  exact ⟨readings, last, hfile, hdelivered, hperm, fun k reading hreading ↦
    calls_timed (openFile_attrsInv hopen) hfile hreading⟩

/-! #### A stream with two samples out of order -/

/-- The build of the sample. -/
def sampleBuild : Build := ⟨true, .little, true⟩

/-- A stream in pipe mode: an attribute with the sample type `TIME`, two samples at the times 2 and
1, and the end of the round. -/
def sampleStream : List UInt8 :=
  PerfFileHeaderPipe.toBytes .little ⟨perfile2MagicHostEndian, PerfFileHeaderPipe.byteSize⟩ ++
    (PerfEventHeader.toBytes .little ⟨PerfEventHeaderType.headerAttr, 0, 80⟩ ++
      ([1, 0, 0, 0, 64, 0, 0, 0] ++ List.replicate 16 0 ++ [4, 0, 0, 0, 0, 0, 0, 0] ++
        List.replicate 32 0) ++ [7, 0, 0, 0, 0, 0, 0, 0]) ++
    (PerfEventHeader.toBytes .little ⟨PerfEventHeaderType.sample, 0, 16⟩ ++
      [2, 0, 0, 0, 0, 0, 0, 0]) ++
    (PerfEventHeader.toBytes .little ⟨PerfEventHeaderType.sample, 0, 16⟩ ++
      [1, 0, 0, 0, 0, 0, 0, 0]) ++
    PerfEventHeader.toBytes .little ⟨PerfEventHeaderType.finishedRound, 0, 8⟩

/-- The reader of the sample in file order. -/
def sampleReader : DataFileReader :=
  match openFile sampleBuild 0 sampleStream .file with
  | .ok (.ok (), reader) => reader
  | _ => closed 0 sampleStream

/-- At the end of a stream calls in file order change nothing. -/
theorem calls_finished {build : Build} {reader : PerfDataFileReader}
    (h : moveNextEvent build reader.reader reader.currentEvent =
      .ok ⟨.ok false, reader.currentEvent, reader.reader⟩) (count : ℕ) :
    calls build count reader = .ok (List.replicate count ⟨.finished, 0, true⟩, reader) := by
  have hfull : Returned.finished.Full := trivial
  induction count with
  | zero => rfl
  | succ count ih => exact calls_succ h hfull rfl rfl ih

/-- The records of the first readings have no data behind them. -/
def plainFirst (count : ℕ) : Bool :=
  (List.range count).all fun n ↦
    match calls sampleBuild n (opened sampleReader) with
    | .ok (_, last) =>
      (nextRecord sampleBuild last.reader.toReaderState last.reader.file).all fun header ↦
        header.ty ≠ PerfEventHeaderType.headerTracingData ∧
          header.ty ≠ PerfEventHeaderType.auxtrace
    | .error _ => false

/-- The readings of the sample in file order up to its end, and the reader there. -/
def sampleEnd : List Reading × PerfDataFileReader :=
  match calls sampleBuild 5 (opened sampleReader) with
  | .ok result => result
  | .error _ => ([], opened sampleReader)

/-- The first five calls in file order return the round and come to the end of the sample. -/
theorem exists_sampleRound : ∃ round last reader,
    calls sampleBuild 5 (opened sampleReader) =
      .ok (round ++ [last, ⟨.finished, 0, true⟩], reader) ∧
    moveNextEvent sampleBuild reader.reader reader.currentEvent =
      .ok ⟨.ok false, reader.currentEvent, reader.reader⟩ ∧
    nextRecord sampleBuild reader.reader.toReaderState reader.reader.file = none ∧
    (∀ reading ∈ round, Reading.ends reading = false) ∧ Reading.ends last = true ∧
    round.length = 3 :=
  ⟨sampleEnd.1.take 3, sampleEnd.1.getD 3 ⟨.finished, 0, true⟩, sampleEnd.2, by decide +kernel,
    by decide +kernel, by decide +kernel, by decide +kernel, by decide +kernel, by decide +kernel⟩

/-- The records of the sample have no data behind them. -/
theorem sampleStream_plain (n : ℕ) (readings : List Reading) (last : PerfDataFileReader)
    (h : calls sampleBuild n (opened sampleReader) = .ok (readings, last)) :
    PlainNext sampleBuild last.reader.toReaderState last.reader.file := by
  intro header hheader
  by_cases hn : n < 5
  · have hall : plainFirst 5 = true := by decide +kernel
    have hfirst := List.all_eq_true.mp hall n (List.mem_range.mpr hn)
    rw [h] at hfirst
    dsimp only at hfirst
    rw [hheader] at hfirst
    simpa using hfirst
  · obtain ⟨count, rfl⟩ := Nat.exists_eq_add_of_le (not_lt.mp hn)
    obtain ⟨round, last', reader, hround, hend, hnone, -⟩ := exists_sampleRound
    rw [calls_add hround (calls_finished hend count)] at h
    obtain rfl : reader = last := congrArg Prod.snd (Except.ok.inj h)
    rw [hnone] at hheader
    cases hheader

/-- The rounds of the sample are short. -/
theorem sampleStream_rounds (n : ℕ) (readings : List Reading) (last : PerfDataFileReader)
    (h : calls sampleBuild n (opened sampleReader) = .ok (readings, last)) :
    Rounds.longestRound Reading.ends 0 readings ≤ 2 ^ 32 := by
  have hfinished : ∀ count, Rounds.longestRound Reading.ends 0
      (List.replicate count ⟨.finished, 0, true⟩) ≤ 1 := by
    intro count
    induction count with
    | zero => exact Nat.zero_le 1
    | succ count ih => exact max_le le_rfl ih
  by_cases hn : n < 5
  · have hall : ∀ n < 5, (match calls sampleBuild n (opened sampleReader) with
        | .ok result => Rounds.longestRound Reading.ends 0 result.1
        | .error _ => 0) ≤ 4 := by decide +kernel
    have hfirst := hall n hn
    rw [h] at hfirst
    exact hfirst.trans (by decide)
  · obtain ⟨count, rfl⟩ := Nat.exists_eq_add_of_le (not_lt.mp hn)
    obtain ⟨round, last', reader, hround, hend, -, hopen, hlast, hlength⟩ := exists_sampleRound
    rw [calls_add hround (calls_finished hend count)] at h
    obtain rfl : _ = readings := congrArg Prod.fst (Except.ok.inj h)
    rw [List.append_assoc, List.cons_append, List.singleton_append, ← List.replicate_succ,
      Rounds.longestRound_round 0 _ hopen hlast, hlength]
    exact max_le (by decide) ((hfinished (count + 1)).trans (by decide))

/-- The sample stream opens in time order, and its round is returned sorted by the times of the samples. -/
theorem sampleStream_sortsRounds :
    ∃ timeReader, openFile sampleBuild 1 sampleStream .time = .ok (.ok (), timeReader) ∧
      ∃ readings last delivered last', calls sampleBuild 5 (opened sampleReader) =
          .ok (readings, last) ∧
        calls sampleBuild (timeOrdered readings).length (opened timeReader) =
          .ok (delivered, last') ∧
        delivered.map Reading.returned = (timeOrdered readings).map Reading.returned ∧
        readings.map Reading.time = [0, 2, 1, 0, 0] ∧
        ∀ k reading, readings[k]? = some reading → ∃ mid,
          calls sampleBuild (k + 1) (opened sampleReader) = .ok (readings.take (k + 1), mid) ∧
          Timed mid.reader.toReaderState reading := by
  obtain ⟨timeReader, htime, hcalls, -⟩ := timeOrder_sortsRounds sampleBuild 0 1 sampleStream
    (show openFile sampleBuild 0 sampleStream .file = .ok (.ok (), sampleReader) by decide +kernel)
    (by
      intro order headerSize hkind hsize
      have hpipe : Loading.fileKind sampleBuild sampleStream = some (.little, 16) := by
        decide +kernel
      rw [hpipe] at hkind
      cases hkind
      exact absurd hsize (by decide))
    sampleStream_plain sampleStream_rounds
  obtain ⟨readings, last, hfile, ⟨delivered, last', hdelivered, hreturned⟩, -, htimed⟩ := hcalls 5
  have hend : calls sampleBuild 5 (opened sampleReader) = .ok sampleEnd := by decide +kernel
  have htimes : readings.map Reading.time = [0, 2, 1, 0, 0] := by
    rw [show readings = sampleEnd.1 from congrArg Prod.fst (Except.ok.inj (hfile.symm.trans hend))]
    decide +kernel
  exact ⟨timeReader, htime, readings, last, delivered, last', hfile, hdelivered, hreturned, htimes,
    htimed⟩

end PerfDataFileReader

end Tracepoints
