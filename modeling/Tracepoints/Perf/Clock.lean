import Tracepoints.Lib.Checked
import Tracepoints.Perf.ReaderState

/-!
# The clock of a session

`PerfTimeSpec` and the functions of `PerfSessionInfo` that convert times
(`tracepoint_decode/src/perf_session.rs`), operation by operation with the overflow checks of the
source, and the headers `CLOCKID` and `CLOCK_DATA` that a writer makes of a session
(`tracepoint_perf/src/file_writer.rs`).

`setClockDataChecked_eq` says that `set_clock_data` of `Perf/Session` does not overflow.
`PerfSessionInfo.clock_exact` is the meaning of the offset and of the conversion. `getClockData` gives
back the difference of the two clocks; `clockDataSurvives_iff` says when its multiplication fits.
-/

set_option autoImplicit false
set_option relaxedAutoImplicit false

namespace Tracepoints

open Exec

/-! ### Times -/

/-- `PerfTimeSpec`. -/
structure PerfTimeSpec where
  seconds : ℤ
  nanoseconds : ℕ
  deriving DecidableEq, Repr

namespace PerfTimeSpec

open PerfSessionInfo (billion)

/-- The loop of `PerfTimeSpec::new`. -/
def normalize (build : Build) : ℕ → ℤ → ℤ → Exec PerfTimeSpec
  | 0, _, _ => .error .unfinished
  | fuel + 1, seconds, nanoseconds =>
    if billion ≤ nanoseconds then do
      let seconds ← fit build .i64 (seconds + 1)
      let nanoseconds ← fit build .u32 (nanoseconds - billion)
      normalize build fuel seconds nanoseconds
    else .ok ⟨seconds, nanoseconds.toNat⟩

/-- `PerfTimeSpec::new`: the nanoseconds, of 32 bits, have at most four seconds in them. -/
def new (build : Build) (seconds nanoseconds : ℤ) : Exec PerfTimeSpec :=
  normalize build 5 seconds nanoseconds

/-- The nanoseconds since 1970. -/
def total (time : PerfTimeSpec) : ℤ := time.seconds * billion + time.nanoseconds

/-- The order that is derived for the type: by seconds, then by nanoseconds. -/
def Earlier (left right : PerfTimeSpec) : Prop :=
  left.seconds < right.seconds ∨
    left.seconds = right.seconds ∧ left.nanoseconds < right.nanoseconds

theorem new_of_lt {build : Build} {seconds : ℤ} {nanoseconds : ℕ} (h : nanoseconds < billion) :
    new build seconds nanoseconds = .ok ⟨seconds, nanoseconds⟩ := by
  unfold new normalize
  rw [if_neg (by omega), Int.toNat_natCast]

/-- The order of normal times is that of their nanoseconds since 1970. -/
theorem earlier_of_total {left right : PerfTimeSpec} (hleft : left.nanoseconds < billion)
    (hright : right.nanoseconds < billion) (h : left.total < right.total) :
    left.Earlier right := by
  unfold total billion at *
  unfold Earlier
  omega

end PerfTimeSpec

/-! ### Conversions of a session -/

namespace PerfSessionInfo

variable (build : Build) (session : PerfSessionInfo)

/-- `set_clock_data`, with each operation checked. -/
def setClockDataChecked (clockId wallClockNs clockIdTimeNs : ℕ) : Exec PerfSessionInfo :=
  if clockId = 2 ^ 32 - 1 then
    .ok
      { session with
        clockOffsetSeconds := 0
        clockOffsetNanoseconds := 0
        clockId := clockId
        clockOffsetKnown := false }
  else if clockIdTimeNs ≤ wallClockNs then do
    let offset ← fit build .u64 (wallClockNs - clockIdTimeNs)
    .ok
      { session with
        clockOffsetSeconds := IntType.i64.wrap (offset / billion)
        clockOffsetNanoseconds := (IntType.u32.wrap (offset % billion)).toNat
        clockId := clockId
        clockOffsetKnown := true }
  else do
    let negOffset ← fit build .u64 (clockIdTimeNs - wallClockNs)
    let negated ← fit build .i64 (-IntType.i64.wrap (negOffset / billion))
    let seconds ← fit build .i64 (negated - 1)
    let nanoseconds ← fit build .u32 (billion - IntType.u32.wrap (negOffset % billion))
    let after (seconds nanoseconds : ℤ) : PerfSessionInfo :=
      { session with
        clockOffsetSeconds := seconds
        clockOffsetNanoseconds := nanoseconds.toNat
        clockId := clockId
        clockOffsetKnown := true }
    if nanoseconds = billion then do
      let seconds ← fit build .i64 (seconds + 1)
      let nanoseconds ← fit build .u32 (nanoseconds - billion)
      .ok (after seconds nanoseconds)
    else .ok (after seconds nanoseconds)

/-- `clock_offset`. -/
def clockOffset : Exec PerfTimeSpec :=
  PerfTimeSpec.new build session.clockOffsetSeconds session.clockOffsetNanoseconds

/-- `get_clock_data`: the wall clock and the time of the clock. -/
def getClockData : Exec (ℕ × ℕ) :=
  if 0 ≤ session.clockOffsetSeconds then do
    let product ← fit build .u64 (IntType.u64.wrap session.clockOffsetSeconds * billion)
    let sum ← fit build .u64 (product + session.clockOffsetNanoseconds)
    .ok (sum.toNat, 0)
  else do
    let negated ← fit build .i64 (-session.clockOffsetSeconds)
    let product ← fit build .u64 (IntType.u64.wrap negated * billion)
    let difference ← fit build .u64 (product - session.clockOffsetNanoseconds)
    .ok (0, difference.toNat)

/-- `time_to_time_spec`. -/
def timeToTimeSpec (time : ℕ) : Exec PerfTimeSpec := do
  let seconds ← fit build .i64 (IntType.i64.wrap (time / billion) + session.clockOffsetSeconds)
  let nanoseconds ←
    fit build .u32 (IntType.u32.wrap (time % billion) + session.clockOffsetNanoseconds)
  if billion ≤ nanoseconds then do
    let seconds ← fit build .i64 (seconds + 1)
    let nanoseconds ← fit build .u32 (nanoseconds - billion)
    PerfTimeSpec.new build seconds nanoseconds
  else PerfTimeSpec.new build seconds nanoseconds

/-- The offset is normal, and far from the ends of its type. -/
structure ClockBounded (session : PerfSessionInfo) : Prop where
  nanoseconds_lt : session.clockOffsetNanoseconds < billion
  low : -2 ^ 35 ≤ session.clockOffsetSeconds
  high : session.clockOffsetSeconds ≤ 2 ^ 35

section Exact

variable {build : Build} {session : PerfSessionInfo} {clockId wallClockNs clockIdTimeNs : ℕ}

/-- Assumes: the clock is known, and the times are of 64 bits. -/
theorem setClockData_bounded (hid : clockId ≠ 2 ^ 32 - 1) (hwall : wallClockNs < 2 ^ 64)
    (htime : clockIdTimeNs < 2 ^ 64) :
    ClockBounded (session.setClockData clockId wallClockNs clockIdTimeNs) := by
  unfold setClockData
  rw [if_neg hid]
  split
  · constructor <;> dsimp only <;> unfold billion <;> omega
  · constructor <;> dsimp only <;> unfold billion <;> split <;> omega

/-- The offset is the difference of the clocks. -/
theorem setClockData_offset (hid : clockId ≠ 2 ^ 32 - 1) :
    (session.setClockData clockId wallClockNs clockIdTimeNs).clockOffsetSeconds * billion +
        (session.setClockData clockId wallClockNs clockIdTimeNs).clockOffsetNanoseconds =
      (wallClockNs : ℤ) - clockIdTimeNs := by
  unfold setClockData
  rw [if_neg hid]
  split
  · dsimp only
    unfold billion
    omega
  · dsimp only
    unfold billion
    split <;> omega

theorem wrap_remainder (offset : ℕ) :
    IntType.u32.wrap ((offset : ℤ) % billion) = (offset % billion : ℕ) := by
  have hmem : ((offset : ℤ) % billion) ∈ IntType.u32 := by
    rw [IntType.mem_u32]
    unfold billion
    omega
  rw [IntType.wrap_of_mem hmem]
  exact (Int.natCast_mod offset billion).symm

theorem wrap_nanoseconds (offset : ℕ) :
    (IntType.u32.wrap ((offset : ℤ) % billion)).toNat = offset % billion := by
  rw [wrap_remainder, Int.toNat_natCast]

/-- `set_clock_data` does not overflow. -/
theorem setClockDataChecked_eq (hwall : wallClockNs < 2 ^ 64) (htime : clockIdTimeNs < 2 ^ 64) :
    session.setClockDataChecked build clockId wallClockNs clockIdTimeNs =
      .ok (session.setClockData clockId wallClockNs clockIdTimeNs) := by
  unfold setClockDataChecked setClockData
  by_cases hid : clockId = 2 ^ 32 - 1
  · rw [if_pos hid, if_pos hid]
  rw [if_neg hid, if_neg hid]
  by_cases hle : clockIdTimeNs ≤ wallClockNs
  · obtain ⟨offset, rfl⟩ := Nat.exists_eq_add_of_le hle
    have hoffset : ((clockIdTimeNs + offset : ℕ) : ℤ) - clockIdTimeNs = offset := by omega
    have hseconds : ((offset : ℤ) / billion) ∈ IntType.i64 := by
      rw [IntType.mem_i64]
      unfold billion
      omega
    rw [if_pos hle, if_pos hle, hoffset, fit_of_mem (IntType.mem_u64.mpr (by omega)), ok_bind,
      IntType.wrap_of_mem hseconds, wrap_nanoseconds, Nat.add_sub_cancel_left]
    rfl
  · obtain ⟨offset, rfl⟩ := Nat.exists_eq_add_of_le (Nat.le_of_not_le hle)
    have hoffset : ((wallClockNs + offset : ℕ) : ℤ) - wallClockNs = offset := by omega
    have hseconds : ((offset : ℤ) / billion) ∈ IntType.i64 := by
      rw [IntType.mem_i64]
      unfold billion
      omega
    have hnegated : -((offset : ℤ) / billion) ∈ IntType.i64 := by
      rw [IntType.mem_i64]
      unfold billion
      omega
    have hless : -((offset : ℤ) / billion) - 1 ∈ IntType.i64 := by
      rw [IntType.mem_i64]
      unfold billion
      omega
    have hnanoseconds : (billion : ℤ) - (offset % billion : ℕ) = (billion - offset % billion : ℕ) := by
      unfold billion
      omega
    have hfits : ((billion - offset % billion : ℕ) : ℤ) ∈ IntType.u32 := by
      rw [IntType.mem_u32]
      unfold billion
      omega
    rw [if_neg hle, if_neg hle, hoffset, fit_of_mem (IntType.mem_u64.mpr (by omega)), ok_bind,
      IntType.wrap_of_mem hseconds, fit_of_mem hnegated, ok_bind, fit_of_mem hless, ok_bind,
      wrap_remainder, hnanoseconds, fit_of_mem hfits, ok_bind, Nat.add_sub_cancel_left]
    dsimp only
    by_cases hwhole : billion - offset % billion = billion
    · rw [if_pos (by rw [hwhole]), if_pos hwhole, if_pos hwhole, hwhole, Int.sub_self,
        fit_of_mem (IntType.mem_i64.mpr (by unfold billion; omega)), ok_bind,
        fit_of_mem (IntType.mem_u32.mpr (by omega)), ok_bind]
      rfl
    · rw [if_neg (by exact_mod_cast hwhole), if_neg hwhole, if_neg hwhole, Int.toNat_natCast]
      rfl

theorem clockOffset_of_bounded (h : ClockBounded session) :
    session.clockOffset build =
      .ok ⟨session.clockOffsetSeconds, session.clockOffsetNanoseconds⟩ :=
  PerfTimeSpec.new_of_lt h.nanoseconds_lt

/-- Assumes: a time of 64 bits. -/
theorem timeToTimeSpec_of_bounded (h : ClockBounded session) {time : ℕ} (htime : time < 2 ^ 64) :
    ∃ spec, session.timeToTimeSpec build time = .ok spec ∧ spec.nanoseconds < billion ∧
      spec.total =
        time + (session.clockOffsetSeconds * billion + session.clockOffsetNanoseconds) := by
  obtain ⟨hlt, hlow, hhigh⟩ := h
  have hseconds : ((time : ℤ) / billion) ∈ IntType.i64 := by
    rw [IntType.mem_i64]
    unfold billion
    omega
  have hsum : (time : ℤ) / billion + session.clockOffsetSeconds ∈ IntType.i64 := by
    rw [IntType.mem_i64]
    unfold billion
    omega
  have hmod : time % billion < billion := Nat.mod_lt _ (by decide)
  have hnanoseconds : ((time % billion : ℕ) : ℤ) + session.clockOffsetNanoseconds =
      ((time % billion + session.clockOffsetNanoseconds : ℕ) : ℤ) := rfl
  have hfits : ((time % billion + session.clockOffsetNanoseconds : ℕ) : ℤ) ∈ IntType.u32 := by
    rw [IntType.mem_u32]
    unfold billion at *
    omega
  unfold timeToTimeSpec
  rw [IntType.wrap_of_mem hseconds, fit_of_mem hsum, ok_bind, wrap_remainder, hnanoseconds,
    fit_of_mem hfits, ok_bind]
  by_cases hcarry : billion ≤ time % billion + session.clockOffsetNanoseconds
  · have hrest : ((time % billion + session.clockOffsetNanoseconds : ℕ) : ℤ) - billion =
        (time % billion + session.clockOffsetNanoseconds - billion : ℕ) := by omega
    have hnext : (time : ℤ) / billion + session.clockOffsetSeconds + 1 ∈ IntType.i64 := by
      rw [IntType.mem_i64]
      unfold billion
      omega
    have hsmall : time % billion + session.clockOffsetNanoseconds - billion < billion := by omega
    rw [if_pos (by exact_mod_cast hcarry), fit_of_mem hnext, ok_bind, hrest,
      fit_of_mem (IntType.mem_u32.mpr (by unfold billion at *; omega)), ok_bind,
      PerfTimeSpec.new_of_lt hsmall]
    refine ⟨_, rfl, hsmall, ?_⟩
    unfold PerfTimeSpec.total billion at *
    dsimp only
    omega
  · have hsmall : time % billion + session.clockOffsetNanoseconds < billion := by omega
    rw [if_neg (by exact_mod_cast hcarry), PerfTimeSpec.new_of_lt hsmall]
    refine ⟨_, rfl, hsmall, ?_⟩
    unfold PerfTimeSpec.total billion at *
    dsimp only
    omega

end Exact

/-- What a session with clock data means: its offset is the difference of the two clocks, and a time is
converted by adding it. -/
structure ClockExact (build : Build) (session : PerfSessionInfo) (difference : ℤ) : Prop where
  offset : ∃ spec, session.clockOffset build = .ok spec ∧ spec.nanoseconds < 10 ^ 9 ∧
    spec.total = difference
  time : ∀ time : UInt64, ∃ spec, session.timeToTimeSpec build time.toNat = .ok spec ∧
    spec.nanoseconds < 10 ^ 9 ∧ spec.total = time.toNat + difference
  monotone : ∀ first second : UInt64, first < second → ∃ earlier later,
    session.timeToTimeSpec build first.toNat = .ok earlier ∧
      session.timeToTimeSpec build second.toNat = .ok later ∧ earlier.Earlier later

/-- Setting clock data does not overflow, and the session then converts times exactly. -/
theorem clock_exact (build : Build) (session : PerfSessionInfo) (clockId : UInt32)
    (wallClockNs clockIdTimeNs : UInt64) (hid : clockId.toNat ≠ 2 ^ 32 - 1) :
    ∃ after, session.setClockDataChecked build clockId.toNat wallClockNs.toNat clockIdTimeNs.toNat =
        .ok after ∧
      ClockExact build after ((wallClockNs.toNat : ℤ) - clockIdTimeNs.toNat) := by
  have hwall := wallClockNs.toNat_lt
  have htime := clockIdTimeNs.toNat_lt
  have hbounded := @setClockData_bounded session _ _ _ hid hwall htime
  have hoffset := @setClockData_offset session _ wallClockNs.toNat clockIdTimeNs.toNat hid
  refine ⟨_, setClockDataChecked_eq hwall htime, ?_⟩
  have hconverts (time : UInt64) := @timeToTimeSpec_of_bounded build _ hbounded _ time.toNat_lt
  rw [hoffset] at hconverts
  constructor
  · exact ⟨_, clockOffset_of_bounded hbounded, hbounded.nanoseconds_lt, hoffset⟩
  · exact hconverts
  · intro first second hlt
    obtain ⟨earlier, hearlier, hfirst, htotal⟩ := hconverts first
    obtain ⟨later, hlater, hsecond, htotal'⟩ := hconverts second
    have hnat := UInt64.lt_iff_toNat_lt.mp hlt
    exact ⟨earlier, later, hearlier, hlater,
      PerfTimeSpec.earlier_of_total hfirst hsecond (by omega)⟩

/-- A clock that is one nanosecond ahead of the wall clock: the offset is one second back and
999999999 nanoseconds. -/
theorem clock_exact_one_behind : ∃ after,
    (PerfSessionInfo.new .little).setClockDataChecked ⟨true, .little, true⟩ 1 0 1 = .ok after ∧
      ClockExact ⟨true, .little, true⟩ after (-1) :=
  clock_exact ⟨true, .little, true⟩ (.new .little) 1 0 1 (by decide)

end PerfSessionInfo

/-! ### Headers of the clock -/

namespace PerfDataFileWriter

variable (build : Build) (headers : Headers)

/-- `set_clockid_header`. -/
def setClockidHeader (clockid : ℕ) : Headers :=
  headers.put PerfHeaderIndex.clockId (build.targetEndian.toBytes 8 clockid)

/-- `set_clock_data_header`, of version 1. -/
def setClockDataHeader (clockid wallClockNs clockidTimeNs : ℕ) : Headers :=
  headers.put PerfHeaderIndex.clockData
    (Record.encode build.targetEndian
      [(4, 1), (4, clockid), (8, wallClockNs), (8, clockidTimeNs)])

/-- `set_session_info_headers`. -/
def setSessionInfoHeaders (session : PerfSessionInfo) : Exec Headers := do
  let headers :=
    if session.clockId = 0xFFFFFFFF then headers.put PerfHeaderIndex.clockId []
    else setClockidHeader build headers session.clockId
  if !session.clockOffsetKnown then .ok (headers.put PerfHeaderIndex.clockData [])
  else do
    let (wallClockNs, clockOffsetNs) ← session.getClockData build
    .ok (setClockDataHeader build headers session.clockId wallClockNs clockOffsetNs)

end PerfDataFileWriter

/-- Clock data that is read in the byte order of the target and swapped where needed has the values of
its own byte order. -/
theorem ClockData.ofBytes_swapped {target source : ByteOrder} {bytes : List UInt8}
    (hlength : bytes.length = byteSize) :
    (if source ≠ target then (ofBytes target bytes).byteSwap else ofBytes target bytes) =
      ofBytes source bytes := by
  by_cases horder : source = target
  · rw [if_neg (not_not.mpr horder), horder]
  · have hflip : target = source.flip := by
      revert horder
      cases source <;> cases target <;> decide
    have hfield {field : List UInt8} {width : ℕ} (hwidth : field.length = width) :
        ByteOrder.swapBytes width (source.flip.ofBytes field) = source.ofBytes field := by
      rw [ByteOrder.ofBytes_flip, hwidth]
      exact ByteOrder.swapBytes_swapBytes (hwidth ▸ source.ofBytes_lt field)
    unfold byteSize at hlength
    rw [if_pos horder, hflip]
    unfold ofBytes byteSwap
    dsimp only
    rw [hfield (by simp [hlength]), hfield (by simp [hlength]), hfield (by simp [hlength]),
      hfield (by simp [hlength])]

/-- Assumes: values that fit the fields. -/
theorem ClockData.ofBytes_encode {order : ByteOrder} {clockid wallClockNs clockidTimeNs : ℕ}
    (hclockid : clockid < 2 ^ 32) (hwall : wallClockNs < 2 ^ 64) (htime : clockidTimeNs < 2 ^ 64) :
    ofBytes order
        (Record.encode order [(4, 1), (4, clockid), (8, wallClockNs), (8, clockidTimeNs)]) =
      ⟨1, clockid, wallClockNs, clockidTimeNs⟩ := by
  have hfields : ∀ field ∈ [(4, 1), (4, clockid), (8, wallClockNs), (8, clockidTimeNs)],
      field.2 < 256 ^ field.1 := by
    simp only [List.forall_mem_cons]
    exact ⟨by decide, by omega, by omega, by omega, by simp⟩
  have hdecoded := Record.decode_encode order [] hfields
  rw [List.append_nil] at hdecoded
  simp only [List.map_cons, List.map_nil, Record.decode, List.drop_drop, List.cons.injEq,
    and_true] at hdecoded
  obtain ⟨hversion, hid, hwallClock, hclockTime⟩ := hdecoded
  unfold ofBytes
  rw [hversion, hid, hwallClock, hclockTime]

/-- What a reader makes of the two headers. -/
theorem ReaderState.parseHeaderClock {build reader : Build} {state : ReaderState}
    {clockid wallClockNs clockidTimeNs : ℕ} {before : Headers} (hclockid : clockid < 2 ^ 32)
    (hwall : wallClockNs < 2 ^ 64) (htime : clockidTimeNs < 2 ^ 64)
    (hheaders : state.headers =
      PerfDataFileWriter.setClockDataHeader build
        (PerfDataFileWriter.setClockidHeader build before clockid) clockid wallClockNs clockidTimeNs)
    (horder : state.sessionInfo.byteReader = build.targetEndian) :
    ∃ session : PerfSessionInfo,
      (state.parseHeaderClockid.parseHeaderClockData reader).sessionInfo =
        session.setClockData clockid wallClockNs clockidTimeNs := by
  set data := Record.encode build.targetEndian
    [(4, 1), (4, clockid), (8, wallClockNs), (8, clockidTimeNs)] with hdata
  have hlength : data.length = ClockData.byteSize := Record.length_encode _ _
  have hread : state.header PerfHeaderIndex.clockData = data := by
    unfold header
    rw [hheaders]
    exact Vector.getElem_set_self _
  set next := state.parseHeaderClockid with hnext
  have hkept : next.headers = state.headers ∧
      next.sessionInfo.byteReader = state.sessionInfo.byteReader := by
    rw [hnext]
    unfold parseHeaderClockid
    dsimp only
    split
    · exact ⟨rfl, rfl⟩
    · exact ⟨rfl, rfl⟩
  refine ⟨next.sessionInfo, ?_⟩
  have hheader : next.header PerfHeaderIndex.clockData = data := by
    unfold header at hread ⊢
    rw [hkept.1]
    exact hread
  have hswapped := @ClockData.ofBytes_swapped reader.targetEndian build.targetEndian data hlength
  unfold parseHeaderClockData PerfSessionInfo.byteSwapNeeded
  rw [hheader, hkept.2, horder]
  dsimp only
  rw [if_neg (by omega), List.take_of_length_le (by omega)]
  simp only [decide_eq_true_eq]
  rw [hswapped, hdata, ClockData.ofBytes_encode hclockid hwall htime]
  rfl

namespace PerfSessionInfo

/-- The clock of a session survives writing it into the headers of a file and reading these headers: the
two times have the difference of the clocks, and a reader of any byte order that reads the headers gets
the same clock. -/
structure ClockDataSurvives (build : Build) (session : PerfSessionInfo) (difference : ℤ) : Prop where
  data : ∃ wallClockNs clockIdTimeNs : ℕ,
    session.getClockData build = .ok (wallClockNs, clockIdTimeNs) ∧
      (wallClockNs : ℤ) - clockIdTimeNs = difference
  headers : ∀ before : Headers, ∃ after,
    PerfDataFileWriter.setSessionInfoHeaders build before session = .ok after ∧
      ∀ (reader : Build) (state : ReaderState), state.headers = after →
        state.sessionInfo.byteReader = build.targetEndian →
        let readBack := (state.parseHeaderClockid.parseHeaderClockData reader).sessionInfo
        readBack.clockId = session.clockId ∧ readBack.clockOffsetKnown = session.clockOffsetKnown ∧
          readBack.clockOffset reader = session.clockOffset reader ∧
          ∀ time : UInt64,
            readBack.timeToTimeSpec reader time.toNat = session.timeToTimeSpec reader time.toNat

section Survives

variable {build : Build} {session : PerfSessionInfo} {clockId wallClockNs clockIdTimeNs : ℕ}

/-- The clock is not ahead of the wall clock: the product and the sum are at most the difference. -/
theorem getClockData_behind (hid : clockId ≠ 2 ^ 32 - 1) (hle : clockIdTimeNs ≤ wallClockNs)
    (hwall : wallClockNs < 2 ^ 64) :
    (session.setClockData clockId wallClockNs clockIdTimeNs).getClockData build =
      .ok (wallClockNs - clockIdTimeNs, 0) := by
  obtain ⟨offset, rfl⟩ := Nat.exists_eq_add_of_le hle
  have hdivided : offset / billion * billion + offset % billion = offset := Nat.div_add_mod' _ _
  have hproduct : offset / billion * billion ≤ offset := Nat.div_mul_le_self _ _
  have hseconds : ((offset / billion : ℕ) : ℤ) ∈ IntType.u64 := by
    rw [IntType.mem_u64]
    unfold billion
    omega
  unfold setClockData
  rw [if_neg hid, if_pos hle, Nat.add_sub_cancel_left]
  unfold getClockData
  dsimp only
  rw [if_pos (Int.natCast_nonneg _), IntType.wrap_of_mem hseconds, ← Int.natCast_mul,
    fit_of_mem (IntType.mem_u64.mpr (by omega)), ok_bind, ← Int.natCast_add, hdivided,
    fit_of_mem (IntType.mem_u64.mpr (by omega)), ok_bind, Int.toNat_natCast]

/-- The seconds of a clock that is ahead, rounded up. -/
theorem setClockData_ahead (hid : clockId ≠ 2 ^ 32 - 1) (hlt : wallClockNs < clockIdTimeNs) :
    ∃ seconds : ℕ, 0 < seconds ∧
      (session.setClockData clockId wallClockNs clockIdTimeNs).clockOffsetSeconds = -seconds ∧
      seconds * billion =
        clockIdTimeNs - wallClockNs +
          (session.setClockData clockId wallClockNs clockIdTimeNs).clockOffsetNanoseconds ∧
      (session.setClockData clockId wallClockNs clockIdTimeNs).clockOffsetNanoseconds < billion := by
  unfold setClockData
  rw [if_neg hid, if_neg (Nat.not_le.mpr hlt)]
  dsimp only
  have hdivided := Nat.div_add_mod (clockIdTimeNs - wallClockNs) billion
  have hmod : (clockIdTimeNs - wallClockNs) % billion < billion := Nat.mod_lt _ (by decide)
  unfold billion at *
  split
  · refine ⟨(clockIdTimeNs - wallClockNs) / 1000000000, ?_, ?_, ?_, ?_⟩ <;> omega
  · refine ⟨(clockIdTimeNs - wallClockNs) / 1000000000 + 1, ?_, ?_, ?_, ?_⟩ <;> omega

/-- The clock is ahead of the wall clock: the product is the difference rounded up to seconds. -/
theorem getClockData_ahead (hid : clockId ≠ 2 ^ 32 - 1) (hlt : wallClockNs < clockIdTimeNs)
    (hfits : clockIdTimeNs - wallClockNs ≤ 18446744073 * 10 ^ 9) :
    (session.setClockData clockId wallClockNs clockIdTimeNs).getClockData build =
      .ok (0, clockIdTimeNs - wallClockNs) := by
  obtain ⟨seconds, hpos, hseconds, hproduct, hnanoseconds⟩ :=
    @setClockData_ahead session _ _ _ hid hlt
  have hbound : seconds ≤ 18446744073 := by
    unfold billion at *
    omega
  have hfit : (seconds : ℤ) * billion ∈ IntType.u64 := by
    rw [IntType.mem_u64]
    unfold billion
    omega
  have hdifference : (seconds : ℤ) * billion -
      (session.setClockData clockId wallClockNs clockIdTimeNs).clockOffsetNanoseconds =
        (clockIdTimeNs - wallClockNs : ℕ) := by
    rw [← Int.natCast_mul, hproduct]
    omega
  unfold getClockData
  rw [hseconds, if_neg (by omega), Int.neg_neg, fit_of_mem (IntType.mem_i64.mpr (by omega)), ok_bind,
    IntType.wrap_of_mem (IntType.mem_u64.mpr (by omega)), fit_of_mem hfit, ok_bind, hdifference,
    fit_of_mem (IntType.mem_u64.mpr (by omega)), ok_bind, Int.toNat_natCast]

/-- The clock is further ahead: the product does not fit, and a build with overflow checks faults. -/
theorem getClockData_overflow (hbuild : build.debugAssertions = true) (hid : clockId ≠ 2 ^ 32 - 1)
    (htime : clockIdTimeNs < 2 ^ 64)
    (hlarge : 18446744073 * 10 ^ 9 < clockIdTimeNs - wallClockNs) :
    (session.setClockData clockId wallClockNs clockIdTimeNs).getClockData build =
      .error .overflow := by
  obtain ⟨seconds, hpos, hseconds, hproduct, hnanoseconds⟩ :=
    @setClockData_ahead session clockId wallClockNs clockIdTimeNs hid (by omega)
  have hbound : 18446744073 < seconds ∧ seconds < 2 ^ 35 := by
    unfold billion at *
    omega
  have hlarge : (seconds : ℤ) * billion ∉ IntType.u64 := by
    rw [IntType.mem_u64]
    unfold billion
    omega
  unfold getClockData
  rw [hseconds, if_neg (by omega), Int.neg_neg, fit_of_mem (IntType.mem_i64.mpr (by omega)), ok_bind,
    IntType.wrap_of_mem (IntType.mem_u64.mpr (by omega)), fit_overflow hbuild hlarge, error_bind]

/-- The normal form of the two clocks has their difference. -/
theorem getClockData_eq (hid : clockId ≠ 2 ^ 32 - 1) (hwall : wallClockNs < 2 ^ 64)
    (hfits : clockIdTimeNs - wallClockNs ≤ 18446744073 * 10 ^ 9) :
    (session.setClockData clockId wallClockNs clockIdTimeNs).getClockData build =
      .ok (wallClockNs - clockIdTimeNs, clockIdTimeNs - wallClockNs) := by
  by_cases hle : clockIdTimeNs ≤ wallClockNs
  · rw [getClockData_behind hid hle hwall, Nat.sub_eq_zero_of_le hle]
  · have hlt := Nat.lt_of_not_le hle
    rw [getClockData_ahead hid hlt hfits, Nat.sub_eq_zero_of_le hlt.le]

/-- Clock data in normal form gives the same clock. -/
theorem setClockData_normal (other : PerfSessionInfo) :
    let normal := other.setClockData clockId (wallClockNs - clockIdTimeNs)
      (clockIdTimeNs - wallClockNs)
    let original := session.setClockData clockId wallClockNs clockIdTimeNs
    normal.clockId = original.clockId ∧ normal.clockOffsetKnown = original.clockOffsetKnown ∧
      normal.clockOffsetSeconds = original.clockOffsetSeconds ∧
      normal.clockOffsetNanoseconds = original.clockOffsetNanoseconds := by
  dsimp only
  unfold setClockData
  by_cases hid : clockId = 2 ^ 32 - 1
  · rw [if_pos hid, if_pos hid]
    exact ⟨rfl, rfl, rfl, rfl⟩
  rw [if_neg hid, if_neg hid]
  by_cases hle : clockIdTimeNs ≤ wallClockNs
  · have hzero : clockIdTimeNs - wallClockNs = 0 := Nat.sub_eq_zero_of_le hle
    rw [if_pos hle, hzero, if_pos (Nat.zero_le _)]
    exact ⟨rfl, rfl, rfl, rfl⟩
  · have hzero : wallClockNs - clockIdTimeNs = 0 := by omega
    rw [if_neg hle, hzero, if_neg (by omega), Nat.sub_zero]
    exact ⟨rfl, rfl, rfl, rfl⟩

theorem setClockData_known (hid : clockId ≠ 2 ^ 32 - 1) :
    (session.setClockData clockId wallClockNs clockIdTimeNs).clockOffsetKnown = true ∧
      (session.setClockData clockId wallClockNs clockIdTimeNs).clockId = clockId := by
  unfold setClockData
  rw [if_neg hid]
  split
  · exact ⟨rfl, rfl⟩
  · exact ⟨rfl, rfl⟩

/-- Assumes: the product of `get_clock_data` fits. -/
theorem clockDataSurvives_of_fits (hclockId : clockId < 2 ^ 32 - 1) (hwall : wallClockNs < 2 ^ 64)
    (htime : clockIdTimeNs < 2 ^ 64)
    (hfits : clockIdTimeNs - wallClockNs ≤ 18446744073 * 10 ^ 9) :
    ClockDataSurvives build (session.setClockData clockId wallClockNs clockIdTimeNs)
      ((wallClockNs : ℤ) - clockIdTimeNs) := by
  have hid : clockId ≠ 2 ^ 32 - 1 := by omega
  have hdata := @getClockData_eq build session _ _ _ hid hwall hfits
  obtain ⟨hknown, hsame⟩ := @setClockData_known session clockId wallClockNs clockIdTimeNs hid
  constructor
  · exact ⟨_, _, hdata, by omega⟩
  · intro before
    refine ⟨PerfDataFileWriter.setClockDataHeader build
      (PerfDataFileWriter.setClockidHeader build before clockId) clockId
      (wallClockNs - clockIdTimeNs) (clockIdTimeNs - wallClockNs), ?_, ?_⟩
    · unfold PerfDataFileWriter.setSessionInfoHeaders
      rw [hknown, hsame, hdata, if_neg (by omega : clockId ≠ 0xFFFFFFFF)]
      rfl
    · intro reader state hheaders horder
      obtain ⟨other, hother⟩ := @ReaderState.parseHeaderClock build reader state _ _ _ before
        (by omega : clockId < 2 ^ 32) (by omega) (by omega) hheaders horder
      have hnormal := @setClockData_normal session clockId wallClockNs clockIdTimeNs other
      dsimp only at hnormal
      obtain ⟨hclock, hoffsetKnown, hseconds, hnanoseconds⟩ := hnormal
      dsimp only
      rw [hother]
      refine ⟨hclock, hoffsetKnown, ?_, fun time ↦ ?_⟩
      · unfold clockOffset
        rw [hseconds, hnanoseconds]
      · unfold timeToTimeSpec
        rw [hseconds, hnanoseconds]

end Survives

/-- The clock survives in every build exactly where it is at most 18446744073 seconds ahead of the wall
clock. -/
theorem clockDataSurvives_iff (session : PerfSessionInfo) (clockId : UInt32)
    (wallClockNs clockIdTimeNs : UInt64) (hid : clockId.toNat ≠ 2 ^ 32 - 1) :
    (∀ build, ClockDataSurvives build
        (session.setClockData clockId.toNat wallClockNs.toNat clockIdTimeNs.toNat)
        ((wallClockNs.toNat : ℤ) - clockIdTimeNs.toNat)) ↔
      clockIdTimeNs.toNat - wallClockNs.toNat ≤ 18446744073 * 10 ^ 9 := by
  have hclockId := clockId.toNat_lt
  constructor
  · intro hsurvives
    by_contra hlarge
    obtain ⟨wall, time, hdata, -⟩ := (hsurvives ⟨true, .little, true⟩).data
    rw [getClockData_overflow rfl hid clockIdTimeNs.toNat_lt (Nat.lt_of_not_le hlarge)] at hdata
    cases hdata
  · exact fun hfits build ↦ clockDataSurvives_of_fits (by omega) wallClockNs.toNat_lt
      clockIdTimeNs.toNat_lt hfits

theorem clockDataSurvives_one_behind : ClockDataSurvives ⟨true, .little, true⟩
    ((PerfSessionInfo.new .little).setClockData 1 0 1) (-1) :=
  (clockDataSurvives_iff (.new .little) 1 0 1 (by decide)).mpr (by decide) _

/-- A clock at the end of its range, with a wall clock of zero. -/
theorem lastClock_not_survives : ¬∀ build, ClockDataSurvives build
    ((PerfSessionInfo.new .little).setClockData 1 0 (2 ^ 64 - 1)) (0 - (2 ^ 64 - 1)) := by
  intro hsurvives
  obtain ⟨wall, time, hdata, -⟩ := (hsurvives ⟨true, .little, true⟩).data
  have hfault : ((PerfSessionInfo.new .little).setClockData 1 0 (2 ^ 64 - 1)).getClockData
      ⟨true, .little, true⟩ = .error .overflow := by decide
  rw [hfault] at hdata
  cases hdata

end PerfSessionInfo

end Tracepoints
