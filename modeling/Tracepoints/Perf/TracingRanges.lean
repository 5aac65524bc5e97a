import Tracepoints.Perf.Handle

/-!
# The ranges of the tracing data

`parse_tracing_data` keeps ranges of the header it parses; the accessors of `PerfDataFileReader` cut
them out of the header as it is when they are called. The ranges it keeps lie inside that header
(`parseTracingData_inBounds`), so the accessors return what was parsed as long as the header stays:
as long as no `HeaderFeature` event for the tracing data is read once it was parsed.

A run parses tracing data while it opens the file or behind an event that it reads;
`ParsesTracingData` says where, and which bytes of the file.
-/

set_option autoImplicit false
set_option relaxedAutoImplicit false

namespace Tracepoints

open Exec

/-- The range lies inside the data. -/
def ByteRange.InBounds (range : ByteRange) (data : List UInt8) : Prop :=
  range.start ≤ range.stop ∧ range.stop ≤ data.length

namespace ReaderState

variable {build : Build} {state : ReaderState}

/-! ### The accessors -/

section Accessors

variable (state : ReaderState)

/-- The bytes of a range of the tracing data. -/
def tracingDataSection (range : ByteRange) : Exec (List UInt8) :=
  slice (state.header PerfHeaderIndex.tracingData) range.start range.stop

/-- `tracing_data_header_page`. -/
def tracingDataHeaderPage : Exec (List UInt8) := state.tracingDataSection state.headerPage

/-- `tracing_data_header_event`. -/
def tracingDataHeaderEvent : Exec (List UInt8) := state.tracingDataSection state.headerEvent

/-- `tracing_data_ftrace`. -/
def tracingDataFtrace (index : ℕ) : Exec (List UInt8) :=
  match state.ftraces[index]? with
  | some range => state.tracingDataSection range
  | none => .error .indexOutOfRange

/-- `tracing_data_kallsyms`. -/
def tracingDataKallsyms : Exec (List UInt8) := state.tracingDataSection state.kallsyms

/-- `tracing_data_printk`. -/
def tracingDataPrintk : Exec (List UInt8) := state.tracingDataSection state.printk

/-- `tracing_data_saved_cmd_line`. -/
def tracingDataSavedCmdLine : Exec (List UInt8) := state.tracingDataSection state.cmdLine

/-- The ranges that are kept of the tracing data. -/
def tracingRanges : List ByteRange :=
  [state.headerPage, state.headerEvent, state.kallsyms, state.printk, state.cmdLine] ++ state.ftraces

end Accessors

/-- Two states that show the same of the tracing data. -/
structure SameTracingData (first second : ReaderState) : Prop where
  headerPage_eq : first.tracingDataHeaderPage = second.tracingDataHeaderPage
  headerEvent_eq : first.tracingDataHeaderEvent = second.tracingDataHeaderEvent
  ftraceCount_eq : first.ftraces.length = second.ftraces.length
  ftrace_eq : ∀ index, first.tracingDataFtrace index = second.tracingDataFtrace index
  kallsyms_eq : first.tracingDataKallsyms = second.tracingDataKallsyms
  printk_eq : first.tracingDataPrintk = second.tracingDataPrintk
  cmdLine_eq : first.tracingDataSavedCmdLine = second.tracingDataSavedCmdLine

/-- The state before tracing data was parsed: nothing is kept. -/
structure TracingUnparsed (state : ReaderState) : Prop where
  flag : state.parsedTracingData = false
  ranges : state.headerPage = ⟨0, 0⟩ ∧ state.headerEvent = ⟨0, 0⟩ ∧ state.kallsyms = ⟨0, 0⟩ ∧
    state.printk = ⟨0, 0⟩ ∧ state.cmdLine = ⟨0, 0⟩
  ftraces : state.ftraces = []

/-- None of the accessors panics. -/
structure AccessorsReturn (state : ReaderState) : Prop where
  headerPage : ∃ bytes, state.tracingDataHeaderPage = .ok bytes
  headerEvent : ∃ bytes, state.tracingDataHeaderEvent = .ok bytes
  ftrace : ∀ index < state.ftraces.length, ∃ bytes, state.tracingDataFtrace index = .ok bytes
  kallsyms : ∃ bytes, state.tracingDataKallsyms = .ok bytes
  printk : ∃ bytes, state.tracingDataPrintk = .ok bytes
  cmdLine : ∃ bytes, state.tracingDataSavedCmdLine = .ok bytes

/-- The ranges lie inside the header and the accessors return what was parsed: nothing before tracing
data was parsed. Since then they return what they returned right after a call of `parse_tracing_data`,
and the header is what that call parsed. `Parses before data after` says where the tracing data can come
from: there is a call for `data` that begins with `before` and leaves `after`. -/
structure TracingDataSound (build : Build)
    (Parses : ReaderState → List UInt8 → ReaderState → Prop) (state : ReaderState) : Prop where
  inBounds : ∀ range ∈ state.tracingRanges,
    range.InBounds (state.header PerfHeaderIndex.tracingData)
  accessors : state.AccessorsReturn
  parsed : state.TracingUnparsed ∨ ∃ before data after, Parses before data after ∧
    before.TracingUnparsed ∧
    (before.setHeader PerfHeaderIndex.tracingData data).parseTracingData build = .ok after ∧
    after.parsedTracingData = true ∧ state.header PerfHeaderIndex.tracingData = data ∧
    SameTracingData state after

/-- Inside the bounds an accessor does not panic. -/
theorem tracingDataSection_returns {range : ByteRange}
    (h : range.InBounds (state.header PerfHeaderIndex.tracingData)) :
    ∃ bytes, state.tracingDataSection range = .ok bytes :=
  ⟨_, slice_of_le h.1 h.2⟩

theorem AccessorsReturn.of_inBounds (h : ∀ range ∈ state.tracingRanges,
    range.InBounds (state.header PerfHeaderIndex.tracingData)) : state.AccessorsReturn := by
  have hreturns (range : ByteRange) (hrange : range ∈ state.tracingRanges) :=
    tracingDataSection_returns (h range hrange)
  constructor
  · exact hreturns state.headerPage (by simp [tracingRanges])
  · exact hreturns state.headerEvent (by simp [tracingRanges])
  · intro index hindex
    unfold tracingDataFtrace
    rw [List.getElem?_eq_getElem hindex]
    exact hreturns state.ftraces[index] (List.mem_append_right _ (List.getElem_mem hindex))
  · exact hreturns state.kallsyms (by simp [tracingRanges])
  · exact hreturns state.printk (by simp [tracingRanges])
  · exact hreturns state.cmdLine (by simp [tracingRanges])

/-! ### What the parser keeps -/

/-- The parser has begun, and what it has kept so far lies inside the data it parses. -/
structure RangesIn (data : List UInt8) (state : ReaderState) : Prop where
  flag : state.parsedTracingData = true
  header_eq : state.header PerfHeaderIndex.tracingData = data
  inBounds : ∀ range ∈ state.tracingRanges, range.InBounds data

theorem readSection_inBounds {size pos : ℕ} {order : ByteOrder} {data : List UInt8}
    {range : ByteRange} (h : readSection build size order data pos = .ok range) :
    range.InBounds data := by
  unfold readSection at h
  obtain ⟨_, _, h⟩ := bind_eq_ok.1 h
  obtain ⟨left, _, h⟩ := bind_eq_ok.1 h
  split_ifs at h with hshort
  · obtain rfl := Except.ok.inj h
    exact ⟨le_rfl, Nat.zero_le _⟩
  obtain ⟨sectionSize, _, h⟩ := bind_eq_ok.1 h
  obtain ⟨behind, hbehind, h⟩ := bind_eq_ok.1 h
  unfold sub at hbehind
  split_ifs at hbehind with hpos
  obtain rfl := Except.ok.inj hbehind
  split_ifs at h with hlong
  · obtain rfl := Except.ok.inj h
    exact ⟨le_rfl, Nat.zero_le _⟩
  · obtain rfl := Except.ok.inj h
    exact ⟨Nat.le_add_right _ _, by dsimp only; omega⟩

theorem readNamedSection64_inBounds {pos : ℕ} {order : ByteOrder} {data name : List UInt8}
    {range : ByteRange} (h : readNamedSection64 build order data pos name = .ok range) :
    range.InBounds data := by
  unfold readNamedSection64 at h
  obtain ⟨_, _, h⟩ := bind_eq_ok.1 h
  obtain ⟨left, hleft, h⟩ := bind_eq_ok.1 h
  unfold sub at hleft
  split_ifs at hleft with hpos
  split_ifs at h
  · obtain rfl := Except.ok.inj h
    exact ⟨le_rfl, hpos⟩
  · exact readSection_inBounds h

section Parser

variable {data : List UInt8}

/-- What holds of a state is kept by every change that the parser makes. -/
structure ParserKeeps (data : List UInt8) (Inv : ReaderState → Prop) : Prop where
  flag : ∀ state, Inv state → Inv { state with parsedTracingData := true }
  longSize : ∀ state size, Inv state → Inv { state with tracingDataLongSize := size }
  pageSize : ∀ state size, Inv state → Inv { state with tracingDataPageSize := size }
  headerPage : ∀ state (range : ByteRange), range.InBounds data → Inv state →
    Inv { state with headerPage := range }
  headerEvent : ∀ state (range : ByteRange), range.InBounds data → Inv state →
    Inv { state with headerEvent := range }
  ftraces : ∀ state (range : ByteRange), range.InBounds data → Inv state →
    Inv { state with ftraces := state.ftraces ++ [range] }
  format : ∀ state next (format : PerfEventFormat), addFormat state format = .ok next →
    Inv state → Inv next
  links : ∀ state, Inv state → Inv { state with attrs := updateFormats state.attrs }
  kallsyms : ∀ state (range : ByteRange), range.InBounds data → Inv state →
    Inv { state with kallsyms := range }
  printk : ∀ state (range : ByteRange), range.InBounds data → Inv state →
    Inv { state with printk := range }
  cmdLine : ∀ state (range : ByteRange), range.InBounds data → Inv state →
    Inv { state with cmdLine := range }

section Keeps

variable {Inv : ReaderState → Prop}

theorem expectSection_keeps (range : ByteRange) :
    Act.Keeps Inv (expectSection range) fun _ ↦ True :=
  .ite (fun _ ↦ .leave ()) fun _ ↦ .done trivial

theorem expectSized_keeps (size : ℕ) (order : ByteOrder) (pos : ℕ) :
    Act.Keeps Inv (expectSized build size order data pos) fun range ↦ range.InBounds data := by
  unfold expectSized
  refine .bind (.compute fun _ hrange ↦ readSection_inBounds hrange) fun range hrange ↦ ?_
  exact .bind (expectSection_keeps range) fun _ _ ↦ .done hrange

theorem expectU32_keeps (order : ByteOrder) (pos : ℕ) :
    Act.Keeps Inv (expectU32 order data pos) fun _ ↦ True := by
  unfold expectU32
  refine .bind (.compute_any _) fun left _ ↦ ?_
  exact .ite (fun _ ↦ .leave ()) fun _ ↦ .compute fun _ _ ↦ trivial

theorem expectSz_keeps (pos : ℕ) : Act.Keeps Inv (expectSz data pos) fun _ ↦ True := by
  unfold expectSz
  split
  · exact .done trivial
  · exact .leave ()

variable (hkeeps : ParserKeeps data Inv)
include hkeeps

theorem ftracesLoop_keeps (order : ByteOrder) (count pos : ℕ) :
    Act.Keeps Inv (ftracesLoop build order data count pos) fun _ ↦ True := by
  induction count generalizing pos with
  | zero => exact .done trivial
  | succ count ih =>
    rw [ftracesLoop]
    refine .bind (expectSized_keeps 8 order pos) fun range hrange ↦ ?_
    exact .bind (.update fun state ↦ hkeeps.ftraces state range hrange) fun _ _ ↦ ih range.stop

theorem eventsLoop_keeps (order : ByteOrder) (systemName : List UInt8) (count pos : ℕ) :
    Act.Keeps Inv (eventsLoop build order data systemName count pos) fun _ ↦ True := by
  induction count generalizing pos with
  | zero => exact .done trivial
  | succ count ih =>
    rw [eventsLoop]
    refine .bind (expectSized_keeps 8 order pos) fun range _ ↦ ?_
    refine .bind (.compute_any _) fun bytes _ ↦ ?_
    refine .bind .read fun state _ ↦ ?_
    refine .bind (.compute_any _) fun format _ ↦ ?_
    cases format with
    | none => exact ih range.stop
    | some format =>
      refine .bind (.updateM fun state next hstate hnext ↦ ?_) fun _ _ ↦ ih range.stop
      exact hkeeps.format state next format hnext hstate

theorem systemsLoop_keeps (order : ByteOrder) (count pos : ℕ) :
    Act.Keeps Inv (systemsLoop build order data count pos) fun _ ↦ True := by
  induction count generalizing pos with
  | zero => exact .done trivial
  | succ count ih =>
    rw [systemsLoop]
    refine .bind (expectSz_keeps pos) fun system _ ↦ ?_
    refine .bind (expectU32_keeps order _) fun eventCount _ ↦ ?_
    exact .bind (eventsLoop_keeps hkeeps order _ eventCount _) fun pos _ ↦ ih pos

/-- The parser keeps what its changes keep. -/
theorem tracingBody_keeps : Act.Keeps Inv (tracingBody build data) fun _ ↦ True := by
  unfold tracingBody
  refine .bind (.update hkeeps.flag) fun _ _ ↦ ?_
  refine .bind (expectSz_keeps _) fun version _ ↦ ?_
  refine .bind (.compute_any _) fun left _ ↦ .ite (fun _ ↦ .leave_bind _ _) fun _ ↦ ?_
  refine .bind (.compute_any _) fun bigEndian _ ↦ .bind (.compute_any _) fun longSize _ ↦ ?_
  refine .bind (.update fun state ↦ hkeeps.longSize state _) fun _ _ ↦ ?_
  refine .bind (.compute_any _) fun pageSize _ ↦ ?_
  refine .bind (.update fun state ↦ hkeeps.pageSize state _) fun _ _ ↦ ?_
  refine .bind (.compute fun _ hrange ↦ readNamedSection64_inBounds hrange)
    fun headerPage hheaderPage ↦ ?_
  refine .bind (expectSection_keeps _) fun _ _ ↦ ?_
  refine .bind (.update fun state ↦ hkeeps.headerPage state _ hheaderPage) fun _ _ ↦ ?_
  refine .bind (.compute fun _ hrange ↦ readNamedSection64_inBounds hrange)
    fun headerEvent hheaderEvent ↦ ?_
  refine .bind (expectSection_keeps _) fun _ _ ↦ ?_
  refine .bind (.update fun state ↦ hkeeps.headerEvent state _ hheaderEvent) fun _ _ ↦ ?_
  refine .bind (expectU32_keeps _ _) fun ftraceCount _ ↦ ?_
  refine .bind (.compute_any _) fun left _ ↦ .ite (fun _ ↦ .leave_bind _ _) fun _ ↦ ?_
  refine .bind (ftracesLoop_keeps hkeeps _ _ _) fun pos _ ↦ ?_
  refine .bind (expectU32_keeps _ _) fun systemCount _ ↦ ?_
  refine .bind (systemsLoop_keeps hkeeps _ _ _) fun pos _ ↦ ?_
  refine .bind (.update hkeeps.links) fun _ _ ↦ ?_
  refine .bind (expectSized_keeps _ _ _) fun kallsyms hkallsyms ↦ ?_
  refine .bind (.update fun state ↦ hkeeps.kallsyms state _ hkallsyms) fun _ _ ↦ ?_
  refine .bind (expectSized_keeps _ _ _) fun printk hprintk ↦ ?_
  refine .bind (.update fun state ↦ hkeeps.printk state _ hprintk) fun _ _ ↦ ?_
  refine .ite (fun _ ↦ ?_) fun _ ↦ .done trivial
  refine .bind (expectSized_keeps _ _ _) fun cmdLine hcmdLine ↦ ?_
  exact .update fun state ↦ hkeeps.cmdLine state _ hcmdLine

end Keeps

/-! ### The ranges lie inside the data -/

/-- A change of a state that keeps the header and adds ranges inside it. -/
theorem RangesIn.of_ranges {next : ReaderState} (h : RangesIn data state)
    (hflag : next.parsedTracingData = state.parsedTracingData)
    (hheader : next.headers = state.headers)
    (hranges : ∀ range ∈ next.tracingRanges, range ∈ state.tracingRanges ∨ range.InBounds data) :
    RangesIn data next := by
  refine ⟨hflag.trans h.flag, by unfold header; rw [hheader]; exact h.header_eq, fun range hrange ↦ ?_⟩
  rcases hranges range hrange with hold | hnew
  · exact h.inBounds range hold
  · exact hnew

/-- A change of a state that does not touch the header or its ranges. -/
theorem RangesIn.of_same {next : ReaderState} (h : RangesIn data state)
    (hflag : next.parsedTracingData = state.parsedTracingData)
    (hheader : next.headers = state.headers)
    (hranges : next.tracingRanges = state.tracingRanges) : RangesIn data next :=
  h.of_ranges hflag hheader fun _ hrange ↦ .inl (hranges ▸ hrange)

/-- A format changes neither the header nor its ranges. -/
theorem addFormat_rangesIn {format : PerfEventFormat} {next : ReaderState}
    (h : addFormat state format = .ok next) (hstate : RangesIn data state) : RangesIn data next := by
  unfold addFormat at h
  obtain ⟨common, _, h⟩ := bind_eq_ok.1 h
  cases common with
  | none =>
    obtain rfl := Except.ok.inj h
    exact hstate
  | some offsetAndSize =>
    dsimp only at h
    split_ifs at h
    · obtain rfl := Except.ok.inj h
      exact hstate.of_same rfl rfl rfl
    · obtain rfl := Except.ok.inj h
      exact hstate
    · obtain rfl := Except.ok.inj h
      exact hstate.of_same rfl rfl rfl

/-- A change that brings in one range inside the data. -/
theorem RangesIn.replace {next : ReaderState} {range : ByteRange} (h : RangesIn data state)
    (hrange : range.InBounds data) (hflag : next.parsedTracingData = state.parsedTracingData)
    (hheader : next.headers = state.headers)
    (hranges : ∀ other ∈ next.tracingRanges, other ∈ state.tracingRanges ∨ other = range) :
    RangesIn data next := by
  refine h.of_ranges hflag hheader fun other hother ↦ ?_
  rcases hranges other hother with hold | rfl
  · exact .inl hold
  · exact .inr hrange

/-- Every change of the parser keeps the ranges inside the data. -/
theorem rangesIn_parserKeeps : ParserKeeps data (RangesIn data) where
  flag _ hstate := hstate.of_same hstate.flag.symm rfl rfl
  longSize _ _ hstate := hstate.of_same rfl rfl rfl
  pageSize _ _ hstate := hstate.of_same rfl rfl rfl
  headerPage state range hrange hstate := by
    refine hstate.replace hrange rfl rfl fun other hother ↦ ?_
    simp only [tracingRanges, List.mem_append, List.mem_cons, List.not_mem_nil] at hother ⊢
    tauto
  headerEvent state range hrange hstate := by
    refine hstate.replace hrange rfl rfl fun other hother ↦ ?_
    simp only [tracingRanges, List.mem_append, List.mem_cons, List.not_mem_nil] at hother ⊢
    tauto
  ftraces state range hrange hstate := by
    refine hstate.replace hrange rfl rfl fun other hother ↦ ?_
    simp only [tracingRanges, List.mem_append, List.mem_cons, List.not_mem_nil] at hother ⊢
    tauto
  format _ _ _ hformat hstate := addFormat_rangesIn hformat hstate
  links _ hstate := hstate.of_same rfl rfl rfl
  kallsyms state range hrange hstate := by
    refine hstate.replace hrange rfl rfl fun other hother ↦ ?_
    simp only [tracingRanges, List.mem_append, List.mem_cons, List.not_mem_nil] at hother ⊢
    tauto
  printk state range hrange hstate := by
    refine hstate.replace hrange rfl rfl fun other hother ↦ ?_
    simp only [tracingRanges, List.mem_append, List.mem_cons, List.not_mem_nil] at hother ⊢
    tauto
  cmdLine state range hrange hstate := by
    refine hstate.replace hrange rfl rfl fun other hother ↦ ?_
    simp only [tracingRanges, List.mem_append, List.mem_cons, List.not_mem_nil] at hother ⊢
    tauto

end Parser

/-! ### The invariant of a reader -/

theorem TracingUnparsed.tracingRanges_eq (h : state.TracingUnparsed) {range : ByteRange}
    (hrange : range ∈ state.tracingRanges) : range = ⟨0, 0⟩ := by
  obtain ⟨hpage, hevent, hkallsyms, hprintk, hcmdLine⟩ := h.ranges
  unfold tracingRanges at hrange
  rw [hpage, hevent, hkallsyms, hprintk, hcmdLine, h.ftraces] at hrange
  simpa using hrange

/-- Where no tracing data was parsed the ranges lie inside every header. -/
theorem TracingUnparsed.inBounds (h : state.TracingUnparsed) (data : List UInt8) {range : ByteRange}
    (hrange : range ∈ state.tracingRanges) : range.InBounds data := by
  rw [h.tracingRanges_eq hrange]
  exact ⟨le_rfl, Nat.zero_le _⟩

/-- `parse_tracing_data` does nothing without a signature; otherwise what it keeps lies inside the
header, which it does not change. -/
theorem parseTracingData_inBounds {next : ReaderState} (hunparsed : state.TracingUnparsed)
    (h : state.parseTracingData build = .ok next) :
    next = state ∨ RangesIn (state.header PerfHeaderIndex.tracingData) next := by
  unfold parseTracingData at h
  dsimp only at h
  split_ifs at h with hsignature
  · exact .inl (Except.ok.inj h).symm
  · obtain ⟨⟨outcome, after⟩, hbody, h⟩ := bind_eq_ok.1 h
    obtain rfl := Except.ok.inj h
    -- the parser begins with setting the flag
    have hbegun : RangesIn (state.header PerfHeaderIndex.tracingData)
        { state with parsedTracingData := true } :=
      ⟨rfl, rfl, fun range hrange ↦ hunparsed.inBounds _ hrange⟩
    exact .inr (tracingBody_keeps rangesIn_parserKeeps _ outcome after hbegun hbody).1

/-- Two states with the same header and the same ranges show the same. -/
theorem SameTracingData.of_eq {first second : ReaderState}
    (hheader : first.header PerfHeaderIndex.tracingData =
      second.header PerfHeaderIndex.tracingData)
    (hpage : first.headerPage = second.headerPage)
    (hevent : first.headerEvent = second.headerEvent) (hftraces : first.ftraces = second.ftraces)
    (hkallsyms : first.kallsyms = second.kallsyms) (hprintk : first.printk = second.printk)
    (hcmdLine : first.cmdLine = second.cmdLine) : SameTracingData first second := by
  have hsection (range : ByteRange) :
      first.tracingDataSection range = second.tracingDataSection range := by
    unfold tracingDataSection
    rw [hheader]
  constructor
  · unfold tracingDataHeaderPage
    rw [hpage, hsection]
  · unfold tracingDataHeaderEvent
    rw [hevent, hsection]
  · rw [hftraces]
  · intro index
    unfold tracingDataFtrace
    simp only [hftraces, hsection]
  · unfold tracingDataKallsyms
    rw [hkallsyms, hsection]
  · unfold tracingDataPrintk
    rw [hprintk, hsection]
  · unfold tracingDataSavedCmdLine
    rw [hcmdLine, hsection]

/-- The header and the ranges that are kept of it. -/
def tracingPart (state : ReaderState) : List UInt8 × Bool × List ByteRange × List ByteRange :=
  (state.header PerfHeaderIndex.tracingData, state.parsedTracingData,
    [state.headerPage, state.headerEvent, state.kallsyms, state.printk, state.cmdLine],
    state.ftraces)

variable {Parses : ReaderState → List UInt8 → ReaderState → Prop}

/-- The invariant: nothing was parsed and nothing is kept, or the header and what is kept of it are as
they were right after one of the calls of the parser. -/
inductive TracingInv (build : Build) (Parses : ReaderState → List UInt8 → ReaderState → Prop)
    (state : ReaderState) : Prop
  | unparsed (h : state.TracingUnparsed)
  | parsed {before after : ReaderState} {data : List UInt8} (hparses : Parses before data after)
      (hbefore : before.TracingUnparsed)
      (hparsed : (before.setHeader PerfHeaderIndex.tracingData data).parseTracingData build =
        .ok after)
      (hranges : RangesIn data after) (hsame : state.tracingPart = after.tracingPart)

theorem TracingInv.imp {Parses' : ReaderState → List UInt8 → ReaderState → Prop}
    (h : TracingInv build Parses state)
    (himp : ∀ before data after, Parses before data after → Parses' before data after) :
    TracingInv build Parses' state := by
  cases h with
  | unparsed h => exact .unparsed h
  | parsed hparses hbefore hparsed hranges hsame =>
    exact .parsed (himp _ _ _ hparses) hbefore hparsed hranges hsame

theorem TracingUnparsed.of_part {next : ReaderState} (h : state.TracingUnparsed)
    (hflag : next.parsedTracingData = state.parsedTracingData)
    (hranges : next.tracingPart.2.2 = state.tracingPart.2.2) : next.TracingUnparsed := by
  obtain ⟨hsingle, hftraces⟩ := Prod.mk.inj hranges
  simp only [List.cons.injEq, and_true] at hsingle
  obtain ⟨hpage, hevent, hkallsyms, hprintk, hcmdLine⟩ := h.ranges
  obtain ⟨hpage', hevent', hkallsyms', hprintk', hcmdLine'⟩ := hsingle
  exact ⟨hflag.trans h.flag, ⟨hpage'.trans hpage, hevent'.trans hevent, hkallsyms'.trans hkallsyms,
    hprintk'.trans hprintk, hcmdLine'.trans hcmdLine⟩, hftraces.trans h.ftraces⟩

/-- Since it was parsed the flag is set. -/
theorem flag_of_part {data : List UInt8} {after : ReaderState}
    (hsame : state.tracingPart = after.tracingPart) (hranges : RangesIn data after) :
    state.parsedTracingData = true :=
  (congrArg (fun part ↦ part.2.1) hsame).trans hranges.flag

/-- A change that touches neither the header nor the ranges keeps the invariant. -/
theorem TracingInv.of_part_eq {next : ReaderState} (h : TracingInv build Parses state)
    (heq : next.tracingPart = state.tracingPart) : TracingInv build Parses next := by
  cases h with
  | unparsed h =>
    exact .unparsed (h.of_part (congrArg (fun part ↦ part.2.1) heq)
      (congrArg (fun part ↦ part.2.2) heq))
  | parsed hparses hbefore hparsed hranges hsame =>
    exact .parsed hparses hbefore hparsed hranges (heq.trans hsame)

/-- Replacing the header before it is parsed. -/
theorem TracingUnparsed.setHeader (h : state.TracingUnparsed) (index : Fin 32) (value : List UInt8) :
    (state.setHeader index value).TracingUnparsed :=
  h.of_part rfl rfl

/-- Replacing another header. -/
theorem tracingPart_setHeader {index : Fin 32} (hindex : index ≠ PerfHeaderIndex.tracingData)
    (value : List UInt8) : (state.setHeader index value).tracingPart = state.tracingPart := by
  unfold tracingPart ReaderState.setHeader ReaderState.header
  dsimp only
  have hne : (index : ℕ) ≠ (PerfHeaderIndex.tracingData : Fin 32) := fun heq ↦
    hindex (Fin.ext heq)
  rw [show (state.headers.set index value)[PerfHeaderIndex.tracingData] =
      state.headers[PerfHeaderIndex.tracingData] from Vector.getElem_set_ne _ _ hne]

theorem header_setHeader (index : Fin 32) (value : List UInt8) :
    (state.setHeader index value).header index = value :=
  Vector.getElem_set_self _

/-- Parsing what was not parsed before. -/
theorem TracingUnparsed.parse {next : ReaderState} {data : List UInt8} (h : state.TracingUnparsed)
    (hparses : Parses state data next)
    (hparse : (state.setHeader PerfHeaderIndex.tracingData data).parseTracingData build = .ok next) :
    TracingInv build Parses next := by
  have hset := h.setHeader PerfHeaderIndex.tracingData data
  rcases parseTracingData_inBounds hset hparse with rfl | hranges
  · exact .unparsed hset
  · rw [header_setHeader] at hranges
    exact .parsed hparses h hparse hranges rfl

/-- Under the invariant the ranges lie inside the header and show what was parsed. -/
theorem TracingInv.sound (h : TracingInv build Parses state) :
    TracingDataSound build Parses state := by
  cases h with
  | unparsed h =>
    have hinBounds : ∀ range ∈ state.tracingRanges,
        range.InBounds (state.header PerfHeaderIndex.tracingData) :=
      fun range hrange ↦ h.inBounds _ hrange
    exact ⟨hinBounds, .of_inBounds hinBounds, .inl h⟩
  | @parsed before after data hparses hbefore hparsed hranges hsame =>
    obtain ⟨hheader, hpart⟩ := Prod.mk.inj hsame
    obtain ⟨_, hpart⟩ := Prod.mk.inj hpart
    obtain ⟨hsingle, hftraces⟩ := Prod.mk.inj hpart
    have hkept : state.tracingRanges = after.tracingRanges := by
      unfold tracingRanges
      rw [hsingle, hftraces]
    have hdata : state.header PerfHeaderIndex.tracingData = data :=
      hheader.trans hranges.header_eq
    have hinBounds : ∀ range ∈ state.tracingRanges,
        range.InBounds (state.header PerfHeaderIndex.tracingData) := by
      intro range hrange
      rw [hdata]
      exact hranges.inBounds range (hkept ▸ hrange)
    simp only [List.cons.injEq, and_true] at hsingle
    obtain ⟨hpage, hevent, hkallsyms, hprintk, hcmdLine⟩ := hsingle
    exact ⟨hinBounds, .of_inBounds hinBounds, .inr ⟨before, data, after, hparses, hbefore, hparsed,
      hranges.flag, hdata, .of_eq hheader hpage hevent hftraces hkallsyms hprintk hcmdLine⟩⟩

/-! ### Opening -/

theorem tracingPart_parseHeaderClockid : state.parseHeaderClockid.tracingPart = state.tracingPart := by
  unfold parseHeaderClockid
  dsimp only
  split_ifs <;> rfl

theorem tracingPart_parseHeaderClockData :
    (state.parseHeaderClockData build).tracingPart = state.tracingPart := by
  unfold parseHeaderClockData
  dsimp only
  split_ifs <;> rfl

theorem tracingPart_parseHeaderEventDesc {next : ReaderState}
    (h : state.parseHeaderEventDesc build = .ok next) : next.tracingPart = state.tracingPart := by
  unfold parseHeaderEventDesc at h
  dsimp only at h
  split_ifs at h
  · rw [Except.ok.inj h]
  · obtain ⟨eventCount, _, h⟩ := bind_eq_ok.1 h
    obtain ⟨attrSize, _, h⟩ := bind_eq_ok.1 h
    split_ifs at h
    · obtain rfl := Except.ok.inj h
      rfl
    · obtain ⟨attrs, _, h⟩ := bind_eq_ok.1 h
      obtain rfl := Except.ok.inj h
      rfl

/-- A header that is not the tracing data does not touch what is kept of the tracing data. -/
theorem tracingPart_parseHeader {index : Fin 32} (hindex : index ≠ PerfHeaderIndex.tracingData)
    {next : ReaderState} (h : OpenState.parseHeader build index state = .ok next) :
    next.tracingPart = state.tracingPart := by
  unfold OpenState.parseHeader at h
  split_ifs at h
  · rw [← Except.ok.inj h]
    exact tracingPart_parseHeaderClockid
  · rw [← Except.ok.inj h]
    exact tracingPart_parseHeaderClockData
  · exact tracingPart_parseHeaderEventDesc h
  · rw [Except.ok.inj h]

theorem AddsAttrs.tracingPart_eq {start : ReaderState} (h : AddsAttrs build start state) :
    state.tracingPart = start.tracingPart := by
  induction h with
  | refl => rfl
  | step _ _ ih => exact ih

/-- Loading headers from `first` to `last` comes to the tracing data: some headers are loaded, it is
parsed, and others are loaded. -/
def LoadParses (build : Build) (source : Fin 32 → List UInt8) (indexes : List (Fin 32))
    (first last before : ReaderState) (data : List UInt8) (after : ReaderState) : Prop :=
  ∃ earlier later, indexes = earlier ++ PerfHeaderIndex.tracingData :: later ∧
    LoadsHeaders build source earlier first before ∧
    data = source PerfHeaderIndex.tracingData ∧
    OpenState.parseHeader build PerfHeaderIndex.tracingData
      (before.setHeader PerfHeaderIndex.tracingData data) = .ok after ∧
    LoadsHeaders build source later after last

variable {source : Fin 32 → List UInt8} {indexes : List (Fin 32)} {last : ReaderState}

/-- Headers without the tracing data do not touch what is kept of it. -/
theorem LoadsHeaders.tracingPart_eq (h : LoadsHeaders build source indexes state last)
    (hnotMem : PerfHeaderIndex.tracingData ∉ indexes) : last.tracingPart = state.tracingPart := by
  induction h with
  | nil => rfl
  | cons hparse _ ih =>
    obtain ⟨hhead, htail⟩ := List.ne_and_not_mem_of_not_mem_cons hnotMem
    rw [ih htail, tracingPart_parseHeader hhead.symm hparse, tracingPart_setHeader hhead.symm]

/-- Headers with different indexes: the tracing data is parsed at most once. -/
theorem LoadsHeaders.tracingInv (h : LoadsHeaders build source indexes state last)
    (hnodup : indexes.Nodup) (hunparsed : state.TracingUnparsed) :
    TracingInv build (LoadParses build source indexes state last) last := by
  induction h with
  | nil => exact .unparsed hunparsed
  | @cons index indexes state mid last hparse hrest ih =>
    obtain ⟨hnotMem, hnodup⟩ := List.nodup_cons.mp hnodup
    by_cases hindex : index = PerfHeaderIndex.tracingData
    · subst hindex
      have hmid : TracingInv build
          (LoadParses build source (PerfHeaderIndex.tracingData :: indexes) state last) mid :=
        hunparsed.parse ⟨[], indexes, rfl, .nil state, rfl, hparse, hrest⟩ hparse
      exact hmid.of_part_eq (hrest.tracingPart_eq hnotMem)
    · have hpart : mid.tracingPart = state.tracingPart :=
        (tracingPart_parseHeader hindex hparse).trans (tracingPart_setHeader hindex _)
      have hmid : mid.TracingUnparsed := hunparsed.of_part
        (congrArg (fun part ↦ part.2.1) hpart) (congrArg (fun part ↦ part.2.2) hpart)
      refine (ih hnodup hmid).imp fun before data after hparses ↦ ?_
      obtain ⟨earlier, later, rfl, hearlier, hlater⟩ := hparses
      exact ⟨index :: earlier, later, rfl, .cons hparse hearlier, hlater⟩

theorem new_tracingUnparsed : ReaderState.new.TracingUnparsed :=
  ⟨rfl, ⟨rfl, rfl, rfl, rfl, rfl⟩, rfl⟩

/-- Opening a file comes to the tracing data among its headers. -/
inductive OpeningParses (build : Build) : Except IoError (List UInt8) → ReaderState → ReaderState →
    List UInt8 → ReaderState → Prop
  | loaded {content : List UInt8} {order : ByteOrder} {headerSize : ℕ}
      {mid last before after : ReaderState} {indexes : List (Fin 32)} {data : List UInt8}
      (hkind : Loading.fileKind build content = some (order, headerSize))
      (hattrs : AddsAttrs build { ReaderState.new with sessionInfo := .new order } mid)
      (hindexes : indexes.Sublist (List.finRange 32))
      (hparses : LoadParses build (fileHeader build order content) indexes mid last before data after)
      (dataBegin dataEnd : ℕ) :
      OpeningParses build (.ok content)
        { last with dataBeginFilePos := dataBegin, dataEndFilePos := dataEnd } before data after

/-- Opening a file leaves the invariant. -/
theorem Opened.tracingInv {content : Except IoError (List UInt8)} (h : Opened build content state) :
    TracingInv build (OpeningParses build content state) state := by
  cases h with
  | new => exact .unparsed new_tracingUnparsed
  | @loaded content order headerSize mid last indexes hkind hattrs hheaders hindexes dataBegin
      dataEnd =>
    have hmid : mid.TracingUnparsed := by
      have hpart := hattrs.tracingPart_eq
      exact new_tracingUnparsed.of_part (congrArg (fun part ↦ part.2.1) hpart)
        (congrArg (fun part ↦ part.2.2) hpart)
    have hlast : TracingInv build (OpeningParses build (.ok content)
        { last with dataBeginFilePos := dataBegin, dataEndFilePos := dataEnd }) last :=
      (hheaders.tracingInv (hindexes.nodup (List.nodup_finRange 32)) hmid).imp
        fun _ _ _ hparses ↦ .loaded hkind hattrs hindexes hparses dataBegin dataEnd
    exact hlast.of_part_eq rfl

end ReaderState

namespace DataFileReader

open ReaderState

variable {build : Build}

/-! ### Reading -/

/-- The header index that the data of a `HeaderFeature` event names. -/
def featureIndex (byteReader : ByteOrder) (data : List UInt8) : Option ℕ :=
  if data.length < 8 then none else some (byteReader.ofBytes (data.take 8))

/-- The record at the cursor does not replace tracing data that was parsed: it is not a
`HeaderFeature` event for the tracing data. -/
def KeepsTracingData (build : Build) (reader : DataFileReader) : Prop :=
  reader.parsedTracingData = true → ∀ header,
    nextRecord build reader.toReaderState reader.file = some header →
    header.ty = PerfEventHeaderType.headerFeature →
    featureIndex reader.sessionInfo.byteReader (recordData reader.file header.size) ≠
      some PerfHeaderIndex.tracingData.val

instance (reader : DataFileReader) : Decidable (KeepsTracingData build reader) :=
  inferInstanceAs (Decidable (reader.parsedTracingData = true → ∀ header ∈
    nextRecord build reader.toReaderState reader.file,
    header.ty = PerfEventHeaderType.headerFeature →
    featureIndex reader.sessionInfo.byteReader (recordData reader.file header.size) ≠
      some PerfHeaderIndex.tracingData.val))

variable {state next : ReaderState} {Parses : ReaderState → List UInt8 → ReaderState → Prop}

theorem tracingPart_headerAttr {data : List UInt8} (h : headerAttr build state data = .ok next) :
    next.tracingPart = state.tracingPart := by
  unfold headerAttr at h
  split_ifs at h
  · rw [Except.ok.inj h]
  · obtain ⟨attrSize, _, h⟩ := bind_eq_ok.1 h
    split_ifs at h
    · obtain ⟨attrBytes, _, h⟩ := bind_eq_ok.1 h
      obtain ⟨idsBytes, _, h⟩ := bind_eq_ok.1 h
      obtain ⟨attrs, _, h⟩ := bind_eq_ok.1 h
      obtain rfl := Except.ok.inj h
      rfl
    · rw [Except.ok.inj h]

theorem headerFeature_tracingInv {data : List UInt8}
    (h : headerFeature build state data = .ok next)
    (hkeeps : state.parsedTracingData = true →
      featureIndex state.sessionInfo.byteReader data ≠ some PerfHeaderIndex.tracingData.val)
    (hinv : TracingInv build Parses state) : TracingInv build Parses next := by
  unfold headerFeature at h
  split_ifs at h with hshort
  · rw [← Except.ok.inj h]
    exact hinv
  rw [readUInt_of_le (by omega), ok_bind, List.drop_zero] at h
  have hfeature : featureIndex state.sessionInfo.byteReader data =
      some (state.sessionInfo.byteReader.ofBytes (data.take 8)) := if_neg hshort
  generalize state.sessionInfo.byteReader.ofBytes (data.take 8) = index at h hfeature
  split_ifs at h with hindex hclock hclockData
  · rw [← Except.ok.inj h]
    refine hinv.of_part_eq (tracingPart_parseHeaderClockid.trans (tracingPart_setHeader ?_ _))
    intro heq
    exact absurd (hclock.symm.trans (congrArg Fin.val heq)) (by decide)
  · rw [← Except.ok.inj h]
    refine hinv.of_part_eq (tracingPart_parseHeaderClockData.trans (tracingPart_setHeader ?_ _))
    intro heq
    exact absurd (hclockData.symm.trans (congrArg Fin.val heq)) (by decide)
  · rw [← Except.ok.inj h]
    by_cases htracing : (⟨index, hindex⟩ : Fin 32) = PerfHeaderIndex.tracingData
    · cases hinv with
      | unparsed hunparsed => exact .unparsed (hunparsed.setHeader _ _)
      | parsed _ _ _ hranges hsame =>
        rw [hfeature, ← htracing] at hkeeps
        exact absurd rfl (hkeeps (flag_of_part hsame hranges))
    · exact hinv.of_part_eq (tracingPart_setHeader htracing _)
  · rw [← Except.ok.inj h]
    exact hinv

/-- An event that keeps the tracing data keeps the invariant. -/
theorem plainEvent_tracingInv {ty : ℕ} {data : List UInt8}
    (h : plainEvent build state ty data = .ok next)
    (hkeeps : state.parsedTracingData = true → ty = PerfEventHeaderType.headerFeature →
      featureIndex state.sessionInfo.byteReader data ≠ some PerfHeaderIndex.tracingData.val)
    (hinv : TracingInv build Parses state) : TracingInv build Parses next := by
  unfold plainEvent at h
  split_ifs at h with hattr hbuildId hfeature hinit
  · exact hinv.of_part_eq (tracingPart_headerAttr h)
  · rw [← Except.ok.inj h]
    exact hinv.of_part_eq (tracingPart_setHeader (by decide) _)
  · exact headerFeature_tracingInv h (fun hflag ↦ hkeeps hflag hfeature) hinv
  · exact hinv.of_part_eq (tracingPart_parseHeaderEventDesc h)
  · rw [← Except.ok.inj h]
    exact hinv

/-- Tracing data behind an event is parsed once. -/
theorem tracingDataEvent_tracingInv {data : List UInt8}
    (h : tracingDataEvent build state data = .ok next) (hparses : Parses state data next)
    (hinv : TracingInv build Parses state) : TracingInv build Parses next := by
  unfold tracingDataEvent at h
  split_ifs at h with hflag
  · rw [← Except.ok.inj h]
    exact hinv
  · cases hinv with
    | unparsed hunparsed => exact hunparsed.parse hparses h
    | parsed _ _ _ hranges hsame => exact absurd (flag_of_part hsame hranges) hflag

/-- One read keeps the invariant. -/
theorem StateEffect.tracingInv {reader : DataFileReader}
    (h : StateEffect build reader.toReaderState reader.file next)
    (hkeeps : KeepsTracingData build reader)
    (hparses : ∀ header, nextRecord build reader.toReaderState reader.file = some header →
      header.ty = PerfEventHeaderType.headerTracingData → Parses reader.toReaderState
        (tracingDataBehind reader.toReaderState reader.file header) next)
    (hinv : TracingInv build Parses reader.toReaderState) : TracingInv build Parses next := by
  cases h with
  | same => exact hinv
  | event hrecord hevent =>
    exact plainEvent_tracingInv hevent (fun hflag hty ↦ hkeeps hflag _ hrecord hty) hinv
  | tracingData hrecord hty hevent =>
    exact tracingDataEvent_tracingInv hevent (hparses _ hrecord hty) hinv

end DataFileReader

namespace ReaderHandle

open DataFileReader ReaderState

variable {build : Build}

/-- Where a run from `opened` to `reached` parses tracing data: while it opens the file, or in a call of
`move_next_event` that reads a tracing data event and the data behind it. -/
inductive ParsesTracingData (build : Build) (content : Except IoError (List UInt8))
    (opened reached : ReaderHandle) : ReaderState → List UInt8 → ReaderState → Prop
  | opening {before after : ReaderState} {data : List UInt8}
      (hopening : OpeningParses build content opened.reader.toReaderState before data after) :
      ParsesTracingData build content opened reached before data after
  | reading {handle next : ReaderHandle} {reader : DataFileReader} {header : PerfEventHeader}
      {after : ReaderState} {result : Except IoError Bool}
      (hbefore : HandleReaches build (fun _ ↦ True) opened handle) (hopen : handle.isOpen = true)
      (hreads : ReadsAt build handle.reader reader)
      (hrecord : nextRecord build reader.toReaderState reader.file = some header)
      (hty : header.ty = PerfEventHeaderType.headerTracingData)
      (hleaves : ReadLeaves build reader after)
      (hmoved : handle.moveNextEvent build = .ok (result, next))
      (hafter : HandleReaches build (fun _ ↦ True) next reached) :
      ParsesTracingData build content opened reached reader.toReaderState
        (tracingDataBehind reader.toReaderState reader.file header) after

variable {opened handle next reached : ReaderHandle} {content : Except IoError (List UInt8)}

/-- What a run parsed it has still parsed behind another call. -/
theorem ParsesTracingData.moved {before after : ReaderState} {data : List UInt8}
    {result : Except IoError Bool}
    (h : ParsesTracingData build content opened handle before data after)
    (hmoved : handle.moveNextEvent build = .ok (result, next)) :
    ParsesTracingData build content opened next before data after := by
  cases h with
  | opening hopening => exact .opening hopening
  | reading hbefore hopen hreads hrecord hty hleaves hmoved' hafter =>
    exact .reading hbefore hopen hreads hrecord hty hleaves hmoved'
      (.moved hafter (fun _ _ _ ↦ trivial) hmoved)

/-- The invariant along a run. -/
theorem tracingInv_of_reaches
    (hopened : TracingInv build (OpeningParses build content opened.reader.toReaderState)
      opened.reader.toReaderState)
    (hreaches : HandleReaches build (KeepsTracingData build) opened reached) :
    TracingInv build (ParsesTracingData build content opened reached)
      reached.reader.toReaderState := by
  induction hreaches with
  | refl => exact hopened.imp fun _ _ _ ↦ .opening
  | moved hreaches hreads hmoved ih =>
    refine moveNextEvent_state hmoved (fun hopen reader state hreader hleaves hstate ↦ ?_)
      (ih.imp fun _ _ _ hparses ↦ hparses.moved hmoved)
    refine hleaves.effect.tracingInv (hreads hopen reader hreader) (fun header hrecord hty ↦ ?_) hstate
    exact .reading (hreaches.imp fun _ _ ↦ trivial) hopen hreader hrecord hty hleaves hmoved .refl

/-- A reader that opens a file, whether that succeeds or not, and moves to events: as long as no
`HeaderFeature` event for the tracing data is read once tracing data was parsed, the ranges lie
inside the header and the accessors return what the run parsed. -/
theorem tracingData_sound {eventOrder : PerfDataFileEventOrder} {outcome : Except IoError Unit}
    (hopen : handle.openFile build content eventOrder = .ok (outcome, opened))
    (hreaches : HandleReaches build (KeepsTracingData build) opened reached) :
    TracingDataSound build (ParsesTracingData build content opened reached)
      reached.reader.toReaderState :=
  (tracingInv_of_reaches (openFile_opened hopen).tracingInv hreaches).sound

/-! ### A header that comes again -/

/-- A stream in pipe mode: tracing data with a header page of eight bytes, and a `HeaderFeature`
event without data for a header. -/
def featureStream (index : UInt8) : List UInt8 :=
  PerfFileHeaderPipe.toBytes .little ⟨perfile2MagicHostEndian, PerfFileHeaderPipe.byteSize⟩ ++
    (PerfEventHeader.toBytes .little ⟨PerfEventHeaderType.headerTracingData, 0, 12⟩ ++
      [48, 0, 0, 0] ++ tracingSignature ++ ascii "0.6" ++ [0, 0, 8, 0, 16, 0, 0] ++
      ascii "header_page" ++ [0, 8, 0, 0, 0, 0, 0, 0, 0] ++ ascii "contents") ++
    (PerfEventHeader.toBytes .little ⟨PerfEventHeaderType.headerFeature, 0, 16⟩ ++
      [index, 0, 0, 0, 0, 0, 0, 0])

/-- The handle that opened a stream, behind a number of calls of `move_next_event`. -/
def streamHandle (index : UInt8) : ℕ → ReaderHandle
  | 0 =>
    match ReaderHandle.new.openFile releaseBuild (.ok (featureStream index)) .file with
    | .ok (_, opened) => opened
    | .error _ => .new
  | count + 1 =>
    match (streamHandle index count).moveNextEvent releaseBuild with
    | .ok (_, next) => next
    | .error _ => .new

/-- With a header of another index the tracing data stays. -/
theorem featureStream_sound : ∃ opened reached : ReaderHandle,
    ReaderHandle.new.openFile releaseBuild (.ok (featureStream 3)) .file = .ok (.ok (), opened) ∧
      HandleReaches releaseBuild (KeepsTracingData releaseBuild) opened reached ∧
      reached.reader.parsedTracingData = true ∧ reached.reader.headers[3] = [] ∧
      reached.reader.tracingDataHeaderPage = .ok (ascii "contents") ∧
      TracingDataSound releaseBuild
        (ParsesTracingData releaseBuild (.ok (featureStream 3)) opened reached)
        reached.reader.toReaderState := by
  have hopen : ReaderHandle.new.openFile releaseBuild (.ok (featureStream 3)) .file =
      .ok (.ok (), streamHandle 3 0) := by decide +kernel
  have hfirst : HandleReaches releaseBuild (KeepsTracingData releaseBuild) (streamHandle 3 0)
      (streamHandle 3 1) := by
    apply HandleReaches.next .refl
    · decide +kernel
    · decide +kernel
    · show (streamHandle 3 0).moveNextEvent releaseBuild = .ok (.ok true, streamHandle 3 1)
      decide +kernel
  have hsecond : HandleReaches releaseBuild (KeepsTracingData releaseBuild) (streamHandle 3 0)
      (streamHandle 3 2) := by
    apply HandleReaches.next hfirst
    · decide +kernel
    · decide +kernel
    · show (streamHandle 3 1).moveNextEvent releaseBuild = .ok (.ok true, streamHandle 3 2)
      decide +kernel
  exact ⟨_, _, hopen, hsecond, by decide +kernel, by decide +kernel, by decide +kernel,
    tracingData_sound hopen hsecond⟩

/-- With a `HeaderFeature` event for the tracing data the header page lies outside the header, and
its accessor panics. -/
theorem featureStream_replaced : ∃ opened reached : ReaderHandle,
    ReaderHandle.new.openFile releaseBuild (.ok (featureStream 1)) .file = .ok (.ok (), opened) ∧
      HandleReaches releaseBuild (fun _ ↦ True) opened reached ∧
      reached.reader.tracingDataHeaderPage = .error .indexOutOfRange ∧
      ¬TracingDataSound releaseBuild
        (ParsesTracingData releaseBuild (.ok (featureStream 1)) opened reached)
        reached.reader.toReaderState := by
  have hopen : ReaderHandle.new.openFile releaseBuild (.ok (featureStream 1)) .file =
      .ok (.ok (), streamHandle 1 0) := by decide +kernel
  have hfirst : HandleReaches releaseBuild (fun _ ↦ True) (streamHandle 1 0)
      (streamHandle 1 1) := by
    apply HandleReaches.next .refl (by decide +kernel) trivial
    show (streamHandle 1 0).moveNextEvent releaseBuild = .ok (.ok true, streamHandle 1 1)
    decide +kernel
  have hsecond : HandleReaches releaseBuild (fun _ ↦ True) (streamHandle 1 0)
      (streamHandle 1 2) := by
    apply HandleReaches.next hfirst (by decide +kernel) trivial
    show (streamHandle 1 1).moveNextEvent releaseBuild = .ok (.ok true, streamHandle 1 2)
    decide +kernel
  have hpanics : (streamHandle 1 2).reader.tracingDataHeaderPage = .error .indexOutOfRange := by
    decide +kernel
  refine ⟨_, _, hopen, hsecond, hpanics, fun hsound ↦ ?_⟩
  obtain ⟨bytes, hbytes⟩ := hsound.accessors.headerPage
  cases hpanics.symm.trans hbytes

end ReaderHandle

end Tracepoints
