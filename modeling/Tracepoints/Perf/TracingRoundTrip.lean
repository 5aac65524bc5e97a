import Tracepoints.Perf.LoadedFile
import Tracepoints.Perf.TracingTotal
import Tracepoints.Perf.WrittenHeaders

/-!
# The round trip of tracing data

`synthesize_tracing_data` builds a block that `parse_tracing_data` takes apart again. Each part that is
placed in the block is read back (`sectionRange_placed`, `ftracesLoop_placed`, `eventsLoop_placed`,
`systemsLoop_placed`), and the formats, which are printed by system, come back as the formats that were
written, made anew for the size of `long` in the block (`tracingReadBack_of_run`).

A format whose name or print format ends inside a quoted string is printed as a text that is parsed
otherwise (`unclosed_not_readBack`).
-/

set_option autoImplicit false
set_option relaxedAutoImplicit false

namespace Tracepoints

open Exec

/-! ### The parts of the block -/

namespace DataFileWriter

variable {build : Build} {writer : DataFileWriter}

/-- A value with its size in front. -/
def section64 (build : Build) (value : List UInt8) : List UInt8 :=
  build.targetEndian.toBytes 8 value.length ++ value

/-- What is written for a system. -/
def systemBytes (build : Build) (system : List UInt8 × List PerfEventFormat) : List UInt8 :=
  asLatin1 system.1 ++ [0] ++ build.targetEndian.toBytes 4 system.2.length ++
    system.2.flatMap fun format ↦ section64 build (asLatin1 format.writeTo)

/-- The value that is written for a header of the ring buffer. -/
def orDefault (defaultValue value : List UInt8) : List UInt8 :=
  if value = [] then defaultValue else value

theorem length_section64 (value : List UInt8) :
    (section64 build value).length = 8 + value.length := by
  rw [section64, List.length_append, build.targetEndian.length_toBytes]

theorem appendSection64_eq (buf value : List UInt8) :
    appendSection64 build buf value = buf ++ section64 build value := by
  unfold appendSection64 section64
  rw [List.append_assoc]

theorem foldl_appendSection64 {α : Type} (value : α → List UInt8) (items : List α)
    (buf : List UInt8) :
    items.foldl (fun buf item ↦ appendSection64 build buf (value item)) buf =
      buf ++ items.flatMap fun item ↦ section64 build (value item) := by
  simp only [appendSection64_eq]
  exact List.foldl_append_eq_append

theorem appendSystem_eq (buf : List UInt8) (system : List UInt8 × List PerfEventFormat) :
    appendSystem build buf system = buf ++ systemBytes build system := by
  unfold appendSystem appendStringZ systemBytes
  rw [foldl_appendSection64]
  simp only [List.append_assoc]

/-- The block, part by part. -/
theorem tracingDataHeader_eq (build : Build) (writer : DataFileWriter) :
    tracingDataHeader build writer =
      ReaderState.tracingSignature ++ (ascii "0.6" ++ [0] ++
      ([if build.targetEndian = .big then 1 else 0] ++ ([writer.tracingDataLongSize] ++
      (build.targetEndian.toBytes 4 writer.tracingDataPageSize.toNat ++
      (ascii "header_page" ++ [0] ++
        section64 build (orDefault defaultHeaderPage writer.tracingDataHeaderPage) ++
      (ascii "header_event" ++ [0] ++
        section64 build (orDefault defaultHeaderEvent writer.tracingDataHeaderEvent) ++
      (build.targetEndian.toBytes 4 writer.tracingDataFtraces.length ++
      (writer.tracingDataFtraces.flatMap (section64 build) ++
      (build.targetEndian.toBytes 4 writer.formatsBySystem.entries.length ++
      (writer.formatsBySystem.entries.flatMap (systemBytes build) ++
      (build.targetEndian.toBytes 4 writer.tracingDataKallsyms.length ++ writer.tracingDataKallsyms ++
      (build.targetEndian.toBytes 4 writer.tracingDataPrintk.length ++ writer.tracingDataPrintk ++
      section64 build writer.tracingDataCmdLine)))))))))))) := by
  have hftraces (buf : List UInt8) : writer.tracingDataFtraces.foldl (appendSection64 build) buf =
      buf ++ writer.tracingDataFtraces.flatMap (section64 build) :=
    foldl_appendSection64 id writer.tracingDataFtraces buf
  have hsystems (buf : List UInt8) :
      writer.formatsBySystem.entries.foldl (appendSystem build) buf =
        buf ++ writer.formatsBySystem.entries.flatMap (systemBytes build) := by
    have hstep : appendSystem build = fun buf system ↦ buf ++ systemBytes build system :=
      funext fun buf ↦ funext fun system ↦ appendSystem_eq buf system
    rw [hstep]
    exact List.foldl_append_eq_append
  have hstart : [0x17, 0x08, 0x44] ++ ascii "tracing0.6" =
      ReaderState.tracingSignature ++ ascii "0.6" := by decide
  unfold tracingDataHeader tracingDataFront
  dsimp only
  rw [hsystems, hftraces]
  unfold appendNamedSection64 tracingDataStart appendStringZ orDefault
  rw [hstart, appendSection64_eq, appendSection64_eq]
  unfold section64
  simp only [List.append_assoc, List.nil_append]

end DataFileWriter

/-! ### Reading what is placed -/

namespace ReaderState

open DataFileWriter

variable {build : Build} {state next : ReaderState} {order : ByteOrder} {data : List UInt8} {pos : ℕ}

/-- A section that is placed is found. -/
theorem sectionRange_placed {width : ℕ} {value : List UInt8}
    (h : PlacedAt data pos (order.toBytes width value.length ++ value)) (hpos : pos ≤ data.length)
    (hvalue : value.length < 256 ^ width) :
    sectionRange width order data pos = ⟨pos + width, pos + width + value.length⟩ ∧
      slice data (pos + width) (pos + width + value.length) = .ok value := by
  obtain ⟨hsize, hbytes⟩ := placedAt_append.mp h
  have hsizeLe := hsize.length_le hpos
  have hread := hsize.take_drop
  rw [order.length_toBytes] at hbytes hsizeLe hread
  refine ⟨?_, hbytes.slice_eq hsizeLe⟩
  have hle := hbytes.length_le hsizeLe
  unfold sectionRange
  dsimp only
  rw [hread, ByteOrder.ofBytes_toBytes hvalue, if_neg (by omega)]

/-- A section that is placed is read, and the bytes of its range are its value. -/
theorem expectSized_placed {width : ℕ} {value : List UInt8}
    (h : PlacedAt data pos (order.toBytes width value.length ++ value)) (hpos : pos ≤ data.length)
    (hvalue : value.length < 256 ^ width) (hwidth : 0 < width) :
    expectSized build width order data pos state =
      .ok (.ok ⟨pos + width, pos + width + value.length⟩, state) := by
  obtain ⟨hrange, -⟩ := sectionRange_placed h hpos hvalue
  rw [expectSized_eq build width hpos, hrange, if_neg (by dsimp only; omega)]

/-- A section with a name is read. -/
theorem namedRange_placed {name value : List UInt8}
    (h : PlacedAt data pos (name ++ (order.toBytes 8 value.length ++ value)))
    (hpos : pos ≤ data.length) (hvalue : value.length < 256 ^ 8) :
    namedRange order data pos name =
      ⟨pos + name.length + 8, pos + name.length + 8 + value.length⟩ := by
  obtain ⟨hname, hsection⟩ := placedAt_append.mp h
  have hle := hname.length_le hpos
  unfold namedRange
  rw [if_neg (by rw [not_or, not_not, hname.take_drop]; exact ⟨not_lt.mpr hle, rfl⟩)]
  exact (sectionRange_placed hsection hle hvalue).1

theorem readSz_placed {text : List UInt8} (h : PlacedAt data pos (text ++ [0])) (htext : 0 ∉ text) :
    readSz data pos = some text := by
  obtain ⟨behind, hbehind⟩ := h
  have hmem : 0 ∈ data.drop pos := by
    rw [← hbehind]
    simp
  have htake : text.takeWhile (· ≠ 0) = text :=
    List.takeWhile_eq_self_iff.mpr fun c hc ↦ decide_eq_true fun hzero ↦ htext (hzero ▸ hc)
  unfold readSz
  rw [if_pos hmem, ← hbehind, List.append_assoc, List.takeWhile_append, htake, if_pos rfl,
    List.singleton_append, List.takeWhile_cons_of_neg (by simp), List.append_nil]

theorem expectU32_placed {value : ℕ} (h : PlacedAt data pos (order.toBytes 4 value))
    (hpos : pos ≤ data.length) (hvalue : value < 256 ^ 4) :
    expectU32 order data pos state = .ok (.ok value, state) := by
  have hle := h.length_le hpos
  have hread := h.take_drop
  rw [order.length_toBytes] at hle hread
  rw [expectU32_eq hpos, if_neg (not_lt.mpr hle), hread, ByteOrder.ofBytes_toBytes hvalue]

/-- The first of two parts that are placed, and where the second one is. -/
theorem placed_step {first second : List UInt8} (h : PlacedAt data pos (first ++ second))
    (hpos : pos ≤ data.length) : PlacedAt data pos first ∧ pos + first.length ≤ data.length ∧
      PlacedAt data (pos + first.length) second := by
  obtain ⟨hfirst, hsecond⟩ := placedAt_append.mp h
  exact ⟨hfirst, hfirst.length_le hpos, hsecond⟩

/-- A section is read, and what stands behind it. -/
theorem section_placed {width : ℕ} {value rest : List UInt8}
    (h : PlacedAt data pos (order.toBytes width value.length ++ value ++ rest))
    (hpos : pos ≤ data.length) (hsmall : data.length < 256 ^ width) (hwidth : 0 < width) :
    (∀ state, expectSized build width order data pos state =
        .ok (.ok ⟨pos + width, pos + width + value.length⟩, state)) ∧
      slice data (pos + width) (pos + width + value.length) = .ok value ∧
        pos + width + value.length ≤ data.length ∧
          PlacedAt data (pos + width + value.length) rest := by
  obtain ⟨hsection, hle, hrest⟩ := placed_step h hpos
  rw [List.length_append, order.length_toBytes, ← Nat.add_assoc] at hle hrest
  have hvalue : value.length < 256 ^ width := by omega
  exact ⟨fun state ↦ expectSized_placed hsection hpos hvalue hwidth,
    (sectionRange_placed hsection hpos hvalue).2, hle, hrest⟩

/-! ### The loops -/

/-- The ftraces are found one behind the other. -/
theorem ftracesLoop_placed {ftraces : List (List UInt8)}
    (h : PlacedAt data pos (ftraces.flatMap (section64 build))) (hpos : pos ≤ data.length)
    (hsmall : data.length < 256 ^ 8) :
    ∃ ranges, ftracesLoop build build.targetEndian data ftraces.length pos state =
        .ok (.ok (pos + (ftraces.flatMap (section64 build)).length),
          { state with ftraces := state.ftraces ++ ranges }) ∧
      List.Forall₂ (fun range ftrace ↦ slice data range.start range.stop = .ok ftrace)
        ranges ftraces := by
  induction ftraces generalizing pos state with
  | nil =>
    refine ⟨[], ?_, .nil⟩
    rw [List.append_nil]
    rfl
  | cons ftrace ftraces ih =>
    rw [List.flatMap_cons] at h
    obtain ⟨hread, hslice, hle, hrest⟩ := section_placed h hpos hsmall (by decide)
    obtain ⟨ranges, hloop, hslices⟩ := @ih
      { state with ftraces := state.ftraces ++ [⟨pos + 8, pos + 8 + ftrace.length⟩] }
      (pos + 8 + ftrace.length) hrest hle
    refine ⟨⟨pos + 8, pos + 8 + ftrace.length⟩ :: ranges, ?_, .cons hslice hslices⟩
    rw [List.length_cons, ftracesLoop,
      Act.bind_of_ok (hread _), Act.update_bind, hloop, List.flatMap_cons, List.length_append,
      length_section64]
    dsimp only
    rw [List.append_assoc, List.singleton_append]
    simp only [Nat.add_assoc]

/-- The text that is written for a format is parsed as another format. -/
def PrintsAs (build : Build) (longIs64Bits : Bool) (system : List UInt8)
    (format parsed : PerfEventFormat) : Prop :=
  PerfEventFormat.parse build longIs64Bits system (fromLatin1 (asLatin1 format.writeTo)) =
    .ok (some parsed)

/-- The formats of a system are added one behind the other. -/
theorem eventsLoop_placed {longIs64Bits : Bool} {system : List UInt8}
    {formats parsed : List PerfEventFormat}
    (h : PlacedAt data pos (formats.flatMap fun format ↦
      section64 build (asLatin1 format.writeTo))) (hpos : pos ≤ data.length)
    (hsmall : data.length < 256 ^ 8)
    (hparsed : List.Forall₂ (PrintsAs build longIs64Bits system) formats parsed)
    (hlong : decide (state.tracingDataLongSize ≠ 4) = longIs64Bits)
    (hadds : addFormats parsed state = .ok next) :
    eventsLoop build build.targetEndian data system formats.length pos state =
      .ok (.ok (pos + (formats.flatMap fun format ↦
        section64 build (asLatin1 format.writeTo)).length), next) := by
  induction hparsed generalizing pos state with
  | nil =>
    obtain rfl := Except.ok.inj hadds
    rfl
  | @cons format made formats parsed hformat _ ih =>
    rw [List.flatMap_cons] at h
    obtain ⟨hread, hslice, hle, hrest⟩ := section_placed h hpos hsmall (by decide)
    obtain ⟨mid, hmid, hadds⟩ := bind_eq_ok.mp hadds
    have hloop := ih hrest hle (by rw [addFormat_longSize hmid]; exact hlong) hadds
    rw [List.length_cons, eventsLoop, Act.bind_of_ok (hread _),
      Act.bind_of_ok (Act.compute_ok hslice), Act.read_bind, hlong,
      Act.bind_of_ok (Act.compute_ok hformat)]
    dsimp only
    rw [Act.bind_of_ok (Act.updateM_ok hmid), hloop, List.flatMap_cons, List.length_append,
      length_section64]
    simp only [Nat.add_assoc]

/-- What is written for a system is read as formats. -/
structure SystemReads (build : Build) (longIs64Bits : Bool)
    (system : List UInt8 × List PerfEventFormat) (parsed : List PerfEventFormat) : Prop where
  nul : 0 ∉ asLatin1 system.1
  count : system.2.length < 256 ^ 4
  formats : List.Forall₂ (PrintsAs build longIs64Bits (fromLatin1 (asLatin1 system.1))) system.2 parsed

/-- The formats of all systems are added one behind the other. -/
theorem systemsLoop_placed {longIs64Bits : Bool} {systems : List (List UInt8 × List PerfEventFormat)}
    {parsed : List (List PerfEventFormat)}
    (h : PlacedAt data pos (systems.flatMap (systemBytes build))) (hpos : pos ≤ data.length)
    (hsmall : data.length < 256 ^ 8)
    (hparsed : List.Forall₂ (SystemReads build longIs64Bits) systems parsed)
    (hlong : decide (state.tracingDataLongSize ≠ 4) = longIs64Bits)
    (hadds : addFormats parsed.flatten state = .ok next) :
    systemsLoop build build.targetEndian data systems.length pos state =
      .ok (.ok (pos + (systems.flatMap (systemBytes build)).length), next) := by
  induction hparsed generalizing pos state with
  | nil =>
    obtain rfl := Except.ok.inj hadds
    rfl
  | @cons system made systems parsed hsystem _ ih =>
    rw [List.flatMap_cons] at h
    obtain ⟨hfirst, hrest⟩ := placedAt_append.mp h
    have hle := hfirst.length_le hpos
    unfold systemBytes at hfirst
    obtain ⟨hfront, hevents⟩ := placedAt_append.mp hfirst
    obtain ⟨hname, hcount⟩ := placedAt_append.mp hfront
    have hnameLe := hname.length_le hpos
    have hcountLe := hcount.length_le hnameLe
    have hlength : (systemBytes build system).length = (asLatin1 system.1 ++ [0] ++
        build.targetEndian.toBytes 4 system.2.length).length +
          (system.2.flatMap fun format ↦ section64 build (asLatin1 format.writeTo)).length := by
      unfold systemBytes
      rw [List.length_append]
    rw [List.length_append, build.targetEndian.length_toBytes] at hlength hevents
    rw [build.targetEndian.length_toBytes] at hcountLe
    rw [List.length_append, List.length_singleton] at hlength hevents hcount hnameLe hcountLe
    rw [List.flatten_cons, addFormats_append] at hadds
    obtain ⟨mid, hmid, hadds⟩ := bind_eq_ok.mp hadds
    rw [hlength] at hrest hle
    rw [← Nat.add_assoc, ← Nat.add_assoc, ← Nat.add_assoc] at hrest hle
    rw [← Nat.add_assoc] at hcount hnameLe hcountLe
    rw [← Nat.add_assoc, ← Nat.add_assoc] at hevents
    have hloop := ih hrest hle (by rw [addFormats_longSize hmid]; exact hlong) hadds
    have hsz : expectSz data pos state = .ok (.ok (asLatin1 system.1), state) := by
      unfold expectSz
      rw [readSz_placed hname hsystem.nul]
      rfl
    rw [List.length_cons, systemsLoop, Act.bind_of_ok hsz,
      Act.bind_of_ok (expectU32_placed hcount hnameLe hsystem.count),
      Act.bind_of_ok (eventsLoop_placed hevents hcountLe hsmall hsystem.formats hlong hmid), hloop,
      List.flatMap_cons, List.length_append, hlength]
    simp only [Nat.add_assoc]

/-! ### The formats -/

/-- Formats change the attributes and the place of `common_type`, and nothing else. -/
theorem addFormats_part {formats : List PerfEventFormat} (h : addFormats formats state = .ok next) :
    next = { state with
      attrs := next.attrs
      commonTypeSize := next.commonTypeSize
      commonTypeOffset := next.commonTypeOffset } := by
  induction formats generalizing state with
  | nil =>
    obtain rfl := Except.ok.inj h
    rfl
  | cons format formats ih =>
    obtain ⟨mid, hmid, hrest⟩ := bind_eq_ok.1 h
    refine (ih hrest).trans ?_
    unfold addFormat at hmid
    obtain ⟨common, -, hmid⟩ := bind_eq_ok.1 hmid
    cases common with
    | none =>
      obtain rfl := Except.ok.inj hmid
      rfl
    | some place =>
      dsimp only at hmid
      split_ifs at hmid
      · obtain rfl := Except.ok.inj hmid
        rfl
      · obtain rfl := Except.ok.inj hmid
        rfl
      · obtain rfl := Except.ok.inj hmid
        rfl

/-- The formats have a usable `common_type`, all at the same place. -/
def ShareCommonType (place : ℤ × ℕ) (formats : List PerfEventFormat) : Prop :=
  ∀ format ∈ formats, commonType format.commonFieldCount format.fields = .ok (some place)

/-- Formats that share a `common_type` are added. -/
theorem addFormats_shared {place : ℤ × ℕ} {formats : List PerfEventFormat}
    (h : ShareCommonType place formats) : ∃ next, addFormats formats state = .ok next := by
  induction formats generalizing state with
  | nil => exact ⟨state, rfl⟩
  | cons format formats ih =>
    unfold ShareCommonType at h
    rw [List.forall_mem_cons] at h
    obtain ⟨mid, hmid⟩ : ∃ mid, addFormat state format = .ok mid := by
      unfold addFormat
      rw [h.1, ok_bind]
      dsimp only
      split_ifs
      · exact ⟨_, rfl⟩
      · exact ⟨_, rfl⟩
      · exact ⟨_, rfl⟩
    rw [addFormats, hmid, ok_bind]
    exact ih h.2

theorem usableFormats_shared {place : ℤ × ℕ} {formats : List PerfEventFormat}
    (h : ShareCommonType place formats) : usableFormats formats = formats := by
  have hplace : ∀ format ∈ formats, commonTypeOf format = some place :=
    fun format hformat ↦ commonTypeOf_eq (h format hformat)
  unfold usableFormats
  cases formats with
  | nil => rfl
  | cons first formats =>
    rw [List.findSome?_cons, hplace first List.mem_cons_self]
    exact List.filter_eq_self.mpr fun format hformat ↦ decide_eq_true (hplace format hformat)

/-! ### The whole block -/

/-- What the parser makes of the block of a writer, whose formats are read as others. -/
structure BlockParsed (data : List UInt8) (writer : DataFileWriter)
    (formats : List PerfEventFormat) (state next : ReaderState) : Prop where
  longSize : next.tracingDataLongSize = writer.tracingDataLongSize.toNat
  pageSize : next.tracingDataPageSize = writer.tracingDataPageSize.toNat
  headerPage : slice data next.headerPage.start next.headerPage.stop =
    .ok (orDefault defaultHeaderPage writer.tracingDataHeaderPage)
  headerEvent : slice data next.headerEvent.start next.headerEvent.stop =
    .ok (orDefault defaultHeaderEvent writer.tracingDataHeaderEvent)
  ftraces : ∃ ranges, next.ftraces = state.ftraces ++ ranges ∧
    List.Forall₂ (fun range ftrace ↦ slice data range.start range.stop = .ok ftrace)
      ranges writer.tracingDataFtraces
  kallsyms : slice data next.kallsyms.start next.kallsyms.stop = .ok writer.tracingDataKallsyms
  printk : slice data next.printk.start next.printk.stop = .ok writer.tracingDataPrintk
  cmdLine : slice data next.cmdLine.start next.cmdLine.stop = .ok writer.tracingDataCmdLine
  headers : next.headers = state.headers
  attrs : next.attrs = updateFormats { state.attrs with formatById := ReaderAttrs.formatMap formats }

/-- A section with a name is found, and what stands behind it. -/
theorem namedSection_step {name value rest : List UInt8}
    (h : PlacedAt data pos (name ++ section64 build value ++ rest)) (hpos : pos ≤ data.length)
    (hsmall : data.length < 256 ^ 8) :
    ∃ range, namedRange build.targetEndian data pos name = range ∧ range.stop ≠ 0 ∧
      slice data range.start range.stop = .ok value ∧ range.stop ≤ data.length ∧
        PlacedAt data range.stop rest := by
  obtain ⟨hnamed, hle, hrest⟩ := placed_step h hpos
  obtain ⟨-, hname, hsection⟩ := placed_step hnamed hpos
  rw [List.length_append, length_section64, ← Nat.add_assoc, ← Nat.add_assoc] at hle hrest
  refine ⟨_, namedRange_placed hnamed hpos (by omega), by dsimp only; omega,
    (sectionRange_placed hsection hname (by omega)).2, hle, hrest⟩

/-- A section is found, and what stands behind it. -/
theorem section_step {width : ℕ} {value rest : List UInt8}
    (h : PlacedAt data pos (build.targetEndian.toBytes width value.length ++ value ++ rest))
    (hpos : pos ≤ data.length) (hsmall : data.length < 256 ^ width) (hwidth : 0 < width) :
    ∃ range, (∀ state, expectSized build width build.targetEndian data pos state =
        .ok (.ok range, state)) ∧
      slice data range.start range.stop = .ok value ∧ range.stop ≤ data.length ∧
        PlacedAt data range.stop rest := by
  exact ⟨_, section_placed h hpos hsmall hwidth⟩

/-- Parts of a size make up a whole. -/
theorem mul_length_le_flatMap {α : Type} {size : ℕ} {bytes : α → List UInt8} {items : List α}
    (h : ∀ item, size ≤ (bytes item).length) : size * items.length ≤ (items.flatMap bytes).length := by
  induction items with
  | nil => exact le_rfl
  | cons item items ih =>
    rw [List.flatMap_cons, List.length_append, List.length_cons, Nat.mul_succ, Nat.add_comm]
    exact Nat.add_le_add (h item) ih

/-- Assumes: a reader that knows no formats, and formats that are read and share a `common_type`.

The parser reads the block to its end. -/
theorem tracingBody_written {writer : DataFileWriter} {parsed : List (List PerfEventFormat)}
    {place : ℤ × ℕ} (hsmall : (tracingDataHeader build writer).length < 2 ^ 31)
    (hparsed : List.Forall₂ (SystemReads build (decide (writer.tracingDataLongSize.toNat ≠ 4)))
      writer.formatsBySystem.entries parsed)
    (hshared : ShareCommonType place parsed.flatten)
    (hunset : state.commonTypeOffset = EventOffsets.offsetUnset)
    (hnone : state.attrs.formatById = []) :
    ∃ next, tracingBody build (tracingDataHeader build writer) state = .ok (.ok (), next) ∧
      BlockParsed (tracingDataHeader build writer) writer parsed.flatten state next := by
  have hwhole : PlacedAt (tracingDataHeader build writer) 0 (tracingDataHeader build writer) :=
    List.prefix_rfl
  have hword (width value : ℕ) : (build.targetEndian.toBytes width value).length = width :=
    build.targetEndian.length_toBytes _ _
  have hlarge : (tracingDataHeader build writer).length < 256 ^ 8 := by omega
  have hpage := writer.tracingDataPageSize.toNat_lt
  nth_rewrite 2 [tracingDataHeader_eq] at hwhole
  generalize tracingDataHeader build writer = data at hsmall hwhole hlarge ⊢
  -- Each part is placed behind the one before.
  obtain ⟨hsignature, hle, hwhole⟩ := placed_step hwhole (Nat.zero_le _)
  rw [Nat.zero_add] at hle hwhole
  obtain ⟨hversion, hle, hwhole⟩ := placed_step hwhole hle
  rw [List.length_append, List.length_singleton, ← Nat.add_assoc] at hle hwhole
  have hsz : expectSz data tracingSignature.length
      { state with parsedTracingData := true } =
        .ok (.ok (ascii "0.6"), { state with parsedTracingData := true }) := by
    unfold expectSz
    rw [readSz_placed hversion (by decide)]
    rfl
  unfold tracingBody
  rw [Act.update_bind, Act.bind_of_ok hsz]
  dsimp only
  generalize tracingSignature.length + (ascii "0.6").length + 1 = pos at hle hwhole ⊢
  obtain ⟨hbigEndian, hleByte, hwhole⟩ := placed_step hwhole hle
  obtain ⟨hlongSize, hleSizes, hwhole⟩ := placed_step hwhole hleByte
  obtain ⟨hpageSize, hleFront, hwhole⟩ := placed_step hwhole hleSizes
  rw [hword] at hleFront hwhole
  simp only [List.length_singleton] at hlongSize hpageSize hleByte hleSizes hleFront hwhole
  have horder : (if (if build.targetEndian = .big then (1 : UInt8) else 0) ≠ 0 then ByteOrder.big
      else ByteOrder.little) = build.targetEndian := by
    cases build.targetEndian <;> rfl
  rw [Act.bind_of_ok (Act.compute_ok (sub_of_le hle)), if_neg (by omega),
    Act.bind_of_ok (Act.compute_ok hbigEndian.byteAt_eq), horder,
    Act.bind_of_ok (Act.compute_ok hlongSize.byteAt_eq), Act.update_bind,
    Act.bind_of_ok (Act.compute_ok (hpageSize.readUInt_eq (by decide) hpage)), Act.update_bind]
  rw [show pos + 1 + 1 + 4 = pos + 6 from rfl] at hleFront hwhole
  -- The headers of the ring buffer.
  obtain ⟨headerPage, hpageRange, hpageStop, hpageSlice, hlePage, hwhole⟩ :=
    namedSection_step hwhole hleFront hlarge
  rw [Act.bind_of_ok (Act.compute_ok (readNamedSection64_eq build hleFront _)), hpageRange]
  unfold expectSection
  rw [if_neg hpageStop, Act.done_bind, Act.update_bind]
  obtain ⟨headerEvent, heventRange, heventStop, heventSlice, hleEvent, hwhole⟩ :=
    namedSection_step hwhole hlePage hlarge
  rw [Act.bind_of_ok (Act.compute_ok (readNamedSection64_eq build hlePage _)), heventRange,
    if_neg heventStop, Act.done_bind, Act.update_bind]
  -- The ftraces.
  obtain ⟨hcount, hleCount, hwhole⟩ := placed_step hwhole hleEvent
  rw [hword] at hleCount hwhole
  obtain ⟨hftraces, hleFtraces, hwhole⟩ := placed_step hwhole hleCount
  have hmany : 8 * writer.tracingDataFtraces.length ≤
      (writer.tracingDataFtraces.flatMap (section64 build)).length :=
    mul_length_le_flatMap fun ftrace ↦ by
      rw [section64, List.length_append, hword]
      exact Nat.le_add_right _ _
  rw [Act.bind_of_ok (expectU32_placed hcount hleEvent (by omega)),
    Act.bind_of_ok (Act.compute_ok (sub_of_le hleCount)), if_neg (by omega)]
  obtain ⟨ranges, hloop, hranges⟩ := @ftracesLoop_placed build _ data _ _ hftraces hleCount hlarge
  rw [Act.bind_of_ok hloop]
  dsimp only
  generalize headerEvent.stop + 4 + (writer.tracingDataFtraces.flatMap (section64 build)).length = pos
    at hleFtraces hwhole ⊢
  -- The systems.
  obtain ⟨hcount, hleCount, hwhole⟩ := placed_step hwhole hleFtraces
  rw [hword] at hleCount hwhole
  obtain ⟨hsystems, hleSystems, hwhole⟩ := placed_step hwhole hleCount
  have hmany : 1 * writer.formatsBySystem.entries.length ≤
      (writer.formatsBySystem.entries.flatMap (systemBytes build)).length :=
    mul_length_le_flatMap fun system ↦ by
      unfold systemBytes
      simp only [List.length_append, List.length_singleton]
      omega
  rw [Act.bind_of_ok (expectU32_placed hcount hleFtraces (by omega))]
  generalize hmid : ({ state with
      parsedTracingData := true
      tracingDataLongSize := writer.tracingDataLongSize.toNat
      tracingDataPageSize := writer.tracingDataPageSize.toNat
      headerPage := headerPage
      headerEvent := headerEvent
      ftraces := state.ftraces ++ ranges } : ReaderState) = mid
  obtain ⟨added, hadds⟩ := @addFormats_shared mid _ _ hshared
  have hpart := addFormats_part hadds
  have hattrs := addFormats_unset (by rw [← hmid]; exact hunset) (by rw [← hmid]; exact hnone) hadds
  rw [usableFormats_shared hshared] at hattrs
  rw [Act.bind_of_ok (systemsLoop_placed hsystems hleCount hlarge hparsed (by rw [← hmid]) hadds),
    Act.update_bind]
  generalize pos + 4 + (writer.formatsBySystem.entries.flatMap (systemBytes build)).length = pos
    at hleSystems hwhole ⊢
  -- The sections behind the systems.
  obtain ⟨kallsyms, hkallsyms, hkallsymsSlice, hleKallsyms, hwhole⟩ :=
    section_step hwhole hleSystems (by omega) (by decide)
  rw [Act.bind_of_ok (hkallsyms _), Act.update_bind]
  obtain ⟨printk, hprintk, hprintkSlice, hlePrintk, hwhole⟩ :=
    section_step hwhole hleKallsyms (by omega) (by decide)
  rw [Act.bind_of_ok (hprintk _), Act.update_bind]
  rw [← List.append_nil (section64 build writer.tracingDataCmdLine)] at hwhole
  obtain ⟨cmdLine, hcmdLine, hcmdLineSlice, -, -⟩ :=
    section_step hwhole hlePrintk hlarge (by decide)
  rw [if_pos (by decide), Act.bind_of_ok (hcmdLine _)]
  refine ⟨_, rfl, ?_⟩
  subst hmid
  rw [hpart]
  exact ⟨rfl, rfl, hpageSlice, heventSlice, ⟨ranges, rfl, hranges⟩, hkallsymsSlice, hprintkSlice,
    hcmdLineSlice, rfl, by rw [hattrs]⟩

end ReaderState

/-! ### Formats that come back -/

namespace PerfEventFormat

variable {build : Build} {longIs64Bits : Bool} {format parsed : PerfEventFormat}

/-- A format that was parsed, is in ASCII and has common fields. -/
structure Collected (build : Build) (format : PerfEventFormat) : Prop where
  parsed : ∃ longIs64Bits systemName text,
    parse build longIs64Bits systemName text = .ok (some format)
  common : 1 ≤ format.commonFieldCount
  ascii : ∀ c ∈ format.writeTo, c ≤ 0x7F
  system_ascii : ∀ c ∈ format.systemName, c ≤ 0x7F
  system_nul : 0 ∉ format.systemName

/-- A format whose values do not end inside a quoted string, so that its text is printed as it was. -/
structure Writable (build : Build) (format : PerfEventFormat) : Prop
    extends Collected build format where
  name : quotesClosed format.name
  printFmt : quotesClosed format.printFmt

/-- The same format with its fields made for a size of `long`. -/
def Remade (build : Build) (longIs64Bits : Bool) (format parsed : PerfEventFormat) : Prop :=
  ∃ fields, Renewed build longIs64Bits format.fields fields ∧ parsed = { format with fields := fields }

theorem Remade.id_eq (h : Remade build longIs64Bits format parsed) : parsed.id = format.id := by
  obtain ⟨fields, -, rfl⟩ := h
  rfl

theorem Remade.printFmt_eq (h : Remade build longIs64Bits format parsed) :
    parsed.printFmt = format.printFmt := by
  obtain ⟨fields, -, rfl⟩ := h
  rfl

/-- There is one way to make the fields anew. -/
theorem Renewed.unique {fields first second : List PerfFieldFormat}
    (hfirst : Renewed build longIs64Bits fields first)
    (hsecond : Renewed build longIs64Bits fields second) : first = second := by
  induction hfirst generalizing second with
  | nil =>
    cases hsecond
    rfl
  | @cons field made fields first hmade _ ih =>
    cases hsecond with
    | @cons _ other _ second hother hrest =>
      rw [Except.ok.inj (hmade.1.symm.trans hother.1), ih hrest]

theorem Remade.unique {other : PerfEventFormat} (h : Remade build longIs64Bits format parsed)
    (hother : Remade build longIs64Bits format other) : parsed = other := by
  obtain ⟨fields, hfields, rfl⟩ := h
  obtain ⟨others, hothers, rfl⟩ := hother
  rw [hfields.unique hothers]

/-- A field has the same `common_type`, whatever `long` is. -/
theorem commonType_renewed {count : ℕ} {fields fields' : List PerfFieldFormat}
    (h : Renewed build longIs64Bits fields fields') :
    ReaderState.commonType count fields' = ReaderState.commonType count fields := by
  induction count generalizing fields fields' with
  | zero => rfl
  | succ count ih =>
    cases h with
    | nil => rfl
    | @cons field field' fields fields' hfield hrest =>
      have hsame := hfield.2
      unfold ReaderState.commonType PerfFieldFormat.name
      rw [hsame.nameStart_eq, hsame.nameStop_eq, hsame.field_eq, hsame.offset_eq, hsame.size_eq,
        hsame.array_eq, ih hrest]

/-- A format that is writable is printed as a text that is parsed as the same format. -/
theorem Writable.printsAs (h : Writable build format) (longIs64Bits : Bool) :
    ∃ parsed, Remade build longIs64Bits format parsed ∧
      ReaderState.PrintsAs build longIs64Bits format.systemName format parsed ∧
      ReaderState.commonType parsed.commonFieldCount parsed.fields =
        ReaderState.commonType format.commonFieldCount format.fields := by
  obtain ⟨longIs64Bits', systemName, text, hparse⟩ := h.parsed
  obtain rfl := (parsed_of_parse hparse).2
  obtain ⟨fields, hfields, hprinted⟩ := @parse_writeTo build longIs64Bits' longIs64Bits _ _ _
    hparse h.common h.name h.printFmt
  refine ⟨{ format with fields := fields }, ⟨fields, hfields, rfl⟩, ?_, commonType_renewed hfields⟩
  unfold ReaderState.PrintsAs
  rw [asLatin1_of_ascii h.ascii, ReaderAttrs.fromLatin1_of_ascii h.ascii]
  exact hprinted

end PerfEventFormat

namespace DataFileWriter

open PerfEventFormat ReaderState

variable {build : Build} {writer : DataFileWriter}

/-- The groups of formats are the formats, and the name of a group is the system of its members. -/
theorem formatsBySystem_groups (writer : DataFileWriter) :
    (writer.formatsBySystem.entries.flatMap Prod.snd).Perm writer.eventFormatByCommonType.values ∧
      ∀ system ∈ writer.formatsBySystem.entries,
        OrderedMap.IsGroup PerfEventFormat.systemName system := by
  have hgroups := @OrderedMap.groups (List UInt8) PerfEventFormat _ PerfEventFormat.systemName _ _
    writer.eventFormatByCommonType.values .empty fun _ hentry ↦ absurd hentry List.not_mem_nil
  exact ⟨hgroups.1, hgroups.2⟩

/-- A system has fewer formats than the block has bytes. -/
theorem count_lt (hsmall : (tracingDataHeader build writer).length < 2 ^ 31)
    {system : List UInt8 × List PerfEventFormat} (hsystem : system ∈ writer.formatsBySystem.entries) :
    system.2.length < 256 ^ 4 := by
  have hformats : 1 * system.2.length ≤ (system.2.flatMap fun format ↦
      section64 build (asLatin1 format.writeTo)).length :=
    mul_length_le_flatMap fun format ↦ by
      rw [length_section64]
      omega
  have hbytes : (system.2.flatMap fun format ↦ section64 build (asLatin1 format.writeTo)).length ≤
      (systemBytes build system).length := by
    unfold systemBytes
    rw [List.length_append]
    exact Nat.le_add_left _ _
  have hsystems := (List.sublist_flatten_of_mem
    (List.mem_map_of_mem (f := systemBytes build) hsystem)).length_le
  have hblock : (writer.formatsBySystem.entries.flatMap (systemBytes build)).length ≤
      (tracingDataHeader build writer).length := by
    rw [tracingDataHeader_eq]
    simp only [List.length_append]
    omega
  rw [← List.flatMap_def] at hsystems
  omega

/-- Assumes: formats that are writable.

The formats of all systems are read as the same formats. -/
theorem systems_read (longIs64Bits : Bool)
    (hsmall : (tracingDataHeader build writer).length < 2 ^ 31)
    (hwritable : ∀ format ∈ writer.eventFormatByCommonType.values, Writable build format) :
    ∃ parsed, List.Forall₂ (SystemReads build longIs64Bits) writer.formatsBySystem.entries parsed ∧
      List.Forall₂ (fun format parsed ↦ Remade build longIs64Bits format parsed ∧
        commonType parsed.commonFieldCount parsed.fields =
          commonType format.commonFieldCount format.fields)
        (writer.formatsBySystem.entries.flatMap Prod.snd) parsed.flatten := by
  obtain ⟨hperm, hsystems⟩ := formatsBySystem_groups writer
  have hformat (format : PerfEventFormat) (hformat : format ∈ writer.eventFormatByCommonType.values) :=
    (hwritable format hformat).printsAs longIs64Bits
  choose! parsed hremade hprints hcommon using hformat
  have hmem : ∀ system ∈ writer.formatsBySystem.entries, ∀ format ∈ system.2,
      format ∈ writer.eventFormatByCommonType.values := fun system hsystem format hformat ↦
    hperm.mem_iff.mp (List.mem_flatMap.mpr ⟨system, hsystem, hformat⟩)
  refine ⟨writer.formatsBySystem.entries.map fun system ↦ system.2.map parsed, ?_, ?_⟩
  · rw [List.forall₂_map_right_iff, List.forall₂_same]
    intro system hsystem
    obtain ⟨hnonempty, hsame⟩ := hsystems system hsystem
    -- The name of the system is that of a member, which is writable.
    obtain ⟨first, hfirst⟩ := List.exists_mem_of_ne_nil _ hnonempty
    have hname := hwritable first (hmem system hsystem first hfirst)
    have hascii := hname.system_ascii
    have hnul := hname.system_nul
    rw [hsame first hfirst] at hascii hnul
    refine ⟨by rwa [asLatin1_of_ascii hascii], count_lt hsmall hsystem, ?_⟩
    rw [asLatin1_of_ascii hascii, ReaderAttrs.fromLatin1_of_ascii hascii,
      List.forall₂_map_right_iff, List.forall₂_same]
    intro format hformat
    have hprint := hprints format (hmem system hsystem format hformat)
    rwa [hsame format hformat] at hprint
  · rw [← List.flatMap_def, ← List.map_flatMap, List.forall₂_map_right_iff, List.forall₂_same]
    intro format hformat
    have hvalue := hperm.mem_iff.mp hformat
    exact ⟨hremade format hvalue, hcommon format hvalue⟩

/-- Formats that are kept by their ids have different ones. -/
theorem Keyed.eq_of_id (h : writer.Keyed) {first second : PerfEventFormat}
    (hfirst : first ∈ writer.eventFormatByCommonType.values)
    (hsecond : second ∈ writer.eventFormatByCommonType.values) (hid : first.id = second.id) :
    first = second := by
  obtain ⟨⟨firstKey, first⟩, hfirstEntry, rfl⟩ := List.mem_map.mp hfirst
  obtain ⟨⟨secondKey, second⟩, hsecondEntry, rfl⟩ := List.mem_map.mp hsecond
  have hkeys : firstKey = secondKey :=
    (h _ hfirstEntry).trans (hid.trans (h _ hsecondEntry).symm)
  subst hkeys
  exact Option.some.inj (((OrderedMap.mem_entries_iff _).mp hfirstEntry).symm.trans
    ((OrderedMap.mem_entries_iff _).mp hsecondEntry))

/-- A member of one of two lists that are related has one in the other. -/
theorem exists_related {α β : Type} {related : α → β → Prop} {first : List α} {second : List β}
    (h : List.Forall₂ related first second) {value : α} (hvalue : value ∈ first) :
    ∃ other ∈ second, related value other := by
  induction h with
  | nil => exact absurd hvalue List.not_mem_nil
  | @cons head other first second hhead _ ih =>
    rcases List.mem_cons.mp hvalue with rfl | hmem
    · exact ⟨other, List.mem_cons_self, hhead⟩
    · obtain ⟨found, hfound, hrelated⟩ := ih hmem
      exact ⟨found, List.mem_cons_of_mem _ hfound, hrelated⟩

/-- What is found by its id among formats that were made anew. -/
theorem lookup_remade {formats parsed : List PerfEventFormat} {longIs64Bits : Bool} {id : ℕ}
    {found : PerfEventFormat}
    (hremade : List.Forall₂ (Remade build longIs64Bits) formats parsed)
    (hids : ∀ first ∈ formats, ∀ second ∈ formats, first.id = second.id → first = second) :
    (ReaderAttrs.formatMap parsed).lookup id = some found ↔
      ∃ format ∈ formats, format.id = id ∧ Remade build longIs64Bits format found := by
  have hback : ∀ made ∈ parsed, ∃ format ∈ formats, Remade build longIs64Bits format made :=
    fun made hmade ↦ exists_related hremade.flip hmade
  rw [ReaderAttrs.lookup_formatMap]
  constructor
  · intro hfound
    have hmem := List.mem_reverse.mp (List.mem_of_find?_eq_some hfound)
    have hid : found.id = id := by simpa using List.find?_some hfound
    obtain ⟨format, hformat, hmade⟩ := hback found hmem
    exact ⟨format, hformat, hmade.id_eq.symm.trans hid, hmade⟩
  · rintro ⟨format, hformat, rfl, hfound⟩
    obtain ⟨made, hmade, hformatMade⟩ := exists_related hremade hformat
    cases hfind : parsed.reverse.find? fun other ↦ other.id = format.id with
    | none =>
      have hnone := List.find?_eq_none.mp hfind made (List.mem_reverse.mpr hmade)
      exact absurd (decide_eq_true hformatMade.id_eq) hnone
    | some other =>
      have hid : other.id = format.id := by simpa using List.find?_some hfind
      obtain ⟨source, hsource, hother⟩ :=
        hback other (List.mem_reverse.mp (List.mem_of_find?_eq_some hfind))
      have hsame := hids source hsource format hformat (hother.id_eq.symm.trans hid)
      rw [hsame] at hother
      rw [hother.unique hfound]

end DataFileWriter

/-! ### The round trip -/

/-- What a reader has of the tracing data that a writer collected: the ids of the formats are those of
the writer, and a format has the properties and fields of the writer's. -/
structure TracingReadBack (build : Build) (writer : DataFileWriter) (reader : ReaderState) : Prop where
  longSize : reader.tracingDataLongSize = writer.tracingDataLongSize.toNat
  pageSize : reader.tracingDataPageSize = writer.tracingDataPageSize.toNat
  headerPage : reader.tracingDataHeaderPage = .ok
    (DataFileWriter.orDefault DataFileWriter.defaultHeaderPage writer.tracingDataHeaderPage)
  headerEvent : reader.tracingDataHeaderEvent = .ok
    (DataFileWriter.orDefault DataFileWriter.defaultHeaderEvent writer.tracingDataHeaderEvent)
  ftraceCount : reader.ftraces.length = writer.tracingDataFtraces.length
  ftraces : ∀ index, ∀ ftrace ∈ writer.tracingDataFtraces[index]?,
    reader.tracingDataFtrace index = .ok ftrace
  kallsyms : reader.tracingDataKallsyms = .ok writer.tracingDataKallsyms
  printk : reader.tracingDataPrintk = .ok writer.tracingDataPrintk
  cmdLine : reader.tracingDataSavedCmdLine = .ok writer.tracingDataCmdLine
  found : ∀ format ∈ writer.eventFormatByCommonType.values,
    ∃ found, reader.attrs.formatById.lookup format.id = some found
  formats : ∀ id found, reader.attrs.formatById.lookup id = some found ↔
    ∃ format ∈ writer.eventFormatByCommonType.values, format.id = id ∧
      PerfEventFormat.Remade build (decide (writer.tracingDataLongSize.toNat ≠ 4)) format found

section RoundTrip

open DataFileWriter ReaderState

variable {build : Build} {calls : List WriterCall} {writer : PerfDataFileWriter} {told : Bool}
  {synthesized : DataFileWriter} {state : ReaderState}

/-- Assumes: a writer that calls made, whose formats have a usable `common_type` at one place and do not
end inside quoted strings, and a reader without formats that is given the block that is synthesized.
The reader has what the writer collected. -/
theorem tracingReadBack_of_run {place : ℤ × ℕ}
    (hrun : WriterCall.runAll build calls .new = .ok (told, writer))
    (hrequired : writer.inner.TracingDataRequired)
    (hwritable : ∀ format ∈ writer.inner.eventFormatByCommonType.values,
      PerfEventFormat.Writable build format)
    (hshared : ShareCommonType place writer.inner.eventFormatByCommonType.values)
    (hsynthesize : writer.inner.synthesizeTracingData build = .ok synthesized)
    (hsmall : (synthesized.header PerfHeaderIndex.tracingData).length < 2 ^ 31)
    (hheader : state.header PerfHeaderIndex.tracingData =
      synthesized.header PerfHeaderIndex.tracingData)
    (hunset : state.commonTypeOffset = EventOffsets.offsetUnset)
    (hnone : state.attrs.formatById = []) (hftraces : state.ftraces = []) :
    ∃ next, state.parseTracingData build = .ok next ∧ TracingReadBack build writer.inner next := by
  have hbounded := (WriterCall.runAll_sound .new hrun).bounded
  have hkeyed : writer.inner.Keyed := WriterCall.runAll_keyed .new hrun
  have hmade := synthesizeTracingData_ok hbounded hsynthesize
  rw [if_pos hrequired] at hmade
  subst hmade
  rw [PerfDataFileWriter.header_putHeader_self] at hsmall hheader
  obtain ⟨parsed, hreads, hremade⟩ := systems_read
    (decide (writer.inner.tracingDataLongSize.toNat ≠ 4)) hsmall hwritable
  obtain ⟨hperm, -⟩ := formatsBySystem_groups writer.inner
  have hparsedShared : ShareCommonType place parsed.flatten := by
    intro made hmade
    obtain ⟨format, hformat, -, hcommon⟩ := exists_related hremade.flip hmade
    rw [hcommon]
    exact hshared format (hperm.mem_iff.mp hformat)
  obtain ⟨next, hbody, hblock⟩ := tracingBody_written hsmall hreads hparsedShared hunset hnone
  have hparse : state.parseTracingData build = .ok next := by
    have hsignature : (tracingDataHeader build writer.inner).take tracingSignature.length =
        tracingSignature := by
      rw [tracingDataHeader_eq]
      exact List.take_left' rfl
    unfold parseTracingData
    rw [hheader]
    dsimp only
    rw [if_neg (not_not.mpr hsignature), hbody, ok_bind]
  have hsame : next.header PerfHeaderIndex.tracingData = tracingDataHeader build writer.inner :=
    (congrArg (fun headers : Headers ↦ headers.value PerfHeaderIndex.tracingData)
      hblock.headers).trans hheader
  have hsection (range : ByteRange) : next.tracingDataSection range =
      slice (tracingDataHeader build writer.inner) range.start range.stop := by
    unfold tracingDataSection
    rw [hsame]
  obtain ⟨ranges, hranges, hslices⟩ := hblock.ftraces
  rw [hftraces, List.nil_append] at hranges
  have hids : ∀ first ∈ writer.inner.formatsBySystem.entries.flatMap Prod.snd,
      ∀ second ∈ writer.inner.formatsBySystem.entries.flatMap Prod.snd,
        first.id = second.id → first = second := fun first hfirst second hsecond hid ↦
    hkeyed.eq_of_id (hperm.mem_iff.mp hfirst) (hperm.mem_iff.mp hsecond) hid
  have hformats (id : ℕ) (found : PerfEventFormat) :
      next.attrs.formatById.lookup id = some found ↔
        ∃ format ∈ writer.inner.eventFormatByCommonType.values, format.id = id ∧
          PerfEventFormat.Remade build (decide (writer.inner.tracingDataLongSize.toNat ≠ 4)) format
            found := by
    rw [hblock.attrs]
    refine (lookup_remade (hremade.imp fun _ _ h ↦ h.1) hids).trans ?_
    exact exists_congr fun format ↦ and_congr_left fun _ ↦ hperm.mem_iff
  refine ⟨next, hparse, hblock.longSize, hblock.pageSize, (hsection _).trans hblock.headerPage,
    (hsection _).trans hblock.headerEvent, ?_, fun index ftrace hftrace ↦ ?_,
    (hsection _).trans hblock.kallsyms, (hsection _).trans hblock.printk,
    (hsection _).trans hblock.cmdLine, fun format hformat ↦ ?_, hformats⟩
  · rw [hranges]
    exact hslices.length_eq
  · obtain ⟨hindex, rfl⟩ := List.getElem?_eq_some_iff.mp hftrace
    have hlength : index < ranges.length := hslices.length_eq ▸ hindex
    unfold tracingDataFtrace
    rw [hranges, List.getElem?_eq_getElem hlength]
    exact (hsection _).trans (hslices.get hlength hindex)
  · obtain ⟨made, -, hmade, -⟩ := exists_related hremade (hperm.mem_iff.mpr hformat)
    exact ⟨made, (hformats _ _).mpr ⟨format, hformat, rfl, hmade⟩⟩

end RoundTrip

/-! #### Writers with formats -/

namespace PerfEventFormat

/-- The text of a format with a `common_type`, up to the value of its print format. -/
def typedText (behind : List UInt8) : List UInt8 :=
  ascii "name: e\nID: 7\nformat:\n\tfield:u8 common_type;\toffset:0;\tsize:1;\n\n\nprint fmt: " ++
    behind

/-- The format of that text. -/
def typedFormat (behind : List UInt8) : Option PerfEventFormat :=
  match parse ⟨true, .little, true⟩ true (ascii "s") (typedText behind) with
  | .ok format => format
  | .error _ => none

end PerfEventFormat

namespace DataFileWriter

open PerfEventFormat ReaderState

/-- The calls that collect a format. -/
def formatCalls (format : PerfEventFormat) : List WriterCall :=
  [.setTracingDataRequired 8 4096, .setTracingDataHeaderPage [1], .setTracingDataHeaderEvent [2],
    .addTracepointEventDesc [1] plainWritten (ascii "s:e") format]

/-- The writer behind them. -/
def formatWriter (format : PerfEventFormat) : PerfDataFileWriter :=
  ⟨({ DataFileWriter.new.setTracingDataRequired 8 4096 with
      tracingDataHeaderPage := [1]
      tracingDataHeaderEvent := [2]
      eventFormatByCommonType := DataFileWriter.new.eventFormatByCommonType.upsert format.id
        fun _ ↦ format }).addEventDesc (ascii "s:e") [1] plainWritten, none⟩

/-- A reader that has the block of that writer and nothing else. -/
def formatReader (format : PerfEventFormat) : ReaderState :=
  { ReaderState.new with
    headers := ReaderState.new.headers.put PerfHeaderIndex.tracingData
      (tracingDataHeader ⟨true, .little, true⟩ (formatWriter format).inner) }

/-- A format of a typed text that a writer can collect. -/
def Typed (printFmt : List UInt8) (format : PerfEventFormat) : Prop :=
  format.commonFieldCount = 1 ∧ format.systemName = ascii "s" ∧ format.name = ascii "e" ∧
    format.printFmt = printFmt ∧ (∀ c ∈ format.writeTo, c ≤ 0x7F) ∧
    commonType format.commonFieldCount format.fields = .ok (some (0, 1)) ∧
    (tracingDataHeader ⟨true, .little, true⟩ (formatWriter format).inner).length < 2 ^ 31

instance (printFmt : List UInt8) (format : PerfEventFormat) : Decidable (Typed printFmt format) :=
  inferInstanceAs (Decidable (_ ∧ _))

theorem Typed.collected {printFmt behind : List UInt8} {format : PerfEventFormat}
    (h : Typed printFmt format)
    (hparse : parse ⟨true, .little, true⟩ true (ascii "s") (typedText behind) = .ok (some format)) :
    Collected ⟨true, .little, true⟩ format := by
  obtain ⟨hcount, hsystem, -, -, hascii, -, -⟩ := h
  refine ⟨⟨_, _, _, hparse⟩, hcount.ge, hascii, ?_, ?_⟩
  · rw [hsystem]
    decide
  · rw [hsystem]
    decide

theorem formatWriter_required (format : PerfEventFormat) :
    (formatWriter format).inner.TracingDataRequired :=
  ⟨show (8 : UInt8) ≠ 0 by decide, show (4096 : UInt32) ≠ 0 by decide⟩

theorem formatCalls_run (format : PerfEventFormat) :
    WriterCall.runAll ⟨true, .little, true⟩ (formatCalls format) .new =
      .ok (true, formatWriter format) := rfl

theorem formatWriter_values (format : PerfEventFormat) :
    (formatWriter format).inner.eventFormatByCommonType.values = [format] := rfl

theorem formatReader_header (format : PerfEventFormat) :
    (formatReader format).header PerfHeaderIndex.tracingData =
      tracingDataHeader ⟨true, .little, true⟩ (formatWriter format).inner :=
  Vector.getElem_set_self PerfHeaderIndex.tracingData.isLt

theorem formatWriter_synthesizes (format : PerfEventFormat) :
    (formatWriter format).inner.synthesizeTracingData ⟨true, .little, true⟩ =
      .ok ((formatWriter format).inner.putHeader PerfHeaderIndex.tracingData
        (tracingDataHeader ⟨true, .little, true⟩ (formatWriter format).inner)) :=
  synthesizeTracingData_eq (WriterCall.runAll_sound .new (formatCalls_run format)).bounded
    (formatWriter_required format) (.inr rfl)

end DataFileWriter

section FormatSamples

open DataFileWriter PerfEventFormat ReaderState

/-- Two formats of different systems, the second one with a field of its own. -/
def sampleFormats : List PerfEventFormat :=
  [(ascii "s", typedText (ascii "\"abc\"\n")),
    (ascii "t", ascii "name: f\nID: 8\nformat:\n\tfield:u8 common_type;\toffset:0;\tsize:1;\n\n" ++
      ascii "\tfield:u32 value;\toffset:4;\tsize:4;\n\nprint fmt: \"%u\", REC->value\n")].filterMap
    fun (system, text) ↦
      match parse ⟨true, .little, true⟩ true system text with
      | .ok format => format
      | .error _ => none

/-- The calls that collect them, with all parts of the tracing data. -/
def sampleCalls : List WriterCall :=
  [.setTracingDataRequired 8 4096, .setTracingDataHeaderPage [1], .setTracingDataHeaderEvent [2],
      .setTracingDataAddFtrace [3], .setTracingDataAddFtrace [4, 4], .setTracingDataKallsyms [5],
      .setTracingDataPrintk [6, 6], .setTracingDataSavedCmdLine [7]] ++
    sampleFormats.map fun format ↦ .addTracepointEventDesc [.ofNat format.id] plainWritten
      (format.systemName ++ ascii ":" ++ format.name) format

/-- The writer behind them. -/
def sampleWriter : PerfDataFileWriter :=
  match WriterCall.runAll ⟨true, .little, true⟩ sampleCalls .new with
  | .ok (_, writer) => writer
  | .error _ => .new

/-- A reader that has the block of that writer and nothing else. -/
def sampleReader : ReaderState :=
  { ReaderState.new with
    headers := ReaderState.new.headers.put PerfHeaderIndex.tracingData
      (tracingDataHeader ⟨true, .little, true⟩ sampleWriter.inner) }

theorem sampleCalls_run : WriterCall.runAll ⟨true, .little, true⟩ sampleCalls .new =
    .ok (true, sampleWriter) := by
  have htold : (WriterCall.runAll ⟨true, .little, true⟩ sampleCalls .new).map Prod.fst = .ok true := by
    decide +kernel
  unfold sampleWriter
  generalize WriterCall.runAll ⟨true, .little, true⟩ sampleCalls .new = result at htold ⊢
  cases result with
  | error fault => cases htold
  | ok result =>
    obtain ⟨told, writer⟩ := result
    obtain rfl : told = true := Except.ok.inj htold
    rfl

/-- The formats can be collected, and have their `common_type` at one place. -/
theorem sampleFormats_writable (format : PerfEventFormat) (hformat : format ∈ sampleFormats) :
    Writable ⟨true, .little, true⟩ format ∧
      commonType format.commonFieldCount format.fields = .ok (some (0, 1)) := by
  have hall : ∀ format ∈ sampleFormats, 1 ≤ format.commonFieldCount ∧
      (∀ c ∈ format.writeTo, c ≤ 0x7F) ∧ (∀ c ∈ format.systemName, c ≤ 0x7F) ∧
      0 ∉ format.systemName ∧ quotesClosed format.name ∧ quotesClosed format.printFmt ∧
      commonType format.commonFieldCount format.fields = .ok (some (0, 1)) := by
    decide +kernel
  obtain ⟨hcommon, hascii, hsystem, hnul, hname, hprintFmt, htype⟩ := hall format hformat
  obtain ⟨⟨system, text⟩, -, hparse⟩ := List.mem_filterMap.mp hformat
  dsimp only at hparse
  refine ⟨⟨⟨⟨true, system, text, ?_⟩, hcommon, hascii, hsystem, hnul⟩, hname, hprintFmt⟩, htype⟩
  split at hparse
  · next hok => rw [hok, hparse]
  · cases hparse

/-- Two formats and the other parts of the tracing data are read back. -/
theorem tracingReadBack_typed : ∃ next,
    WriterCall.runAll ⟨true, .little, true⟩ sampleCalls .new = .ok (true, sampleWriter) ∧
      sampleWriter.inner.eventFormatByCommonType.values = sampleFormats ∧ sampleFormats.length = 2 ∧
      sampleReader.parseTracingData ⟨true, .little, true⟩ = .ok next ∧
      TracingReadBack ⟨true, .little, true⟩ sampleWriter.inner next := by
  have hwriter : sampleWriter.inner.eventFormatByCommonType.values = sampleFormats ∧
      sampleFormats.length = 2 ∧
      (sampleWriter.inner.tracingDataLongSize ≠ 0 ∧ sampleWriter.inner.tracingDataPageSize ≠ 0) ∧
      (tracingDataHeader ⟨true, .little, true⟩ sampleWriter.inner).length < 2 ^ 31 ∧
      sampleWriter.inner.header PerfHeaderIndex.tracingData = [] := by decide +kernel
  obtain ⟨hvalues, hcount, hrequired, hsmall, hunset⟩ := hwriter
  obtain ⟨next, hnext, hread⟩ := @tracingReadBack_of_run ⟨true, .little, true⟩ sampleCalls
    sampleWriter true _ sampleReader (0, 1) sampleCalls_run hrequired
    (fun format hformat ↦ (sampleFormats_writable format (hvalues ▸ hformat)).1)
    (fun format hformat ↦ (sampleFormats_writable format (hvalues ▸ hformat)).2)
    (synthesizeTracingData_eq (WriterCall.runAll_sound .new sampleCalls_run).bounded hrequired
      (.inr hunset))
    (by rwa [PerfDataFileWriter.header_putHeader_self])
    ((Vector.getElem_set_self PerfHeaderIndex.tracingData.isLt).trans
      (PerfDataFileWriter.header_putHeader_self _ _).symm)
    rfl rfl rfl
  exact ⟨next, sampleCalls_run, hvalues, hcount, hnext, hread⟩

/-- A print format that ends inside a quoted string comes back with an end of line behind it. -/
theorem unclosed_not_readBack : ∃ format,
    Collected ⟨true, .little, true⟩ format ∧
      WriterCall.runAll ⟨true, .little, true⟩ (formatCalls format) .new =
        .ok (true, formatWriter format) ∧
      (formatWriter format).inner.TracingDataRequired ∧
      (∀ other ∈ (formatWriter format).inner.eventFormatByCommonType.values, other = format) ∧
      ShareCommonType (0, 1) (formatWriter format).inner.eventFormatByCommonType.values ∧
      (formatWriter format).inner.synthesizeTracingData ⟨true, .little, true⟩ =
        .ok ((formatWriter format).inner.putHeader PerfHeaderIndex.tracingData
          ((formatReader format).header PerfHeaderIndex.tracingData)) ∧
      ((formatReader format).header PerfHeaderIndex.tracingData).length < 2 ^ 31 ∧
      ¬∃ next, (formatReader format).parseTracingData ⟨true, .little, true⟩ = .ok next ∧
        TracingReadBack ⟨true, .little, true⟩ (formatWriter format).inner next := by
  have hparse : parse ⟨true, .little, true⟩ true (ascii "s") (typedText (ascii "\"abc")) =
      .ok (typedFormat (ascii "\"abc")) := by decide +kernel
  have hall : (typedFormat (ascii "\"abc")).map (fun format ↦
      decide (Typed (ascii "\"abc") format)) = some true := by decide +kernel
  have hread : (typedFormat (ascii "\"abc")).map (fun format ↦
      ((formatReader format).parseTracingData ⟨true, .little, true⟩).map fun next ↦
        (next.attrs.formatById.lookup 7).map (·.printFmt)) =
          some (.ok (some (ascii "\"abc\n"))) := by
    decide +kernel
  obtain ⟨format, hformat, htyped⟩ := Option.map_eq_some_iff.mp hall
  have htyped : Typed (ascii "\"abc") format := of_decide_eq_true htyped
  rw [hformat] at hparse hread
  have hcollected := htyped.collected hparse
  obtain ⟨-, -, -, hprintFmt, -, hcommon, hsmall⟩ := htyped
  have hvalues (other : PerfEventFormat)
      (hother : other ∈ (formatWriter format).inner.eventFormatByCommonType.values) :
      other = format := by
    rw [formatWriter_values] at hother
    exact List.mem_singleton.mp hother
  refine ⟨format, hcollected, formatCalls_run format, formatWriter_required format, hvalues,
    fun other hother ↦ ?_, ?_, ?_, ?_⟩
  · rw [hvalues other hother]
    exact hcommon
  · rw [formatReader_header]
    exact formatWriter_synthesizes format
  · rw [formatReader_header]
    exact hsmall
  · rintro ⟨next, hnext, hback⟩
    rw [Option.map_some, hnext] at hread
    obtain ⟨found, hfound, hfoundFmt⟩ :=
      Option.map_eq_some_iff.mp (Except.ok.inj (Option.some.inj hread))
    obtain ⟨other, hother, -, hremade⟩ := (hback.formats 7 found).mp hfound
    rw [hremade.printFmt_eq, hvalues other hother, hprintFmt] at hfoundFmt
    exact absurd hfoundFmt (by decide)

end FormatSamples

end Tracepoints
