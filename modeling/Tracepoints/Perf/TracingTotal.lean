import Tracepoints.Perf.FormatLinks
import Tracepoints.Perf.FormatText
import Tracepoints.Perf.TracingRanges

/-!
# When parsing tracing data panics

`parse_tracing_data` leaves quietly where its data is not as expected. The one thing that makes it panic
is a format file that `PerfEventFormat::parse` panics at: `tracingTexts` lists the format files of a
block up to where the parser leaves, and `parseTracingData_returns_iff` says that the parser returns
exactly where all of them are parsed.
-/

set_option autoImplicit false
set_option relaxedAutoImplicit false

namespace Tracepoints

open Exec

/-! ### The fields of a parsed format -/

theorem isUtf8_fromLatin1 (bytes : List UInt8) : IsUtf8 (fromLatin1 bytes) := by
  have hbyte (byte : UInt8) : (if byte < 0x80 then [byte]
      else [(0xC0 : UInt8) ||| byte >>> 6, (0x80 : UInt8) ||| byte &&& 0x3F]) =
        String.utf8EncodeChar (Char.ofNat byte.toNat) := by
    cases byte with | ofBitVec bits => revert bits; decide +kernel
  refine ⟨bytes.map fun byte ↦ Char.ofNat byte.toNat, ?_⟩
  unfold fromLatin1 utf8
  rw [List.flatMap_map]
  exact List.flatMap_congr fun byte _ ↦ hbyte byte

namespace PerfFieldFormat

variable {build : Build} {longIs64Bits : Bool} {line : List UInt8} {format : PerfFieldFormat}

theorem lineLoop_utf8 {properties : LineProperties} (hline : IsUtf8 line)
    (h : lineLoop build (line.length + 1) line ⟨[], none, none, none⟩ = .ok properties) :
    IsUtf8 properties.field := by
  rw [lineLoop_eq build _ (Nat.lt_succ_self _)] at h
  refine (@foldlM_eq_ok _ _ _ (fun (properties : LineProperties) (entry : LineEntry) ↦
      properties.withProperty build entry.name entry.value entry.terminated)
    (fun (_ : Unit) _ ↦ ()) (fun _ properties ↦ IsUtf8 properties.field)
    (fun entry ↦ IsUtf8 entry.value) (fun _ ↦ True) (fun _ properties entry next hfield hvalue hnext ↦
      ⟨trivial, ?_⟩) _ () _ _ isUtf8_nil (lineEntries_utf8 (line.length + 1) hline) h).2
  unfold LineProperties.withProperty at hnext
  split_ifs at hnext
  · rw [← Except.ok.inj hnext]
    exact hvalue
  · obtain ⟨_, -, hnext⟩ := bind_eq_ok.mp hnext
    rw [← Except.ok.inj hnext]
    exact hfield
  · obtain ⟨_, -, hnext⟩ := bind_eq_ok.mp hnext
    rw [← Except.ok.inj hnext]
    exact hfield
  · obtain ⟨_, -, hnext⟩ := bind_eq_ok.mp hnext
    rw [← Except.ok.inj hnext]
    exact hfield
  · rw [← Except.ok.inj hnext]
    exact hfield

/-- The name of a field that was made can be sliced. -/
theorem name_returns_of_new {field : List UInt8} {offset size : ℕ} {signed : Option Bool}
    (hfield : IsUtf8 field) (h : new build longIs64Bits field offset size signed = .ok format) :
    Returns format.name fun _ ↦ True := by
  obtain ⟨chars, hchars⟩ := hfield
  by_cases hascii : asciiOutside true field = true
  · rcases new_slices build longIs64Bits offset size signed hchars hascii with
      ⟨fault, hfault, -⟩ | ⟨other, hother, hname⟩
    · rw [h] at hfault
      cases hfault
    · rw [h] at hother
      obtain rfl := Except.ok.inj hother
      exact hname
  · unfold new at h
    rw [Declaration.scan_indexOutOfRange build hchars (field.length + 1) (Nat.zero_le _) (by omega)
      hascii] at h
    cases h

theorem name_returns_of_parse (hline : IsUtf8 line)
    (h : parse build longIs64Bits line = .ok (some format)) : Returns format.name fun _ ↦ True := by
  obtain ⟨properties, hloop, h⟩ := bind_eq_ok.mp h
  have hfield := lineLoop_utf8 hline hloop
  split at h
  · next offset size _ _ =>
    split_ifs at h
    · cases hnew : new build longIs64Bits properties.field offset size properties.signed with
      | error fault =>
        rw [hnew] at h
        cases h
      | ok made =>
        rw [hnew] at h
        obtain rfl := Option.some.inj (Except.ok.inj h)
        exact name_returns_of_new hfield hnew
    · cases h
  · cases h

end PerfFieldFormat

namespace PerfEventFormat

variable {build : Build} {longIs64Bits : Bool}

/-- The names of the fields can be sliced. -/
def NamesReturn (properties : FileProperties) : Prop :=
  ∀ field ∈ properties.fields, Returns field.name fun _ ↦ True

theorem applyLine_namesReturn {properties next : FileProperties} {line : Bool × List UInt8}
    (hproperties : NamesReturn properties) (hline : IsUtf8 line.2)
    (h : applyLine build longIs64Bits properties line = .ok next) : NamesReturn next := by
  obtain ⟨parsed, hparsed, h⟩ := bind_eq_ok.mp h
  cases parsed with
  | none =>
    rw [← Except.ok.inj h]
    exact hproperties
  | some made =>
    have hname := PerfFieldFormat.name_returns_of_parse hline hparsed
    have hpushed : ∀ field ∈ properties.fields ++ [made], Returns field.name fun _ ↦ True := by
      intro field hfield
      rcases List.mem_append.mp hfield with hold | hnew
      · exact hproperties field hold
      · rw [List.mem_singleton.mp hnew]
        exact hname
    dsimp only at h
    unfold pushField at h
    split_ifs at h
    · obtain ⟨count, -, h⟩ := bind_eq_ok.mp h
      rw [← Except.ok.inj h]
      exact hpushed
    · rw [← Except.ok.inj h]
      exact hpushed

theorem applyEntry_namesReturn {properties next : FileProperties} {entry : FileEntry}
    (hproperties : NamesReturn properties) (hlines : ∀ line ∈ entry.lines, IsUtf8 line.2)
    (h : applyEntry build longIs64Bits properties entry = .ok next) : NamesReturn next := by
  unfold applyEntry at h
  split_ifs at h
  · rw [← Except.ok.inj h]
    exact hproperties
  · obtain ⟨_, -, h⟩ := bind_eq_ok.mp h
    rw [← Except.ok.inj h]
    exact hproperties
  · rw [← Except.ok.inj h]
    exact hproperties
  · have hempty : NamesReturn { properties with fields := [] } :=
      fun field hfield ↦ absurd hfield List.not_mem_nil
    exact (@foldlM_eq_ok _ _ _ (applyLine build longIs64Bits) (fun (_ : Unit) _ ↦ ())
      (fun _ properties ↦ NamesReturn properties) (fun line ↦ IsUtf8 line.2) (fun _ ↦ True)
      (fun _ _ _ _ hproperties hline hnext ↦
        ⟨trivial, applyLine_namesReturn hproperties hline hnext⟩)
      _ () _ _ hempty hlines h).2
  · rw [← Except.ok.inj h]
    exact hproperties

/-- What a parsed format has: its common fields are among its fields, whose names can be sliced. -/
theorem parse_fields {systemName text : List UInt8} {format : PerfEventFormat} (htext : IsUtf8 text)
    (h : parse build longIs64Bits systemName text = .ok (some format)) :
    format.commonFieldCount ≤ format.fields.length ∧
      ∀ field ∈ format.fields, Returns field.name fun _ ↦ True := by
  obtain ⟨properties, hlines, h⟩ := bind_eq_ok.mp h
  rw [propertyLines_eq build longIs64Bits _ (Nat.lt_succ_self _)] at hlines
  have hnames : NamesReturn properties :=
    (@foldlM_eq_ok _ _ _ (applyEntry build longIs64Bits) (fun (_ : Unit) _ ↦ ())
      (fun _ properties ↦ NamesReturn properties) (fun entry ↦ ∀ line ∈ entry.lines, IsUtf8 line.2)
      (fun _ ↦ True) (fun _ _ _ _ hproperties hentry hnext ↦
        ⟨trivial, applyEntry_namesReturn hproperties hentry hnext⟩)
      _ () _ _ (fun field hfield ↦ absurd hfield List.not_mem_nil)
      (fun entry hentry ↦ (fileEntries_utf8 _ htext entry hentry).2) hlines).2
  split at h
  · split_ifs at h
    · obtain ⟨size, hsize, h⟩ := bind_eq_ok.mp h
      obtain ⟨style, -, h⟩ := bind_eq_ok.mp h
      rw [← Option.some.inj (Except.ok.inj h)]
      refine ⟨?_, hnames⟩
      dsimp only
      unfold commonSize at hsize
      split_ifs at hsize with hzero
      · omega
      · split at hsize
        · next field hfield =>
          have hlt := (List.getElem?_eq_some_iff.mp hfield).1
          omega
        · cases hsize
    · cases h
  · cases h

end PerfEventFormat

namespace ReaderState

variable {build : Build} {state : ReaderState} {order : ByteOrder} {data : List UInt8}

theorem commonType_returns {count : ℕ} {fields : List PerfFieldFormat} (hcount : count ≤ fields.length)
    (hnames : ∀ field ∈ fields, Returns field.name fun _ ↦ True) :
    Returns (commonType count fields) fun _ ↦ True := by
  induction count generalizing fields with
  | zero => exact .ok trivial
  | succ count ih =>
    cases fields with
    | nil => exact absurd hcount (Nat.not_succ_le_zero count)
    | cons field fields =>
      rw [List.forall_mem_cons] at hnames
      unfold commonType
      refine hnames.1.bind fun name _ ↦ .ite (fun _ ↦ ?_) fun _ ↦ ?_
      · exact .ite (fun _ ↦ .ok trivial) fun _ ↦ .ok trivial
      · exact ih (Nat.le_of_succ_le_succ hcount) hnames.2

/-- A parsed format is added without a panic. -/
theorem addFormat_returns {longIs64Bits : Bool} {systemName text : List UInt8}
    {format : PerfEventFormat} (htext : IsUtf8 text)
    (h : PerfEventFormat.parse build longIs64Bits systemName text = .ok (some format)) :
    Returns (addFormat state format) fun next ↦
      next.tracingDataLongSize = state.tracingDataLongSize := by
  obtain ⟨hcount, hnames⟩ := PerfEventFormat.parse_fields htext h
  have hadded : Returns (addFormat state format) fun _ ↦ True := by
    unfold addFormat
    refine (commonType_returns hcount hnames).bind fun common _ ↦ ?_
    cases common with
    | none => exact .ok trivial
    | some place =>
      dsimp only
      refine .ite (fun _ ↦ .ok trivial) fun _ ↦ ?_
      exact .ite (fun _ ↦ .ok trivial) fun _ ↦ .ok trivial
  obtain ⟨next, hnext, -⟩ := hadded
  exact ⟨next, hnext, addFormat_longSize hnext⟩

/-! ### The format files of a block -/

/-- A format file in a block of tracing data, with what else it is parsed with. -/
structure TracingText where
  longIs64Bits : Bool
  system : List UInt8
  text : List UInt8
  deriving DecidableEq, Repr

/-- `PerfEventFormat::parse` does not panic at a format file. -/
def TracingText.Parses (build : Build) (file : TracingText) : Prop :=
  ∃ format, PerfEventFormat.parse build file.longIs64Bits file.system file.text = .ok format

/-- The range of a section with its size in front; it ends at 0 where there is none. -/
def sectionRange (width : ℕ) (order : ByteOrder) (data : List UInt8) (pos : ℕ) : ByteRange :=
  let size := order.ofBytes ((data.drop pos).take width)
  if data.length < pos + width ∨ data.length < pos + width + size then ⟨0, 0⟩
  else ⟨pos + width, pos + width + size⟩

/-- The range of a section with a name in front of its size. -/
def namedRange (order : ByteOrder) (data : List UInt8) (pos : ℕ) (name : List UInt8) : ByteRange :=
  if data.length < pos + name.length ∨ (data.drop pos).take name.length ≠ name then ⟨pos, pos⟩
  else sectionRange 8 order data (pos + name.length)

/-- The format files of the events of a system, and where they end. -/
def eventTexts (order : ByteOrder) (data : List UInt8) (longIs64Bits : Bool) (system : List UInt8) :
    ℕ → ℕ → List TracingText × Option ℕ
  | 0, pos => ([], some pos)
  | count + 1, pos =>
    let range := sectionRange 8 order data pos
    if range.stop = 0 then ([], none)
    else
      let (texts, stop) := eventTexts order data longIs64Bits system count range.stop
      (⟨longIs64Bits, system,
        fromLatin1 ((data.drop range.start).take (range.stop - range.start))⟩ :: texts, stop)

/-- The format files of systems. -/
def systemTexts (order : ByteOrder) (data : List UInt8) (longIs64Bits : Bool) :
    ℕ → ℕ → List TracingText
  | 0, _ => []
  | count + 1, pos =>
    match readSz data pos with
    | none => []
    | some system =>
      let pos := pos + system.length + 1
      if data.length < pos + 4 then []
      else
        let eventCount := order.ofBytes ((data.drop pos).take 4)
        match eventTexts order data longIs64Bits (fromLatin1 system) eventCount (pos + 4) with
        | (texts, none) => texts
        | (texts, some stop) => texts ++ systemTexts order data longIs64Bits count stop

/-- Where the ftraces end. -/
def ftracesEnd (order : ByteOrder) (data : List UInt8) : ℕ → ℕ → Option ℕ
  | 0, pos => some pos
  | count + 1, pos =>
    let range := sectionRange 8 order data pos
    if range.stop = 0 then none else ftracesEnd order data count range.stop

/-- The format files of a block of tracing data, up to where it is not as expected. -/
def tracingTexts (data : List UInt8) : List TracingText :=
  if data.take tracingSignature.length ≠ tracingSignature then []
  else
    match readSz data tracingSignature.length with
    | none => []
    | some version =>
      let pos := tracingSignature.length + version.length + 1
      if data.length < pos + 6 then []
      else
        let order : ByteOrder := if data.getD pos 0 ≠ 0 then .big else .little
        let longIs64Bits := (data.getD (pos + 1) 0).toNat ≠ 4
        let headerPage := namedRange order data (pos + 6) (ascii "header_page" ++ [0])
        let headerEvent := namedRange order data headerPage.stop (ascii "header_event" ++ [0])
        if headerPage.stop = 0 ∨ headerEvent.stop = 0 ∨ data.length < headerEvent.stop + 4 then []
        else
          let ftraceCount := order.ofBytes ((data.drop headerEvent.stop).take 4)
          let pos := headerEvent.stop + 4
          if (data.length - pos) % 2 ^ 32 / 8 < ftraceCount then []
          else
            match ftracesEnd order data ftraceCount pos with
            | none => []
            | some pos =>
              if data.length < pos + 4 then []
              else
                systemTexts order data longIs64Bits (order.ofBytes ((data.drop pos).take 4)) (pos + 4)

/-! ### The parser on a block -/

theorem sectionRange_le (width : ℕ) (order : ByteOrder) (data : List UInt8) (pos : ℕ) :
    (sectionRange width order data pos).start ≤ (sectionRange width order data pos).stop ∧
      (sectionRange width order data pos).stop ≤ data.length := by
  unfold sectionRange
  dsimp only
  split_ifs with h
  · exact ⟨le_rfl, Nat.zero_le _⟩
  · rw [not_or, not_lt, not_lt] at h
    exact ⟨Nat.le_add_right _ _, h.2⟩

theorem readSection_eq (build : Build) (width : ℕ) {pos : ℕ} (hpos : pos ≤ data.length) :
    readSection build width order data pos = .ok (sectionRange width order data pos) := by
  unfold readSection sectionRange
  rw [debugAssert_of hpos, ok_bind, sub_of_le hpos, ok_bind]
  dsimp only
  by_cases hwidth : data.length < pos + width
  · rw [if_pos (by omega), if_pos (.inl hwidth)]
  · rw [if_neg (by omega), readUInt_of_le (by omega), ok_bind, sub_of_le (by omega), ok_bind]
    by_cases hsize : data.length < pos + width + order.ofBytes ((data.drop pos).take width)
    · rw [if_pos (by omega), if_pos (.inr hsize)]
    · rw [if_neg (by omega), if_neg (not_or.mpr ⟨hwidth, hsize⟩)]

theorem namedRange_le {pos : ℕ} (hpos : pos ≤ data.length) (name : List UInt8) :
    (namedRange order data pos name).stop ≤ data.length := by
  unfold namedRange
  split_ifs
  · exact hpos
  · exact (sectionRange_le _ _ _ _).2

theorem readNamedSection64_eq (build : Build) {pos : ℕ} (hpos : pos ≤ data.length)
    (name : List UInt8) :
    readNamedSection64 build order data pos name = .ok (namedRange order data pos name) := by
  unfold readNamedSection64 namedRange
  rw [debugAssert_of hpos, ok_bind, sub_of_le hpos, ok_bind]
  by_cases hname : data.length < pos + name.length ∨ (data.drop pos).take name.length ≠ name
  · rw [if_pos (hname.imp (fun h ↦ by omega) id), if_pos hname]
  · rw [if_neg (fun h ↦ hname (h.imp (fun h ↦ by omega) id)), if_neg hname]
    rw [not_or, not_lt] at hname
    exact readSection_eq build 8 hname.1

theorem expectSized_eq (build : Build) (width : ℕ) {pos : ℕ} (hpos : pos ≤ data.length) :
    expectSized build width order data pos state =
      .ok (if (sectionRange width order data pos).stop = 0 then .error ()
        else .ok (sectionRange width order data pos), state) := by
  unfold expectSized expectSection
  rw [Act.bind_of_ok (Act.compute_ok (readSection_eq build width hpos))]
  by_cases hstop : (sectionRange width order data pos).stop = 0
  · rw [if_pos hstop, if_pos hstop, Act.bind_of_early rfl]
  · rw [if_neg hstop, if_neg hstop]
    rfl

theorem expectU32_eq {pos : ℕ} (hpos : pos ≤ data.length) :
    expectU32 order data pos state =
      .ok (if data.length < pos + 4 then .error ()
        else .ok (order.ofBytes ((data.drop pos).take 4)), state) := by
  unfold expectU32
  rw [Act.bind_of_ok (Act.compute_ok (sub_of_le hpos))]
  by_cases hroom : data.length < pos + 4
  · rw [if_pos (by omega), if_pos hroom]
    rfl
  · rw [if_neg (by omega), if_neg hroom]
    exact Act.compute_ok (readUInt_of_le (by omega))

/-- The text and its NUL lie inside the data. -/
theorem readSz_behind {pos : ℕ} {text : List UInt8} (h : readSz data pos = some text) :
    pos + text.length + 1 ≤ data.length := by
  unfold readSz at h
  split_ifs at h with hmem
  rw [← Option.some.inj h]
  have hlt : ((data.drop pos).takeWhile (· ≠ 0)).length < (data.drop pos).length := by
    refine lt_of_le_of_ne ( List.takeWhile_prefix _).length_le fun heq ↦ ?_
    have hwhole := ( List.takeWhile_prefix _).eq_of_length heq
    have hzero := List.takeWhile_eq_self_iff.mp hwhole 0 hmem
    exact absurd hzero (by decide)
  rw [List.length_drop] at hlt
  omega

/-- The result of a loop where it does not panic: it ends at a position, or leaves. -/
def loopResult (stop : Option ℕ) (state : ReaderState) : Exec (Except Unit ℕ × ReaderState) :=
  .ok (stop.elim (.error ()) .ok, state)

theorem ftracesLoop_eq (build : Build) (count : ℕ) {pos : ℕ} (hpos : pos ≤ data.length) :
    ∃ next, ftracesLoop build order data count pos state =
        loopResult (ftracesEnd order data count pos) next ∧
      next.tracingDataLongSize = state.tracingDataLongSize ∧
      ∀ stop, ftracesEnd order data count pos = some stop → stop ≤ data.length := by
  induction count generalizing pos state with
  | zero => exact ⟨state, rfl, rfl, fun stop hstop ↦ Option.some.inj hstop ▸ hpos⟩
  | succ count ih =>
    have hexpect := @expectSized_eq state order data build 8 pos hpos
    have hle := (sectionRange_le 8 order data pos).2
    unfold ftracesLoop ftracesEnd
    dsimp only
    by_cases hstop : (sectionRange 8 order data pos).stop = 0
    · rw [if_pos hstop] at hexpect
      rw [if_pos hstop, Act.bind_of_early hexpect]
      exact ⟨state, rfl, rfl, fun _ hstop ↦ by cases hstop⟩
    · rw [if_neg hstop] at hexpect
      rw [if_neg hstop, Act.bind_of_ok hexpect, Act.update_bind]
      obtain ⟨next, hnext, hsame, hend⟩ := @ih _ _ hle
      exact ⟨next, hnext, hsame, hend⟩

/-- The events of a system: the loop returns exactly where their format files are parsed. -/
theorem eventsLoop_eq (build : Build) {longIs64Bits : Bool} {system : List UInt8} (count : ℕ)
    {pos : ℕ} (hpos : pos ≤ data.length)
    (hlong : decide (state.tracingDataLongSize ≠ 4) = longIs64Bits) :
    ((∀ file ∈ (eventTexts order data longIs64Bits system count pos).1, file.Parses build) →
      ∃ next, eventsLoop build order data system count pos state =
          loopResult (eventTexts order data longIs64Bits system count pos).2 next ∧
        next.tracingDataLongSize = state.tracingDataLongSize) ∧
    (¬(∀ file ∈ (eventTexts order data longIs64Bits system count pos).1, file.Parses build) →
      ∃ fault, eventsLoop build order data system count pos state = .error fault) ∧
    ∀ stop, (eventTexts order data longIs64Bits system count pos).2 = some stop →
      stop ≤ data.length := by
  induction count generalizing pos state with
  | zero =>
    refine ⟨fun _ ↦ ⟨state, rfl, rfl⟩, fun h ↦ absurd (fun file hfile ↦ ?_) h,
      fun stop hstop ↦ Option.some.inj hstop ▸ hpos⟩
    exact absurd hfile List.not_mem_nil
  | succ count ih =>
    have hexpect := @expectSized_eq state order data build 8 pos hpos
    obtain ⟨hstart, hle⟩ := sectionRange_le 8 order data pos
    unfold eventsLoop eventTexts
    dsimp only
    by_cases hstop : (sectionRange 8 order data pos).stop = 0
    · rw [if_pos hstop] at hexpect
      rw [if_pos hstop, Act.bind_of_early hexpect]
      refine ⟨fun _ ↦ ⟨state, rfl, rfl⟩, fun h ↦ absurd (fun file hfile ↦ ?_) h,
        fun _ hstop ↦ by cases hstop⟩
      exact absurd hfile List.not_mem_nil
    rw [if_neg hstop] at hexpect
    rw [if_neg hstop, Act.bind_of_ok hexpect,
      Act.bind_of_ok (Act.compute_ok (slice_of_le hstart hle)), Act.read_bind, hlong]
    set text := (data.drop (sectionRange 8 order data pos).start).take
      ((sectionRange 8 order data pos).stop - (sectionRange 8 order data pos).start) with htext
    dsimp only
    rw [List.forall_mem_cons]
    by_cases hparses : TracingText.Parses build ⟨longIs64Bits, system, fromLatin1 text⟩
    swap
    · obtain ⟨fault, hfault⟩ : ∃ fault, PerfEventFormat.parse build longIs64Bits system
          (fromLatin1 text) = .error fault := by
        cases hparse : PerfEventFormat.parse build longIs64Bits system (fromLatin1 text) with
        | error fault => exact ⟨fault, rfl⟩
        | ok format => exact absurd ⟨format, hparse⟩ hparses
      rw [Act.bind_of_fault (Act.compute_fault hfault)]
      exact ⟨fun h ↦ absurd h.1 hparses, fun _ ↦ ⟨fault, rfl⟩, (@ih state _ hle hlong).2.2⟩
    obtain ⟨format, hformat⟩ := hparses
    have hparses : TracingText.Parses build ⟨longIs64Bits, system, fromLatin1 text⟩ :=
      ⟨format, hformat⟩
    rw [Act.bind_of_ok (Act.compute_ok hformat)]
    cases format with
    | none =>
      obtain ⟨hgood, hbad, hend⟩ := @ih state _ hle hlong
      exact ⟨fun h ↦ hgood h.2, fun h ↦ hbad fun hrest ↦ h ⟨hparses, hrest⟩, hend⟩
    | some format =>
      obtain ⟨next, hadd, hsame⟩ := @addFormat_returns build state _ _ _ _ (isUtf8_fromLatin1 _) hformat
      obtain ⟨hgood, hbad, hend⟩ := @ih next _ hle (by rw [hsame]; exact hlong)
      dsimp only
      rw [Act.bind_of_ok (Act.updateM_ok hadd)]
      refine ⟨fun h ↦ ?_, fun h ↦ hbad fun hrest ↦ h ⟨hparses, hrest⟩, hend⟩
      obtain ⟨last, hlast, hkept⟩ := hgood h.2
      exact ⟨last, hlast, hkept.trans hsame⟩

/-- The systems: the loop returns exactly where their format files are parsed. -/
theorem systemsLoop_eq (build : Build) {longIs64Bits : Bool} (count : ℕ) {pos : ℕ}
    (hpos : pos ≤ data.length) (hlong : decide (state.tracingDataLongSize ≠ 4) = longIs64Bits) :
    ((∀ file ∈ systemTexts order data longIs64Bits count pos, file.Parses build) →
      ∃ stop next, systemsLoop build order data count pos state = loopResult stop next ∧
        ∀ pos ∈ stop, pos ≤ data.length) ∧
    (¬(∀ file ∈ systemTexts order data longIs64Bits count pos, file.Parses build) →
      ∃ fault, systemsLoop build order data count pos state = .error fault) := by
  induction count generalizing pos state with
  | zero =>
    refine ⟨fun _ ↦ ⟨some pos, state, rfl, fun stop hstop ↦ Option.some.inj hstop ▸ hpos⟩,
      fun h ↦ absurd (fun file hfile ↦ ?_) h⟩
    exact absurd hfile List.not_mem_nil
  | succ count ih =>
    unfold systemsLoop systemTexts expectSz
    cases hsystem : readSz data pos with
    | none =>
      dsimp only
      rw [Act.bind_of_early rfl]
      refine ⟨fun _ ↦ ⟨none, state, rfl, fun _ hnone ↦ absurd hnone (Option.not_mem_none _)⟩,
        fun h ↦ absurd (fun file hfile ↦ ?_) h⟩
      exact absurd hfile List.not_mem_nil
    | some system =>
      have hbehind := readSz_behind hsystem
      dsimp only
      rw [Act.done_bind]
      have hexpect := @expectU32_eq state order data _ hbehind
      by_cases hroom : data.length < pos + system.length + 1 + 4
      · rw [if_pos hroom] at hexpect
        rw [if_pos hroom, Act.bind_of_early hexpect]
        refine ⟨fun _ ↦ ⟨none, state, rfl, fun _ hnone ↦ absurd hnone (Option.not_mem_none _)⟩,
        fun h ↦ absurd (fun file hfile ↦ ?_) h⟩
        exact absurd hfile List.not_mem_nil
      rw [if_neg hroom] at hexpect
      rw [if_neg hroom, Act.bind_of_ok hexpect]
      obtain ⟨hgood, hbad, hend⟩ := @eventsLoop_eq state order data build longIs64Bits
        (fromLatin1 system) (order.ofBytes ((data.drop (pos + system.length + 1)).take 4))
        (pos + system.length + 1 + 4) (not_lt.mp hroom) hlong
      rcases hevents : eventTexts order data longIs64Bits (fromLatin1 system)
          (order.ofBytes ((data.drop (pos + system.length + 1)).take 4))
          (pos + system.length + 1 + 4) with ⟨texts, _ | stop⟩
      · rw [hevents] at hgood hbad
        dsimp only at hgood hbad ⊢
        constructor
        · intro h
          obtain ⟨next, hnext, -⟩ := hgood h
          rw [Act.bind_of_early hnext]
          exact ⟨none, next, rfl, fun _ hnone ↦ absurd hnone (Option.not_mem_none _)⟩
        · intro h
          obtain ⟨fault, hfault⟩ := hbad h
          exact ⟨fault, Act.bind_of_fault hfault⟩
      · rw [hevents] at hgood hbad hend
        dsimp only at hgood hbad hend ⊢
        rw [List.forall_mem_append]
        by_cases hparses : ∀ file ∈ texts, file.Parses build
        swap
        · obtain ⟨fault, hfault⟩ := hbad hparses
          exact ⟨fun h ↦ absurd h.1 hparses, fun _ ↦ ⟨fault, Act.bind_of_fault hfault⟩⟩
        obtain ⟨next, hnext, hsame⟩ := hgood hparses
        rw [Act.bind_of_ok hnext]
        obtain ⟨hrest, hfault⟩ := @ih next stop (hend stop rfl) (by rw [hsame]; exact hlong)
        exact ⟨fun h ↦ hrest h.2, fun h ↦ hfault fun hothers ↦ h ⟨hparses, hothers⟩⟩

/-! ### The whole parser -/

theorem expectSized_ensures (build : Build) (width : ℕ) {pos : ℕ} (hpos : pos ≤ data.length) :
    Act.Ensures (fun _ ↦ True) (expectSized build width order data pos)
      fun range _ ↦ range.stop ≤ data.length := by
  intro state _
  refine ⟨_, expectSized_eq build width hpos, fun range hrange ↦ ?_⟩
  dsimp only at hrange
  split_ifs at hrange
  rw [← Except.ok.inj hrange]
  exact (sectionRange_le width order data pos).2

/-- Behind the signature the parser returns exactly where the format files are parsed. -/
theorem tracingBody_returns_iff (hsignature : data.take tracingSignature.length = tracingSignature) :
    (∃ result, tracingBody build data state = .ok result) ↔
      ∀ file ∈ tracingTexts data, file.Parses build := by
  have hleft {early : Exec (Except Unit Unit × ReaderState)} {state : ReaderState}
      (h : early = .ok (.error (), state)) :
      (∃ result, early = .ok result) ↔ ∀ file ∈ ([] : List TracingText), file.Parses build :=
    iff_of_true ⟨_, h⟩ fun _ hfile ↦ absurd hfile List.not_mem_nil
  unfold tracingBody tracingTexts expectSz
  rw [if_neg (not_not.mpr hsignature), Act.update_bind]
  cases hversion : readSz data tracingSignature.length with
  | none => exact hleft (Act.bind_of_early rfl)
  | some version =>
  have hbehind := readSz_behind hversion
  dsimp only
  rw [Act.done_bind, Act.bind_of_ok (Act.compute_ok (sub_of_le hbehind))]
  generalize tracingSignature.length + version.length + 1 = pos at hbehind ⊢
  by_cases hroom : data.length < pos + 6
  · rw [if_pos hroom, if_pos (show data.length - pos < 1 + 1 + 4 by omega)]
    exact hleft (Act.bind_of_early rfl)
  rw [if_neg hroom, if_neg (show ¬data.length - pos < 1 + 1 + 4 by omega)]
  rw [not_lt] at hroom
  rw [Act.bind_of_ok (Act.compute_ok (byteAt_getD (by omega))),
    Act.bind_of_ok (Act.compute_ok (byteAt_getD (by omega))), Act.update_bind]
  generalize horder : (if data.getD pos 0 ≠ 0 then ByteOrder.big else ByteOrder.little) = order
  rw [Act.bind_of_ok (Act.compute_ok (readUInt_of_le (by omega))), Act.update_bind,
    Act.bind_of_ok (Act.compute_ok (readNamedSection64_eq build hroom _))]
  -- The sections of the header page and the header event.
  have hpage := @namedRange_le order data (pos + 6) hroom (ascii "header_page" ++ [0])
  generalize namedRange order data (pos + 6) (ascii "header_page" ++ [0]) = headerPage at hpage ⊢
  have hevent := @namedRange_le order data headerPage.stop hpage (ascii "header_event" ++ [0])
  unfold expectSection
  by_cases hnoPage : headerPage.stop = 0
  · rw [if_pos hnoPage, if_pos (.inl hnoPage)]
    exact hleft (Act.bind_of_early rfl)
  rw [if_neg hnoPage, Act.done_bind, Act.update_bind,
    Act.bind_of_ok (Act.compute_ok (readNamedSection64_eq build hpage _))]
  generalize namedRange order data headerPage.stop (ascii "header_event" ++ [0]) = headerEvent
    at hevent ⊢
  by_cases hnoEvent : headerEvent.stop = 0
  · rw [if_pos hnoEvent, if_pos (.inr (.inl hnoEvent))]
    exact hleft (Act.bind_of_early rfl)
  rw [if_neg hnoEvent, Act.done_bind, Act.update_bind]
  -- The ftraces.
  by_cases hnoCount : data.length < headerEvent.stop + 4
  · rw [if_pos (.inr (.inr hnoCount)),
      Act.bind_of_early ((expectU32_eq hevent).trans (by rw [if_pos hnoCount]))]
    exact hleft rfl
  rw [Act.bind_of_ok ((expectU32_eq hevent).trans (by rw [if_neg hnoCount])),
    if_neg (fun h ↦ h.elim hnoPage fun h ↦ h.elim hnoEvent hnoCount)]
  rw [not_lt] at hnoCount
  rw [Act.bind_of_ok (Act.compute_ok (sub_of_le hnoCount))]
  generalize order.ofBytes ((data.drop headerEvent.stop).take 4) = ftraceCount
  by_cases htooMany : (data.length - (headerEvent.stop + 4)) % 2 ^ 32 / 8 < ftraceCount
  · rw [if_pos htooMany, if_pos htooMany]
    exact hleft (Act.bind_of_early rfl)
  rw [if_neg htooMany, if_neg htooMany]
  obtain ⟨next, hftraces, hlong, hend⟩ := ftracesLoop_eq build ftraceCount hnoCount
  cases hstop : ftracesEnd order data ftraceCount (headerEvent.stop + 4) with
  | none =>
    rw [hstop] at hftraces
    exact hleft (Act.bind_of_early hftraces)
  | some stop =>
  rw [hstop] at hftraces
  rw [Act.bind_of_ok hftraces]
  -- The systems.
  have hstop := hend stop hstop
  dsimp only
  by_cases hnoSystems : data.length < stop + 4
  · rw [if_pos hnoSystems, Act.bind_of_early ((expectU32_eq hstop).trans (by rw [if_pos hnoSystems]))]
    exact hleft rfl
  rw [if_neg hnoSystems, Act.bind_of_ok ((expectU32_eq hstop).trans (by rw [if_neg hnoSystems]))]
  have hlong := congrArg (fun size ↦ decide (size ≠ 4)) hlong
  obtain ⟨hreturns, hfaults⟩ := @systemsLoop_eq next order data build _
    (order.ofBytes ((data.drop stop).take 4)) (stop + 4) (not_lt.mp hnoSystems) hlong
  by_cases hparses : ∀ file ∈ systemTexts order data (decide ((data.getD (pos + 1) 0).toNat ≠ 4))
      (order.ofBytes ((data.drop stop).take 4)) (stop + 4), file.Parses build
  swap
  · obtain ⟨fault, hfault⟩ := hfaults hparses
    refine iff_of_false (fun h ↦ ?_) hparses
    obtain ⟨result, hresult⟩ := h
    rw [Act.bind_of_fault hfault] at hresult
    cases hresult
  refine iff_of_true ?_ hparses
  obtain ⟨_ | stop, last, hsystems, hbound⟩ := hreturns hparses
  · exact ⟨_, Act.bind_of_early hsystems⟩
  -- The sections behind the systems make the parser leave at most.
  rw [Act.bind_of_ok hsystems, Act.update_bind]
  suffices htail : Act.Ensures (fun _ ↦ True) _ fun _ _ ↦ True from
    (htail _ trivial).imp fun result h ↦ h.1
  have hstop : stop ≤ data.length := hbound stop rfl
  have hupdate (change : ReaderState → ReaderState) : Act.Ensures (fun _ ↦ True)
      (Act.update change : TracingParser Unit) fun _ _ ↦ True := .update fun _ _ ↦ trivial
  refine .bind (expectSized_ensures build 4 hstop) fun kallsyms ↦ ?_
  refine .weaken (fun _ hkallsyms ↦ ⟨trivial, hkallsyms⟩) (.of_pure fun hkallsyms ↦ ?_)
  refine .bind (hupdate _) fun _ ↦ ?_
  refine .bind (expectSized_ensures build 4 hkallsyms) fun printk ↦ ?_
  refine .weaken (fun _ hprintk ↦ ⟨trivial, hprintk⟩) (.of_pure fun hprintk ↦ ?_)
  refine .bind (hupdate _) fun _ ↦ ?_
  refine .ite (fun _ ↦ ?_) fun _ ↦ .done fun _ _ ↦ trivial
  exact .bind (expectSized_ensures build 8 hprintk) fun _ ↦ .update fun _ _ ↦ trivial

/-- Parsing tracing data returns exactly where each format file of the block, up to where the block is
not as expected, is one that `PerfEventFormat::parse` does not panic at. -/
theorem parseTracingData_returns_iff :
    (∃ next, state.parseTracingData build = .ok next) ↔
      ∀ file ∈ tracingTexts (state.header PerfHeaderIndex.tracingData), file.Parses build := by
  unfold parseTracingData
  dsimp only
  by_cases hsignature : (state.header PerfHeaderIndex.tracingData).take tracingSignature.length =
      tracingSignature
  · rw [if_neg (not_not.mpr hsignature), ← @tracingBody_returns_iff build state _ hsignature]
    constructor
    · rintro ⟨next, hnext⟩
      obtain ⟨result, hresult, -⟩ := bind_eq_ok.mp hnext
      exact ⟨result, hresult⟩
    · rintro ⟨⟨outcome, next⟩, hnext⟩
      exact ⟨next, by rw [hnext, ok_bind]⟩
  · unfold tracingTexts
    rw [if_pos hsignature, if_pos hsignature]
    exact iff_of_true ⟨state, rfl⟩ fun _ hfile ↦ absurd hfile List.not_mem_nil

end ReaderState

end Tracepoints
