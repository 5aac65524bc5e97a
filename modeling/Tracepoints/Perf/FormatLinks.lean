import Tracepoints.Perf.Handle

/-!
# Formats and descriptions

A description gets its format in two places: `add_attr` looks the format up among those that are
known, and `parse_tracing_data` gives formats to the descriptions that were there before. Both lead to
one state, `ReaderAttrs.linked`: the descriptions of the attributes alone, with the last usable format
of the tracing data for each (`receive_linked`, `tracingBody_linked`). So it does not matter where the
tracing data arrives between the attributes.

A `ReaderOp` is what a reader does to its parsed part with one piece of a file, and `Receipt` what it
receives by that: attributes, or a block of tracing data that it parses.
-/

set_option autoImplicit false
set_option relaxedAutoImplicit false

namespace Tracepoints

open Exec

/-! ### Attributes -/

/-- What `add_attr` is given, decoded. -/
structure AttrRecord where
  attr : PerfEventAttr
  name : List UInt8
  ids : List UInt64
  deriving DecidableEq, Repr

namespace ReaderAttrs

variable {build : Build} {attrs : ReaderAttrs}

/-- The record in the bytes of an attribute and of its ids. -/
def record (build : Build) (byteReader : ByteOrder) (attrBytes name idsBytes : List UInt8) :
    AttrRecord :=
  ⟨readAttr build byteReader attrBytes, name, readIds byteReader idsBytes⟩

/-- `add_attr` of a record. -/
def receive (attrs : ReaderAttrs) (record : AttrRecord) : ReaderAttrs :=
  match agreeOffsets attrs.offsets (.ofAttr record.attr) with
  | (false, offsets) => { attrs with offsets }
  | (true, offsets) =>
    { attrs with
      offsets
      eventDescList := attrs.eventDescList ++
        [.new record.attr (fromLatin1 record.name) (attrs.formatOf record.attr) record.ids]
      eventDescIdToIndex :=
        insertIds attrs.eventDescIdToIndex record.ids attrs.eventDescList.length }

/-- Records one behind the other. -/
def receiveAll (attrs : ReaderAttrs) (records : List AttrRecord) : ReaderAttrs :=
  records.foldl receive attrs

theorem addAttr_eq_receive {byteReader : ByteOrder} {attrBytes name idsBytes : List UInt8}
    (h : attrBytes.length ≤ PerfEventAttr.byteSize) :
    addAttr build byteReader attrBytes name idsBytes attrs =
      .ok (attrs.receive (record build byteReader attrBytes name idsBytes)) := by
  unfold addAttr receive record
  rw [if_neg (not_lt.mpr h)]
  dsimp only
  generalize agreeOffsets attrs.offsets _ = agreed
  obtain ⟨_ | _, offsets⟩ := agreed
  · rfl
  · rfl

theorem receive_of_addAttr {byteReader : ByteOrder} {attrBytes name idsBytes : List UInt8}
    {next : ReaderAttrs} (h : addAttr build byteReader attrBytes name idsBytes attrs = .ok next) :
    next = attrs.receive (record build byteReader attrBytes name idsBytes) := by
  by_cases hlong : PerfEventAttr.byteSize < attrBytes.length
  · unfold addAttr at h
    rw [if_pos hlong] at h
    cases h
  · rw [addAttr_eq_receive (not_lt.mp hlong)] at h
    exact (Except.ok.inj h).symm

/-! ### Linked descriptions -/

/-- The format of an attribute: the last one with the id in its configuration, for a tracepoint. -/
def linkFormat (formats : List PerfEventFormat) (attr : PerfEventAttr) : Option PerfEventFormat :=
  if attr.attrType ≠ PerfEventAttrType.tracepoint then none
  else formats.reverse.find? fun format ↦ format.id = attr.config.toNat % 2 ^ 32

/-- The description with its format, if there is one for it. -/
def linkDesc (formats : List PerfEventFormat) (desc : PerfEventDesc) : PerfEventDesc :=
  match linkFormat formats desc.attr with
  | some format => desc.setFormat format
  | none => desc

/-- The map of formats that were inserted one behind the other. -/
def formatMap (formats : List PerfEventFormat) : List (ℕ × PerfEventFormat) :=
  formats.reverse.map fun format ↦ (format.id, format)

/-- The attributes with formats. -/
def linked (formats : List PerfEventFormat) (attrs : ReaderAttrs) : ReaderAttrs :=
  { attrs with
    formatById := formatMap formats
    eventDescList := attrs.eventDescList.map (linkDesc formats) }

/-- No format is known. -/
structure Unlinked (attrs : ReaderAttrs) : Prop where
  formatById : attrs.formatById = []
  descs : ∀ desc ∈ attrs.eventDescList, desc.format = none

theorem lookup_formatMap (formats : List PerfEventFormat) (id : ℕ) :
    (formatMap formats).lookup id = formats.reverse.find? fun format ↦ format.id = id := by
  unfold formatMap
  induction formats.reverse with
  | nil => rfl
  | cons format formats ih =>
    rw [List.map_cons, List.lookup_cons, List.find?_cons, ih]
    by_cases hid : format.id = id
    · simp [hid]
    · have hne : (id == format.id) = false := beq_false_of_ne (Ne.symm hid)
      simp [hid, hne]

theorem formatOf_formatMap {formats : List PerfEventFormat}
    (h : attrs.formatById = formatMap formats) (attr : PerfEventAttr) :
    attrs.formatOf attr = linkFormat formats attr := by
  unfold formatOf linkFormat
  rw [h, lookup_formatMap]

theorem formatOf_none (h : attrs.formatById = []) (attr : PerfEventAttr) :
    attrs.formatOf attr = none := by
  unfold formatOf
  rw [h]
  split_ifs <;> rfl

/-- A description that is made with its format is the one that gets it later. -/
theorem linkDesc_new (formats : List PerfEventFormat) (attr : PerfEventAttr) (name : List UInt8)
    (ids : List UInt64) :
    linkDesc formats (.new attr name none ids) = .new attr name (linkFormat formats attr) ids := by
  unfold linkDesc
  rw [show (PerfEventDesc.new attr name none ids).attr = attr from rfl]
  cases linkFormat formats attr with
  | none => rfl
  | some format => rfl

/-- Adding an attribute and giving formats to the descriptions, in either order. -/
theorem receive_linked (formats : List PerfEventFormat) (hattrs : attrs.formatById = [])
    (record : AttrRecord) :
    (attrs.linked formats).receive record = (attrs.receive record).linked formats := by
  unfold receive
  rw [show (attrs.linked formats).offsets = attrs.offsets from rfl]
  generalize agreeOffsets attrs.offsets _ = agreed
  obtain ⟨_ | _, offsets⟩ := agreed
  · rfl
  · rw [formatOf_none hattrs, formatOf_formatMap rfl]
    unfold linked
    dsimp only
    rw [List.map_append, List.map_singleton, linkDesc_new, List.length_map]

theorem Unlinked.receive (h : attrs.Unlinked) (record : AttrRecord) :
    (attrs.receive record).Unlinked := by
  unfold ReaderAttrs.receive
  split
  · exact ⟨h.formatById, h.descs⟩
  · refine ⟨h.formatById, fun desc hdesc ↦ ?_⟩
    rw [formatOf_none h.formatById] at hdesc
    rcases List.mem_append.mp hdesc with hold | hnew
    · exact h.descs desc hold
    · rw [List.mem_singleton.mp hnew]
      rfl

theorem Unlinked.receiveAll (h : attrs.Unlinked) (records : List AttrRecord) :
    (attrs.receiveAll records).Unlinked := by
  induction records generalizing attrs with
  | nil => exact h
  | cons record records ih => exact ih (h.receive record)

theorem receiveAll_linked (formats : List PerfEventFormat) (h : attrs.Unlinked)
    (records : List AttrRecord) :
    (attrs.linked formats).receiveAll records = (attrs.receiveAll records).linked formats := by
  induction records generalizing attrs with
  | nil => rfl
  | cons record records ih =>
    show ((attrs.linked formats).receive record).receiveAll records = _
    rw [receive_linked formats h.formatById]
    exact ih (h.receive record)

theorem receiveAll_append (attrs : ReaderAttrs) (first second : List AttrRecord) :
    attrs.receiveAll (first ++ second) = (attrs.receiveAll first).receiveAll second :=
  List.foldl_append

theorem setFormat_format (desc : PerfEventDesc) (format : PerfEventFormat) :
    (desc.setFormat format).format = some format ∧ (desc.setFormat format).attr = desc.attr := by
  unfold PerfEventDesc.setFormat PerfEventDesc.updateName
  dsimp only
  split_ifs
  · exact ⟨rfl, rfl⟩
  · exact ⟨rfl, rfl⟩

/-- The formats of linked descriptions. -/
theorem Unlinked.linked_format (h : attrs.Unlinked) (formats : List PerfEventFormat)
    {desc : PerfEventDesc} (hdesc : desc ∈ (attrs.linked formats).eventDescList) :
    desc.format = linkFormat formats desc.attr := by
  obtain ⟨plain, hplain, rfl⟩ := List.mem_map.mp hdesc
  unfold linkDesc
  cases hformat : linkFormat formats plain.attr with
  | none =>
    dsimp only
    rw [hformat]
    exact h.descs plain hplain
  | some format =>
    dsimp only
    obtain ⟨heq, hattr⟩ := setFormat_format plain format
    rw [heq, hattr, hformat]

end ReaderAttrs

/-! ### The formats of a block of tracing data -/

namespace ReaderState

variable {build : Build} {state next : ReaderState}

/-- The place of the `common_type` field of a format, if it is usable. -/
def commonTypeOf (format : PerfEventFormat) : Option (ℤ × ℕ) :=
  match commonType format.commonFieldCount format.fields with
  | .ok common => common
  | .error _ => none

/-- The usable formats: those with the place of `common_type` that is found first. -/
def usableFormats (formats : List PerfEventFormat) : List PerfEventFormat :=
  match formats.findSome? commonTypeOf with
  | some common => formats.filter fun format ↦ commonTypeOf format = some common
  | none => []

/-- The formats of the events of a system in their order, and where they end. -/
def eventFormats (build : Build) (order : ByteOrder) (data : List UInt8) (longSize64 : Bool)
    (systemName : List UInt8) : ℕ → ℕ → Exec (List PerfEventFormat × ℕ)
  | 0, pos => .ok ([], pos)
  | count + 1, pos => do
    let range ← readSection build 8 order data pos
    let bytes ← slice data range.start range.stop
    let format ← PerfEventFormat.parse build longSize64 systemName (fromLatin1 bytes)
    let (formats, pos) ← eventFormats build order data longSize64 systemName count range.stop
    .ok (format.toList ++ formats, pos)

/-- The formats of the systems in their order, and where they end. -/
def systemFormats (build : Build) (order : ByteOrder) (data : List UInt8) (longSize64 : Bool) :
    ℕ → ℕ → Exec (List PerfEventFormat × ℕ)
  | 0, pos => .ok ([], pos)
  | count + 1, pos => do
    let system := (data.drop pos).takeWhile (· ≠ 0)
    let pos := pos + system.length + 1
    let eventCount ← readUInt order 4 data pos
    let (formats, pos) ←
      eventFormats build order data longSize64 (fromLatin1 system) eventCount (pos + 4)
    let (rest, pos) ← systemFormats build order data longSize64 count pos
    .ok (formats ++ rest, pos)

/-- Where the ftraces end. -/
def skipFtraces (build : Build) (order : ByteOrder) (data : List UInt8) : ℕ → ℕ → Exec ℕ
  | 0, pos => .ok pos
  | count + 1, pos => do
    let range ← readSection build 8 order data pos
    skipFtraces build order data count range.stop

/-- The formats of a block of tracing data that is well formed, in their order. -/
def blockFormats (build : Build) (data : List UInt8) : Exec (List PerfEventFormat) := do
  let version := (data.drop tracingSignature.length).takeWhile (· ≠ 0)
  let pos := tracingSignature.length + version.length + 1
  let bigEndian ← byteAt data pos
  let order : ByteOrder := if bigEndian ≠ 0 then .big else .little
  let longSize ← byteAt data (pos + 1)
  let headerPage ← readNamedSection64 build order data (pos + 6) (ascii "header_page" ++ [0])
  let headerEvent ← readNamedSection64 build order data headerPage.stop
    (ascii "header_event" ++ [0])
  let ftraceCount ← readUInt order 4 data headerEvent.stop
  let pos ← skipFtraces build order data ftraceCount (headerEvent.stop + 4)
  let systemCount ← readUInt order 4 data pos
  let (formats, _) ← systemFormats build order data (longSize.toNat ≠ 4) systemCount (pos + 4)
  .ok formats

/-! ### What the parser does with formats -/

/-- The parts of the state that the formats are kept in. -/
structure FormatPart where
  attrs : ReaderAttrs
  commonTypeSize : ℕ
  commonTypeOffset : ℤ
  longSize : ℕ

/-- The parts of a state. -/
def formatPart (state : ReaderState) : FormatPart :=
  ⟨state.attrs, state.commonTypeSize, state.commonTypeOffset, state.tracingDataLongSize⟩

/-- The effect of parsed formats, one behind the other. -/
def addFormats : List PerfEventFormat → ReaderState → Exec ReaderState
  | [], state => .ok state
  | format :: formats, state => do
    let state ← addFormat state format
    addFormats formats state

theorem addFormats_append (first second : List PerfEventFormat) (state : ReaderState) :
    addFormats (first ++ second) state = (do
      let mid ← addFormats first state
      addFormats second mid) := by
  induction first generalizing state with
  | nil => rfl
  | cons format first ih =>
    rw [List.cons_append, addFormats, addFormats]
    cases addFormat state format with
    | error fault => rfl
    | ok mid => exact ih mid

theorem addFormat_longSize {format : PerfEventFormat} (h : addFormat state format = .ok next) :
    next.tracingDataLongSize = state.tracingDataLongSize := by
  unfold addFormat at h
  obtain ⟨common, _, h⟩ := bind_eq_ok.1 h
  cases common with
  | none =>
    obtain rfl := Except.ok.inj h
    rfl
  | some place =>
    dsimp only at h
    split_ifs at h
    · obtain rfl := Except.ok.inj h
      rfl
    · obtain rfl := Except.ok.inj h
      rfl
    · obtain rfl := Except.ok.inj h
      rfl

theorem addFormats_longSize {formats : List PerfEventFormat}
    (h : addFormats formats state = .ok next) :
    next.tracingDataLongSize = state.tracingDataLongSize := by
  induction formats generalizing state with
  | nil =>
    obtain rfl := Except.ok.inj h
    rfl
  | cons format formats ih =>
    obtain ⟨mid, hmid, hrest⟩ := bind_eq_ok.1 h
    exact (ih hrest).trans (addFormat_longSize hmid)

theorem commonTypeOf_eq {format : PerfEventFormat} {common : Option (ℤ × ℕ)}
    (h : commonType format.commonFieldCount format.fields = .ok common) :
    commonTypeOf format = common := by
  unfold commonTypeOf
  rw [h]

/-- A place of `common_type` is not the value that stands for none. -/
theorem commonType_set {count : ℕ} {fields : List PerfFieldFormat} {offset : ℤ} {size : ℕ}
    (h : commonType count fields = .ok (some (offset, size))) :
    offset ≠ EventOffsets.offsetUnset := by
  induction count generalizing fields with
  | zero => cases h
  | succ count ih =>
    cases fields with
    | nil => cases h
    | cons field fields =>
      unfold commonType at h
      obtain ⟨name, _, h⟩ := bind_eq_ok.1 h
      split_ifs at h with hname husable
      · obtain ⟨rfl, _⟩ := Prod.mk.inj (Option.some.inj (Except.ok.inj h))
        unfold EventOffsets.offsetUnset
        omega
      · cases Except.ok.inj h
      · exact ih h

/-- The state with other formats. -/
def withFormats (state : ReaderState) (formatById : List (ℕ × PerfEventFormat)) : ReaderState :=
  { state with attrs := { state.attrs with formatById := formatById } }

/-- A format where the place of `common_type` is known. -/
theorem addFormat_known {format : PerfEventFormat} {offset : ℤ} {size : ℕ}
    (hoffset : state.commonTypeOffset = offset) (hsize : state.commonTypeSize = size)
    (hset : offset ≠ EventOffsets.offsetUnset) (h : addFormat state format = .ok next) :
    next = if commonTypeOf format = some (offset, size) then
      state.withFormats ((format.id, format) :: state.attrs.formatById) else state := by
  subst hoffset hsize
  unfold addFormat at h
  obtain ⟨common, hcommon, h⟩ := bind_eq_ok.1 h
  rw [commonTypeOf_eq hcommon]
  cases common with
  | none =>
    rw [if_neg nofun]
    exact (Except.ok.inj h).symm
  | some place =>
    obtain ⟨offset', size'⟩ := place
    dsimp only at h
    rw [if_neg hset] at h
    by_cases hsame : state.commonTypeOffset ≠ offset' ∨ state.commonTypeSize ≠ size'
    · rw [if_pos hsame] at h
      rw [if_neg]
      · exact (Except.ok.inj h).symm
      · intro heq
        obtain ⟨hoffset, hsize⟩ := Prod.mk.inj (Option.some.inj heq)
        exact hsame.elim (absurd hoffset.symm) (absurd hsize.symm)
    · rw [if_neg hsame] at h
      push Not at hsame
      rw [if_pos (by rw [hsame.1, hsame.2])]
      exact (Except.ok.inj h).symm

theorem formatMap_cons (format : PerfEventFormat) (formats : List PerfEventFormat) :
    ReaderAttrs.formatMap (format :: formats) =
      ReaderAttrs.formatMap formats ++ [(format.id, format)] := by
  unfold ReaderAttrs.formatMap
  rw [List.reverse_cons, List.map_append, List.map_singleton]

/-- Formats where the place of `common_type` is known. -/
theorem addFormats_known {formats : List PerfEventFormat} {offset : ℤ} {size : ℕ}
    (hoffset : state.commonTypeOffset = offset) (hsize : state.commonTypeSize = size)
    (hset : offset ≠ EventOffsets.offsetUnset) (h : addFormats formats state = .ok next) :
    next = state.withFormats (ReaderAttrs.formatMap
      (formats.filter fun format ↦ commonTypeOf format = some (offset, size)) ++
        state.attrs.formatById) := by
  induction formats generalizing state with
  | nil => exact (Except.ok.inj h).symm
  | cons format formats ih =>
    obtain ⟨mid, hmid, hrest⟩ := bind_eq_ok.1 h
    have hmid := addFormat_known hoffset hsize hset hmid
    by_cases husable : commonTypeOf format = some (offset, size)
    · rw [if_pos husable] at hmid
      subst hmid
      have hkept : (state.withFormats ((format.id, format) ::
          state.attrs.formatById)).commonTypeOffset = offset := hoffset
      have hnext := ih hkept hsize hrest
      rw [hnext, List.filter_cons_of_pos (by simpa using husable), formatMap_cons,
        List.append_assoc]
      rfl
    · rw [if_neg husable] at hmid
      subst hmid
      rw [ih hoffset hsize hrest, List.filter_cons_of_neg (by simpa using husable)]

/-- Formats in a reader that knows none. -/
theorem addFormats_unset {formats : List PerfEventFormat}
    (hunset : state.commonTypeOffset = EventOffsets.offsetUnset) (hnone : state.attrs.formatById = [])
    (h : addFormats formats state = .ok next) :
    next.attrs = { state.attrs with
      formatById := ReaderAttrs.formatMap (usableFormats formats) } := by
  induction formats with
  | nil =>
    obtain rfl := Except.ok.inj h
    rw [show ReaderAttrs.formatMap (usableFormats []) = [] from rfl, ← hnone]
  | cons format formats ih =>
    obtain ⟨mid, hmid, hrest⟩ := bind_eq_ok.1 h
    unfold addFormat at hmid
    obtain ⟨common, hcommon, hmid⟩ := bind_eq_ok.1 hmid
    have hformat := commonTypeOf_eq hcommon
    cases common with
    | none =>
      obtain rfl := Except.ok.inj hmid
      have husable : usableFormats (format :: formats) = usableFormats formats := by
        unfold usableFormats
        rw [List.findSome?_cons, hformat]
        cases formats.findSome? commonTypeOf with
        | none => rfl
        | some common =>
          dsimp only
          rw [List.filter_cons_of_neg]
          simp [hformat]
      rw [husable]
      exact ih hrest
    | some place =>
      obtain ⟨offset, size⟩ := place
      dsimp only at hmid
      rw [if_pos hunset] at hmid
      obtain rfl := Except.ok.inj hmid
      have husable : usableFormats (format :: formats) =
          format :: formats.filter fun format ↦ commonTypeOf format = some (offset, size) := by
        unfold usableFormats
        rw [List.findSome?_cons, hformat]
        dsimp only
        rw [List.filter_cons_of_pos]
        simp [hformat]
      rw [husable, formatMap_cons]
      have hnext := addFormats_known rfl rfl (commonType_set hcommon) hrest
      rw [hnext]
      dsimp only [withFormats]
      rw [hnone]

/-! ### The loops of the parser -/

section Loops

variable {order : ByteOrder} {data systemName : List UInt8}

theorem expectSection_eq_ok {range : ByteRange} {value : Unit}
    (h : expectSection range state = .ok (.ok value, next)) : state = next := by
  unfold expectSection at h
  split_ifs at h
  · cases (Prod.mk.inj (Except.ok.inj h)).1
  · exact (Prod.mk.inj (Except.ok.inj h)).2

theorem expectSized_eq_ok {size pos : ℕ} {range : ByteRange}
    (h : expectSized build size order data pos state = .ok (.ok range, next)) :
    readSection build size order data pos = .ok range ∧ state = next := by
  unfold expectSized at h
  obtain ⟨other, mid, hact, h⟩ := Act.bind_eq_ok.1 h
  obtain ⟨hread, rfl⟩ := Act.compute_eq_ok hact
  obtain ⟨_, mid, hsection, h⟩ := Act.bind_eq_ok.1 h
  obtain rfl := expectSection_eq_ok hsection
  obtain ⟨hvalue, rfl⟩ := Prod.mk.inj (Except.ok.inj h)
  obtain rfl := Except.ok.inj hvalue
  exact ⟨hread, rfl⟩

theorem expectU32_eq_ok {pos value : ℕ}
    (h : expectU32 order data pos state = .ok (.ok value, next)) :
    readUInt order 4 data pos = .ok value ∧ state = next := by
  unfold expectU32 at h
  obtain ⟨left, mid, hleft, h⟩ := Act.bind_eq_ok.1 h
  obtain ⟨_, rfl⟩ := Act.compute_eq_ok hleft
  split_ifs at h
  · cases (Prod.mk.inj (Except.ok.inj h)).1
  · exact Act.compute_eq_ok h

theorem expectSz_eq_ok {pos : ℕ} {text : List UInt8}
    (h : expectSz data pos state = .ok (.ok text, next)) :
    text = (data.drop pos).takeWhile (· ≠ 0) ∧ state = next := by
  unfold expectSz readSz at h
  by_cases hzero : 0 ∈ data.drop pos
  · rw [if_pos hzero] at h
    obtain ⟨hvalue, hstate⟩ := Prod.mk.inj (Except.ok.inj h)
    exact ⟨(Except.ok.inj hvalue).symm, hstate⟩
  · rw [if_neg hzero] at h
    cases (Prod.mk.inj (Except.ok.inj h)).1

/-- The loop over the ftraces goes where they end, and touches no format. -/
theorem ftracesLoop_eq_ok {count pos last : ℕ}
    (h : ftracesLoop build order data count pos state = .ok (.ok last, next)) :
    skipFtraces build order data count pos = .ok last ∧ next.formatPart = state.formatPart := by
  induction count generalizing pos state with
  | zero =>
    obtain ⟨hvalue, rfl⟩ := Prod.mk.inj (Except.ok.inj h)
    obtain rfl := Except.ok.inj hvalue
    exact ⟨rfl, rfl⟩
  | succ count ih =>
    rw [ftracesLoop] at h
    obtain ⟨range, mid, hact, h⟩ := Act.bind_eq_ok.1 h
    obtain ⟨hrange, rfl⟩ := expectSized_eq_ok hact
    rw [Act.update_bind] at h
    obtain ⟨hskip, hpart⟩ := ih h
    refine ⟨?_, hpart⟩
    rw [skipFtraces, hrange, ok_bind]
    exact hskip

/-- The loop over the events of a system adds their formats. -/
theorem eventsLoop_eq_ok {count pos last : ℕ}
    (h : eventsLoop build order data systemName count pos state = .ok (.ok last, next)) :
    ∃ formats, eventFormats build order data (state.tracingDataLongSize ≠ 4) systemName count pos =
        .ok (formats, last) ∧ addFormats formats state = .ok next := by
  induction count generalizing pos state with
  | zero =>
    obtain ⟨hvalue, rfl⟩ := Prod.mk.inj (Except.ok.inj h)
    obtain rfl := Except.ok.inj hvalue
    exact ⟨[], rfl, rfl⟩
  | succ count ih =>
    rw [eventsLoop] at h
    obtain ⟨range, mid, hact, h⟩ := Act.bind_eq_ok.1 h
    obtain ⟨hrange, rfl⟩ := expectSized_eq_ok hact
    obtain ⟨bytes, mid, hact, h⟩ := Act.bind_eq_ok.1 h
    obtain ⟨hbytes, rfl⟩ := Act.compute_eq_ok hact
    rw [Act.read_bind] at h
    obtain ⟨format, mid, hact, h⟩ := Act.bind_eq_ok.1 h
    obtain ⟨hformat, rfl⟩ := Act.compute_eq_ok hact
    cases format with
    | none =>
      obtain ⟨formats, hformats, hadds⟩ := ih h
      refine ⟨formats, ?_, hadds⟩
      rw [eventFormats, hrange, ok_bind, hbytes, ok_bind, hformat, ok_bind, hformats, ok_bind]
      rfl
    | some format =>
      obtain ⟨_, mid', hact, h⟩ := Act.bind_eq_ok.1 h
      have hadd : addFormat state format = .ok mid' := Act.updateM_eq_ok hact
      obtain ⟨formats, hformats, hadds⟩ := ih h
      rw [addFormat_longSize hadd] at hformats
      refine ⟨format :: formats, ?_, ?_⟩
      · rw [eventFormats, hrange, ok_bind, hbytes, ok_bind, hformat, ok_bind, hformats, ok_bind]
        rfl
      · rw [addFormats, hadd, ok_bind]
        exact hadds

/-- The loop over the systems adds the formats of their events. -/
theorem systemsLoop_eq_ok {count pos last : ℕ}
    (h : systemsLoop build order data count pos state = .ok (.ok last, next)) :
    ∃ formats, systemFormats build order data (state.tracingDataLongSize ≠ 4) count pos =
        .ok (formats, last) ∧ addFormats formats state = .ok next := by
  induction count generalizing pos state with
  | zero =>
    obtain ⟨hvalue, rfl⟩ := Prod.mk.inj (Except.ok.inj h)
    obtain rfl := Except.ok.inj hvalue
    exact ⟨[], rfl, rfl⟩
  | succ count ih =>
    rw [systemsLoop] at h
    obtain ⟨system, mid, hsystem, h⟩ := Act.bind_eq_ok.1 h
    obtain ⟨rfl, rfl⟩ := expectSz_eq_ok hsystem
    obtain ⟨eventCount, mid, hact, h⟩ := Act.bind_eq_ok.1 h
    obtain ⟨hcount, rfl⟩ := expectU32_eq_ok hact
    obtain ⟨middle, mid', hevents, h⟩ := Act.bind_eq_ok.1 h
    obtain ⟨formats, hformats, hadds⟩ := eventsLoop_eq_ok hevents
    obtain ⟨rest, hrest, haddsRest⟩ := ih h
    rw [addFormats_longSize hadds] at hrest
    refine ⟨formats ++ rest, ?_, ?_⟩
    · rw [systemFormats]
      dsimp only
      rw [hcount, ok_bind, hformats, ok_bind, hrest, ok_bind]
    · rw [addFormats_append, hadds, ok_bind]
      exact haddsRest

end Loops

/-! ### The parser -/

/-- Formats for descriptions that have none. -/
theorem updateFormats_linked {attrs : ReaderAttrs} (h : attrs.Unlinked)
    (formats : List PerfEventFormat) :
    updateFormats { attrs with formatById := ReaderAttrs.formatMap formats } =
      attrs.linked formats := by
  unfold updateFormats ReaderAttrs.linked
  dsimp only
  congr 1
  apply List.map_congr_left
  intro desc hdesc
  rw [h.descs desc hdesc, ReaderAttrs.formatOf_formatMap rfl]
  unfold ReaderAttrs.linkDesc
  cases ReaderAttrs.linkFormat formats desc.attr with
  | none => rfl
  | some format => rfl

/-- Assumes: tracing data that is read to its end in a reader that knows no formats. The descriptions
get the usable formats of the block. -/
theorem tracingBody_linked {data : List UInt8} (hunlinked : state.attrs.Unlinked)
    (hunset : state.commonTypeOffset = EventOffsets.offsetUnset)
    (h : tracingBody build data state = .ok (.ok (), next)) :
    ∃ formats, blockFormats build data = .ok formats ∧
      next.attrs = state.attrs.linked (usableFormats formats) := by
  unfold tracingBody at h
  rw [Act.update_bind] at h
  obtain ⟨version, mid, hact, h⟩ := Act.bind_eq_ok.1 h
  obtain ⟨rfl, rfl⟩ := expectSz_eq_ok hact
  dsimp only at h
  obtain ⟨left, mid, hact, h⟩ := Act.bind_eq_ok.1 h
  obtain ⟨_, rfl⟩ := Act.compute_eq_ok hact
  by_cases hshort : left < 1 + 1 + 4
  · rw [if_pos hshort] at h
    cases (Prod.mk.inj (Except.ok.inj h)).1
  rw [if_neg hshort] at h
  obtain ⟨bigEndian, mid, hact, h⟩ := Act.bind_eq_ok.1 h
  obtain ⟨hbigEndian, rfl⟩ := Act.compute_eq_ok hact
  obtain ⟨longSize, mid, hact, h⟩ := Act.bind_eq_ok.1 h
  obtain ⟨hlongSize, rfl⟩ := Act.compute_eq_ok hact
  rw [Act.update_bind] at h
  obtain ⟨pageSize, mid, hact, h⟩ := Act.bind_eq_ok.1 h
  obtain ⟨_, rfl⟩ := Act.compute_eq_ok hact
  rw [Act.update_bind] at h
  obtain ⟨headerPage, mid, hact, h⟩ := Act.bind_eq_ok.1 h
  obtain ⟨hheaderPage, rfl⟩ := Act.compute_eq_ok hact
  obtain ⟨_, mid, hact, h⟩ := Act.bind_eq_ok.1 h
  obtain rfl := expectSection_eq_ok hact
  rw [Act.update_bind] at h
  obtain ⟨headerEvent, mid, hact, h⟩ := Act.bind_eq_ok.1 h
  obtain ⟨hheaderEvent, rfl⟩ := Act.compute_eq_ok hact
  obtain ⟨_, mid, hact, h⟩ := Act.bind_eq_ok.1 h
  obtain rfl := expectSection_eq_ok hact
  rw [Act.update_bind] at h
  obtain ⟨ftraceCount, mid, hact, h⟩ := Act.bind_eq_ok.1 h
  obtain ⟨hftraceCount, rfl⟩ := expectU32_eq_ok hact
  obtain ⟨left', mid, hact, h⟩ := Act.bind_eq_ok.1 h
  obtain ⟨_, rfl⟩ := Act.compute_eq_ok hact
  by_cases hmany : left' % 2 ^ 32 / 8 < ftraceCount
  · rw [if_pos hmany] at h
    cases (Prod.mk.inj (Except.ok.inj h)).1
  rw [if_neg hmany] at h
  obtain ⟨ftracesEnd, ftraced, hact, h⟩ := Act.bind_eq_ok.1 h
  obtain ⟨hftraces, hpart⟩ := ftracesLoop_eq_ok hact
  obtain ⟨systemCount, mid, hact, h⟩ := Act.bind_eq_ok.1 h
  obtain ⟨hsystemCount, rfl⟩ := expectU32_eq_ok hact
  obtain ⟨systemsEnd, added, hact, h⟩ := Act.bind_eq_ok.1 h
  obtain ⟨formats, hformats, hadds⟩ := systemsLoop_eq_ok hact
  rw [Act.update_bind] at h
  -- nothing behind the systems touches the descriptions
  have hattrs : next.attrs = updateFormats added.attrs := by
    obtain ⟨kallsyms, mid, hact, h⟩ := Act.bind_eq_ok.1 h
    obtain ⟨_, rfl⟩ := expectSized_eq_ok hact
    rw [Act.update_bind] at h
    obtain ⟨printk, mid, hact, h⟩ := Act.bind_eq_ok.1 h
    obtain ⟨_, rfl⟩ := expectSized_eq_ok hact
    rw [Act.update_bind] at h
    by_cases hversion :
        versionAtLeast06 ((data.drop tracingSignature.length).takeWhile (· ≠ 0)) = true
    · rw [if_pos hversion] at h
      obtain ⟨cmdLine, mid, hact, h⟩ := Act.bind_eq_ok.1 h
      obtain ⟨_, rfl⟩ := expectSized_eq_ok hact
      rw [← (Prod.mk.inj (Except.ok.inj h)).2]
    · rw [if_neg hversion] at h
      rw [← (Prod.mk.inj (Except.ok.inj h)).2]
  obtain ⟨hftracedAttrs, _, hftracedOffset, hftracedLong⟩ := FormatPart.mk.inj hpart
  refine ⟨formats, ?_, ?_⟩
  · rw [hftracedLong] at hformats
    unfold blockFormats
    dsimp only
    rw [hbigEndian, ok_bind, hlongSize, ok_bind, hheaderPage, ok_bind, hheaderEvent, ok_bind,
      hftraceCount, ok_bind, hftraces, ok_bind, hsystemCount, ok_bind, hformats, ok_bind]
  · have hadded := addFormats_unset (hftracedOffset.trans hunset)
      ((congrArg ReaderAttrs.formatById hftracedAttrs).trans hunlinked.formatById) hadds
    rw [hattrs, hadded, hftracedAttrs]
    exact updateFormats_linked hunlinked _

end ReaderState

end Tracepoints
