import Tracepoints.Enumerator.JsonTree
import Tracepoints.Perf.Clock
import Tracepoints.Perf.EventInfo
import Tracepoints.Perf.Tokens
import Tracepoints.Provider.CommandString
import Tracepoints.Text.FixedJson

/-!
# The identity and the meta text of an event

`EventHeaderIdentityDisplay` and `EventHeaderJsonIdentityDisplay` write the names of the provider
and the event, as they are and with JSON escapes; `identity_display` and `json_identity_display`
both make the first. `EventInfoJsonMetaDisplay` and `EventHeaderJsonMetaDisplay` write members of
a JSON object, each only where an option asks for it: both go through a list of members
(`writeMembers`), and the second has the first in front.

`validateTracepointName_ok` says what the name of an accepted event is. The escaped identity stands
for the identity (`identity_escaped`), and `jsonIdentity_iff` says when what
`json_identity_display` writes does; `eventTexts_json_iff` says when all texts of an accepted event
are JSON.
-/

set_option autoImplicit false
set_option relaxedAutoImplicit false

namespace Tracepoints

open Exec
open String (utf8EncodeChar)

/-! ### Identities -/

namespace EventHeaderEventInfo

variable (build : Build) (info : EventHeaderEventInfo) (data tracepointName : List UInt8)

/-- `EventHeaderIdentityDisplay::write_to` and `EventHeaderJsonIdentityDisplay::write_to`, which
differ in the filter. -/
def writeIdentity (filter : Filter) (providerName eventName : List UInt8) : Exec (List UInt8) := do
  let provider ← filter.writeStr providerName
  let colon ← filter.writeAscii Text.colon
  let event ← writeUtf8WithLatin1FallbackTo filter eventName
  .ok (provider ++ colon ++ event)

/-- `identity_display`. -/
def identity : Exec (List UInt8) := do
  writeIdentity (writeFilter build) (← providerName tracepointName) (← info.nameBytes data)

/-- `json_identity_display`, which makes an `EventHeaderIdentityDisplay` too. -/
def jsonIdentity : Exec (List UInt8) := do
  writeIdentity (writeFilter build) (← providerName tracepointName) (← info.nameBytes data)

/-- The text of an `EventHeaderJsonIdentityDisplay` of the same names. -/
def escapedIdentity : Exec (List UInt8) := do
  writeIdentity (jsonEscapeFilter build (writeFilter build)) (← providerName tracepointName)
    (← info.nameBytes data)

end EventHeaderEventInfo

/-! ### Members -/

/-- `PerfMetaOptions`. -/
abbrev PerfMetaOptions := UInt32

namespace PerfMetaOptions

def time : PerfMetaOptions := 0x2
def cpu : PerfMetaOptions := 0x4
def pid : PerfMetaOptions := 0x8
def tid : PerfMetaOptions := 0x10
def id : PerfMetaOptions := 0x20
def version : PerfMetaOptions := 0x40
def level : PerfMetaOptions := 0x80
def keyword : PerfMetaOptions := 0x100
def opcode : PerfMetaOptions := 0x200
def tag : PerfMetaOptions := 0x400
def activity : PerfMetaOptions := 0x800
def relatedActivity : PerfMetaOptions := 0x1000
def provider : PerfMetaOptions := 0x10000
def event : PerfMetaOptions := 0x20000
def options : PerfMetaOptions := 0x40000
def flags : PerfMetaOptions := 0x80000

/-- `PerfMetaOptions::has_flag`. -/
def hasFlag (options flag : PerfMetaOptions) : Bool := options &&& flag != 0

/-- `PerfMetaOptions::and_not`. -/
def andNot (options flag : PerfMetaOptions) : PerfMetaOptions := options &&& ~~~flag

end PerfMetaOptions

namespace JsonWriter

variable (json : JsonWriter)

/-- `write_property_name_json_safe`. -/
def writePropertyNameJsonSafe (name : List UInt8) : JsonWriter :=
  { json.writeRawCommaSpace with jsonComma := false }.append (ascii "\"" ++ name ++ ascii "\":")

/-- `write_value` and `write_value_quoted`, with the text that is written. -/
def writeText (text : List UInt8) : JsonWriter :=
  { json.writeRawCommaSpace with jsonComma := true }.append text

end JsonWriter

/-- A member of the meta text: whether it is written, its name, and the text of its value. -/
structure MetaMember where
  isWritten : Bool
  name : List UInt8
  text : Exec (List UInt8)

/-- Writes members in order; whether one was written, and the writer behind them. -/
def writeMembers : List MetaMember → JsonWriter → Exec (Bool × JsonWriter)
  | [], json => .ok (false, json)
  | member :: members, json =>
    if member.isWritten then do
      let text ← member.text
      let (_, next) ← writeMembers members
        ((json.writePropertyNameJsonSafe member.name).writeText text)
      .ok (true, next)
    else writeMembers members json

/-- `write_str_with_json_escape` between quotation marks. -/
def quotedStr (build : Build) (value : List UInt8) : Exec (List UInt8) := do
  .ok (quoted (← (jsonEscapeFilter build (writeFilter build)).writeStr value))

/-! ### The members of a sample -/

/-- `EventInfoJsonMetaDisplay`. -/
structure EventInfoJsonMetaDisplay where
  sessionInfo : PerfSessionInfo
  eventDesc : PerfEventDesc
  time : ℕ
  cpu : ℕ
  pid : ℕ
  tid : ℕ
  addCommaBeforeFirstItem : Bool
  metaOptions : PerfMetaOptions
  convertOptions : PerfConvertOptions

namespace EventInfoJsonMetaDisplay

variable (build : Build) (platform : Platform) (seconds : ℕ → ℕ)
  (display : EventInfoJsonMetaDisplay)

/-- A valid time with seven digits behind the seconds. -/
def dateText (time : DateTime) (nanoseconds : ℕ) : List UInt8 :=
  paddedDecimal 4 time.year ++ ascii "-" ++ paddedDecimal 2 time.monthOfYear ++ ascii "-" ++
    paddedDecimal 2 time.dayOfMonth ++ ascii "T" ++ paddedDecimal 2 time.hour ++ ascii ":" ++
    paddedDecimal 2 time.minute ++ ascii ":" ++ paddedDecimal 2 time.second ++ ascii "." ++
    paddedDecimal 7 (nanoseconds / 100) ++ ascii "Z"

/-- The value of `time`; `seconds` gives the bits of a time in seconds. -/
def timeText : Exec (List UInt8) :=
  if display.sessionInfo.clockOffsetKnown then do
    let spec ← display.sessionInfo.timeToTimeSpec build display.time
    match platform.dateTime spec.seconds with
    | some time => .ok (quoted (dateText time spec.nanoseconds))
    | none =>
      .ok (quoted (ascii "TIME(" ++ displayInt spec.seconds ++ ascii "." ++
        paddedDecimal 9 spec.nanoseconds ++ ascii ")"))
  else
    .ok (ValueWriter.writeFloat platform display.convertOptions ValueWriter.f64
      (seconds display.time))

/-- The names of the provider and of the event. -/
def names : List UInt8 × List UInt8 :=
  let isPart (c : UInt8) : Bool := c ≠ Text.colon
  let ofName : List UInt8 × List UInt8 :=
    (display.eventDesc.name.takeWhile isPart,
      ((display.eventDesc.name.dropWhile isPart).drop 1).takeWhile isPart)
  match display.eventDesc.format with
  | some format => if display.eventDesc.name = [] then (format.systemName, format.name) else ofName
  | none => ofName

/-- The members, in order. -/
def members : List MetaMember :=
  let sampleType := display.eventDesc.attr.sampleType
  let asks := display.metaOptions.hasFlag
  [⟨hasFlag sampleType PerfEventAttrSampleType.time && asks .time, ascii "time",
      display.timeText build platform seconds⟩,
    ⟨hasFlag sampleType PerfEventAttrSampleType.cpu && asks .cpu, ascii "cpu",
      .ok (decimal display.cpu)⟩,
    ⟨hasFlag sampleType PerfEventAttrSampleType.tid && asks .pid, ascii "pid",
      .ok (decimal display.pid)⟩,
    ⟨hasFlag sampleType PerfEventAttrSampleType.tid &&
      (asks .tid && (display.pid != display.tid || !asks .pid)), ascii "tid",
      .ok (decimal display.tid)⟩,
    ⟨asks (.provider ||| .event) && (asks .provider && display.names.1 != []), ascii "provider",
      quotedStr build display.names.1⟩,
    ⟨asks (.provider ||| .event) && (asks .event && display.names.2 != []), ascii "event",
      quotedStr build display.names.2⟩]

/-- `EventInfoJsonMetaDisplay::write_to`: whether a member was written, and the text behind what is
there. -/
def writeTo (dest : List UInt8) : Exec (Bool × List UInt8) := do
  let (anyWritten, json) ← writeMembers (display.members build platform seconds)
    (.new dest display.convertOptions display.addCommaBeforeFirstItem)
  .ok (anyWritten, json.dest)

end EventInfoJsonMetaDisplay

/-- `PerfSampleEventInfo::json_meta_display`, with options. -/
def PerfSampleEventInfo.jsonMetaDisplay (info : PerfSampleEventInfo) (addComma : Bool)
    (metaOptions : PerfMetaOptions) (convertOptions : PerfConvertOptions) :
    EventInfoJsonMetaDisplay :=
  ⟨info.sessionInfo, info.eventDesc, info.time, info.cpu, info.pid, info.tid, addComma, metaOptions,
    convertOptions⟩

/-! ### The members of an event -/

/-- `EventHeaderJsonMetaDisplay`, with the name and the data of the event. -/
structure EventHeaderJsonMetaDisplay where
  tracepointName : List UInt8
  eventData : List UInt8
  ehEventInfo : EventHeaderEventInfo
  sampleEventInfo : Option PerfSampleEventInfo
  addCommaBeforeFirstItem : Bool
  metaOptions : PerfMetaOptions
  convertOptions : PerfConvertOptions

namespace EventHeaderJsonMetaDisplay

variable (build : Build) (platform : Platform) (seconds : ℕ → ℕ)
  (display : EventHeaderJsonMetaDisplay)

/-- The end of the provider name, if an option asks for it. -/
def providerNameEnd : Exec ℕ :=
  if display.metaOptions.hasFlag (.provider ||| .options) then
    match rfind Text.underscore display.tracepointName with
    | some pos => .ok pos
    | none => .error .assertion
  else .ok 0

/-- The value of `activity` or `relatedActivity`. -/
def uuidText (start : ℕ) : Exec (List UInt8) := do
  .ok (quoted (ValueWriter.writeUuid (← slice display.eventData start (start + 16))))

/-- The options of the provider: from the first capital letter on that is neither `L` nor `K`. -/
def providerOptions (nameEnd : ℕ) : List UInt8 :=
  (display.tracepointName.drop nameEnd).dropWhile EventHeaderEventInfo.isBeforeOptions

/-- The members, in order. -/
def members (nameEnd : ℕ) : List MetaMember :=
  let info := display.ehEventInfo
  let asks := display.metaOptions.hasFlag
  [⟨asks .provider, ascii "provider", do
      quotedStr build (← Text.strSlice display.tracepointName 0 nameEnd)⟩,
    ⟨asks .event, ascii "event", do
      .ok (quoted (← ValueWriter.writeWithJsonEscape build .utf8
        (← info.nameBytes display.eventData)))⟩,
    ⟨asks .id && info.header.id != 0, ascii "id", .ok (decimal info.header.id)⟩,
    ⟨asks .version && info.header.version != 0, ascii "version",
      .ok (decimal info.header.version.toNat)⟩,
    ⟨asks .level && info.header.level != 0, ascii "level", .ok (decimal info.header.level.toNat)⟩,
    ⟨asks .keyword && info.keyword != 0, ascii "keyword",
      .ok (ValueWriter.writeJsonHex display.convertOptions info.keyword)⟩,
    ⟨asks .opcode && info.header.opcode != 0, ascii "opcode",
      .ok (decimal info.header.opcode.toNat)⟩,
    ⟨asks .tag && info.header.tag != 0, ascii "tag",
      .ok (ValueWriter.writeJsonHex display.convertOptions info.header.tag)⟩,
    ⟨asks .activity && decide (16 ≤ info.activityIdLen), ascii "activity",
      display.uuidText info.activityIdStart⟩,
    ⟨asks .relatedActivity && decide (32 ≤ info.activityIdLen), ascii "relatedActivity",
      display.uuidText (info.activityIdStart + 16)⟩,
    ⟨asks .options && display.providerOptions nameEnd != [], ascii "options",
      .ok (quoted (display.providerOptions nameEnd))⟩,
    ⟨asks .flags, ascii "flags",
      .ok (ValueWriter.writeJsonHex display.convertOptions info.header.flags.toNat)⟩]

/-- `write_to` up to its own members: the members of the sample, without its names. -/
def sampleText : Exec (Bool × List UInt8) :=
  match display.sampleEventInfo with
  | some info =>
    (info.jsonMetaDisplay display.addCommaBeforeFirstItem
      (display.metaOptions.andNot (.provider ||| .event)) display.convertOptions).writeTo build
        platform seconds []
  | none => .ok (false, [])

/-- `EventHeaderJsonMetaDisplay::write_to`: whether a member was written, and the text. -/
def writeTo : Exec (Bool × List UInt8) := do
  let (anySample, dest) ← display.sampleText build platform seconds
  let nameEnd ← display.providerNameEnd
  let (anyWritten, json) ← writeMembers (display.members build nameEnd)
    (.new dest display.convertOptions (anySample || display.addCommaBeforeFirstItem))
  .ok (anySample || anyWritten, json.dest)

end EventHeaderJsonMetaDisplay

/-! ### Names of events -/

/-- A text before a `_` of it is a text. -/
theorem strSlice_before {before rest : List UInt8}
    (hname : IsUtf8 (before ++ Text.underscore :: rest)) :
    Text.strSlice (before ++ Text.underscore :: rest) 0 before.length = .ok before ∧
      IsUtf8 before := by
  have hstarts : StartsChar (Text.underscore :: rest) := startsChar_of_ascii fun byte hbyte ↦ by
    obtain rfl := Option.some.inj hbyte
    decide
  refine ⟨?_, (IsUtf8.split hname hstarts).1⟩
  obtain ⟨chars, hchars⟩ := hname
  rw [strSlice_of_starts hchars (Nat.zero_le _) (by simp) (IsUtf8.startsChar ⟨chars, hchars⟩)
    (by rw [List.drop_left]; exact hstarts)]
  rw [List.drop_zero, Nat.sub_zero, List.take_left]

/-- The provider name is what is before the last `_`. -/
theorem providerName_eq {before rest : List UInt8}
    (hname : IsUtf8 (before ++ Text.underscore :: rest)) (hnot : Text.underscore ∉ rest) :
    EventHeaderEventInfo.providerName (before ++ Text.underscore :: rest) = .ok before := by
  unfold EventHeaderEventInfo.providerName
  rw [rfind_last Text.underscore before rest hnot]
  exact (strSlice_before hname).1

/-- A byte of the attributes behind the last `_` of a tracepoint name. -/
def isAttributeByte (ch : UInt8) : Bool :=
  isAsciiDigit ch || isAsciiLowercase ch || isAsciiUppercase ch

theorem isPlainAscii_of_isAttributeByte {ch : UInt8} (h : isAttributeByte ch = true) :
    IsPlainAscii ch := by
  revert h
  cases ch with | ofBitVec bits => revert bits; decide

theorem isAttributeByte_of_attributeValuesOk {text : List UInt8}
    (h : attributeValuesOk text = true) :
    ∀ ch ∈ text, isAttributeByte ch = true := by
  induction text with
  | nil => exact fun ch hch ↦ absurd hch List.not_mem_nil
  | cons first text ih =>
    unfold attributeValuesOk at h
    split_ifs at h with hvalue
    · refine List.forall_mem_cons.mpr ⟨?_, ih h⟩
      unfold isAttributeByte
      rw [hvalue, Bool.true_or]
    · obtain ⟨hupper, hrest⟩ := Bool.and_eq_true_iff.mp h
      refine List.forall_mem_cons.mpr ⟨?_, ih hrest⟩
      unfold isAttributeByte
      rw [hupper, Bool.or_true]

theorem isAttributeByte_of_otherAttributesOk {text : List UInt8}
    (h : otherAttributesOk text = true) :
    ∀ ch ∈ text, isAttributeByte ch = true := by
  cases text with
  | nil => exact fun ch hch ↦ absurd hch List.not_mem_nil
  | cons first text =>
    obtain ⟨hupper, hrest⟩ := Bool.and_eq_true_iff.mp h
    refine List.forall_mem_cons.mpr ⟨?_, isAttributeByte_of_attributeValuesOk hrest⟩
    unfold isAttributeByte
    rw [hupper, Bool.or_true]

/-- The digits that are read as a number in base 16. -/
theorem lowercaseHexLoop_digits (text : List UInt8) (val pos : ℕ) :
    ∃ digits rest, text = digits ++ rest ∧
      (lowercaseHexLoop text val pos).2 = pos + digits.length ∧
      ∀ ch ∈ digits, isAttributeByte ch = true := by
  induction text generalizing val pos with
  | nil => exact ⟨[], [], rfl, rfl, fun ch hch ↦ absurd hch List.not_mem_nil⟩
  | cons first text ih =>
    unfold lowercaseHexLoop
    split_ifs with hdigit hletter
    · obtain ⟨digits, rest, rfl, hpos, hdigits⟩ :=
        ih (val * 16 % 2 ^ 64 + (first.toNat - 48)) (pos + 1)
      refine ⟨first :: digits, rest, rfl, by rw [hpos, List.length_cons]; omega, ?_⟩
      refine List.forall_mem_cons.mpr ⟨?_, hdigits⟩
      unfold isAttributeByte
      rw [hdigit]
      rfl
    · obtain ⟨digits, rest, rfl, hpos, hdigits⟩ :=
        ih (val * 16 % 2 ^ 64 + (first.toNat - 97 + 10)) (pos + 1)
      refine ⟨first :: digits, rest, rfl, by rw [hpos, List.length_cons]; omega, ?_⟩
      refine List.forall_mem_cons.mpr ⟨?_, hdigits⟩
      clear ih hpos hdigit
      revert hletter
      cases first with | ofBitVec bits => revert bits; decide
    · exact ⟨[], first :: text, rfl, rfl, fun ch hch ↦ absurd hch List.not_mem_nil⟩

/-- The search for the attributes finds the last `_`. -/
theorem findAttributes_eq_some {name : List UInt8} {count behind : ℕ} (hcount : count ≤ name.length)
    (h : findAttributes name count = .ok (some behind)) :
    ∃ before rest, name.take count = before ++ 95 :: rest ∧ 95 ∉ rest ∧
      behind = before.length + 1 := by
  induction count with
  | zero => cases h
  | succ count ih =>
    unfold findAttributes at h
    rw [byteAt_of_lt (by omega), ok_bind] at h
    rw [← List.take_append_getElem (by omega)]
    split_ifs at h with hch
    · obtain rfl := Option.some.inj (Except.ok.inj h)
      refine ⟨name.take count, [], by rw [hch], List.not_mem_nil, ?_⟩
      rw [List.length_take, Nat.min_eq_left (by omega)]
    · obtain ⟨before, rest, htake, hnot, hbehind⟩ := ih (by omega) h
      refine ⟨before, rest ++ [name[count]], by rw [htake, List.append_assoc, List.cons_append], ?_,
        hbehind⟩
      rw [List.mem_append, not_or, List.mem_singleton]
      exact ⟨hnot, fun heq ↦ hch heq.symm⟩

theorem drop_of_byteAt {text : List UInt8} {pos : ℕ} {byte : UInt8}
    (h : byteAt text pos = .ok byte) : text.drop pos = byte :: text.drop (pos + 1) := by
  unfold byteAt at h
  cases hget : text[pos]? with
  | none =>
    rw [hget] at h
    cases h
  | some found =>
    rw [hget] at h
    obtain rfl := Except.ok.inj h
    obtain ⟨hlt, rfl⟩ := List.getElem?_eq_some_iff.mp hget
    exact List.drop_eq_getElem_cons hlt

/-- The digits of an attribute, and what is behind them. -/
theorem lowercaseHexLoop_behind (name : List UInt8) (pos : ℕ) :
    ∃ digits, name.drop pos = digits ++ name.drop (lowercaseHexLoop (name.drop pos) 0 pos).2 ∧
      ∀ ch ∈ digits, isAttributeByte ch = true := by
  obtain ⟨digits, rest, hsplit, hpos, hdigits⟩ := lowercaseHexLoop_digits (name.drop pos) 0 pos
  refine ⟨digits, ?_, hdigits⟩
  rw [hpos, ← List.drop_drop, hsplit, List.drop_left]

/-- A check that a name passes was not left. -/
theorem of_check {p : Prop} [Decidable p] {rest : Exec (Bool × Option ℕ)} {keyword : Option ℕ}
    (h : (if p then .ok (false, none) else rest) = .ok (true, keyword)) :
    ¬p ∧ rest = .ok (true, keyword) := by
  split_ifs at h with hp
  · cases h
  · exact ⟨hp, h⟩

/-- Behind the last `_` of a name that passes the check are letters and digits. -/
theorem validateTracepointName_ok {name : List UInt8} {level : UInt8} {keyword : Option ℕ}
    (h : validateTracepointName name level = .ok (true, keyword)) :
    ∃ before rest, name = before ++ 95 :: rest ∧ 95 ∉ rest ∧
      ∀ ch ∈ rest, isAttributeByte ch = true := by
  unfold validateTracepointName at h
  obtain ⟨found, hfind, h⟩ := bind_eq_ok.mp h
  cases found with
  | none => cases h
  | some attribPos =>
    obtain ⟨before, rest, hname, hnot, rfl⟩ := findAttributes_eq_some le_rfl hfind
    rw [List.take_length] at hname
    have hrest : name.drop (before.length + 1) = rest := by
      rw [hname, List.drop_length_add_append, List.drop_one, List.tail_cons]
    refine ⟨before, rest, hname, hnot, ?_⟩
    obtain ⟨-, h⟩ := of_check h
    obtain ⟨mark, hmark, h⟩ := bind_eq_ok.mp h
    obtain ⟨hlevel, h⟩ := of_check h
    obtain ⟨-, h⟩ := of_check h
    obtain ⟨-, h⟩ := of_check h
    obtain ⟨second, hsecond, h⟩ := bind_eq_ok.mp h
    obtain ⟨hkeyword, h⟩ := of_check h
    have hothers := congrArg Prod.fst (Except.ok.inj h)
    obtain ⟨first, hfirst, hfirstOk⟩ := lowercaseHexLoop_behind name (before.length + 1 + 1)
    obtain ⟨more, hmore, hmoreOk⟩ := lowercaseHexLoop_behind name
      ((lowercaseHexLoop (name.drop (before.length + 1 + 1)) 0 (before.length + 1 + 1)).2 + 1)
    rw [← hrest, drop_of_byteAt hmark, hfirst, drop_of_byteAt hsecond, hmore,
      not_not.mp hlevel, not_not.mp hkeyword]
    intro ch hch
    rcases List.mem_cons.mp hch with rfl | hch
    · decide
    rcases List.mem_append.mp hch with hch | hch
    · exact hfirstOk ch hch
    rcases List.mem_cons.mp hch with rfl | hch
    · decide
    rcases List.mem_append.mp hch with hch | hch
    · exact hmoreOk ch hch
    · exact isAttributeByte_of_otherAttributesOk hothers ch hch

/-! ### Bytes that are not escaped -/

theorem isPlainChar_iff (c : Char) : IsPlainChar c ↔ ∀ byte ∈ utf8EncodeChar c, IsPlain byte := by
  refine ⟨fun h byte hbyte ↦ isPlain_of_mem h hbyte, fun h ↦ ?_⟩
  by_cases hascii : c.toNat < 0x80
  · rw [utf8EncodeChar_ascii hascii] at h
    obtain ⟨hge, hquote, hbackslash⟩ := h _ (List.mem_singleton_self _)
    have hvalue : (UInt8.ofNat c.toNat).toNat = c.toNat := Nat.mod_eq_of_lt (by omega)
    refine ⟨?_, ?_, ?_⟩
    · rw [UInt8.le_iff_toNat_le, hvalue] at hge
      exact hge
    · rintro rfl
      exact hquote rfl
    · rintro rfl
      exact hbackslash rfl
  · refine ⟨by omega, ?_, ?_⟩
    · rintro rfl
      exact hascii (by decide)
    · rintro rfl
      exact hascii (by decide)

theorem isPlainChar_ofNat (byte : UInt8) : IsPlainChar (Char.ofNat byte.toNat) ↔ IsPlain byte := by
  cases byte with | ofBitVec bits => revert bits; decide

/-- The characters of a text have to be escaped where its bytes have to. -/
theorem FallbackText.plain_iff {bytes : List UInt8} {chars : List Char}
    (h : FallbackText bytes chars) :
    (∀ c ∈ chars, IsPlainChar c) ↔ ∀ byte ∈ bytes, IsPlain byte := by
  induction h with
  | nil =>
    constructor
    · exact fun _ _ hbyte ↦ absurd hbyte List.not_mem_nil
    · exact fun _ _ hc ↦ absurd hc List.not_mem_nil
  | scalar _ _ ih => rw [List.forall_mem_cons, List.forall_mem_append, isPlainChar_iff, ih]
  | latin1 _ _ ih => rw [List.forall_mem_cons, List.forall_mem_cons, isPlainChar_ofNat, ih]

/-! ### Identities that are JSON -/

section Identity

variable {build : Build} {info : EventHeaderEventInfo} {data name : List UInt8}

theorem writeIdentity_eq {filter : Filter} {mapped : Char → List Char} (hmaps : filter.Maps mapped)
    (hkeep : ∀ c : Char, 0x80 ≤ c.toNat → mapped c = [c]) (provider : List Char)
    {eventName : List UInt8} {event : List Char} (hevent : FallbackText eventName event) :
    EventHeaderEventInfo.writeIdentity filter (utf8 provider) eventName =
      .ok (utf8 ((provider ++ ':' :: event).flatMap mapped)) := by
  have hcolon : filter.writeAscii Text.colon = .ok (utf8 (mapped ':')) :=
    hmaps.ascii ':' (by decide)
  unfold EventHeaderEventInfo.writeIdentity
  rw [hmaps.str, ok_bind, hcolon, ok_bind, writeUtf8WithLatin1FallbackTo_eq hmaps hkeep hevent,
    ok_bind, List.flatMap_append, List.flatMap_cons, utf8_append, utf8_append, List.append_assoc]

/-- The identity of an event whose provider name is a text. -/
theorem identity_eq {provider event : List Char} {eventName : List UInt8}
    (hprovider : EventHeaderEventInfo.providerName name = .ok (utf8 provider))
    (hevent : info.nameBytes data = .ok eventName) (htext : FallbackText eventName event) :
    info.identity build data name = .ok (utf8 (provider ++ ':' :: event)) := by
  have hplain := writeIdentity_eq (writeFilter_maps build) (fun _ _ ↦ rfl) provider htext
  rw [List.flatMap_singleton'] at hplain
  unfold EventHeaderEventInfo.identity
  rw [hprovider, ok_bind, hevent, ok_bind, hplain]

/-- The escaped identity is the body of a JSON string that stands for the identity. -/
theorem identity_escaped {provider event : List Char} {eventName : List UInt8}
    (hprovider : EventHeaderEventInfo.providerName name = .ok (utf8 provider))
    (hevent : info.nameBytes data = .ok eventName) (htext : FallbackText eventName event) :
    ∃ body, info.escapedIdentity build data name = .ok (utf8 body) ∧
      JsonDecodes body (provider ++ ':' :: event) := by
  have hescaped := writeIdentity_eq (@jsonFilter_maps build _ (writeFilter_maps build) false)
    (fun _ ↦ jsonFilterChar_of_le false) provider htext
  rw [funext jsonFilterChar_false] at hescaped
  refine ⟨_, ?_, jsonDecodes_jsonEscapeAll (provider ++ ':' :: event)⟩
  unfold EventHeaderEventInfo.escapedIdentity
  rw [hprovider, ok_bind, hevent, ok_bind]
  exact hescaped

/-- What `json_identity_display` writes stands for the identity exactly where no byte of the names
has to be escaped. -/
theorem jsonIdentity_iff {provider eventName : List UInt8} (hutf8 : IsUtf8 provider)
    (hprovider : EventHeaderEventInfo.providerName name = .ok provider)
    (hevent : info.nameBytes data = .ok eventName) :
    (∃ text body, info.identity build data name = .ok (utf8 text) ∧
      info.jsonIdentity build data name = .ok (utf8 body) ∧ JsonDecodes body text) ↔
      (∀ byte ∈ provider, IsPlain byte) ∧ ∀ byte ∈ eventName, IsPlain byte := by
  obtain ⟨chars, rfl⟩ := hutf8
  obtain ⟨event, htext⟩ := FallbackText.exists_chars eventName
  have hidentity := @identity_eq build info data name chars event eventName hprovider hevent htext
  have hsame : info.jsonIdentity build data name = info.identity build data name := rfl
  have hcolon : IsPlainChar ':' := by decide
  have hplain : (∀ c ∈ chars ++ ':' :: event, IsPlainChar c) ↔
      (∀ byte ∈ utf8 chars, IsPlain byte) ∧ ∀ byte ∈ eventName, IsPlain byte := by
    rw [List.forall_mem_append, List.forall_mem_cons, (FallbackText.utf8 chars).plain_iff,
      htext.plain_iff, and_iff_right hcolon]
  rw [← hplain, hsame]
  constructor
  · rintro ⟨text, body, htextEq, hbody, hdecodes⟩
    obtain rfl := utf8_injective (Except.ok.inj (hbody.symm.trans htextEq))
    obtain rfl := utf8_injective (Except.ok.inj (hbody.symm.trans hidentity))
    exact hdecodes.plain_of_self
  · intro hchars
    exact ⟨_, _, hidentity, hidentity, .of_plain hchars⟩

end Identity

/-! ### The text of members -/

namespace JsonWriter

/-- A member with a plain name, behind what is there. -/
theorem writeMember_text {name text : List UInt8} (hname : IsPlainText name)
    (htext : JsonScalar text) (json : JsonWriter) :
    ∃ body, ((json.writePropertyNameJsonSafe name).writeText text).dest =
        json.dest ++ json.commaText ++ body ∧
      ItemText JsonScalar false (name, .leaf text) body := by
  have hnone : IsWhitespace [] := fun byte hbyte ↦ absurd hbyte List.not_mem_nil
  have hspaces := jsonText_spaces (.leaf htext) (json.writePropertyNameJsonSafe name)
  refine ⟨_, ?_, MemberText.mk json.isWhitespace_spaceText
    (.of_plain fun c hc ↦ (hname c hc).1) hnone hspaces⟩
  have hquote : ascii "\"" = [0x22] := by decide
  have hcolon : ascii "\":" = [0x22, 0x3A] := by decide
  have hfirst : json.writePropertyNameJsonSafe name =
      ⟨json.dest ++ json.commaText ++ json.spaceText ++ ([0x22] ++ name ++ [0x22, 0x3A]),
        json.options, false, json.options.hasFlag .space⟩ := by
    unfold writePropertyNameJsonSafe append
    rw [writeRawCommaSpace_eq, hquote, hcolon]
  have hsecond : ((json.writePropertyNameJsonSafe name).writeText text).dest =
      (json.writePropertyNameJsonSafe name).dest ++
        (json.writePropertyNameJsonSafe name).commaText ++
          (json.writePropertyNameJsonSafe name).spaceText ++ text := by
    unfold writeText append
    rw [writeRawCommaSpace_eq]
  have hcomma : (json.writePropertyNameJsonSafe name).commaText = [] := by
    rw [hfirst]
    rfl
  rw [hsecond, hcomma, hfirst]
  simp only [List.append_assoc, List.append_nil, List.nil_append, List.cons_append]

theorem writeText_state (json : JsonWriter) (name text : List UInt8) :
    ((json.writePropertyNameJsonSafe name).writeText text).options = json.options ∧
      ((json.writePropertyNameJsonSafe name).writeText text).jsonComma = true ∧
      ((json.writePropertyNameJsonSafe name).writeText text).jsonSpace =
        json.options.hasFlag .space := by
  unfold writeText writePropertyNameJsonSafe append
  rw [writeRawCommaSpace_eq, writeRawCommaSpace_eq]
  exact ⟨rfl, rfl, rfl⟩

end JsonWriter

/-- A member has a plain name, and a value where it is written. -/
def MetaMember.Ok (member : MetaMember) : Prop :=
  IsPlainText member.name ∧
    (member.isWritten = true → ∃ text, member.text = .ok text ∧ JsonScalar text)

theorem MetaMember.Ok.of {isWritten : Bool} {name : List UInt8} {text : Exec (List UInt8)}
    (hname : IsPlainText name)
    (hvalue : isWritten = true → ∃ value, text = .ok value ∧ JsonScalar value) :
    (MetaMember.mk isWritten name text).Ok :=
  ⟨hname, hvalue⟩

/-- Members are written as members of JSON. -/
theorem writeMembers_written {members : List MetaMember} (h : ∀ member ∈ members, member.Ok)
    (json : JsonWriter) :
    ∃ written body json', writeMembers members json = .ok (!written.isEmpty, json') ∧
      JsonWriter.Written JsonScalar json false written body json' := by
  induction members generalizing json with
  | nil =>
    refine ⟨[], [], json, rfl, ?_, .nil, rfl, fun _ ↦ rfl, fun hne ↦ absurd rfl hne⟩
    rw [if_pos rfl, List.append_nil, List.append_nil]
  | cons member members ih =>
    have hmembers : ∀ member ∈ members, member.Ok :=
      fun other hother ↦ h other (List.mem_cons_of_mem _ hother)
    obtain ⟨hname, hvalue⟩ := h member List.mem_cons_self
    unfold writeMembers
    by_cases hwritten : member.isWritten = true
    · obtain ⟨text, htext, hscalar⟩ := hvalue hwritten
      obtain ⟨first, hfirst, hfirstText⟩ := JsonWriter.writeMember_text hname hscalar json
      obtain ⟨hoptions, hcomma, hspace⟩ := json.writeText_state member.name text
      obtain ⟨written, body, json', hrest, hbody⟩ := ih hmembers
        ((json.writePropertyNameJsonSafe member.name).writeText text)
      obtain ⟨whole, hwhole⟩ :=
        JsonWriter.Written.cons hfirst hfirstText hoptions hcomma hspace hbody
      refine ⟨_, whole, json', ?_, hwhole⟩
      rw [if_pos hwritten, htext, ok_bind, hrest]
      rfl
    · rw [if_neg hwritten]
      exact ih hmembers json

/-- Two sequences with a comma between them. -/
theorem Separated.append {α : Type} {itemText : α → List UInt8 → Prop} {first second : List α}
    {text rest : List UInt8} (hfirst : Separated itemText first text) (hne : first ≠ [])
    (hsecond : Separated itemText second rest) (hne' : second ≠ []) :
    Separated itemText (first ++ second) (text ++ 0x2C :: rest) := by
  induction hfirst with
  | nil => exact absurd rfl hne
  | one hitem =>
    cases second with
    | nil => exact absurd rfl hne'
    | cons next second => exact .cons hitem hsecond
  | cons hitem _ ih =>
    rw [List.append_assoc, List.cons_append]
    exact .cons hitem (ih (List.cons_ne_nil _ _))

/-! ### Values -/

theorem quotedStr_scalar (build : Build) {value : List UInt8} (hvalue : IsUtf8 value) :
    ∃ text, quotedStr build value = .ok text ∧ JsonScalar text := by
  obtain ⟨chars, rfl⟩ := hvalue
  have hescaped := (@jsonFilter_maps build _ (writeFilter_maps build) false).str chars
  rw [funext jsonFilterChar_false] at hescaped
  refine ⟨_, ?_, .string (jsonDecodes_jsonEscapeAll chars)⟩
  unfold quotedStr jsonEscapeFilter
  rw [hescaped]
  rfl

theorem writeWithJsonEscape_scalar (build : Build) (bytes : List UInt8) :
    ∃ text, ValueWriter.writeWithJsonEscape build .utf8 bytes = .ok text ∧
      JsonScalar (quoted text) := by
  obtain ⟨_, _, ⟨body, hbody, hdecodes⟩, _⟩ :=
    @textFiltered_of_ne .utf8 (fun _ h ↦ by cases h) build 0
    bytes
  exact ⟨_, hbody, .string hdecodes⟩

namespace EventInfoJsonMetaDisplay

variable {build : Build} {platform : Platform} {seconds : ℕ → ℕ}
  {display : EventInfoJsonMetaDisplay}

theorem isPlainText_dateText (time : DateTime) (nanoseconds : ℕ) :
    IsPlainText (dateText time nanoseconds) := by
  have hdash : IsPlainText (ascii "-") := by decide
  have hcolon : IsPlainText (ascii ":") := by decide
  have hmark : IsPlainText (ascii "T") := by decide
  have hpoint : IsPlainText (ascii ".") := by decide
  have hzone : IsPlainText (ascii "Z") := by decide
  have hnumber (width value : ℕ) := IsPlainText.paddedDecimal width value
  unfold dateText
  exact (((((((((((((hnumber _ _).append hdash).append (hnumber _ _)).append hdash).append
    (hnumber _ _)).append hmark).append (hnumber _ _)).append hcolon).append (hnumber _ _)).append
    hcolon).append (hnumber _ _)).append hpoint).append (hnumber _ _)).append hzone

/-- What holds of the values that a display shows: the clock of its session is within bounds, its
time is of 64 bits, and names are texts. -/
structure Shown (display : EventInfoJsonMetaDisplay) : Prop where
  clock : PerfSessionInfo.ClockBounded display.sessionInfo
  time_lt : display.time < 2 ^ 64
  name : IsUtf8 display.eventDesc.name
  format : ∀ format ∈ display.eventDesc.format, IsUtf8 format.systemName ∧ IsUtf8 format.name

theorem Shown.names (h : Shown display) : IsUtf8 display.names.1 ∧ IsUtf8 display.names.2 := by
  have hparts {bytes : List UInt8} (hbytes : IsUtf8 bytes) :=
    @IsUtf8.takeWhile (fun c ↦ decide (c ≠ Text.colon)) (fun byte hbyte ↦ by
      have heq : byte = Text.colon := by simpa using hbyte
      rw [heq]
      decide) bytes hbytes
  have hofName : IsUtf8 (display.eventDesc.name.takeWhile fun c ↦ decide (c ≠ Text.colon)) ∧
      IsUtf8 (((display.eventDesc.name.dropWhile fun c ↦ decide (c ≠ Text.colon)).drop 1).takeWhile
        fun c ↦ decide (c ≠ Text.colon)) := by
    obtain ⟨hfirst, hrest⟩ := hparts h.name
    refine ⟨hfirst, (hparts ?_).1⟩
    cases hbehind : display.eventDesc.name.dropWhile fun c ↦ decide (c ≠ Text.colon) with
    | nil => exact isUtf8_nil
    | cons byte behind =>
      rw [hbehind] at hrest
      have hcolon :=
        List.head?_dropWhile_not (fun c ↦ decide (c ≠ Text.colon)) display.eventDesc.name
      rw [hbehind] at hcolon
      have heq : byte = Text.colon := by simpa using hcolon
      exact hrest.tail (by rw [heq]; decide)
  unfold EventInfoJsonMetaDisplay.names
  cases hformat : display.eventDesc.format with
  | none => exact hofName
  | some format =>
    dsimp only
    split_ifs
    · exact h.format format hformat
    · exact hofName

/-- Assumes: finite floating-point numbers are written as numbers of JSON, and times in seconds are
finite. -/
theorem timeText_scalar (hfloats : platform.FiniteFloats)
    (hseconds : ∀ time, ValueWriter.f64.isFinite (seconds time) = true) (h : Shown display) :
    ∃ text, display.timeText build platform seconds = .ok text ∧ JsonScalar text := by
  unfold timeText
  split_ifs with hknown
  · obtain ⟨spec, hspec, -, -⟩ :=
      @PerfSessionInfo.timeToTimeSpec_of_bounded build _ h.clock _ h.time_lt
    rw [hspec, ok_bind]
    cases platform.dateTime spec.seconds with
    | some time => exact ⟨_, rfl, (isPlainText_dateText time _).scalar⟩
    | none =>
      refine ⟨_, rfl, IsPlainText.scalar ?_⟩
      have hword : IsPlainText (ascii "TIME(") := by decide
      exact (((hword.append (IsPlainText.displayInt _)).append (by decide)).append
        (IsPlainText.paddedDecimal _ _)).append (by decide)
  · refine ⟨_, rfl, ?_⟩
    have hscalar := @ValueWriter.writeJsonFloat_scalar platform display.convertOptions hfloats
      ValueWriter.f64 (by simp) (seconds display.time)
    unfold ValueWriter.writeJsonFloat at hscalar
    rwa [if_pos (hseconds _)] at hscalar

theorem members_ok (hfloats : platform.FiniteFloats)
    (hseconds : ∀ time, ValueWriter.f64.isFinite (seconds time) = true) (h : Shown display) :
    ∀ member ∈ display.members build platform seconds, member.Ok := by
  have hdecimal (value : ℕ) : ∃ text, (.ok (decimal value) : Exec (List UInt8)) = .ok text ∧
      JsonScalar text := ⟨_, rfl, .number (jsonNumber_decimal value)⟩
  obtain ⟨hprovider, hevent⟩ := h.names
  simp only [members, List.forall_mem_cons]
  exact ⟨.of (by decide) fun _ ↦ timeText_scalar hfloats hseconds h,
    .of (by decide) fun _ ↦ hdecimal _, .of (by decide) fun _ ↦ hdecimal _,
    .of (by decide) fun _ ↦ hdecimal _,
    .of (by decide) fun _ ↦ quotedStr_scalar build hprovider,
    .of (by decide) fun _ ↦ quotedStr_scalar build hevent,
    fun _ hmem ↦ absurd hmem List.not_mem_nil⟩

end EventInfoJsonMetaDisplay

namespace EventHeaderJsonMetaDisplay

variable {build : Build} {platform : Platform} {seconds : ℕ → ℕ}
  {display : EventHeaderJsonMetaDisplay}

/-- What holds of a display of an accepted event: letters and digits are behind the last `_` of its
name, and the positions are inside its data. -/
structure Accepted (display : EventHeaderJsonMetaDisplay) : Prop where
  name : IsUtf8 display.tracepointName
  attributes : ∃ before rest, display.tracepointName = before ++ 95 :: rest ∧ 95 ∉ rest ∧
    ∀ ch ∈ rest, isAttributeByte ch = true
  eventName : ∃ bytes, display.ehEventInfo.nameBytes display.eventData = .ok bytes
  activityId : display.ehEventInfo.activityIdStart + display.ehEventInfo.activityIdLen ≤
    display.eventData.length

theorem uuidText_scalar {start : ℕ} (h : start + 16 ≤ display.eventData.length) :
    ∃ text, display.uuidText start = .ok text ∧ JsonScalar text := by
  unfold uuidText
  rw [slice_of_le (by omega) h, ok_bind]
  exact ⟨_, rfl, (IsPlainText.writeUuid _).scalar⟩

/-- The end of the provider name, and what the members that use it need. -/
theorem providerNameEnd_ok (h : Accepted display) :
    ∃ nameEnd, display.providerNameEnd = .ok nameEnd ∧
      (display.metaOptions.hasFlag .provider = true →
        ∃ chars, Text.strSlice display.tracepointName 0 nameEnd = .ok (utf8 chars)) ∧
      (display.metaOptions.hasFlag .options = true →
        IsPlainText (display.providerOptions nameEnd)) := by
  obtain ⟨before, rest, hname, hnot, hrest⟩ := h.attributes
  have hpos : rfind Text.underscore display.tracepointName = some before.length := by
    rw [hname]
    exact rfind_last Text.underscore before rest hnot
  have hbefore : Text.strSlice display.tracepointName 0 before.length = .ok before ∧
      IsUtf8 before := by
    have hutf8 := h.name
    rw [hname] at hutf8 ⊢
    exact strSlice_before hutf8
  obtain ⟨hslice, chars, rfl⟩ := hbefore
  unfold providerNameEnd
  by_cases hasks : display.metaOptions.hasFlag (.provider ||| .options) = true
  · rw [if_pos hasks, hpos]
    refine ⟨_, rfl, fun _ ↦ ⟨chars, hslice⟩, fun _ ↦ ?_⟩
    intro c hc
    unfold providerOptions at hc
    rw [hname, List.drop_left, List.dropWhile_cons_of_pos (by decide)] at hc
    exact isPlainAscii_of_isAttributeByte (hrest c ((List.dropWhile_sublist _).mem hc))
  · rw [if_neg hasks]
    have hnone (flag : PerfMetaOptions)
        (hflag : flag &&& (.provider ||| .options) = flag) :
        display.metaOptions.hasFlag flag ≠ true := by
      intro hflagged
      apply hasks
      unfold PerfMetaOptions.hasFlag at hflagged ⊢
      rw [bne_iff_ne] at hflagged ⊢
      intro hzero
      apply hflagged
      rw [← hflag, UInt32.and_comm flag, ← UInt32.and_assoc, hzero, UInt32.zero_and]
    exact ⟨0, rfl, fun hflag ↦ absurd hflag (hnone _ (by decide)),
      fun hflag ↦ absurd hflag (hnone _ (by decide))⟩

theorem members_ok (h : Accepted display) {nameEnd : ℕ}
    (hprovider : display.metaOptions.hasFlag .provider = true →
      ∃ chars, Text.strSlice display.tracepointName 0 nameEnd = .ok (utf8 chars))
    (hoptions : display.metaOptions.hasFlag .options = true →
      IsPlainText (display.providerOptions nameEnd)) :
    ∀ member ∈ display.members build nameEnd, member.Ok := by
  have hdecimal (value : ℕ) : ∃ text, (.ok (decimal value) : Exec (List UInt8)) = .ok text ∧
      JsonScalar text := ⟨_, rfl, .number (jsonNumber_decimal value)⟩
  have hhex (value : ℕ) : ∃ text,
      (.ok (ValueWriter.writeJsonHex display.convertOptions value) : Exec (List UInt8)) = .ok text ∧
        JsonScalar text := ⟨_, rfl, ValueWriter.writeJsonHex_scalar value⟩
  have hactivity := h.activityId
  simp only [members, List.forall_mem_cons]
  refine ⟨.of (by decide) fun hasks ↦ ?_, .of (by decide) fun _ ↦ ?_,
    .of (by decide) fun _ ↦ hdecimal _, .of (by decide) fun _ ↦ hdecimal _,
    .of (by decide) fun _ ↦ hdecimal _, .of (by decide) fun _ ↦ hhex _,
    .of (by decide) fun _ ↦ hdecimal _, .of (by decide) fun _ ↦ hhex _,
    .of (by decide) fun hasks ↦ ?_, .of (by decide) fun hasks ↦ ?_,
    .of (by decide) fun hasks ↦ ?_, .of (by decide) fun _ ↦ hhex _,
    fun _ hmem ↦ absurd hmem List.not_mem_nil⟩
  · obtain ⟨chars, hchars⟩ := hprovider hasks
    rw [hchars, ok_bind]
    exact quotedStr_scalar build (isUtf8_utf8 chars)
  · obtain ⟨bytes, hbytes⟩ := h.eventName
    obtain ⟨text, htext, hscalar⟩ := writeWithJsonEscape_scalar build bytes
    rw [hbytes, ok_bind, htext, ok_bind]
    exact ⟨_, rfl, hscalar⟩
  · have hlen := of_decide_eq_true (Bool.and_eq_true_iff.mp hasks).2
    exact uuidText_scalar (by omega)
  · have hlen := of_decide_eq_true (Bool.and_eq_true_iff.mp hasks).2
    exact uuidText_scalar (by omega)
  · exact ⟨_, rfl, (hoptions (Bool.and_eq_true_iff.mp hasks).1).scalar⟩

/-- Members behind members, with the text that leads to them. -/
theorem written_append {options : PerfConvertOptions} {addComma : Bool}
    {first second : List (List UInt8 × Json)} {body rest : List UInt8} {json json' : JsonWriter}
    (hfirst : JsonWriter.Written JsonScalar (.new [] options addComma) false first body json)
    (hsecond : JsonWriter.Written JsonScalar
      (.new json.dest options (!first.isEmpty || addComma)) false second rest json') :
    ∃ whole, json'.dest =
        (if addComma && !(first ++ second).isEmpty then ascii "," else []) ++ whole ∧
      Separated (MemberText (JsonText JsonScalar)) (first ++ second) whole := by
  have hcomma : ascii "," = [0x2C] := by decide
  have hdest := hfirst.dest_eq
  have hdest' := hsecond.dest_eq
  have htext : Separated (MemberText (JsonText JsonScalar)) first body := hfirst.text
  have htext' : Separated (MemberText (JsonText JsonScalar)) second rest := hsecond.text
  cases first with
  | nil =>
    cases htext
    rw [if_pos rfl] at hdest
    have hnone : json.dest = [] := hdest
    rw [hnone] at hdest'
    refine ⟨rest, ?_, htext'⟩
    rw [hdest', hcomma]
    cases second with
    | nil =>
      rw [if_pos rfl]
      cases addComma <;> rfl
    | cons member second =>
      rw [if_neg (List.cons_ne_nil _ _)]
      cases addComma <;> rfl
  | cons member first =>
    rw [if_neg (List.cons_ne_nil _ _)] at hdest
    have hlead : json.dest = (if addComma then [0x2C] else []) ++ body := by
      rw [hdest]
      cases addComma <;> rfl
    have hwhole : (addComma && !(member :: first ++ second).isEmpty) = addComma := by
      cases addComma <;> rfl
    rw [hwhole, hcomma]
    cases second with
    | nil =>
      cases htext'
      rw [if_pos rfl, List.append_nil, List.append_nil] at hdest'
      refine ⟨body, ?_, by rwa [List.append_nil]⟩
      rw [hdest', ← hlead]
      rfl
    | cons next second =>
      rw [if_neg (List.cons_ne_nil _ _)] at hdest'
      refine ⟨body ++ 0x2C :: rest, ?_,
        htext.append (List.cons_ne_nil _ _) htext' (List.cons_ne_nil _ _)⟩
      rw [hdest']
      have hsame :
          (JsonWriter.new json.dest options (!(member :: first).isEmpty || addComma)).dest =
            json.dest := rfl
      have hnext : (JsonWriter.new json.dest options
          (!(member :: first).isEmpty || addComma)).commaText = [0x2C] := by
        cases addComma <;> rfl
      rw [hsame, hnext, hlead]
      simp only [List.append_assoc, List.singleton_append]

/-- The members of the sample, if there is one, are followed by those of the event. -/
theorem writeTo_written (hfloats : platform.FiniteFloats)
    (hseconds : ∀ time, ValueWriter.f64.isFinite (seconds time) = true) (h : Accepted display)
    (hsample : ∀ info ∈ display.sampleEventInfo, ∀ addComma metaOptions convertOptions,
      (info.jsonMetaDisplay addComma metaOptions convertOptions).Shown) :
    ∃ written body, display.writeTo build platform seconds =
        .ok (!written.isEmpty,
          (if display.addCommaBeforeFirstItem && !written.isEmpty then ascii "," else []) ++ body) ∧
      Separated (MemberText (JsonText JsonScalar)) written body := by
  obtain ⟨nameEnd, hnameEnd, hprovider, hoptions⟩ := providerNameEnd_ok h
  have hmembers := @members_ok build display h nameEnd hprovider hoptions
  have hfirst : ∃ first body json,
      display.sampleText build platform seconds = .ok (!first.isEmpty, json.dest) ∧
      JsonWriter.Written JsonScalar
        (.new [] display.convertOptions display.addCommaBeforeFirstItem) false first body json := by
    unfold sampleText
    cases hinfo : display.sampleEventInfo with
    | none =>
      refine ⟨[], [], .new [] display.convertOptions display.addCommaBeforeFirstItem, rfl, ?_, .nil,
        rfl, fun _ ↦ rfl, fun hne ↦ absurd rfl hne⟩
      rw [if_pos rfl, List.append_nil, List.append_nil]
    | some info =>
      have hshown := hsample info hinfo display.addCommaBeforeFirstItem
        (display.metaOptions.andNot (.provider ||| .event)) display.convertOptions
      obtain ⟨first, body, json, hwrite, hwritten⟩ := writeMembers_written
        (@EventInfoJsonMetaDisplay.members_ok build platform seconds _ hfloats hseconds hshown)
        (.new [] display.convertOptions display.addCommaBeforeFirstItem)
      refine ⟨first, body, json, ?_, hwritten⟩
      dsimp only
      unfold EventInfoJsonMetaDisplay.writeTo
      refine bind_eq_ok.mpr ⟨_, hwrite, rfl⟩
  obtain ⟨first, body, json, hsampleText, hwritten⟩ := hfirst
  obtain ⟨second, rest, json', hwrite, hwritten'⟩ := writeMembers_written hmembers
    (.new json.dest display.convertOptions (!first.isEmpty || display.addCommaBeforeFirstItem))
  obtain ⟨whole, hdest, hwhole⟩ := written_append hwritten hwritten'
  refine ⟨first ++ second, whole, ?_, hwhole⟩
  unfold writeTo
  rw [hsampleText, ok_bind]
  dsimp only
  rw [hnameEnd, ok_bind, hwrite, ok_bind, ← hdest]
  cases first <;> rfl

end EventHeaderJsonMetaDisplay

/-! ### Accepted events -/

section Accepted

open EventHeaderEnumeratorContext EventHeaderJsonMetaDisplay

variable {data name : List UInt8} {limit : ℕ} {before start : EventHeaderEnumeratorContext}

/-- The bytes of the name of an accepted event. -/
theorem accepted_nameBytes (hpositioned : Positioned data start) :
    start.eventInfo.nameBytes data = .ok ((data.drop start.metaStart).take start.eventNameLen) := by
  have hbytes : start.eventInfo.nameBytes data = .ok ((data.drop start.metaStart).take
      (start.metaStart + start.eventNameLen - start.metaStart)) :=
    slice_of_le (Nat.le_add_right _ _) (by
      have := hpositioned.eventName_lt
      have := hpositioned.metaEnd_le
      show start.metaStart + start.eventNameLen ≤ data.length
      omega)
  rwa [Nat.add_sub_cancel_left] at hbytes

/-- What is before the last `_` of a name of letters and digits behind it. -/
theorem provider_plain_iff {before rest : List UInt8}
    (hrest : ∀ ch ∈ rest, isAttributeByte ch = true) :
    (∀ byte ∈ before ++ 95 :: rest, IsPlain byte) ↔ ∀ byte ∈ before, IsPlain byte := by
  have hbehind : ∀ byte ∈ 95 :: rest, IsPlain byte :=
    List.forall_mem_cons.mpr
      ⟨by decide, fun byte hbyte ↦ (isPlainAscii_of_isAttributeByte (hrest byte hbyte)).1⟩
  rw [List.forall_mem_append, and_iff_left hbehind]

/-- Assumes: an event that is accepted, whose name is a text; a platform that writes finite numbers
as numbers of JSON; a sample with a clock within bounds, whose names are texts.

What `json_identity_display` writes is the body of a JSON string that stands for the identity, and
the meta text is an optional comma and the members of a JSON object, or nothing where there is no
member: both hold exactly where no byte of the two names has to be escaped. -/
theorem eventTexts_json_iff (build : Build) {platform : Platform} {seconds : ℕ → ℕ}
    (haccepted : enumerateWithNameAndData data before name limit = .ok (.ok (), start))
    (hname : IsUtf8 name) (hfloats : platform.FiniteFloats)
    (hseconds : ∀ time, ValueWriter.f64.isFinite (seconds time) = true)
    (sample : Option PerfSampleEventInfo)
    (hsample : ∀ info ∈ sample, ∀ addComma metaOptions convertOptions,
      (info.jsonMetaDisplay addComma metaOptions convertOptions).Shown)
    (addComma : Bool) (metaOptions : PerfMetaOptions) (convertOptions : PerfConvertOptions) :
    ((∃ text body, start.eventInfo.identity build data name = .ok (utf8 text) ∧
        start.eventInfo.jsonIdentity build data name = .ok (utf8 body) ∧ JsonDecodes body text) ∧
      ∃ members body,
        (EventHeaderJsonMetaDisplay.mk name data start.eventInfo sample addComma metaOptions
          convertOptions).writeTo build platform seconds =
            .ok (!members.isEmpty,
              (if addComma && !members.isEmpty then ascii "," else []) ++ body) ∧
          (members = [] → body = []) ∧
          JsonText JsonScalar (.object members) (0x7B :: (body ++ [0x7D]))) ↔
      (∀ byte ∈ name, IsPlain byte) ∧
        ∀ byte ∈ (data.drop start.metaStart).take start.eventNameLen, IsPlain byte := by
  have hpositioned : Positioned data start :=
    ((enumerateWithNameAndData_returns name limit).of_eq_ok haccepted rfl).1.positioned
  have hlength := hpositioned.length_ge
  obtain ⟨-, keyword, hvalid⟩ := accepted_name (List.getElem?_eq_getElem (by omega)) haccepted
  have hbytes := accepted_nameBytes hpositioned
  have hattributes := validateTracepointName_ok hvalid
  have hmeta : ∃ members body,
      (EventHeaderJsonMetaDisplay.mk name data start.eventInfo sample addComma metaOptions
        convertOptions).writeTo build platform seconds =
          .ok (!members.isEmpty,
            (if addComma && !members.isEmpty then ascii "," else []) ++ body) ∧
        (members = [] → body = []) ∧
        JsonText JsonScalar (.object members) (0x7B :: (body ++ [0x7D])) := by
    obtain ⟨members, body, hwrite, hbody⟩ := @writeTo_written build platform seconds
      (.mk name data start.eventInfo sample addComma metaOptions convertOptions) hfloats hseconds
      ⟨hname, hattributes, ⟨_, hbytes⟩, hpositioned.activityId_le⟩ hsample
    refine ⟨members, body, hwrite, ?_, ?_⟩
    · rintro rfl
      cases hbody
      rfl
    · have hobject := JsonText.object hbody fun byte (hbyte : byte ∈ []) ↦
        absurd hbyte List.not_mem_nil
      rwa [List.append_nil] at hobject
  obtain ⟨provider, rest, rfl, hnot, hrest⟩ := hattributes
  rw [and_iff_left hmeta, provider_plain_iff hrest]
  exact jsonIdentity_iff (strSlice_before hname).2 (providerName_eq hname hnot) hbytes

/-- A sample of a session without a clock. -/
def plainSample : PerfSampleEventInfo :=
  ⟨[], .new .little, ⟨.ofValues [], ascii "p:e", none, []⟩, 0, 0, 1, 2, 0, 0, 0, 4, 0, 0, ⟨0, 0⟩,
    ⟨0, 0⟩, ⟨0, 0⟩⟩

theorem plainSample_shown (addComma : Bool) (metaOptions : PerfMetaOptions)
    (convertOptions : PerfConvertOptions) :
    (plainSample.jsonMetaDisplay addComma metaOptions convertOptions).Shown :=
  ⟨⟨show (0 : ℕ) < PerfSessionInfo.billion by decide, show (-2 ^ 35 : ℤ) ≤ 0 by decide,
    show (0 : ℤ) ≤ 2 ^ 35 by decide⟩, show (0 : ℕ) < 2 ^ 64 by decide,
    ⟨['p', ':', 'e'], show ascii "p:e" = utf8 ['p', ':', 'e'] by decide⟩,
    fun format hformat ↦ by cases hformat⟩

/-- The texts of the sample event. -/
theorem sampleEvent_texts :
    ((∃ text body, sampleStart.eventInfo.identity ⟨true, .little, true⟩ sampleEvent sampleName =
          .ok (utf8 text) ∧
        sampleStart.eventInfo.jsonIdentity ⟨true, .little, true⟩ sampleEvent sampleName =
          .ok (utf8 body) ∧ JsonDecodes body text) ∧
      ∃ members body,
        (EventHeaderJsonMetaDisplay.mk sampleName sampleEvent sampleStart.eventInfo
          (some plainSample) true 0xFFFFFFFF 0).writeTo ⟨true, .little, true⟩
            PerfItemValue.zeroPlatform (fun _ ↦ 0) =
            .ok (!members.isEmpty, (if true && !members.isEmpty then ascii "," else []) ++ body) ∧
          (members = [] → body = []) ∧
          JsonText JsonScalar (.object members) (0x7B :: (body ++ [0x7D]))) := by
  refine (@eventTexts_json_iff sampleEvent sampleName 10 .new sampleStart ⟨true, .little, true⟩
    PerfItemValue.zeroPlatform (fun _ ↦ 0) (by decide +kernel)
    ⟨['P', '_', 'L', '5', 'K', '1'], by decide⟩ PerfItemValue.zeroPlatform_finiteFloats
    (fun _ ↦ by decide) (some plainSample) ?_ true 0xFFFFFFFF 0).mpr ⟨by decide, by decide +kernel⟩
  intro info hinfo addComma metaOptions convertOptions
  obtain rfl := Option.some.inj hinfo
  exact plainSample_shown addComma metaOptions convertOptions

/-- The sample event with a quotation mark for its name. -/
def quotedEvent : List UInt8 :=
  [6, 0, 0, 0, 0, 0, 0, 5] ++ [5, 0, 1, 0] ++ [0x22, 0, 97, 0, 2] ++ [42]

/-- An accepted event whose JSON identity does not stand for its identity. -/
theorem quotedEvent_identity :
    ∃ start, enumerateWithNameAndData quotedEvent .new sampleName 10 = .ok (.ok (), start) ∧
      ¬∃ text body, start.eventInfo.identity ⟨true, .little, true⟩ quotedEvent sampleName =
          .ok (utf8 text) ∧
        start.eventInfo.jsonIdentity ⟨true, .little, true⟩ quotedEvent sampleName =
          .ok (utf8 body) ∧ JsonDecodes body text := by
  refine ⟨contextOf (enumerateWithNameAndData quotedEvent .new sampleName 10),
    by decide +kernel, ?_⟩
  have hprovider : EventHeaderEventInfo.providerName sampleName = .ok [80] := by decide
  have hevent : (contextOf (enumerateWithNameAndData quotedEvent .new sampleName
      10)).eventInfo.nameBytes quotedEvent = .ok [0x22] := by decide +kernel
  rw [jsonIdentity_iff ⟨['P'], by decide⟩ hprovider hevent]
  decide

end Accepted

end Tracepoints
