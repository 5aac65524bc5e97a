import Tracepoints.Enumerator.Bounds

/-!
# The start of an enumeration

`enumerate_with_name_and_data` writes what describes the event (`EventParts`, the keyword, the
length of the event name, the start of the data) and resets the cursors; everything else in the
context is left over from earlier enumerations. Two starts of one event, in any two contexts and
with any two accepted tracepoint names, end alike (`enumerate_restarted`): both are rejected with
the same error, or both contexts agree in all that was written (`Restarted`).
-/

set_option autoImplicit false
set_option relaxedAutoImplicit false

namespace Tracepoints

open Exec

/-- A name that passes the check has a keyword. -/
theorem validateTracepointName_keyword {name : List UInt8} {level : UInt8} {keyword : Option ℕ}
    (h : validateTracepointName name level = .ok (true, keyword)) : ∃ value, keyword = some value := by
  unfold validateTracepointName at h
  obtain ⟨found, _, h⟩ := bind_eq_ok.1 h
  cases found with
  | none => cases h
  | some attribPos =>
    dsimp only at h
    by_cases hend : attribPos ≥ name.length
    · rw [if_pos hend] at h
      cases h
    rw [if_neg hend] at h
    obtain ⟨ch, _, h⟩ := bind_eq_ok.1 h
    split_ifs at h
    · cases h
    · cases h
    · cases h
    obtain ⟨ch', _, h⟩ := bind_eq_ok.1 h
    split_ifs at h
    · cases h
    exact ⟨_, (congrArg Prod.snd (Except.ok.inj h)).symm⟩

namespace EventHeaderEnumeratorContext

variable {build : Build} {data : List UInt8} {c left right : EventHeaderEnumeratorContext}

/-! ### The event of a context -/

/-- What the header and the extension blocks say of an event. -/
structure EventParts where
  header : EventHeader
  byteReader : ByteOrder
  metaStart : ℕ
  metaEnd : ℕ
  activityIdStart : ℕ
  activityIdLen : ℕ

def eventParts (c : EventHeaderEnumeratorContext) : EventParts :=
  ⟨c.header, c.byteReader, c.metaStart, c.metaEnd, c.activityIdStart, c.activityIdLen⟩

/-- Two contexts of the same event before the first item: they agree in what
`enumerate_with_name_and_data` writes, the keyword apart. -/
structure Restarted (limit : ℕ) (left right : EventHeaderEnumeratorContext) : Prop where
  parts_eq : left.eventParts = right.eventParts
  nameLen_eq : left.eventNameLen = right.eventNameLen
  dataStart_eq : left.dataStart = right.dataStart
  left_reset : left = left.resetImpl limit
  right_reset : right = right.resetImpl limit

/-- An extension block does the same to two contexts of the same event. -/
theorem applyExtension_parts (hparts : left.eventParts = right.eventParts) (kind pos size : ℕ) :
    left.applyExtension kind pos size = none ∧ right.applyExtension kind pos size = none ∨
      ∃ left' right', left.applyExtension kind pos size = some left' ∧
        right.applyExtension kind pos size = some right' ∧
        left'.eventParts = right'.eventParts ∧ left'.keyword = left.keyword ∧
        right'.keyword = right.keyword := by
  obtain ⟨hheader, horder, hmetaStart, hmetaEnd, hidStart, hidLen⟩ := EventParts.mk.inj hparts
  unfold applyExtension
  rw [← hmetaStart, ← hidStart]
  split_ifs
  · exact .inl ⟨rfl, rfl⟩
  · exact .inl ⟨rfl, rfl⟩
  · refine .inr ⟨_, _, rfl, rfl, ?_, rfl, rfl⟩
    simp only [eventParts, hheader, horder, hidStart, hidLen]
  · exact .inl ⟨rfl, rfl⟩
  · refine .inr ⟨_, _, rfl, rfl, ?_, rfl, rfl⟩
    simp only [eventParts, hheader, horder, hmetaStart, hmetaEnd]
  · exact .inr ⟨_, _, rfl, rfl, hparts, rfl, rfl⟩

/-- The loop over the extension blocks does the same to two contexts of the same event. -/
theorem parseExtensions_parts (fuel eventPos : ℕ) (hparts : left.eventParts = right.eventParts) :
    Related (fun first second ↦ first.1 = second.1 ∧ first.2.eventParts = second.2.eventParts ∧
        first.2.keyword = left.keyword ∧ second.2.keyword = right.keyword)
      (parseExtensions data fuel eventPos left) (parseExtensions data fuel eventPos right) := by
  induction fuel generalizing eventPos left right with
  | zero => exact .error _
  | succ fuel ih =>
    have horder : left.byteReader = right.byteReader := congrArg EventParts.byteReader hparts
    rw [parseExtensions, parseExtensions, horder]
    refine Related.bind_same fun room ↦ Related.ite (fun _ ↦ .ok ⟨rfl, hparts, rfl, rfl⟩) fun _ ↦ ?_
    refine Related.bind_same fun size ↦ Related.bind_same fun kind ↦ Related.bind_same fun rest ↦ ?_
    refine Related.ite (fun _ ↦ .ok ⟨rfl, hparts, rfl, rfl⟩) fun _ ↦ ?_
    rcases applyExtension_parts hparts kind (eventPos + 4) size with
      ⟨hleft, hright⟩ | ⟨left', right', hleft, hright, hparts', hleft', hright'⟩
    · rw [hleft, hright]
      exact .ok ⟨rfl, hparts, rfl, rfl⟩
    · rw [hleft, hright]
      refine Related.ite (fun _ ↦ ?_) fun _ ↦ .ok ⟨rfl, hparts', hleft', hright'⟩
      rw [← hleft', ← hright']
      exact ih _ hparts'

/-- Two starts end alike: with the same result and, if the event is accepted, in contexts that agree
in the event and have related keywords. -/
def SameStart (limit : ℕ) (agree : ℕ → ℕ → Prop)
    (first second : Except EventHeaderEnumeratorError Unit × EventHeaderEnumeratorContext) : Prop :=
  first.1 = second.1 ∧ (first.1 = .ok () → Restarted limit first.2 second.2 ∧
    agree first.2.keyword second.2.keyword)

theorem startEvent_parts {agree : ℕ → ℕ → Prop} (eventPos limit : ℕ)
    (hparts : left.eventParts = right.eventParts) (hagree : agree left.keyword right.keyword) :
    Related (SameStart limit agree) (startEvent data left eventPos limit)
      (startEvent data right eventPos limit) := by
  obtain ⟨hheader, horder, hmetaStart, hmetaEnd, hidStart, hidLen⟩ := EventParts.mk.inj hparts
  unfold startEvent
  rw [← hmetaStart, ← hmetaEnd]
  refine Related.ite (fun _ ↦ .ok ⟨rfl, nofun⟩) fun _ ↦ Related.bind_same fun namePos ↦ ?_
  refine Related.ite (fun _ ↦ .ok ⟨rfl, nofun⟩) fun _ ↦ Related.bind_same fun nameLen ↦ ?_
  refine .ok ⟨rfl, fun _ ↦ ⟨⟨?_, rfl, rfl, rfl, rfl⟩, hagree⟩⟩
  simp only [eventParts, resetImpl, hheader, horder, hidStart, hidLen]

/-- Reading the header writes the same to two contexts, with the level of the event. -/
theorem readEventHeader_parts :
    Related (fun first second ↦ first.header = second.header ∧
        first.byteReader = second.byteReader ∧ data[7]? = some first.header.level)
      (readEventHeader data left) (readEventHeader data right) := by
  unfold readEventHeader
  refine Related.bind_same fun flags ↦ Related.bind_same fun version ↦ Related.bind_same fun id ↦
    Related.bind_same fun tag ↦ Related.bind_same fun opcode ↦ ?_
  unfold byteAt
  cases hlevel : data[7]? with
  | none => exact .error _
  | some level => exact .ok ⟨rfl, rfl, rfl⟩

/-- Two checks of names for one header level end alike. -/
def SameCheck (agree : ℕ → ℕ → Prop) (first second : Bool × Option ℕ) : Prop :=
  first.1 = second.1 ∧ (first.1 = true →
    ∃ keyword keyword', first.2 = some keyword ∧ second.2 = some keyword' ∧ agree keyword keyword')

/-- Assumes: two names that are both too long or both not, and whose checks end alike. Two starts of
one event end alike. -/
theorem enumerate_restarted {agree : ℕ → ℕ → Prop} {leftName rightName : List UInt8} (limit : ℕ)
    (hlength : leftName.length ≥ 256 ↔ rightName.length ≥ 256)
    (hnames : ∀ level, data[7]? = some level → Related (SameCheck agree)
      (validateTracepointName leftName level) (validateTracepointName rightName level)) :
    Related (SameStart limit agree) (enumerateWithNameAndData data left leftName limit)
      (enumerateWithNameAndData data right rightName limit) := by
  unfold enumerateWithNameAndData
  by_cases hlong : data.length < 8 ∨ data.length ≥ 0x80000000 ∨ leftName.length ≥ 256
  · rw [if_pos hlong, if_pos (by rw [← hlength]; exact hlong)]
    exact .ok ⟨rfl, nofun⟩
  rw [if_neg hlong, if_neg (by rw [← hlength]; exact hlong)]
  refine Related.bind readEventHeader_parts ?_
  rintro first second ⟨hheader, horder, hlevel⟩
  rw [hheader] at hlevel
  simp only [hheader]
  refine Related.ite (fun _ ↦ .ok ⟨rfl, nofun⟩) fun _ ↦ ?_
  refine Related.bind (hnames _ hlevel) ?_
  rintro ⟨nameOk, keyword⟩ ⟨nameOk', keyword'⟩ ⟨hsame, hkeyword⟩
  obtain rfl : nameOk = nameOk' := hsame
  refine Related.ite (fun _ ↦ .ok ⟨rfl, nofun⟩) fun hok ↦ ?_
  obtain ⟨value, value', hvalue, hvalue', hagree⟩ := hkeyword (by simpa using hok)
  obtain rfl : keyword = some value := hvalue
  obtain rfl : keyword' = some value' := hvalue'
  have hparts : eventParts { first with
        header := second.header, keyword := value, metaStart := 0, metaEnd := 0
        activityIdStart := 0, activityIdLen := 0 } =
      eventParts { second with
        keyword := value', metaStart := 0, metaEnd := 0, activityIdStart := 0
        activityIdLen := 0 } := by
    simp only [eventParts, horder]
  refine Related.ite (fun _ ↦ ?_) fun _ ↦ startEvent_parts 8 limit hparts hagree
  refine Related.bind (parseExtensions_parts data.length 8 hparts) ?_
  rintro ⟨found, next⟩ ⟨found', next'⟩ ⟨hfound, hnext, hleft, hright⟩
  obtain rfl : found = found' := hfound
  cases found with
  | none => exact .ok ⟨rfl, nofun⟩
  | some eventPos =>
    refine startEvent_parts eventPos limit hnext ?_
    rw [hleft, hright]
    exact hagree

/-- An event that is accepted has a header with a level, under a name that passes the check. -/
theorem accepted_name {name : List UInt8} {limit : ℕ} {level : UInt8}
    {start : EventHeaderEnumeratorContext} (hlevel : data[7]? = some level)
    (h : enumerateWithNameAndData data c name limit = .ok (.ok (), start)) :
    name.length < 256 ∧ ∃ keyword, validateTracepointName name level = .ok (true, some keyword) := by
  unfold enumerateWithNameAndData at h
  split_ifs at h with hlong
  · cases h
  obtain ⟨_, hrest⟩ := not_or.1 hlong
  obtain ⟨header, hheader, h⟩ := bind_eq_ok.1 h
  have hsame : header.header.level = level := by
    have hrelated := @readEventHeader_parts data c c
    obtain ⟨_, _, _, _, hseven⟩ := hrelated.of_left_ok hheader
    rw [hlevel] at hseven
    exact (Option.some.inj hseven).symm
  split_ifs at h
  · cases h
  obtain ⟨⟨nameOk, keyword⟩, hvalidate, h⟩ := bind_eq_ok.1 h
  rw [hsame] at hvalidate
  cases nameOk with
  | false => cases h
  | true =>
    obtain ⟨value, rfl⟩ := validateTracepointName_keyword hvalidate
    exact ⟨by omega, value, hvalidate⟩

/-! ### Before the first item -/

/-- A check of a name ends as it does. -/
theorem sameCheck_refl (name : List UInt8) (level : UInt8) :
    Related (SameCheck Eq) (validateTracepointName name level) (validateTracepointName name level) := by
  cases hcheck : validateTracepointName name level with
  | error fault => exact .error fault
  | ok check =>
    obtain ⟨nameOk, keyword⟩ := check
    refine .ok ⟨rfl, fun hok ↦ ?_⟩
    obtain rfl : nameOk = true := hok
    obtain ⟨value, rfl⟩ := validateTracepointName_keyword hcheck
    exact ⟨value, value, rfl, rfl, rfl⟩

/-- Two starts of one event under one name end alike. -/
theorem enumerate_sameName (name : List UInt8) (limit : ℕ) :
    Related (SameStart limit Eq) (enumerateWithNameAndData data left name limit)
      (enumerateWithNameAndData data right name limit) :=
  enumerate_restarted limit Iff.rfl fun level _ ↦ sameCheck_refl name level

/-- An accepted event starts reset. -/
theorem accepted_reset {name : List UInt8} {limit : ℕ} {start : EventHeaderEnumeratorContext}
    (h : enumerateWithNameAndData data c name limit = .ok (.ok (), start)) :
    start = start.resetImpl limit := by
  obtain ⟨second, hsecond, _, hrestarted⟩ :=
    (@enumerate_sameName data c c name limit).of_left_ok h
  exact (hrestarted rfl).1.left_reset

/-- A metadata move leaves the start. -/
theorem moveNextMetadataImpl_state {result : Bool × EventHeaderEnumeratorContext}
    (h : moveNextMetadataImpl build data c = .ok result) : result.2.state ≠ .beforeFirstItem := by
  have hleaves {moved : Bool} {next : EventHeaderEnumeratorContext}
      (hnext : next.state ≠ .beforeFirstItem) :
      ReturnsUnless (fun _ ↦ True) (.ok (moved, next)) fun result :
        Bool × EventHeaderEnumeratorContext ↦ result.2.state ≠ .beforeFirstItem :=
    .of_returns (Returns.ok hnext)
  suffices hstate : ReturnsUnless (fun _ ↦ True) (moveNextMetadataImpl build data c)
      fun result ↦ result.2.state ≠ .beforeFirstItem from hstate.of_eq_ok h
  unfold moveNextMetadataImpl
  refine .bind (.any _) fun first _ ↦ .bind (.any _) fun _ _ ↦ .ite (fun _ ↦ ?_)
    fun _ ↦ hleaves nofun
  unfold nextFieldMetadata
  refine .bind (.any _) fun field _ ↦ .ite (fun _ ↦ hleaves nofun) fun _ ↦
    .ite (fun _ ↦ hleaves nofun) fun _ ↦ .ite (fun _ ↦ hleaves nofun) fun _ ↦
      .ite (fun _ ↦ hleaves nofun) fun _ ↦ .ite (fun _ ↦ ?_) fun _ ↦ hleaves nofun
  refine .bind (.any _) fun room _ ↦ .ite (fun _ ↦ hleaves nofun) fun _ ↦ ?_
  exact .bind (.any _) fun count _ ↦ .ite (fun _ ↦ hleaves nofun) fun _ ↦ hleaves nofun

/-- Assumes: the invariant, at the start of a run that begins reset. Wherever the run is before the
first item again, the context is reset. -/
theorem reset_of_reaches {start : EventHeaderEnumeratorContext}
    (hinv : EnumeratorInv data start) (hstart : start = start.resetImpl start.moveNextRemaining)
    (h : EnumeratorReaches build data start c) (hstate : c.state = .beforeFirstItem) :
    c = c.resetImpl c.moveNextRemaining := by
  cases h with
  | refl => exact hstart
  | @step before _ op result hreaches hop happly =>
    obtain ⟨hbefore, _⟩ := hinv.reaches hreaches
    have hmoved (hshows : c.state.canItemInfo = result) (hstops : c.state.canMoveNext = result) :
        c = c.resetImpl c.moveNextRemaining := by
      rw [hstate] at hshows hstops
      exact absurd (hshows.trans hstops.symm) (by decide)
    cases op with
    | moveNext =>
      have hstep := (moveNextImpl_returns hbefore hop.1 hop.2).of_eq_ok happly
      exact hmoved (hstep.moved hbefore).shows (hstep.moved hbefore).stops
    | moveNextSibling =>
      have hsibling := (moveNextSiblingImpl_returns hbefore hop.1 hop.2).of_eq_ok happly
      exact hmoved hsibling.shows hsibling.stops
    | moveNextMetadata => exact absurd hstate (moveNextMetadataImpl_state happly)
    | reset =>
      obtain rfl : before.resetImpl _ = c := congrArg Prod.snd (Except.ok.inj happly)
      rfl
    | resetWithLimit limit =>
      obtain rfl : before.resetImpl _ = c := congrArg Prod.snd (Except.ok.inj happly)
      rfl

/-- Before the first item no struct is open and no field definition is shown. -/
theorem beforeFirstItem_of_reaches {start : EventHeaderEnumeratorContext} {limit : ℕ}
    (hinv : EnumeratorInv data start) (hstart : start = start.resetImpl limit)
    (h : EnumeratorReaches build data start c) (hstate : c.state = .beforeFirstItem) :
    c.substate = .beforeFirstItem ∧ c.stackIndex = 0 := by
  have hlimit : start.moveNextRemaining = limit :=
    congrArg EventHeaderEnumeratorContext.moveNextRemaining hstart
  have hreset := reset_of_reaches hinv (by rw [hlimit]; exact hstart) h hstate
  exact ⟨congrArg EventHeaderEnumeratorContext.substate hreset,
    congrArg EventHeaderEnumeratorContext.stackIndex hreset⟩

end EventHeaderEnumeratorContext

end Tracepoints
