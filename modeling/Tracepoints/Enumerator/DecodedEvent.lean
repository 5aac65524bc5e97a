import Tracepoints.Enumerator.Decoding
import Tracepoints.Provider.WriteEventHeader

/-!
# Reading a written event

What the enumerator shows of an event whose fields were written as a `FieldForest`. A struct is shown with
its members (`shows_struct`), the fields of a forest by induction on it (`shows_forest`).
-/

set_option autoImplicit false
set_option relaxedAutoImplicit false

namespace Tracepoints

open Exec EventHeaderEnumeratorContext

section Run

variable {build : Build} {data : List UInt8} {c : EventHeaderEnumeratorContext} {decl : FieldDecl}
  {metaBytes dataBytes : List UInt8}

/-! ### Structs -/

/-- What the type of a struct allows. -/
structure StructDecl (order : ByteOrder) (decl : FieldDecl) : Prop where
  valid : decl.Valid order
  isStruct : decl.fieldType.encoding = FieldEncoding.struct
  format_ne : decl.fieldType.format ≠ FieldFormat.default

/-- The context at the begin of a struct. -/
def atStruct (ready : EventHeaderEnumeratorContext) (decl : FieldDecl) : EventHeaderEnumeratorContext :=
  (ready.atField (declaredField ready decl) 1 (declaredField ready decl).typeEnd).atStructBegin

/-- The context inside a struct. -/
def inStruct (ready : EventHeaderEnumeratorContext) (decl : FieldDecl) (hroom : ready.stackIndex < 8) :
    EventHeaderEnumeratorContext :=
  (atStruct ready decl).spend.pushed hroom

theorem inStruct_frame (ready : EventHeaderEnumeratorContext) (decl : FieldDecl)
    (hroom : ready.stackIndex < 8) : (inStruct ready decl hroom).frame = ready.frame := by
  dsimp only [frame, eventInfo, inStruct, atStruct, atStructBegin, pushed, spend, withItem, setState,
    atField]

/-- The entry that a struct leaves on the stack. -/
def structEntry (ready : EventHeaderEnumeratorContext) (decl : FieldDecl) : StackEntry where
  nextOffset := ready.stackTop.nextOffset + decl.bytes.length
  nameOffset := ready.stackTop.nextOffset
  nameLen := decl.name.length
  arrayIndex := 0
  arrayCount := 1
  remainingFieldCount := ready.stackTop.remainingFieldCount - 1

theorem atStruct_shown {ready : EventHeaderEnumeratorContext}
    (hready : ReadyAt data ready (decl.bytes ++ metaBytes) dataBytes)
    (hdecl : StructDecl ready.byteReader decl) :
    shownItem build data (atStruct ready decl) =
      .ok (decl.structItem ready.byteReader .structBegin) := by
  have hat := atDecl_atField hready 1 (declaredField ready decl).typeEnd
  refine @shownItem_eq build data (atStruct ready decl) decl []
    ⟨hat.fieldType_eq, hat.nameLen_eq, hat.placed⟩ hdecl.valid rfl (placedAt_nil _ _) rfl
    hready.dataPosRaw_le ⟨?_, rfl, fun _ ↦ ⟨rfl, hdecl.format_ne⟩⟩
  rw [hdecl.isStruct]
  decide

theorem inStruct_ready {ready : EventHeaderEnumeratorContext}
    (hready : ReadyAt data ready (decl.bytes ++ metaBytes) dataBytes) (hroom : ready.stackIndex < 8) :
    ReadyAt data (inStruct ready decl hroom) metaBytes dataBytes := by
  have hmeta := (placedAt_append.mp hready.metaAt).2
  have hle := hready.meta_le
  have hstart := hready.metaStart_le
  rw [List.length_append] at hle
  constructor <;>
    dsimp only [inStruct, atStruct, atStructBegin, pushed, spend, withItem, setState, atField,
      declaredField]
  · exact hmeta
  · omega
  · exact hready.metaEnd_le
  · exact hready.metaSize_le
  · omega
  · exact hready.dataAt
  · exact hready.dataPosRaw_le

theorem readyAt_typeAt {ready : EventHeaderEnumeratorContext}
    (hready : ReadyAt data ready (decl.bytes ++ metaBytes) dataBytes)
    (hvalid : decl.Valid ready.byteReader) :
    typeAt ready.byteReader data ready.metaEnd (ready.stackTop.nextOffset + decl.name.length + 1) =
      (decl.fieldType, ready.stackTop.nextOffset + decl.bytes.length) := by
  have hle := hready.meta_le
  rw [List.length_append] at hle
  exact typeAt_decl hvalid (placedAt_append.mp hready.metaAt).1 (by omega)

/-- The entry of a struct on the stack is that of an open struct. -/
theorem structEntry_ok {ready : EventHeaderEnumeratorContext}
    (hready : ReadyAt data ready (decl.bytes ++ metaBytes) dataBytes)
    (hdecl : StructDecl ready.byteReader decl) (hframe : c.frame = ready.frame) :
    EventHeaderEnumeratorContext.EntryOk data c (structEntry ready decl) := by
  have hle := hready.meta_le
  have hstart := hready.metaStart_le
  have hlength := decl.length_bytes
  have hpos := hdecl.valid.written.length_pos
  rw [List.length_append] at hle
  have htype : fieldTypeAt data c (ready.stackTop.nextOffset + decl.name.length + 1) = decl.fieldType := by
    unfold fieldTypeAt
    rw [frame_byteReader hframe, frame_metaEnd hframe, readyAt_typeAt hready hdecl.valid]
  constructor
  · rw [frame_metaStart hframe]
    exact hstart
  · rw [frame_metaEnd hframe]
    dsimp only [structEntry]
    omega
  · dsimp only [structEntry]
    rw [htype, hdecl.isStruct]
    decide
  · exact Nat.one_pos
  · exact fun _ ↦ rfl
  · dsimp only [structEntry]
    rw [htype, hdecl.isStruct]
    decide

/-- The context at the end of a struct, behind its members. -/
def atStructEnd (ready inner : EventHeaderEnumeratorContext) (decl : FieldDecl) :
    EventHeaderEnumeratorContext :=
  { inner with
    stackIndex := ready.stackIndex
    stackTop := { structEntry ready decl with nextOffset := inner.stackTop.nextOffset }
    fieldType := decl.fieldType
    elementSize := 0 }.setEndState .structEnd .structEnd

/-- Behind the members of a struct its end follows. -/
theorem nextProperty_structEnd {ready inner : EventHeaderEnumeratorContext} {metaLen dataLen fields items : ℕ}
    (hready : ReadyAt data ready (decl.bytes ++ metaBytes) dataBytes)
    (hdecl : StructDecl ready.byteReader decl) (hroom : ready.stackIndex < 8)
    (hadvanced : Advanced (inStruct ready decl hroom) inner metaLen dataLen fields items)
    (hdone : inner.stackTop.remainingFieldCount = 0 ∨ inner.stackTop.nextOffset = inner.metaEnd) :
    nextProperty build data inner = .ok (true, atStructEnd ready inner decl) := by
  have hframe : inner.frame = ready.frame := hadvanced.frame_eq.trans (inStruct_frame ready decl hroom)
  have hindex : inner.stackIndex = ready.stackIndex + 1 := hadvanced.stackIndex_eq
  have hentry : inner.stack[ready.stackIndex] = structEntry ready decl := by
    rw [hadvanced.stack_eq ready.stackIndex hroom (Nat.lt_succ_self _)]
    exact Vector.getElem_set_self _
  have hmeta : inner.metaEnd ≤ data.length := by
    rw [frame_metaEnd hframe]
    exact hready.metaEnd_le
  have htype := readyAt_typeAt hready hdecl.valid
  rw [← frame_byteReader hframe, ← frame_metaEnd hframe] at htype
  unfold nextProperty
  rw [if_neg (by tauto), if_pos (by omega), popStruct_entry hroom
    (by rw [hentry]; exact structEntry_ok hready hdecl hframe) hmeta hindex, hentry]
  unfold popped
  rw [show typeAt inner.byteReader data inner.metaEnd
    ((structEntry ready decl).nameOffset + (structEntry ready decl).nameLen + 1) = _ from htype]
  rfl

theorem atStructEnd_shown {ready inner : EventHeaderEnumeratorContext}
    (hready : ReadyAt data ready (decl.bytes ++ metaBytes) dataBytes)
    (hdecl : StructDecl ready.byteReader decl) (hframe : inner.frame = ready.frame)
    (hpos : inner.dataPosRaw ≤ data.length) :
    shownItem build data (atStructEnd ready inner decl) =
      .ok (decl.structItem ready.byteReader .structEnd) := by
  have hreader := frame_byteReader hframe
  rw [← hreader] at hdecl ⊢
  refine @shownItem_eq build data (atStructEnd ready inner decl) decl []
    ⟨rfl, rfl, (placedAt_append.mp hready.metaAt).1⟩ hdecl.valid rfl (placedAt_nil _ _) rfl hpos
    ⟨?_, rfl, fun _ ↦ ⟨rfl, hdecl.format_ne⟩⟩
  rw [hdecl.isStruct]
  decide

/-- The context behind a struct. -/
def behindStruct (ready inner : EventHeaderEnumeratorContext) (decl : FieldDecl) :
    EventHeaderEnumeratorContext :=
  (atStructEnd ready inner decl).spend.nextElement

/-- How far a struct leads. -/
theorem behindStruct_advanced {ready inner : EventHeaderEnumeratorContext}
    {metaLen dataLen fields items : ℕ} {hroom : ready.stackIndex < 8}
    (hadvanced : Advanced (inStruct ready decl hroom) inner metaLen dataLen fields items) :
    Advanced ready (behindStruct ready inner decl) (decl.bytes.length + metaLen) dataLen 1
      (1 + items + 1) := by
  have hframe : inner.frame = ready.frame := hadvanced.frame_eq.trans (inStruct_frame ready decl hroom)
  obtain ⟨-, hnext, hdata, -, -, hstack, hbudget⟩ := hadvanced
  dsimp only [inStruct, atStruct, atStructBegin, pushed, spend, withItem, setState, atField,
    declaredField] at hnext hdata hstack hbudget
  refine ⟨?_, ?_, ?_, ?_, ?_, fun index hindex hlt ↦ ?_, ?_⟩ <;>
    dsimp only [behindStruct, atStructEnd, structEntry, setEndState, EventHeaderEnumeratorContext.nextElement,
      spend]
  · exact hframe
  · omega
  · exact hdata
  · rw [hstack index hindex (by omega)]
    exact Vector.getElem_set_ne _ _ (by omega)
  · omega

/-- A struct is shown, if its members are and it is complete behind them. -/
theorem shows_struct {ready : EventHeaderEnumeratorContext} {items : List ShownItem}
    {metaLen dataLen fields : ℕ} (hleads : Leads build data c ready)
    (hready : ReadyAt data ready (decl.bytes ++ metaBytes) dataBytes)
    (hdecl : StructDecl ready.byteReader decl) (hremaining : ready.stackTop.remainingFieldCount ≠ 0)
    (hroom : ready.stackIndex < 8) (hpos : ready.dataPosRaw + dataLen ≤ data.length)
    (hmembers : ∀ start, Leads build data start (inStruct ready decl hroom) →
      ShowsFrom build data start (inStruct ready decl hroom) items metaLen dataLen fields)
    (hdone : fields = decl.fieldType.format.toNat ∨
      ready.stackTop.nextOffset + decl.bytes.length + metaLen = ready.metaEnd)
    (hbudget : items.length + 2 ≤ ready.moveNextRemaining) :
    ShowsFrom build data c ready
      (decl.structItem ready.byteReader .structBegin ::
        (items ++ [decl.structItem ready.byteReader .structEnd]))
      (decl.bytes.length + metaLen) dataLen 1 := by
  have hmove : moveNextImpl build data c = .ok (true, atStruct ready decl) :=
    hleads.trans (nextProperty_struct hready hdecl.valid hremaining hdecl.isStruct hdecl.format_ne)
  have hinside : Leads build data (atStruct ready decl) (inStruct ready decl hroom) :=
    @moveNext_structBegin build data (atStruct ready decl) rfl rfl hroom
      (Nat.ne_of_gt (Nat.lt_of_lt_of_le (by omega) hbudget))
  obtain ⟨last, inner, hshows, hnext, hadvanced⟩ := hmembers _ hinside
  have hframe : inner.frame = ready.frame := hadvanced.frame_eq.trans (inStruct_frame ready decl hroom)
  have hbehind := behindStruct_advanced hadvanced
  obtain ⟨-, hoffset, hdata, hcount, -, -, hspent⟩ := id hadvanced
  dsimp only [inStruct, atStruct, atStructBegin, pushed, spend, withItem, setState, atField,
    declaredField] at hoffset hdata hcount hspent
  have hend : moveNextImpl build data last = .ok (true, atStructEnd ready inner decl) := by
    refine hnext.trans (nextProperty_structEnd hready hdecl hroom hadvanced ?_)
    rw [hcount, hoffset, frame_metaEnd hframe]
    exact hdone.imp (fun h ↦ by rw [h, Nat.sub_self]) id
  have hleave : Leads build data (atStructEnd ready inner decl) (behindStruct ready inner decl) :=
    moveNext_structEnd rfl rfl hdecl.isStruct rfl rfl (by
      dsimp only [atStructEnd, setEndState]
      omega)
  refine ⟨atStructEnd ready inner decl, behindStruct ready inner decl,
    .cons hmove (atStruct_shown hready hdecl) (hshows.append (.cons hend
      (atStructEnd_shown hready hdecl hframe (by omega)) (.nil _))), hleave, ?_⟩
  rw [List.length_cons, List.length_append, List.length_singleton]
  rwa [Nat.add_comm 1, Nat.add_right_comm] at hbehind

/-! ### Forests -/

theorem FieldForest.eq_nil_of_count {forest : FieldForest} (h : forest.count = 0) : forest = .nil := by
  cases forest with
  | nil => rfl
  | scalar => cases h
  | array => cases h
  | struct => cases h

/-- What a context has to offer for the fields of a forest: their bytes, a count that covers them, room on
the stack for their structs, and moves for their items. -/
structure Offers (data : List UInt8) (ready : EventHeaderEnumeratorContext) (forest : FieldForest)
    (last : Bool) (metaBytes dataBytes : List UInt8) : Prop where
  wellFormed : forest.WellFormed ready.byteReader last
  readyAt : ReadyAt data ready (forest.metaBytes ++ metaBytes)
    (forest.dataBytes ready.byteReader ++ dataBytes)
  count_le : forest.count ≤ ready.stackTop.remainingFieldCount
  depth_le : ready.stackIndex + forest.depth ≤ 8
  items_le : (forest.items ready.byteReader).length ≤ ready.moveNextRemaining
  last_eq : last = true → ready.stackTop.nextOffset + forest.metaBytes.length = ready.metaEnd

/-- A forest is one field and other ones. -/
structure FirstField (order : ByteOrder) (forest rest : FieldForest) (last : Bool)
    (metaBytes dataBytes : List UInt8) (items : List ShownItem) : Prop where
  wellFormed : rest.WellFormed order last
  metaBytes_eq : forest.metaBytes = metaBytes ++ rest.metaBytes
  dataBytes_eq : forest.dataBytes order = dataBytes ++ rest.dataBytes order
  count_eq : forest.count = 1 + rest.count
  depth_le : rest.depth ≤ forest.depth
  items_eq : forest.items order = items ++ rest.items order

/-- Behind the first field the others are offered. -/
theorem Offers.rest {ready ready' : EventHeaderEnumeratorContext} {forest rest : FieldForest} {last : Bool}
    {firstMeta firstData : List UInt8} {items : List ShownItem}
    (h : Offers data ready forest last metaBytes dataBytes)
    (hfirst : FirstField ready.byteReader forest rest last firstMeta firstData items)
    (hadvanced : Advanced ready ready' firstMeta.length firstData.length 1 items.length) :
    Offers data ready' rest last metaBytes dataBytes := by
  have hreader := frame_byteReader hadvanced.frame_eq
  have hcount := h.count_le
  have hdepth := h.depth_le
  have hitems := h.items_le
  have hless := hfirst.depth_le
  have hready := h.readyAt
  have hlast := h.last_eq
  rw [hfirst.count_eq] at hcount
  rw [hfirst.items_eq, List.length_append] at hitems
  rw [hfirst.metaBytes_eq, hfirst.dataBytes_eq, List.append_assoc, List.append_assoc] at hready
  rw [hfirst.metaBytes_eq, List.length_append] at hlast
  constructor
  · rw [hreader]
    exact hfirst.wellFormed
  · rw [hreader]
    exact hready.advance hadvanced
  · rw [hadvanced.remaining_eq]
    omega
  · rw [hadvanced.stackIndex_eq]
    omega
  · rw [hreader, hadvanced.budget_eq]
    omega
  · intro hend
    rw [hadvanced.nextOffset_eq, frame_metaEnd hadvanced.frame_eq, ← hlast hend]
    omega

/-- A forest is shown if its first field and the others are. -/
theorem shows_first {ready : EventHeaderEnumeratorContext} {forest rest : FieldForest} {last : Bool}
    {firstMeta firstData : List UInt8} {items : List ShownItem}
    (h : Offers data ready forest last metaBytes dataBytes)
    (hfirst : FirstField ready.byteReader forest rest last firstMeta firstData items)
    (hshows : ShowsFrom build data c ready items firstMeta.length firstData.length 1)
    (hrest : ∀ c' ready', Leads build data c' ready' →
      Offers data ready' rest last metaBytes dataBytes →
        ShowsFrom build data c' ready' (rest.items ready'.byteReader) rest.metaBytes.length
          (rest.dataBytes ready'.byteReader).length rest.count) :
    ShowsFrom build data c ready (forest.items ready.byteReader) forest.metaBytes.length
      (forest.dataBytes ready.byteReader).length forest.count := by
  rw [hfirst.items_eq, hfirst.metaBytes_eq, hfirst.dataBytes_eq, hfirst.count_eq, List.length_append,
    List.length_append]
  refine hshows.append fun c' ready' hleads hadvanced ↦ ?_
  have hreader := frame_byteReader hadvanced.frame_eq
  rw [← hreader]
  exact hrest c' ready' hleads (h.rest hfirst hadvanced)

/-- The members of a struct are offered inside of it. -/
theorem inStruct_offers {ready : EventHeaderEnumeratorContext} {members : FieldForest} {last : Bool}
    (hready : ReadyAt data ready (decl.bytes ++ (members.metaBytes ++ metaBytes))
      (members.dataBytes ready.byteReader ++ dataBytes))
    (hroom : ready.stackIndex < 8) (hwellFormed : members.WellFormed ready.byteReader last)
    (hcount : members.count ≤ decl.fieldType.format.toNat)
    (hdepth : ready.stackIndex + 1 + members.depth ≤ 8)
    (hitems : (members.items ready.byteReader).length ≤ ready.moveNextRemaining - 1)
    (hlast : last = true →
      ready.stackTop.nextOffset + decl.bytes.length + members.metaBytes.length = ready.metaEnd) :
    Offers data (inStruct ready decl hroom) members last metaBytes dataBytes := by
  have hreader := frame_byteReader (inStruct_frame ready decl hroom)
  have hinside := inStruct_ready hready hroom
  constructor
  · rwa [hreader]
  · rwa [hreader]
  all_goals
    try rw [hreader]
    dsimp only [inStruct, atStruct, atStructBegin, pushed, spend, withItem, setState, atField,
      declaredField]
  · exact hcount
  · exact hdepth
  · exact hitems
  · exact hlast

/-- The fields of a forest are shown where they are offered. -/
theorem shows_forest {ready : EventHeaderEnumeratorContext} {forest : FieldForest} {last : Bool}
    (hleads : Leads build data c ready) (h : Offers data ready forest last metaBytes dataBytes) :
    ShowsFrom build data c ready (forest.items ready.byteReader) forest.metaBytes.length
      (forest.dataBytes ready.byteReader).length forest.count := by
  induction forest generalizing c ready last metaBytes dataBytes with
  | nil => exact ⟨c, ready, .nil c, hleads, Advanced.refl ready⟩
  | scalar decl value rest ih =>
    obtain ⟨hvalid, hscalar, hvalue, hrest⟩ := h.wellFormed
    have hready := h.readyAt
    have hcount := h.count_le
    have hitems := h.items_le
    dsimp only [FieldForest.metaBytes, FieldForest.dataBytes, FieldForest.count,
      FieldForest.items] at hready hcount hitems
    rw [List.append_assoc, List.append_assoc] at hready
    rw [List.length_cons] at hitems
    exact shows_first h ⟨hrest, rfl, rfl, Nat.add_comm _ _, le_rfl, rfl⟩
      (shows_scalar hleads hready hvalid (by omega) hscalar hvalue (by omega))
      fun c' ready' hleads' hoffers ↦ ih hleads' hoffers
  | array decl elements rest ih =>
    obtain ⟨hvalid, hvariable, hconstant, hstruct, ⟨size, hsize⟩, hvalues, hlength, hrest⟩ := h.wellFormed
    have hready := h.readyAt
    have hcount := h.count_le
    have hitems := h.items_le
    dsimp only [FieldForest.metaBytes, FieldForest.dataBytes, FieldForest.count,
      FieldForest.items] at hready hcount hitems
    rw [List.append_assoc, List.append_assoc] at hready
    rw [List.length_cons, List.length_append, List.length_map, List.length_cons] at hitems
    have hdecl : ArrayDecl ready.byteReader decl :=
      ⟨hvalid, hvariable, hconstant, hstruct, by rw [FieldDecl.typeSize, encodingSize_eq hsize, hsize]⟩
    refine shows_first h ⟨hrest, rfl, rfl, Nat.add_comm _ _, le_rfl, ?_⟩
      (shows_array hleads hready hdecl (by omega) hlength hvalues (by omega))
      fun c' ready' hleads' hoffers ↦ ih hleads' hoffers
    simp [FieldForest.items]
  | struct decl members rest ihMembers ihRest =>
    obtain ⟨hvalid, hstruct, hformat, hmembers, hinner, hrest⟩ := h.wellFormed
    have hready := h.readyAt
    have hdepth := h.depth_le
    have hcount := h.count_le
    have hitems := h.items_le
    have hlast := h.last_eq
    dsimp only [FieldForest.metaBytes, FieldForest.dataBytes, FieldForest.count, FieldForest.depth,
      FieldForest.items] at hready hdepth hcount hitems hlast
    rw [List.append_assoc, List.append_assoc, List.append_assoc] at hready
    rw [List.length_cons, List.length_append, List.length_cons] at hitems
    rw [List.length_append, List.length_append] at hlast
    have hroom : ready.stackIndex < 8 := by omega
    have hend : last = true → rest.count = 0 →
        ready.stackTop.nextOffset + decl.bytes.length + members.metaBytes.length = ready.metaEnd := by
      intro hlast' hzero
      rw [← hlast hlast', FieldForest.eq_nil_of_count hzero]
      simp only [FieldForest.metaBytes, List.length_nil]
      omega
    have hoffers : Offers data (inStruct ready decl hroom) members (last && rest.count == 0)
        (rest.metaBytes ++ metaBytes) (rest.dataBytes ready.byteReader ++ dataBytes) := by
      refine inStruct_offers hready hroom hinner (hmembers.elim (fun h ↦ h.le) fun h ↦ h.1.le)
        (by omega) (by omega) fun hboth ↦ ?_
      rw [Bool.and_eq_true, beq_iff_eq] at hboth
      exact hend hboth.1 hboth.2
    have hdone : members.count = decl.fieldType.format.toNat ∨
        ready.stackTop.nextOffset + decl.bytes.length + members.metaBytes.length = ready.metaEnd :=
      hmembers.imp id fun h ↦ hend h.2.1 h.2.2
    have hdata := (placedAt_append.mp hready.dataAt).1.length_le hready.dataPosRaw_le
    have hreader := frame_byteReader (inStruct_frame ready decl hroom)
    have hshows := shows_struct hleads hready ⟨hvalid, hstruct, hformat⟩ (by omega) hroom hdata
      (fun start hstart ↦ by
        have hrun := ihMembers hstart hoffers
        rwa [hreader] at hrun) hdone (by omega)
    rw [← List.length_append] at hshows
    refine shows_first h ⟨hrest, ?_, rfl, Nat.add_comm _ _, le_max_right _ _, ?_⟩ hshows
      fun c' ready' hleads' hoffers ↦ ihRest hleads' hoffers
    · exact (List.append_assoc _ _ _).symm
    · simp only [FieldForest.items, List.cons_append, List.append_assoc, List.nil_append]

/-! ### Extensions -/

theorem length_eventHeaderExtension (order : ByteOrder) (size kind : ℕ) (chain : Bool) :
    (eventHeaderExtension order size kind chain).length = 4 := by
  unfold eventHeaderExtension
  rw [List.length_append, ByteOrder.length_toBytes, ByteOrder.length_toBytes]

/-- The kind of an extension block, with the flag of another block. -/
def chainedKind (kind : ℕ) (chain : Bool) : ℕ := if chain then kind ||| ExtensionKind.chainFlag else kind

/-- A block of the extensions is taken as it was written. -/
theorem parseExtensions_block {fuel pos size kind : ℕ} {chain : Bool} {block : List UInt8}
    (hplaced : PlacedAt data pos (eventHeaderExtension c.byteReader size kind chain ++ block))
    (hpos : pos ≤ data.length) (hblock : block.length = size) (hsize : size < 65536)
    (hkind : chainedKind kind chain < 65536) :
    parseExtensions data (fuel + 1) pos c =
      match c.applyExtension (chainedKind kind chain) (pos + 4) size with
      | none => .ok (none, c)
      | some c =>
        if ExtensionKind.hasChainFlag (chainedKind kind chain) then
          parseExtensions data fuel (pos + 4 + size) c
        else .ok (some (pos + 4 + size), c) := by
  have hle := hplaced.length_le hpos
  rw [List.length_append, length_eventHeaderExtension, hblock] at hle
  obtain ⟨hsizeAt, hkindAt⟩ := placedAt_append.mp (placedAt_append.mp hplaced).1
  rw [ByteOrder.length_toBytes] at hkindAt
  replace hkindAt : PlacedAt data (pos + 2) (c.byteReader.toBytes 2 (chainedKind kind chain)) := hkindAt
  rw [parseExtensions, sub_of_le hpos, ok_bind, if_neg (by omega),
    hsizeAt.readUInt_eq (by decide) (by simpa using hsize), ok_bind,
    hkindAt.readUInt_eq (by decide) (by simpa using hkind), ok_bind]
  dsimp only
  rw [sub_of_le (by omega), ok_bind]
  exact if_neg (by omega)

/-- The context behind the metadata extension. -/
def withMetadata (c : EventHeaderEnumeratorContext) (pos size : ℕ) : EventHeaderEnumeratorContext :=
  { c with metaStart := pos, metaEnd := pos + size }

/-- The context behind the activity extension. -/
def withActivity (c : EventHeaderEnumeratorContext) (pos size : ℕ) : EventHeaderEnumeratorContext :=
  { c with activityIdStart := pos, activityIdLen := size }

theorem parseExtensions_metadata {fuel pos : ℕ} {block : List UInt8}
    (hplaced : PlacedAt data pos
      (eventHeaderExtension c.byteReader block.length ExtensionKind.metadata false ++ block))
    (hpos : pos ≤ data.length) (hsize : block.length < 65536) (hstart : c.metaStart = 0) :
    parseExtensions data (fuel + 1) pos c =
      .ok (some (pos + 4 + block.length), withMetadata c (pos + 4) block.length) := by
  rw [parseExtensions_block hplaced hpos rfl hsize (by decide)]
  unfold applyExtension
  rw [if_neg (by decide), if_pos (by decide), if_neg (not_not.mpr hstart)]
  rfl

theorem parseExtensions_activity {fuel pos size : ℕ} {block : List UInt8}
    (hplaced : PlacedAt data pos
      (eventHeaderExtension c.byteReader size ExtensionKind.activityId true ++ block))
    (hpos : pos ≤ data.length) (hblock : block.length = size) (hsize : size = 16 ∨ size = 32)
    (hstart : c.activityIdStart = 0) :
    parseExtensions data (fuel + 1) pos c =
      parseExtensions data fuel
        (pos + (eventHeaderExtension c.byteReader size ExtensionKind.activityId true ++ block).length)
        (withActivity c (pos + 4) size) := by
  rw [parseExtensions_block hplaced hpos hblock (by omega) (by decide), List.length_append,
    length_eventHeaderExtension, hblock, ← Nat.add_assoc]
  unfold applyExtension
  rw [if_neg (by decide), if_neg (by decide), if_pos (by decide), if_neg (by omega)]
  rfl

/-- Where the ids of an event are found. -/
def IdsAt (data : List UInt8) (activityId relatedId : Option (Vector UInt8 16)) (pos size : ℕ) : Prop :=
  ∀ info : EventHeaderEventInfo, info.activityIdStart = pos → info.activityIdLen = size →
    info.activityId data = .ok (activityId.map Vector.toList) ∧
      info.relatedActivityId data = .ok (relatedId.map Vector.toList)

/-- The activity extension is passed, and the ids are found in it. -/
theorem parseExtensions_activityBlock {fuel pos : ℕ} {activityId relatedId : Option (Vector UInt8 16)}
    (hplaced : PlacedAt data pos (activityBlock c.byteReader activityId relatedId))
    (hpos : pos ≤ data.length) (hrelated : relatedId.isNone ∨ activityId.isSome)
    (hstart : c.activityIdStart = 0) (hlen : c.activityIdLen = 0) :
    ∃ fuel' idPos size, IdsAt data activityId relatedId idPos size ∧
      parseExtensions data (fuel + 2) pos c = parseExtensions data (fuel' + 1)
        (pos + (activityBlock c.byteReader activityId relatedId).length) (withActivity c idPos size) := by
  rcases activityId with _ | activityId
  · obtain rfl : relatedId = none := by simpa using hrelated
    have hsame : withActivity c 0 0 = c := by
      conv_rhs => rw [← show withActivity c c.activityIdStart c.activityIdLen = c from rfl, hstart, hlen]
    refine ⟨fuel + 1, 0, 0, fun info _ hsize ↦ ?_, by rw [hsame]; rfl⟩
    unfold EventHeaderEventInfo.activityId EventHeaderEventInfo.relatedActivityId
    rw [hsize]
    exact ⟨rfl, rfl⟩
  · have hfirst := activityId.length_toList
    rcases relatedId with _ | relatedId
    · dsimp only [activityBlock] at hplaced ⊢
      have hle := hplaced.length_le hpos
      rw [List.length_append, length_eventHeaderExtension, hfirst] at hle
      have hid := (placedAt_append.mp hplaced).2.slice_eq (by rw [length_eventHeaderExtension]; omega)
      rw [length_eventHeaderExtension, hfirst] at hid
      refine ⟨fuel, pos + 4, 16, fun info hinfo hsize ↦ ?_,
        parseExtensions_activity hplaced hpos hfirst (Or.inl rfl) hstart⟩
      unfold EventHeaderEventInfo.activityId EventHeaderEventInfo.relatedActivityId
      rw [hsize, hinfo, if_neg (by decide), hid]
      exact ⟨rfl, rfl⟩
    · have hsecond := relatedId.length_toList
      have hboth : (activityId.toList ++ relatedId.toList).length = 32 := by
        rw [List.length_append, hfirst, hsecond]
      dsimp only [activityBlock] at hplaced ⊢
      rw [List.append_assoc] at hplaced ⊢
      have hle := hplaced.length_le hpos
      rw [List.length_append, length_eventHeaderExtension, hboth] at hle
      obtain ⟨hidAt, hrelatedAt⟩ := placedAt_append.mp (placedAt_append.mp hplaced).2
      have hid := hidAt.slice_eq (by rw [length_eventHeaderExtension]; omega)
      have hrelatedId := hrelatedAt.slice_eq (by rw [length_eventHeaderExtension, hfirst]; omega)
      rw [length_eventHeaderExtension, hfirst] at hid hrelatedId
      rw [hsecond] at hrelatedId
      refine ⟨fuel, pos + 4, 32, fun info hinfo hsize ↦ ?_,
        parseExtensions_activity hplaced hpos hboth (Or.inr rfl) hstart⟩
      unfold EventHeaderEventInfo.activityId EventHeaderEventInfo.relatedActivityId
      rw [hsize, hinfo, if_neg (by decide), if_neg (by decide), hid, hrelatedId]
      exact ⟨rfl, rfl⟩

/-! ### Headers -/

/-- A header is read back. -/
theorem readEventHeader_placed {header : EventHeader} {order : ByteOrder}
    (hplaced : PlacedAt data 0 (header.bytes order))
    (horder : order = if HeaderFlags.hasFlag header.flags HeaderFlags.littleEndian then .little else .big)
    (hid : header.id < 65536) (htag : header.tag < 65536) :
    readEventHeader data c = .ok { c with header := header, byteReader := order } := by
  unfold EventHeader.bytes at hplaced
  obtain ⟨hfront, hopcode⟩ := placedAt_append.mp hplaced
  obtain ⟨hfront, htagAt⟩ := placedAt_append.mp hfront
  obtain ⟨hflags, hidAt⟩ := placedAt_append.mp hfront
  simp only [List.length_append, List.length_cons, List.length_nil, ByteOrder.length_toBytes,
    Nat.zero_add] at hidAt htagAt hopcode
  have hversion := hflags.tail
  have hlevel := hopcode.tail
  unfold readEventHeader
  rw [hflags.byteAt_eq, ok_bind, hversion.byteAt_eq, ok_bind, ← horder, hidAt.readUInt_eq (by decide) (by simpa using hid), ok_bind,
    htagAt.readUInt_eq (by decide) (by simpa using htag), ok_bind, hopcode.byteAt_eq, ok_bind,
    hlevel.byteAt_eq, ok_bind]

/-- The end of the name is found, and the enumeration starts. -/
theorem startEvent_placed {name : List UInt8} {pos limit : ℕ} (hname : 0 ∉ name)
    (hplaced : PlacedAt data c.metaStart (name ++ [0])) (hstart : c.metaStart ≠ 0)
    (hend : c.metaStart + name.length < c.metaEnd) (hlength : c.metaEnd ≤ data.length)
    (hsize : name.length < 65536) :
    startEvent data c pos limit =
      .ok (.ok (), { c with eventNameLen := name.length, dataStart := pos }.resetImpl limit) := by
  unfold startEvent
  rw [if_neg hstart, findNul_eq (by omega) hlength, ok_bind, nulAt_placed hname hplaced hend,
    if_neg (by omega), sub_of_le (Nat.le_add_right _ _), ok_bind, Nat.add_sub_cancel_left,
    Nat.mod_eq_of_lt hsize]

theorem defaultWithExtension_facts (build : Build) :
    (build.targetEndian = if HeaderFlags.hasFlag (HeaderFlags.defaultWithExtension build)
      HeaderFlags.littleEndian then .little else .big) ∧
    HeaderFlags.defaultWithExtension build =
      HeaderFlags.defaultWithExtension build &&& knownFlags ∧
    HeaderFlags.hasFlag (HeaderFlags.defaultWithExtension build) HeaderFlags.extension = true := by
  obtain ⟨assertions, order, pointer⟩ := build
  cases assertions <;> cases order <;> cases pointer <;> decide

end Run

/-! ### Events -/

/-- What a writer puts into an event. -/
structure WrittenEvent where
  header : EventHeader
  activityId : Option (Vector UInt8 16)
  relatedId : Option (Vector UInt8 16)
  name : List UInt8
  fields : FieldForest

namespace WrittenEvent

/-- The block of the metadata extension. -/
def metadata (event : WrittenEvent) : List UInt8 := event.name ++ 0 :: event.fields.metaBytes

/-- The bytes of an event, as `write_eventheader` puts them together. -/
def bytes (order : ByteOrder) (event : WrittenEvent) : List UInt8 :=
  event.header.bytes order ++ activityBlock order event.activityId event.relatedId ++
    eventHeaderExtension order event.metadata.length ExtensionKind.metadata false ++ event.metadata ++
    event.fields.dataBytes order

/-- An event that is written as it should be, on a target. -/
structure Valid (build : Build) (event : WrittenEvent) : Prop where
  flags : event.header.flags = HeaderFlags.defaultWithExtension build
  id : event.header.id < 65536
  tag : event.header.tag < 65536
  related : event.relatedId.isNone ∨ event.activityId.isSome
  name : 0 ∉ event.name
  metadata : event.metadata.length ≤ 65535
  fields : event.fields.WellFormed build.targetEndian true
  count : event.fields.count ≤ 255
  depth : event.fields.depth ≤ 8
  length : (event.bytes build.targetEndian).length < 0x80000000

/-- What the enumerator makes of the bytes of an event: it accepts them, `event_info` shows the name, the
header and the ids, and the moves show the items of the fields and then end. -/
structure Decoded (host : Build) (order : ByteOrder) (event : WrittenEvent) (data : List UInt8)
    (result : Exec (Except EventHeaderEnumeratorError Unit × EventHeaderEnumeratorContext))
    (start last finish : EventHeaderEnumeratorContext) : Prop where
  accepted : result = .ok (.ok (), start)
  name : start.eventInfo.nameBytes data = .ok event.name
  header : start.eventInfo.header = event.header
  activityId : start.eventInfo.activityId data = .ok (event.activityId.map Vector.toList)
  relatedId : start.eventInfo.relatedActivityId data = .ok (event.relatedId.map Vector.toList)
  items : Shows host data start (event.fields.items order) last
  ends : moveNextImpl host data last = .ok (false, finish)
  finish : finish.state = .afterLastItem

section Decode

variable {build host : Build} {event : WrittenEvent} {c : EventHeaderEnumeratorContext}

theorem length_header_bytes (order : ByteOrder) (header : EventHeader) :
    (header.bytes order).length = 8 := by
  unfold EventHeader.bytes
  simp only [List.length_append, List.length_cons, List.length_nil, ByteOrder.length_toBytes]

/-- The offset of the metadata. -/
def metaStart (order : ByteOrder) (event : WrittenEvent) : ℕ :=
  8 + (activityBlock order event.activityId event.relatedId).length + 4

/-- The offset of the data. -/
def dataStart (order : ByteOrder) (event : WrittenEvent) : ℕ :=
  event.metaStart order + event.metadata.length

theorem length_bytes (order : ByteOrder) (event : WrittenEvent) :
    (event.bytes order).length = event.dataStart order + (event.fields.dataBytes order).length := by
  unfold bytes dataStart metaStart
  rw [List.length_append, List.length_append, List.length_append, List.length_append,
    length_header_bytes, length_eventHeaderExtension]

/-- Where the parts of an event stand. -/
structure Parts (order : ByteOrder) (event : WrittenEvent) : Prop where
  header : PlacedAt (event.bytes order) 0 (event.header.bytes order)
  activity : PlacedAt (event.bytes order) 8 (activityBlock order event.activityId event.relatedId)
  extension : PlacedAt (event.bytes order)
    (8 + (activityBlock order event.activityId event.relatedId).length)
    (eventHeaderExtension order event.metadata.length ExtensionKind.metadata false ++ event.metadata)
  metadata : PlacedAt (event.bytes order) (event.metaStart order) event.metadata
  data : PlacedAt (event.bytes order) (event.dataStart order) (event.fields.dataBytes order)

theorem parts (order : ByteOrder) (event : WrittenEvent) : event.Parts order := by
  have hwhole : PlacedAt (event.bytes order) 0 (event.bytes order) := List.prefix_rfl
  obtain ⟨hfront, hdata⟩ := placedAt_append.mp hwhole
  obtain ⟨hfront, hmeta⟩ := placedAt_append.mp hfront
  obtain ⟨hfront, hextension⟩ := placedAt_append.mp hfront
  obtain ⟨hheader, hactivity⟩ := placedAt_append.mp hfront
  simp only [List.length_append, length_header_bytes, length_eventHeaderExtension, Nat.zero_add]
    at hdata hmeta hextension hactivity
  refine ⟨hheader, hactivity, placedAt_append.mpr ⟨hextension, ?_⟩, hmeta, hdata⟩
  rw [length_eventHeaderExtension]
  exact hmeta

/-- The context that an event is enumerated from. -/
def startContext (c : EventHeaderEnumeratorContext) (order : ByteOrder) (event : WrittenEvent)
    (keyword idPos idLen limit : ℕ) : EventHeaderEnumeratorContext :=
  { c with
    header := event.header
    byteReader := order
    keyword := keyword
    metaStart := event.metaStart order
    metaEnd := event.metaStart order + event.metadata.length
    activityIdStart := idPos
    activityIdLen := idLen
    eventNameLen := event.name.length
    dataStart := event.dataStart order }.resetImpl limit

theorem metadata_eq (event : WrittenEvent) :
    event.metadata = (event.name ++ [0]) ++ event.fields.metaBytes := by
  unfold metadata
  rw [List.append_assoc, List.singleton_append]

theorem length_metadata (event : WrittenEvent) :
    event.metadata.length = event.name.length + 1 + event.fields.metaBytes.length := by
  rw [event.metadata_eq, List.length_append, List.length_append, List.length_singleton]

theorem name_placed (order : ByteOrder) (event : WrittenEvent) :
    PlacedAt (event.bytes order) (event.metaStart order) (event.name ++ [0]) := by
  have hplaced := (event.parts order).metadata
  rw [event.metadata_eq] at hplaced
  exact (placedAt_append.mp hplaced).1

theorem fields_placed (order : ByteOrder) (event : WrittenEvent) :
    PlacedAt (event.bytes order) (event.metaStart order + event.name.length + 1)
      event.fields.metaBytes := by
  have hplaced := (event.parts order).metadata
  rw [event.metadata_eq] at hplaced
  have hfields := (placedAt_append.mp hplaced).2
  rwa [List.length_append, List.length_singleton, ← Nat.add_assoc] at hfields

/-- The enumerator accepts an event. -/
theorem enumerate_eq {tracepointName : List UInt8} {keyword : Option ℕ} {limit : ℕ}
    (h : event.Valid build) (hname : tracepointName.length < 256)
    (hvalidate : validateTracepointName tracepointName event.header.level = .ok (true, keyword)) :
    ∃ idPos idLen, IdsAt (event.bytes build.targetEndian) event.activityId event.relatedId idPos idLen ∧
      enumerateWithNameAndData (event.bytes build.targetEndian) c tracepointName limit =
        .ok (.ok (), startContext c build.targetEndian event (keyword.getD c.keyword) idPos idLen
          limit) := by
  obtain ⟨horder, hknown, hextension⟩ := defaultWithExtension_facts build
  rw [← h.flags] at horder hknown hextension
  have hlength := event.length_bytes build.targetEndian
  have hparts := event.parts build.targetEndian
  have hmetaStart : event.metaStart build.targetEndian =
    8 + (activityBlock build.targetEndian event.activityId event.relatedId).length + 4 := rfl
  have hdataStart : event.dataStart build.targetEndian =
    event.metaStart build.targetEndian + event.metadata.length := rfl
  have hsize := event.length_metadata
  have hshort := h.metadata
  have hbound := h.length
  obtain ⟨fuel, hfuel⟩ : ∃ fuel, (event.bytes build.targetEndian).length = fuel + 2 :=
    ⟨(event.bytes build.targetEndian).length - 2, by omega⟩
  obtain ⟨fuel', idPos, idLen, hids, hactivity⟩ := @parseExtensions_activityBlock _
    { c with
      header := event.header
      byteReader := build.targetEndian
      keyword := keyword.getD c.keyword
      metaStart := 0
      metaEnd := 0
      activityIdStart := 0
      activityIdLen := 0 } fuel 8 event.activityId event.relatedId hparts.activity (by omega) h.related
      rfl rfl
  refine ⟨idPos, idLen, hids, ?_⟩
  unfold enumerateWithNameAndData
  rw [if_neg (by omega), readEventHeader_placed hparts.header horder h.id h.tag, ok_bind,
    if_neg (not_not.mpr (by exact hknown)), hvalidate, ok_bind]
  dsimp only
  rw [if_neg (by decide), if_pos hextension, hfuel, hactivity,
    parseExtensions_metadata (by exact hparts.extension) (by dsimp only; omega) (by omega) rfl, ok_bind]
  dsimp only
  rw [startEvent_placed h.name (by exact event.name_placed build.targetEndian)
    (by dsimp only [withMetadata, withActivity]; omega) (by dsimp only [withMetadata, withActivity]; omega)
    (by dsimp only [withMetadata, withActivity]; omega) (by omega)]
  rfl

/-- Before the first item the first property is looked for. -/
theorem moveNext_beforeFirst {data : List UInt8} (hstate : c.state = .beforeFirstItem)
    (hsubstate : c.substate = .beforeFirstItem) (hbudget : c.moveNextRemaining ≠ 0) :
    Leads build data c c.spend := by
  unfold Leads
  rw [moveNextImpl_eq (by rw [hstate]; rfl) hbudget, moveNextSubstate,
    show c.spend.substate = .beforeFirstItem from hsubstate]
  dsimp only
  rw [debugAssert_of (by exact hstate), ok_bind]

/-- Behind the last field the event ends. -/
theorem nextProperty_end {data : List UInt8} (hnext : c.stackTop.nextOffset = c.metaEnd)
    (hindex : c.stackIndex = 0) :
    nextProperty build data c = .ok (false, c.setEndState .afterLastItem .afterLastItem) := by
  unfold nextProperty
  rw [if_neg (fun h ↦ h.2 hnext), if_neg (not_not.mpr hindex), if_neg (not_not.mpr hnext)]

/-- The fields of an event are offered where the enumeration starts. -/
theorem startContext_offers (h : event.Valid build) {keyword idPos idLen limit : ℕ}
    (hlimit : (event.fields.items build.targetEndian).length < limit) :
    Offers (event.bytes build.targetEndian)
      (startContext c build.targetEndian event keyword idPos idLen limit).spend event.fields true [] [] := by
  have hlength := event.length_bytes build.targetEndian
  have hmetaStart : event.metaStart build.targetEndian =
    8 + (activityBlock build.targetEndian event.activityId event.relatedId).length + 4 := rfl
  have hdataStart : event.dataStart build.targetEndian =
    event.metaStart build.targetEndian + event.metadata.length := rfl
  have hsize := event.length_metadata
  have hshort := h.metadata
  have hdepth := h.depth
  refine ⟨?_, ⟨?_, ?_, ?_, ?_, ?_, ?_, ?_⟩, ?_, ?_, ?_, fun _ ↦ ?_⟩ <;>
    dsimp only [startContext, resetImpl, spend] <;>
    try rw [List.append_nil]
  · exact h.fields
  · exact event.fields_placed build.targetEndian
  · omega
  · omega
  · omega
  · omega
  · exact (event.parts build.targetEndian).data
  · omega
  · exact h.count
  · omega
  · omega
  · omega

/-- Assumes: a valid event, a tracepoint name that goes with its level, and a limit that allows its items
and the move behind the last one. The enumerator shows the event as it was written, on any host. -/
theorem decodes {tracepointName : List UInt8} {keyword : Option ℕ} {limit : ℕ}
    (h : event.Valid build) (hname : tracepointName.length < 256)
    (hvalidate : validateTracepointName tracepointName event.header.level = .ok (true, keyword))
    (hlimit : (event.fields.items build.targetEndian).length < limit) :
    ∃ start last finish, Decoded host build.targetEndian event (event.bytes build.targetEndian)
      (enumerateWithNameAndData (event.bytes build.targetEndian) c tracepointName limit)
      start last finish := by
  obtain ⟨idPos, idLen, hids, haccepted⟩ := @enumerate_eq build event c tracepointName keyword limit h
    hname hvalidate
  have hoffers := @startContext_offers build event c h (keyword.getD c.keyword) idPos idLen limit hlimit
  have hleads : Leads host (event.bytes build.targetEndian)
      (startContext c build.targetEndian event (keyword.getD c.keyword) idPos idLen limit)
      (startContext c build.targetEndian event (keyword.getD c.keyword) idPos idLen limit).spend :=
    moveNext_beforeFirst rfl rfl (by dsimp only [startContext, resetImpl]; omega)
  obtain ⟨last, ready, hshows, hnext, hadvanced⟩ := shows_forest hleads hoffers
  have hlast := hoffers.last_eq rfl
  have hend : nextProperty host (event.bytes build.targetEndian) ready =
      .ok (false, ready.setEndState .afterLastItem .afterLastItem) :=
    nextProperty_end (by rw [hadvanced.nextOffset_eq, frame_metaEnd hadvanced.frame_eq, hlast])
      hadvanced.stackIndex_eq
  obtain ⟨hactivity, hrelated⟩ := hids (startContext c build.targetEndian event (keyword.getD c.keyword)
    idPos idLen limit).eventInfo rfl rfl
  have hlength := event.length_bytes build.targetEndian
  have hname := (placedAt_append.mp (event.name_placed build.targetEndian)).1.slice_eq (by
    have hdataStart : event.dataStart build.targetEndian =
      event.metaStart build.targetEndian + event.metadata.length := rfl
    omega)
  exact ⟨_, last, _, haccepted, hname, rfl, hactivity, hrelated, hshows, hnext.trans hend, rfl⟩

end Decode

end WrittenEvent

end Tracepoints
