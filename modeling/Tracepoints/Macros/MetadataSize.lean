import Mathlib.Algebra.Order.BigOperators.Group.List
import Tracepoints.Macros.Accepted

/-!
# The size of the generated metadata

The parser of the macro rejects an event whose estimated metadata is longer than 65535 bytes, the limit
of a metadata extension. The estimate takes the format byte of a field from the format of its option,
the generator also from an expression in its place. A field with a format expression, no tag and an
option without a format of its own is estimated one byte too short (`FieldInfo.isUndercounted`), and data
without metadata two bytes too long. `metadata_fits_iff` says when the metadata fits; the byte that the
estimate starts with makes up for one field, and `twoFormats_too_long` is an event with two.
-/

set_option autoImplicit false
set_option relaxedAutoImplicit false

namespace Tracepoints

open Exec EventInfo

/-- A field whose format byte the estimate leaves out. -/
def FieldInfo.isUndercounted (field : FieldInfo) : Bool :=
  field.option.strategy.hasMetadata && field.tag.isEmpty && !field.formatOrFieldCountExpr.isEmpty &&
    field.formatOrFieldCountInt == 0

/-- The number of fields whose format byte the estimate leaves out. -/
def EventInfo.undercounted (event : EventInfo) : ℕ := event.fields.countP FieldInfo.isUndercounted

/-- The size of the event name and of the fields with metadata, without the format bytes that the
estimate leaves out. -/
def EventInfo.declaredSize (event : EventInfo) : ℕ :=
  (utf8 event.name).length + 1 +
    ((event.fields.filter fun field ↦ field.option.strategy.hasMetadata).map estimatedSize).sum

/-! ### The generated array -/

theorem length_appendMetaName (name : List Char) :
    (appendMetaName name).length = (utf8 name).length + 1 := by
  simp [appendMetaName]

/-- The metadata of a field has its estimated size, up to the format byte. -/
theorem length_metadata (field : FieldInfo) :
    field.metadata.length =
      (if field.option.strategy.hasMetadata then estimatedSize field else 0) +
        (if field.isUndercounted then 1 else 0) := by
  unfold FieldInfo.metadata FieldInfo.isUndercounted estimatedSize FieldInfo.hasOut FieldInfo.hasTag
  cases field.option.strategy.hasMetadata with
  | false => simp
  | true =>
    by_cases htag : field.tag.isEmpty = true <;>
      by_cases hexpr : field.formatOrFieldCountExpr.isEmpty = true <;>
        by_cases hint : field.formatOrFieldCountInt = 0 <;>
          simp [htag, hexpr, hint, length_appendMetaName, addTag]

/-- The length of the generated metadata. -/
theorem length_eventMetadata (event : EventInfo) :
    event.metadata.length = event.declaredSize + event.undercounted := by
  have hfields (fields : List FieldInfo) :
      (fields.flatMap FieldInfo.metadata).length =
        ((fields.filter fun field ↦ field.option.strategy.hasMetadata).map estimatedSize).sum +
          fields.countP FieldInfo.isUndercounted := by
    induction fields with
    | nil => rfl
    | cons field fields ih =>
      rw [List.flatMap_cons, List.length_append, length_metadata, ih, List.countP_cons,
        List.filter_cons]
      cases field.option.strategy.hasMetadata with
      | false =>
        simp only [Bool.false_eq_true, if_false]
        omega
      | true =>
        simp only [if_true, List.map_cons, List.sum_cons]
        omega
  unfold EventInfo.metadata declaredSize undercounted
  rw [List.length_append, length_appendMetaName, hfields]
  omega

/-- The estimate of an accepted event counts what its fields declare. -/
theorem EventParsed.declaredSize_lt {event : EventInfo} (h : EventParsed event) :
    event.declaredSize < metadataBytesMax := by
  have hsum : ((event.fields.filter fun field ↦ field.option.strategy.hasMetadata).map
      estimatedSize).sum ≤ (event.fields.map estimatedSize).sum :=
    List.Sublist.sum_le_sum (List.filter_sublist.map estimatedSize) fun _ _ ↦ Nat.zero_le _
  have hused := h.used_eq
  have hle := h.used_le
  unfold EventInfo.declaredSize
  omega

/-! ### The size that is sent -/

/-- The metadata extension that a tracepoint writes has the size of its metadata. -/
def EventHeaderTracepoint.SizeRecorded (build : Build) (tracepoint : EventHeaderTracepoint) : Prop :=
  ∀ (activityId relatedId : Option (Vector UInt8 16)) (data : List (List UInt8)),
    relatedId.isNone ∨ activityId.isSome →
      tracepoint.writeEventheader build activityId relatedId data =
        .ok (tracepoint.header.bytes build.targetEndian ++
          activityBlock build.targetEndian activityId relatedId ++
          eventHeaderExtension build.targetEndian tracepoint.metadata.length ExtensionKind.metadata
            false ++
          (tracepoint.metadata ++ data.flatten))

theorem EventHeaderTracepoint.sizeRecorded_of_le {build : Build} {tracepoint : EventHeaderTracepoint}
    (hflags : tracepoint.header.flags = HeaderFlags.defaultWithExtension build)
    (hne : tracepoint.metadata ≠ []) (hle : tracepoint.metadata.length ≤ metadataBytesMax) :
    tracepoint.SizeRecorded build := by
  intro activityId relatedId data hrelated
  have hlen : tracepoint.metaLen = tracepoint.metadata.length :=
    Nat.mod_eq_of_lt (Nat.lt_succ_of_le hle)
  have hpos : tracepoint.metaLen ≠ 0 := by
    rw [hlen]
    simpa using hne
  unfold EventHeaderTracepoint.writeEventheader
  rw [writeEventheader_eq build _ hpos hrelated hflags, hlen, List.flatten_cons]

/-! ### Events with two formats -/

/-- The text of a stream of one word. -/
def wordText : List TokenTree → List Char
  | [.ident name] => name
  | [.literal text] => text
  | _ => []

/-- A comma and the option `u8("b", 1, format(HexInt))`. -/
def hexByteField : List TokenTree :=
  [.punct ',', .ident "u8".toList, .group .parenthesis
    [.literal ['"', 'b', '"'], .punct ',', .literal ['1'], .punct ',', .ident "format".toList,
      .group .parenthesis [.ident "HexInt".toList]]]

/-- `write_event!(P, "aa...", u8("b", 1, format(HexInt)), u8("b", 1, format(HexInt)))`. -/
def twoFormats (nameLen : ℕ) : List TokenTree :=
  [.ident ['P'], .punct ',', .literal ('"' :: (List.replicate nameLen 'a' ++ ['"']))] ++
    hexByteField ++ hexByteField

/-- Whether a result is an event that passes a check. -/
def acceptedWith (check : EventInfo → Bool) : Exec (Except (List String) EventInfo) → Bool
  | .ok (.ok event) => check event
  | _ => false

theorem exists_of_acceptedWith {check : EventInfo → Bool}
    {result : Exec (Except (List String) EventInfo)} (h : acceptedWith check result = true) :
    ∃ event, result = .ok (.ok event) ∧ check event = true := by
  unfold acceptedWith at h
  split at h
  · exact ⟨_, rfl, h⟩
  · cases h

/-- Assumes: an event that the macro accepts, in a tracepoint with the header flags of the generated
code. The metadata has at most 65535 bytes, and the size that is sent is its size, exactly if the format
bytes that the estimate leaves out fit behind what it counts. -/
theorem metadata_fits_iff (display : List TokenTree → List Char) (argTokens : List TokenTree)
    (event : EventInfo) (haccepted : tryFromTokens display argTokens = .ok (.ok event))
    (build : Build) (expressions : Expressions) (header : EventHeader)
    (hflags : header.flags = HeaderFlags.defaultWithExtension build) :
    ((event.metadataBytes build expressions).length ≤ metadataBytesMax ∧
        (EventHeaderTracepoint.mk header (event.metadataBytes build expressions)).SizeRecorded build) ↔
      event.undercounted ≤ metadataBytesMax - event.declaredSize := by
  obtain ⟨_, hresult, hparsed⟩ := tryFromTokens_returns argTokens
  rw [haccepted] at hresult
  obtain rfl := Except.ok.inj hresult
  have hlt := (hparsed event rfl).declaredSize_lt
  have hlength : (event.metadataBytes build expressions).length =
      event.declaredSize + event.undercounted := by
    rw [EventInfo.metadataBytes, List.length_map, length_eventMetadata]
  have hne : event.metadataBytes build expressions ≠ [] := by
    rw [← List.length_pos_iff, hlength]
    unfold EventInfo.declaredSize
    omega
  constructor
  · rintro ⟨hle, -⟩
    omega
  · intro hle
    have hfits : (event.metadataBytes build expressions).length ≤ metadataBytesMax := by omega
    exact ⟨hfits, EventHeaderTracepoint.sizeRecorded_of_le hflags hne hfits⟩

/-- A short event with two formats. -/
theorem metadata_fits_short :
    ∃ event, tryFromTokens wordText (twoFormats 3) = .ok (.ok event) ∧ event.undercounted = 2 ∧
      ∀ build expressions,
        (event.metadataBytes build expressions).length ≤ metadataBytesMax ∧
          (EventHeaderTracepoint.mk ⟨HeaderFlags.defaultWithExtension build, 0, 0, 0, 0, 5⟩
            (event.metadataBytes build expressions)).SizeRecorded build := by
  have hcheck : acceptedWith (fun event ↦ event.undercounted == 2 && event.declaredSize == 10)
      (tryFromTokens wordText (twoFormats 3)) = true := by
    decide +kernel
  obtain ⟨event, haccepted, hevent⟩ := exists_of_acceptedWith hcheck
  simp only [Bool.and_eq_true, beq_iff_eq] at hevent
  obtain ⟨hcount, hsize⟩ := hevent
  refine ⟨event, haccepted, hcount, fun build expressions ↦ ?_⟩
  refine (metadata_fits_iff wordText (twoFormats 3) event haccepted build expressions _ rfl).mpr ?_
  rw [hcount, hsize]
  decide

/-! ### The longest event -/

theorem unescapeLoop_replicate (count : ℕ) {fuel : ℕ} (hfuel : count < fuel) (dest : List Char) :
    unescapeLoop fuel dest (List.replicate count 'a') =
      .ok (some (dest ++ List.replicate count 'a')) := by
  induction count generalizing fuel dest with
  | zero =>
    obtain ⟨fuel, rfl⟩ := Nat.exists_eq_add_of_lt hfuel
    simp [unescapeLoop]
  | succ count ih =>
    obtain ⟨fuel, rfl⟩ := Nat.exists_eq_add_of_lt hfuel
    rw [List.replicate_succ, show count + 1 + fuel + 1 = (count + fuel + 1) + 1 by omega, unescapeLoop,
      if_pos (by decide), ih (by omega), List.append_assoc, List.singleton_append]

theorem length_utf8_replicate (count : ℕ) : (utf8 (List.replicate count 'a')).length = count := by
  induction count with
  | zero => rfl
  | succ count ih =>
    rw [List.replicate_succ, utf8_cons, List.length_append, ih,
      utf8EncodeChar_ascii (show 'a'.toNat < 0x80 by decide), List.length_singleton, Nat.add_comm]

theorem nextStringLiteral_replicate (count : ℕ) (rest : List TokenTree) (message : String) :
    (Parser.mk (.literal ('"' :: (List.replicate count 'a' ++ ['"'])) :: .punct ',' :: rest)
      []).nextStringLiteral .required message = .ok (some (List.replicate count 'a'), ⟨rest, []⟩) := by
  have hlength : ¬(utf8 ('"' :: (List.replicate count 'a' ++ ['"']))).length < 2 := by
    have hquote := utf8Size_pos '"'
    rw [utf8_cons, utf8_append, utf8_singleton, List.length_append, List.length_append]
    omega
  have hlast : ('"' :: (List.replicate count 'a' ++ ['"'])).getLast? = some '"' := by
    rw [← List.cons_append, List.getLast?_concat]
  have hunescape : unescape (List.replicate count 'a') = .ok (some (List.replicate count 'a')) := by
    unfold unescape
    rw [List.length_replicate]
    exact unescapeLoop_replicate count (Nat.lt_succ_self count) []
  simp only [Parser.nextStringLiteral, Parser.moveNext, Parser.nextStringLiteralFrom, Option.map_some,
    TokenTree.sole]
  rw [if_neg (not_or.mpr ⟨hlength, not_or.mpr ⟨by simp, by simp [hlast]⟩⟩), List.tail_cons,
    List.dropLast_concat, hunescape, ok_bind]
  rfl

theorem eventHead_twoFormats {count : ℕ} (hcount : count + 1 ≤ 65534) :
    eventHead ⟨twoFormats count, []⟩ = .ok
      ({ EventInfo.initial with
          providerSymbol := ['P']
          name := List.replicate count 'a'
          metadataBytesUsed := 1 + (count + 1) },
        ⟨hexByteField.tail ++ hexByteField, []⟩) := by
  have hident : (Parser.mk (twoFormats count) []).nextIdent .requiredNotLast
      "expected identifier for provider symbol, e.g. MY_PROVIDER" =
        (some ['P'], ⟨.literal ('"' :: (List.replicate count 'a' ++ ['"'])) :: .punct ',' ::
          (hexByteField.tail ++ hexByteField), []⟩) := rfl
  have hnul : '\x00' ∉ List.replicate count 'a' := fun hmem ↦
    absurd (List.mem_replicate.mp hmem).2 (by decide)
  unfold eventHead
  rw [hident]
  dsimp only
  rw [nextStringLiteral_replicate, ok_bind]
  dsimp only
  unfold EventInfo.setName EventInfo.addEstimatedMetadata
  dsimp only
  rw [length_utf8_replicate, if_neg hnul, if_neg (by decide), if_pos (by exact hcount)]
  rfl

/-- The longest name that the estimate allows in front of the two options. -/
def longestName : ℕ := 65527

theorem twoFormats_accepted :
    ∃ event, tryFromTokens wordText (twoFormats longestName) = .ok (.ok event) ∧
      event.undercounted = 2 ∧ event.declaredSize = 65534 := by
  have hcheck : acceptedWith (fun event ↦ event.undercounted == 2 && event.metadataBytesUsed == 65535 &&
      event.fields.all fun field ↦ field.option.strategy.hasMetadata)
      (tryFromTokens wordText (twoFormats longestName)) = true := by
    unfold tryFromTokens
    rw [eventHead_twoFormats (by decide), ok_bind]
    decide +kernel
  obtain ⟨event, haccepted, hevent⟩ := exists_of_acceptedWith hcheck
  simp only [Bool.and_eq_true, beq_iff_eq] at hevent
  obtain ⟨⟨hcount, hused⟩, hall⟩ := hevent
  obtain ⟨_, hresult, hparsed⟩ := @tryFromTokens_returns wordText (twoFormats longestName)
  rw [haccepted] at hresult
  obtain rfl := Except.ok.inj hresult
  have hsum := (hparsed event rfl).used_eq
  refine ⟨event, haccepted, hcount, ?_⟩
  unfold EventInfo.declaredSize
  rw [List.filter_eq_self.mpr (List.all_eq_true.mp hall)]
  omega

/-- Two formats that the estimate leaves out make the metadata of an accepted event too long: its size is
written as zero. -/
theorem twoFormats_too_long :
    ∃ event, tryFromTokens wordText (twoFormats longestName) = .ok (.ok event) ∧
      ∀ (build : Build) (expressions : Expressions) (header : EventHeader),
        (event.metadataBytes build expressions).length = 65536 ∧
          (EventHeaderTracepoint.mk header (event.metadataBytes build expressions)).metaLen = 0 := by
  obtain ⟨event, haccepted, hcount, hsize⟩ := twoFormats_accepted
  refine ⟨event, haccepted, fun build expressions header ↦ ?_⟩
  have hlength : (event.metadataBytes build expressions).length = 65536 := by
    rw [EventInfo.metadataBytes, List.length_map, length_eventMetadata, hcount, hsize]
  refine ⟨hlength, ?_⟩
  unfold EventHeaderTracepoint.metaLen
  dsimp only
  rw [hlength]

end Tracepoints
