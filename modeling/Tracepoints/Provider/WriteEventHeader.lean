import Tracepoints.Enumerator.Types

/-!
# Writing an event

`write_eventheader` of `eventheader/src/_internal.rs` puts the header, an optional activity extension and
the head of the metadata extension in front of the blocks of an event, and sends all of them.
`EventHeaderTracepoint::write_eventheader` of `eventheader/src/provider.rs` calls it with the constant
metadata of a tracepoint. What is sent is one sequence of bytes here, in the byte order of the target.
-/

set_option autoImplicit false
set_option relaxedAutoImplicit false

namespace Tracepoints

open Exec

/-- The bytes of an `EventHeader`. -/
def EventHeader.bytes (order : ByteOrder) (header : EventHeader) : List UInt8 :=
  [header.flags, header.version] ++ order.toBytes 2 header.id ++ order.toBytes 2 header.tag ++
    [header.opcode, header.level]

/-- The bytes of `EventHeaderExtension::from_parts`. -/
def eventHeaderExtension (order : ByteOrder) (size kind : ℕ) (chain : Bool) : List UInt8 :=
  order.toBytes 2 size ++
    order.toBytes 2 (if chain then kind ||| ExtensionKind.chainFlag else kind)

/-- The activity extension of `write_eventheader`, with the number of extensions behind it. -/
def activityExtension (build : Build) (extensionCount : ℕ) :
    Option (Vector UInt8 16) → Option (Vector UInt8 16) → Exec (List UInt8 × ℕ)
  | none, relatedId => do
    debugAssert build relatedId.isNone
    .ok ([], extensionCount)
  | some activityId, none => do
    let extensionCount ← subU8 build extensionCount 1
    .ok (eventHeaderExtension build.targetEndian 16 ExtensionKind.activityId (extensionCount > 0) ++
      activityId.toList, extensionCount)
  | some activityId, some relatedId => do
    let extensionCount ← subU8 build extensionCount 1
    .ok (eventHeaderExtension build.targetEndian 32 ExtensionKind.activityId (extensionCount > 0) ++
      activityId.toList ++ relatedId.toList, extensionCount)

/-- The head of the metadata extension of `write_eventheader`. -/
def metadataExtension (build : Build) (extensionCount metaLen : ℕ) : Exec (List UInt8 × ℕ) :=
  if metaLen ≠ 0 then do
    let extensionCount ← subU8 build extensionCount 1
    .ok (eventHeaderExtension build.targetEndian metaLen ExtensionKind.metadata (extensionCount > 0),
      extensionCount)
  else .ok ([], extensionCount)

/-- `write_eventheader`: the bytes that are sent behind the write index, for blocks `data` whose first
is the metadata. -/
def writeEventheader (build : Build) (eventHeader : EventHeader)
    (activityId relatedId : Option (Vector UInt8 16)) (metaLen : ℕ) (data : List (List UInt8)) :
    Exec (List UInt8) := do
  debugAssert build (relatedId.isNone ∨ activityId.isSome)
  debugAssert build
    (activityId.isNone ∧ metaLen = 0 ∨
      eventHeader.flags = HeaderFlags.defaultWithExtension build)
  let extensionCount := (if activityId.isSome then 1 else 0) + (if metaLen ≠ 0 then 1 else 0)
  let (activity, extensionCount) ← activityExtension build extensionCount activityId relatedId
  let (metadata, extensionCount) ← metadataExtension build extensionCount metaLen
  debugAssert build (extensionCount = 0)
  .ok (eventHeader.bytes build.targetEndian ++ activity ++ metadata ++ data.flatten)

/-- The activity extension block in front of the metadata. -/
def activityBlock (order : ByteOrder) :
    Option (Vector UInt8 16) → Option (Vector UInt8 16) → List UInt8
  | none, _ => []
  | some activityId, none =>
    eventHeaderExtension order 16 ExtensionKind.activityId true ++ activityId.toList
  | some activityId, some relatedId =>
    eventHeaderExtension order 32 ExtensionKind.activityId true ++ activityId.toList ++
      relatedId.toList

/-- Assumes: metadata, a related id only with an activity id, and the header flags of an event with
extensions. The metadata extension is the last one. -/
theorem writeEventheader_eq (build : Build) {eventHeader : EventHeader}
    {activityId relatedId : Option (Vector UInt8 16)} {metaLen : ℕ} (data : List (List UInt8))
    (hmeta : metaLen ≠ 0) (hrelated : relatedId.isNone ∨ activityId.isSome)
    (hflags : eventHeader.flags = HeaderFlags.defaultWithExtension build) :
    writeEventheader build eventHeader activityId relatedId metaLen data =
      .ok (eventHeader.bytes build.targetEndian ++
        activityBlock build.targetEndian activityId relatedId ++
        eventHeaderExtension build.targetEndian metaLen ExtensionKind.metadata false ++
        data.flatten) := by
  unfold writeEventheader
  rw [debugAssert_of hrelated, ok_bind, debugAssert_of (Or.inr hflags), ok_bind]
  cases activityId with
  | none =>
    obtain rfl : relatedId = none := by simpa using hrelated
    simp [activityExtension, metadataExtension, hmeta, debugAssert, subU8, activityBlock]
  | some activityId =>
    cases relatedId with
    | none => simp [activityExtension, metadataExtension, hmeta, debugAssert, subU8, activityBlock]
    | some relatedId =>
      simp [activityExtension, metadataExtension, hmeta, debugAssert, subU8, activityBlock]

/-- `EventHeaderTracepoint`, without its registration. -/
structure EventHeaderTracepoint where
  header : EventHeader
  metadata : List UInt8

/-- The length of the metadata as `EventHeaderTracepoint::write_eventheader` passes it on. -/
def EventHeaderTracepoint.metaLen (tracepoint : EventHeaderTracepoint) : ℕ :=
  tracepoint.metadata.length % 65536

/-- `EventHeaderTracepoint::write_eventheader`, for the data of the fields. -/
def EventHeaderTracepoint.writeEventheader (build : Build) (tracepoint : EventHeaderTracepoint)
    (activityId relatedId : Option (Vector UInt8 16)) (data : List (List UInt8)) :
    Exec (List UInt8) :=
  Tracepoints.writeEventheader build tracepoint.header activityId relatedId tracepoint.metaLen
    (tracepoint.metadata :: data)

end Tracepoints
