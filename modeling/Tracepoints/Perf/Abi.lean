import Tracepoints.Lib.Exec
import Tracepoints.Lib.Record

/-!
# Records of a perf.data file

The plain structs of `tracepoint_perf/src/file_abi.rs` and `tracepoint_decode/src/perf_abi.rs`. The
source reads a struct as bytes in the byte order of the host and then swaps its fields where the
file has the other order: `ofBytes` is the first step, `byteSwap` the second.
-/

set_option autoImplicit false
set_option relaxedAutoImplicit false

namespace Tracepoints

open ByteOrder

/-! ### Sections and headers of a file -/

/-- `PerfFileSection`. -/
structure PerfFileSection where
  offset : ℕ
  size : ℕ
  deriving DecidableEq, Repr

namespace PerfFileSection

def byteSize : ℕ := 16

/-- The section in sixteen bytes. -/
def ofBytes (order : ByteOrder) (bytes : List UInt8) : PerfFileSection :=
  ⟨order.ofBytes (bytes.take 8), order.ofBytes ((bytes.drop 8).take 8)⟩

/-- The sixteen bytes of a section. -/
def toBytes (order : ByteOrder) (s : PerfFileSection) : List UInt8 :=
  order.toBytes 8 s.offset ++ order.toBytes 8 s.size

/-- `PerfFileSection::byte_swap`. -/
def byteSwap (s : PerfFileSection) : PerfFileSection :=
  ⟨swapBytes 8 s.offset, swapBytes 8 s.size⟩

end PerfFileSection

/-- `PerfFileHeaderPipe`. -/
structure PerfFileHeaderPipe where
  magic : ℕ
  size : ℕ
  deriving DecidableEq, Repr

namespace PerfFileHeaderPipe

def byteSize : ℕ := 16

/-- The start of a file header in sixteen bytes. -/
def ofBytes (order : ByteOrder) (bytes : List UInt8) : PerfFileHeaderPipe :=
  ⟨order.ofBytes (bytes.take 8), order.ofBytes ((bytes.drop 8).take 8)⟩

/-- The sixteen bytes of the start of a file header. -/
def toBytes (order : ByteOrder) (pipe : PerfFileHeaderPipe) : List UInt8 :=
  order.toBytes 8 pipe.magic ++ order.toBytes 8 pipe.size

end PerfFileHeaderPipe

/-- `PerfFileHeaderRest`. -/
structure PerfFileHeaderRest where
  attrSize : ℕ
  attrs : PerfFileSection
  data : PerfFileSection
  eventTypes : PerfFileSection
  flags : List ℕ
  deriving DecidableEq, Repr

namespace PerfFileHeaderRest

def byteSize : ℕ := 88

/-- The rest of a file header in 88 bytes. -/
def ofBytes (order : ByteOrder) (bytes : List UInt8) : PerfFileHeaderRest where
  attrSize := order.ofBytes (bytes.take 8)
  attrs := .ofBytes order (bytes.drop 8)
  data := .ofBytes order (bytes.drop 24)
  eventTypes := .ofBytes order (bytes.drop 40)
  flags := Record.decode order [8, 8, 8, 8] (bytes.drop 56)

/-- The 88 bytes of the rest of a file header. -/
def toBytes (order : ByteOrder) (rest : PerfFileHeaderRest) : List UInt8 :=
  order.toBytes 8 rest.attrSize ++ rest.attrs.toBytes order ++ rest.data.toBytes order ++
    rest.eventTypes.toBytes order ++ Record.encode order (rest.flags.map fun flag ↦ (8, flag))

/-- `PerfFileHeaderRest::byte_swap`. -/
def byteSwap (rest : PerfFileHeaderRest) : PerfFileHeaderRest where
  attrSize := swapBytes 8 rest.attrSize
  attrs := rest.attrs.byteSwap
  data := rest.data.byteSwap
  eventTypes := rest.eventTypes.byteSwap
  flags := rest.flags.map (swapBytes 8)

end PerfFileHeaderRest

/-- The size of `PerfFileHeader`. -/
def perfFileHeaderSize : ℕ := PerfFileHeaderPipe.byteSize + PerfFileHeaderRest.byteSize

/-- `PERFILE2_MAGIC_HOST_ENDIAN`. -/
def perfile2MagicHostEndian : ℕ := 0x32454C4946524550

/-- `PERFILE2_MAGIC_SWAP_ENDIAN`. -/
def perfile2MagicSwapEndian : ℕ := 0x50455246494C4532

/-- `ClockData`. -/
structure ClockData where
  version : ℕ
  clockid : ℕ
  wallClockNs : ℕ
  clockidTimeNs : ℕ
  deriving DecidableEq, Repr

namespace ClockData

def byteSize : ℕ := 24

/-- The clock data in 24 bytes. -/
def ofBytes (order : ByteOrder) (bytes : List UInt8) : ClockData :=
  ⟨order.ofBytes (bytes.take 4), order.ofBytes ((bytes.drop 4).take 4),
    order.ofBytes ((bytes.drop 8).take 8), order.ofBytes ((bytes.drop 16).take 8)⟩

/-- `ClockData::byte_swap`. -/
def byteSwap (clock : ClockData) : ClockData :=
  ⟨swapBytes 4 clock.version, swapBytes 4 clock.clockid, swapBytes 8 clock.wallClockNs,
    swapBytes 8 clock.clockidTimeNs⟩

end ClockData

/-! ### Headers of events -/

/-- `PerfEventHeader`. -/
structure PerfEventHeader where
  ty : ℕ
  misc : ℕ
  size : ℕ
  deriving DecidableEq, Repr

namespace PerfEventHeader

def byteSize : ℕ := 8

/-- The header of an event in eight bytes. -/
def ofBytes (order : ByteOrder) (bytes : List UInt8) : PerfEventHeader :=
  ⟨order.ofBytes (bytes.take 4), order.ofBytes ((bytes.drop 4).take 2),
    order.ofBytes ((bytes.drop 6).take 2)⟩

/-- The eight bytes of the header of an event. -/
def toBytes (order : ByteOrder) (header : PerfEventHeader) : List UInt8 :=
  order.toBytes 4 header.ty ++ order.toBytes 2 header.misc ++ order.toBytes 2 header.size

/-- `PerfEventHeader::byte_swap`. -/
def byteSwap (header : PerfEventHeader) : PerfEventHeader :=
  ⟨swapBytes 4 header.ty, swapBytes 2 header.misc, swapBytes 2 header.size⟩

end PerfEventHeader

namespace PerfEventHeaderType

def sample : ℕ := 9
def headerAttr : ℕ := 64
def userTypeStart : ℕ := headerAttr
def headerTracingData : ℕ := 66
def headerBuildId : ℕ := 67
def finishedRound : ℕ := 68
def auxtrace : ℕ := 71
def headerFeature : ℕ := 80
def finishedInit : ℕ := 82

end PerfEventHeaderType

/-! ### Attributes of events -/

namespace PerfEventAttrType

def tracepoint : UInt32 := 2

end PerfEventAttrType

namespace PerfEventAttrSize

def ver0 : ℕ := 64

end PerfEventAttrSize

namespace PerfEventAttrSampleType

def ip : UInt64 := 0x1
def tid : UInt64 := 0x2
def time : UInt64 := 0x4
def addr : UInt64 := 0x8
def read : UInt64 := 0x10
def callchain : UInt64 := 0x20
def id : UInt64 := 0x40
def cpu : UInt64 := 0x80
def period : UInt64 := 0x100
def streamId : UInt64 := 0x200
def raw : UInt64 := 0x400
def identifier : UInt64 := 0x10000

end PerfEventAttrSampleType

namespace PerfEventAttrReadFormat

def totalTimeEnabled : UInt64 := 0x1
def totalTimeRunning : UInt64 := 0x2
def id : UInt64 := 0x4
def group : UInt64 := 0x8
def lost : UInt64 := 0x10

end PerfEventAttrReadFormat

namespace PerfEventAttrOptions

def sampleIdAll : UInt64 := 0x40000

end PerfEventAttrOptions

/-- `has_flag` of the flag types of an attribute. -/
def hasFlag (flags mask : UInt64) : Bool := flags &&& mask != 0

/-- `PerfEventAttr`. -/
structure PerfEventAttr where
  attrType : UInt32
  size : UInt32
  config : UInt64
  sampleTime : UInt64
  sampleType : UInt64
  readFormat : UInt64
  options : UInt64
  wakeupValue : UInt32
  bpType : UInt32
  config1 : UInt64
  config2 : UInt64
  branchSampleType : UInt64
  sampleRegsUser : UInt64
  sampleStackUser : UInt32
  clockid : UInt32
  sampleRegsIntr : UInt64
  auxWatermark : UInt32
  sampleMaxStack : UInt16
  reserved2 : UInt16
  auxSampleSize : UInt32
  reserved3 : UInt32
  sigData : UInt64
  deriving DecidableEq, Repr

namespace PerfEventAttr

def byteSize : ℕ := 128
def sizeOffset : ℕ := 4

/-- The widths of the fields, in order. -/
def widths : List ℕ := [4, 4, 8, 8, 8, 8, 8, 4, 4, 8, 8, 8, 8, 4, 4, 8, 4, 2, 2, 4, 4, 8]

/-- The values of the fields, in order. -/
def values (attr : PerfEventAttr) : List ℕ :=
  [attr.attrType.toNat, attr.size.toNat, attr.config.toNat, attr.sampleTime.toNat,
    attr.sampleType.toNat, attr.readFormat.toNat, attr.options.toNat, attr.wakeupValue.toNat,
    attr.bpType.toNat, attr.config1.toNat, attr.config2.toNat, attr.branchSampleType.toNat,
    attr.sampleRegsUser.toNat, attr.sampleStackUser.toNat, attr.clockid.toNat,
    attr.sampleRegsIntr.toNat, attr.auxWatermark.toNat, attr.sampleMaxStack.toNat,
    attr.reserved2.toNat, attr.auxSampleSize.toNat, attr.reserved3.toNat, attr.sigData.toNat]

/-- The attribute with given values of its fields. -/
def ofValues (values : List ℕ) : PerfEventAttr where
  attrType := .ofNat (values.getD 0 0)
  size := .ofNat (values.getD 1 0)
  config := .ofNat (values.getD 2 0)
  sampleTime := .ofNat (values.getD 3 0)
  sampleType := .ofNat (values.getD 4 0)
  readFormat := .ofNat (values.getD 5 0)
  options := .ofNat (values.getD 6 0)
  wakeupValue := .ofNat (values.getD 7 0)
  bpType := .ofNat (values.getD 8 0)
  config1 := .ofNat (values.getD 9 0)
  config2 := .ofNat (values.getD 10 0)
  branchSampleType := .ofNat (values.getD 11 0)
  sampleRegsUser := .ofNat (values.getD 12 0)
  sampleStackUser := .ofNat (values.getD 13 0)
  clockid := .ofNat (values.getD 14 0)
  sampleRegsIntr := .ofNat (values.getD 15 0)
  auxWatermark := .ofNat (values.getD 16 0)
  sampleMaxStack := .ofNat (values.getD 17 0)
  reserved2 := .ofNat (values.getD 18 0)
  auxSampleSize := .ofNat (values.getD 19 0)
  reserved3 := .ofNat (values.getD 20 0)
  sigData := .ofNat (values.getD 21 0)

/-- The attribute in 128 bytes. -/
def ofBytes (order : ByteOrder) (bytes : List UInt8) : PerfEventAttr :=
  ofValues (Record.decode order widths bytes)

/-- The 128 bytes of an attribute. -/
def toBytes (order : ByteOrder) (attr : PerfEventAttr) : List UInt8 :=
  Record.encode order (widths.zip attr.values)

/-- `swap_bytes` of the integer types. -/
def swap16 (value : UInt16) : UInt16 := .ofNat (swapBytes 2 value.toNat)
def swap32 (value : UInt32) : UInt32 := .ofNat (swapBytes 4 value.toNat)
def swap64 (value : UInt64) : UInt64 := .ofNat (swapBytes 8 value.toNat)

/-- `reverse_bits` of `u64`. -/
def reverseBits (value : UInt64) : UInt64 := ⟨value.toBitVec.reverse⟩

/-- `PerfEventAttr::byte_swap`. The option bits are reversed within each byte; some fields stay as
they are. -/
def byteSwap (attr : PerfEventAttr) : PerfEventAttr :=
  { attr with
    attrType := swap32 attr.attrType
    size := swap32 attr.size
    config := swap64 attr.config
    sampleTime := swap64 attr.sampleTime
    sampleType := swap64 attr.sampleType
    readFormat := swap64 attr.readFormat
    options := swap64 (reverseBits attr.options)
    wakeupValue := swap32 attr.wakeupValue
    bpType := swap32 attr.bpType
    config1 := swap64 attr.config1
    config2 := swap64 attr.config2
    branchSampleType := swap64 attr.branchSampleType
    sampleRegsUser := swap64 attr.sampleRegsUser
    sampleStackUser := swap32 attr.sampleStackUser
    auxWatermark := swap32 attr.auxWatermark
    sampleMaxStack := swap16 attr.sampleMaxStack
    auxSampleSize := swap32 attr.auxSampleSize }

/-! ### Laying out and reading back -/

theorem length_toBytes (order : ByteOrder) (attr : PerfEventAttr) :
    (attr.toBytes order).length = byteSize := by
  have hfst : (widths.zip attr.values).map Prod.fst = widths := List.map_fst_zip le_rfl
  rw [toBytes, Record.length_encode, hfst]
  rfl

theorem ofValues_values (attr : PerfEventAttr) : ofValues attr.values = attr := by
  simp only [ofValues, values, List.getD_cons_zero, List.getD_cons_succ, UInt16.ofNat_toNat,
    UInt32.ofNat_toNat, UInt64.ofNat_toNat]

/-- Reading back the bytes of an attribute gives the attribute. -/
theorem ofBytes_toBytes (order : ByteOrder) (attr : PerfEventAttr) (rest : List UInt8) :
    ofBytes order (attr.toBytes order ++ rest) = attr := by
  have h16 (value : UInt16) : value.toNat < 256 ^ 2 := value.toNat_lt
  have h32 (value : UInt32) : value.toNat < 256 ^ 4 := value.toNat_lt
  have h64 (value : UInt64) : value.toNat < 256 ^ 8 := value.toNat_lt
  have hfields : ∀ field ∈ widths.zip attr.values, field.2 < 256 ^ field.1 := by
    simp only [widths, values, List.zip_cons_cons, List.zip_nil_left, List.forall_mem_cons,
      List.not_mem_nil, false_implies, implies_true, and_true, h16, h32, h64]
  have h := Record.decode_encode order rest hfields
  have hfst : (widths.zip attr.values).map Prod.fst = widths := List.map_fst_zip le_rfl
  have hsnd : (widths.zip attr.values).map Prod.snd = attr.values := List.map_snd_zip le_rfl
  rw [hfst, hsnd] at h
  rw [ofBytes, toBytes, h, ofValues_values]

end PerfEventAttr

namespace PerfFileSection

variable (order : ByteOrder) (s : PerfFileSection)

@[simp] theorem length_toBytes : (s.toBytes order).length = byteSize := by
  simp [toBytes, byteSize]

/-- Reading back the bytes of a section gives the section. -/
theorem ofBytes_toBytes {s : PerfFileSection} (hoffset : s.offset < 256 ^ 8)
    (hsize : s.size < 256 ^ 8) (rest : List UInt8) :
    ofBytes order (s.toBytes order ++ rest) = s := by
  have hlength (value : ℕ) : (order.toBytes 8 value).length = 8 := order.length_toBytes _ _
  rw [ofBytes, toBytes, List.append_assoc, List.take_left' (hlength _), List.drop_left' (hlength _),
    List.take_left' (hlength _), ByteOrder.ofBytes_toBytes hoffset,
    ByteOrder.ofBytes_toBytes hsize]

end PerfFileSection

namespace PerfFileHeaderPipe

variable (order : ByteOrder)

@[simp] theorem length_toBytes (pipe : PerfFileHeaderPipe) :
    (pipe.toBytes order).length = byteSize := by
  simp [toBytes, byteSize]

/-- Reading back the bytes of the start of a header gives it. -/
theorem ofBytes_toBytes {pipe : PerfFileHeaderPipe} (hmagic : pipe.magic < 256 ^ 8)
    (hsize : pipe.size < 256 ^ 8) (rest : List UInt8) :
    ofBytes order (pipe.toBytes order ++ rest) = pipe := by
  have hlength (value : ℕ) : (order.toBytes 8 value).length = 8 := order.length_toBytes _ _
  rw [ofBytes, toBytes, List.append_assoc, List.take_left' (hlength _), List.drop_left' (hlength _),
    List.take_left' (hlength _), ByteOrder.ofBytes_toBytes hmagic, ByteOrder.ofBytes_toBytes hsize]

end PerfFileHeaderPipe

namespace PerfFileHeaderRest

variable (order : ByteOrder)

/-- The fields of the rest of a header fit their widths. -/
structure Fits (rest : PerfFileHeaderRest) : Prop where
  attrSize : rest.attrSize < 256 ^ 8
  attrsOffset : rest.attrs.offset < 256 ^ 8
  attrsSize : rest.attrs.size < 256 ^ 8
  dataOffset : rest.data.offset < 256 ^ 8
  dataSize : rest.data.size < 256 ^ 8
  eventTypesOffset : rest.eventTypes.offset < 256 ^ 8
  eventTypesSize : rest.eventTypes.size < 256 ^ 8
  flags : ∀ flag ∈ rest.flags, flag < 256 ^ 8
  flags_length : rest.flags.length = 4

theorem flags_widths {flags : List ℕ} (h : flags.length = 4) :
    (flags.map fun flag ↦ (8, flag)).map Prod.fst = [8, 8, 8, 8] := by
  rw [List.map_map, show (Prod.fst ∘ fun flag : ℕ ↦ (8, flag)) = fun _ ↦ 8 from rfl,
    List.map_const', h]
  rfl

theorem length_toBytes {rest : PerfFileHeaderRest} (h : rest.flags.length = 4) :
    (rest.toBytes order).length = byteSize := by
  have hflags : ((rest.flags.map fun flag ↦ (8, flag)).map Prod.fst).sum = 32 := by
    rw [flags_widths h]
    rfl
  simp only [toBytes, List.length_append, ByteOrder.length_toBytes, PerfFileSection.length_toBytes,
    Record.length_encode, hflags]
  rfl

/-- Reading back the bytes of the rest of a header gives it. -/
theorem ofBytes_toBytes {rest : PerfFileHeaderRest} (h : rest.Fits) (suffix : List UInt8) :
    ofBytes order (rest.toBytes order ++ suffix) = rest := by
  obtain ⟨attrSize, attrs, data, eventTypes, flags⟩ := rest
  have hlength : (order.toBytes 8 attrSize).length = 8 := order.length_toBytes _ _
  have hsection (s : PerfFileSection) : (s.toBytes order).length = 16 :=
    PerfFileSection.length_toBytes order s
  have hfits : ∀ field ∈ flags.map fun flag ↦ (8, flag), field.2 < 256 ^ field.1 := by
    simpa using h.flags
  have hdecode := Record.decode_encode order suffix hfits
  have hvalues : (flags.map fun flag ↦ (8, flag)).map Prod.snd = flags := by
    rw [List.map_map]
    exact List.map_id _
  rw [flags_widths h.flags_length, hvalues] at hdecode
  have hdrop24 (first second third rest : List UInt8) (hfirst : first.length = 8)
      (hsecond : second.length = 16) :
      (first ++ (second ++ rest)).drop 24 = rest := by
    rw [show 24 = 8 + 16 from rfl, ← List.drop_drop, List.drop_left' hfirst,
      List.drop_left' hsecond]
  have hdrop40 (first second third rest : List UInt8) (hfirst : first.length = 8)
      (hsecond : second.length = 16) (hthird : third.length = 16) :
      (first ++ (second ++ (third ++ rest))).drop 40 = rest := by
    rw [show 40 = 24 + 16 from rfl, ← List.drop_drop, hdrop24 first second third _ hfirst hsecond,
      List.drop_left' hthird]
  have hdrop56 (first second third fourth rest : List UInt8) (hfirst : first.length = 8)
      (hsecond : second.length = 16) (hthird : third.length = 16) (hfourth : fourth.length = 16) :
      (first ++ (second ++ (third ++ (fourth ++ rest)))).drop 56 = rest := by
    rw [show 56 = 40 + 16 from rfl, ← List.drop_drop,
      hdrop40 first second third _ hfirst hsecond hthird, List.drop_left' hfourth]
  simp only [ofBytes, toBytes, List.append_assoc]
  rw [List.take_left' hlength, List.drop_left' hlength,
    hdrop24 _ _ (data.toBytes order) _ hlength (hsection _),
    hdrop40 _ _ _ _ hlength (hsection _) (hsection _),
    hdrop56 _ _ _ _ _ hlength (hsection _) (hsection _) (hsection _), hdecode,
    ByteOrder.ofBytes_toBytes h.attrSize,
    PerfFileSection.ofBytes_toBytes order h.attrsOffset h.attrsSize,
    PerfFileSection.ofBytes_toBytes order h.dataOffset h.dataSize,
    PerfFileSection.ofBytes_toBytes order h.eventTypesOffset h.eventTypesSize]

end PerfFileHeaderRest

/-! ### The headers behind the data -/

/-- The section of a header, in the table of the headers that the flags tell. -/
def headerSection (order : ByteOrder) (content : List UInt8) (flags : ℕ) (header : Fin 32) :
    List (Fin 32) → ℕ → Option PerfFileSection
  | [], _ => none
  | index :: indexes, pos =>
    if flags.testBit index then
      if index = header then
        some (.ofBytes order ((content.drop pos).take PerfFileSection.byteSize))
      else headerSection order content flags header indexes (pos + PerfFileSection.byteSize)
    else headerSection order content flags header indexes pos

/-- The bytes of a section. -/
def sectionBytes (content : List UInt8) (s : PerfFileSection) : List UInt8 :=
  (content.drop s.offset).take s.size

end Tracepoints
