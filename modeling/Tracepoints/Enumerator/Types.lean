import Tracepoints.Lib.Exec

/-!
# Field definitions of an EventHeader event

The encoding and format bytes of a field definition, the header flags, the extension kinds
(`eventheader_types/src/enums.rs`) and the event header (`eventheader_types/src/descriptors.rs`).
Encoding and format are the bytes themselves, as in the source: a value in the low bits and flags
above it.
-/

set_option autoImplicit false
set_option relaxedAutoImplicit false

namespace Tracepoints

/-- `FieldEncoding`: the encoding byte of a field definition. -/
abbrev FieldEncoding := UInt8

namespace FieldEncoding

def invalid : FieldEncoding := 0
def struct : FieldEncoding := 1
def value8 : FieldEncoding := 2
def value16 : FieldEncoding := 3
def value32 : FieldEncoding := 4
def value64 : FieldEncoding := 5
def value128 : FieldEncoding := 6
def zStringChar8 : FieldEncoding := 7
def zStringChar16 : FieldEncoding := 8
def zStringChar32 : FieldEncoding := 9
def stringLength16Char8 : FieldEncoding := 10
def stringLength16Char16 : FieldEncoding := 11
def stringLength16Char32 : FieldEncoding := 12
def binaryLength16Char8 : FieldEncoding := 13

def valueMask : UInt8 := 0x1F
def flagMask : UInt8 := 0xE0
def arrayFlagMask : UInt8 := 0x60
def cArrayFlag : UInt8 := 0x20
def vArrayFlag : UInt8 := 0x40
def chainFlag : UInt8 := 0x80

/-- The encoding without any flags. -/
def withoutFlags (encoding : FieldEncoding) : FieldEncoding := encoding &&& valueMask

/-- The encoding without the chain flag. -/
def withoutChainFlag (encoding : FieldEncoding) : FieldEncoding := encoding &&& ~~~chainFlag

/-- The array flags of the encoding. -/
def arrayFlags (encoding : FieldEncoding) : UInt8 := encoding &&& (cArrayFlag ||| vArrayFlag)

/-- Some array flag is present. -/
def isArray (encoding : FieldEncoding) : Bool := 0 != encoding &&& (cArrayFlag ||| vArrayFlag)

/-- The constant-length array flag is present. -/
def isConstantLengthArray (encoding : FieldEncoding) : Bool := 0 != encoding &&& cArrayFlag

/-- The variable-length array flag is present. -/
def isVariableLengthArray (encoding : FieldEncoding) : Bool := 0 != encoding &&& vArrayFlag

/-- The chain flag is present: a format byte follows. -/
def hasChainFlag (encoding : FieldEncoding) : Bool := 0 != encoding &&& chainFlag

/-- An encoding has an array flag exactly when it has one of the two. -/
theorem isArray_eq (encoding : FieldEncoding) :
    isArray encoding = (isConstantLengthArray encoding || isVariableLengthArray encoding) := by
  cases encoding with | ofBitVec bits => revert bits; decide

/-- A scalar encoding without the chain flag is its own value. -/
theorem withoutFlags_of_not_isArray (encoding : FieldEncoding)
    (h : isArray (withoutChainFlag encoding) = false) :
    withoutFlags (withoutChainFlag encoding) = withoutChainFlag encoding := by
  cases encoding with | ofBitVec bits => revert bits; decide

end FieldEncoding

/-- `FieldFormat`: the format byte of a field definition. -/
abbrev FieldFormat := UInt8

namespace FieldFormat

def default : FieldFormat := 0
def unsignedInt : FieldFormat := 1
def signedInt : FieldFormat := 2
def hexInt : FieldFormat := 3
def errno : FieldFormat := 4
def pid : FieldFormat := 5
def time : FieldFormat := 6
def boolean : FieldFormat := 7
def float : FieldFormat := 8
def hexBytes : FieldFormat := 9
def string8 : FieldFormat := 10
def stringUtf : FieldFormat := 11
def stringUtfBom : FieldFormat := 12
def stringXml : FieldFormat := 13
def stringJson : FieldFormat := 14
def uuid : FieldFormat := 15
def port : FieldFormat := 16
def ipAddress : FieldFormat := 17
def ipAddressObsolete : FieldFormat := 18
def ipv4 : FieldFormat := ipAddress
def ipv6 : FieldFormat := ipAddressObsolete
def valueMask : UInt8 := 0x7F
def chainFlag : UInt8 := 0x80

/-- The format without its chain flag. -/
def withoutFlags (format : FieldFormat) : FieldFormat := format &&& valueMask

/-- The chain flag is present: a tag follows. -/
def hasChainFlag (format : FieldFormat) : Bool := 0 != format &&& chainFlag

end FieldFormat

/-- `FieldType`: encoding without chain flag, format without flags, and tag. -/
structure FieldType where
  encoding : FieldEncoding
  format : FieldFormat
  tag : ℕ
  deriving DecidableEq, Repr

namespace HeaderFlags

def pointer64 : UInt8 := 0x01
def littleEndian : UInt8 := 0x02
def extension : UInt8 := 0x04

/-- `HeaderFlags::Default` of the target. -/
def default (build : Build) : UInt8 :=
  (if build.pointer64 then pointer64 else 0) |||
    (match build.targetEndian with | .little => littleEndian | .big => 0)

/-- `HeaderFlags::DefaultWithExtension` of the target. -/
def defaultWithExtension (build : Build) : UInt8 := default build ||| extension

/-- `HeaderFlags::has_flag`. -/
def hasFlag (flags flag : UInt8) : Bool := flags &&& flag != 0

end HeaderFlags

namespace ExtensionKind

def invalid : ℕ := 0
def metadata : ℕ := 1
def activityId : ℕ := 2
def chainFlag : ℕ := 0x8000

/-- The kind without its chain flag, `kind & ValueMask`. -/
def value (kind : ℕ) : ℕ := kind % 0x8000

/-- The chain flag of a 16-bit kind: another extension block follows. -/
def hasChainFlag (kind : ℕ) : Bool := kind / 0x8000 % 2 == 1

end ExtensionKind

/-- `EventHeader`: the eight bytes at the start of an event. -/
structure EventHeader where
  flags : UInt8
  version : UInt8
  id : ℕ
  tag : ℕ
  opcode : UInt8
  level : UInt8
  deriving DecidableEq, Repr

end Tracepoints
