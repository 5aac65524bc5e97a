import Tracepoints.Text.TextFiltering

/-!
# Writing values

The functions of `ValueWriter` (`tracepoint_decode/src/writers.rs`) that write a number, an address, a
date or a character, as text and as JSON. What they take from outside the repository is the parameter
`Platform`: the broken-down time of the C library and the decimal text of finite floating-point
numbers. Addresses are written as the standard library of Rust does where the feature `rustc_1_77` is
enabled.

A floating-point number is given by its bits.
-/

set_option autoImplicit false
set_option relaxedAutoImplicit false

namespace Tracepoints

open Exec

namespace PerfConvertOptions

def floatExtraPrecision : PerfConvertOptions := 0x10
def floatNonFiniteAsString : PerfConvertOptions := 0x20
def intHexAsString : PerfConvertOptions := 0x40
def boolOutOfRangeAsString : PerfConvertOptions := 0x80
def unixTimeWithinRangeAsString : PerfConvertOptions := 0x100
def unixTimeOutOfRangeAsString : PerfConvertOptions := 0x200
def errnoKnownAsString : PerfConvertOptions := 0x400
def errnoUnknownAsString : PerfConvertOptions := 0x800

end PerfConvertOptions

/-! ### The platform -/

/-- `DateTime`, of a time that is valid. -/
structure DateTime where
  year : ℕ
  monthOfYear : ℕ
  dayOfMonth : ℕ
  hour : ℕ
  minute : ℕ
  second : ℕ
  deriving DecidableEq, Repr

/-- The formats `{}`, `{:e}`, `{:.N}` and `{:.Ne}` of a floating-point number. -/
inductive FloatFormat
  | display
  | exponent
  | precision (digits : ℕ)
  | precisionExponent (digits : ℕ)
  deriving DecidableEq, Repr

/-- What the writers take from outside the repository. -/
structure Platform where
  /-- The feature `rustc_1_77` is enabled. -/
  rustc177 : Bool
  /-- `DateTime::new`, if it is valid. -/
  dateTime : ℤ → Option DateTime
  /-- The text of a finite number of a width in bytes. -/
  finiteFloat : FloatFormat → ℕ → ℕ → List UInt8

/-! ### Numbers -/

/-- A signed number in base 10. -/
def displayInt (value : ℤ) : List UInt8 :=
  if value < 0 then ascii "-" ++ decimal value.natAbs else decimal value.natAbs

/-- A number in base 10, with zeros in front up to a width. -/
def paddedDecimal (width value : ℕ) : List UInt8 :=
  List.replicate (width - (decimal value).length) 0x30 ++ decimal value

/-- A text in quotation marks: `write_quoted`. -/
def quoted (text : List UInt8) : List UInt8 := ascii "\"" ++ text ++ ascii "\""

/-- A byte as two digits of base 16. -/
def twoHexDigits (digit : ℕ → Char) (byte : UInt8) : List UInt8 :=
  [UInt8.ofNat (digit (byte.toNat / 16)).toNat, UInt8.ofNat (digit (byte.toNat % 16)).toNat]

namespace ValueWriter

section Texts

variable (platform : Platform) (options : PerfConvertOptions)

/-- `write_hexbytes`. -/
def writeHexbytes (bytes : List UInt8) : List UInt8 :=
  [0x20].intercalate (bytes.map (twoHexDigits upperHexDigit))

/-- `write_hex32` and `write_hex64`. -/
def writeHex (value : ℕ) : List UInt8 := ascii "0x" ++ upperHex value

/-- `write_json_hex32` and `write_json_hex64`. -/
def writeJsonHex (value : ℕ) : List UInt8 :=
  if options.hasFlag .intHexAsString then quoted (writeHex value) else decimal value

/-- `write_uuid`. -/
def writeUuid (value : List UInt8) : List UInt8 :=
  let digits (bytes : List UInt8) : List UInt8 := bytes.flatMap (twoHexDigits Nat.digitChar)
  digits (value.take 4) ++ ascii "-" ++ digits ((value.drop 4).take 2) ++ ascii "-" ++
    digits ((value.drop 6).take 2) ++ ascii "-" ++ digits ((value.drop 8).take 2) ++ ascii "-" ++
    digits (value.drop 10)

/-- `write_ipv4`. -/
def writeIpv4 (value : List UInt8) : List UInt8 :=
  (ascii ".").intercalate (value.map fun byte ↦ decimal byte.toNat)

/-- The segments of an IPv6 address, of 16 bits each. -/
def segments : List UInt8 → List ℕ
  | high :: low :: rest => ByteOrder.big.ofBytes [high, low] :: segments rest
  | _ => []

/-- Segments in base 16 with colons between them. -/
def colonHex (chunk : List ℕ) : List UInt8 := (ascii ":").intercalate (chunk.map lowerHex)

/-- The longest run of zeros in some segments, the first one of several: its start and its length.
The run that ends before `index` starts at `current.1`. -/
def longestZeros (index : ℕ) (current longest : ℕ × ℕ) : List ℕ → ℕ × ℕ
  | [] => longest
  | segment :: rest =>
    if segment = 0 then
      let current := (if current.2 = 0 then index else current.1, current.2 + 1)
      longestZeros (index + 1) current (if longest.2 < current.2 then current else longest) rest
    else longestZeros (index + 1) (0, 0) longest rest

/-- An IPv6 address as the standard library of Rust displays it. -/
def displayIpv6 (value : List UInt8) : List UInt8 :=
  if value.take 12 = [0, 0, 0, 0, 0, 0, 0, 0, 0, 0, 0xFF, 0xFF] then
    ascii "::ffff:" ++ writeIpv4 (value.drop 12)
  else
    let parts := segments value
    let zeroes := longestZeros 0 (0, 0) (0, 0) parts
    if 1 < zeroes.2 then
      colonHex (parts.take zeroes.1) ++ ascii "::" ++ colonHex (parts.drop (zeroes.1 + zeroes.2))
    else colonHex parts

/-- `write_ipv6`. -/
def writeIpv6 (value : List UInt8) : List UInt8 :=
  if platform.rustc177 then displayIpv6 value else colonHex (segments value)

/-! ### Booleans, error numbers and times -/

/-- `write_bool`. -/
def writeBool (value : ℕ) : List UInt8 :=
  if value = 0 then ascii "false"
  else if value = 1 then ascii "true"
  else if options.hasFlag .boolOutOfRangeAsString then
    ascii "BOOL(" ++ displayInt (toSigned 4 value) ++ ascii ")"
  else displayInt (toSigned 4 value)

/-- `write_json_bool`. -/
def writeJsonBool (value : ℕ) : List UInt8 :=
  if value = 0 then ascii "false"
  else if value = 1 then ascii "true"
  else if options.hasFlag .boolOutOfRangeAsString then
    quoted (ascii "BOOL(" ++ displayInt (toSigned 4 value) ++ ascii ")")
  else displayInt (toSigned 4 value)

/-- `ERRNO_STRINGS`. -/
def errnoStrings : List String :=
  ["ERRNO(0)", "EPERM(1)", "ENOENT(2)", "ESRCH(3)", "EINTR(4)", "EIO(5)", "ENXIO(6)", "E2BIG(7)",
    "ENOEXEC(8)", "EBADF(9)", "ECHILD(10)", "EAGAIN(11)", "ENOMEM(12)", "EACCES(13)",
    "EFAULT(14)", "ENOTBLK(15)", "EBUSY(16)", "EEXIST(17)", "EXDEV(18)", "ENODEV(19)",
    "ENOTDIR(20)", "EISDIR(21)", "EINVAL(22)", "ENFILE(23)", "EMFILE(24)", "ENOTTY(25)",
    "ETXTBSY(26)", "EFBIG(27)", "ENOSPC(28)", "ESPIPE(29)", "EROFS(30)", "EMLINK(31)",
    "EPIPE(32)", "EDOM(33)", "ERANGE(34)", "EDEADLK(35)", "ENAMETOOLONG(36)", "ENOLCK(37)",
    "ENOSYS(38)", "ENOTEMPTY(39)", "ELOOP(40)", "ERRNO(41)", "ENOMSG(42)", "EIDRM(43)",
    "ECHRNG(44)", "EL2NSYNC(45)", "EL3HLT(46)", "EL3RST(47)", "ELNRNG(48)", "EUNATCH(49)",
    "ENOCSI(50)", "EL2HLT(51)", "EBADE(52)", "EBADR(53)", "EXFULL(54)", "ENOANO(55)",
    "EBADRQC(56)", "EBADSLT(57)", "ERRNO(58)", "EBFONT(59)", "ENOSTR(60)", "ENODATA(61)",
    "ETIME(62)", "ENOSR(63)", "ENONET(64)", "ENOPKG(65)", "EREMOTE(66)", "ENOLINK(67)",
    "EADV(68)", "ESRMNT(69)", "ECOMM(70)", "EPROTO(71)", "EMULTIHOP(72)", "EDOTDOT(73)",
    "EBADMSG(74)", "EOVERFLOW(75)", "ENOTUNIQ(76)", "EBADFD(77)", "EREMCHG(78)", "ELIBACC(79)",
    "ELIBBAD(80)", "ELIBSCN(81)", "ELIBMAX(82)", "ELIBEXEC(83)", "EILSEQ(84)", "ERESTART(85)",
    "ESTRPIPE(86)", "EUSERS(87)", "ENOTSOCK(88)", "EDESTADDRREQ(89)", "EMSGSIZE(90)",
    "EPROTOTYPE(91)", "ENOPROTOOPT(92)", "EPROTONOSUPPORT(93)", "ESOCKTNOSUPPORT(94)",
    "EOPNOTSUPP(95)", "EPFNOSUPPORT(96)", "EAFNOSUPPORT(97)", "EADDRINUSE(98)",
    "EADDRNOTAVAIL(99)", "ENETDOWN(100)", "ENETUNREACH(101)", "ENETRESET(102)",
    "ECONNABORTED(103)", "ECONNRESET(104)", "ENOBUFS(105)", "EISCONN(106)", "ENOTCONN(107)",
    "ESHUTDOWN(108)", "ETOOMANYREFS(109)", "ETIMEDOUT(110)", "ECONNREFUSED(111)",
    "EHOSTDOWN(112)", "EHOSTUNREACH(113)", "EALREADY(114)", "EINPROGRESS(115)", "ESTALE(116)",
    "EUCLEAN(117)", "ENOTNAM(118)", "ENAVAIL(119)", "EISNAM(120)", "EREMOTEIO(121)",
    "EDQUOT(122)", "ENOMEDIUM(123)", "EMEDIUMTYPE(124)", "ECANCELED(125)", "ENOKEY(126)",
    "EKEYEXPIRED(127)", "EKEYREVOKED(128)", "EKEYREJECTED(129)", "EOWNERDEAD(130)",
    "ENOTRECOVERABLE(131)", "ERFKILL(132)", "EHWPOISON(133)"]

/-- `write_errno`. -/
def writeErrno (value : ℕ) : List UInt8 :=
  match errnoStrings[value]? with
  | some name => ascii name
  | none =>
    if options.hasFlag .errnoUnknownAsString then
      ascii "ERRNO(" ++ displayInt (toSigned 4 value) ++ ascii ")"
    else displayInt (toSigned 4 value)

/-- `write_json_errno`. -/
def writeJsonErrno (value : ℕ) : List UInt8 :=
  match errnoStrings[value]? with
  | some name =>
    if options.hasFlag .errnoKnownAsString then quoted (ascii name)
    else displayInt (toSigned 4 value)
  | none =>
    if options.hasFlag .errnoUnknownAsString then
      quoted (ascii "ERRNO(" ++ displayInt (toSigned 4 value) ++ ascii ")")
    else displayInt (toSigned 4 value)

/-- A valid time. -/
def dateText (time : DateTime) : List UInt8 :=
  paddedDecimal 4 time.year ++ ascii "-" ++ paddedDecimal 2 time.monthOfYear ++ ascii "-" ++
    paddedDecimal 2 time.dayOfMonth ++ ascii "T" ++ paddedDecimal 2 time.hour ++ ascii ":" ++
    paddedDecimal 2 time.minute ++ ascii ":" ++ paddedDecimal 2 time.second ++ ascii "Z"

/-- `write_time64`. -/
def writeTime64 (value : ℤ) : List UInt8 :=
  match platform.dateTime value with
  | some time => dateText time
  | none =>
    if options.hasFlag .unixTimeOutOfRangeAsString then
      ascii "TIME(" ++ displayInt value ++ ascii ")"
    else displayInt value

/-- `write_json_time64`. -/
def writeJsonTime64 (value : ℤ) : List UInt8 :=
  match platform.dateTime value with
  | some time =>
    if options.hasFlag .unixTimeWithinRangeAsString then quoted (dateText time)
    else displayInt value
  | none =>
    if options.hasFlag .unixTimeOutOfRangeAsString then
      quoted (ascii "TIME(" ++ displayInt value ++ ascii ")")
    else displayInt value

/-! ### Floating-point numbers -/

/-- What the writers need to know of a floating-point type: its size, the bits of infinity and of the
two bounds outside of which an exponent is written, and the digits of `FloatExtraPrecision`. -/
structure FloatType where
  width : ℕ
  infinity : ℕ
  large : ℕ
  small : ℕ
  extraPrecision : ℕ

/-- `f32`, with the bounds `1.0e+9` and `1.0e-4`. -/
def f32 : FloatType := ⟨4, 0x7F800000, 0x4E6E6B28, 0x38D1B717, 9⟩

/-- `f64`, with the bounds `1.0e+17` and `1.0e-4`. -/
def f64 : FloatType := ⟨8, 0x7FF0000000000000, 0x4376345785D8A000, 0x3F1A36E2EB1C432D, 17⟩

namespace FloatType

variable (float : FloatType) (bits : ℕ)

/-- The bits without the sign: the order of the absolute values is that of these bits. -/
def absBits : ℕ := bits % (256 ^ float.width / 2)

/-- `is_finite`. -/
def isFinite : Bool := float.absBits bits < float.infinity

/-- The text that a format gives. -/
def format (platform : Platform) (style : FloatFormat) : List UInt8 :=
  if float.isFinite bits then platform.finiteFloat style float.width bits
  else if float.infinity < float.absBits bits then ascii "NaN"
  else if bits < 256 ^ float.width / 2 then ascii "inf"
  else ascii "-inf"

/-- The number is written with an exponent. -/
def needsExponent : Bool :=
  float.absBits bits ≤ float.infinity &&
    (float.large ≤ float.absBits bits ||
      (float.absBits bits != 0 && float.absBits bits < float.small))

end FloatType

/-- `write_float32` and `write_float64`. -/
def writeFloat (float : FloatType) (bits : ℕ) : List UInt8 :=
  float.format bits platform <|
    if options.hasFlag .floatExtraPrecision then
      if float.needsExponent bits then .precisionExponent float.extraPrecision
      else .precision float.extraPrecision
    else if float.needsExponent bits then .exponent
    else .display

/-- `write_json_float32` and `write_json_float64`. -/
def writeJsonFloat (float : FloatType) (bits : ℕ) : List UInt8 :=
  if float.isFinite bits then writeFloat platform options float bits
  else if options.hasFlag .floatNonFiniteAsString then
    quoted (float.format bits platform .display)
  else ascii "null"

end Texts

/-! ### Characters -/

section Characters

variable (build : Build) (options : PerfConvertOptions)

/-- `write_char32_with_control_chars_filter`. -/
def writeChar32WithControlCharsFilter (value : ℕ) : Exec (List UInt8) :=
  if 0x20 ≤ value then .ok (utf8 [charFromU32 value])
  else if options &&& .stringControlCharsMask = .stringControlCharsReplaceWithSpace then
    (writeFilter build).writeAscii 0x20
  else if options &&& .stringControlCharsMask = .stringControlCharsJsonEscape then
    (controlCharsJsonFilter build (writeFilter build)).writeAscii (UInt8.ofNat value)
  else (writeFilter build).writeAscii (UInt8.ofNat value)

/-- `write_char32_with_json_escape`. -/
def writeChar32WithJsonEscape (value : ℕ) : Exec (List UInt8) :=
  if 0x5C ≤ value then .ok (utf8 [charFromU32 value])
  else (jsonEscapeFilter build (writeFilter build)).writeAscii (UInt8.ofNat value)

end Characters

/-! ### The bytes of texts -/

section Bytes

/-- The digits of a number are below the base. -/
theorem mem_toDigits {base value : ℕ} (hbase : 1 < base) :
    ∀ c ∈ Nat.toDigits base value, ∃ digit < base, c = Nat.digitChar digit := by
  induction value using Nat.strongRecOn with
  | ind value ih =>
    intro c hc
    rw [Nat.toDigits_eq_if hbase] at hc
    split at hc
    · rename_i hsmall
      exact ⟨value, hsmall, List.mem_singleton.mp hc⟩
    · rename_i hlarge
      rcases List.mem_append.mp hc with hc | hc
      · exact ih (value / base) (Nat.div_lt_self (by omega) hbase) c hc
      · exact ⟨value % base, Nat.mod_lt value (by omega), List.mem_singleton.mp hc⟩

/-- What the separator and the parts satisfy, the joined text does. -/
theorem forall_mem_intercalate {property : UInt8 → Prop} {separator : List UInt8}
    {parts : List (List UInt8)} (hseparator : ∀ c ∈ separator, property c)
    (hparts : ∀ part ∈ parts, ∀ c ∈ part, property c) :
    ∀ c ∈ separator.intercalate parts, property c := by
  have hall : ∀ part ∈ parts.intersperse separator, ∀ c ∈ part, property c := by
    induction parts with
    | nil => exact fun part hpart ↦ absurd hpart List.not_mem_nil
    | cons first rest ih =>
      cases rest with
      | nil => exact hparts
      | cons second rest =>
        obtain ⟨hfirst, hrest⟩ := List.forall_mem_cons.mp hparts
        rw [List.intersperse_cons_cons]
        exact List.forall_mem_cons.mpr
          ⟨hfirst, List.forall_mem_cons.mpr ⟨hseparator, ih hrest⟩⟩
  intro c hc
  obtain ⟨part, hpart, hc⟩ := List.mem_flatten.mp hc
  exact hall part hpart c hc

/-- The separator is in the joined text of several parts. -/
theorem mem_intercalate {separator : List UInt8} {parts : List (List UInt8)} {c : UInt8}
    (hc : c ∈ separator) (hparts : 2 ≤ parts.length) : c ∈ separator.intercalate parts := by
  match parts, hparts with
  | first :: second :: rest, _ =>
    refine List.mem_flatten.mpr ⟨separator, ?_, hc⟩
    rw [List.intersperse_cons_cons]
    exact List.mem_cons_of_mem _ List.mem_cons_self

/-- The bytes that addresses are written with. -/
def addressBytes : List UInt8 := ascii "0123456789abcdef:."

theorem mem_lowerHex {value : ℕ} : ∀ c ∈ lowerHex value, c ∈ addressBytes := by
  intro c hc
  obtain ⟨letter, hletter, rfl⟩ := List.mem_map.mp hc
  obtain ⟨digit, hdigit, rfl⟩ := mem_toDigits (by omega) letter hletter
  clear hc hletter
  revert digit
  decide

theorem mem_decimal {value : ℕ} : ∀ c ∈ decimal value, c ∈ ascii "0123456789" := by
  intro c hc
  obtain ⟨letter, hletter, rfl⟩ := List.mem_map.mp hc
  obtain ⟨digit, hdigit, rfl⟩ := mem_toDigits (by omega) letter hletter
  clear hc hletter
  revert digit
  decide

theorem mem_colonHex {chunk : List ℕ} : ∀ c ∈ colonHex chunk, c ∈ addressBytes := by
  refine forall_mem_intercalate (by decide) fun part hpart ↦ ?_
  obtain ⟨segment, -, rfl⟩ := List.mem_map.mp hpart
  exact mem_lowerHex

theorem mem_writeIpv4 {value : List UInt8} : ∀ c ∈ writeIpv4 value, c ∈ addressBytes := by
  have hdigits : ∀ c ∈ ascii "0123456789", c ∈ addressBytes := by decide
  refine forall_mem_intercalate (by decide) fun part hpart c hc ↦ ?_
  obtain ⟨byte, -, rfl⟩ := List.mem_map.mp hpart
  exact hdigits c (mem_decimal c hc)

theorem mem_displayIpv6 {value : List UInt8} : ∀ c ∈ displayIpv6 value, c ∈ addressBytes := by
  have hmapped : ∀ c ∈ ascii "::ffff:", c ∈ addressBytes := by decide
  have hcolons : ∀ c ∈ ascii "::", c ∈ addressBytes := by decide
  unfold displayIpv6
  dsimp only
  split
  · exact List.forall_mem_append.mpr ⟨hmapped, mem_writeIpv4⟩
  · split
    · exact List.forall_mem_append.mpr
        ⟨List.forall_mem_append.mpr ⟨mem_colonHex, hcolons⟩, mem_colonHex⟩
    · exact mem_colonHex

theorem mem_writeIpv6 {platform : Platform} {value : List UInt8} :
    ∀ c ∈ writeIpv6 platform value, c ∈ addressBytes := by
  unfold writeIpv6
  split
  · exact mem_displayIpv6
  · exact mem_colonHex

end Bytes

end ValueWriter

end Tracepoints
