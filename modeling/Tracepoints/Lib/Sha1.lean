import Mathlib.Data.List.Basic
import Mathlib.Data.List.Range
import Tracepoints.Lib.ByteOrder

/-!
# SHA-1

The hash function of FIPS 180-4 for messages of whole bytes: the padded message (`pad`), the schedule of
a block (`schedule`), the eighty rounds (`compress`) and the digest (`digest`). `zeros_least` says that
the padding is the shortest one, and `hashBlocks_append` how the hash value goes on behind a complete
block.
-/

set_option autoImplicit false
set_option relaxedAutoImplicit false

namespace Tracepoints.Sha1

/-! ### Words -/

/-- The circular left shift of a word. -/
def rotl (count x : UInt32) : UInt32 := x <<< count ||| x >>> (32 - count)

def ch (x y z : UInt32) : UInt32 := (x &&& y) ^^^ (~~~x &&& z)

def parity (x y z : UInt32) : UInt32 := x ^^^ y ^^^ z

def maj (x y z : UInt32) : UInt32 := (x &&& y) ^^^ (x &&& z) ^^^ (y &&& z)

/-- The function of a round. -/
def f (t : ℕ) : UInt32 → UInt32 → UInt32 → UInt32 :=
  if t < 20 then ch else if t < 40 then parity else if t < 60 then maj else parity

/-- The constant of a round. -/
def k (t : ℕ) : UInt32 :=
  if t < 20 then 0x5A827999 else if t < 40 then 0x6ED9EBA1 else if t < 60 then 0x8F1BBCDC
  else 0xCA62C1D6

/-- The word at an index of a block. -/
def blockWord (block : List UInt8) (index : ℕ) : UInt32 :=
  UInt32.ofNat (ByteOrder.big.ofBytes ((block.drop (4 * index)).take 4))

/-- The words of the message schedule of a block. -/
def schedule (block : List UInt8) (t : ℕ) : UInt32 :=
  if t < 16 then blockWord block t
  else rotl 1 (schedule block (t - 3) ^^^ schedule block (t - 8) ^^^ schedule block (t - 14) ^^^
    schedule block (t - 16))
termination_by t

theorem schedule_of_lt (block : List UInt8) {t : ℕ} (h : t < 16) :
    schedule block t = blockWord block t := by
  rw [schedule, if_pos h]

theorem schedule_of_le (block : List UInt8) {t : ℕ} (h : 16 ≤ t) :
    schedule block t = rotl 1 (schedule block (t - 3) ^^^ schedule block (t - 8) ^^^
      schedule block (t - 14) ^^^ schedule block (t - 16)) := by
  rw [schedule, if_neg (by omega)]

/-! ### The hash value -/

/-- Five words: the working variables or the hash value. -/
@[ext] structure Words where
  a : UInt32
  b : UInt32
  c : UInt32
  d : UInt32
  e : UInt32
  deriving DecidableEq

/-- The hash value before the first block. -/
def initial : Words := ⟨0x67452301, 0xEFCDAB89, 0x98BADCFE, 0x10325476, 0xC3D2E1F0⟩

/-- A round on the working variables. -/
def round (block : List UInt8) (words : Words) (t : ℕ) : Words where
  a := rotl 5 words.a + f t words.b words.c words.d + words.e + k t + schedule block t
  b := words.a
  c := rotl 30 words.b
  d := words.c
  e := words.d

/-- The words of two hash values, added. -/
def Words.add (first second : Words) : Words :=
  ⟨first.a + second.a, first.b + second.b, first.c + second.c, first.d + second.d,
    first.e + second.e⟩

/-- The hash value behind a block. -/
def compress (hash : Words) (block : List UInt8) : Words :=
  hash.add ((List.range 80).foldl (round block) hash)

/-- The block of 64 bytes at an index. -/
def blockAt (bytes : List UInt8) (index : ℕ) : List UInt8 := (bytes.drop (64 * index)).take 64

/-- The number of blocks that a message fills or begins. -/
def blockCount (message : List UInt8) : ℕ := (message.length + 63) / 64

/-- The hash value behind the first blocks of some bytes. -/
def hashBlocks (bytes : List UInt8) (count : ℕ) : Words :=
  (List.range count).foldl (fun hash index ↦ compress hash (blockAt bytes index)) initial

/-- Some bytes behind the blocks do not matter. -/
theorem hashBlocks_append {bytes : List UInt8} {count : ℕ} (rest : List UInt8)
    (h : 64 * count ≤ bytes.length) : hashBlocks (bytes ++ rest) count = hashBlocks bytes count := by
  unfold hashBlocks
  refine List.foldl_ext _ _ _ fun hash index hindex ↦ ?_
  have hlt := List.mem_range.mp hindex
  unfold blockAt
  rw [List.drop_append_of_le_length (by omega), List.take_append_of_le_length]
  rw [List.length_drop]
  omega

theorem hashBlocks_succ (bytes : List UInt8) (count : ℕ) :
    hashBlocks bytes (count + 1) = compress (hashBlocks bytes count) (blockAt bytes count) := by
  unfold hashBlocks
  rw [List.range_succ, List.foldl_append, List.foldl_cons, List.foldl_nil]

/-! ### The digest -/

/-- The number of bytes of zeros in the padding of a message of `length` bytes. -/
def zeros (length : ℕ) : ℕ := (119 - length % 64) % 64

/-- The padding fills the last block up to its length, and is the shortest one that does. -/
theorem zeros_least (length : ℕ) :
    (length + 1 + zeros length) % 64 = 56 ∧
      ∀ count, (length + 1 + count) % 64 = 56 → zeros length ≤ count := by
  unfold zeros
  refine ⟨by omega, fun count hcount ↦ ?_⟩
  omega

/-- The padded message: a one, zeros, and the length of the message in bits. -/
def pad (message : List UInt8) : List UInt8 :=
  message ++ [0x80] ++ List.replicate (zeros message.length) 0 ++
    ByteOrder.big.toBytes 8 (8 * message.length)

theorem length_pad (message : List UInt8) :
    (pad message).length = 64 * ((message.length + 72) / 64) := by
  unfold pad zeros
  rw [List.length_append, List.length_append, List.length_append, List.length_singleton,
    List.length_replicate, ByteOrder.length_toBytes]
  omega

/-- The bytes of a hash value. -/
def Words.bytes (words : Words) : List UInt8 :=
  [words.a, words.b, words.c, words.d, words.e].flatMap fun word ↦
    ByteOrder.big.toBytes 4 word.toNat

/-- The digest of a message. -/
def digest (message : List UInt8) : List UInt8 :=
  (hashBlocks (pad message) ((pad message).length / 64)).bytes

theorem length_digest (message : List UInt8) : (digest message).length = 20 := by
  unfold digest Words.bytes
  simp

/-! ### The functions with disjunctions -/

theorem ch_or (x y z : UInt32) : (x &&& y) ||| (~~~x &&& z) = ch x y z := by
  apply UInt32.eq_of_toBitVec_eq
  apply BitVec.eq_of_getLsbD_eq
  intro i hi
  cases hx : x.toBitVec.getLsbD i <;> simp [ch, hx]

theorem maj_or (x y z : UInt32) : (x &&& y) ||| (x &&& z) ||| (y &&& z) = maj x y z := by
  apply UInt32.eq_of_toBitVec_eq
  apply BitVec.eq_of_getLsbD_eq
  intro i hi
  cases hx : x.toBitVec.getLsbD i <;> cases hy : y.toBitVec.getLsbD i <;> simp [maj, hx, hy]

end Tracepoints.Sha1
