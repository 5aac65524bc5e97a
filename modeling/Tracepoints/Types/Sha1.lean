import Tracepoints.Lib.Checked
import Tracepoints.Lib.InPlace
import Tracepoints.Lib.Sha1
import Tracepoints.Lib.Utf16
import Tracepoints.Types.Guid

/-!
# Hashing of names

`Sha1NonSecret` of `eventheader_types/src/guid.rs`, which hashes a message byte by byte, and
`Guid::from_name`. A chunk is drained whenever the position in it wraps around, also while the padding is
written.

`Hashed` relates a hasher to the message it got: the complete blocks are hashed, the others are in the
chunk. `drain_returns` compares the loops of `drain` with the rounds of the standard, `writeU8_hashed`
is the step, and `finish_eq` says that the padding makes the padded message. `Guid.fromName_standard`
is the result.
-/

set_option autoImplicit false
set_option relaxedAutoImplicit false

namespace Tracepoints

open Exec
open Sha1 (Words rotl)

/-! ### The hasher -/

/-- `Sha1NonSecret`. -/
structure Sha1NonSecret where
  chunk : List UInt8
  chunkCount : ℕ
  chunkPos : ℕ
  results : List UInt32

namespace Sha1NonSecret

/-- `new`. -/
def new : Sha1NonSecret where
  chunk := List.replicate 64 0
  chunkCount := 0
  chunkPos := 0
  results := [0x67452301, 0xEFCDAB89, 0x98BADCFE, 0x10325476, 0xC3D2E1F0]

/-- A round of the first loop of `drain`. -/
def loadWord (chunk : List UInt8) (w : List UInt32) (wpos : ℕ) : Exec (List UInt32) := do
  let b0 ← byteAt chunk (wpos * 4)
  let b1 ← byteAt chunk (wpos * 4 + 1)
  let b2 ← byteAt chunk (wpos * 4 + 2)
  let b3 ← byteAt chunk (wpos * 4 + 3)
  setAt w wpos (UInt32.ofNat (ByteOrder.big.ofBytes [b0, b1, b2, b3]))

/-- A round of the second loop of `drain`. -/
def expandWord (w : List UInt32) (wpos : ℕ) : Exec (List UInt32) := do
  let w3 ← elementAt w (← sub wpos 3)
  let w8 ← elementAt w (← sub wpos 8)
  let w14 ← elementAt w (← sub wpos 14)
  let w16 ← elementAt w (← sub wpos 16)
  setAt w wpos (rotl 1 (w3 ^^^ w8 ^^^ w14 ^^^ w16))

/-- A round of the other loops of `drain`, which differ in the function `f` and the constant. -/
def mix (f : UInt32 → UInt32 → UInt32 → UInt32) (constant : UInt32) (w : List UInt32)
    (vars : Words) (wpos : ℕ) : Exec Words := do
  let word ← elementAt w wpos
  let temp := rotl 5 vars.a + f vars.b vars.c vars.d + vars.e + constant + word
  .ok ⟨temp, vars.a, rotl 30 vars.b, vars.c, vars.d⟩

/-- The loops of `drain` over the words. -/
def rounds (w : List UInt32) (vars : Words) : Exec Words := do
  let vars ← (List.range' 0 20).foldlM
    (mix (fun b c d ↦ (b &&& c) ||| (~~~b &&& d)) 0x5A827999 w) vars
  let vars ← (List.range' 20 20).foldlM (mix (fun b c d ↦ b ^^^ c ^^^ d) 0x6ED9EBA1 w) vars
  let vars ← (List.range' 40 20).foldlM
    (mix (fun b c d ↦ (b &&& c) ||| (b &&& d) ||| (c &&& d)) 0x8F1BBCDC w) vars
  (List.range' 60 20).foldlM (mix (fun b c d ↦ b ^^^ c ^^^ d) 0xCA62C1D6 w) vars

/-- A result with a word added to it. -/
def addAt (results : List UInt32) (index : ℕ) (word : UInt32) : Exec (List UInt32) := do
  let result ← elementAt results index
  setAt results index (result + word)

/-- `drain`. -/
def drain (build : Build) (hasher : Sha1NonSecret) : Exec Sha1NonSecret := do
  let w ← (List.range' 0 16).foldlM (loadWord hasher.chunk) (List.replicate 80 0)
  let w ← (List.range' 16 64).foldlM expandWord w
  let a ← elementAt hasher.results 0
  let b ← elementAt hasher.results 1
  let c ← elementAt hasher.results 2
  let d ← elementAt hasher.results 3
  let e ← elementAt hasher.results 4
  let vars ← rounds w ⟨a, b, c, d, e⟩
  let results ← addAt hasher.results 0 vars.a
  let results ← addAt results 1 vars.b
  let results ← addAt results 2 vars.c
  let results ← addAt results 3 vars.d
  let results ← addAt results 4 vars.e
  let chunkCount ← fit build .u32 (hasher.chunkCount + 1)
  .ok { hasher with results, chunkCount := chunkCount.toNat }

/-- `write_u8`. -/
def writeU8 (build : Build) (hasher : Sha1NonSecret) (val : UInt8) : Exec Sha1NonSecret := do
  let chunk ← setAt hasher.chunk hasher.chunkPos val
  let chunkPos := (← addU8 build hasher.chunkPos 1) &&& 63
  let hasher := { hasher with chunk, chunkPos }
  if chunkPos = 0 then hasher.drain build else .ok hasher

/-- `write`. -/
def write (build : Build) (hasher : Sha1NonSecret) (bytes : List UInt8) : Exec Sha1NonSecret :=
  bytes.foldlM (writeU8 build) hasher

/-- The loop of `finish`. -/
def zeroFill (build : Build) : ℕ → Sha1NonSecret → Exec Sha1NonSecret
  | 0, _ => .error .unfinished
  | fuel + 1, hasher =>
    if hasher.chunkPos ≠ 56 then do zeroFill build fuel (← hasher.writeU8 build 0)
    else .ok hasher

/-- A round of the loop of `finish` over the results. -/
def copyResult (results : List UInt32) (sha1 : List UInt8) (i : ℕ) : Exec (List UInt8) := do
  let result ← elementAt results i
  let behind ← slice sha1 (i * 4 + 4) sha1.length
  let before ← slice sha1 0 (i * 4)
  .ok (before ++ ByteOrder.big.toBytes 4 result.toNat ++ behind)

/-- `finish`. -/
def finish (build : Build) (hasher : Sha1NonSecret) : Exec (List UInt8) := do
  let totalBitCount := hasher.chunkCount * 512 + hasher.chunkPos * 8
  let hasher ← hasher.writeU8 build 0x80
  let hasher ← zeroFill build 64 hasher
  let hasher ← hasher.write build (ByteOrder.big.toBytes 8 totalBitCount)
  debugAssert build (hasher.chunkPos = 0)
  (List.range 5).foldlM (copyResult hasher.results) (List.replicate 20 0)

end Sha1NonSecret

namespace Guid

/-- `from_bytes_le`. -/
def fromBytesLe (b : List UInt8) (h : b.length = 16) : Guid where
  bytes := [b[3], b[2], b[1], b[0], b[5], b[4], b[7], b[6], b[8], b[9], b[10], b[11], b[12], b[13],
    b[14], b[15]]
  length_eq := rfl

/-- The bytes of the namespace in `from_name`. -/
def nameSpace : List UInt8 :=
  [0x48, 0x2C, 0x2D, 0xB2, 0xC3, 0x90, 0x47, 0xC8, 0x87, 0xF8, 0x1A, 0x15, 0xBF, 0xC1, 0x30, 0xFB]

/-- The end of `from_name`. -/
def ofHash (v : List UInt8) : Exec Guid := do
  let v ← setAt v 7 (((← byteAt v 7) &&& 0x0F) ||| 0x50)
  let front ← slice v 0 16
  if h : front.length = 16 then .ok (fromBytesLe front h) else .error .assertion

/-- `from_name`, with `char::to_uppercase` of the standard library. -/
def fromName (build : Build) (toUppercase : Char → List Char) (eventProviderName : List Char) :
    Exec Guid := do
  let hasher ← Sha1NonSecret.new.write build nameSpace
  let hasher ← (eventProviderName.flatMap toUppercase).foldlM (fun hasher upperCh ↦
    (utf16Units upperCh).foldlM (fun hasher upperU16 ↦
      hasher.write build (ByteOrder.big.toBytes 2 upperU16)) hasher) hasher
  ofHash (← hasher.finish build)

end Guid

/-! ### A chunk -/

/-- The words as an array. -/
def Sha1.Words.toList (words : Words) : List UInt32 := [words.a, words.b, words.c, words.d, words.e]

namespace Sha1NonSecret

variable {build : Build}

/-- The first words of an array of eighty are those of the schedule of a chunk. -/
def Scheduled (chunk : List UInt8) (count : ℕ) (w : List UInt32) : Prop :=
  w.length = 80 ∧ ∀ t < count, w[t]? = some (Sha1.schedule chunk t)

theorem Scheduled.elementAt {chunk : List UInt8} {count t : ℕ} {w : List UInt32}
    (h : Scheduled chunk count w) (ht : t < count) :
    Exec.elementAt w t = .ok (Sha1.schedule chunk t) := by
  unfold Exec.elementAt
  rw [h.2 t ht]

/-- Assumes: fewer than eighty words. -/
theorem Scheduled.setAt {chunk : List UInt8} {count : ℕ} {w : List UInt32}
    (h : Scheduled chunk count w) (hcount : count < 80) :
    Returns (Exec.setAt w count (Sha1.schedule chunk count)) (Scheduled chunk (count + 1)) := by
  obtain ⟨hlength, hwords⟩ := h
  unfold Exec.setAt
  rw [if_pos (by omega)]
  refine .ok ⟨by rw [List.length_set, hlength], fun t ht ↦ ?_⟩
  by_cases heq : count = t
  · rw [heq, List.getElem?_set_self (by omega)]
  · rw [List.getElem?_set_ne heq]
    exact hwords t (by omega)

/-- Four bytes from an index on. -/
theorem take_four {bytes : List UInt8} {index : ℕ} (h : index + 4 ≤ bytes.length) :
    (bytes.drop index).take 4 =
      [bytes.getD index 0, bytes.getD (index + 1) 0, bytes.getD (index + 2) 0,
        bytes.getD (index + 3) 0] := by
  rw [List.drop_eq_getElem_cons (by omega), List.drop_eq_getElem_cons (by omega),
    List.drop_eq_getElem_cons (by omega), List.drop_eq_getElem_cons (by omega)]
  simp only [List.take_succ_cons, List.take_zero, List.getD_eq_getElem?_getD]
  rw [List.getElem?_eq_getElem (by omega), List.getElem?_eq_getElem (by omega),
    List.getElem?_eq_getElem (by omega), List.getElem?_eq_getElem (by omega)]
  rfl

theorem loadWord_returns {chunk : List UInt8} (hchunk : chunk.length = 64) {w : List UInt32}
    {wpos : ℕ} (h : Scheduled chunk wpos w) (hwpos : wpos < 16) :
    Returns (loadWord chunk w wpos) (Scheduled chunk (wpos + 1)) := by
  have hword := Sha1.schedule_of_lt chunk hwpos
  unfold Sha1.blockWord at hword
  rw [take_four (by omega), Nat.mul_comm 4] at hword
  unfold loadWord
  rw [byteAt_getD (by omega), ok_bind, byteAt_getD (by omega), ok_bind, byteAt_getD (by omega),
    ok_bind, byteAt_getD (by omega), ok_bind, ← hword]
  exact h.setAt (by omega)

theorem expandWord_returns {chunk : List UInt8} {w : List UInt32} {wpos : ℕ}
    (h : Scheduled chunk wpos w) (hle : 16 ≤ wpos) (hlt : wpos < 80) :
    Returns (expandWord w wpos) (Scheduled chunk (wpos + 1)) := by
  unfold expandWord
  rw [sub_of_le (by omega), ok_bind, h.elementAt (by omega), ok_bind, sub_of_le (by omega), ok_bind,
    h.elementAt (by omega), ok_bind, sub_of_le (by omega), ok_bind, h.elementAt (by omega), ok_bind,
    sub_of_le (by omega), ok_bind, h.elementAt (by omega), ok_bind, ← Sha1.schedule_of_le chunk hle]
  exact h.setAt hlt

/-- The working variables before a round. -/
def Mixed (chunk : List UInt8) (words : Words) (count : ℕ) (vars : Words) : Prop :=
  vars = (List.range count).foldl (Sha1.round chunk) words

/-- The loop for one of the four functions, from round `start` on. -/
theorem mix_returns {chunk : List UInt8} {words vars : Words} {w : List UInt32}
    (hw : Scheduled chunk 80 w) {f : UInt32 → UInt32 → UInt32 → UInt32} {constant : UInt32}
    {start : ℕ} (hstart : start + 20 ≤ 80)
    (hround : ∀ t, start ≤ t → t < start + 20 →
      (∀ b c d, f b c d = Sha1.f t b c d) ∧ constant = Sha1.k t)
    (h : Mixed chunk words start vars) :
    Returns ((List.range' start 20).foldlM (mix f constant w) vars)
      (Mixed chunk words (start + 20)) := by
  refine foldlM_range'_returns 20 (fun t vars hle hlt hvars ↦ ?_) h
  obtain ⟨hf, hconstant⟩ := hround t hle hlt
  unfold mix
  rw [hw.elementAt (by omega), ok_bind]
  refine .ok ?_
  unfold Mixed at hvars ⊢
  rw [List.range_succ, List.foldl_append, ← hvars, List.foldl_cons, List.foldl_nil, hf, hconstant]
  rfl

theorem rounds_returns {chunk : List UInt8} {words : Words} {w : List UInt32}
    (hw : Scheduled chunk 80 w) : Returns (rounds w words) (Mixed chunk words 80) := by
  have hfirst (t : ℕ) (_ : 0 ≤ t) (hlt : t < 0 + 20) :
      (∀ b c d, (b &&& c) ||| (~~~b &&& d) = Sha1.f t b c d) ∧ 0x5A827999 = Sha1.k t := by
    unfold Sha1.f Sha1.k
    rw [if_pos (by omega), if_pos (by omega)]
    exact ⟨Sha1.ch_or, rfl⟩
  have hsecond (t : ℕ) (hle : 20 ≤ t) (hlt : t < 20 + 20) :
      (∀ b c d, b ^^^ c ^^^ d = Sha1.f t b c d) ∧ 0x6ED9EBA1 = Sha1.k t := by
    unfold Sha1.f Sha1.k
    rw [if_neg (by omega), if_pos (by omega), if_neg (by omega), if_pos (by omega)]
    exact ⟨fun _ _ _ ↦ rfl, rfl⟩
  have hthird (t : ℕ) (hle : 40 ≤ t) (hlt : t < 40 + 20) :
      (∀ b c d, (b &&& c) ||| (b &&& d) ||| (c &&& d) = Sha1.f t b c d) ∧
        0x8F1BBCDC = Sha1.k t := by
    unfold Sha1.f Sha1.k
    rw [if_neg (by omega), if_neg (by omega), if_pos (by omega), if_neg (by omega),
      if_neg (by omega), if_pos (by omega)]
    exact ⟨Sha1.maj_or, rfl⟩
  have hfourth (t : ℕ) (hle : 60 ≤ t) (_ : t < 60 + 20) :
      (∀ b c d, b ^^^ c ^^^ d = Sha1.f t b c d) ∧ 0xCA62C1D6 = Sha1.k t := by
    unfold Sha1.f Sha1.k
    rw [if_neg (by omega), if_neg (by omega), if_neg (by omega), if_neg (by omega),
      if_neg (by omega), if_neg (by omega)]
    exact ⟨fun _ _ _ ↦ rfl, rfl⟩
  unfold rounds
  refine (mix_returns hw (by omega) hfirst rfl).bind fun vars h1 ↦ ?_
  refine (mix_returns hw (by omega) hsecond h1).bind fun vars h2 ↦ ?_
  refine (mix_returns hw (by omega) hthird h2).bind fun vars h3 ↦ ?_
  exact mix_returns hw (by omega) hfourth h3

/-- A chunk is hashed as the standard says. -/
theorem drain_returns {hasher : Sha1NonSecret} {words : Words} (hchunk : hasher.chunk.length = 64)
    (hresults : hasher.results = words.toList) (hcount : hasher.chunkCount + 1 < 2 ^ 32) :
    hasher.drain build = .ok { hasher with
      results := (Sha1.compress words hasher.chunk).toList, chunkCount := hasher.chunkCount + 1 } := by
  have hempty : Scheduled hasher.chunk 0 (List.replicate 80 0) :=
    ⟨List.length_replicate, fun t ht ↦ absurd ht (Nat.not_lt_zero t)⟩
  obtain ⟨w, hload, hw⟩ := @foldlM_range'_returns _ _ (Scheduled hasher.chunk) 0 16
    (fun t w _ hlt h ↦ loadWord_returns hchunk h (by omega)) _ hempty
  obtain ⟨w', hexpand, hw'⟩ := @foldlM_range'_returns _ _ (Scheduled hasher.chunk) 16 64
    (fun t w hle hlt h ↦ expandWord_returns h hle (by omega)) _ hw
  obtain ⟨vars, hrounds, hvars⟩ := @rounds_returns _ words _ hw'
  have hfit : Exec.fit build .u32 ((hasher.chunkCount : ℤ) + 1) = .ok (hasher.chunkCount + 1) :=
    Exec.fit_of_mem (IntType.mem_u32.mpr (by omega))
  unfold drain
  rw [hload, ok_bind, hexpand, ok_bind, hresults, hfit]
  change (rounds w' words >>= _) = _
  rw [hrounds, ok_bind]
  unfold Sha1.compress
  rw [← hvars]
  rfl

/-! ### A message -/

/-- A hasher that got a message: the complete blocks are hashed and the rest is in the chunk. -/
structure Hashed (message : List UInt8) (hasher : Sha1NonSecret) : Prop where
  length_chunk : hasher.chunk.length = 64
  pos_eq : hasher.chunkPos = message.length % 64
  count_eq : hasher.chunkCount = message.length / 64
  front_eq : hasher.chunk.take hasher.chunkPos = message.drop (64 * (message.length / 64))
  results_eq : hasher.results = (Sha1.hashBlocks message (message.length / 64)).toList

theorem hashed_new : Hashed [] new where
  length_chunk := rfl
  pos_eq := rfl
  count_eq := rfl
  front_eq := rfl
  results_eq := rfl

/-- A chunk behind the byte at a position is written. -/
theorem take_set {chunk : List UInt8} {pos : ℕ} (val : UInt8) (hpos : pos < chunk.length) :
    (chunk.set pos val).take (pos + 1) = chunk.take pos ++ [val] := by
  rw [List.take_add_one, List.take_set_of_le le_rfl, List.getElem?_set_self hpos]
  rfl

theorem writeU8_hashed {message : List UInt8} {hasher : Sha1NonSecret} (h : Hashed message hasher)
    (val : UInt8) (hcount : (message.length + 1) / 64 < 2 ^ 32) :
    Returns (hasher.writeU8 build val) (Hashed (message ++ [val])) := by
  obtain ⟨hchunk, hpos, hcountEq, hfront, hresults⟩ := h
  have hlength : (message ++ [val]).length = message.length + 1 := by simp
  have hfull : 64 * (message.length / 64) ≤ message.length := by omega
  have htake : (hasher.chunk.set hasher.chunkPos val).take (hasher.chunkPos + 1) =
      (message ++ [val]).drop (64 * (message.length / 64)) := by
    rw [take_set val (by omega), hfront, List.drop_append_of_le_length hfull]
  have hadd : addU8 build hasher.chunkPos 1 = .ok (hasher.chunkPos + 1) := if_pos (by omega)
  have hmask : (hasher.chunkPos + 1) &&& 63 = (hasher.chunkPos + 1) % 64 :=
    Nat.and_two_pow_sub_one_eq_mod _ 6
  have hset : setAt hasher.chunk hasher.chunkPos val =
      .ok (hasher.chunk.set hasher.chunkPos val) := if_pos (by omega)
  unfold writeU8
  rw [hset, ok_bind, hadd, ok_bind]
  dsimp only
  rw [hmask]
  refine Returns.ite (fun hzero ↦ ?_) fun hnonzero ↦ ?_
  · -- The chunk is complete: it is the block behind those that are hashed.
    have hdiv : (message.length + 1) / 64 = message.length / 64 + 1 := by omega
    have hblock : hasher.chunk.set hasher.chunkPos val =
        Sha1.blockAt (message ++ [val]) (message.length / 64) := by
      unfold Sha1.blockAt
      rw [← htake, List.take_of_length_le, List.take_of_length_le]
      · rw [List.length_set]
        omega
      · rw [List.length_take, List.length_set]
        omega
    have hlengthSet : (hasher.chunk.set hasher.chunkPos val).length = 64 := by
      rw [List.length_set, hchunk]
    rw [@drain_returns build { hasher with
      chunk := hasher.chunk.set hasher.chunkPos val, chunkPos := (hasher.chunkPos + 1) % 64 }
      _ hlengthSet hresults (by dsimp only; omega)]
    refine .ok ⟨hlengthSet, ?_, ?_, ?_, ?_⟩
    · dsimp only
      rw [hlength]
      omega
    · rw [hlength, hdiv, hcountEq]
    · dsimp only
      rw [hzero, hlength, List.take_zero, List.drop_eq_nil_of_le]
      rw [hlength]
      omega
    · dsimp only
      rw [hlength, hdiv, Sha1.hashBlocks_succ, Sha1.hashBlocks_append [val] hfull, hblock]
  · have hdiv : (message.length + 1) / 64 = message.length / 64 := by omega
    have hmod : (hasher.chunkPos + 1) % 64 = hasher.chunkPos + 1 := by omega
    refine .ok ⟨?_, ?_, ?_, ?_, ?_⟩
    · rw [List.length_set]
      exact hchunk
    · dsimp only
      rw [hlength]
      omega
    · rw [hlength, hdiv, hcountEq]
    · dsimp only
      rw [hmod, htake, hlength, hdiv]
    · dsimp only
      rw [hlength, hdiv, Sha1.hashBlocks_append [val] hfull, hresults]

/-- A loop whose rounds add some bytes each. -/
theorem foldlM_hashed {α : Type} {step : Sha1NonSecret → α → Exec Sha1NonSecret}
    {bytes : α → List UInt8}
    (hstep : ∀ message hasher x, Hashed message hasher → (message ++ bytes x).length / 64 < 2 ^ 32 →
      Returns (step hasher x) (Hashed (message ++ bytes x)))
    {message : List UInt8} {hasher : Sha1NonSecret} (h : Hashed message hasher) (xs : List α)
    (hcount : (message ++ xs.flatMap bytes).length / 64 < 2 ^ 32) :
    Returns (xs.foldlM step hasher) (Hashed (message ++ xs.flatMap bytes)) := by
  have hfold : xs.foldl (fun message x ↦ message ++ bytes x) message =
      message ++ xs.flatMap bytes := by
    clear h hcount
    induction xs generalizing message with
    | nil => rw [List.flatMap_nil, List.append_nil, List.foldl_nil]
    | cons x xs ih => rw [List.foldl_cons, ih, List.flatMap_cons, List.append_assoc]
  rw [← hfold] at hcount ⊢
  refine @foldlM_returns _ _ _ _ _ _ (fun _ ↦ True) (fun message ↦ message.length / 64 < 2 ^ 32)
    (fun message x hsmall ↦ ?_) (fun message hasher x h _ hsmall ↦ hstep message hasher x h hsmall)
    _ _ _ h (fun _ _ ↦ trivial) hcount
  rw [List.length_append] at hsmall
  omega

theorem write_hashed {message : List UInt8} {hasher : Sha1NonSecret} (h : Hashed message hasher)
    (bytes : List UInt8) (hcount : (message ++ bytes).length / 64 < 2 ^ 32) :
    Returns (hasher.write build bytes) (Hashed (message ++ bytes)) := by
  have hbytes := List.flatMap_singleton' bytes
  have hloop := @foldlM_hashed _ (writeU8 build) (fun val ↦ [val])
    (fun message hasher val h hsmall ↦ writeU8_hashed h val (by simpa using hsmall)) _ _ h bytes
  rw [hbytes] at hloop
  exact hloop hcount

/-- The zeros are as many as are missing to position 56. -/
theorem zeroFill_hashed {message : List UInt8} {hasher : Sha1NonSecret} (h : Hashed message hasher)
    {count fuel : ℕ} (hmod : (message.length + count) % 64 = 56) (hcount : count < 64)
    (hfuel : count < fuel) (hbound : (message.length + count) / 64 < 2 ^ 32) :
    Returns (zeroFill build fuel hasher) (Hashed (message ++ List.replicate count 0)) := by
  induction count generalizing message hasher fuel with
  | zero =>
    match fuel, hfuel with
    | fuel + 1, _ =>
      have hpos := h.pos_eq
      rw [zeroFill, if_neg (by omega), List.replicate_zero, List.append_nil]
      exact .ok h
  | succ count ih =>
    match fuel, hfuel with
    | fuel + 1, hfuel =>
      have hpos := h.pos_eq
      rw [zeroFill, if_pos (by omega)]
      refine (writeU8_hashed h 0 (by omega)).bind fun hasher hhasher ↦ ?_
      rw [List.replicate_succ, ← List.singleton_append, ← List.append_assoc]
      refine ih hhasher ?_ (by omega) (by omega) ?_
      · rw [List.length_append, List.length_singleton]
        omega
      · rw [List.length_append, List.length_singleton]
        omega

/-- The digest while the results are copied: the bytes of the first ones and zeros. -/
def Copied (words : Words) (count : ℕ) (sha1 : List UInt8) : Prop :=
  sha1 = ((words.toList.take count).flatMap fun word ↦ ByteOrder.big.toBytes 4 word.toNat) ++
    List.replicate (20 - 4 * count) 0

theorem length_flatMap_words (words : List UInt32) :
    (words.flatMap fun word ↦ ByteOrder.big.toBytes 4 word.toNat).length = 4 * words.length := by
  simp [Nat.mul_comm]

theorem copyResult_returns {words : Words} {i : ℕ} {sha1 : List UInt8} (hi : i < 5)
    (h : Copied words i sha1) : Returns (copyResult words.toList sha1 i) (Copied words (i + 1)) := by
  have hwords : words.toList.length = 5 := rfl
  have hfront := length_flatMap_words (words.toList.take i)
  rw [List.length_take, hwords, Nat.min_eq_left (by omega)] at hfront
  have hword : elementAt words.toList i = .ok (words.toList[i]) := elementAt_of_lt (by omega)
  have hnext : words.toList.take (i + 1) = words.toList.take i ++ [words.toList[i]] :=
    List.take_succ_eq_append_getElem (by omega)
  unfold Copied at h ⊢
  have hlength : sha1.length = 20 := by
    rw [h, List.length_append, hfront, List.length_replicate]
    omega
  unfold copyResult
  rw [hword, ok_bind, slice_of_le (by omega) le_rfl, ok_bind, slice_of_le (by omega) (by omega),
    ok_bind]
  refine .ok ?_
  rw [hlength, h, List.drop_zero, Nat.sub_zero, List.take_left' (by omega),
    List.drop_append, List.drop_eq_nil_of_le (by omega), List.nil_append, hfront,
    List.drop_replicate, List.take_replicate, hnext, List.flatMap_append, List.flatMap_singleton]
  congr 2
  omega

theorem copyResults_eq (words : Words) :
    (List.range 5).foldlM (copyResult words.toList) (List.replicate 20 0) = .ok words.bytes := by
  rw [List.range_eq_range']
  obtain ⟨sha1, heq, hsha1⟩ := @foldlM_range'_returns _ (copyResult words.toList) (Copied words) 0 5
    (fun i sha1 _ hlt h ↦ copyResult_returns (by omega) h) (List.replicate 20 0) rfl
  rw [heq, hsha1]
  rfl

/-- The hasher returns the digest of the message it got. -/
theorem finish_eq {message : List UInt8} {hasher : Sha1NonSecret} (h : Hashed message hasher)
    (hbound : Sha1.blockCount message < 2 ^ 32 - 1) :
    hasher.finish build = .ok (Sha1.digest message) := by
  unfold Sha1.blockCount at hbound
  have hbits : hasher.chunkCount * 512 + hasher.chunkPos * 8 = 8 * message.length := by
    rw [h.count_eq, h.pos_eq]
    omega
  have hleast := (Sha1.zeros_least message.length).1
  have hzeros : Sha1.zeros message.length < 64 := Nat.mod_lt _ (by omega)
  obtain ⟨hasher1, heq1, h1⟩ := @writeU8_hashed build _ _ h 0x80 (by omega)
  have hlength1 : (message ++ [0x80]).length = message.length + 1 := by simp
  obtain ⟨hasher2, heq2, h2⟩ := @zeroFill_hashed build _ _ h1 _ 64
    (by rw [hlength1]; exact hleast) hzeros hzeros (by rw [hlength1]; omega)
  obtain ⟨hasher3, heq3, h3⟩ := @write_hashed build _ _ h2
    (ByteOrder.big.toBytes 8 (8 * message.length)) (by
      rw [List.length_append, List.length_append, hlength1, List.length_replicate,
        ByteOrder.length_toBytes]
      omega)
  change Hashed (Sha1.pad message) hasher3 at h3
  have hpad := Sha1.length_pad message
  have hpos := h3.pos_eq
  unfold finish
  rw [hbits, heq1, ok_bind, heq2, ok_bind, heq3, ok_bind, debugAssert_of (by omega), ok_bind,
    h3.results_eq, copyResults_eq]
  rfl

/-! ### Calls -/

/-- A call that adds to the message. -/
inductive Call
  | write (bytes : List UInt8)
  | writeU8 (val : UInt8)

/-- The bytes that a call adds. -/
def Call.bytes : Call → List UInt8
  | write bytes => bytes
  | writeU8 val => [val]

def Call.run (build : Build) (hasher : Sha1NonSecret) : Call → Exec Sha1NonSecret
  | write bytes => hasher.write build bytes
  | writeU8 val => hasher.writeU8 build val

/-- The digest that a new hasher returns after some calls. -/
def hash (build : Build) (calls : List Call) : Exec (List UInt8) := do
  let hasher ← calls.foldlM (Call.run build) new
  hasher.finish build

theorem run_hashed {message : List UInt8} {hasher : Sha1NonSecret} (call : Call)
    (h : Hashed message hasher) (hcount : (message ++ call.bytes).length / 64 < 2 ^ 32) :
    Returns (call.run build hasher) (Hashed (message ++ call.bytes)) := by
  cases call with
  | write bytes => exact write_hashed h bytes hcount
  | writeU8 val => exact writeU8_hashed h val (by simpa [Call.bytes] using hcount)

/-- Assumes: a message of fewer than 2^32 - 1 chunks. -/
theorem hash_eq (build : Build) {calls : List Call}
    (hcount : Sha1.blockCount (calls.flatMap Call.bytes) < 2 ^ 32 - 1) :
    hash build calls = .ok (Sha1.digest (calls.flatMap Call.bytes)) := by
  obtain ⟨hasher, heq, hhasher⟩ := @foldlM_hashed _ (Call.run build) Call.bytes
    (fun message hasher call h ↦ run_hashed call h) _ _ hashed_new calls
    (by unfold Sha1.blockCount at hcount; rw [List.nil_append]; omega)
  unfold hash
  rw [heq, ok_bind]
  exact finish_eq hhasher hcount

end Sha1NonSecret

/-! ### Names -/

namespace Guid

open Sha1NonSecret

/-- The GUID whose fields are the first bytes of a digest, in little-endian order, with the version
number 5. -/
def ofDigest (v : List UInt8) (h : v.length = 20) : Guid where
  bytes :=
    ByteOrder.big.toBytes 4 (ByteOrder.little.ofBytes (v.take 4)) ++
      ByteOrder.big.toBytes 2 (ByteOrder.little.ofBytes ((v.drop 4).take 2)) ++
      ByteOrder.big.toBytes 2 (ByteOrder.little.ofBytes ((v.drop 6).take 2) % 0x1000 + 0x5000) ++
      (v.drop 8).take 8
  length_eq := by simp [h]

/-- The GUID of an encoded name. -/
def nameGuid (encoded : List UInt8) : Guid :=
  ofDigest (Sha1.digest (nameSpace ++ encoded)) (Sha1.length_digest _)

/-- The version number in a byte. -/
theorem version_byte (byte : UInt8) :
    ((byte &&& 0x0F) ||| 0x50).toNat = byte.toNat % 16 + 0x50 := by
  cases byte with
  | ofBitVec bits =>
    revert bits
    decide +kernel

theorem toBytes_little (bytes : List UInt8) :
    ByteOrder.big.toBytes bytes.length (ByteOrder.little.ofBytes bytes) = bytes.reverse := by
  rw [show ByteOrder.big = ByteOrder.little.flip from rfl, ByteOrder.toBytes_flip,
    ByteOrder.toBytes_ofBytes]

theorem version_field (low high : UInt8) :
    ByteOrder.big.toBytes 2 (ByteOrder.little.ofBytes [low, high] % 0x1000 + 0x5000) =
      [(high &&& 0x0F) ||| 0x50, low] := by
  have hvalue : ByteOrder.little.ofBytes [low, high] % 0x1000 + 0x5000 =
      ByteOrder.little.ofBytes [low, (high &&& 0x0F) ||| 0x50] := by
    have hlow := low.toNat_lt
    simp only [ByteOrder.ofBytes, ByteOrder.leValue, version_byte]
    omega
  rw [hvalue]
  exact toBytes_little [low, (high &&& 0x0F) ||| 0x50]

theorem exists_four {v : List UInt8} {length : ℕ} (h : v.length = length + 4) :
    ∃ first second third fourth rest, v = first :: second :: third :: fourth :: rest ∧
      rest.length = length := by
  match v, h with
  | first :: second :: third :: fourth :: rest, h =>
    exact ⟨first, second, third, fourth, rest, rfl, by simpa using h⟩

theorem ofHash_eq {v : List UInt8} (h : v.length = 20) : ofHash v = .ok (ofDigest v h) := by
  obtain ⟨v0, v1, v2, v3, rest, rfl, h1⟩ := exists_four h
  obtain ⟨v4, v5, v6, v7, rest, rfl, h2⟩ := exists_four h1
  obtain ⟨v8, v9, v10, v11, rest, rfl, h3⟩ := exists_four h2
  obtain ⟨v12, v13, v14, v15, rest, rfl, -⟩ := exists_four h3
  have hdata1 := toBytes_little [v0, v1, v2, v3]
  have hdata2 := toBytes_little [v4, v5]
  have hdata3 := version_field v6 v7
  simp only [List.length_cons, List.length_nil, Nat.zero_add, Nat.reduceAdd] at hdata1 hdata2
  unfold ofDigest
  simp only [List.take_succ_cons, List.take_zero, List.drop_succ_cons, List.drop_zero, hdata1, hdata2,
    hdata3]
  rfl

/-- The hasher behind the characters of a name. -/
theorem chars_hashed {build : Build} {message : List UInt8} {hasher : Sha1NonSecret}
    (h : Hashed message hasher) (chars : List Char)
    (hcount : (message ++ utf16Bytes .big chars).length / 64 < 2 ^ 32) :
    Returns (chars.foldlM (fun hasher upperCh ↦ (utf16Units upperCh).foldlM (fun hasher upperU16 ↦
      hasher.write build (ByteOrder.big.toBytes 2 upperU16)) hasher) hasher)
      (Hashed (message ++ utf16Bytes .big chars)) := by
  have hbytes : utf16Bytes .big chars =
      chars.flatMap fun c ↦ (utf16Units c).flatMap (ByteOrder.big.toBytes 2) := List.flatMap_assoc
  rw [hbytes] at hcount ⊢
  refine foldlM_hashed (fun message hasher c h hsmall ↦ ?_) h chars hcount
  exact @foldlM_hashed _ _ (ByteOrder.big.toBytes 2)
    (fun message hasher unit h hsmall ↦ write_hashed h _ hsmall) _ _ h _ hsmall

/-- The hasher returns the digest of the standard for every message of fewer than 2^32 - 1 chunks,
however it is split into calls, and a name has the GUID of its encoding in upper case. -/
theorem fromName_standard (build : Build) (toUppercase : Char → List Char) :
    (∀ calls : List Call, Sha1.blockCount (calls.flatMap Call.bytes) < 2 ^ 32 - 1 →
      Sha1NonSecret.hash build calls = .ok (Sha1.digest (calls.flatMap Call.bytes))) ∧
    ∀ name : List Char,
      Sha1.blockCount (nameSpace ++ utf16Bytes .big (name.flatMap toUppercase)) < 2 ^ 32 - 1 →
      fromName build toUppercase name =
        .ok (nameGuid (utf16Bytes .big (name.flatMap toUppercase))) := by
  refine ⟨fun calls hcount ↦ hash_eq build hcount, fun name hcount ↦ ?_⟩
  have hlength := hcount
  unfold Sha1.blockCount at hlength
  obtain ⟨hasher, heq, h⟩ := @write_hashed build _ _ hashed_new nameSpace (by decide)
  obtain ⟨hasher', heq', h'⟩ := @chars_hashed build _ _ h (name.flatMap toUppercase)
    (by rw [List.nil_append]; omega)
  unfold fromName
  rw [heq, ok_bind, heq', ok_bind, finish_eq h' hcount, ok_bind]
  exact ofHash_eq _

/-- The provider name in the documentation of `from_name`. -/
def documentedName : List Char := ['M', 'y', 'P', 'r', 'o', 'v', 'i', 'd', 'e', 'r']

theorem fromName_documented :
    fromName ⟨true, .little, true⟩ (fun c ↦ [c.toUpper]) documentedName =
      .ok (nameGuid (utf16Bytes .big (documentedName.flatMap fun c ↦ [c.toUpper]))) ∧
    (fromName ⟨true, .little, true⟩ (fun c ↦ [c.toUpper]) documentedName).map Guid.bytes =
      .ok (ByteOrder.big.toBytes 16 0xb3864c38427358c5545b8b3608343471) ∧
    Sha1NonSecret.hash ⟨true, .little, true⟩ [.writeU8 0x61, .write [0x62, 0x63]] =
      .ok (Sha1.digest [0x61, 0x62, 0x63]) := by
  have hstandard := fromName_standard ⟨true, .little, true⟩ fun c ↦ [c.toUpper]
  refine ⟨hstandard.2 documentedName (by decide), ?_, hstandard.1 _ (by decide)⟩
  decide +kernel

end Guid

end Tracepoints
