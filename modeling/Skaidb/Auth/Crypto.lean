import Mathlib.Logic.Function.Iterate
import Skaidb.Auth.Scram
import Skaidb.Codec.Endian
import Skaidb.Codec.Text

/-!
# SHA-256, HMAC and PBKDF2

The hash functions that the login is built from. A message is padded by one bit, as many zeros as
are needed and its length in bits, and the padded message is processed in blocks of 64 bytes. The
padding fills whole blocks and no more of them than it must, and it can be undone, so no two
messages are hashed as the same blocks.
-/

namespace Skaidb

open Codec

namespace Crypto

/-! ## The hash -/

/-- The eight words of the hash under way. -/
structure HashWords where
  /-- The first working word of the compression. -/
  a : UInt32
  /-- The second word. -/
  b : UInt32
  /-- The third word. -/
  c : UInt32
  /-- The fourth word. -/
  d : UInt32
  /-- The fifth word. -/
  e : UInt32
  /-- The sixth word. -/
  f : UInt32
  /-- The seventh word. -/
  g : UInt32
  /-- The eighth word. -/
  hh : UInt32
  deriving DecidableEq

/-- The words that `sha256` starts from, before the first chunk of the message. -/
def h0 : HashWords :=
  ⟨0x6a09e667, 0xbb67ae85, 0x3c6ef372, 0xa54ff53a,
    0x510e527f, 0x9b05688c, 0x1f83d9ab, 0x5be0cd19⟩

/-- The constants that the rounds of `compress` add, one for each word of the schedule. -/
def roundConstants : List UInt32 := [
  0x428a2f98, 0x71374491, 0xb5c0fbcf, 0xe9b5dba5, 0x3956c25b, 0x59f111f1, 0x923f82a4, 0xab1c5ed5,
  0xd807aa98, 0x12835b01, 0x243185be, 0x550c7dc3, 0x72be5d74, 0x80deb1fe, 0x9bdc06a7, 0xc19bf174,
  0xe49b69c1, 0xefbe4786, 0x0fc19dc6, 0x240ca1cc, 0x2de92c6f, 0x4a7484aa, 0x5cb0a9dc, 0x76f988da,
  0x983e5152, 0xa831c66d, 0xb00327c8, 0xbf597fc7, 0xc6e00bf3, 0xd5a79147, 0x06ca6351, 0x14292967,
  0x27b70a85, 0x2e1b2138, 0x4d2c6dfc, 0x53380d13, 0x650a7354, 0x766a0abb, 0x81c2c92e, 0x92722c85,
  0xa2bfe8a1, 0xa81a664b, 0xc24b8b70, 0xc76c51a3, 0xd192e819, 0xd6990624, 0xf40e3585, 0x106aa070,
  0x19a4c116, 0x1e376c08, 0x2748774c, 0x34b0bcb5, 0x391c0cb3, 0x4ed8aa4a, 0x5b9cca4f, 0x682e6ff3,
  0x748f82ee, 0x78a5636f, 0x84c87814, 0x8cc70208, 0x90befffa, 0xa4506ceb, 0xbef9a3f7, 0xc67178f2]

/-- Rotate a word to the right, by less than its width. -/
def rotateRight (x : UInt32) (n : UInt32) : UInt32 := (x >>> n) ||| (x <<< (32 - n))

/-- Push zeros until eight bytes are missing from a multiple of 64. -/
def pushZeros (data : List UInt8) : List UInt8 :=
  if data.length % 64 = 56 then data else pushZeros (data ++ [0])
  termination_by (56 + 64 - data.length % 64) % 64
  decreasing_by
    rw [List.length_append, List.length_singleton]
    omega

/-- The message with its padding: a one bit, zeros up to the last eight bytes of a chunk, and the
length in bits. -/
def padded (msg : List UInt8) : List UInt8 :=
  let bitLen := UInt64.ofNat msg.length * 8
  pushZeros (msg ++ [0x80]) ++ beBytes 8 bitLen.toNat

/-- The chunks of exactly `n` elements, without what is left at the end. -/
def chunksExact (n : ℕ) (data : List UInt8) : List (List UInt8) :=
  (List.range (data.length / n)).map fun i => (data.drop (i * n)).take n

/-- The sixteen 32-bit words of a chunk of 64 bytes, each big-endian. -/
def words (chunk : List UInt8) : List UInt32 :=
  (List.range 16).map fun i => UInt32.ofNat (ofBeBytes ((chunk.drop (i * 4)).take 4))

/-- One more word of the message schedule, made of four of the words before it. -/
def extendSchedule (w : List UInt32) : List UInt32 :=
  let back (n : ℕ) : UInt32 := w.getD (w.length - n) 0
  let s0 := rotateRight (back 15) 7 ^^^ rotateRight (back 15) 18 ^^^ (back 15 >>> 3)
  let s1 := rotateRight (back 2) 17 ^^^ rotateRight (back 2) 19 ^^^ (back 2 >>> 10)
  w ++ [back 16 + s0 + back 7 + s1]

/-- The 64 words of the schedule of a chunk. -/
def schedule (chunk : List UInt8) : List UInt32 := extendSchedule^[48] (words chunk)

/-- One round with its constant and its word. -/
def round (h : HashWords) (kw : UInt32 × UInt32) : HashWords :=
  let s1 := rotateRight h.e 6 ^^^ rotateRight h.e 11 ^^^ rotateRight h.e 25
  let ch := (h.e &&& h.f) ^^^ (~~~h.e &&& h.g)
  let t1 := h.hh + s1 + ch + kw.1 + kw.2
  let s0 := rotateRight h.a 2 ^^^ rotateRight h.a 13 ^^^ rotateRight h.a 22
  let maj := (h.a &&& h.b) ^^^ (h.a &&& h.c) ^^^ (h.b &&& h.c)
  let t2 := s0 + maj
  ⟨t1 + t2, h.a, h.b, h.c, h.d + t1, h.e, h.f, h.g⟩

/-- Process one chunk of 64 bytes: the words of the schedule go through the rounds, and the result
is added to the words so far. -/
def compress (h : HashWords) (chunk : List UInt8) : HashWords :=
  let r := (roundConstants.zip (schedule chunk)).foldl round h
  ⟨h.a + r.a, h.b + r.b, h.c + r.c, h.d + r.d, h.e + r.e, h.f + r.f, h.g + r.g, h.hh + r.hh⟩

/-- The bytes of the eight words, each with its most significant byte first. -/
def HashWords.toDigest (h : HashWords) : Digest where
  bytes := [h.a, h.b, h.c, h.d, h.e, h.f, h.g, h.hh].flatMap fun word => beBytes 4 word.toNat
  length_eq := by simp

/-- The SHA-256 digest of a message: `compress` is applied to the chunks of the padded message in
turn. -/
def sha256 (msg : List UInt8) : Digest :=
  ((chunksExact 64 (padded msg)).foldl compress h0).toDigest

/-! ## Keyed hashes -/

/-- `hmac_sha256`: the keyed hash of a message, a long key being hashed first. -/
def hmacSha256 (key msg : List UInt8) : Digest :=
  let key := if key.length > 64 then (sha256 key).bytes else key
  let block := key ++ List.replicate (64 - key.length) 0
  let ipad := block.map (0x36 ^^^ ·)
  let opad := block.map (0x5c ^^^ ·)
  sha256 (opad ++ (sha256 (ipad ++ msg)).bytes)

/-- `pbkdf2_hmac_sha256`: a key derived from a password, one block of output. -/
def pbkdf2HmacSha256 (password salt : List UInt8) (iterations : UInt32) : Digest :=
  let u := hmacSha256 password (salt ++ beBytes 4 1)
  ((fun acc : Digest × Digest =>
    let u := hmacSha256 password acc.1.bytes
    (u, acc.2.xor u))^[iterations.toNat - 1] (u, u)).2

/-! ## The padding -/

/-- The zeros behind a message of some length. -/
def paddingZeros (length : ℕ) : ℕ := (56 + 64 - (length + 1) % 64) % 64

/-- The loop that pads a message pushes as many zeros as are missing, always fewer than 64. -/
theorem pushZeros_eq (data : List UInt8) :
    pushZeros data = data ++ List.replicate ((56 + 64 - data.length % 64) % 64) 0 := by
  fun_induction pushZeros data with
  | case1 data hfull =>
    rw [hfull]
    exact (List.append_nil data).symm
  | case2 data hmissing ih =>
    have hlength : (data ++ [0]).length = data.length + 1 := List.length_append
    have hone : (56 + 64 - data.length % 64) % 64 =
        (56 + 64 - (data.length + 1) % 64) % 64 + 1 := by omega
    rw [ih, hlength, hone, List.replicate_succ, List.append_assoc]
    rfl

/-- The bits of a message as they are written, modulo the width of their field. -/
theorem toNat_bitLen (length : ℕ) : (UInt64.ofNat length * 8).toNat = 8 * length % 2 ^ 64 := by
  rw [UInt64.toNat_mul, UInt64.toNat_ofNat']
  have height : (8 : UInt64).toNat = 8 := rfl
  rw [height]
  omega

/-- A padded message is the message, a byte with only its first bit set, zeros, and the length in
bits. -/
theorem padded_eq (msg : List UInt8) :
    padded msg = msg ++ 0x80 :: (List.replicate (paddingZeros msg.length) 0 ++
      beBytes 8 (8 * msg.length % 2 ^ 64)) := by
  have hlength : (msg ++ [0x80]).length = msg.length + 1 := List.length_append
  rw [padded, pushZeros_eq, hlength, toNat_bitLen]
  simp only [paddingZeros, List.append_assoc, List.cons_append, List.nil_append]

/-- A padded message is longer by the byte `80`, the zeros, and the eight bytes of its length. -/
theorem length_padded (msg : List UInt8) :
    (padded msg).length = msg.length + 9 + paddingZeros msg.length := by
  rw [padded_eq, List.length_append, List.length_cons, List.length_append, List.length_replicate,
    length_beBytes]
  omega

/-- Whole blocks are filled, and no fewer of them hold the message, its mark and its length. -/
theorem length_padded_least (msg : List UInt8) :
    (padded msg).length % 64 = 0 ∧ msg.length + 9 ≤ (padded msg).length ∧
      ∀ n, n % 64 = 0 → msg.length + 9 ≤ n → (padded msg).length ≤ n := by
  rw [length_padded, paddingZeros]
  refine ⟨by omega, by omega, fun n hn hle => ?_⟩
  omega

/-- **Different messages have different padded forms,** so that padding loses nothing. -/
theorem padded_injective : Function.Injective padded := by
  intro msg msg' h
  rw [padded_eq, padded_eq] at h
  -- Both end with eight bytes of length.
  have hsplit (m : List UInt8) (zeros length : ℕ) :
      m ++ 0x80 :: (List.replicate zeros (0 : UInt8) ++ beBytes 8 length) =
        (m ++ 0x80 :: List.replicate zeros 0) ++ beBytes 8 length := by simp
  rw [hsplit, hsplit] at h
  have hfront := (List.append_inj' h (by rw [length_beBytes, length_beBytes])).1
  -- The mark is the last byte in front of them that is not zero.
  have hzeros (m c : List UInt8) (zeros : ℕ) :
      List.replicate zeros (0 : UInt8) ≠ m ++ 0x80 :: c := by
    intro heq
    have hmem : (0x80 : UInt8) ∈ List.replicate zeros (0 : UInt8) := by rw [heq]; simp
    exact absurd (List.eq_of_mem_replicate hmem) (by decide)
  rcases append_separator_inj hfront with ⟨hmsg, -⟩ | ⟨m, -, hrest⟩ | ⟨m, -, hrest⟩
  · exact hmsg
  · exact absurd hrest (hzeros m _ _)
  · exact absurd hrest (hzeros m _ _)

/-! ## The chunks -/

/-- The first chunks of a list, one after another, are its first elements. -/
theorem flatten_chunks (n : ℕ) (data : List UInt8) (k : ℕ) :
    ((List.range k).map fun i => (data.drop (i * n)).take n).flatten = data.take (k * n) := by
  induction k with
  | zero => rw [Nat.zero_mul]; rfl
  | succ k ih =>
    rw [List.range_succ, List.map_append, List.flatten_append, ih, Nat.succ_mul,
      List.take_add]
    simp

/-- No byte of whole chunks is left out, and each chunk is whole. -/
theorem chunksExact_spec {n : ℕ} {data : List UInt8} (h : data.length % n = 0) :
    (chunksExact n data).flatten = data ∧ ∀ chunk ∈ chunksExact n data, chunk.length = n := by
  have hwhole : data.length / n * n = data.length := Nat.div_mul_cancel (Nat.dvd_of_mod_eq_zero h)
  constructor
  · rw [chunksExact, flatten_chunks, hwhole, List.take_length]
  · intro chunk hchunk
    obtain ⟨i, hi, rfl⟩ := List.mem_map.mp hchunk
    have hlast : (i + 1) * n ≤ data.length / n * n :=
      Nat.mul_le_mul_right n (List.mem_range.mp hi)
    rw [hwhole, Nat.succ_mul] at hlast
    rw [List.length_take, List.length_drop]
    omega

/-- **Padding.** A padded message is the message, a byte with the first bit, fewer than 64 zeros
and its length in bits, if that fits its field. Its own length is the least multiple of 64 that
has room for these, the chunks that are processed are whole and leave no byte out, and no other
message has the same padded form. -/
theorem sha256_padding (msg : List UInt8) :
    (msg.length < 2 ^ 61 → ∃ zeros < 64, padded msg =
      msg ++ 0x80 :: (List.replicate zeros 0 ++ beBytes 8 (8 * msg.length))) ∧
    ((padded msg).length % 64 = 0 ∧ msg.length + 9 ≤ (padded msg).length ∧
      ∀ n, n % 64 = 0 → msg.length + 9 ≤ n → (padded msg).length ≤ n) ∧
    ((chunksExact 64 (padded msg)).flatten = padded msg ∧
      ∀ chunk ∈ chunksExact 64 (padded msg), chunk.length = 64) ∧
    ∀ msg', padded msg' = padded msg → msg' = msg := by
  refine ⟨fun h => ⟨paddingZeros msg.length, Nat.mod_lt _ (by decide), ?_⟩,
    length_padded_least msg, chunksExact_spec (length_padded_least msg).1,
    fun msg' heq => padded_injective heq⟩
  have hfits : 8 * msg.length < 2 ^ 64 := by omega
  rw [padded_eq, Nat.mod_eq_of_lt hfits]

example : (sha256 (utf8 "abc")).bytes.take 8 =
    [0xba, 0x78, 0x16, 0xbf, 0x8f, 0x01, 0xcf, 0xea] := by
  rw [sha256, padded_eq]
  decide +kernel

end Crypto

end Skaidb
