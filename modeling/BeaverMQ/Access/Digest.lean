import BeaverMQ.Model.Crypto
import Mathlib.Data.Nat.NthRoot.Defs
import Mathlib.Data.Nat.Prime.Basic

/-!
# BeaverMQ — the digests and their standards

SHA-256 as in FIPS 180-4 and HMAC as in RFC 2104, and against them `crypto.c` step by step:
whole blocks are hashed where they are, the rest of the message in a tail of one block or
two, and an HMAC may be written over its message.
-/

namespace BeaverMQ.Digest

open List

/-! ## The standards -/

namespace Fips

/-- The first 32 bits of the fractional part of the `r`-th root of `p`. -/
def rootBits (r p : Nat) : UInt32 := UInt32.ofNat (Nat.nthRoot r (p * 2 ^ (32 * r)))

/-- The constants belong to the first 64 primes. -/
def K : List UInt32 := ((range 312).filter (fun p => p.Prime)).map (rootBits 3)

def Ch (x y z : UInt32) : UInt32 := (x &&& y) ^^^ (~~~x &&& z)

def Maj (x y z : UInt32) : UInt32 := (x &&& y) ^^^ (x &&& z) ^^^ (y &&& z)

def Sigma0 (x : UInt32) : UInt32 := ror x 2 ^^^ ror x 13 ^^^ ror x 22

def Sigma1 (x : UInt32) : UInt32 := ror x 6 ^^^ ror x 11 ^^^ ror x 25

def sigma0 (x : UInt32) : UInt32 := ror x 7 ^^^ ror x 18 ^^^ (x >>> 3)

def sigma1 (x : UInt32) : UInt32 := ror x 17 ^^^ ror x 19 ^^^ (x >>> 10)

/-- The message schedule of a block. -/
def W (M : Nat → UInt32) (t : Nat) : UInt32 :=
  if t < 16 then M t
  else sigma1 (W M (t - 2)) + W M (t - 7) + sigma0 (W M (t - 15)) + W M (t - 16)

/-- The working variables after `t` rounds. -/
def vars (M : Nat → UInt32) (H : Sha256) : Nat → Sha256
  | 0 => H
  | t + 1 =>
    let v := vars M H t
    let T1 := v.h + Sigma1 v.e + Ch v.e v.f v.g + K.getD t 0 + W M t
    let T2 := Sigma0 v.a + Maj v.a v.b v.c
    ⟨T1 + T2, v.a, v.b, v.c, v.d + T1, v.e, v.f, v.g⟩

def word (p : Bytes) (j : Nat) : UInt32 := UInt32.ofNat (Bytes.beVal ((p.drop (4 * j)).take 4))

def H0 : Sha256 :=
  ⟨rootBits 2 2, rootBits 2 3, rootBits 2 5, rootBits 2 7, rootBits 2 11, rootBits 2 13,
    rootBits 2 17, rootBits 2 19⟩

/-- The hash value after `i` blocks of a padded message. -/
def hashValue (p : Bytes) : Nat → Sha256
  | 0 => H0
  | i + 1 =>
    let H := hashValue p i
    let v := vars (fun t => word p (16 * i + t)) H 64
    ⟨H.a + v.a, H.b + v.b, H.c + v.c, H.d + v.d, H.e + v.e, H.f + v.f, H.g + v.g, H.h + v.h⟩

theorem exists_zeroBits (l : Nat) : ∃ k, (l + 1 + k) % 512 = 448 :=
  ⟨959 - l % 512, by omega⟩

/-- A bit 1 and the least number of zero bits that leaves 64 bits of the last block, for the
length. In whole bytes the first eight of these bits are `0x80`. -/
def padded (m : Bytes) : Bytes :=
  let l := 8 * m.length
  m ++ 0x80 :: replicate (Nat.find (exists_zeroBits l) / 8) 0 ++ Bytes.beBytes 8 l

/-- SHA-256, for messages of less than `2 ^ 64` bits. -/
def sha256 (m : Bytes) : Bytes :=
  let H := hashValue (padded m) ((padded m).length / 64)
  [H.a, H.b, H.c, H.d, H.e, H.f, H.g, H.h].flatMap (fun w => Bytes.beBytes 4 w.toNat)

/-- `H(K XOR opad, H(K XOR ipad, text))`, with a key of 64 bytes. -/
def hmac (key text : Bytes) : Bytes :=
  let K := if 64 < key.length then sha256 key else key
  let K := K ++ replicate (64 - K.length) 0
  sha256 (K.map (· ^^^ 0x5c) ++ sha256 (K.map (· ^^^ 0x36) ++ text))

end Fips

/-- What the pointers of a caller point to. -/
abbrev Memory := Nat → UInt8

def Memory.read (m : Memory) (a n : Nat) : Bytes := (range n).map (fun i => m (a + i))

def Memory.write (m : Memory) (a : Nat) (bs : Bytes) : Memory := fun x =>
  if a ≤ x then bs.getD (x - a) (m x) else m x

/-- `crypto_hmac_sha256` reads key and message into its own buffers, and what it writes to `out`
is the last it does; `none` is a `memcpy` beyond the end of `buf`. -/
def hmacCall (m : Memory) (key keylen msg msglen out : Nat) : Option Memory :=
  if 64 + msglen ≤ 128 then
    some (m.write out (cryptoHmacSha256 (m.read key keylen) (m.read msg msglen)))
  else none

/-! ## One block -/

theorem fipsK : Fips.K = sha256K := by decide +kernel

theorem beWords_eq : ∀ b : Bytes, beWords b = (range (b.length / 4)).map (Fips.word b)
  | a :: b :: c :: d :: p => by
    have hLen : (a :: b :: c :: d :: p).length / 4 = p.length / 4 + 1 := by simp; omega
    rw [beWords, beWords_eq p, hLen, range_succ_eq_map, map_cons, map_map]
    rfl
  | [] | [_] | [_, _] | [_, _, _] => by simp [beWords]

/-- The words of a block are those of the message from the block on. -/
theorem beWords_block (p : Bytes) {i : Nat} (hLen : 64 * i + 64 ≤ p.length) :
    beWords ((p.drop (64 * i)).take 64) =
      (range 16).map (Fips.W (fun t => Fips.word p (16 * i + t))) := by
  have hBlock : ((p.drop (64 * i)).take 64).length / 4 = 16 := by simp; omega
  rw [beWords_eq, hBlock]
  refine map_congr_left fun t ht => ?_
  have ht : t < 16 := by simpa using ht
  rw [Fips.W, if_pos ht, Fips.word, Fips.word, drop_take, drop_drop, take_take,
    Nat.min_eq_left (by omega), Nat.mul_add, ← Nat.mul_assoc]

/-- The loop that extends the schedule, on a list with its newest word first. -/
theorem extendWords_eq (M : Nat → UInt32) : ∀ k n, 16 ≤ n →
    extendWords k ((range n).map (Fips.W M)).reverse = ((range (n + k)).map (Fips.W M)).reverse
  | 0, _, _ => rfl
  | k + 1, n, hn => by
    have hAt : ∀ i < 16, ((range n).map (Fips.W M)).reverse.getD i 0 = Fips.W M (n - 1 - i) := by
      intro i hi
      have hi : i < n := by omega
      simp [getD_eq_getElem?_getD, hi]
    have hNext := extendWords_eq M k (n + 1) (by omega)
    rw [range_succ, map_append, reverse_append, Nat.add_right_comm] at hNext
    rw [extendWords, hAt 14 (by decide), hAt 1 (by decide), hAt 15 (by decide),
      hAt 6 (by decide), ← Nat.add_assoc, ← hNext]
    simp only [map_cons, map_nil, reverse_cons, reverse_nil, nil_append, cons_append]
    congr 2
    rw [Fips.W.eq_1 M n, if_neg (by omega), Fips.sigma0, Fips.sigma1]
    simp only [Nat.sub_sub, Nat.reduceAdd]
    ac_rfl

/-- The 64 rounds: the induction is on their number. -/
theorem foldl_sha256Round (M : Nat → UInt32) (H : Sha256) :
    (sha256K.zip ((range 64).map (Fips.W M))).foldl sha256Round H = Fips.vars M H 64 := by
  have hZip : sha256K.zip ((range 64).map (Fips.W M)) =
      (range 64).map (fun t => (Fips.K.getD t 0, Fips.W M t)) := by
    rw [fipsK]
    exact ext_getElem (by simp [sha256K]) fun t h _ => by
      have ht : t < sha256K.length := by simp at h; omega
      simp [getD_eq_getElem?_getD, ht]
  have hRounds : ∀ n, (range n).foldl
      (fun s t => sha256Round s (Fips.K.getD t 0, Fips.W M t)) H = Fips.vars M H n := by
    intro n
    induction n with
    | zero => rfl
    | succ n ih => rw [range_succ, foldl_append, ih]; rfl
  rw [hZip, foldl_map, hRounds]

theorem sha256Block_eq (p : Bytes) {i : Nat} (hLen : 64 * i + 64 ≤ p.length) :
    sha256Block (Fips.hashValue p i) ((p.drop (64 * i)).take 64) = Fips.hashValue p (i + 1) := by
  rw [sha256Block, beWords_block p hLen, extendWords_eq _ 48 16 le_rfl, reverse_reverse,
    foldl_sha256Round]
  rfl

/-! ## Messages -/

theorem sha256Blocks_eq (p : Bytes) : ∀ k i, 64 * (i + k) ≤ p.length →
    sha256Blocks k (Fips.hashValue p i) (p.drop (64 * i)) = Fips.hashValue p (i + k)
  | 0, _, _ => rfl
  | k + 1, i, hLen => by
    rw [sha256Blocks, sha256Block_eq p (by omega), drop_drop, ← Nat.mul_succ,
      sha256Blocks_eq p k (i + 1) (by omega), Nat.add_right_comm, Nat.add_assoc]

/-- Hashing the blocks of `data` does not depend on what is behind it. -/
theorem sha256Blocks_append (x : Bytes) (k : Nat) : ∀ n c (data : Bytes), 64 * n ≤ data.length →
    sha256Blocks (n + k) c (data ++ x) =
      sha256Blocks k (sha256Blocks n c data) (data.drop (64 * n) ++ x)
  | 0, _, _, _ => by rw [Nat.zero_add]; rfl
  | n + 1, c, data, hLen => by
    have hBlock : 64 ≤ data.length := by omega
    rw [Nat.add_right_comm, sha256Blocks, sha256Blocks, take_append_of_le_length hBlock,
      drop_append_of_le_length hBlock, sha256Blocks_append x k n _ _ (by rw [length_drop]; omega),
      drop_drop, Nat.mul_succ, Nat.add_comm 64]

/-- The zeros of the standard, in bytes: up to 55 bytes of the message leave room for the
length in the block, more do not. -/
theorem zeroBits_eq (n : Nat) : Nat.find (Fips.exists_zeroBits (8 * n)) / 8 =
    if n % 64 + 1 ≤ 56 then 56 - (n % 64 + 1) else 120 - (n % 64 + 1) := by
  obtain ⟨pad, hPad⟩ : ∃ pad, pad =
    if n % 64 + 1 ≤ 56 then 56 - (n % 64 + 1) else 120 - (n % 64 + 1) := ⟨_, rfl⟩
  rw [← hPad]
  have hSpec := Nat.find_spec (Fips.exists_zeroBits (8 * n))
  have hLeast := Nat.find_min' (Fips.exists_zeroBits (8 * n)) (m := 8 * pad + 7)
    (by split at hPad <;> omega)
  split at hPad <;> omega

theorem cryptoSha256_eq (data : Bytes) : cryptoSha256 data = Fips.sha256 data := by
  have hHash := sha256Blocks_eq (Fips.padded data) ((Fips.padded data).length / 64) 0 (by omega)
  rw [Nat.zero_add, Nat.mul_zero, drop_zero] at hHash
  have hRest : (data.drop (64 * (data.length / 64))).length = data.length % 64 := by
    rw [length_drop]; omega
  have hTail : ∃ x, Fips.padded data = data ++ x ∧
      sha256Tail (data.drop (64 * (data.length / 64))) data.length =
        data.drop (64 * (data.length / 64)) ++ x :=
    ⟨_, append_assoc .., by
      rw [sha256Tail, hRest, zeroBits_eq, Nat.mul_comm data.length, append_assoc]⟩
  obtain ⟨x, hPadded, hTail⟩ := hTail
  have hCount : (data ++ x).length / 64 =
      data.length / 64 + (data.drop (64 * (data.length / 64)) ++ x).length / 64 := by
    rw [length_append, length_append, hRest]; omega
  have hInit : Fips.H0 = ⟨0x6a09e667, 0xbb67ae85, 0x3c6ef372, 0xa54ff53a, 0x510e527f,
    0x9b05688c, 0x1f83d9ab, 0x5be0cd19⟩ := by decide +kernel
  rw [Fips.sha256, ← hHash, hPadded, hCount, sha256Blocks_append x _ _ _ data (by omega), ← hTail,
    Fips.hashValue, hInit]
  rfl

theorem cryptoHmacSha256_eq (key text : Bytes) :
    cryptoHmacSha256 key text = Fips.hmac key text := by
  simp only [cryptoHmacSha256, Fips.hmac, cryptoSha256_eq]

theorem Memory.read_write (m : Memory) (a : Nat) (bs : Bytes) :
    (m.write a bs).read a bs.length = bs :=
  ext_getElem (by simp [Memory.read]) fun i _ hi => by simp [Memory.read, Memory.write, hi]

/-- **`crypto_sha256` is SHA-256, and `crypto_hmac_sha256` puts the HMAC of a message of at
most 64 bytes where it is told, over its arguments or not, and leaves the rest alone.** -/
theorem digests_conform (m : Memory) (key keylen msg msglen out : Nat) (hMsg : msglen ≤ 64) :
    (∀ data, cryptoSha256 data = Fips.sha256 data) ∧
    ∃ m', hmacCall m key keylen msg msglen out = some m' ∧
      m'.read out 32 = Fips.hmac (m.read key keylen) (m.read msg msglen) ∧
      ∀ x, x < out ∨ out + 32 ≤ x → m' x = m x := by
  have hSize : ∀ key text, (cryptoHmacSha256 key text).length = 32 := fun _ _ => by
    simp [cryptoHmacSha256, cryptoSha256]
  refine ⟨cryptoSha256_eq, _, if_pos (by omega), ?_, ?_⟩
  · rw [← cryptoHmacSha256_eq, ← hSize, Memory.read_write]
  · intro x hx
    rw [Memory.write]
    split
    · rw [getD_eq_getElem?_getD, getElem?_eq_none (by rw [hSize]; omega), Option.getD_none]
    · rfl

/-- As `pbkdf2_sha256` calls it, with `u` as message and output. -/
theorem digests_conform_over :
    ∃ m', hmacCall (fun _ => 7) 64 8 0 32 0 = some m' ∧
      m'.read 0 32 = Fips.hmac (replicate 8 7) (replicate 32 7) :=
  (digests_conform (fun _ => 7) 64 8 0 32 0 (by decide)).2.imp fun _ h => ⟨h.1, h.2.1⟩

end BeaverMQ.Digest
