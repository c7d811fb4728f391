import BeaverMQ.Model.Types

/-!
# BeaverMQ — checksums and message authentication

The CRC-32 of `cluster.c` and the SHA-256 and HMAC-SHA256 of `crypto.c`, as the source
computes them on 32-bit words.
-/

namespace BeaverMQ

/-! ## CRC-32 -/

/-- One shift of the inner loop of `crc_build`. -/
def crcShift (c : UInt32) : UInt32 :=
  if c &&& 1 = 1 then (0xEDB88320 : UInt32) ^^^ (c >>> 1) else c >>> 1

/-- `s_crc_tab[i]`. -/
def crcTab (i : UInt32) : UInt32 := Nat.repeat crcShift 8 i

def clusterCrc32 (data : Bytes) : Nat :=
  let c := data.foldl
    (fun c b => crcTab ((c ^^^ b.toUInt32) &&& 0xFF) ^^^ (c >>> 8)) 0xFFFFFFFF
  (c ^^^ 0xFFFFFFFF).toNat

/-! ## SHA-256 -/

/-- The eight working words `sha256_t.s`. -/
structure Sha256 where
  a : UInt32
  b : UInt32
  c : UInt32
  d : UInt32
  e : UInt32
  f : UInt32
  g : UInt32
  h : UInt32
  deriving DecidableEq

def ror (x n : UInt32) : UInt32 := (x >>> n) ||| (x <<< (32 - n))

/-- The table `K` of `sha256_block`. -/
def sha256K : List UInt32 :=
  [ 0x428a2f98, 0x71374491, 0xb5c0fbcf, 0xe9b5dba5, 0x3956c25b, 0x59f111f1, 0x923f82a4
  , 0xab1c5ed5, 0xd807aa98, 0x12835b01, 0x243185be, 0x550c7dc3, 0x72be5d74, 0x80deb1fe
  , 0x9bdc06a7, 0xc19bf174, 0xe49b69c1, 0xefbe4786, 0x0fc19dc6, 0x240ca1cc, 0x2de92c6f
  , 0x4a7484aa, 0x5cb0a9dc, 0x76f988da, 0x983e5152, 0xa831c66d, 0xb00327c8, 0xbf597fc7
  , 0xc6e00bf3, 0xd5a79147, 0x06ca6351, 0x14292967, 0x27b70a85, 0x2e1b2138, 0x4d2c6dfc
  , 0x53380d13, 0x650a7354, 0x766a0abb, 0x81c2c92e, 0x92722c85, 0xa2bfe8a1, 0xa81a664b
  , 0xc24b8b70, 0xc76c51a3, 0xd192e819, 0xd6990624, 0xf40e3585, 0x106aa070, 0x19a4c116
  , 0x1e376c08, 0x2748774c, 0x34b0bcb5, 0x391c0cb3, 0x4ed8aa4a, 0x5b9cca4f, 0x682e6ff3
  , 0x748f82ee, 0x78a5636f, 0x84c87814, 0x8cc70208, 0x90befffa, 0xa4506ceb, 0xbef9a3f7
  , 0xc67178f2 ]

def beWords : Bytes → List UInt32
  | a :: b :: c :: d :: p => UInt32.ofNat (Bytes.beVal [a, b, c, d]) :: beWords p
  | _ => []

/-- The words `w[16..]` of the message schedule; `ws` is what is there so far, newest
first. -/
def extendWords : Nat → List UInt32 → List UInt32
  | 0, ws => ws
  | k + 1, ws =>
    let x := ws.getD 14 0
    let y := ws.getD 1 0
    let s0 := ror x 7 ^^^ ror x 18 ^^^ (x >>> 3)
    let s1 := ror y 17 ^^^ ror y 19 ^^^ (y >>> 10)
    extendWords k ((ws.getD 15 0 + s0 + ws.getD 6 0 + s1) :: ws)

/-- One of the 64 rounds; `kw` is `K[i]` and `w[i]`. -/
def sha256Round (s : Sha256) (kw : UInt32 × UInt32) : Sha256 :=
  let S1 := ror s.e 6 ^^^ ror s.e 11 ^^^ ror s.e 25
  let ch := (s.e &&& s.f) ^^^ (~~~s.e &&& s.g)
  let t1 := s.h + S1 + ch + kw.1 + kw.2
  let S0 := ror s.a 2 ^^^ ror s.a 13 ^^^ ror s.a 22
  let maj := (s.a &&& s.b) ^^^ (s.a &&& s.c) ^^^ (s.b &&& s.c)
  let t2 := S0 + maj
  { a := t1 + t2, b := s.a, c := s.b, d := s.c, e := s.d + t1, f := s.e, g := s.f, h := s.g }

def sha256Block (s : Sha256) (block : Bytes) : Sha256 :=
  let w := (extendWords 48 (beWords block).reverse).reverse
  let t := (sha256K.zip w).foldl sha256Round s
  { a := s.a + t.a, b := s.b + t.b, c := s.c + t.c, d := s.d + t.d
    e := s.e + t.e, f := s.f + t.f, g := s.g + t.g, h := s.h + t.h }

def sha256Blocks : Nat → Sha256 → Bytes → Sha256
  | 0, s, _ => s
  | k + 1, s, data => sha256Blocks k (sha256Block s (data.take 64)) (data.drop 64)

/-- The bytes `tail[0..t)` for the last `data` of a message of `len` bytes. -/
def sha256Tail (data : Bytes) (len : Nat) : Bytes :=
  let t := data.length + 1
  let pad := if t ≤ 56 then 56 - t else 120 - t
  data ++ 0x80 :: List.replicate pad 0 ++ Bytes.beBytes 8 (len * 8)

/-- `crypto_sha256`, the `while` loop of which takes `data.length / 64` turns. -/
def cryptoSha256 (data : Bytes) : Bytes :=
  let init : Sha256 :=
    { a := 0x6a09e667, b := 0xbb67ae85, c := 0x3c6ef372, d := 0xa54ff53a
      e := 0x510e527f, f := 0x9b05688c, g := 0x1f83d9ab, h := 0x5be0cd19 }
  let n := data.length / 64
  let tail := sha256Tail (data.drop (64 * n)) data.length
  let s := sha256Blocks (tail.length / 64) (sha256Blocks n init data) tail
  [s.a, s.b, s.c, s.d, s.e, s.f, s.g, s.h].flatMap (fun w => Bytes.beBytes 4 w.toNat)

def cryptoHmacSha256 (key msg : Bytes) : Bytes :=
  let k := if 64 < key.length then cryptoSha256 key else key
  let k := k ++ List.replicate (64 - k.length) 0
  let dig := cryptoSha256 (k.map (· ^^^ 0x36) ++ msg)
  cryptoSha256 (k.map (· ^^^ 0x5c) ++ dig)

end BeaverMQ
