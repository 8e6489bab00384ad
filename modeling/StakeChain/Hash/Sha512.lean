import StakeChain.Bytes.Basic

/-!
# SHA-512

The SHA-512 digest, which Ed25519 uses to expand a secret seed and to derive
the nonce and the challenge of a signature.

The message is padded with a one bit, zeros, and its length in bits as a 128-bit big-endian
number, to a multiple of 128 bytes; each 128-byte block runs eighty rounds over eight 64-bit
words.

* `Sha512.compress`: one block into the eight working words;
* `Sha512.hash`: the 64-byte digest of a byte string.
-/

set_option autoImplicit false

namespace StakeChain.Sha512

/-- The round constants. -/
def k : List UInt64 := [
  0x428a2f98d728ae22, 0x7137449123ef65cd, 0xb5c0fbcfec4d3b2f, 0xe9b5dba58189dbbc,
  0x3956c25bf348b538, 0x59f111f1b605d019, 0x923f82a4af194f9b, 0xab1c5ed5da6d8118,
  0xd807aa98a3030242, 0x12835b0145706fbe, 0x243185be4ee4b28c, 0x550c7dc3d5ffb4e2,
  0x72be5d74f27b896f, 0x80deb1fe3b1696b1, 0x9bdc06a725c71235, 0xc19bf174cf692694,
  0xe49b69c19ef14ad2, 0xefbe4786384f25e3, 0x0fc19dc68b8cd5b5, 0x240ca1cc77ac9c65,
  0x2de92c6f592b0275, 0x4a7484aa6ea6e483, 0x5cb0a9dcbd41fbd4, 0x76f988da831153b5,
  0x983e5152ee66dfab, 0xa831c66d2db43210, 0xb00327c898fb213f, 0xbf597fc7beef0ee4,
  0xc6e00bf33da88fc2, 0xd5a79147930aa725, 0x06ca6351e003826f, 0x142929670a0e6e70,
  0x27b70a8546d22ffc, 0x2e1b21385c26c926, 0x4d2c6dfc5ac42aed, 0x53380d139d95b3df,
  0x650a73548baf63de, 0x766a0abb3c77b2a8, 0x81c2c92e47edaee6, 0x92722c851482353b,
  0xa2bfe8a14cf10364, 0xa81a664bbc423001, 0xc24b8b70d0f89791, 0xc76c51a30654be30,
  0xd192e819d6ef5218, 0xd69906245565a910, 0xf40e35855771202a, 0x106aa07032bbd1b8,
  0x19a4c116b8d2d0c8, 0x1e376c085141ab53, 0x2748774cdf8eeb99, 0x34b0bcb5e19b48a8,
  0x391c0cb3c5c95a63, 0x4ed8aa4ae3418acb, 0x5b9cca4f7763e373, 0x682e6ff3d6b2b8a3,
  0x748f82ee5defb2fc, 0x78a5636f43172f60, 0x84c87814a1f0ab72, 0x8cc702081a6439ec,
  0x90befffa23631e28, 0xa4506cebde82bde9, 0xbef9a3f7b2c67915, 0xc67178f2e372532b,
  0xca273eceea26619c, 0xd186b8c721c0c207, 0xeada7dd6cde0eb1e, 0xf57d4f7fee6ed178,
  0x06f067aa72176fba, 0x0a637dc5a2c898a6, 0x113f9804bef90dae, 0x1b710b35131c471b,
  0x28db77f523047d84, 0x32caab7b40c72493, 0x3c9ebe0a15c9bebc, 0x431d67c49c100d4c,
  0x4cc5d4becb3e42b6, 0x597f299cfc657e2a, 0x5fcb6fab3ad6faec, 0x6c44198c4a475817]

/-- The eight working words `a` to `h`. -/
structure State where
  a : UInt64
  b : UInt64
  c : UInt64
  d : UInt64
  e : UInt64
  f : UInt64
  g : UInt64
  h : UInt64

/-- The initial hash value. -/
def h0 : State :=
  ⟨0x6a09e667f3bcc908, 0xbb67ae8584caa73b, 0x3c6ef372fe94f82b, 0xa54ff53a5f1d36f1,
    0x510e527fade682d1, 0x9b05688c2b3e6c1f, 0x1f83d9abfb41bd6b, 0x5be0cd19137e2179⟩

/-- Rotation of a 64-bit word to the right by `n` places, `0 < n < 64`. -/
def rotr (x : UInt64) (n : UInt64) : UInt64 := (x >>> n) ||| (x <<< (64 - n))

def bigSigma0 (x : UInt64) : UInt64 := rotr x 28 ^^^ rotr x 34 ^^^ rotr x 39
def bigSigma1 (x : UInt64) : UInt64 := rotr x 14 ^^^ rotr x 18 ^^^ rotr x 41
def smallSigma0 (x : UInt64) : UInt64 := rotr x 1 ^^^ rotr x 8 ^^^ (x >>> 7)
def smallSigma1 (x : UInt64) : UInt64 := rotr x 19 ^^^ rotr x 61 ^^^ (x >>> 6)

/-- The big-endian words of the first `n` eight-byte groups. -/
def wordsBe : Nat → Bytes → List UInt64
  | 0, _ => []
  | n + 1, bs => (bs.take 8).foldl (fun (acc : UInt64) b => (acc <<< 8) ||| b.toUInt64) 0 ::
      wordsBe n (bs.drop 8)

/-- The next `n` schedule words after a window holding the last sixteen, oldest first. -/
def scheduleFrom : Nat → List UInt64 → List UInt64
  | 0, _ => []
  | n + 1, win =>
    let w := smallSigma1 (win.getD 14 0) + win.getD 9 0 + smallSigma0 (win.getD 1 0) + win.getD 0 0
    w :: scheduleFrom n (win.tail ++ [w])

/-- The eighty schedule words of a 128-byte block. -/
def schedule (block : Bytes) : List UInt64 :=
  let first := wordsBe 16 block
  first ++ scheduleFrom 64 first

/-- One round with its constant `kt` and schedule word `wt`. -/
def State.round (s : State) (kt wt : UInt64) : State :=
  let t1 := s.h + bigSigma1 s.e + ((s.e &&& s.f) ^^^ ((~~~s.e) &&& s.g)) + kt + wt
  let t2 := bigSigma0 s.a + ((s.a &&& s.b) ^^^ (s.a &&& s.c) ^^^ (s.b &&& s.c))
  ⟨t1 + t2, s.a, s.b, s.c, s.d + t1, s.e, s.f, s.g⟩

/-- One 128-byte block into the working words. -/
def compress (h : State) (block : Bytes) : State :=
  let s := (k.zip (schedule block)).foldl (fun s (kt, wt) => s.round kt wt) h
  ⟨h.a + s.a, h.b + s.b, h.c + s.c, h.d + s.d, h.e + s.e, h.f + s.f, h.g + s.g, h.h + s.h⟩

/-- The message with its padding: a one bit, zeros, and the bit length in 128 bits. -/
def pad (msg : Bytes) : Bytes :=
  let len := msg.length
  let zeros := (111 + 128 - len % 128) % 128
  msg ++ [0x80] ++ List.replicate zeros 0 ++ Bytes.be64 0 ++ Bytes.be64 (8 * len).toUInt64

/-- The 64-byte SHA-512 digest of a byte string. -/
def hash (msg : Bytes) : Bytes :=
  let data := pad msg
  let h := (List.range (data.length / 128)).foldl
    (fun h b => compress h ((data.drop (128 * b)).take 128)) h0
  [h.a, h.b, h.c, h.d, h.e, h.f, h.g, h.h].flatMap Bytes.be64

end StakeChain.Sha512
