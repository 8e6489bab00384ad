import StakeChain.Bytes.Basic

/-!
# BLAKE3

The 32-byte BLAKE3 digest, the hash of every identifier on the chain (addresses, transaction
and block hashes, evidence ids, Merkle nodes).

The input is cut into chunks of 1024 bytes and each chunk into blocks of 64 bytes.  A chunk's
blocks are chained through the compression function; chunk chaining values are then joined
in a binary tree whose left subtree always holds the largest power of two of chunks that
leaves at least one chunk on the right.  The last compression, of a lone chunk or of the top
parent node, carries the root flag and yields the digest.

* `Blake3.compress`: the compression function (seven rounds of the quarter-round `g`);
* `Blake3.hash`: the digest of a byte string.
-/

set_option autoImplicit false

namespace StakeChain.Blake3

/-- Eight 32-bit words: a chaining value, or the digest's words. -/
structure Words8 where
  w0 : UInt32
  w1 : UInt32
  w2 : UInt32
  w3 : UInt32
  w4 : UInt32
  w5 : UInt32
  w6 : UInt32
  w7 : UInt32

/-- Sixteen 32-bit words: the compression state, or a message block. -/
structure Words16 where
  w0 : UInt32
  w1 : UInt32
  w2 : UInt32
  w3 : UInt32
  w4 : UInt32
  w5 : UInt32
  w6 : UInt32
  w7 : UInt32
  w8 : UInt32
  w9 : UInt32
  w10 : UInt32
  w11 : UInt32
  w12 : UInt32
  w13 : UInt32
  w14 : UInt32
  w15 : UInt32

/-- The block of a parent node: the left child's chaining value, then the right one's. -/
def Words16.ofHalves (l r : Words8) : Words16 :=
  ⟨l.w0, l.w1, l.w2, l.w3, l.w4, l.w5, l.w6, l.w7, r.w0, r.w1, r.w2, r.w3, r.w4, r.w5, r.w6, r.w7⟩

/-- The 32 little-endian bytes of eight words. -/
def Words8.toBytes (w : Words8) : Bytes :=
  [w.w0, w.w1, w.w2, w.w3, w.w4, w.w5, w.w6, w.w7].flatMap Bytes.le32

/-- The initial chaining value (the SHA-256 initial words). -/
def iv : Words8 :=
  ⟨0x6A09E667, 0xBB67AE85, 0x3C6EF372, 0xA54FF53A, 0x510E527F, 0x9B05688C, 0x1F83D9AB,
    0x5BE0CD19⟩

/-- Domain flags of a compression. -/
def chunkStart : UInt32 := 1
def chunkEnd : UInt32 := 2
def parentFlag : UInt32 := 4
def rootFlag : UInt32 := 8

/-- Rotation of a 32-bit word to the right by `n` places, `0 < n < 32`. -/
def rotr (x : UInt32) (n : UInt32) : UInt32 := (x >>> n) ||| (x <<< (32 - n))

/-- The quarter-round: mixes two message words into the state words `a`, `b`, `c`, `d` and
returns their new values in that order. -/
def g (a b c d mx my : UInt32) : UInt32 × UInt32 × UInt32 × UInt32 :=
  let va := a + b + mx
  let vd := rotr (d ^^^ va) 16
  let vc := c + vd
  let vb := rotr (b ^^^ vc) 12
  let va := va + vb + my
  let vd := rotr (vd ^^^ va) 8
  let vc := vc + vd
  let vb := rotr (vb ^^^ vc) 7
  (va, vb, vc, vd)

/-- One round: the four columns, then the four diagonals. -/
def round (s m : Words16) : Words16 :=
  let (a0, a4, a8, a12) := g s.w0 s.w4 s.w8 s.w12 m.w0 m.w1
  let (a1, a5, a9, a13) := g s.w1 s.w5 s.w9 s.w13 m.w2 m.w3
  let (a2, a6, a10, a14) := g s.w2 s.w6 s.w10 s.w14 m.w4 m.w5
  let (a3, a7, a11, a15) := g s.w3 s.w7 s.w11 s.w15 m.w6 m.w7
  let (b0, b5, b10, b15) := g a0 a5 a10 a15 m.w8 m.w9
  let (b1, b6, b11, b12) := g a1 a6 a11 a12 m.w10 m.w11
  let (b2, b7, b8, b13) := g a2 a7 a8 a13 m.w12 m.w13
  let (b3, b4, b9, b14) := g a3 a4 a9 a14 m.w14 m.w15
  ⟨b0, b1, b2, b3, b4, b5, b6, b7, b8, b9, b10, b11, b12, b13, b14, b15⟩

/-- The message words in the order of the next round: word `i` of the result is word
`[2, 6, 3, 10, 7, 0, 4, 13, 1, 11, 12, 5, 9, 14, 15, 8][i]` of the block. -/
def permute (m : Words16) : Words16 :=
  ⟨m.w2, m.w6, m.w3, m.w10, m.w7, m.w0, m.w4, m.w13, m.w1, m.w11, m.w12, m.w5, m.w9, m.w14,
    m.w15, m.w8⟩

/-- Seven rounds with the message permuted between them. -/
def rounds : Nat → Words16 → Words16 → Words16
  | 0, s, _ => s
  | n + 1, s, m => rounds n (round s m) (permute m)

/-- The compression function, cut to the first eight words of its output: the next chaining
value, or the digest of a root compression. -/
def compress (cv : Words8) (block : Words16) (counter : UInt64) (blockLen : UInt32)
    (flags : UInt32) : Words8 :=
  let s := rounds 7 ⟨cv.w0, cv.w1, cv.w2, cv.w3, cv.w4, cv.w5, cv.w6, cv.w7, iv.w0, iv.w1,
    iv.w2, iv.w3, counter.toUInt32, (counter >>> 32).toUInt32, blockLen, flags⟩ block
  ⟨s.w0 ^^^ s.w8, s.w1 ^^^ s.w9, s.w2 ^^^ s.w10, s.w3 ^^^ s.w11, s.w4 ^^^ s.w12,
    s.w5 ^^^ s.w13, s.w6 ^^^ s.w14, s.w7 ^^^ s.w15⟩

/-- The little-endian word of the first four bytes, a missing byte read as zero. -/
def wordLe (bs : Bytes) : UInt32 :=
  let byte (j : Nat) : UInt32 := (bs.getD j 0).toUInt32
  byte 0 ||| (byte 1 <<< 8) ||| (byte 2 <<< 16) ||| (byte 3 <<< 24)

/-- The sixteen little-endian words of a block of at most 64 bytes, zero-padded. -/
def blockWords (bs : Bytes) : Words16 :=
  let w (i : Nat) : UInt32 := wordLe (bs.drop (4 * i))
  ⟨w 0, w 1, w 2, w 3, w 4, w 5, w 6, w 7, w 8, w 9, w 10, w 11, w 12, w 13, w 14, w 15⟩

/-- A compression whose flags may still gain the root flag. -/
structure Output where
  cv : Words8
  block : Words16
  counter : UInt64
  blockLen : UInt32
  flags : UInt32

/-- The chaining value an output contributes to its parent. -/
def Output.chainingValue (o : Output) : Words8 :=
  compress o.cv o.block o.counter o.blockLen o.flags

/-- The 32-byte digest of an output that is the root of the tree. -/
def Output.digest (o : Output) : Bytes :=
  (compress o.cv o.block o.counter o.blockLen (o.flags ||| rootFlag)).toBytes

/-- The output of chunk number `index`, whose bytes (at most 1024) are `bs`. -/
def chunkOutput (index : Nat) (bs : Bytes) : Output :=
  let len := bs.length
  let blocks := max 1 ((len + 63) / 64)
  let block (b : Nat) : Words16 := blockWords ((bs.drop (64 * b)).take 64)
  let cv := (List.range (blocks - 1)).foldl (fun cv b =>
      let flags := if b = 0 then chunkStart else 0
      compress cv (block b) index.toUInt64 64 flags)
    iv
  let last := blocks - 1
  let lastLen := len - 64 * last
  { cv := cv, block := block last, counter := index.toUInt64, blockLen := lastLen.toUInt32,
    flags := (if last = 0 then chunkStart else 0) ||| chunkEnd }

/-- The output of a parent node over two chaining values. -/
def parentOutput (left right : Words8) : Output :=
  { cv := iv, block := .ofHalves left right, counter := 0, blockLen := 64, flags := parentFlag }

/-- The number of chunks in the left subtree over `count` chunks: the largest power of two
below `count`. -/
def splitPoint (count : Nat) : Nat := Nat.pow 2 (Nat.log2 (count - 1))

theorem splitPoint_pos (count : Nat) : 0 < splitPoint count := Nat.two_pow_pos _

theorem splitPoint_lt {count : Nat} (h : ¬count ≤ 1) : splitPoint count < count := by
  have hle : splitPoint count ≤ count - 1 := Nat.log2_self_le (by omega)
  omega

/-- The output of the subtree over `count` chunks starting at chunk `first`, whose bytes are
`bs`. -/
def subtree (bs : Bytes) (first count : Nat) : Output :=
  if h : count ≤ 1 then
    chunkOutput first bs
  else
    parentOutput (subtree (bs.take (1024 * splitPoint count)) first (splitPoint count)).chainingValue
      (subtree (bs.drop (1024 * splitPoint count)) (first + splitPoint count)
        (count - splitPoint count)).chainingValue
termination_by count
decreasing_by
  · exact splitPoint_lt h
  · have := splitPoint_pos count
    omega

/-- The BLAKE3 digest of a byte string. -/
def hash (input : Bytes) : Bytes :=
  (subtree input 0 (max 1 ((input.length + 1023) / 1024))).digest

end StakeChain.Blake3
