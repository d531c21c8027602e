import Courier.Bytes

/-! # MD5

A hasher absorbs one byte at a time: bytes wait in a partial block, and a full block of 64 is mixed
into the chaining value. What has been absorbed so far fixes the digest, so bytes may arrive in any
pieces.
-/

namespace Courier

/-- Sixteen bytes. -/
abbrev Digest := Bytes

namespace Md5

structure Chaining where
  a : UInt32
  b : UInt32
  c : UInt32
  d : UInt32
  deriving DecidableEq, Repr

def Chaining.start : Chaining :=
  ⟨0x67452301, 0xefcdab89, 0x98badcfe, 0x10325476⟩

structure Step where
  rotation : UInt32
  constant : UInt32

def rotations : List (List UInt32) :=
  [[7, 12, 17, 22], [5, 9, 14, 20], [4, 11, 16, 23], [6, 10, 15, 21]]

def constants : List UInt32 :=
  [0xd76aa478, 0xe8c7b756, 0x242070db, 0xc1bdceee, 0xf57c0faf, 0x4787c62a, 0xa8304613, 0xfd469501,
   0x698098d8, 0x8b44f7af, 0xffff5bb1, 0x895cd7be, 0x6b901122, 0xfd987193, 0xa679438e, 0x49b40821,
   0xf61e2562, 0xc040b340, 0x265e5a51, 0xe9b6c7aa, 0xd62f105d, 0x02441453, 0xd8a1e681, 0xe7d3fbc8,
   0x21e1cde6, 0xc33707d6, 0xf4d50d87, 0x455a14ed, 0xa9e3e905, 0xfcefa3f8, 0x676f02d9, 0x8d2a4c8a,
   0xfffa3942, 0x8771f681, 0x6d9d6122, 0xfde5380c, 0xa4beea44, 0x4bdecfa9, 0xf6bb4b60, 0xbebfbc70,
   0x289b7ec6, 0xeaa127fa, 0xd4ef3085, 0x04881d05, 0xd9d4d039, 0xe6db99e5, 0x1fa27cf8, 0xc4ac5665,
   0xf4292244, 0x432aff97, 0xab9423a7, 0xfc93a039, 0x655b59c3, 0x8f0ccc92, 0xffeff47d, 0x85845dd1,
   0x6fa87e4f, 0xfe2ce6e0, 0xa3014314, 0x4e0811a1, 0xf7537e82, 0xbd3af235, 0x2ad7d2bb, 0xeb86d391]

/-- The steps in order, each with its number. -/
def schedule : List (Nat × Step) :=
  constants.zipIdx.map fun (k, i) =>
    (i, ⟨((rotations.getD (i / 16) []).getD (i % 4) 0), k⟩)

/-- Which word of the block a step reads. -/
def wordIndex (i : Nat) : Nat :=
  match i / 16 with
  | 0 => i
  | 1 => (5 * i + 1) % 16
  | 2 => (3 * i + 5) % 16
  | _ => (7 * i) % 16

def mix (i : Nat) (b c d : UInt32) : UInt32 :=
  match i / 16 with
  | 0 => (b &&& c) ||| (~~~b &&& d)
  | 1 => (d &&& b) ||| (~~~d &&& c)
  | 2 => b ^^^ c ^^^ d
  | _ => c ^^^ (b ||| ~~~d)

def rotateLeft (x n : UInt32) : UInt32 :=
  (x <<< n) ||| (x >>> (32 - n))

def Chaining.step (block : Array UInt32) (s : Chaining) : Nat × Step → Chaining
  | (i, t) =>
    let f := mix i s.b s.c s.d + s.a + t.constant + block.getD (wordIndex i) 0
    ⟨s.d, s.b + rotateLeft f t.rotation, s.b, s.c⟩

/-- The little-endian words of a block. -/
def words : Bytes → List UInt32
  | w :: x :: y :: z :: r =>
    (w.toUInt32 ||| x.toUInt32 <<< 8 ||| y.toUInt32 <<< 16 ||| z.toUInt32 <<< 24) :: words r
  | _ => []

def Chaining.compress (s : Chaining) (block : Bytes) : Chaining :=
  let t := schedule.foldl (step (words block).toArray) s
  ⟨s.a + t.a, s.b + t.b, s.c + t.c, s.d + t.d⟩

def wordBytes (w : UInt32) : Bytes :=
  [w.toUInt8, (w >>> 8).toUInt8, (w >>> 16).toUInt8, (w >>> 24).toUInt8]

def Chaining.digest (s : Chaining) : Digest :=
  wordBytes s.a ++ wordBytes s.b ++ wordBytes s.c ++ wordBytes s.d

/-- What has been absorbed: the blocks mixed in, the partial block in reverse, and the length. -/
structure Hasher where
  chaining : Chaining
  partialBlock : Bytes
  pending : Nat
  length : Nat
  deriving DecidableEq, Repr

def Hasher.start : Hasher :=
  ⟨.start, [], 0, 0⟩

def Hasher.absorb (h : Hasher) (x : UInt8) : Hasher :=
  if h.pending = 63 then
    ⟨h.chaining.compress (x :: h.partialBlock).reverse, [], 0, h.length + 1⟩
  else
    ⟨h.chaining, x :: h.partialBlock, h.pending + 1, h.length + 1⟩

def Hasher.update (h : Hasher) (data : Bytes) : Hasher :=
  data.foldl absorb h

@[simp]
theorem Hasher.update_nil (h : Hasher) : h.update [] = h := rfl

theorem Hasher.update_append (h : Hasher) (p q : Bytes) :
    h.update (p ++ q) = (h.update p).update q := by
  simp [update]

def lengthBytes (bits : Nat) : Bytes :=
  (List.range 8).map fun i => UInt8.ofNat (bits / Nat.pow 256 i)

/-- A one bit, zeros up to eight bytes before the end of a block, then the length in bits. -/
def padding (length : Nat) : Bytes :=
  0x80 :: List.replicate ((119 - length % 64) % 64) 0 ++ lengthBytes (length * 8)

def Hasher.finish (h : Hasher) : Digest :=
  (h.update (padding h.length)).chaining.digest

end Md5

def md5 (data : Bytes) : Digest :=
  (Md5.Hasher.start.update data).finish

theorem Md5.Chaining.length_digest (s : Chaining) : s.digest.length = 16 := rfl

theorem length_md5 (data : Bytes) : (md5 data).length = 16 := rfl

end Courier
