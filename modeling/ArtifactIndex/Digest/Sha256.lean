import ArtifactIndex.Text.Utf8
/-!
The SHA-256 digest of bytes, written in lower-case hexadecimal. Bytes are taken one at a time; a
block is compressed as soon as it is full.
-/

set_option autoImplicit false

namespace ArtifactIndex.Sha256

open Text (Bytes)

/-! ### Words -/

/-- The chaining value and the working variables of a round. -/
structure Words where
  a : UInt32
  b : UInt32
  c : UInt32
  d : UInt32
  e : UInt32
  f : UInt32
  g : UInt32
  h : UInt32
  deriving DecidableEq

namespace Words

def start : Words :=
  ⟨0x6a09e667, 0xbb67ae85, 0x3c6ef372, 0xa54ff53a, 0x510e527f, 0x9b05688c, 0x1f83d9ab, 0x5be0cd19⟩

def add (x y : Words) : Words :=
  ⟨x.a + y.a, x.b + y.b, x.c + y.c, x.d + y.d, x.e + y.e, x.f + y.f, x.g + y.g, x.h + y.h⟩

def toList (x : Words) : List UInt32 :=
  [x.a, x.b, x.c, x.d, x.e, x.f, x.g, x.h]

end Words

def roundConstants : List UInt32 :=
  [0x428a2f98, 0x71374491, 0xb5c0fbcf, 0xe9b5dba5, 0x3956c25b, 0x59f111f1, 0x923f82a4, 0xab1c5ed5,
    0xd807aa98, 0x12835b01, 0x243185be, 0x550c7dc3, 0x72be5d74, 0x80deb1fe, 0x9bdc06a7, 0xc19bf174,
    0xe49b69c1, 0xefbe4786, 0x0fc19dc6, 0x240ca1cc, 0x2de92c6f, 0x4a7484aa, 0x5cb0a9dc, 0x76f988da,
    0x983e5152, 0xa831c66d, 0xb00327c8, 0xbf597fc7, 0xc6e00bf3, 0xd5a79147, 0x06ca6351, 0x14292967,
    0x27b70a85, 0x2e1b2138, 0x4d2c6dfc, 0x53380d13, 0x650a7354, 0x766a0abb, 0x81c2c92e, 0x92722c85,
    0xa2bfe8a1, 0xa81a664b, 0xc24b8b70, 0xc76c51a3, 0xd192e819, 0xd6990624, 0xf40e3585, 0x106aa070,
    0x19a4c116, 0x1e376c08, 0x2748774c, 0x34b0bcb5, 0x391c0cb3, 0x4ed8aa4a, 0x5b9cca4f, 0x682e6ff3,
    0x748f82ee, 0x78a5636f, 0x84c87814, 0x8cc70208, 0x90befffa, 0xa4506ceb, 0xbef9a3f7, 0xc67178f2]

def rotate (x : UInt32) (n : UInt32) : UInt32 :=
  (x >>> n) ||| (x <<< (32 - n))

/-! ### Compression -/

/-- The big-endian words of a block. -/
def wordsOf : Bytes → List UInt32
  | b0 :: b1 :: b2 :: b3 :: rest =>
    (b0.toUInt32 <<< 24 ||| b1.toUInt32 <<< 16 ||| b2.toUInt32 <<< 8 ||| b3.toUInt32) ::
      wordsOf rest
  | _ => []

/-- Adds `count` words to a schedule, each from four of the sixteen before it. -/
def extendSchedule (words : Array UInt32) : Nat → Array UInt32
  | 0 => words
  | count + 1 =>
    let back := fun n ↦ words.getD (words.size - n) 0
    let x := back 15
    let y := back 2
    let s0 := rotate x 7 ^^^ rotate x 18 ^^^ (x >>> 3)
    let s1 := rotate y 17 ^^^ rotate y 19 ^^^ (y >>> 10)
    extendSchedule (words.push (back 16 + s0 + back 7 + s1)) count

def round (x : Words) (k w : UInt32) : Words :=
  let s1 := rotate x.e 6 ^^^ rotate x.e 11 ^^^ rotate x.e 25
  let choice := (x.e &&& x.f) ^^^ (~~~x.e &&& x.g)
  let t1 := x.h + s1 + choice + k + w
  let s0 := rotate x.a 2 ^^^ rotate x.a 13 ^^^ rotate x.a 22
  let majority := (x.a &&& x.b) ^^^ (x.a &&& x.c) ^^^ (x.b &&& x.c)
  ⟨t1 + (s0 + majority), x.a, x.b, x.c, x.d + t1, x.e, x.f, x.g⟩

def compress (x : Words) (block : Bytes) : Words :=
  let schedule := (extendSchedule (wordsOf block).toArray 48).toList
  x.add ((roundConstants.zip schedule).foldl (fun y (k, w) ↦ round y k w) x)

/-! ### Messages -/

/-- The chaining value and the bytes of the block that is not full yet, in reverse. -/
structure State where
  words : Words
  count : Nat
  reversed : Bytes

def absorb (s : State) (b : UInt8) : State :=
  if s.count = 63 then ⟨compress s.words (b :: s.reversed).reverse, 0, []⟩
  else ⟨s.words, s.count + 1, b :: s.reversed⟩

def bigEndian (width n : Nat) : Bytes :=
  (List.range width).map fun i ↦ (n >>> (8 * (width - 1 - i))).toUInt8

/-- What follows a message of `length` bytes: a one bit, zeros, and the length in bits. -/
def padding (length : Nat) : Bytes :=
  0x80 :: List.replicate ((119 - length % 64) % 64) 0 ++ bigEndian 8 (8 * length)

def digest (message : Bytes) : Bytes :=
  let start : State := ⟨.start, 0, []⟩
  let absorbed := message.foldl absorb start
  let final := (padding message.length).foldl absorb absorbed
  final.words.toList.flatMap fun w ↦ bigEndian 4 w.toNat

def hexDigit (n : Nat) : Char :=
  if n < 10 then Char.ofNat (48 + n) else Char.ofNat (87 + n)

def hex (bytes : Bytes) : String :=
  String.ofList (bytes.flatMap fun b ↦ [hexDigit (b.toNat / 16), hexDigit (b.toNat % 16)])

def hexDigest (message : Bytes) : String :=
  hex (digest message)

end ArtifactIndex.Sha256
