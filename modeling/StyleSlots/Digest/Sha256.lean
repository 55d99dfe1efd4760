import StyleSlots.Text.Basic

/-! # SHA-256

    - **Message**: the UTF-8 bytes of a text, padded to whole blocks of
      sixty-four bytes: a set bit, zeros, and the length in bits.
    - **Compression**: sixty-four rounds per block over eight words of
      thirty-two bits.
    - **Digest**: the eight words side by side. Its width of 256 bits is
      part of its type. -/

namespace StyleSlots

namespace Sha256

/-- A word of thirty-two bits; its arithmetic wraps. -/
abbrev Word : Type := UInt32

/-- The chaining value between blocks, and the working value of a round. -/
structure State where
  a : Word
  b : Word
  c : Word
  d : Word
  e : Word
  f : Word
  g : Word
  h : Word
  deriving DecidableEq, Repr

/-! ## Constants -/

/-- The fractional parts of the square roots of the first eight primes. -/
def initial : State where
  a := 0x6a09e667
  b := 0xbb67ae85
  c := 0x3c6ef372
  d := 0xa54ff53a
  e := 0x510e527f
  f := 0x9b05688c
  g := 0x1f83d9ab
  h := 0x5be0cd19

/-- The fractional parts of the cube roots of the first sixty-four primes,
    one for each round. -/
def roundConstants : List Word :=
  [0x428a2f98, 0x71374491, 0xb5c0fbcf, 0xe9b5dba5, 0x3956c25b, 0x59f111f1, 0x923f82a4, 0xab1c5ed5,
   0xd807aa98, 0x12835b01, 0x243185be, 0x550c7dc3, 0x72be5d74, 0x80deb1fe, 0x9bdc06a7, 0xc19bf174,
   0xe49b69c1, 0xefbe4786, 0x0fc19dc6, 0x240ca1cc, 0x2de92c6f, 0x4a7484aa, 0x5cb0a9dc, 0x76f988da,
   0x983e5152, 0xa831c66d, 0xb00327c8, 0xbf597fc7, 0xc6e00bf3, 0xd5a79147, 0x06ca6351, 0x14292967,
   0x27b70a85, 0x2e1b2138, 0x4d2c6dfc, 0x53380d13, 0x650a7354, 0x766a0abb, 0x81c2c92e, 0x92722c85,
   0xa2bfe8a1, 0xa81a664b, 0xc24b8b70, 0xc76c51a3, 0xd192e819, 0xd6990624, 0xf40e3585, 0x106aa070,
   0x19a4c116, 0x1e376c08, 0x2748774c, 0x34b0bcb5, 0x391c0cb3, 0x4ed8aa4a, 0x5b9cca4f, 0x682e6ff3,
   0x748f82ee, 0x78a5636f, 0x84c87814, 0x8cc70208, 0x90befffa, 0xa4506ceb, 0xbef9a3f7, 0xc67178f2]

/-! ## Message -/

/-- The UTF-8 bytes of a text. -/
def bytes (t : Text) : List UInt8 := t.flatMap String.utf8EncodeChar

/-- The big-endian bytes of `n`, `width` of them. -/
def bigEndian (width n : Nat) : List UInt8 :=
  (List.range width).map fun i => UInt8.ofNat (n / Nat.pow 256 (width - 1 - i))

/-- The number of zero bytes that fill the last block. -/
def fill (length : Nat) : Nat := (119 - length % 64) % 64

/-- The message with its padding, a whole number of blocks. -/
def padded (message : List UInt8) : List UInt8 :=
  message ++ 0x80 :: List.replicate (fill message.length) 0 ++ bigEndian 8 (8 * message.length)

/-- The first `count` pieces of `size` elements. -/
def pieces {α : Type} (size : Nat) : Nat → List α → List (List α)
  | 0, _ => []
  | count + 1, xs => xs.take size :: pieces size count (xs.drop size)

/-- The word that four bytes make, most significant first. -/
def word (bs : List UInt8) : Word := bs.foldl (fun acc b => acc <<< 8 ||| b.toUInt32) 0

/-- The blocks of a message, each as its sixteen words. -/
def blocks (message : List UInt8) : List (List Word) :=
  let all := padded message
  (pieces 64 (all.length / 64) all).map fun block => (pieces 4 16 block).map word

/-! ## Compression -/

/-- The word turned right by `n` bits. -/
def rotateRight (x : Word) (n : Word) : Word := x >>> n ||| x <<< (32 - n)

/-- Extends a schedule, held last word first, by `count` words. -/
def extend : Nat → List Word → List Word
  | 0, ws => ws
  | count + 1, ws =>
    let x := ws.getD 14 0
    let y := ws.getD 1 0
    let s0 := rotateRight x 7 ^^^ rotateRight x 18 ^^^ x >>> 3
    let s1 := rotateRight y 17 ^^^ rotateRight y 19 ^^^ y >>> 10
    extend count ((ws.getD 15 0 + s0 + ws.getD 6 0 + s1) :: ws)

/-- The sixty-four words that a block feeds into the rounds. -/
def schedule (block : List Word) : List Word := (extend 48 block.reverse).reverse

/-- One round, with its constant and its word of the schedule. -/
def round (s : State) (input : Word × Word) : State :=
  let s1 := rotateRight s.e 6 ^^^ rotateRight s.e 11 ^^^ rotateRight s.e 25
  let choice := (s.e &&& s.f) ^^^ (~~~ s.e &&& s.g)
  let t1 := s.h + s1 + choice + input.1 + input.2
  let s0 := rotateRight s.a 2 ^^^ rotateRight s.a 13 ^^^ rotateRight s.a 22
  let majority := (s.a &&& s.b) ^^^ (s.a &&& s.c) ^^^ (s.b &&& s.c)
  { a := t1 + (s0 + majority), b := s.a, c := s.b, d := s.c,
    e := s.d + t1, f := s.e, g := s.f, h := s.g }

/-- The chaining value behind a block. -/
def compress (s : State) (block : List Word) : State :=
  let r := (roundConstants.zip (schedule block)).foldl round s
  { a := s.a + r.a, b := s.b + r.b, c := s.c + r.c, d := s.d + r.d,
    e := s.e + r.e, f := s.f + r.f, g := s.g + r.g, h := s.h + r.h }

/-! ## Digest -/

/-- The words of a state side by side. -/
def State.toBits (s : State) : BitVec 256 :=
  s.a.toBitVec ++ s.b.toBitVec ++ s.c.toBitVec ++ s.d.toBitVec ++
    s.e.toBitVec ++ s.f.toBitVec ++ s.g.toBitVec ++ s.h.toBitVec

/-- The digest of a text. -/
def digest (t : Text) : BitVec 256 := ((blocks (bytes t)).foldl compress initial).toBits

end Sha256

end StyleSlots
