import Stun.Digest.Blocks

/-!
# MD5

The 128-bit hash that turns the long-term credentials into a key. Words are read and written least
significant byte first. A block is absorbed in 64 rounds, four groups of sixteen, each with a
mixing function and an order of its own over the sixteen words of the block.

## Main definitions

* `Md5.State`, `Md5.round`, `Md5.absorb`: the state, one round, and one block.
* `Md5.digest`: the hash of a byte string.
-/

namespace Stun.Md5

open Digest

/-- The four words that the rounds work on. -/
structure State where
  /-- The word that the round replaces. -/
  a : UInt32
  /-- The word that the new value is added to. -/
  b : UInt32
  /-- The second word of the mixing function. -/
  c : UInt32
  /-- The third word of the mixing function. -/
  d : UInt32
  deriving Repr, DecidableEq

/-- The state before the first block. -/
def State.initial : State := ⟨0x67452301, 0xEFCDAB89, 0x98BADCFE, 0x10325476⟩

/-- The words of two states added one by one. -/
def State.add (s t : State) : State := ⟨s.a + t.a, s.b + t.b, s.c + t.c, s.d + t.d⟩

/-- The constants of the rounds. -/
def constants : List UInt32 :=
  [0xd76aa478, 0xe8c7b756, 0x242070db, 0xc1bdceee, 0xf57c0faf, 0x4787c62a, 0xa8304613, 0xfd469501,
   0x698098d8, 0x8b44f7af, 0xffff5bb1, 0x895cd7be, 0x6b901122, 0xfd987193, 0xa679438e, 0x49b40821,
   0xf61e2562, 0xc040b340, 0x265e5a51, 0xe9b6c7aa, 0xd62f105d, 0x02441453, 0xd8a1e681, 0xe7d3fbc8,
   0x21e1cde6, 0xc33707d6, 0xf4d50d87, 0x455a14ed, 0xa9e3e905, 0xfcefa3f8, 0x676f02d9, 0x8d2a4c8a,
   0xfffa3942, 0x8771f681, 0x6d9d6122, 0xfde5380c, 0xa4beea44, 0x4bdecfa9, 0xf6bb4b60, 0xbebfbc70,
   0x289b7ec6, 0xeaa127fa, 0xd4ef3085, 0x04881d05, 0xd9d4d039, 0xe6db99e5, 0x1fa27cf8, 0xc4ac5665,
   0xf4292244, 0x432aff97, 0xab9423a7, 0xfc93a039, 0x655b59c3, 0x8f0ccc92, 0xffeff47d, 0x85845dd1,
   0x6fa87e4f, 0xfe2ce6e0, 0xa3014314, 0x4e0811a1, 0xf7537e82, 0xbd3af235, 0x2ad7d2bb, 0xeb86d391]

/-- By how much each round turns its word, four counts in turn for each group of sixteen. -/
def rotation (index : Nat) : UInt32 :=
  let counts : List UInt32 :=
    if index < 16 then [7, 12, 17, 22]
    else if index < 32 then [5, 9, 14, 20]
    else if index < 48 then [4, 11, 16, 23]
    else [6, 10, 15, 21]
  counts.getD (index % 4) 0

/-- The mixing function of a round. -/
def mix (index : Nat) (s : State) : UInt32 :=
  if index < 16 then (s.b &&& s.c) ||| (~~~ s.b &&& s.d)
  else if index < 32 then (s.d &&& s.b) ||| (~~~ s.d &&& s.c)
  else if index < 48 then s.b ^^^ s.c ^^^ s.d
  else s.c ^^^ (s.b ||| ~~~ s.d)

/-- Which word of the block a round takes. -/
def wordIndex (index : Nat) : Nat :=
  if index < 16 then index
  else if index < 32 then (5 * index + 1) % 16
  else if index < 48 then (3 * index + 5) % 16
  else 7 * index % 16

/-- One round on the words of a block. -/
def round (block : List UInt32) (s : State) (constant : UInt32) (index : Nat) : State :=
  let sum := s.a + mix index s + constant + block.getD (wordIndex index) 0
  ⟨s.d, s.b + rotateLeft sum (rotation index), s.b, s.c⟩

/-- The number that four bytes stand for, least significant byte first. -/
def word (bytes : Bytes) : UInt32 := Bytes.toUInt32 bytes.reverse

/-- The state after one more block. -/
def absorb (s : State) (block : Bytes) : State :=
  let block := words word block
  s.add (constants.zipIdx.foldl (fun s (constant, index) => round block s constant index) s)

/-- The bytes of a state, least significant byte of each word first. -/
def State.bytes (s : State) : Bytes :=
  [s.a, s.b, s.c, s.d].flatMap fun w => (Bytes.ofUInt32 w).reverse

/-- The hash of a byte string. -/
def digest (message : Bytes) : Vector UInt8 16 :=
  let size := message.length
  let padded := message ++ fill size ++ (Bytes.ofNat 8 (8 * size)).reverse
  Bytes.fit 16 (absorbBlocks absorb (padded.length / blockSize) State.initial padded).bytes

/-- The first four bytes of the published hash of `abc`. -/
example : (digest (Bytes.ofString "abc")).toList.take 4 = [0x90, 0x01, 0x50, 0x98] := by
  decide +kernel

end Stun.Md5
