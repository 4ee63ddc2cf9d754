import Stun.Digest.Blocks

/-!
# SHA-1

The 160-bit hash under the message integrity code. Words are read and written most significant
byte first. The sixteen words of a block are extended to eighty, one for each round.

## Main definitions

* `Sha1.State`, `Sha1.schedule`, `Sha1.round`, `Sha1.absorb`: the state, the words of the rounds,
  one round, and one block.
* `Sha1.digest`: the hash of a byte string.
-/

namespace Stun.Sha1

open Digest

/-- The five words that the rounds work on. -/
structure State where
  /-- The word that is turned and enters the sum. -/
  a : UInt32
  /-- The first word of the mixing function. -/
  b : UInt32
  /-- The second word of the mixing function. -/
  c : UInt32
  /-- The third word of the mixing function. -/
  d : UInt32
  /-- The word that the round uses up. -/
  e : UInt32
  deriving Repr, DecidableEq

/-- The state before the first block. -/
def State.initial : State := ⟨0x67452301, 0xEFCDAB89, 0x98BADCFE, 0x10325476, 0xC3D2E1F0⟩

/-- The words of two states added one by one. -/
def State.add (s t : State) : State := ⟨s.a + t.a, s.b + t.b, s.c + t.c, s.d + t.d, s.e + t.e⟩

/-- The words so far, newest first, with one more: four earlier words laid over each other and
turned by one. -/
def extend (newest : List UInt32) : List UInt32 :=
  let w index := newest.getD index 0
  rotateLeft (w 2 ^^^ w 7 ^^^ w 13 ^^^ w 15) 1 :: newest

/-- The eighty words of the rounds on a block of sixteen. -/
def schedule (block : List UInt32) : List UInt32 := (Nat.repeat extend 64 block.reverse).reverse

/-- The mixing function of a round. -/
def mix (index : Nat) (s : State) : UInt32 :=
  if index < 20 then (s.b &&& s.c) ||| (~~~ s.b &&& s.d)
  else if index < 40 then s.b ^^^ s.c ^^^ s.d
  else if index < 60 then (s.b &&& s.c) ||| (s.b &&& s.d) ||| (s.c &&& s.d)
  else s.b ^^^ s.c ^^^ s.d

/-- The constant of a round. -/
def constant (index : Nat) : UInt32 :=
  if index < 20 then 0x5A827999
  else if index < 40 then 0x6ED9EBA1
  else if index < 60 then 0x8F1BBCDC
  else 0xCA62C1D6

/-- One round with its word. -/
def round (s : State) (word : UInt32) (index : Nat) : State :=
  ⟨rotateLeft s.a 5 + mix index s + s.e + constant index + word, s.a, rotateLeft s.b 30, s.c, s.d⟩

/-- The state after one more block. -/
def absorb (s : State) (block : Bytes) : State :=
  let scheduled := schedule (words Bytes.toUInt32 block)
  s.add (scheduled.zipIdx.foldl (fun s (word, index) => round s word index) s)

/-- The bytes of a state. -/
def State.bytes (s : State) : Bytes := [s.a, s.b, s.c, s.d, s.e].flatMap Bytes.ofUInt32

/-- The hash of a byte string. -/
def digest (message : Bytes) : Vector UInt8 20 :=
  let size := message.length
  let padded := message ++ fill size ++ Bytes.ofNat 8 (8 * size)
  Bytes.fit 20 (absorbBlocks absorb (padded.length / blockSize) State.initial padded).bytes

/-- The first four bytes of the published hash of `abc`. -/
example : (digest (Bytes.ofString "abc")).toList.take 4 = [0xA9, 0x99, 0x3E, 0x36] := by
  decide +kernel

end Stun.Sha1
