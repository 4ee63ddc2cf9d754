import Stun.Bytes.Basic

/-!
# Hashing in blocks of 64 bytes

The hash functions here fill a message up to a multiple of 64 bytes, with the message length in
bits at the end, and then let a state absorb one block after the other. They differ in the order
of the bytes of a word and in what absorbing a block does.

## Main definitions

* `Digest.blockSize`, `Digest.fill`: the block size and the bytes between message and length.
* `Digest.absorbBlocks`: a state after a number of blocks.
* `Digest.words`: the 32-bit words of a block, under a given order of bytes.
-/

namespace Stun.Digest

/-- The number of bytes in a block. -/
def blockSize : Nat := 64

/-- The bytes that follow a message of `size` bytes, the eight bytes of its length aside: a single
bit, and zeros up to the place of the length at the end of a block. -/
def fill (size : Nat) : Bytes := 0x80 :: List.replicate ((119 - size % 64) % 64) 0

/-- The state after the first `count` blocks of a message. -/
def absorbBlocks {State : Type} (absorb : State → Bytes → State) :
    Nat → State → Bytes → State
  | 0, state, _ => state
  | count + 1, state, message =>
    absorbBlocks absorb count (absorb state (message.take blockSize)) (message.drop blockSize)

/-- The 32-bit words of a byte string, each read from four bytes by `word`. -/
def words (word : Bytes → UInt32) : Bytes → List UInt32
  | b0 :: b1 :: b2 :: b3 :: rest => word [b0, b1, b2, b3] :: words word rest
  | _ => []

/-- A word turned left, with the bits that leave on the left coming back on the right. -/
def rotateLeft (word : UInt32) (count : UInt32) : UInt32 :=
  (word <<< count) ||| (word >>> (32 - count))

end Stun.Digest
