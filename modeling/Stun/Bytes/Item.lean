import Stun.Bytes.Basic

/-!
# Writing behind a byte string

A packet grows at its end by numbers of four widths, byte strings and padding. `Item` lists these
pieces, `Item.toBytes` says how each looks in a packet, and writing an item is appending its bytes,
so what was there before is never touched. A number that was already written is overwritten in
place by `Item.patch`.

## Main definitions

* `Item`, `Item.toBytes`, `Item.write`, `Item.patch`.
-/

namespace Stun

/-- A piece of a packet. -/
inductive Item where
  /-- One byte. -/
  | u8 (value : UInt8)
  /-- A number in two bytes. -/
  | u16 (value : UInt16)
  /-- A number in four bytes. -/
  | u32 (value : UInt32)
  /-- A number in eight bytes. -/
  | u64 (value : UInt64)
  /-- Bytes as they are. -/
  | bytes (value : Bytes)
  /-- The same byte `count` times. -/
  | padding (count : Nat) (value : UInt8)
  deriving Repr, DecidableEq

namespace Item

/-- The bytes of an item, numbers most significant byte first. -/
def toBytes : Item → Bytes
  | u8 value => [value]
  | u16 value => Bytes.ofUInt16 value
  | u32 value => Bytes.ofUInt32 value
  | u64 value => Bytes.ofUInt64 value
  | bytes value => value
  | padding count value => List.replicate count value

/-- A packet with an item written at its end. -/
def write (packet : Bytes) (item : Item) : Bytes := packet ++ item.toBytes

/-- A packet with an item written over what stands at `offset`. -/
def patch (packet : Bytes) (offset : Nat) (item : Item) : Bytes :=
  packet.patch offset item.toBytes

end Item

end Stun
