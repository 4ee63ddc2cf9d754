import Stun.Text.Numeral

/-!
# Hexadecimal text

A byte is written as two lower case digits. Reading takes digits of either case and lets white
space stand anywhere, also between the two digits of a byte.

## Main definitions

* `Hex.encode`: two digits for every byte.
* `Hex.isBlank`, `Hex.join?`, `Hex.parse?`: white space, the bytes whose halves are given, and the
  bytes that a text stands for.
-/

namespace Stun.Hex

/-- Two digits for every byte. -/
def encode (bytes : Bytes) : Bytes :=
  bytes.flatMap fun b => [Numeral.digit (b.toNat / 16), Numeral.digit (b.toNat % 16)]

/-- White space: the space, and the characters from tab to carriage return. -/
def isBlank (c : UInt8) : Bool := c = 0x20 || (0x09 ≤ c && c ≤ 0x0D)

/-- The bytes whose halves are given, higher half first. Fails on an odd number of halves. -/
def join? : List Nat → Option Bytes
  | [] => some []
  | [_] => none
  | high :: low :: rest => (join? rest).map (UInt8.ofNat (high * 16 + low) :: ·)

/-- The bytes that a text stands for, white space aside. Fails on a character that is neither a
digit nor white space, and on an odd number of digits. -/
def parse? (text : Bytes) : Option Bytes :=
  ((text.filter fun c => !isBlank c).mapM Numeral.digit?).bind join?

end Stun.Hex
