import Stun.Text.Ascii
import Stun.Text.Numeral

/-!
# IPv4 addresses as text

An IPv4 address is written as four numbers up to 255 in base ten with dots between them. A number
has no leading zeros, so that every address has one text.

## Main definitions

* `Ipv4Text.print`: the text of four bytes.
* `Ipv4Text.octet?`, `Ipv4Text.parse?`: the number in a field, and the four bytes of a text.
-/

namespace Stun.Ipv4Text

/-- The numbers of an address with dots between them. -/
def print (octets : Bytes) : Bytes :=
  [Ascii.dot].intercalate (octets.map fun b => Numeral.ofNat 10 b.toNat)

/-- The number in a field: at least one digit, no leading zeros, at most 255. -/
def octet? (field : Bytes) : Option UInt8 :=
  if field = [] ∨ (1 < field.length ∧ field.head? = some Ascii.zero) then none
  else (Numeral.toNat? 10 field).bind fun n => if n ≤ 255 then some (UInt8.ofNat n) else none

/-- The four bytes that a text stands for. -/
def parse? (text : Bytes) : Option Bytes :=
  let fields := text.splitOn Ascii.dot
  if fields.length = 4 then fields.mapM octet? else none

end Stun.Ipv4Text
