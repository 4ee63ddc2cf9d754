import Stun.Address.Basic
import Stun.Address.Ipv6Text

/-!
# Transport addresses as text

An IPv4 address is written before its port with a colon between them. An address of any other
family is written as an IPv6 address, in square brackets before the colon and the port.

The host of an address is read from a text by trying IPv4 first. Only what stands before a zero
byte counts, and a text of 46 bytes or more is refused, which no address needs.

## Main definitions

* `TransportAddress.hostText`, `TransportAddress.text`: the text without and with the port.
* `TransportAddress.parse?`: the address of a host text and a port.
-/

namespace Stun.TransportAddress

/-- The text of an address without its port. -/
def hostText (a : TransportAddress) : Bytes :=
  if a.family = ipv4Family then Ipv4Text.print (a.bytes.toList.take 4) else Ipv6Text.print a.groups

/-- The text of an address with its port. -/
def text (a : TransportAddress) : Bytes :=
  let port := Ascii.colon :: Numeral.ofNat 10 a.port.toNat
  if a.family = ipv4Family then a.hostText ++ port
  else Ascii.openBracket :: a.hostText ++ Ascii.closeBracket :: port

/-- The size from which on a host text is refused. -/
def hostTextLimit : Nat := 46

/-- The address of a host text and a port. -/
def parse? (host : Bytes) (port : UInt16) : Option TransportAddress :=
  if hostTextLimit ≤ host.length then none
  else
    let host := host.takeWhile (· ≠ 0)
    match Ipv4Text.parse? host with
    | some octets => some (ofOctets (Bytes.fit 4 octets) port)
    | none =>
      (Ipv6Text.parse? host).map fun groups =>
        ⟨ipv6Family, port, Bytes.fit 16 (Bytes.ofUInt16List groups)⟩

end Stun.TransportAddress
