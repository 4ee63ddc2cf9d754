import Stun.Bytes.Basic

/-!
# Transport addresses

A transport address is a family, a port and sixteen bytes, of which IPv4 uses the first four. The
family is held as it is written in packets, so that a value that is no family can be held too; all
families but IPv4 use the sixteen bytes. The bytes that a family does not use do not count when
addresses are compared.

## Main definitions

* `TransportAddress`, `TransportAddress.size`, `TransportAddress.octets`: addresses, and the bytes
  that count.
* `TransportAddress.canonical`: the address with zeros for the bytes that do not count; two
  addresses are equal in the sense of `==` when these agree.
* `TransportAddress.ofOctets`, `TransportAddress.ofGroups`, `TransportAddress.groups`: addresses
  from their numbers, and the sixteen bytes as eight groups.
* `Ipv4Endpoint`, `Ipv6Endpoint`: addresses of one family.

## Main results

* `TransportAddress.canonical_canonical`: clearing the unused bytes twice does nothing more.
-/

namespace Stun

/-- The number of IPv4 in packets. -/
def ipv4Family : UInt8 := 1

/-- The number of IPv6 in packets. -/
def ipv6Family : UInt8 := 2

/-- An address and a port. -/
structure TransportAddress where
  /-- The number of the family. -/
  family : UInt8
  /-- The port. -/
  port : UInt16
  /-- The bytes of the address, IPv4 in the first four. -/
  bytes : Vector UInt8 16
  deriving Repr, DecidableEq

namespace TransportAddress

/-- The number of bytes that count. -/
def size (a : TransportAddress) : Nat := if a.family = ipv4Family then 4 else 16

/-- The bytes that count. -/
def octets (a : TransportAddress) : Bytes := a.bytes.toList.take a.size

theorem size_le (a : TransportAddress) : a.size ≤ 16 := by
  unfold size
  split <;> decide

@[simp] theorem length_octets (a : TransportAddress) : a.octets.length = a.size := by
  have := a.size_le
  simp only [octets, List.length_take, Vector.length_toList]
  omega

/-- The address with zeros in place of the bytes that do not count. -/
def canonical (a : TransportAddress) : TransportAddress := { a with bytes := Bytes.fit 16 a.octets }

@[simp] theorem family_canonical (a : TransportAddress) : a.canonical.family = a.family := by
  rw [canonical]

@[simp] theorem port_canonical (a : TransportAddress) : a.canonical.port = a.port := by
  rw [canonical]

@[simp] theorem size_canonical (a : TransportAddress) : a.canonical.size = a.size := by
  rw [size, family_canonical, size]

/-- Addresses are compared by family, port and the bytes that count. -/
instance : BEq TransportAddress where
  beq a b := a.canonical = b.canonical

theorem beq_iff {a b : TransportAddress} : (a == b) = true ↔ a.canonical = b.canonical :=
  decide_eq_true_iff

@[simp] theorem octets_canonical (a : TransportAddress) : a.canonical.octets = a.octets := by
  have hle := a.size_le
  apply List.ext_getElem
  · simp
  · intro i hi hi'
    have hlen : i < a.size := by simpa using hi'
    simp [octets, canonical, Bytes.fit, hlen, show i < 16 by omega]

@[simp] theorem canonical_canonical (a : TransportAddress) :
    a.canonical.canonical = a.canonical := by
  rw [canonical, octets_canonical, family_canonical, port_canonical, canonical]

/-! ### Addresses from numbers -/

/-- The IPv4 address of four numbers. -/
def ofOctets (octets : Vector UInt8 4) (port : UInt16) : TransportAddress :=
  ⟨ipv4Family, port, Bytes.fit 16 octets.toList⟩

/-- The IPv6 address of eight groups. -/
def ofGroups (groups : Vector UInt16 8) (port : UInt16) : TransportAddress :=
  ⟨ipv6Family, port, Bytes.fit 16 (Bytes.ofUInt16List groups.toList)⟩

/-- The sixteen bytes as eight groups. -/
def groups (a : TransportAddress) : List UInt16 := Bytes.toUInt16List a.bytes.toList

end TransportAddress

/-! ### Addresses of one family -/

/-- An IPv4 address and a port. -/
structure Ipv4Endpoint where
  /-- The port. -/
  port : UInt16
  /-- The four bytes of the address. -/
  bytes : Vector UInt8 4
  deriving Repr, DecidableEq

/-- An IPv6 address and a port. -/
structure Ipv6Endpoint where
  /-- The port. -/
  port : UInt16
  /-- The sixteen bytes of the address. -/
  bytes : Vector UInt8 16
  deriving Repr, DecidableEq

namespace TransportAddress

/-- The first four bytes as an IPv4 address, whatever the family. -/
def ipv4 (a : TransportAddress) : Ipv4Endpoint := ⟨a.port, Bytes.fit 4 a.bytes.toList⟩

/-- All sixteen bytes as an IPv6 address, whatever the family. -/
def ipv6 (a : TransportAddress) : Ipv6Endpoint := ⟨a.port, a.bytes⟩

/-- An IPv4 address among the others. -/
def ofIpv4 (e : Ipv4Endpoint) : TransportAddress := ofOctets e.bytes e.port

/-- An IPv6 address among the others. -/
def ofIpv6 (e : Ipv6Endpoint) : TransportAddress := ⟨ipv6Family, e.port, e.bytes⟩

end TransportAddress

end Stun
