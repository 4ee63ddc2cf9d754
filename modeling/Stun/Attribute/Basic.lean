import Stun.Address.Basic
import Stun.Attribute.Kind
import Stun.ErrorCode

/-!
# Attributes

An attribute is a kind with its value. Two attributes are equal in the sense of `==` when they
agree up to the bytes of an address that do not count.

## Main definitions

* `Attribute`, `Attribute.kind`: attributes and their kinds.
* `Attribute.canonical`: the attribute with zeros for the bytes of its address that do not count.
-/

namespace Stun

/-- A kind with its value. -/
inductive Attribute where
  /-- The address that a request was seen to come from. -/
  | mappedAddress (address : TransportAddress)
  /-- The same address, laid over with the cookie and the id when it is written. -/
  | xorMappedAddress (address : TransportAddress)
  /-- The address of another server to turn to. -/
  | alternateServer (address : TransportAddress)
  /-- The name that the message is authenticated with. -/
  | username (text : Bytes)
  /-- The realm of the name and the password. -/
  | realm (text : Bytes)
  /-- The nonce of the server. -/
  | nonce (text : Bytes)
  /-- The name of the software that wrote the message. -/
  | software (text : Bytes)
  /-- The code that authenticates the message. While writing, an empty one stands for the code to
  be computed. -/
  | messageIntegrity (hmac : Bytes)
  /-- The checksum of the message. While writing, zero stands for the checksum to be computed. -/
  | fingerprint (checksum : UInt32)
  /-- What an error response says. -/
  | errorCode (error : ErrorCode)
  /-- The types that a request holds and its reader does not understand. -/
  | unknownAttributes (types : List UInt16)
  /-- The priority of a candidate. -/
  | priority (value : UInt32)
  /-- The mark of the candidate in use. -/
  | useCandidate
  /-- The tie breaker of the side that is controlled. -/
  | iceControlled (tieBreaker : UInt64)
  /-- The tie breaker of the side that controls. -/
  | iceControlling (tieBreaker : UInt64)
  deriving Repr, DecidableEq

namespace Attribute

/-- The kind of an attribute. -/
def kind : Attribute → AttributeKind
  | mappedAddress _ => .mappedAddress
  | xorMappedAddress _ => .xorMappedAddress
  | alternateServer _ => .alternateServer
  | username _ => .username
  | realm _ => .realm
  | nonce _ => .nonce
  | software _ => .software
  | messageIntegrity _ => .messageIntegrity
  | fingerprint _ => .fingerprint
  | errorCode _ => .errorCode
  | unknownAttributes _ => .unknownAttributes
  | priority _ => .priority
  | useCandidate => .useCandidate
  | iceControlled _ => .iceControlled
  | iceControlling _ => .iceControlling

/-- The attribute with zeros for the bytes of its address that do not count. -/
def canonical : Attribute → Attribute
  | mappedAddress address => mappedAddress address.canonical
  | xorMappedAddress address => xorMappedAddress address.canonical
  | alternateServer address => alternateServer address.canonical
  | other => other

/-- Attributes are compared up to the bytes of an address that do not count. -/
instance : BEq Attribute where
  beq a b := a.canonical = b.canonical

theorem beq_iff {a b : Attribute} : (a == b) = true ↔ a.canonical = b.canonical :=
  decide_eq_true_iff

@[simp] theorem kind_canonical (a : Attribute) : a.canonical.kind = a.kind := by
  cases a <;> simp only [canonical, kind]

@[simp] theorem canonical_canonical (a : Attribute) : a.canonical.canonical = a.canonical := by
  cases a <;> simp [canonical]

end Attribute

end Stun
