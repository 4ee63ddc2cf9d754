import Stun.Bytes.Basic

/-!
# The kinds of attributes

The type field of an attribute says what its value is. Types below `0x8000` must be understood by
whoever reads the message; the others may be passed over.

## Main definitions

* `AttributeKind`, `AttributeKind.all`: the kinds that are understood.
* `AttributeKind.code`, `AttributeKind.ofCode?`: the type field of a kind, and back.
* `mustBeUnderstood`: whether a type must be understood.

## Main results

* `AttributeKind.ofCode?_code`, `AttributeKind.code_of_ofCode?`: the two directions agree.
* `AttributeKind.code_inj`: kinds with the same type field are the same.
-/

namespace Stun

/-- The kinds of attributes that are understood. -/
inductive AttributeKind where
  /-- The address that a request was seen to come from. -/
  | mappedAddress
  /-- The name that the message is authenticated with. -/
  | username
  /-- The code that authenticates the message. -/
  | messageIntegrity
  /-- What an error response says. -/
  | errorCode
  /-- The types that a request holds and its reader does not understand. -/
  | unknownAttributes
  /-- The realm of the name and the password. -/
  | realm
  /-- The nonce of the server. -/
  | nonce
  /-- The address that a request was seen to come from, laid over with the cookie and the id. -/
  | xorMappedAddress
  /-- The priority of a candidate. -/
  | priority
  /-- The mark of the candidate in use. -/
  | useCandidate
  /-- The tie breaker of the side that is controlled. -/
  | iceControlled
  /-- The tie breaker of the side that controls. -/
  | iceControlling
  /-- The name of the software that wrote the message. -/
  | software
  /-- The address of another server to turn to. -/
  | alternateServer
  /-- The checksum of the message. -/
  | fingerprint
  deriving Repr, DecidableEq

namespace AttributeKind

/-- The kinds. -/
def all : List AttributeKind :=
  [mappedAddress, username, messageIntegrity, errorCode, unknownAttributes, realm, nonce,
    xorMappedAddress, priority, useCandidate, iceControlled, iceControlling, software,
    alternateServer, fingerprint]

/-- The type field of a kind. -/
def code : AttributeKind → UInt16
  | mappedAddress => 0x0001
  | username => 0x0006
  | messageIntegrity => 0x0008
  | errorCode => 0x0009
  | unknownAttributes => 0x000A
  | realm => 0x0014
  | nonce => 0x0015
  | xorMappedAddress => 0x0020
  | priority => 0x0024
  | useCandidate => 0x0025
  | iceControlled => 0x8029
  | iceControlling => 0x802A
  | software => 0x8022
  | alternateServer => 0x8023
  | fingerprint => 0x8028

/-- The kind of a type field. -/
def ofCode? (code : UInt16) : Option AttributeKind := all.find? (·.code = code)

/-- The name of a kind in texts. -/
def name : AttributeKind → String
  | mappedAddress => "mapped_address"
  | username => "username"
  | messageIntegrity => "message_integrity"
  | errorCode => "error_code"
  | unknownAttributes => "unknown_attributes"
  | realm => "realm"
  | nonce => "nonce"
  | xorMappedAddress => "xor_mapped_address"
  | priority => "priority"
  | useCandidate => "use_candidate"
  | iceControlled => "ice_controlled"
  | iceControlling => "ice_controlling"
  | software => "software"
  | alternateServer => "alternate_server"
  | fingerprint => "fingerprint"

/-- The kind of a name. -/
def ofName? (text : String) : Option AttributeKind := all.find? (·.name == text)

@[simp] theorem ofCode?_code (kind : AttributeKind) : ofCode? kind.code = some kind := by
  cases kind <;> decide

theorem code_of_ofCode? {code : UInt16} {kind : AttributeKind} (h : ofCode? code = some kind) :
    kind.code = code := by
  simpa using List.find?_some h

theorem code_inj {first second : AttributeKind} : first.code = second.code ↔ first = second := by
  refine ⟨fun h => ?_, congrArg code⟩
  have hfound := ofCode?_code first
  rw [h, ofCode?_code] at hfound
  exact (Option.some.inj hfound).symm

end AttributeKind

/-- Whether a type must be understood by whoever reads the message. -/
def mustBeUnderstood (type : UInt16) : Bool := type < 0x8000

end Stun
