import Stun.Fingerprint
import Stun.Integrity
import Stun.Message.Basic

/-!
# Writing a message

A message is written record by record behind its header, whose length field stays zero until the
end. An empty MESSAGE-INTEGRITY is filled in with the code of what is written so far, under the key
of the last names before it. A FINGERPRINT of value zero is filled in with the checksum of what is
written so far, with the length that the packet then has.

A FINGERPRINT has to be the last attribute, and nothing but FINGERPRINT and MESSAGE-INTEGRITY may
follow a MESSAGE-INTEGRITY.

## Main definitions

* `Draft`, `Draft.packet`: a message in the middle of being written, and the packet so far.
* `Draft.setLength`: the draft with its length field set.
* `Draft.fingerprintValue`, `Draft.integrityValue`: the values that are filled in.
* `Draft.resolve`: an attribute with its value filled in, or why it cannot stand here.
* `Draft.write`: the draft after one more attribute.
* `Message.encode`: the packet of a message.
-/

namespace Stun

/-- A message in the middle of being written. -/
structure Draft where
  /-- The header. -/
  header : Header
  /-- The records so far, newest first. -/
  records : List Record := []
  /-- The names that the attributes so far give. -/
  names : Names := {}
  /-- Whether a MESSAGE-INTEGRITY is among the attributes so far. -/
  isSealed : Bool := false
  deriving Repr, DecidableEq

namespace Draft

/-- The packet so far. -/
def packet (d : Draft) : Bytes := d.header.bytes ++ Record.concat d.records.reverse

/-- The number of bytes of a FINGERPRINT with its head. -/
def fingerprintRecordSize : Nat := 8

/-- The draft with the length field for the records so far and `more` bytes, if it fits. -/
def setLength (d : Draft) (more : Nat) : Except Error Draft :=
  let length := (Record.concat d.records.reverse).length + more
  if maxMessageLength < length then .error .messageTooLarge
  else .ok { d with header := { d.header with length := UInt16.ofNat length } }

/-- The draft with the length that it has once a FINGERPRINT is added, and the FINGERPRINT. -/
def fingerprintValue (d : Draft) : Except Error (Draft × Attribute) :=
  (d.setLength fingerprintRecordSize).map fun d => (d, .fingerprint (fingerprint d.packet))

/-- The MESSAGE-INTEGRITY of what is written so far. -/
def integrityValue (d : Draft) (profile : Profile) (password : Option Bytes) :
    Except Error Attribute :=
  match password with
  | none => .error .missingPassword
  | some password =>
    match profile.key d.names password with
    | .error e => .error e
    | .ok key =>
      (profile.suite.integrity key d.packet).map fun code => .messageIntegrity code.toList

/-- The draft and the attribute as it is written next, of `count` attributes in all. -/
def resolve (d : Draft) (profile : Profile) (password : Option Bytes) (count : Nat)
    (a : Attribute) : Except Error (Draft × Attribute) :=
  match a with
  | .fingerprint checksum =>
    let index := d.records.length
    if index + 1 ≠ count then .error (.fingerprintNotLast count index)
    else if checksum = 0 then d.fingerprintValue
    else .ok (d, a)
  | .messageIntegrity hmac =>
    if hmac = [] then (d.integrityValue profile password).map fun a => (d, a) else .ok (d, a)
  | _ => if d.isSealed then .error .attributeAfterIntegrity else .ok (d, a)

/-- The draft after one more attribute, of `count` in all. -/
def write (profile : Profile) (password : Option Bytes) (count : Nat) (d : Draft)
    (a : Attribute) : Except Error Draft :=
  match d.resolve profile password count a with
  | .error e => .error e
  | .ok (d, resolved) =>
    (resolved.toRecord d.header.id profile.padding).map fun record =>
      { header := d.header
        records := record :: d.records
        names := d.names.observe a
        isSealed := d.isSealed || a.kind = .messageIntegrity }

end Draft

namespace Message

/-- The header of a message alone, with the length zero. -/
def draft (m : Message) : Draft := { header := { m.header with length := 0 } }

/-- The packet of a message. A password is needed where a MESSAGE-INTEGRITY is to be computed. -/
def encode (m : Message) (profile : Profile) (password : Option Bytes) :
    Except Error Bytes :=
  match m.attributes.foldlM (Draft.write profile password m.attributes.length) m.draft with
  | .error e => .error e
  | .ok d => (d.setLength 0).map Draft.packet

end Message

end Stun
