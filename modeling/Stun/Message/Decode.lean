import Stun.Fingerprint
import Stun.Integrity
import Stun.Message.Basic

/-!
# Reading a message

A packet is read as a header and a row of records. Records of unknown kinds that need not be
understood are passed over. A FINGERPRINT has to end the packet and to be the checksum of what
stands before it. A MESSAGE-INTEGRITY is compared with the code of what stands before it, under the
key of the last names before it, where a password is given. Behind a MESSAGE-INTEGRITY all
attributes are looked at, and only a FINGERPRINT is kept.

The length field of the header is read and not compared with anything.

## Main definitions

* `Survey`: a packet in the middle of being read.
* `Survey.checkFingerprint`, `Survey.checkIntegrity`: the comparisons.
* `Survey.accept`, `Survey.visit`: the survey after one more attribute, and after one more record.
* `Message.decode`: the message of a packet.
-/

namespace Stun

/-- A packet in the middle of being read. -/
structure Survey where
  /-- The offset of the next record. -/
  offset : Nat := Header.size
  /-- The attributes kept so far, newest first. -/
  kept : List Attribute := []
  /-- The names that the records so far give. -/
  names : Names := {}
  /-- Whether a MESSAGE-INTEGRITY is among the records so far. -/
  isSealed : Bool := false
  deriving Repr, DecidableEq

namespace Survey

/-- A FINGERPRINT at the end of a packet, with the checksum of what stands before it. -/
def checkFingerprint (s : Survey) (packet : Bytes) (behind : Nat) (received : UInt32) :
    Except Error Unit :=
  if behind ≠ packet.length then .error (.fingerprintNotLast packet.length s.offset)
  else
    let computed := fingerprint (packet.take s.offset)
    if computed = received then .ok () else .error (.fingerprintMismatch received computed)

/-- A MESSAGE-INTEGRITY with the code of what stands before it. Without a password there is
nothing to compare. -/
def checkIntegrity (s : Survey) (profile : Profile) (password : Option Bytes)
    (packet received : Bytes) : Except Error Unit :=
  match password with
  | none => .ok ()
  | some password =>
    match profile.key s.names password with
    | .error e => .error e
    | .ok key =>
      match profile.suite.integrity key (packet.take s.offset) with
      | .error e => .error e
      | .ok computed =>
        if computed.toList = received then .ok ()
        else .error (.integrityMismatch received computed.toList)

/-- Whether an attribute is fit to follow what was read so far. The record behind it starts at
`behind`. -/
def check (s : Survey) (profile : Profile) (password : Option Bytes) (packet : Bytes)
    (behind : Nat) : Attribute → Except Error Unit
  | .fingerprint received => s.checkFingerprint packet behind received
  | .messageIntegrity received => s.checkIntegrity profile password packet received
  | _ => .ok ()

/-- The survey after an attribute that is fit. -/
def accept (s : Survey) (behind : Nat) (a : Attribute) : Survey where
  offset := behind
  kept := if s.isSealed && a.kind ≠ .fingerprint then s.kept else a :: s.kept
  names := s.names.observe a
  isSealed := s.isSealed || a.kind = .messageIntegrity

/-- The survey after one more record. -/
def visit (id : TransactionId) (profile : Profile) (password : Option Bytes)
    (packet : Bytes) (s : Survey) (record : Record) : Except Error Survey :=
  let behind := s.offset + record.size
  match Attribute.ofRecord id record with
  | .ok a => (s.check profile password packet behind a).map fun _ => s.accept behind a
  | .error e =>
    if e = .unknownAttribute record.type ∧ ¬ mustBeUnderstood record.type then
      .ok { s with offset := behind }
    else .error e

end Survey

namespace Message

/-- The message of a packet. With a password its MESSAGE-INTEGRITY is verified. -/
def decode (packet : Bytes) (profile : Profile) (password : Option Bytes) :
    Except Error Message :=
  match Header.read (Reader.ofBytes packet) with
  | (.error e, _) => .error e
  | (.ok header, r) =>
    let (records, left) := Record.split r.rest
    match records.foldlM (Survey.visit header.id profile password packet) {} with
    | .error e => .error e
    | .ok s => if left = [] then .ok ⟨header, s.kept.reverse⟩ else .error .attributeTruncated

end Message

end Stun
