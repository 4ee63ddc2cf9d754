import Stun.Attribute.Value
import Stun.Record

/-!
# Attributes as records

An attribute stands in a packet as a record whose type is its kind. Writing gives a record or a
cause of failure, and a packet only grows by whole records. Reading goes over the whole record
before it looks at its type and its value, so that the next record can be read in any case.

## Main definitions

* `Attribute.toRecord`, `Attribute.ofRecord`: the record of an attribute, and back.
* `Attribute.write`: a packet with an attribute at its end.
* `Attribute.read`: the attribute in front of a reader.

## Main results

* `Attribute.write_eq_ok`: writing appends the bytes of a record.
-/

namespace Stun.Attribute

/-- The record of an attribute, filled up with a given byte. -/
def toRecord (id : TransactionId) (padding : UInt8) (a : Attribute) : Except Error Record :=
  match a.toValue id with
  | .error e => .error e
  | .ok value =>
    if Record.maxLength < value.length then
      .error (.valueTooLong Record.maxLength value.length)
    else
      .ok ⟨a.kind.code, value, List.replicate (Record.paddingLength value.length) padding⟩

/-- A packet with an attribute at its end. -/
def write (id : TransactionId) (padding : UInt8) (packet : Bytes) (a : Attribute) :
    Except Error Bytes :=
  (a.toRecord id padding).map fun record => packet ++ record.bytes

theorem write_eq_ok {id : TransactionId} {padding : UInt8} {packet packet' : Bytes} {a : Attribute}
    (h : a.write id padding packet = .ok packet') :
    ∃ record, a.toRecord id padding = .ok record ∧ packet' = packet ++ record.bytes := by
  unfold write at h
  cases hr : a.toRecord id padding with
  | error e => rw [hr] at h; exact absurd h nofun
  | ok record => rw [hr] at h; exact ⟨record, rfl, (Except.ok.inj h).symm⟩

/-- The attribute of a record. -/
def ofRecord (id : TransactionId) (record : Record) : Except Error Attribute :=
  match AttributeKind.ofCode? record.type with
  | none => .error (.unknownAttribute record.type)
  | some kind => ofValue id kind record.value

/-- The attribute in front of a reader, and the reader behind its record. -/
def read (id : TransactionId) (r : Reader) : Except Error Attribute × Reader :=
  match Record.read r with
  | (none, r) => (.error .attributeTruncated, r)
  | (some record, r) => (ofRecord id record, r)

end Stun.Attribute
