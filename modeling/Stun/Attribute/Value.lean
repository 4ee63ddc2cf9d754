import Stun.Address.Value
import Stun.Attribute.Basic
import Stun.Text.Utf8

/-!
# Values of attributes

What each kind of attribute writes as its value, and what it reads from one. Writing refuses
families that are unknown and texts that are too long or no UTF-8. Reading refuses values that are
too short, numbers that are too long, unknown families and texts that are no UTF-8; it sets no
limit to the length of a text.

## Main definitions

* `Attribute.textLimit`, `Attribute.usernameLimit`, `Attribute.writableText`: the texts that may be
  written.
* `Attribute.toValue`: the value of an attribute.
* `Attribute.readableText`, `Attribute.numberOf`, `ErrorCode.ofValue`: parts of values.
* `Attribute.ofValue`: the attribute of a kind with a given value.

## Main results

* `Attribute.writableText_eq_ok_iff`: which texts may be written.
* `Attribute.numberOf_eq_ok_iff`: a number is read from exactly its width.
-/

namespace Stun

namespace Attribute

/-! ### Writing -/

/-- The greatest size of a username. -/
def usernameLimit : Nat := 512

/-- The greatest size of all other texts. -/
def textLimit : Nat := 763

/-- A text that may be written: not above the limit, and UTF-8. -/
def writableText (limit : Nat) (text : Bytes) : Except Error Bytes :=
  if limit < text.length then .error (.textTooLong limit text.length)
  else if Utf8.isValid text then .ok text
  else .error .invalidText

theorem writableText_eq_ok_iff {limit : Nat} {text written : Bytes} :
    writableText limit text = .ok written ↔
      text.length ≤ limit ∧ Utf8.isValid text = true ∧ written = text := by
  unfold writableText
  split
  · next h => exact ⟨nofun, fun hw => absurd hw.1 (by omega)⟩
  · next h =>
    split
    · next hv => exact ⟨fun hw => ⟨by omega, hv, (Except.ok.inj hw).symm⟩, fun hw => hw.2.2 ▸ rfl⟩
    · next hv => exact ⟨nofun, fun hw => absurd hw.2.1 hv⟩

/-- The value of an attribute. -/
def toValue (id : TransactionId) : Attribute → Except Error Bytes
  | mappedAddress address => address.toValue
  | xorMappedAddress address => (address.masked id).toValue
  | alternateServer address => address.toValue
  | username text => writableText usernameLimit text
  | realm text => writableText textLimit text
  | nonce text => writableText textLimit text
  | software text => writableText textLimit text
  | messageIntegrity hmac => .ok hmac
  | fingerprint checksum => .ok (Bytes.ofUInt32 checksum)
  | errorCode error =>
    (writableText textLimit error.reason).map fun reason =>
      [0, 0, error.hundreds, error.number] ++ reason
  | unknownAttributes types => .ok (Bytes.ofUInt16List types)
  | priority value => .ok (Bytes.ofUInt32 value)
  | useCandidate => .ok []
  | iceControlled tieBreaker => .ok (Bytes.ofUInt64 tieBreaker)
  | iceControlling tieBreaker => .ok (Bytes.ofUInt64 tieBreaker)

/-! ### Reading -/

/-- The bytes of a text. -/
def readableText (value : Bytes) : Except Error Bytes :=
  if Utf8.isValid value then .ok value else .error .invalidText

/-- The bytes of a number of `width` bytes. -/
def numberOf (width : Nat) (value : Bytes) : Except Error Bytes :=
  if value.length < width then .error .valueTooShort
  else if width < value.length then .error (.wrongSize width value.length)
  else .ok value

theorem numberOf_eq_ok_iff {width : Nat} {value bytes : Bytes} :
    numberOf width value = .ok bytes ↔ value.length = width ∧ bytes = value := by
  unfold numberOf
  split
  · next h => exact ⟨nofun, fun hv => absurd hv.1 (by omega)⟩
  · next h =>
    split
    · next h' => exact ⟨nofun, fun hv => absurd hv.1 (by omega)⟩
    · next h' => exact ⟨fun hv => ⟨by omega, (Except.ok.inj hv).symm⟩, fun hv => hv.2 ▸ rfl⟩

end Attribute

/-- What an error response says. The first two bytes do not matter. -/
def ErrorCode.ofValue (value : Bytes) : Except Error ErrorCode :=
  if value.length < 4 then .error .valueTooShort
  else
    (Attribute.readableText (value.drop 4)).map fun reason =>
      ⟨value.getD 2 0, value.getD 3 0, reason⟩

namespace Attribute

/-- The attribute of a kind with a given value. -/
def ofValue (id : TransactionId) (kind : AttributeKind) (value : Bytes) : Except Error Attribute :=
  match kind with
  | .mappedAddress => (TransportAddress.ofValue value).map mappedAddress
  | .xorMappedAddress =>
    (TransportAddress.ofValue value).map fun a => xorMappedAddress (a.masked id)
  | .alternateServer => (TransportAddress.ofValue value).map alternateServer
  | .username => (readableText value).map username
  | .realm => (readableText value).map realm
  | .nonce => (readableText value).map nonce
  | .software => (readableText value).map software
  | .messageIntegrity => .ok (messageIntegrity value)
  | .fingerprint => (numberOf 4 value).map fun bytes => fingerprint bytes.toUInt32
  | .errorCode => (ErrorCode.ofValue value).map errorCode
  | .unknownAttributes =>
    if value.length % 2 = 0 then .ok (unknownAttributes value.toUInt16List)
    else .error .valueTooShort
  | .priority => (numberOf 4 value).map fun bytes => priority bytes.toUInt32
  | .useCandidate => .ok useCandidate
  | .iceControlled => (numberOf 8 value).map fun bytes => iceControlled bytes.toUInt64
  | .iceControlling => (numberOf 8 value).map fun bytes => iceControlling bytes.toUInt64

end Attribute

end Stun
