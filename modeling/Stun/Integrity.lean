import Stun.Digest.Suite
import Stun.Header

/-!
# Message integrity

MESSAGE-INTEGRITY carries a code over all that stands before it. The code is taken as if the
message ended with the MESSAGE-INTEGRITY itself, so the length field of the header counts it.

## Main definitions

* `maxMessageLength`: the greatest length that a header can give.
* `withLength`: a packet with another length field.
* `DigestSuite.integrity`: the code of a packet under a key.
-/

namespace Stun

/-- The greatest number of bytes behind a header. -/
def maxMessageLength : Nat := 0xFFFF

/-- The number of bytes of a MESSAGE-INTEGRITY with its head. -/
def integrityRecordSize : Nat := 24

/-- A packet whose length field says `length`. -/
def withLength (packet : Bytes) (length : Nat) : Bytes :=
  packet.patch Header.lengthOffset (Bytes.ofUInt16 (UInt16.ofNat length))

/-- The code of a packet under a key, taken over the packet with the length that it has once the
MESSAGE-INTEGRITY is added. -/
def DigestSuite.integrity (suite : DigestSuite) (key packet : Bytes) :
    Except Error (Vector UInt8 20) :=
  if packet.length < Header.size then .error .headerTooShort
  else
    let length := packet.length - Header.size + integrityRecordSize
    if maxMessageLength < length then .error .messageTooLarge
    else
      match suite.hmacSha1 key (withLength packet length) with
      | none => .error .cryptoFailed
      | some code => .ok code

end Stun
