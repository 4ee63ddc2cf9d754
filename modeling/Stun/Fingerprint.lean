import Stun.Checksum.Crc32

/-!
# The fingerprint of a packet

FINGERPRINT carries the CRC-32 of all that stands before it, with the letters `STUN` laid over it
so that a packet of another protocol that carries a CRC-32 of its own is told apart.

## Main definitions

* `fingerprintMask`, `fingerprint`.
-/

namespace Stun

/-- The letters `STUN` as a number. -/
def fingerprintMask : UInt32 := 0x5354554E

/-- The value of a FINGERPRINT that follows the given bytes. -/
def fingerprint (bytes : Bytes) : UInt32 := Crc32.checksum bytes ^^^ fingerprintMask

end Stun
