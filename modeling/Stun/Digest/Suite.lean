import Stun.Digest.Hmac
import Stun.Digest.Md5

/-!
# The hash functions that a codec uses

Long-term keys need MD5 and message integrity needs HMAC-SHA1. A codec takes the two as a value,
since a platform may refuse to compute them.

## Main definitions

* `DigestSuite`: the two functions, each of which may fail.
* `DigestSuite.standard`, `DigestSuite.unavailable`: the functions as specified, and a platform
  that refuses both.
-/

namespace Stun

/-- The hash functions behind keys and message integrity. -/
structure DigestSuite where
  /-- The MD5 hash of a byte string. -/
  md5 : Bytes → Option (Vector UInt8 16)
  /-- The HMAC-SHA1 code of a message under a key, in this order: key, message. -/
  hmacSha1 : Bytes → Bytes → Option (Vector UInt8 20)

namespace DigestSuite

/-- Both functions as specified. They never fail. -/
def standard : DigestSuite where
  md5 bytes := some (Md5.digest bytes)
  hmacSha1 key message := some (Hmac.sha1 key message)

/-- A platform that refuses both functions. -/
def unavailable : DigestSuite where
  md5 _ := none
  hmacSha1 _ _ := none

end DigestSuite

end Stun
