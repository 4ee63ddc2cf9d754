import Stun.Digest.Sha1

/-!
# Keyed hashing

HMAC turns a hash function into a code that only the holder of a key can compute: the message is
hashed behind the key, and the result is hashed once more behind the key, under two masks.

## Main definitions

* `Hmac.blockKey`: a key made as long as a block.
* `Hmac.sha1`: the code of a message under a key, on top of SHA-1.
-/

namespace Stun.Hmac

open Digest

/-- A key as long as a block: a longer one is hashed first, a shorter one filled up with zeros. -/
def blockKey (key : Bytes) : Bytes :=
  let key := if blockSize < key.length then (Sha1.digest key).toList else key
  key ++ List.replicate (blockSize - key.length) 0

/-- The code of a message under a key. -/
def sha1 (key message : Bytes) : Vector UInt8 20 :=
  let key := blockKey key
  let inner := Sha1.digest (key.map (· ^^^ 0x36) ++ message)
  Sha1.digest (key.map (· ^^^ 0x5C) ++ inner.toList)

/-- The first four bytes of the published code of this message under this key. -/
example : (sha1 (Bytes.ofString "key")
    (Bytes.ofString "The quick brown fox jumps over the lazy dog")).toList.take 4 =
      [0xDE, 0x7C, 0x9B, 0x85] := by
  decide +kernel

end Stun.Hmac
