import Stun.Bytes.Basic

/-!
# Error codes

An error response says what went wrong by a number of three decimal digits, kept as its hundreds
and the rest, and by a reason phrase. Some numbers have a phrase of their own.

## Main definitions

* `ErrorCode`, `ErrorCode.code`: the value of ERROR-CODE and its number.
* `ErrorCode.phrases`, `ErrorCode.phrase`, `ErrorCode.ofCode`: the numbers with a phrase, the phrase
  of a number, and the value for a number.
-/

namespace Stun

/-- What an error response says. -/
structure ErrorCode where
  /-- The hundreds of the number. -/
  hundreds : UInt8
  /-- The number modulo a hundred, though any byte can be held. -/
  number : UInt8
  /-- What went wrong, in words. -/
  reason : Bytes
  deriving Repr, DecidableEq

namespace ErrorCode

/-- The number as a whole. -/
def code (e : ErrorCode) : UInt16 := e.hundreds.toUInt16 * 100 + e.number.toUInt16

/-- The numbers with a phrase of their own. -/
def phrases : List (UInt16 × String) :=
  [(300, "Try Alternate"),
    (400, "Bad Request"),
    (401, "Unauthorized"),
    (420, "Unknown Attribute"),
    (438, "Stale Nonce"),
    (487, "Role Conflict"),
    (500, "Server Error")]

/-- The phrase of a number, empty for a number without one. -/
def phrase (code : UInt16) : String := (phrases.lookup code).getD ""

/-- The value for a number, with its phrase. Hundreds beyond 255 are taken modulo 256. -/
def ofCode (code : UInt16) : ErrorCode :=
  ⟨(code / 100).toUInt8, (code % 100).toUInt8, Bytes.ofString (phrase code)⟩

end ErrorCode

end Stun
