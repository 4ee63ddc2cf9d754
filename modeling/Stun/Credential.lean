import Stun.Digest.Suite
import Stun.Error.Basic
import Stun.Text.Ascii

/-!
# Credentials and their keys

MESSAGE-INTEGRITY is computed under a key that only the two sides know. The key is the prepared
password where a message names no realm (short-term credentials), and a hash of username, realm and
prepared password where it does (long-term credentials).

Preparation brings a password into the one form that both sides agree on. It is a parameter; the
function given here settles it for texts of ASCII characters.

## Main definitions

* `Prep`, `Prep.apply`, `Prep.ascii`: preparation, optional preparation, and SASLprep on ASCII.
* `Profile`: what reading and writing a message depends on besides the message.
* `Names`: the username and the realm that a message gives.
* `Profile.shortTermKey`, `Profile.longTermKey`, `Profile.key`: the keys.

## Main results

* `Profile.longTermKey_eq_ok_iff`: when there is a long-term key.
-/

namespace Stun

/-! ### Preparation -/

/-- A way to bring a credential into the form that both sides agree on. -/
abbrev Prep := Bytes → Except Error Bytes

namespace Prep

/-- Prepares a text where a preparation is given, and leaves it as it is where none is. -/
def apply (prep : Option Prep) (text : Bytes) : Except Error Bytes :=
  match prep with
  | none => .ok text
  | some prepare => prepare text

/-- SASLprep on ASCII: control characters are refused, all other characters stay as they are.
Texts that are not ASCII are refused, since their preparation needs the tables of Unicode. -/
def ascii : Prep := fun text =>
  if text.all fun c => 0x20 ≤ c && c < 0x7F then .ok text else .error .prepRejected

end Prep

/-- What reading and writing a message depends on besides the message. -/
structure Profile where
  /-- The hash functions. -/
  suite : DigestSuite := .standard
  /-- The preparation of credentials, if any. -/
  prep : Option Prep := none
  /-- The byte that attributes are filled up with. -/
  padding : UInt8 := 0

/-! ### Keys -/

/-- The username and the realm that a message gives. -/
structure Names where
  /-- The username. -/
  username : Option Bytes := none
  /-- The realm. -/
  realm : Option Bytes := none
  deriving Repr, DecidableEq

/-- The text whose hash is the key of a username, a realm and a prepared password. -/
def longTermText (username realm password : Bytes) : Bytes :=
  username ++ Ascii.colon :: realm ++ Ascii.colon :: password

namespace Profile

/-- The key of a password alone. -/
def shortTermKey (profile : Profile) (password : Bytes) : Except Error Bytes :=
  Prep.apply profile.prep password

/-- The key of a username, a realm and a password. Only the password is prepared here. -/
def longTermKey (profile : Profile) (username realm password : Bytes) :
    Except Error (Vector UInt8 16) :=
  match profile.shortTermKey password with
  | .error e => .error e
  | .ok prepared =>
    match profile.suite.md5 (longTermText username realm prepared) with
    | none => .error .cryptoFailed
    | some key => .ok key

/-- The key of a password under the names that a message gives. -/
def key (profile : Profile) (names : Names) (password : Bytes) : Except Error Bytes :=
  match names.realm, names.username with
  | none, _ => profile.shortTermKey password
  | some _, none => .error .missingUsername
  | some realm, some username => (profile.longTermKey username realm password).map Vector.toList

/-- A long-term key is the hash of the names and of the prepared password. -/
theorem longTermKey_eq_ok_iff {profile : Profile} {username realm password : Bytes}
    {key : Vector UInt8 16} :
    profile.longTermKey username realm password = .ok key ↔
      ∃ prepared, Prep.apply profile.prep password = .ok prepared ∧
        profile.suite.md5 (longTermText username realm prepared) = some key := by
  unfold longTermKey shortTermKey
  cases Prep.apply profile.prep password with
  | error e => simp
  | ok prepared =>
    cases hhash : profile.suite.md5 (longTermText username realm prepared) <;> simp [hhash]

end Profile

end Stun
