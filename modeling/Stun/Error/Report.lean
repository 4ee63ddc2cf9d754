import Stun.Error.Basic
import Stun.Text.Hex

/-!
# How a failure is reported

A report names a category and a code in it, and may carry a detail. Its text is the name of the
category, what the code stands for, and the detail in brackets. Codes that stand for nothing can
be reported too, and have a text of their own.

## Main definitions

* `Error.Category`, `Error.Category.name`, `Error.Category.describe`: the categories, and what the
  codes of each stand for.
* `Error.Detail`, `Error.Detail.text`: the values that explain a failure.
* `Error.Report`, `Error.Report.message`: a report and its text.
* `Error.report`, `Error.message`: the report of each cause and its text.
-/

namespace Stun.Error

/-! ### Categories and codes -/

/-- The parts of the work in which a failure arises. -/
inductive Category where
  /-- Reading a header. -/
  | headers
  /-- Reading and writing one attribute. -/
  | attributes
  /-- Credentials and cryptography. -/
  | integrity
  /-- Reading and writing a whole message. -/
  | messages
  deriving Repr, DecidableEq

namespace Category

/-- The categories. -/
def all : List Category := [headers, attributes, integrity, messages]

/-- The name of a category in reports. -/
def name : Category → String
  | headers => "stun_header"
  | attributes => "stun_attribute"
  | integrity => "stun_integrity"
  | messages => "stun_message"

/-- The category of a name. -/
def ofName? (text : String) : Option Category := all.find? (·.name == text)

/-- What the codes of a category stand for, from the code 1 on. -/
def descriptions : Category → List String
  | headers =>
    ["buffer is too small to hold a STUN header",
      "magic cookie does not match",
      "unrecognized message method",
      "unrecognized message class"]
  | attributes =>
    ["attribute extends past the end of the buffer",
      "attribute value does not fit in the length field",
      "attribute value is not valid UTF-8",
      "attribute value is too short",
      "attribute value is invalid",
      "unrecognized attribute type",
      "attribute value exceeds its maximum length"]
  | integrity =>
    ["SASLprep rejected the credential",
      "long-term credentials require a username",
      "cryptographic operation failed"]
  | messages =>
    ["FINGERPRINT does not match the message",
      "MESSAGE-INTEGRITY does not match the message",
      "FINGERPRINT is not the last attribute",
      "attribute other than FINGERPRINT follows MESSAGE-INTEGRITY",
      "MESSAGE-INTEGRITY requires a password",
      "attributes exceed the maximum message length"]

/-- What a code stands for. Codes outside the list of the category are unknown errors of it. -/
def describe (category : Category) (code : Int) : String :=
  let known := if 1 ≤ code then category.descriptions[(code - 1).toNat]? else none
  known.getD ("unknown " ++ category.name ++ " error")

end Category

/-! ### Details -/

/-- The values that explain a failure. -/
inductive Detail where
  /-- Nothing to add. -/
  | none
  /-- The FINGERPRINT received and the one computed. -/
  | fingerprints (received computed : UInt32)
  /-- The MESSAGE-INTEGRITY received and the one computed. -/
  | digests (received computed : Bytes)
  /-- Where something stands, and of how many. -/
  | place (length position : Nat)
  /-- How long something is, and how long it may be. -/
  | size (limit length : Nat)
  /-- A number that stands for nothing known. -/
  | number (value : UInt16)
  deriving Repr, DecidableEq

/-- The text of a byte string in hexadecimal digits. -/
def hexText (bytes : Bytes) : String := String.ofList ((Hex.encode bytes).map Char.ofUInt8)

/-- The text that a detail adds to a report. Numbers of bits are written in hexadecimal digits at
their full width. -/
def Detail.text : Detail → String
  | none => ""
  | fingerprints received computed =>
    " (attribute 0x" ++ hexText (Bytes.ofUInt32 received) ++
      ", computed 0x" ++ hexText (Bytes.ofUInt32 computed) ++ ")"
  | digests received computed =>
    " (attribute " ++ hexText received ++ ", computed " ++ hexText computed ++ ")"
  | place length position =>
    " (position " ++ toString position ++ " of " ++ toString length ++ ")"
  | size limit length => " (length " ++ toString length ++ ", limit " ++ toString limit ++ ")"
  | number value => " (value 0x" ++ hexText (Bytes.ofUInt16 value) ++ ")"

/-! ### Reports -/

/-- A failure as it is reported. -/
structure Report where
  /-- The part of the work. -/
  category : Category
  /-- The number of the failure in its category. -/
  code : Int
  /-- The values that explain it. -/
  detail : Detail
  deriving Repr, DecidableEq

/-- The text of a report. -/
def Report.message (r : Report) : String :=
  r.category.name ++ ": " ++ r.category.describe r.code ++ r.detail.text

/-- The report of each cause. -/
def report : Error → Report
  | headerTooShort => ⟨.headers, 1, .none⟩
  | cookieMismatch => ⟨.headers, 2, .none⟩
  | unknownMethod value => ⟨.headers, 3, .number value⟩
  | unknownClass value => ⟨.headers, 4, .number value⟩
  | attributeTruncated => ⟨.attributes, 1, .none⟩
  | valueTooLong limit length => ⟨.attributes, 2, .size limit length⟩
  | invalidText => ⟨.attributes, 3, .none⟩
  | valueTooShort => ⟨.attributes, 4, .none⟩
  | invalidFamily value => ⟨.attributes, 5, .number value.toUInt16⟩
  | wrongSize limit length => ⟨.attributes, 5, .size limit length⟩
  | unknownAttribute type => ⟨.attributes, 6, .number type⟩
  | textTooLong limit length => ⟨.attributes, 7, .size limit length⟩
  | prepRejected => ⟨.integrity, 1, .none⟩
  | missingUsername => ⟨.integrity, 2, .none⟩
  | cryptoFailed => ⟨.integrity, 3, .none⟩
  | fingerprintMismatch received computed => ⟨.messages, 1, .fingerprints received computed⟩
  | integrityMismatch received computed => ⟨.messages, 2, .digests received computed⟩
  | fingerprintNotLast length position => ⟨.messages, 3, .place length position⟩
  | attributeAfterIntegrity => ⟨.messages, 4, .none⟩
  | missingPassword => ⟨.messages, 5, .none⟩
  | messageTooLarge => ⟨.messages, 6, .none⟩

/-- The text that a failure is reported with. -/
def message (e : Error) : String := e.report.message

end Stun.Error
