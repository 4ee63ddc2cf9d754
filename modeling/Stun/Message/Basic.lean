import Stun.Attribute.Record
import Stun.Credential

/-!
# Messages

A message is a header and a list of attributes. It is built by adding attributes at its end; a
FINGERPRINT of value zero and an empty MESSAGE-INTEGRITY stand for values that are computed when
the message is written.

## Main definitions

* `Message`, `Message.start`, `Message.startFrom`: messages, and messages without attributes.
* `drawId`: a transaction id from a source of random bytes.
* `Message.add`, `Message.addFingerprint`, `Message.addMessageIntegrity`, `Message.addErrorCode`,
  `Message.addLongTerm`: adding attributes.
* `Message.find?`: the first attribute of a kind.
* `Names.observe`, `Names.ofAttributes`: the names that attributes give.

## Main results

* `Names.ofAttributes_append`: later names win over earlier ones.
-/

namespace Stun

/-- A transaction id from a source of random bytes, which may fail. -/
def drawId (source : Option TransactionId) : Except Error TransactionId :=
  match source with
  | none => .error .cryptoFailed
  | some id => .ok id

/-- A header and the attributes behind it. -/
structure Message where
  /-- The header. -/
  header : Header := {}
  /-- The attributes, in the order of the packet. -/
  attributes : List Attribute := []
  deriving Repr, DecidableEq

namespace Message

/-- Messages are equal when their headers are and their attributes are one by one. -/
instance : BEq Message where
  beq a b := a.header = b.header && a.attributes == b.attributes

/-! ### Messages without attributes -/

/-- The message of a method, a class and a transaction id, without attributes. -/
def start (method : Method) (messageClass : MessageClass) (id : TransactionId) : Message :=
  { header := { messageClass, method, id } }

/-- The same with a transaction id from a source of random bytes. -/
def startFrom (source : Option TransactionId) (method : Method) (messageClass : MessageClass) :
    Except Error Message :=
  (drawId source).map (start method messageClass)

/-! ### Changing a message -/

/-- A message with another transaction id. -/
def withId (m : Message) (id : TransactionId) : Message := { m with header := { m.header with id } }

/-- A message with another class. -/
def withClass (m : Message) (messageClass : MessageClass) : Message :=
  { m with header := { m.header with messageClass } }

/-- A message with another method. -/
def withMethod (m : Message) (method : Method) : Message :=
  { m with header := { m.header with method } }

/-- A message with one more attribute. -/
def add (m : Message) (a : Attribute) : Message := { m with attributes := m.attributes ++ [a] }

/-- A message with a FINGERPRINT to be computed. -/
def addFingerprint (m : Message) : Message := m.add (.fingerprint 0)

/-- A message with a MESSAGE-INTEGRITY to be computed. -/
def addMessageIntegrity (m : Message) : Message := m.add (.messageIntegrity [])

/-- A message with an error code and its phrase. -/
def addErrorCode (m : Message) (code : UInt16) : Message :=
  m.add (.errorCode (ErrorCode.ofCode code))

/-- A message with a username, a realm and a MESSAGE-INTEGRITY to be computed. Both names are
prepared, the username first. -/
def addLongTerm (m : Message) (prep : Option Prep) (username realm : Bytes) :
    Except Error Message :=
  match Prep.apply prep username with
  | .error e => .error e
  | .ok username =>
    (Prep.apply prep realm).map fun realm =>
      ((m.add (.username username)).add (.realm realm)).addMessageIntegrity

/-- The first attribute of a kind. -/
def find? (m : Message) (kind : AttributeKind) : Option Attribute :=
  m.attributes.find? (·.kind = kind)

end Message

/-! ### The names that attributes give -/

namespace Names

/-- The names after one more attribute. -/
def observe (names : Names) : Attribute → Names
  | .username text => { names with username := some text }
  | .realm text => { names with realm := some text }
  | _ => names

/-- The names that attributes give, later ones in place of earlier ones. -/
def ofAttributes (attributes : List Attribute) : Names := attributes.foldl observe {}

theorem ofAttributes_append (first second : List Attribute) :
    ofAttributes (first ++ second) = second.foldl observe (ofAttributes first) := by
  simp [ofAttributes]

end Names

end Stun
