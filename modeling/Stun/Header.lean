import Stun.Bytes.Reader
import Stun.Error.Basic

/-!
# The header of a message

A packet starts with twenty bytes: the message type, the length of what follows, the magic cookie
and a transaction id. The message type holds the method and the class, whose two bits stand
between the bits of the method.

## Main definitions

* `MessageClass`, `Method`, `TransactionId`, `Header`.
* `messageType`, `methodBits`, `classBits`: the message type of a method and a class, and back.
* `Header.bytes`, `Header.ofBytes`: a header as twenty bytes, and back.
* `Header.read`, `Header.ofPacket?`: a header in front of a reader, and in front of a packet.

## Main results

* `Header.length_bytes`: a header is twenty bytes long.
* `Header.ofBytes_bytes`: a header for binding is read back from its bytes.
-/

namespace Stun

/-! ### Classes and methods -/

/-- What a message is for. -/
inductive MessageClass where
  /-- A request. -/
  | request
  /-- A message that expects no answer. -/
  | indication
  /-- The answer to a request that was carried out. -/
  | successResponse
  /-- The answer to a request that was refused. -/
  | errorResponse
  deriving Repr, DecidableEq

namespace MessageClass

/-- The classes. -/
def all : List MessageClass := [request, indication, successResponse, errorResponse]

/-- The class bits of the message type. -/
def code : MessageClass → UInt16
  | request => 0x0000
  | indication => 0x0010
  | successResponse => 0x0100
  | errorResponse => 0x0110

/-- The class of some class bits. -/
def ofCode? (code : UInt16) : Option MessageClass := all.find? (·.code = code)

/-- The name of a class in texts. -/
def name : MessageClass → String
  | request => "request"
  | indication => "indication"
  | successResponse => "success_response"
  | errorResponse => "error_response"

/-- The class of a name. -/
def ofName? (text : String) : Option MessageClass := all.find? (·.name == text)

end MessageClass

/-- The number of a method. Only the lower twelve bits have a place in a message type. -/
abbrev Method := UInt16

/-- The method that all messages here are about. -/
def Method.binding : Method := 1

/-- The identifier that a request and its answer share. -/
abbrev TransactionId := Vector UInt8 12

/-- The number that tells these packets from those of other protocols. -/
def magicCookie : UInt32 := 0x2112A442

/-! ### The message type -/

/-- The bits of a message type that stand for the class. -/
def classMask : UInt16 := 0x0110

/-- The bits of a message type that do not stand for the class. -/
def methodMask : UInt16 := 0xFEEF

/-- The bits of a message type that are always zero. -/
def reservedMask : UInt16 := 0xC000

/-- The message type of a method and a class: the lower four bits of the method, three more above
the lower class bit, and five more above the upper class bit. -/
def messageType (method : Method) (messageClass : MessageClass) : UInt16 :=
  let low : UInt16 := method &&& 0x0FFF
  let byOne : UInt16 := low <<< 1
  let byTwo : UInt16 := low <<< 2
  (low &&& 0x000F) ||| (byOne &&& 0x00E0) ||| (byTwo &&& 0x3E00) ||| messageClass.code

/-- The method of a message type. -/
def methodBits (type : UInt16) : Method :=
  let byOne : UInt16 := (type &&& 0x00E0) >>> 1
  let byTwo : UInt16 := (type &&& 0x3E00) >>> 2
  (type &&& 0x000F) ||| byOne ||| byTwo

/-- The class bits of a message type. -/
def classBits (type : UInt16) : UInt16 := type &&& classMask

/-! ### Headers -/

/-- What the first twenty bytes of a packet say. -/
structure Header where
  /-- What the message is for. -/
  messageClass : MessageClass := .request
  /-- What the message is about. -/
  method : Method := .binding
  /-- The identifier that the message shares with its answer. -/
  id : TransactionId := Vector.replicate 12 0
  /-- The number of bytes behind the header. -/
  length : UInt16 := 0
  deriving Repr, DecidableEq

namespace Header

/-- The number of bytes in a header. -/
def size : Nat := 20

/-- Where the length field stands in a header. -/
def lengthOffset : Nat := 2

/-- The twenty bytes of a header. -/
def bytes (h : Header) : Bytes :=
  Bytes.ofUInt16 (messageType h.method h.messageClass) ++ Bytes.ofUInt16 h.length ++
    Bytes.ofUInt32 magicCookie ++ h.id.toList

@[simp] theorem length_bytes (h : Header) : h.bytes.length = size := by
  simp [bytes, size]

/-- The header that twenty bytes stand for. The cookie is looked at first, then the bits that are
always zero, then the method, then the class. -/
def ofBytes (bytes : Bytes) : Except Error Header :=
  let type := (bytes.slice 0 2).toUInt16
  if (bytes.slice 4 4).toUInt32 ≠ magicCookie then
    .error .cookieMismatch
  else if type &&& reservedMask ≠ 0 ∨ methodBits type ≠ .binding then
    .error (.unknownMethod (type &&& methodMask))
  else
    match MessageClass.ofCode? (classBits type) with
    | none => .error (.unknownClass (classBits type))
    | some messageClass =>
      .ok ⟨messageClass, methodBits type, Bytes.fit 12 (bytes.slice 8 12),
        (bytes.slice lengthOffset 2).toUInt16⟩

@[simp] theorem slice_bytes_type (h : Header) :
    h.bytes.slice 0 2 = Bytes.ofUInt16 (messageType h.method h.messageClass) := by
  rw [bytes, List.append_assoc, List.append_assoc, ← List.nil_append (Bytes.ofUInt16 _ ++ _)]
  exact Bytes.slice_append rfl (Bytes.length_ofUInt16 _)

@[simp] theorem slice_bytes_length (h : Header) :
    h.bytes.slice lengthOffset 2 = Bytes.ofUInt16 h.length := by
  simp only [bytes, List.append_assoc]
  exact Bytes.slice_append (Bytes.length_ofUInt16 _) (Bytes.length_ofUInt16 _)

@[simp] theorem slice_bytes_cookie (h : Header) :
    h.bytes.slice 4 4 = Bytes.ofUInt32 magicCookie := by
  rw [bytes, List.append_assoc]
  exact Bytes.slice_append (by simp) (Bytes.length_ofUInt32 _)

@[simp] theorem slice_bytes_id (h : Header) : h.bytes.slice 8 12 = h.id.toList := by
  have hsplit : h.bytes = (Bytes.ofUInt16 (messageType h.method h.messageClass) ++
      Bytes.ofUInt16 h.length ++ Bytes.ofUInt32 magicCookie) ++ (h.id.toList ++ []) := by
    simp [bytes]
  rw [hsplit]
  exact Bytes.slice_append (by simp) (by simp)

/-- A header for binding is read back from its bytes. -/
theorem ofBytes_bytes {h : Header} (hmethod : h.method = .binding) : ofBytes h.bytes = .ok h := by
  obtain ⟨messageClass, method, id, length⟩ := h
  obtain rfl : method = .binding := hmethod
  simp only [ofBytes, slice_bytes_type, slice_bytes_length, slice_bytes_cookie, slice_bytes_id,
    Bytes.toUInt16_ofUInt16, Bytes.toUInt32_ofUInt32, Bytes.fit_toList]
  cases messageClass <;> rfl

/-- The header in front of a reader. The reader moves behind it as soon as there are twenty bytes,
whatever they say. -/
def read (r : Reader) : Except Error Header × Reader :=
  match r.take? size with
  | none => (.error .headerTooShort, r)
  | some (bytes, r) => (ofBytes bytes, r)

/-- The header in front of a packet, if there is one. -/
def ofPacket? (packet : Bytes) : Option Header := (read (Reader.ofBytes packet)).1.toOption

end Header

end Stun
