import Mathlib.Data.List.Forall2
import Stun.Proofs.Writing

/-!
# The layout of a packet

A packet that is written is framed as a reader expects it: its length field counts what stands
behind the header, and what stands there is one record for each attribute, whose length field counts
its value and which is filled up with the padding byte. No number is cut down to the sixteen bits
that it is written with, whatever the message holds.

## Main definitions

* `Attribute.FillsIn`: the attributes that may be written in place of a placeholder.
* `Attribute.IsFramedAs`: a record has the type, the length and the padding of an attribute.
* `Message.IsFramedAs`: a packet has the header and the records of a message.

## Main results

* `messageType_and_reservedMask`: no method reaches the two bits that are always zero.
* `Message.isFramedAs_of_encode`: the packets that are written are framed.
-/

namespace Stun

/-! ### The message type -/

private theorem or_and_right (a b c : UInt16) : (a ||| b) &&& c = a &&& c ||| b &&& c :=
  UInt16.toBitVec_inj.mp BitVec.and_or_distrib_right

/-- No method reaches the bits of a message type that are always zero. -/
theorem messageType_and_reservedMask (method : Method) (c : MessageClass) :
    messageType method c &&& reservedMask = 0 := by
  have hmasked (bits mask : UInt16) (hmask : mask &&& reservedMask = 0) :
      bits &&& mask &&& reservedMask = 0 := by rw [UInt16.and_assoc, hmask, UInt16.and_zero]
  have hcode : c.code &&& reservedMask = 0 := by cases c <;> rfl
  rw [messageType, or_and_right, or_and_right, or_and_right, hmasked _ 0x000F rfl,
    hmasked _ 0x00E0 rfl, hmasked _ 0x3E00 rfl, hcode]
  rfl

/-! ### Records -/

namespace Record

variable {r : Record}

theorem toNat_slice_bytes_length (h : r.value.length ≤ maxLength) :
    (r.bytes.slice 2 2).toUInt16.toNat = r.value.length := by
  have hslice : r.bytes.slice 2 2 = Bytes.ofUInt16 (UInt16.ofNat r.value.length) := by
    simp only [bytes, List.append_assoc]
    exact Bytes.slice_append (Bytes.length_ofUInt16 _) (Bytes.length_ofUInt16 _)
  rw [hslice, Bytes.toUInt16_ofUInt16, UInt16.toNat_ofNat']
  exact Nat.mod_eq_of_lt (Nat.lt_succ_of_le h)

/-- Complete records fill words of four bytes. -/
theorem length_concat_mod {records : List Record} (h : ∀ r ∈ records, r.IsComplete) :
    (concat records).length % 4 = 0 := by
  induction records with
  | nil => rfl
  | cons r records ih =>
    have hrest := ih fun s hs => h s (List.mem_cons_of_mem r hs)
    have hpadding := (h r List.mem_cons_self).2
    have hword := add_paddingLength_mod r.value.length
    rw [concat_cons, List.length_append, length_bytes, size, headSize]
    omega

end Record

/-! ### Attributes -/

namespace Attribute

/-- What may be written for an attribute: a code or a checksum for a placeholder, and the attribute
itself for all others. -/
inductive FillsIn : Attribute → Attribute → Prop
  | code (code : Vector UInt8 20) : FillsIn (messageIntegrity []) (messageIntegrity code.toList)
  | checksum (checksum : UInt32) : FillsIn (fingerprint 0) (fingerprint checksum)
  | self {a : Attribute} (hcode : a ≠ messageIntegrity []) (hchecksum : a ≠ fingerprint 0) :
      FillsIn a a

/-- A record has the type of an attribute and the value that is written for it, a length field that
is the size of the value, and the padding that the value needs. -/
structure IsFramedAs (a : Attribute) (id : TransactionId) (padding : UInt8) (r : Record) :
    Prop where
  type_eq : r.type = a.kind.code
  value_eq : ∃ written, a.FillsIn written ∧ written.toValue id = .ok r.value
  length_eq : (r.bytes.slice 2 2).toUInt16.toNat = r.value.length
  padding_eq : r.padding = List.replicate (Record.paddingLength r.value.length) padding

variable {profile : Profile} {password : Option Bytes} {h : Header} {count : Nat}
  {front : List Attribute} {records : List Record} {a resolved : Attribute} {r : Record}

theorem ResolvesTo.fillsIn
    (hresolved : a.ResolvesTo profile password h count front records resolved) :
    a.FillsIn resolved := by
  cases a with
  | fingerprint checksum =>
    obtain ⟨-, hresolved⟩ := hresolved
    split at hresolved
    · next hzero =>
      obtain ⟨-, rfl⟩ := hresolved
      exact hzero ▸ .checksum _
    · next hne =>
      subst hresolved
      exact .self (by simp) fun heq => hne (fingerprint.inj heq)
  | messageIntegrity hmac =>
    simp only [ResolvesTo] at hresolved
    split at hresolved
    · next hempty =>
      obtain ⟨_, _, code, -, -, -, -, rfl⟩ := hresolved
      exact hempty ▸ .code code
    · next hne =>
      subst hresolved
      exact .self (fun heq => hne (messageIntegrity.inj heq)) (by simp)
  | _ =>
    obtain ⟨-, rfl⟩ := hresolved
    exact .self (by simp) (by simp)

/-- One more attribute is framed as one more record. -/
theorem ResolvesTo.isFramedAs
    (hresolved : a.ResolvesTo profile password h count front records resolved)
    (hr : resolved.toRecord h.id profile.padding = .ok r) :
    a.IsFramedAs h.id profile.padding r := by
  obtain ⟨hvalue, hle, htype, hpadding⟩ := toRecord_eq_ok_iff.mp hr
  exact {
    type_eq := htype.trans (congrArg _ hresolved.kind_and_observe.1)
    value_eq := ⟨resolved, hresolved.fillsIn, hvalue⟩
    length_eq := Record.toNat_slice_bytes_length hle
    padding_eq := hpadding }

/-- Attributes are framed as the records that they are written as, one by one. -/
theorem WrittenAs.forall₂_isFramedAs {attributes : List Attribute}
    (hwritten : WrittenAs profile password h count attributes records) :
    List.Forall₂ (fun a r => a.IsFramedAs h.id profile.padding r) attributes records := by
  induction hwritten with
  | nil => exact .nil
  | snoc _ hresolved hr ih =>
    exact List.rel_append ih (.cons (hresolved.isFramedAs hr) .nil)

end Attribute

/-! ### Messages -/

namespace Message

/-- A packet has the header and the records of a message, and its length field counts all of its
records. -/
structure IsFramedAs (m : Message) (padding : UInt8) (packet : Bytes) : Prop where
  length_mod : packet.length % 4 = 0
  size_le : Header.size ≤ packet.length
  length_le : packet.length ≤ Header.size + maxMessageLength
  reserved_eq : (packet.slice 0 2).toUInt16 &&& reservedMask = 0
  type_eq : (packet.slice 0 2).toUInt16 = messageType m.header.method m.header.messageClass
  length_eq : (packet.slice Header.lengthOffset 2).toUInt16.toNat = packet.length - Header.size
  cookie_eq : packet.slice 4 4 = Bytes.ofUInt32 magicCookie
  id_eq : packet.slice 8 12 = m.header.id.toList
  exists_records : ∃ records, Record.split (packet.drop Header.size) = (records, []) ∧
    List.Forall₂ (fun a r => a.IsFramedAs m.header.id padding r) m.attributes records

/-- The packet that a message is written as is framed. -/
theorem isFramedAs_of_encode {m : Message} {profile : Profile} {password : Option Bytes}
    {packet : Bytes} (h : m.encode profile password = .ok packet) :
    m.IsFramedAs profile.padding packet := by
  obtain ⟨records, hwritten, hle, rfl⟩ := encode_eq_ok_iff.mp h
  have hsize : (m.header.packet records 0).length = Header.size + (Record.concat records).length :=
    m.header.length_packet records 0
  have hword := Record.length_concat_mod hwritten.isComplete
  let header : Header :=
    { m.header with length := UInt16.ofNat ((Record.concat records).length + 0) }
  have hpacket : m.header.packet records 0 = header.bytes ++ Record.concat records := rfl
  have hslice {offset count : Nat} (hinside : offset + count ≤ Header.size) :
      (m.header.packet records 0).slice offset count = header.bytes.slice offset count := by
    rw [hpacket, Bytes.slice_append_of_le (by rwa [header.length_bytes])]
  have htype : ((m.header.packet records 0).slice 0 2).toUInt16 =
      messageType m.header.method m.header.messageClass := by
    rw [hslice (by decide), header.slice_bytes_type, Bytes.toUInt16_ofUInt16]
  exact {
    length_mod := by
      rw [hsize, Header.size]
      omega
    size_le := by
      rw [hsize]
      exact Nat.le_add_right _ _
    length_le := by
      rw [hsize]
      exact Nat.add_le_add_left hle _
    reserved_eq := by rw [htype, messageType_and_reservedMask]
    type_eq := htype
    length_eq := by
      rw [hslice (by decide), header.slice_bytes_length, Bytes.toUInt16_ofUInt16, hsize,
        Nat.add_sub_cancel_left, UInt16.toNat_ofNat']
      exact Nat.mod_eq_of_lt (Nat.lt_succ_of_le hle)
    cookie_eq := by rw [hslice (by decide), header.slice_bytes_cookie]
    id_eq := by rw [hslice (by decide), header.slice_bytes_id]
    exists_records := by
      refine ⟨records, ?_, hwritten.forall₂_isFramedAs⟩
      rw [hpacket, List.drop_left' header.length_bytes]
      exact Record.split_concat hwritten.isComplete }

/-- A response with a method that has more bits than a message type has places for, and with a
stored length that is not its own. -/
def wideMethodResponse : Message where
  header := { messageClass := .errorResponse, method := 0xFFFF, length := 9 }
  attributes := [.software (Bytes.ofString "abc"), .messageIntegrity [], .fingerprint 0]

/-- The packet of that response under the password `pw`, filled up with `0xAA`. -/
def wideMethodResponsePacket : Bytes :=
  [0x3F, 0xFF, 0x00, 0x28, 0x21, 0x12, 0xA4, 0x42, 0x00, 0x00, 0x00, 0x00, 0x00, 0x00, 0x00, 0x00,
    0x00, 0x00, 0x00, 0x00, 0x80, 0x22, 0x00, 0x03, 0x61, 0x62, 0x63, 0xAA, 0x00, 0x08, 0x00, 0x14,
    0x27, 0xE3, 0xE1, 0xC1, 0x66, 0x02, 0x99, 0x3D, 0x27, 0x5A, 0x15, 0xDA, 0x1D, 0xE6, 0x7D, 0x65,
    0x8E, 0x18, 0x1A, 0x7F, 0x80, 0x28, 0x00, 0x04, 0xDF, 0xF1, 0xC1, 0xAF]

/-- The response is framed as its packet. -/
theorem isFramedAs_of_encode_wideMethodResponse :
    wideMethodResponse.encode { padding := 0xAA } (some (Bytes.ofString "pw")) =
        .ok wideMethodResponsePacket ∧
      wideMethodResponse.IsFramedAs 0xAA wideMethodResponsePacket := by
  have hencode : wideMethodResponse.encode { padding := 0xAA } (some (Bytes.ofString "pw")) =
      .ok wideMethodResponsePacket := by decide +kernel
  exact ⟨hencode, isFramedAs_of_encode hencode⟩

end Message

end Stun
