import Stun.Proofs.Layout
import Stun.Proofs.Order

/-!
# The size of a message

The length field of a header counts at most 65535 bytes. While a message is written its size is
compared with this limit up to three times, from what stands before a value to be computed and the
size of its record, and at the end from all records. The three agree: where nothing but its size
keeps a message from being written, it is written exactly when all of its records together keep the
limit, and otherwise it is refused for its size.

## Main definitions

* `Attribute.valueLength`, `Attribute.wireLength`: the size of the value of an attribute, and of its
  record.
* `Message.bodyLength`: the size of all records of a message.
* `Message.IsWritable`: nothing but its size keeps a message from being written.

## Main results

* `Attribute.WrittenAs.length_concat`: the size of the records that attributes are written as.
* `Message.encode_of_bodyLength`: a message is written exactly when its records keep the limit.
-/

namespace Stun

/-! ### Attributes -/

namespace Attribute

/-- The size of the value that an attribute is written with, which for a MESSAGE-INTEGRITY to be
computed is that of its code. -/
def valueLength : Attribute → Nat
  | mappedAddress address | xorMappedAddress address | alternateServer address =>
    TransportAddress.headSize + address.size
  | username text | realm text | nonce text | software text => text.length
  | messageIntegrity hmac => if hmac = [] then 20 else hmac.length
  | errorCode error => 4 + error.reason.length
  | unknownAttributes types => 2 * types.length
  | fingerprint _ | priority _ => 4
  | iceControlled _ | iceControlling _ => 8
  | useCandidate => 0

/-- The size of the record that an attribute is written as. -/
def wireLength (a : Attribute) : Nat :=
  Record.headSize + a.valueLength + Record.paddingLength a.valueLength

variable {id : TransactionId} {padding : UInt8} {a written : Attribute} {value : Bytes} {r : Record}

private theorem length_of_address {address : TransportAddress} (h : address.toValue = .ok value) :
    value.length = TransportAddress.headSize + address.size := by
  obtain ⟨-, rfl⟩ := TransportAddress.toValue_eq_ok_iff.mp h
  rw [List.length_append, List.length_append, Bytes.length_ofUInt16,
    TransportAddress.length_octets]
  rfl

private theorem length_of_writableText {limit : Nat} {text : Bytes}
    (h : writableText limit text = .ok value) : value.length = text.length := by
  rw [(writableText_eq_ok_iff.mp h).2.2]

theorem length_of_toValue (h : a.toValue id = .ok value) (hcode : a ≠ messageIntegrity []) :
    value.length = a.valueLength := by
  cases a with simp only [toValue, valueLength] at h ⊢
  | mappedAddress address | alternateServer address => exact length_of_address h
  | xorMappedAddress address =>
    have hlen := length_of_address h
    rwa [TransportAddress.size_masked] at hlen
  | username text | realm text | nonce text | software text => exact length_of_writableText h
  | messageIntegrity hmac =>
    rw [if_neg fun hempty => hcode (congrArg _ hempty), Except.ok.inj h]
  | errorCode error =>
    obtain ⟨reason, hreason, rfl⟩ := Error.map_eq_ok_iff.mp h
    rw [List.length_append, length_of_writableText hreason]
    rfl
  | unknownAttributes types => rw [← Except.ok.inj h, Bytes.length_ofUInt16List]
  | fingerprint number | priority number => rw [← Except.ok.inj h, Bytes.length_ofUInt32]
  | iceControlled number | iceControlling number =>
    rw [← Except.ok.inj h, Bytes.length_ofUInt64]
  | useCandidate => rw [← Except.ok.inj h, List.length_nil]

theorem FillsIn.length_of_toValue (hfills : a.FillsIn written)
    (h : written.toValue id = .ok value) : value.length = a.valueLength := by
  cases hfills with
  | code code =>
    rw [← Except.ok.inj h, Vector.length_toList]
    rfl
  | checksum checksum => exact Attribute.length_of_toValue (a := fingerprint checksum) h nofun
  | self hcode _ => exact Attribute.length_of_toValue h hcode

theorem IsFramedAs.size_eq (h : a.IsFramedAs id padding r) : r.size = a.wireLength := by
  obtain ⟨written, hfills, hvalue⟩ := h.value_eq
  rw [Record.size, h.padding_eq, List.length_replicate, hfills.length_of_toValue hvalue, wireLength]

/-- The size of the records that attributes are written as. -/
theorem WrittenAs.length_concat {profile : Profile} {password : Option Bytes} {h : Header}
    {count : Nat} {attributes : List Attribute} {records : List Record}
    (hwritten : WrittenAs profile password h count attributes records) :
    (Record.concat records).length = (attributes.map wireLength).sum := by
  have hframed := hwritten.forall₂_isFramedAs
  clear hwritten
  induction hframed with
  | nil => rfl
  | cons ha _ ih =>
    rw [Record.concat_cons, List.length_append, Record.length_bytes, ha.size_eq, List.map_cons,
      List.sum_cons, ih]

/-- What fills in an attribute that can be written can be written. -/
theorem FillsIn.exists_toRecord (hfills : a.FillsIn written)
    (ha : ∃ packet, a.write id padding [] = .ok packet) :
    ∃ r, written.toRecord id padding = .ok r := by
  have hrecord (value : Bytes) (hvalue : written.toValue id = .ok value)
      (hlen : value.length ≤ Record.maxLength) : ∃ r, written.toRecord id padding = .ok r :=
    ⟨⟨written.kind.code, value, List.replicate (Record.paddingLength value.length) padding⟩,
      toRecord_eq_ok_iff.mpr ⟨hvalue, hlen, rfl, rfl⟩⟩
  cases hfills with
  | code code => exact hrecord code.toList rfl (by rw [Vector.length_toList]; decide)
  | checksum checksum =>
    exact hrecord (Bytes.ofUInt32 checksum) rfl (by rw [Bytes.length_ofUInt32]; decide)
  | self _ _ =>
    obtain ⟨packet, hwrite⟩ := ha
    obtain ⟨r, hr, -⟩ := write_eq_ok hwrite
    exact ⟨r, hr⟩

end Attribute

/-! ### Messages -/

namespace Message

variable {m : Message} {profile : Profile} {password : Option Bytes} {packet : Bytes} {e : Error}

/-- The size of all records that a message is written as. -/
def bodyLength (m : Message) : Nat := (m.attributes.map Attribute.wireLength).sum

/-- Nothing but its size keeps a message from being written: its attributes are in order, each can
be written by itself, and a MESSAGE-INTEGRITY to be computed has a key. -/
structure IsWritable (m : Message) (profile : Profile) (password : Option Bytes) : Prop where
  isOrdered : Attribute.IsOrdered m.attributes
  accepted : ∀ a ∈ m.attributes, ∃ packet, a.write m.header.id profile.padding [] = .ok packet
  has_key : ∀ front back, m.attributes = front ++ .messageIntegrity [] :: back →
    ∃ text key, password = some text ∧
      profile.key (Names.ofAttributes front) text = .ok key

theorem bodyLength_eq {front back : List Attribute} {a : Attribute}
    (hsplit : m.attributes = front ++ a :: back) :
    m.bodyLength = (front.map Attribute.wireLength).sum + a.wireLength +
      (back.map Attribute.wireLength).sum := by
  simp only [bodyLength, hsplit, List.map_append, List.map_cons, List.sum_append, List.sum_cons,
    Nat.add_assoc]

theorem length_of_encode (hencode : m.encode profile password = .ok packet) :
    packet.length = Header.size + m.bodyLength ∧ m.bodyLength ≤ maxMessageLength := by
  obtain ⟨records, hwritten, hle, rfl⟩ := encode_eq_ok_iff.mp hencode
  rw [hwritten.length_concat] at hle
  rw [Header.length_packet, hwritten.length_concat]
  exact ⟨rfl, hle⟩

/-- An attribute of such a message fails for the size of the message alone. -/
theorem IsWritable.eq_messageTooLarge_of_failsWith (hm : m.IsWritable profile password)
    (hsuite : ∀ key bytes, profile.suite.hmacSha1 key bytes ≠ none) {front back : List Attribute}
    {records : List Record} {a : Attribute} (hsplit : m.attributes = front ++ a :: back)
    (hwritten : Attribute.WrittenAs profile password m.header m.attributes.length front records)
    (hfails : a.FailsWith profile password m.header m.attributes.length front records e) :
    e = .messageTooLarge ∧ maxMessageLength < m.bodyLength := by
  have hbody := bodyLength_eq hsplit
  have hconcat := hwritten.length_concat
  cases hfails with
  | misplaced hindex =>
    -- Nothing follows a FINGERPRINT, so its index is the last one.
    have hordered := hsplit ▸ hm.isOrdered
    have hback : back = [] := List.eq_nil_iff_forall_not_mem.mpr fun b hb =>
      (hordered.of_append_cons hb).1 rfl
    refine absurd ?_ hindex
    rw [← hwritten.length_eq, hsplit, hback, List.length_append]
    rfl
  | noRoomForChecksum _ hroom =>
    have hsize : (Attribute.fingerprint 0).wireLength = Draft.fingerprintRecordSize := rfl
    exact ⟨rfl, by omega⟩
  | noPassword hnone =>
    obtain ⟨text, -, hgiven, -⟩ := hm.has_key front back hsplit
    exact absurd (hgiven.symm.trans hnone) nofun
  | noKey hgiven hkey =>
    obtain ⟨text, key, hgiven', hkey'⟩ := hm.has_key front back hsplit
    obtain rfl := Option.some.inj (hgiven.symm.trans hgiven')
    exact absurd (hkey.symm.trans hkey') nofun
  | noRoomForCode _ _ hroom =>
    have hsize : (Attribute.messageIntegrity []).wireLength = integrityRecordSize := rfl
    exact ⟨rfl, by omega⟩
  | noCode _ _ _ hcode => exact absurd hcode (hsuite _ _)
  | behindCode hchecksum _ hsealed =>
    obtain ⟨b, hb, hkind⟩ := hsealed
    obtain ⟨before, between, rfl⟩ := List.append_of_mem hb
    rw [List.append_assoc, List.cons_append] at hsplit
    have hordered := hsplit ▸ hm.isOrdered
    exact absurd ((hordered.of_append_cons (b := a) (by simp)).2 hkind) hchecksum
  | noRecord hresolved hrecord =>
    obtain ⟨r, hr⟩ := hresolved.fillsIn.exists_toRecord (hm.accepted a (by simp [hsplit]))
    exact absurd (hrecord.symm.trans hr) nofun

/-- Such a message is refused for its size alone. -/
theorem IsWritable.eq_messageTooLarge_of_encode (hm : m.IsWritable profile password)
    (hsuite : ∀ key bytes, profile.suite.hmacSha1 key bytes ≠ none)
    (hencode : m.encode profile password = .error e) :
    e = .messageTooLarge ∧ maxMessageLength < m.bodyLength := by
  obtain ⟨front, a, back, records, hsplit, hwritten, hfails⟩ | ⟨records, hwritten, hroom, rfl⟩ :=
    encode_eq_error_iff.mp hencode
  · exact hm.eq_messageTooLarge_of_failsWith hsuite hsplit hwritten hfails
  · rw [hwritten.length_concat] at hroom
    exact ⟨rfl, hroom⟩

/-- A message that nothing but its size keeps from being written is written exactly when its records
keep the limit of the length field. -/
theorem encode_of_bodyLength (hsuite : ∀ key bytes, profile.suite.hmacSha1 key bytes ≠ none)
    (hm : m.IsWritable profile password) :
    (m.bodyLength ≤ maxMessageLength → ∃ packet, m.encode profile password = .ok packet ∧
        packet.length = Header.size + m.bodyLength) ∧
      (maxMessageLength < m.bodyLength →
        m.encode profile password = .error .messageTooLarge) := by
  cases hencode : m.encode profile password with
  | error e =>
    obtain ⟨rfl, hlarge⟩ := hm.eq_messageTooLarge_of_encode hsuite hencode
    exact ⟨fun hle => absurd hle (Nat.not_le.mpr hlarge), fun _ => rfl⟩
  | ok packet =>
    obtain ⟨hlen, hle⟩ := length_of_encode hencode
    exact ⟨fun _ => ⟨packet, rfl, hlen⟩, fun hlarge => absurd hle (Nat.not_le.mpr hlarge)⟩

/-- The name of some software in as many letters as may be written. -/
def longName : Attribute := .software (List.replicate 763 0x61)

/-- An indication that leaves just less than eight bytes of what the length field can count. -/
def fullIndication : Message where
  header := { messageClass := .indication }
  attributes := List.replicate 85 longName ++ [.software (List.replicate 247 0x61)]

/-- The indication is written, and with a FINGERPRINT it is too large. -/
theorem encode_of_bodyLength_fullIndication :
    (∃ packet, fullIndication.encode {} none = .ok packet ∧ packet.length = 65552) ∧
      fullIndication.addFingerprint.encode {} none = .error .messageTooLarge := by
  have hsuite (key bytes : Bytes) : DigestSuite.standard.hmacSha1 key bytes ≠ none := nofun
  have hwritable (m : Message) (hordered : Attribute.IsOrdered m.attributes)
      (hwrite : ∀ a ∈ m.attributes, a ≠ .messageIntegrity [] ∧
        (a.write m.header.id 0 []).isOk = true) : m.IsWritable {} none := by
    refine ⟨hordered, fun a ha => ?_, fun front back hsplit => ?_⟩
    · have hok := (hwrite a ha).2
      cases hresult : a.write m.header.id 0 [] with
      | ok packet => exact ⟨packet, rfl⟩
      | error e =>
        rw [hresult] at hok
        exact absurd hok nofun
    · exact absurd rfl (hwrite (.messageIntegrity []) (by simp [hsplit])).1
  have hbody : fullIndication.bodyLength = 65532 := by decide +kernel
  have hfits := encode_of_bodyLength hsuite
    (hwritable fullIndication (by decide +kernel) (by decide +kernel))
  have hexceeds := encode_of_bodyLength hsuite
    (hwritable fullIndication.addFingerprint (by decide +kernel) (by decide +kernel))
  rw [hbody] at hfits
  exact ⟨hfits.1 (by decide), hexceeds.2 (by decide +kernel)⟩

end Message

end Stun
