import Stun.Proofs.Refusal

/-!
# A FINGERPRINT added to a message

With a FINGERPRINT to be computed behind its attributes a message becomes the same packet but for
the length field, and the FINGERPRINT of that packet behind it: a code that is computed on the way
does not see the length field, and the number of attributes matters for a FINGERPRINT alone. What
a message is refused for it is refused for with a FINGERPRINT as well.

## Main results

* `Attribute.WrittenAs.congr_count`, `Attribute.FailsWith.congr_count`: attributes other than
  FINGERPRINT are written alike in messages of different numbers of attributes, and fail alike.
* `Message.encode_addFingerprint`: the packet of a message with a FINGERPRINT added.
-/

namespace Stun

namespace Attribute

variable {profile : Profile} {password : Option Bytes} {h : Header} {first second : Nat}
  {front attributes : List Attribute} {records : List Record} {a resolved : Attribute} {e : Error}

/-! ### The number of attributes -/

theorem ResolvesTo.congr_count (ha : a.kind ≠ .fingerprint)
    (hresolved : a.ResolvesTo profile password h first front records resolved) :
    a.ResolvesTo profile password h second front records resolved := by
  cases a with
  | fingerprint checksum => exact absurd rfl ha
  | _ => exact hresolved

theorem WrittenAs.congr_count (hnone : ∀ a ∈ attributes, a.kind ≠ .fingerprint)
    (hwritten : WrittenAs profile password h first attributes records) :
    WrittenAs profile password h second attributes records := by
  induction hwritten with
  | nil => exact .nil
  | snoc _ hresolved hr ih =>
    obtain ⟨hfront, ha⟩ := List.forall_mem_append.mp hnone
    exact .snoc (ih hfront) (hresolved.congr_count (ha _ List.mem_cons_self)) hr

theorem FailsWith.congr_count (ha : a.kind ≠ .fingerprint)
    (hfails : a.FailsWith profile password h first front records e) :
    a.FailsWith profile password h second front records e := by
  cases hfails with
  | misplaced | noRoomForChecksum => exact absurd rfl ha
  | noPassword hnone => exact .noPassword hnone
  | noKey hgiven hkey => exact .noKey hgiven hkey
  | noRoomForCode hgiven hkey hroom => exact .noRoomForCode hgiven hkey hroom
  | noCode hgiven hkey hroom hcode => exact .noCode hgiven hkey hroom hcode
  | behindCode hchecksum hcode hsealed => exact .behindCode hchecksum hcode hsealed
  | noRecord hresolved hrecord => exact .noRecord (hresolved.congr_count ha) hrecord

/-- The record of a FINGERPRINT, which takes eight bytes. -/
def checksumRecord (checksum : UInt32) : Record :=
  ⟨AttributeKind.fingerprint.code, Bytes.ofUInt32 checksum, []⟩

theorem toRecord_fingerprint (id : TransactionId) (padding : UInt8) (checksum : UInt32) :
    (fingerprint checksum).toRecord id padding = .ok (checksumRecord checksum) := by
  rw [toRecord_eq_ok_iff, checksumRecord, Bytes.length_ofUInt32]
  exact ⟨rfl, by decide, rfl, rfl⟩

@[simp] theorem size_checksumRecord (checksum : UInt32) : (checksumRecord checksum).size = 8 := by
  rw [Record.size, checksumRecord, Bytes.length_ofUInt32]
  rfl

theorem bytes_checksumRecord (checksum : UInt32) :
    (checksumRecord checksum).bytes = [0x80, 0x28, 0x00, 0x04] ++ Bytes.ofUInt32 checksum := by
  have hhead : Bytes.ofUInt16 AttributeKind.fingerprint.code ++ Bytes.ofUInt16 (UInt16.ofNat 4) =
      [0x80, 0x28, 0x00, 0x04] := by decide
  rw [Record.bytes, checksumRecord, Bytes.length_ofUInt32, List.append_nil, hhead]

end Attribute

/-! ### Messages -/

namespace Message

variable {m : Message} {profile : Profile} {password : Option Bytes} {records : List Record}

/-- The FINGERPRINT stands behind the records of all other attributes. -/
private theorem length_records_add_one
    (hwritten : Attribute.WrittenAs profile password m.header m.addFingerprint.attributes.length
      m.attributes records) :
    records.length + 1 = m.addFingerprint.attributes.length := by
  rw [← hwritten.length_eq, addFingerprint, add, List.length_append]
  rfl

/-- A FINGERPRINT for which there is room is the checksum of the packet with the length field that
counts it. -/
private theorem writtenAs_addFingerprint
    (hwritten : Attribute.WrittenAs profile password m.header m.addFingerprint.attributes.length
      m.attributes records)
    (hroom : (Record.concat records).length + 8 ≤ maxMessageLength) :
    Attribute.WrittenAs profile password m.header m.addFingerprint.attributes.length
      m.addFingerprint.attributes
      (records ++ [Attribute.checksumRecord (fingerprint (m.header.packet records 8))]) := by
  have hresolved : (Attribute.fingerprint 0).ResolvesTo profile password m.header
      m.addFingerprint.attributes.length m.attributes records
      (.fingerprint (fingerprint (m.header.packet records 8))) := by
    refine ⟨length_records_add_one hwritten, ?_⟩
    rw [if_pos rfl]
    exact ⟨hroom, rfl⟩
  exact .snoc hwritten hresolved (Attribute.toRecord_fingerprint _ _ _)

/-- Where there is no room for one, the message is too large. -/
private theorem encode_addFingerprint_of_lt
    (hwritten : Attribute.WrittenAs profile password m.header m.addFingerprint.attributes.length
      m.attributes records)
    (hroom : maxMessageLength < (Record.concat records).length + Draft.fingerprintRecordSize) :
    m.addFingerprint.encode profile password = .error .messageTooLarge :=
  encode_eq_error_iff.mpr (.inl ⟨m.attributes, .fingerprint 0, [], records, rfl, hwritten,
    .noRoomForChecksum (length_records_add_one hwritten) hroom⟩)

/-- A FINGERPRINT added to a message that has none changes nothing before it but the length field,
or the message is then too large. A message that is refused is refused with it for the same. -/
theorem encode_addFingerprint (hnone : ∀ a ∈ m.attributes, a.kind ≠ .fingerprint)
    (profile : Profile) (password : Option Bytes) :
    (∀ packet, m.encode profile password = .ok packet →
      (packet.length - Header.size + 8 ≤ maxMessageLength →
        let announced := withLength packet (packet.length - 12)
        let extended := announced ++ [0x80, 0x28, 0x00, 0x04] ++
          Bytes.ofUInt32 (fingerprint announced)
        m.addFingerprint.encode profile password = .ok extended ∧
          Record.ofPacket extended = Record.ofPacket packet ++
            [⟨AttributeKind.fingerprint.code, Bytes.ofUInt32 (fingerprint announced), []⟩]) ∧
      (maxMessageLength < packet.length - Header.size + 8 →
        m.addFingerprint.encode profile password = .error .messageTooLarge)) ∧
    ∀ e, m.encode profile password = .error e →
      m.addFingerprint.encode profile password = .error e := by
  refine ⟨fun packet hencode => ?_, fun e hencode => ?_⟩
  · obtain ⟨records, hwritten, -, rfl⟩ := encode_eq_ok_iff.mp hencode
    have hlater : Attribute.WrittenAs profile password m.header
        m.addFingerprint.attributes.length m.attributes records := hwritten.congr_count hnone
    have hlen := m.header.length_packet records 0
    have hbody : (m.header.packet records 0).length - Header.size =
        (Record.concat records).length := by rw [hlen, Nat.add_sub_cancel_left]
    have hfield : (m.header.packet records 0).length - 12 = (Record.concat records).length + 8 := by
      rw [hlen, Header.size]
      omega
    rw [hbody]
    refine ⟨fun hroom => ?_, encode_addFingerprint_of_lt hlater⟩
    intro announced extended
    have hannounced : announced = m.header.packet records 8 := by
      rw [← m.header.withLength_packet records 0 8, ← hfield]
    have hextended : extended =
        m.header.packet (records ++ [Attribute.checksumRecord (fingerprint announced)]) 0 := by
      rw [Header.packet_concat, Attribute.size_checksumRecord, Attribute.bytes_checksumRecord,
        ← List.append_assoc, ← hannounced]
    have hadded := writtenAs_addFingerprint hlater hroom
    rw [← hannounced] at hadded
    have hfits : (Record.concat (records ++
        [Attribute.checksumRecord (fingerprint announced)])).length ≤ maxMessageLength := by
      rwa [Record.concat_append, List.length_append, Record.concat_cons, Record.concat_nil,
        List.append_nil, Record.length_bytes, Attribute.size_checksumRecord]
    refine ⟨encode_eq_ok_iff.mpr ⟨_, hadded, hfits, hextended⟩, ?_⟩
    rw [hextended, Header.ofPacket_packet hadded.isComplete,
      Header.ofPacket_packet hwritten.isComplete, Attribute.checksumRecord]
  · obtain ⟨front, a, back, records, hsplit, hwritten, hfails⟩ | ⟨records, hwritten, hroom, rfl⟩ :=
      encode_eq_error_iff.mp hencode
    · -- The FINGERPRINT comes behind `back`, so what the failing attribute sees is unchanged.
      obtain ⟨hfront, hback⟩ := List.forall_mem_append.mp (hsplit ▸ hnone)
      refine encode_eq_error_iff.mpr (.inl ⟨front, a, back ++ [.fingerprint 0], records, ?_,
        hwritten.congr_count hfront, hfails.congr_count (hback a List.mem_cons_self)⟩)
      rw [addFingerprint, add, hsplit, List.append_assoc, List.cons_append]
    · exact encode_addFingerprint_of_lt (hwritten.congr_count hnone) (Nat.lt_add_right _ hroom)

/-- A request with a username and a MESSAGE-INTEGRITY to be computed. -/
def uncheckedRequest : Message where
  attributes := [.username (Bytes.ofString "user"), .messageIntegrity []]

/-- The packet of that request under the password `pw`, with the lower byte of its length field. -/
def uncheckedPacket (length : UInt8) : Bytes :=
  [0x00, 0x01, 0x00, length, 0x21, 0x12, 0xA4, 0x42, 0x00, 0x00, 0x00, 0x00, 0x00, 0x00, 0x00, 0x00,
    0x00, 0x00, 0x00, 0x00, 0x00, 0x06, 0x00, 0x04, 0x75, 0x73, 0x65, 0x72, 0x00, 0x08, 0x00, 0x14,
    0xBA, 0x51, 0x4F, 0x69, 0x59, 0xB6, 0x11, 0x37, 0x59, 0x1F, 0x73, 0xC9, 0x0E, 0xE5, 0xB9, 0x4E,
    0x77, 0x36, 0x4A, 0xB0]

/-- Under a password the request has a packet with the FINGERPRINT and one without, and otherwise
it has neither. -/
theorem encode_addFingerprint_uncheckedRequest :
    let password := Bytes.ofString "pw"
    uncheckedRequest.encode {} (some password) = .ok (uncheckedPacket 32) ∧
      uncheckedRequest.addFingerprint.encode {} (some password) =
        .ok (uncheckedPacket 40 ++ [0x80, 0x28, 0x00, 0x04, 0x1C, 0x84, 0xB4, 0x8E]) ∧
      uncheckedRequest.encode {} none = .error .missingPassword ∧
      uncheckedRequest.addFingerprint.encode {} none = .error .missingPassword := by
  intro password
  have hnone : ∀ a ∈ uncheckedRequest.attributes, a.kind ≠ .fingerprint := by decide
  have hencode : uncheckedRequest.encode {} (some password) = .ok (uncheckedPacket 32) := by
    decide +kernel
  have hrefused : uncheckedRequest.encode {} none = .error .missingPassword := by decide +kernel
  have hadded := ((encode_addFingerprint hnone {} (some password)).1 _ hencode).1 (by decide)
  refine ⟨hencode, hadded.1.trans (by decide +kernel), hrefused, ?_⟩
  exact (encode_addFingerprint hnone {} none).2 _ hrefused

end Message

end Stun
