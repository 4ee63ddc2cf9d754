import Stun.Proofs.Reading

/-!
# The packets that are messages

Without a password a packet is read exactly when it follows a grammar: a header for binding, a row
of records up to its end, and in each record of a known kind a value of that kind. The one
condition that looks at more than one record is that on FINGERPRINT, which ends the packet and is
computed from all that stands before it. The length field of the header says nothing.

## Main definitions

* `IsMessage`: a packet follows the grammar, with given records.

## Main results

* `Message.exists_decode_iff`: the packets that are read.
-/

namespace Stun

/-- A packet follows the grammar of messages and holds the given records. -/
structure IsMessage (packet : Bytes) (records : List Record) : Prop where
  size_le : Header.size ≤ packet.length
  cookie_eq : packet.slice 4 4 = Bytes.ofUInt32 magicCookie
  type_eq : ∃ c, packet.slice 0 2 = Bytes.ofUInt16 (messageType .binding c)
  body_eq : packet.drop Header.size = Record.concat records
  isRow : Record.IsRow records
  type_known : ∀ r ∈ records, (∃ kind : AttributeKind, kind.code = r.type) ∨ 0x8000 ≤ r.type
  value_valid : ∀ r ∈ records, ∀ kind : AttributeKind, kind.code = r.type →
    kind.IsValidValue r.value
  fingerprint_last : ∀ front r back, records = front ++ r :: back →
    r.type = AttributeKind.fingerprint.code → back = [] ∧
      r.value = Bytes.ofUInt32 (Crc32.checksum
        (packet.take (Header.size + (Record.concat front).length)) ^^^ 0x5354554E)

namespace Message

variable {packet : Bytes} {profile : Profile}

/-- A packet is read without a password exactly when it follows the grammar of messages. -/
theorem exists_decode_iff :
    (∃ m, decode packet profile none = .ok m) ↔ ∃ records, IsMessage packet records := by
  have hfour : 4 + 4 ≤ Header.size := by decide
  have htwo : 0 + 2 ≤ Header.size := by decide
  constructor
  · rintro ⟨m, hdecode⟩
    obtain ⟨records, rfl, hm⟩ := decode_eq_ok_iff.mp hdecode
    have hsize := m.header.length_bytes
    refine ⟨records, ?_, ?_, ⟨m.header.messageClass, ?_⟩, ?_, hm.isRow, ?_, ?_, ?_⟩
    · simp
    · rw [Bytes.slice_append_of_le (hsize ▸ hfour), Header.slice_bytes_cookie]
    · rw [Bytes.slice_append_of_le (hsize ▸ htwo), Header.slice_bytes_type, hm.method_eq]
    · exact List.drop_left' hsize
    · exact fun r hr => (Record.isReadable_iff_forall_kind.mp (hm.isReadable r hr)).1
    · exact fun r hr => (Record.isReadable_iff_forall_kind.mp (hm.isReadable r hr)).2
    · rintro front r back rfl htype
      have hvalid := (Record.isReadable_iff_forall_kind.mp (hm.isReadable r (by simp))).2
        .fingerprint htype.symm
      have hvalue : r.value = Bytes.ofUInt32 r.value.toUInt32 :=
        (Bytes.ofUInt32_toUInt32 hvalid).symm
      obtain ⟨rfl, hchecksum⟩ := hm.fits front r back rfl _
        (Attribute.ofRecord_eq_fingerprint_iff.mpr ⟨htype, hvalue⟩)
      refine ⟨rfl, ?_⟩
      rw [hvalue, ← hchecksum, Header.take_bytes_append_concat]
      rfl
  · rintro ⟨records, h⟩
    have hlen : (packet.take Header.size).length = Header.size := List.length_take_of_le h.size_le
    have hslice {offset count : Nat} (hle : offset + count ≤ Header.size) :
        packet.slice offset count = Bytes.slice (packet.take Header.size) offset count := by
      rw [← Bytes.slice_append_of_le (hle.trans_eq hlen.symm), List.take_append_drop]
    obtain ⟨header, hread⟩ := (Header.exists_ofBytes_iff hlen).mpr
      ⟨hslice hfour ▸ h.cookie_eq, hslice htwo ▸ h.type_eq⟩
    obtain ⟨hmethod, hbytes⟩ := (Header.ofBytes_eq_ok_iff hlen).mp hread
    have hpacket : packet = header.bytes ++ Record.concat records := by
      rw [← hbytes, ← h.body_eq, List.take_append_drop]
    refine ⟨⟨header, Attribute.keep (Attribute.ofRecords header.id records)⟩,
      decode_eq_ok_iff.mpr ⟨records, hpacket, hmethod, h.isRow, rfl, ?_, ?_⟩⟩
    · intro r hr
      exact Record.isReadable_iff_forall_kind.mpr ⟨h.type_known r hr, h.value_valid r hr⟩
    · rintro front r back rfl a ha
      cases a with
      | fingerprint received =>
        obtain ⟨htype, hvalue⟩ := Attribute.ofRecord_eq_fingerprint_iff.mp ha
        obtain ⟨rfl, hchecksum⟩ := h.fingerprint_last front r back rfl htype
        refine ⟨rfl, ?_⟩
        rw [hpacket, Header.take_bytes_append_concat, hvalue] at hchecksum
        rw [← Bytes.toUInt32_ofUInt32 received, hchecksum, Bytes.toUInt32_ofUInt32]
        rfl
      | messageIntegrity received => exact nofun
      | _ => trivial

end Message

end Stun
