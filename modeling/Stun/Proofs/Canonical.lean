import Stun.Proofs.Reading
import Stun.Proofs.Writing

/-!
# Packets that are written again

A message that was read is not always written as the packet it was read from: reading passes over
padding, over parts of values and over whole records, and it drops what follows a
MESSAGE-INTEGRITY. This file says which packets are written again byte for byte. A FINGERPRINT of
value zero is computed again when it is written, and since it was verified when it was read the
result is the same.

A USE-CANDIDATE is the one attribute whose value is passed over without a look at it, so the
packets that are written again must not give it one.

## Main definitions

* `Record.IsCanonicalRow`, `IsCanonical`: the form of the packets that are written again, their
  records by themselves first.

## Main results

* `Message.encode_of_decode_iff`: the packets that are written again.
* `Message.exists_canonical_encode_ne`: one of that form that is not, for the value of a
  USE-CANDIDATE.
-/

namespace Stun

/-! ### The form of packets -/

/-- The form of the records that are written again with a given padding byte: their kinds are
known, their padding is complete, their values are canonical, no MESSAGE-INTEGRITY is empty and
only FINGERPRINT follows the first one. -/
structure Record.IsCanonicalRow (padding : UInt8) (records : List Record) : Prop where
  type_known : ∀ r ∈ records, ∃ kind : AttributeKind, kind.code = r.type
  padding_eq : ∀ r ∈ records, r.padding = List.replicate (paddingLength r.value.length) padding
  value_canonical : ∀ r ∈ records, ∀ kind : AttributeKind, kind.code = r.type →
    kind.IsCanonicalValue r.value
  integrity_ne_nil : ∀ r ∈ records,
    r.type = AttributeKind.messageIntegrity.code → r.value ≠ []
  integrity_last : ∀ front r back, records = front ++ r :: back →
    r.type = AttributeKind.messageIntegrity.code →
    (∀ s ∈ front, s.type ≠ AttributeKind.messageIntegrity.code) →
    ∀ s ∈ back, s.type = AttributeKind.fingerprint.code

/-- The form of the packets that are written again with a given padding byte. -/
structure IsCanonical (packet : Bytes) (padding : UInt8) : Prop where
  length_eq : (packet.slice Header.lengthOffset 2).toUInt16.toNat = packet.length - Header.size
  isCanonicalRow : Record.IsCanonicalRow padding (Record.ofPacket packet)

namespace Message

variable {m : Message} {profile : Profile} {password : Option Bytes} {packet : Bytes}
  {records : List Record}

/-- Of a message that was read and is written as the same records again, each record is read as an
attribute that is written as this record. -/
private theorem exists_toRecord_of_writtenAs {padding : UInt8} {count : Nat} {r : Record}
    (hwritten : Attribute.WrittenAs { profile with padding } none m.header count m.attributes
      records) (hr : r ∈ records) :
    ∃ a, Attribute.ofRecord m.header.id r = .ok a ∧ a.toRecord m.header.id padding = .ok r ∧
      ∀ hmac, a = .messageIntegrity hmac → hmac ≠ [] := by
  obtain ⟨before, back, rfl⟩ := List.append_of_mem hr
  obtain ⟨front, a, after, resolved, -, -, hresolved, hrecord⟩ := hwritten.exists_of_append_cons
  refine ⟨resolved.canonical, Attribute.ofRecord_toRecord hrecord, ?_, ?_⟩
  · rw [Attribute.toRecord_canonical]
    exact hrecord
  · intro hmac hcanonical
    obtain rfl : resolved = .messageIntegrity hmac := by
      cases resolved with
      | messageIntegrity hmac' => exact hcanonical
      | _ => exact absurd hcanonical nofun
    exact hresolved.ne_nil_of_messageIntegrity

/-- Where the first MESSAGE-INTEGRITY of such a message stands, only FINGERPRINT follows: whatever
else follows would have been dropped, and a record would be missing. -/
private theorem type_of_mem_of_writtenAs {padding : UInt8} {count : Nat} {front back : List Record}
    {r s : Record} (hm : m.IsReadFrom profile none (front ++ r :: back))
    (hwritten : Attribute.WrittenAs { profile with padding } none m.header count m.attributes
      (front ++ r :: back))
    (hr : r.type = AttributeKind.messageIntegrity.code)
    (hfront : ∀ t ∈ front, t.type ≠ AttributeKind.messageIntegrity.code) (hs : s ∈ back) :
    s.type = AttributeKind.fingerprint.code := by
  have hlen := hwritten.length_eq
  rw [hm.attributes_eq, Attribute.keep_ofRecords_append_cons hfront hr] at hlen
  have hbefore : (Attribute.ofRecords m.header.id front).length ≤ front.length :=
    List.length_filterMap_le _ _
  have hbehind : (Attribute.ofRecords m.header.id back).length ≤ back.length :=
    List.length_filterMap_le _ _
  have hkept := List.length_filter_le (fun a : Attribute => decide (a.kind = .fingerprint))
    (Attribute.ofRecords m.header.id back)
  simp only [List.length_append, List.length_cons] at hlen
  have hall := List.length_filter_eq_length_iff.mp (Nat.le_antisymm hkept (by omega))
  obtain ⟨b, hb, -, -⟩ := exists_toRecord_of_writtenAs (r := s) hwritten (by simp [hs])
  have hmem : b ∈ Attribute.ofRecords m.header.id back :=
    List.mem_filterMap.mpr ⟨s, hs, by rw [hb]; rfl⟩
  have hkind : b.kind = .fingerprint := of_decide_eq_true (hall b hmem)
  rw [← (Attribute.ofRecord_eq_ok_iff.mp hb).1, hkind]

/-- A FINGERPRINT that was read from a packet of the right length is written as itself, and one of
value zero is computed again as zero. -/
private theorem resolvesTo_fingerprint {profile' : Profile} {password' : Option Bytes}
    {front back : List Record} {r : Record} {checksum : UInt32}
    (hm : m.IsReadFrom profile password (front ++ r :: back))
    (hlength : m.header.length.toNat = (Record.concat (front ++ r :: back)).length)
    (ha : Attribute.ofRecord m.header.id r = .ok (.fingerprint checksum)) :
    (Attribute.fingerprint checksum).ResolvesTo profile' password' m.header
      (front ++ r :: back).length (Attribute.ofRecords m.header.id front) front
      (.fingerprint checksum) := by
  obtain ⟨rfl, hchecksum⟩ := hm.fits front r back rfl _ ha
  have hsize : r.size = 8 :=
    Record.size_of_ofRecord_fingerprint (hm.isRow.isFit r (by simp)) ha
  rw [Record.concat_append, List.length_append, Record.concat_cons, Record.concat_nil,
    List.append_nil, Record.length_bytes, hsize] at hlength
  have hmax := m.header.length.toNat_lt
  have hheader : UInt16.ofNat ((Record.concat front).length + Draft.fingerprintRecordSize) =
      m.header.length := by
    rw [← UInt16.ofNat_toNat (x := m.header.length), hlength]
    rfl
  refine ⟨by simp, ?_⟩
  split
  · refine ⟨?_, congrArg _ ?_⟩
    · simp only [Draft.fingerprintRecordSize, maxMessageLength]
      omega
    · rw [Header.packet, hheader, hchecksum]
  · rfl

/-- A message that was read from a packet of the right length is written attribute by attribute as
itself. -/
private theorem resolvesTo_self {profile' : Profile} {password' : Option Bytes}
    {front back : List Record} {r : Record} {a : Attribute}
    (hm : m.IsReadFrom profile password (front ++ r :: back))
    (hlength : m.header.length.toNat = (Record.concat (front ++ r :: back)).length)
    (ha : Attribute.ofRecord m.header.id r = .ok a)
    (hnil : r.type = AttributeKind.messageIntegrity.code → r.value ≠ [])
    (hlast : (∃ s ∈ front, s.type = AttributeKind.messageIntegrity.code) →
      r.type = AttributeKind.fingerprint.code) :
    a.ResolvesTo profile' password' m.header (front ++ r :: back).length
      (Attribute.ofRecords m.header.id front) front a := by
  cases a with
  | fingerprint checksum => exact resolvesTo_fingerprint hm hlength ha
  | messageIntegrity hmac =>
    obtain ⟨htype, rfl⟩ := Attribute.ofRecord_eq_messageIntegrity_iff.mp ha
    simp only [Attribute.ResolvesTo, hnil htype, if_false]
  | _ =>
    refine ⟨fun b hb hkind => ?_, rfl⟩
    obtain ⟨s, hs, htype⟩ := Attribute.exists_type_eq_of_mem_ofRecords hb
    rw [hkind] at htype
    have hcode := (Attribute.ofRecord_eq_ok_iff.mp ha).1.trans (hlast ⟨s, hs, htype⟩)
    cases AttributeKind.code_inj.mp hcode

private theorem isCanonicalRow_of_writtenAs {padding : UInt8} {count : Nat}
    (hm : m.IsReadFrom profile none records)
    (hwritten : Attribute.WrittenAs { profile with padding } none m.header count m.attributes
      records) :
    Record.IsCanonicalRow padding records ∧
      ∀ r ∈ records, r.type = AttributeKind.useCandidate.code → r.value = [] := by
  have hread (r : Record) (hr : r ∈ records) : ∃ a, Attribute.ofRecord m.header.id r = .ok a ∧
      ((a.kind.IsCanonicalValue r.value ∧ (a.kind = .useCandidate → r.value = [])) ∧
        r.padding = List.replicate (Record.paddingLength r.value.length) padding) ∧
      ∀ hmac, a = .messageIntegrity hmac → hmac ≠ [] := by
    obtain ⟨a, ha, hwrite, hne⟩ := exists_toRecord_of_writtenAs hwritten hr
    exact ⟨a, ha, (Attribute.toRecord_eq_ok_iff_isCanonicalValue ha (hm.isRow.isFit r hr)).mp
      hwrite, hne⟩
  refine ⟨⟨?_, ?_, ?_, ?_, ?_⟩, ?_⟩
  · intro r hr
    obtain ⟨a, ha, -⟩ := hread r hr
    exact ⟨a.kind, (Attribute.ofRecord_eq_ok_iff.mp ha).1⟩
  · intro r hr
    obtain ⟨a, -, ⟨-, hpadding⟩, -⟩ := hread r hr
    exact hpadding
  · intro r hr kind hcode
    obtain ⟨a, ha, ⟨⟨hvalue, -⟩, -⟩, -⟩ := hread r hr
    rw [← (Attribute.ofRecord_eq_ok_iff.mp ha).1, AttributeKind.code_inj] at hcode
    exact hcode ▸ hvalue
  · intro r hr htype
    obtain ⟨a, ha, -, hne⟩ := hread r hr
    rw [Attribute.ofRecord_eq_messageIntegrity_iff.mpr ⟨htype, rfl⟩] at ha
    exact hne r.value (Except.ok.inj ha).symm
  · rintro front r back rfl htype hfront s hs
    exact type_of_mem_of_writtenAs hm hwritten htype hfront hs
  · intro r hr htype
    obtain ⟨a, ha, ⟨⟨-, hmark⟩, -⟩, -⟩ := hread r hr
    have hcode := (Attribute.ofRecord_eq_ok_iff.mp ha).1.trans htype
    exact hmark (AttributeKind.code_inj.mp hcode)

private theorem writtenAs_of_isCanonicalRow {padding : UInt8}
    (hm : m.IsReadFrom profile password records)
    (hlength : m.header.length.toNat = (Record.concat records).length)
    (hcanonical : Record.IsCanonicalRow padding records)
    (hmark : ∀ r ∈ records, r.type = AttributeKind.useCandidate.code → r.value = []) :
    Attribute.WrittenAs { profile with padding } none m.header records.length
      (Attribute.ofRecords m.header.id records) records := by
  suffices h : ∀ front back, records = front ++ back →
      Attribute.WrittenAs { profile with padding } none m.header records.length
        (Attribute.ofRecords m.header.id front) front from h records [] (List.append_nil _).symm
  intro front
  induction front using List.reverseRecOn with
  | nil => exact fun _ _ => .nil
  | append_singleton front r ih =>
    intro back hsplit
    rw [List.append_assoc, List.cons_append, List.nil_append] at hsplit
    subst hsplit
    have hr : r ∈ front ++ r :: back := by simp
    obtain ⟨kind, hkind⟩ := hcanonical.type_known r hr
    obtain ⟨a, ha⟩ := Record.exists_ofRecord (hm.isReadable r hr) hkind
    have hcode := (Attribute.ofRecord_eq_ok_iff.mp ha).1
    have hwrite : a.toRecord m.header.id padding = .ok r := by
      refine (Attribute.toRecord_eq_ok_iff_isCanonicalValue ha (hm.isRow.isFit r hr)).mpr
        ⟨⟨hcanonical.value_canonical r hr a.kind hcode, fun huse => ?_⟩,
          hcanonical.padding_eq r hr⟩
      exact hmark r hr (by rw [← hcode, huse])
    have hlast : (∃ s ∈ front, s.type = AttributeKind.messageIntegrity.code) →
        r.type = AttributeKind.fingerprint.code := by
      rintro ⟨s, hs, htype⟩
      obtain ⟨front', t, back', rfl, ht, hfirst⟩ := Record.exists_first_of_mem hs htype
      exact hcanonical.integrity_last front' t (back' ++ r :: back)
        (by rw [List.append_assoc, List.cons_append]) ht hfirst r (by simp)
    rw [Attribute.ofRecords_append, Attribute.ofRecords_cons_of_ok ha, Attribute.ofRecords_nil]
    exact .snoc (ih (r :: back) rfl)
      (resolvesTo_self hm hlength ha (hcanonical.integrity_ne_nil r hr) hlast) hwrite

private theorem keep_ofRecords_of_isCanonicalRow {id : TransactionId} {padding : UInt8}
    (hcanonical : Record.IsCanonicalRow padding records) :
    Attribute.keep (Attribute.ofRecords id records) = Attribute.ofRecords id records := by
  by_cases hsealed : ∃ r ∈ records, r.type = AttributeKind.messageIntegrity.code
  · obtain ⟨r, hr, htype⟩ := hsealed
    obtain ⟨front, s, back, rfl, hs, hfront⟩ := Record.exists_first_of_mem hr htype
    have hread : Attribute.ofRecord id s = .ok (.messageIntegrity s.value) :=
      Attribute.ofRecord_eq_messageIntegrity_iff.mpr ⟨hs, rfl⟩
    have hback : (Attribute.ofRecords id back).filter (·.kind = .fingerprint) =
        Attribute.ofRecords id back := by
      refine List.filter_eq_self.mpr fun b hb => decide_eq_true ?_
      obtain ⟨t, ht, hcode⟩ := Attribute.exists_type_eq_of_mem_ofRecords hb
      exact AttributeKind.code_inj.mp (hcode.symm.trans
        (hcanonical.integrity_last front s back rfl hs hfront t ht))
    rw [Attribute.keep_ofRecords_append_cons hfront hs, hback, Attribute.ofRecords_append,
      Attribute.ofRecords_cons_of_ok hread]
  · exact Attribute.keep_eq_self fun b hb => Attribute.kind_ne_of_mem_ofRecords hb
      fun r hr htype => hsealed ⟨r, hr, htype⟩

/-- A message that was read is written as the packet it was read from exactly when that packet has
the canonical form and gives no value to a USE-CANDIDATE. -/
theorem encode_of_decode_iff {padding : UInt8} (hdecode : decode packet profile none = .ok m) :
    m.encode { profile with padding } none = .ok packet ↔
      IsCanonical packet padding ∧ ∀ r ∈ Record.ofPacket packet,
        r.type = AttributeKind.useCandidate.code → r.value = [] := by
  obtain ⟨records, rfl, hm⟩ := decode_eq_ok_iff.mp hdecode
  have hrecords := Record.ofPacket_bytes_append m.header hm.isRow
  have hfield : (Bytes.slice (m.header.bytes ++ Record.concat records) Header.lengthOffset
      2).toUInt16.toNat = m.header.length.toNat := by
    have hwithin : Header.lengthOffset + 2 ≤ m.header.bytes.length := by
      simp [Header.lengthOffset, Header.size]
    rw [Bytes.slice_append_of_le hwithin, Header.slice_bytes_length, Bytes.toUInt16_ofUInt16]
  have hsize : (m.header.bytes ++ Record.concat records).length - Header.size =
      (Record.concat records).length := by simp
  constructor
  · intro hencode
    obtain ⟨records', hwritten, hle, hpacket⟩ := encode_eq_ok_iff.mp hencode
    obtain ⟨hbytes, hconcat⟩ := List.append_inj hpacket (by simp)
    obtain rfl : records = records' := hm.isRow.eq_of_concat_eq
      (Record.isRow_of_forall_isComplete hwritten.isComplete) hconcat
    have hheader : m.header = { m.header with
        length := UInt16.ofNat ((Record.concat records).length + 0) } :=
      Header.eq_of_bytes_eq hm.method_eq hm.method_eq hbytes
    have hlength : m.header.length.toNat = (Record.concat records).length := by
      rw [congrArg Header.length hheader, UInt16.toNat_ofNat']
      simp only [maxMessageLength] at hle
      omega
    obtain ⟨hcanonical, hmark⟩ := isCanonicalRow_of_writtenAs hm hwritten
    refine ⟨⟨?_, ?_⟩, ?_⟩
    · rw [hfield, hsize, hlength]
    · rw [hrecords]
      exact hcanonical
    · rw [hrecords]
      exact hmark
  · rintro ⟨⟨hlength, hcanonical⟩, hmark⟩
    rw [hfield, hsize] at hlength
    rw [hrecords] at hcanonical hmark
    have hmax := m.header.length.toNat_lt
    have hwritten := writtenAs_of_isCanonicalRow hm hlength hcanonical hmark
    have hcount := hwritten.length_eq
    rw [← keep_ofRecords_of_isCanonicalRow hcanonical, ← hm.attributes_eq] at hwritten hcount
    refine encode_eq_ok_iff.mpr ⟨records, hcount ▸ hwritten, ?_, ?_⟩
    · simp only [maxMessageLength]
      omega
    · rw [Header.packet, Nat.add_zero, ← hlength, UInt16.ofNat_toNat]

/-- A USE-CANDIDATE that has a value. -/
def markWithValue : Record :=
  ⟨AttributeKind.useCandidate.code, [0x00, 0x00, 0x00, 0x00], []⟩

/-- The value of a USE-CANDIDATE is lost when the message is written again. -/
theorem exists_canonical_encode_ne :
    ∃ packet m, decode packet {} none = .ok m ∧ IsCanonical packet 0 ∧
      m.encode {} none ≠ .ok packet := by
  have hrecords : Record.ofPacket ({ length := 8 : Header }.bytes ++
      Record.concat [markWithValue]) = [markWithValue] := by decide +kernel
  refine ⟨{ length := 8 : Header }.bytes ++ Record.concat [markWithValue],
    ⟨{ length := 8 }, [.useCandidate]⟩, by decide +kernel, ⟨by decide +kernel, ?_⟩,
    by decide +kernel⟩
  rw [hrecords]
  refine ⟨?_, ?_, ?_, ?_, ?_⟩
  · exact fun r hr => ⟨.useCandidate, by rw [List.mem_singleton.mp hr]; rfl⟩
  · exact fun r hr => by rw [List.mem_singleton.mp hr]; rfl
  · intro r hr kind hcode
    rw [List.mem_singleton.mp hr] at hcode
    obtain rfl : kind = .useCandidate := AttributeKind.code_inj.mp hcode
    trivial
  · exact fun r hr => by rw [List.mem_singleton.mp hr]; nofun
  · intro front r back hsplit htype
    obtain rfl : r = markWithValue :=
      List.mem_singleton.mp (hsplit ▸ List.mem_append_right front List.mem_cons_self)
    exact absurd htype nofun

/-- A request with the priority whose FINGERPRINT is zero. -/
def zeroFingerprintPacket : Bytes :=
  [0x00, 0x01, 0x00, 0x10, 0x21, 0x12, 0xA4, 0x42, 0x00, 0x00, 0x00, 0x00, 0x00, 0x00, 0x00, 0x00,
    0x00, 0x00, 0x00, 0x00, 0x00, 0x24, 0x00, 0x04, 0x5B, 0x21, 0xFD, 0x7E, 0x80, 0x28, 0x00, 0x04,
    0x00, 0x00, 0x00, 0x00]

/-- The zero is computed again. -/
theorem encode_of_decode_iff_zeroFingerprint :
    ∃ m, decode zeroFingerprintPacket {} none = .ok m ∧
      m.attributes = [.priority 0x5B21FD7E, .fingerprint 0] ∧
      m.encode {} none = .ok zeroFingerprintPacket ∧ IsCanonical zeroFingerprintPacket 0 := by
  have hdecode : decode zeroFingerprintPacket {} none =
      .ok ⟨{ length := 16 }, [.priority 0x5B21FD7E, .fingerprint 0]⟩ := by decide +kernel
  have hencode : Message.encode ⟨{ length := 16 }, [.priority 0x5B21FD7E, .fingerprint 0]⟩ {} none =
      .ok zeroFingerprintPacket := by decide +kernel
  exact ⟨_, hdecode, rfl, hencode, ((encode_of_decode_iff hdecode).mp hencode).1⟩

end Message

end Stun
