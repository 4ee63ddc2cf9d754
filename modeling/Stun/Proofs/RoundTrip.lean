import Stun.Proofs.Reading
import Stun.Proofs.Writing

/-!
# Messages are read back

A message for binding with nothing but placeholders in place of its computed values is read back
from the packet that it is written as. While it is written the length field is zero or that of a
packet that ends with the next record, and while it is read the length field is that of the whole
packet; the computed values agree all the same, since a FINGERPRINT comes last and a
MESSAGE-INTEGRITY does not depend on the length field.

## Main definitions

* `Record.bytesBefore`: the bytes before a record of a packet.
* `Message.ReadsBackAs`: what an attribute of a message is read back as.

## Main results

* `Attribute.WrittenAs.fits`: each record of a packet that is written may stand where it stands.
* `Message.decode_of_encode`: a message is read back from its packet.
-/

namespace Stun

/-! ### Attributes -/

namespace Profile

variable {profile profile' : Profile} {text text' : Bytes}

/-- The key of a password depends on the prepared password and on the hash functions alone. -/
theorem key_congr (hsuite : profile'.suite = profile.suite)
    (hprep : Prep.apply profile'.prep text' = Prep.apply profile.prep text) (names : Names) :
    profile'.key names text' = profile.key names text := by
  simp only [key, longTermKey, shortTermKey, hsuite, hprep]

end Profile

namespace Names

@[simp] theorem observe_canonical (names : Names) (a : Attribute) :
    names.observe a.canonical = names.observe a := by
  cases a <;> simp only [Attribute.canonical, observe]

end Names

namespace Attribute

variable {profile : Profile} {password : Option Bytes} {h : Header} {count : Nat}
  {front attributes : List Attribute} {records : List Record} {a resolved : Attribute}

namespace WrittenAs

theorem map_kind_ofRecords (hwritten : WrittenAs profile password h count attributes records) :
    (ofRecords h.id records).map kind = attributes.map kind := by
  induction hwritten with
  | nil => rfl
  | snoc _ hresolved hr ih =>
    rw [ofRecords_append, ofRecords_cons_of_ok (ofRecord_toRecord hr), ofRecords_nil,
      List.map_append, List.map_append, ih, List.map_cons, kind_canonical,
      hresolved.kind_and_observe.1]
    rfl

theorem ofAttributes_ofRecords (hwritten : WrittenAs profile password h count attributes records) :
    Names.ofAttributes (ofRecords h.id records) = Names.ofAttributes attributes := by
  induction hwritten with
  | nil => rfl
  | snoc _ hresolved hr ih =>
    rw [ofRecords_append, ofRecords_cons_of_ok (ofRecord_toRecord hr), ofRecords_nil,
      Names.ofAttributes_append, Names.ofAttributes_append, ih, List.foldl_cons, List.foldl_cons,
      Names.observe_canonical, hresolved.kind_and_observe.2]

/-- Of attributes with at most one MESSAGE-INTEGRITY among them reading keeps all. -/
theorem keep_ofRecords (hwritten : WrittenAs profile password h count attributes records)
    (hsingle : attributes.countP (·.kind = .messageIntegrity) ≤ 1) :
    keep (ofRecords h.id records) = ofRecords h.id records := by
  induction hwritten with
  | nil => rfl
  | @snoc front records a resolved r hfront hresolved hr ih =>
    rw [List.countP_append] at hsingle
    have hcanonical : resolved.canonical.kind = a.kind := by
      rw [kind_canonical, hresolved.kind_and_observe.1]
    have hkept : ¬ ((ofRecords h.id records).any (·.kind = .messageIntegrity) &&
        resolved.canonical.kind ≠ .fingerprint) = true := by
      have hany : (ofRecords h.id records).any (·.kind = .messageIntegrity) =
          front.any (·.kind = .messageIntegrity) := by
        have hkinds := congrArg (List.any · (· = .messageIntegrity)) hfront.map_kind_ofRecords
        simpa only [List.any_map, Function.comp_def] using hkinds
      rw [hany, hcanonical, Bool.and_eq_true, List.any_eq_true, decide_eq_true_iff]
      rintro ⟨⟨b, hb, hkind⟩, hne⟩
      cases a with
      | fingerprint checksum => exact hne rfl
      | messageIntegrity hmac =>
        have hpos : 0 < front.countP (·.kind = .messageIntegrity) :=
          List.countP_pos_iff.mpr ⟨b, hb, hkind⟩
        have hlast : [messageIntegrity hmac].countP (·.kind = .messageIntegrity) = 1 := rfl
        omega
      | _ => exact hresolved.1 b hb (of_decide_eq_true hkind)
    rw [ofRecords_append, ofRecords_cons_of_ok (ofRecord_toRecord hr), ofRecords_nil, keep_concat,
      if_neg hkept, ih (by omega)]

/-- The names and the key under which a MESSAGE-INTEGRITY is written are those under which it is
read, and so each record of a packet that is written may stand where it stands. -/
theorem fits {profile' : Profile} {password' : Option Bytes} {before back : List Record}
    {r : Record} {b : Attribute}
    (hwritten : WrittenAs profile password h attributes.length attributes (before ++ r :: back))
    (hintegrity : ∀ hmac, messageIntegrity hmac ∈ attributes → hmac = [])
    (hfingerprint : ∀ checksum, fingerprint checksum ∈ attributes → checksum = 0)
    (hsuite : profile'.suite = profile.suite)
    (hpassword : password' = none ∨
      (∃ text text' prepared, password = some text ∧ password' = some text' ∧
        Prep.apply profile.prep text = .ok prepared ∧
        Prep.apply profile'.prep text' = .ok prepared) ∨
      ∀ a ∈ attributes, a.kind ≠ .messageIntegrity)
    (hb : ofRecord h.id r = .ok b) :
    b.Fits profile' password' { h with
      length := UInt16.ofNat ((Record.concat (before ++ r :: back)).length + 0) } before back := by
  obtain ⟨front, a, after, resolved, rfl, hfront, hresolved, hr⟩ := hwritten.exists_of_append_cons
  have hmem : a ∈ front ++ a :: after := by simp
  obtain rfl := Except.ok.inj (hb.symm.trans (ofRecord_toRecord hr))
  cases a with
  | fingerprint checksum =>
    obtain rfl := hfingerprint checksum hmem
    obtain ⟨hlast, -, rfl⟩ := hresolved
    have hsize : r.size = 8 :=
      Record.size_of_ofRecord_fingerprint (isComplete_of_toRecord hr).isFit hb
    have hback : back = [] := by
      have hlen := hwritten.length_eq
      simp only [List.length_append, List.length_cons] at hlen hlast
      exact List.eq_nil_of_length_eq_zero (by omega)
    subst hback
    refine ⟨rfl, congrArg Stun.fingerprint ?_⟩
    rw [Header.packet, Record.concat_append, List.length_append, Record.concat_cons,
      Record.concat_nil, List.append_nil, Record.length_bytes, hsize]
    rfl
  | messageIntegrity hmac =>
    obtain rfl := hintegrity hmac hmem
    obtain ⟨text, key, code, rfl, hkey, hle, hcode, rfl⟩ := hresolved
    intro text' hgiven
    rcases hpassword with hnone | ⟨_, _, prepared, ⟨⟩, hgiven', hprep, hprep'⟩ | hnone
    · exact absurd (hgiven.symm.trans hnone) (Option.some_ne_none text')
    · obtain rfl := Option.some.inj (hgiven.symm.trans hgiven')
      refine ⟨key, code, ?_, hle, hsuite ▸ hcode, rfl⟩
      rw [hfront.ofAttributes_ofRecords, ← hkey]
      exact Profile.key_congr hsuite (hprep'.trans hprep.symm) _
    · exact absurd rfl (hnone _ hmem)
  | _ =>
    obtain ⟨-, rfl⟩ := hresolved
    trivial

end WrittenAs

end Attribute

/-! ### Messages -/

/-- The bytes before a record of a packet, which is given by its index. -/
def Record.bytesBefore (packet : Bytes) (index : Nat) : Bytes :=
  packet.take (Header.size + (concat ((ofPacket packet).take index)).length)

namespace Message

/-- What an attribute of a message is read back as: a MESSAGE-INTEGRITY as the code of the bytes
before it, under the last names before it and with the length that ends with it; a FINGERPRINT as
the checksum of the bytes before it; any other attribute as itself. -/
def ReadsBackAs (m : Message) (profile : Profile) (password : Option Bytes) (packet : Bytes)
    (index : Nat) : Attribute → Attribute → Prop
  | .messageIntegrity _, b => ∃ text key code, password = some text ∧
    profile.key (Names.ofAttributes (m.attributes.take index)) text = .ok key ∧
    profile.suite.hmacSha1 key (withLength (Record.bytesBefore packet index)
      ((Record.bytesBefore packet index).length - Header.size + integrityRecordSize)) = some code ∧
    b = .messageIntegrity code.toList
  | .fingerprint _, b => b = .fingerprint (Stun.fingerprint (Record.bytesBefore packet index))
  | a, b => (a == b) = true

variable {m : Message} {profile profile' : Profile} {password password' : Option Bytes}
  {packet : Bytes}

private theorem bytesBefore_packet {h : Header} {before back : List Record} {r : Record}
    (hcomplete : ∀ s ∈ before ++ r :: back, s.IsComplete) :
    Record.bytesBefore (h.packet (before ++ r :: back) 0) before.length =
      { h with length := UInt16.ofNat ((Record.concat (before ++ r :: back)).length + 0) }.bytes ++
        Record.concat before := by
  have hrow := Record.isRow_of_forall_isComplete hcomplete
  rw [Record.bytesBefore, Header.packet, Record.ofPacket_bytes_append _ hrow, List.take_left' rfl,
    Header.take_bytes_append_concat]

private theorem readsBackAs_of_writtenAs {records : List Record} {index : Nat} {a b : Attribute}
    (hwritten : Attribute.WrittenAs profile password m.header m.attributes.length m.attributes
      records)
    (hintegrity : ∀ hmac, .messageIntegrity hmac ∈ m.attributes → hmac = [])
    (hfingerprint : ∀ checksum, .fingerprint checksum ∈ m.attributes → checksum = 0)
    (ha : m.attributes[index]? = some a)
    (hb : (Attribute.ofRecords m.header.id records)[index]? = some b) :
    m.ReadsBackAs profile password (m.header.packet records 0) index a b := by
  have hindex : index < records.length :=
    hwritten.length_eq ▸ (List.getElem?_eq_some_iff.mp ha).1
  obtain ⟨before, r, back, rfl, rfl⟩ :
      ∃ before r back, records = before ++ r :: back ∧ before.length = index :=
    ⟨records.take index, records[index], records.drop (index + 1), by simp,
      List.length_take_of_le hindex.le⟩
  obtain ⟨front, a', after, resolved, hattributes, hfront, hresolved, hr⟩ :=
    hwritten.exists_of_append_cons
  have hread := Attribute.ofRecord_toRecord hr
  have hlen : front.length = before.length := hfront.length_eq
  have hlenRecords : (Attribute.ofRecords m.header.id before).length = before.length := by
    have hkinds := congrArg List.length hfront.map_kind_ofRecords
    rw [List.length_map, List.length_map] at hkinds
    exact hkinds.trans hlen
  obtain rfl : a' = a := by
    rw [hattributes, ← hlen] at ha
    simpa using ha
  obtain rfl : resolved.canonical = b := by
    rw [Attribute.ofRecords_append, Attribute.ofRecords_cons_of_ok hread, ← hlenRecords] at hb
    simpa using hb
  have htake : m.attributes.take before.length = front := by
    rw [hattributes, ← hlen, List.take_left' rfl]
  have hmem : a' ∈ m.attributes := by simp [hattributes]
  have hbefore := bytesBefore_packet (h := m.header) hwritten.isComplete
  cases a' with
  | fingerprint checksum =>
    have hfits : resolved.canonical.Fits profile none _ before back :=
      hwritten.fits hintegrity hfingerprint rfl (.inl rfl) hread
    obtain rfl := hfingerprint checksum hmem
    obtain ⟨-, -, rfl⟩ := hresolved
    rw [ReadsBackAs, hbefore]
    exact congrArg Attribute.fingerprint hfits.2.symm
  | messageIntegrity hmac =>
    obtain rfl := hintegrity hmac hmem
    obtain ⟨text, key, code, hpassword, hkey, -, hcode, rfl⟩ := hresolved
    refine ⟨text, key, code, hpassword, htake ▸ hkey, ?_, rfl⟩
    rw [hbefore, withLength_bytes_append, List.length_append, Header.length_bytes,
      Nat.add_sub_cancel_left]
    exact hcode
  | _ =>
    obtain ⟨-, rfl⟩ := hresolved
    exact Attribute.beq_iff.mpr (Attribute.canonical_canonical _).symm

/-- A message is read back from its packet, up to the values that are filled in. -/
theorem decode_of_encode (hmethod : m.header.method = .binding)
    (hsingle : m.attributes.countP (·.kind = .messageIntegrity) ≤ 1)
    (hintegrity : ∀ hmac, .messageIntegrity hmac ∈ m.attributes → hmac = [])
    (hfingerprint : ∀ checksum, .fingerprint checksum ∈ m.attributes → checksum = 0)
    (hencode : m.encode profile password = .ok packet)
    (hsuite : profile'.suite = profile.suite)
    (hpassword : password' = none ∨
      (∃ text text' prepared, password = some text ∧ password' = some text' ∧
        Prep.apply profile.prep text = .ok prepared ∧
        Prep.apply profile'.prep text' = .ok prepared) ∨
      ∀ a ∈ m.attributes, a.kind ≠ .messageIntegrity) :
    ∃ m', decode packet profile' password' = .ok m' ∧
      m'.header.messageClass = m.header.messageClass ∧ m'.header.method = m.header.method ∧
      m'.header.id = m.header.id ∧ m'.header.length.toNat = packet.length - Header.size ∧
      m'.attributes.length = m.attributes.length ∧
      ∀ index a b, m.attributes[index]? = some a → m'.attributes[index]? = some b →
        m.ReadsBackAs profile password packet index a b := by
  obtain ⟨records, hwritten, hle, rfl⟩ := encode_eq_ok_iff.mp hencode
  have hread : IsReadFrom ⟨{ m.header with
      length := UInt16.ofNat ((Record.concat records).length + 0) },
      Attribute.ofRecords m.header.id records⟩ profile' password' records :=
    { method_eq := hmethod
      isRow := Record.isRow_of_forall_isComplete hwritten.isComplete
      attributes_eq := (hwritten.keep_ofRecords hsingle).symm
      isReadable := by
        intro r hr
        obtain ⟨before, back, rfl⟩ := List.append_of_mem hr
        obtain ⟨_, _, _, _, -, -, -, hr⟩ := hwritten.exists_of_append_cons
        exact Record.isReadable_of_ofRecord (Attribute.ofRecord_toRecord hr)
      fits := by
        rintro before r back rfl b hb
        exact hwritten.fits hintegrity hfingerprint hsuite hpassword hb }
  have hdecode : decode (m.header.packet records 0) profile' password' = .ok ⟨{ m.header with
      length := UInt16.ofNat ((Record.concat records).length + 0) },
      Attribute.ofRecords m.header.id records⟩ :=
    decode_eq_ok_iff.mpr ⟨records, by rw [Header.packet], hread⟩
  refine ⟨_, hdecode, rfl, rfl, rfl, ?_, ?_, ?_⟩
  · simp only [maxMessageLength] at hle
    simp only [Header.length_packet, UInt16.toNat_ofNat']
    omega
  · have hkinds := congrArg List.length hwritten.map_kind_ofRecords
    simpa only [List.length_map] using hkinds
  · intro index a b ha hb
    exact readsBackAs_of_writtenAs hwritten hintegrity hfingerprint ha hb

/-- A request with a username and both values to be computed. -/
def namedRequest : Message where
  attributes := [.username (Bytes.ofString "user"), .messageIntegrity [], .fingerprint 0]

/-- The packet of that request under the password `pw`. -/
def namedRequestPacket : Bytes :=
  [0x00, 0x01, 0x00, 0x28, 0x21, 0x12, 0xA4, 0x42, 0x00, 0x00, 0x00, 0x00, 0x00, 0x00, 0x00, 0x00,
    0x00, 0x00, 0x00, 0x00, 0x00, 0x06, 0x00, 0x04, 0x75, 0x73, 0x65, 0x72, 0x00, 0x08, 0x00, 0x14,
    0xBA, 0x51, 0x4F, 0x69, 0x59, 0xB6, 0x11, 0x37, 0x59, 0x1F, 0x73, 0xC9, 0x0E, 0xE5, 0xB9, 0x4E,
    0x77, 0x36, 0x4A, 0xB0, 0x80, 0x28, 0x00, 0x04, 0x1C, 0x84, 0xB4, 0x8E]

/-- The request is read back under the same password, prepared where it was not before. -/
theorem decode_of_encode_namedRequest :
    let password := Bytes.ofString "pw"
    namedRequest.encode {} (some password) = .ok namedRequestPacket ∧
      ∃ m', decode namedRequestPacket { prep := some Prep.ascii } (some password) = .ok m' ∧
        m'.attributes.length = 3 ∧
        ∀ index a b, namedRequest.attributes[index]? = some a → m'.attributes[index]? = some b →
          namedRequest.ReadsBackAs {} (some password) namedRequestPacket index a b := by
  intro password
  have hencode : namedRequest.encode {} (some password) = .ok namedRequestPacket := by
    decide +kernel
  obtain ⟨m', hdecode, -, -, -, -, hlength, hreads⟩ := decode_of_encode rfl (by decide)
    (by simp [namedRequest]) (by simp [namedRequest]) hencode
    (rfl : (⟨.standard, some Prep.ascii, 0⟩ : Profile).suite = _)
    (.inr <| .inl ⟨password, password, password, rfl, rfl, rfl, by decide +kernel⟩)
  exact ⟨hencode, m', hdecode, hlength, hreads⟩

end Message

end Stun
