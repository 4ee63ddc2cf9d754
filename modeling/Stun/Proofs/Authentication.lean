import Stun.Proofs.Reading

/-!
# What MESSAGE-INTEGRITY authenticates

The code of MESSAGE-INTEGRITY is taken of the bytes before it, with the length field of the header
set to a value that these bytes determine. Two packets that agree on these bytes, the length field
aside, are cut into the same records up to there whatever follows in each of them, and what follows
can add no attribute but FINGERPRINT. So two messages that are accepted under one password differ
in nothing else.

## Main definitions

* `AgreeBelow`: two packets agree up to an offset, the length field aside.

## Main results

* `Message.eq_of_agreeBelow`: messages that are accepted with the same bytes before
  MESSAGE-INTEGRITY.
-/

namespace Stun

variable {packet₁ packet₂ : Bytes} {offset : Nat}

/-- Two packets agree up to an offset, the two bytes of the length field aside. -/
def AgreeBelow (packet₁ packet₂ : Bytes) (offset : Nat) : Prop :=
  ∀ i < offset, i ≠ 2 → i ≠ 3 → packet₁[i]? = packet₂[i]?

/-- Once the length field is overwritten, packets that agree are the same up to the offset. -/
theorem AgreeBelow.withLength_take_eq (h : AgreeBelow packet₁ packet₂ offset) (length : Nat) :
    withLength (packet₁.take offset) length = withLength (packet₂.take offset) length := by
  have hfront : (packet₁.take offset).take 2 = (packet₂.take offset).take 2 := by
    ext1 i
    simp only [List.getElem?_take]
    grind [AgreeBelow]
  have hback : (packet₁.take offset).drop 4 = (packet₂.take offset).drop 4 := by
    ext1 i
    simp only [List.getElem?_drop, List.getElem?_take]
    grind [AgreeBelow]
  simp only [withLength, Bytes.patch, Header.lengthOffset, Bytes.length_ofUInt16, hfront, hback]

namespace Message

variable {profile : Profile} {password : Option Bytes} {m : Message} {front back : List Record}
  {r : Record}

private theorem IsReadFrom.exists_of_firstAt {records : List Record} {type : UInt16}
    (hm : m.IsReadFrom profile password records)
    (h : Record.FirstAt type (m.header.bytes ++ Record.concat records) offset) :
    ∃ front r back, records = front ++ r :: back ∧ r.type = type ∧
      (∀ s ∈ front, s.type ≠ type) ∧ offset = Header.size + (Record.concat front).length := by
  obtain ⟨front, r, back, hrecords, hfirst⟩ := h
  refine ⟨front, r, back, ?_, hfirst⟩
  rw [← hrecords, Record.ofPacket_bytes_append m.header hm.isRow]

/-- Up to FINGERPRINT, the attributes of a message end with the first MESSAGE-INTEGRITY. -/
theorem IsReadFrom.filter_attributes_eq
    (hm : m.IsReadFrom profile password (front ++ r :: back))
    (hfront : ∀ s ∈ front, s.type ≠ AttributeKind.messageIntegrity.code)
    (hr : r.type = AttributeKind.messageIntegrity.code) :
    m.attributes.filter (·.kind ≠ .fingerprint) =
      (Attribute.ofRecords m.header.id front).filter (·.kind ≠ .fingerprint) ++
        [.messageIntegrity r.value] := by
  rw [hm.attributes_eq, Attribute.keep_ofRecords_append_cons hfront hr, List.filter_append,
    List.filter_cons_of_pos rfl, List.filter_filter]
  simp

/-- Two messages that are accepted under one password and whose packets agree before the first
MESSAGE-INTEGRITY, the length field aside, are the same up to that field and FINGERPRINT. -/
theorem eq_of_agreeBelow {password : Bytes} {m₁ m₂ : Message}
    (h₁ : decode packet₁ profile (some password) = .ok m₁)
    (h₂ : decode packet₂ profile (some password) = .ok m₂)
    (hoffset₁ : Record.FirstAt AttributeKind.messageIntegrity.code packet₁ offset)
    (hoffset₂ : Record.FirstAt AttributeKind.messageIntegrity.code packet₂ offset)
    (hagree : AgreeBelow packet₁ packet₂ offset) :
    m₁.header.messageClass = m₂.header.messageClass ∧ m₁.header.method = m₂.header.method ∧
      m₁.header.id = m₂.header.id ∧
      m₁.attributes.filter (·.kind ≠ .fingerprint) =
        m₂.attributes.filter (·.kind ≠ .fingerprint) := by
  obtain ⟨records₁, rfl, hm₁⟩ := decode_eq_ok_iff.mp h₁
  obtain ⟨records₂, rfl, hm₂⟩ := decode_eq_ok_iff.mp h₂
  obtain ⟨front₁, r₁, back₁, rfl, hr₁, hfront₁, rfl⟩ := hm₁.exists_of_firstAt hoffset₁
  obtain ⟨front₂, r₂, back₂, rfl, hr₂, hfront₂, hoffset⟩ := hm₂.exists_of_firstAt hoffset₂
  have hsame := hagree.withLength_take_eq 0
  conv at hsame => rhs; rw [hoffset]
  rw [Header.take_bytes_append_concat, Header.take_bytes_append_concat, withLength_bytes_append,
    withLength_bytes_append] at hsame
  obtain ⟨hbytes, hconcat⟩ := List.append_inj hsame (by simp)
  have hheader : ({ m₁.header with length := UInt16.ofNat 0 } : Header) =
      { m₂.header with length := UInt16.ofNat 0 } :=
    Header.eq_of_bytes_eq hm₁.method_eq hm₂.method_eq hbytes
  obtain ⟨hclass, hmethod, hid, -⟩ := Header.mk.inj hheader
  obtain rfl : front₁ = front₂ := Record.IsRow.eq_of_concat_eq
    (Record.isRow_of_forall_isComplete hm₁.isRow.isComplete_of_append_cons)
    (Record.isRow_of_forall_isComplete hm₂.isRow.isComplete_of_append_cons) hconcat
  -- The two codes are computed from the same key and the same bytes.
  have hcode : r₁.value = r₂.value := by
    obtain ⟨key₁, code₁, hkey₁, -, hcode₁, hvalue₁⟩ := hm₁.fits front₁ r₁ back₁ rfl _
      (Attribute.ofRecord_eq_messageIntegrity_iff.mpr ⟨hr₁, rfl⟩) password rfl
    obtain ⟨key₂, code₂, hkey₂, -, hcode₂, hvalue₂⟩ := hm₂.fits front₁ r₂ back₂ rfl _
      (Attribute.ofRecord_eq_messageIntegrity_iff.mpr ⟨hr₂, rfl⟩) password rfl
    have hpacket : m₁.header.packet front₁ integrityRecordSize =
        m₂.header.packet front₁ integrityRecordSize := by
      have hpacket := congrArg (Header.packet · front₁ integrityRecordSize) hheader
      exact hpacket
    rw [hid, hkey₂] at hkey₁
    obtain rfl := Except.ok.inj hkey₁
    rw [hpacket, hcode₂] at hcode₁
    rw [← hvalue₁, ← hvalue₂, Option.some.inj hcode₁]
  refine ⟨hclass, hmethod, hid, ?_⟩
  rw [hm₁.filter_attributes_eq hfront₁ hr₁, hm₂.filter_attributes_eq hfront₂ hr₂, hid, hcode]

/-- The code of a request without attributes under the password `pw`. -/
def emptyRequestCode : Bytes :=
  [0x57, 0x94, 0x83, 0xF7, 0x89, 0x4D, 0x28, 0x94, 0x39, 0x47, 0x95, 0x0C, 0x33, 0x4A, 0xB7, 0x8F,
    0xA6, 0xC1, 0x80, 0xD9]

/-- The packet of such a request with its MESSAGE-INTEGRITY and some records behind it. -/
def sealedRequest (back : List Record) : Bytes :=
  { length := UInt16.ofNat (24 + (Record.concat back).length) : Header }.bytes ++
    Record.concat (⟨AttributeKind.messageIntegrity.code, emptyRequestCode, []⟩ :: back)

/-- A record behind MESSAGE-INTEGRITY leaves the request as it is. -/
theorem eq_of_agreeBelow_sealedRequest :
    let password := Bytes.ofString "pw"
    let mark : Record := ⟨AttributeKind.useCandidate.code, [], []⟩
    ∃ m₁ m₂, decode (sealedRequest []) {} (some password) = .ok m₁ ∧
      decode (sealedRequest [mark]) {} (some password) = .ok m₂ ∧
      Record.FirstAt AttributeKind.messageIntegrity.code (sealedRequest []) 20 ∧
      Record.FirstAt AttributeKind.messageIntegrity.code (sealedRequest [mark]) 20 ∧
      AgreeBelow (sealedRequest []) (sealedRequest [mark]) 20 ∧
      m₁.attributes.filter (·.kind ≠ .fingerprint) =
        m₂.attributes.filter (·.kind ≠ .fingerprint) := by
  intro password mark
  have h₁ : decode (sealedRequest []) {} (some password) =
      .ok ⟨{ length := 24 }, [.messageIntegrity emptyRequestCode]⟩ := by decide +kernel
  have h₂ : decode (sealedRequest [mark]) {} (some password) =
      .ok ⟨{ length := 28 }, [.messageIntegrity emptyRequestCode]⟩ := by decide +kernel
  have hrecords₁ : Record.ofPacket (sealedRequest []) =
      [⟨AttributeKind.messageIntegrity.code, emptyRequestCode, []⟩] := by decide +kernel
  have hrecords₂ : Record.ofPacket (sealedRequest [mark]) =
      [⟨AttributeKind.messageIntegrity.code, emptyRequestCode, []⟩, mark] := by decide +kernel
  have hoffset₁ : Record.FirstAt AttributeKind.messageIntegrity.code (sealedRequest []) 20 :=
    ⟨[], _, [], hrecords₁, rfl, nofun, rfl⟩
  have hoffset₂ : Record.FirstAt AttributeKind.messageIntegrity.code (sealedRequest [mark]) 20 :=
    ⟨[], _, [mark], hrecords₂, rfl, nofun, rfl⟩
  have hagree : AgreeBelow (sealedRequest []) (sealedRequest [mark]) 20 := by
    unfold AgreeBelow
    decide +kernel
  exact ⟨_, _, h₁, h₂, hoffset₁, hoffset₂, hagree,
    (eq_of_agreeBelow h₁ h₂ hoffset₁ hoffset₂ hagree).2.2.2⟩

end Message

end Stun
