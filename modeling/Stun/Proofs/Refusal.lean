import Stun.Proofs.Writing

/-!
# When a message cannot be written

Writing stops at the first attribute that cannot be written behind those before it, and at the end
where the records turn out to be too long for the length field. This file says what one attribute
fails with, by the attributes before it and the records that they became, and with it what a
message fails with.

## Main definitions

* `Attribute.FailsWith`: why an attribute cannot be written behind some others.

## Main results

* `Draft.Holds.write_eq_error_iff`: what one more attribute fails with.
* `Message.encode_eq_error_iff`: what a message fails with.
-/

namespace Stun

/-! ### Attributes -/

namespace Attribute

/-- Why an attribute cannot be written behind some others, which are written as `records`, in a
message of `count` attributes. -/
inductive FailsWith (profile : Profile) (password : Option Bytes) (h : Header) (count : Nat)
    (front : List Attribute) (records : List Record) : Attribute → Error → Prop
  /-- A FINGERPRINT that is not the last attribute. -/
  | misplaced {checksum : UInt32} (hindex : records.length + 1 ≠ count) :
      FailsWith profile password h count front records (fingerprint checksum)
        (.fingerprintNotLast count records.length)
  /-- A FINGERPRINT to be computed for which the length field is too small. -/
  | noRoomForChecksum (hindex : records.length + 1 = count)
      (hroom : maxMessageLength < (Record.concat records).length + Draft.fingerprintRecordSize) :
      FailsWith profile password h count front records (fingerprint 0) .messageTooLarge
  /-- A MESSAGE-INTEGRITY to be computed without a password. -/
  | noPassword (hnone : password = none) :
      FailsWith profile password h count front records (messageIntegrity []) .missingPassword
  /-- A MESSAGE-INTEGRITY to be computed under a password that gives no key. -/
  | noKey {text : Bytes} {e : Error} (hgiven : password = some text)
      (hkey : profile.key (Names.ofAttributes front) text = .error e) :
      FailsWith profile password h count front records (messageIntegrity []) e
  /-- A MESSAGE-INTEGRITY to be computed for which the length field is too small. -/
  | noRoomForCode {text key : Bytes} (hgiven : password = some text)
      (hkey : profile.key (Names.ofAttributes front) text = .ok key)
      (hroom : maxMessageLength < (Record.concat records).length + integrityRecordSize) :
      FailsWith profile password h count front records (messageIntegrity []) .messageTooLarge
  /-- A MESSAGE-INTEGRITY that the platform does not compute. -/
  | noCode {text key : Bytes} (hgiven : password = some text)
      (hkey : profile.key (Names.ofAttributes front) text = .ok key)
      (hroom : (Record.concat records).length + integrityRecordSize ≤ maxMessageLength)
      (hcode : profile.suite.hmacSha1 key (h.packet records integrityRecordSize) = none) :
      FailsWith profile password h count front records (messageIntegrity []) .cryptoFailed
  /-- Another attribute behind a MESSAGE-INTEGRITY. -/
  | behindCode {a : Attribute} (hchecksum : a.kind ≠ .fingerprint)
      (hcode : a.kind ≠ .messageIntegrity) (hsealed : ∃ b ∈ front, b.kind = .messageIntegrity) :
      FailsWith profile password h count front records a .attributeAfterIntegrity
  /-- An attribute whose value cannot be written. -/
  | noRecord {a resolved : Attribute} {e : Error}
      (hresolved : a.ResolvesTo profile password h count front records resolved)
      (hrecord : resolved.toRecord h.id profile.padding = .error e) :
      FailsWith profile password h count front records a e

end Attribute

/-! ### Drafts -/

namespace Draft

variable {profile : Profile} {password : Option Bytes} {h : Header} {count : Nat} {d d' : Draft}
  {front : List Attribute} {records : List Record} {a : Attribute} {e : Error}

theorem Holds.setLength_eq_error_iff (hd : d.Holds h front records) {more : Nat} :
    d.setLength more = .error e ↔
      maxMessageLength < (Record.concat records).length + more ∧ e = .messageTooLarge := by
  rw [setLength, hd.records_eq, List.reverse_reverse]
  grind

theorem Holds.integrityValue_eq_error_iff (hd : d.Holds h front records) :
    d.integrityValue profile password = .error e ↔ (password = none ∧ e = .missingPassword) ∨
      ∃ text, password = some text ∧
        (profile.key (Names.ofAttributes front) text = .error e ∨
          ∃ key, profile.key (Names.ofAttributes front) text = .ok key ∧
            ((maxMessageLength < (Record.concat records).length + integrityRecordSize ∧
              e = .messageTooLarge) ∨
            ((Record.concat records).length + integrityRecordSize ≤ maxMessageLength ∧
              profile.suite.hmacSha1 key (h.packet records integrityRecordSize) = none ∧
              e = .cryptoFailed))) := by
  have hpacket : h.packet records integrityRecordSize =
      d.header.packet records integrityRecordSize := by
    rw [hd.header_eq]
    rfl
  unfold integrityValue
  simp only [hd.names_eq, packet, hd.records_eq, List.reverse_reverse, hpacket]
  cases password with
  | none => simp [eq_comm]
  | some text =>
    cases hkey : profile.key (Names.ofAttributes front) text with
    | error e' => simp [hkey]
    | ok key => simp [hkey, Error.map_eq_error_iff, DigestSuite.integrity_eq_error_iff]

private theorem Holds.failsWith_of_resolve (hd : d.Holds h front records)
    (hresolve : d.resolve profile password count a = .error e) :
    a.FailsWith profile password h count front records e := by
  cases a with
  | fingerprint checksum =>
    have hlen : d.records.length = records.length := by rw [hd.records_eq, List.length_reverse]
    simp only [resolve, hlen] at hresolve
    split at hresolve
    · next hindex =>
      obtain rfl := Except.error.inj hresolve
      exact .misplaced hindex
    next hindex =>
    split at hresolve
    · next hzero =>
      rw [fingerprintValue, Error.map_eq_error_iff, hd.setLength_eq_error_iff] at hresolve
      obtain ⟨hroom, rfl⟩ := hresolve
      exact hzero ▸ .noRoomForChecksum (Decidable.not_not.mp hindex) hroom
    · cases hresolve
  | messageIntegrity hmac =>
    simp only [resolve] at hresolve
    split at hresolve
    · next hempty =>
      subst hempty
      rw [Error.map_eq_error_iff, hd.integrityValue_eq_error_iff] at hresolve
      obtain ⟨hnone, rfl⟩ | ⟨text, hgiven, hkey | ⟨key, hkey, hcode⟩⟩ := hresolve
      · exact .noPassword hnone
      · exact .noKey hgiven hkey
      · obtain ⟨hroom, rfl⟩ | ⟨hroom, hcode, rfl⟩ := hcode
        · exact .noRoomForCode hgiven hkey hroom
        · exact .noCode hgiven hkey hroom hcode
    · cases hresolve
  | _ =>
    simp only [resolve] at hresolve
    split at hresolve
    · next hsealed =>
      obtain rfl := Except.error.inj hresolve
      refine .behindCode ?_ ?_ (hd.isSealed_iff.mp hsealed) <;> simp [Attribute.kind]
    · cases hresolve

private theorem write_of_resolve (hresolve : d.resolve profile password count a = .error e) :
    d.write profile password count a = .error e := by
  rw [write, hresolve]

private theorem Holds.write_of_failsWith (hd : d.Holds h front records)
    (hfails : a.FailsWith profile password h count front records e) :
    d.write profile password count a = .error e := by
  have hlen : d.records.length = records.length := by rw [hd.records_eq, List.length_reverse]
  have hvalue (hnone : d.integrityValue profile password = .error e) :
      d.write profile password count (.messageIntegrity []) = .error e := by
    refine write_of_resolve ?_
    simp only [resolve, if_true]
    exact Error.map_eq_error_iff.mpr hnone
  rw [hd.integrityValue_eq_error_iff] at hvalue
  cases hfails with
  | misplaced hindex =>
    refine write_of_resolve ?_
    simp only [resolve, hlen]
    exact if_pos hindex
  | noRoomForChecksum hindex hroom =>
    refine write_of_resolve ?_
    simp only [resolve, hlen, hindex, ne_eq, not_true, if_true, if_false, fingerprintValue]
    exact Error.map_eq_error_iff.mpr (hd.setLength_eq_error_iff.mpr ⟨hroom, rfl⟩)
  | noPassword hnone => exact hvalue (.inl ⟨hnone, rfl⟩)
  | noKey hgiven hkey => exact hvalue (.inr ⟨_, hgiven, .inl hkey⟩)
  | noRoomForCode hgiven hkey hroom =>
    exact hvalue (.inr ⟨_, hgiven, .inr ⟨_, hkey, .inl ⟨hroom, rfl⟩⟩⟩)
  | noCode hgiven hkey hroom hcode =>
    exact hvalue (.inr ⟨_, hgiven, .inr ⟨_, hkey, .inr ⟨hroom, hcode, rfl⟩⟩⟩)
  | behindCode hchecksum hother hsealed =>
    refine write_of_resolve ?_
    have hsealed := hd.isSealed_iff.mpr hsealed
    cases a with
    | fingerprint => exact absurd rfl hchecksum
    | messageIntegrity => exact absurd rfl hother
    | _ => exact if_pos hsealed
  | noRecord hresolved hrecord =>
    have hid : (d.announce a).header.id = h.id := by rw [hd.header_announce_eq a]
    rw [write, hd.resolve_eq_ok_iff.mpr ⟨hresolved, rfl⟩]
    simp only [hid]
    exact Error.map_eq_error_iff.mpr hrecord

/-- What one more attribute fails with. -/
theorem Holds.write_eq_error_iff (hd : d.Holds h front records) :
    d.write profile password count a = .error e ↔
      a.FailsWith profile password h count front records e := by
  refine ⟨fun hwrite => ?_, hd.write_of_failsWith⟩
  have hid : (d.announce a).header.id = h.id := by rw [hd.header_announce_eq a]
  unfold write at hwrite
  cases hresolve : d.resolve profile password count a with
  | error e' =>
    rw [hresolve] at hwrite
    obtain rfl := Except.error.inj hwrite
    exact hd.failsWith_of_resolve hresolve
  | ok result =>
    obtain ⟨d', resolved⟩ := result
    obtain ⟨hresolved, rfl⟩ := hd.resolve_eq_ok_iff.mp hresolve
    rw [hresolve] at hwrite
    simp only [Error.map_eq_error_iff, hid] at hwrite
    exact .noRecord hresolved hwrite

end Draft

/-! ### Messages -/

namespace Message

variable {m : Message} {profile : Profile} {password : Option Bytes} {e : Error}

/-- A message fails with what some of its attributes in front fail with. -/
theorem encode_of_foldlM_eq_error {front back : List Attribute}
    (hsplit : m.attributes = front ++ back)
    (hrun : front.foldlM (Draft.write profile password m.attributes.length) m.draft = .error e) :
    m.encode profile password = .error e := by
  have hall : m.attributes.foldlM (Draft.write profile password m.attributes.length) m.draft =
      .error e := by
    conv_lhs => rw [hsplit]
    rw [List.foldlM_append, ← hsplit, hrun]
    rfl
  rw [encode, hall]

/-- A message fails with what the first of its attributes fails with that cannot be written, and
if all can then because the records are too long for the length field. -/
theorem encode_eq_error_iff : m.encode profile password = .error e ↔
    (∃ front a back records, m.attributes = front ++ a :: back ∧
      Attribute.WrittenAs profile password m.header m.attributes.length front records ∧
      a.FailsWith profile password m.header m.attributes.length front records e) ∨
    ∃ records, Attribute.WrittenAs profile password m.header m.attributes.length m.attributes
        records ∧
      maxMessageLength < (Record.concat records).length ∧ e = .messageTooLarge := by
  unfold encode
  constructor
  · intro h
    split at h
    · next e' hrun =>
      obtain rfl := Except.error.inj h
      obtain ⟨front, a, back, d, hattributes, hfront, hwrite⟩ := Error.foldlM_eq_error_iff.mp hrun
      obtain ⟨records, hwritten, hd⟩ := Draft.exists_writtenAs_of_foldlM m.holds_draft hfront
      exact .inl ⟨front, a, back, records, hattributes, hwritten, hd.write_eq_error_iff.mp hwrite⟩
    · next d hrun =>
      obtain ⟨records, hwritten, hd⟩ := Draft.exists_writtenAs_of_foldlM m.holds_draft hrun
      have hlength := Error.map_eq_error_iff.mp h
      exact .inr ⟨records, hwritten, hd.setLength_eq_error_iff.mp hlength⟩
  · rintro (⟨front, a, back, records, hattributes, hwritten, hfails⟩ |
      ⟨records, hwritten, hroom, rfl⟩)
    · obtain ⟨d, hrun, hd⟩ := Draft.exists_foldlM_of_writtenAs m.holds_draft hwritten
      have hfail := Error.foldlM_append_cons_eq_error hrun (hd.write_eq_error_iff.mpr hfails) back
      rw [← hattributes] at hfail
      rw [hfail]
    · obtain ⟨d, hrun, hd⟩ := Draft.exists_foldlM_of_writtenAs m.holds_draft hwritten
      rw [hrun]
      exact Error.map_eq_error_iff.mpr (hd.setLength_eq_error_iff.mpr ⟨hroom, rfl⟩)

end Message

end Stun
