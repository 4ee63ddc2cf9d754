import Stun.Attribute.Record
import Stun.Proofs.AddressValue
import Stun.Proofs.Utf8

/-!
# Attributes are read back

Every kind reads the value that it writes, up to the bytes of an address that do not count. Of the
values that a kind reads only some are written again: reading passes over the first byte of an
address and the first two of an error code, over what stands behind an address and over the whole
of a USE-CANDIDATE, and it sets no limit to the length of a text.

## Main definitions

* `AttributeKind.IsValidValue`: the values that a kind reads.
* `AttributeKind.IsCanonicalValue`: the values that a kind writes.
* `Record.IsReadable`: the records that may stand in a packet.

## Main results

* `Attribute.ofValue_toValue`, `Attribute.ofRecord_toRecord`: what is written is read back.
* `Attribute.exists_ofValue_iff`, `Attribute.toValue_eq_ok_iff_isCanonicalValue`: which values are
  read, and which of these are written again.
-/

namespace Stun

/-! ### Parts of values -/

namespace ErrorCode

variable {error : ErrorCode} {value : Bytes}

theorem ofValue_eq_ok_iff :
    ofValue value = .ok error ↔ Utf8.isValid error.reason = true ∧
      ∃ first second, value = [first, second, error.hundreds, error.number] ++ error.reason := by
  obtain ⟨hundreds, number, reason⟩ := error
  match value with
  | first :: second :: hundreds' :: number' :: reason' =>
    have hlen : ¬ (first :: second :: hundreds' :: number' :: reason').length < 4 := by simp
    rw [ofValue, if_neg hlen]
    simp only [Attribute.readableText, List.drop_succ_cons, List.drop_zero, List.getD_cons_succ,
      List.getD_cons_zero, List.cons_append, List.nil_append, List.cons.injEq]
    grind [Except.map]
  | [] | [_] | [_, _] | [_, _, _] => simp [ofValue]

end ErrorCode

namespace Attribute

variable {id : TransactionId} {kind : AttributeKind} {value : Bytes} {a : Attribute}

theorem readableText_eq_ok_iff {text : Bytes} :
    readableText value = .ok text ↔ Utf8.isValid value = true ∧ text = value := by
  unfold readableText
  grind

end Attribute

/-! ### Values -/

namespace AttributeKind

/-- The values that a kind reads. -/
def IsValidValue (kind : AttributeKind) (value : Bytes) : Prop :=
  match kind with
  | mappedAddress | xorMappedAddress | alternateServer => TransportAddress.IsValidValue value
  | username | realm | nonce | software => ∃ chars, value = Utf8.encode chars
  | errorCode => 4 ≤ value.length ∧ ∃ chars, value.drop 4 = Utf8.encode chars
  | unknownAttributes => value.length % 2 = 0
  | fingerprint | priority => value.length = 4
  | iceControlled | iceControlling => value.length = 8
  | messageIntegrity | useCandidate => True

/-- The form of the values that a kind writes, among those that it reads. A USE-CANDIDATE is
written without a value, but which value it is read from is not looked at. -/
def IsCanonicalValue (kind : AttributeKind) (value : Bytes) : Prop :=
  match kind with
  | mappedAddress | xorMappedAddress | alternateServer => TransportAddress.IsCanonicalValue value
  | username => value.length ≤ 512
  | realm | nonce | software => value.length ≤ 763
  | errorCode => value.take 2 = [0, 0] ∧ (value.drop 4).length ≤ 763
  | messageIntegrity | unknownAttributes | fingerprint | priority | useCandidate | iceControlled
  | iceControlling => True

end AttributeKind

namespace Attribute

variable {id : TransactionId} {kind : AttributeKind} {value : Bytes} {a : Attribute}

/-- A value is refused for what is in it, and never for its type or for where it stands. -/
theorem cause_of_ofValue {e : Error} (h : ofValue id kind value = .error e) :
    e = .valueTooShort ∨ e = .invalidText ∨ (∃ family, e = .invalidFamily family) ∨
      ∃ limit length, e = .wrongSize limit length := by
  cases kind <;> simp only [ofValue] at h <;>
    grind [Except.map, TransportAddress.ofValue, readableText, numberOf, ErrorCode.ofValue]

/-- Only the type of a record makes it unknown, never its value. -/
theorem ofValue_ne_unknownAttribute (type : UInt16) :
    ofValue id kind value ≠ .error (.unknownAttribute type) := by
  intro h
  simpa using cause_of_ofValue h

/-- A value is there as a whole when it is looked at. -/
theorem ofValue_ne_attributeTruncated : ofValue id kind value ≠ .error .attributeTruncated := by
  intro h
  simpa using cause_of_ofValue h

theorem kind_of_ofValue (h : ofValue id kind value = .ok a) : a.kind = kind := by
  cases kind <;> simp only [ofValue, Error.map_eq_ok_iff] at h
  case messageIntegrity => exact Except.ok.inj h ▸ rfl
  case useCandidate => exact Except.ok.inj h ▸ rfl
  case unknownAttributes =>
    split at h
    · exact Except.ok.inj h ▸ rfl
    · exact absurd h nofun
  all_goals
    obtain ⟨_, -, rfl⟩ := h
    rfl

private theorem ofValue_address {address : TransportAddress}
    (h : address.toValue = .ok value) : TransportAddress.ofValue value = .ok address.canonical := by
  obtain ⟨-, hvalue⟩ := TransportAddress.toValue_eq_ok_iff.mp h
  rw [List.append_assoc, List.cons_append] at hvalue
  obtain ⟨exact, rfl⟩ : ∃ exact, value = 0 :: exact := ⟨_, hvalue⟩
  refine TransportAddress.ofValue_eq_ok_iff.mpr ⟨address.canonical_canonical, 0, exact, [], ?_, ?_⟩
  · rw [TransportAddress.toValue_canonical, h]
  · rw [List.append_nil]

/-- What a kind writes it reads back, up to the bytes of an address that do not count. -/
theorem ofValue_toValue (h : a.toValue id = .ok value) :
    ofValue id a.kind value = .ok a.canonical := by
  cases a with simp only [toValue, kind, canonical, ofValue] at h ⊢
  | mappedAddress address | alternateServer address =>
    rw [ofValue_address h]
    rfl
  | xorMappedAddress address =>
    rw [ofValue_address h, TransportAddress.canonical_masked]
    simp only [Except.map, TransportAddress.masked_masked]
  | username text | realm text | nonce text | software text =>
    obtain ⟨-, hvalid, rfl⟩ := writableText_eq_ok_iff.mp h
    rw [readableText_eq_ok_iff.mpr ⟨hvalid, rfl⟩]
    rfl
  | messageIntegrity hmac => rw [Except.ok.inj h]
  | fingerprint number | priority number =>
    obtain rfl := Except.ok.inj h
    rw [numberOf_eq_ok_iff.mpr ⟨Bytes.length_ofUInt32 number, rfl⟩]
    simp only [Except.map, Bytes.toUInt32_ofUInt32]
  | iceControlled number | iceControlling number =>
    obtain rfl := Except.ok.inj h
    rw [numberOf_eq_ok_iff.mpr ⟨Bytes.length_ofUInt64 number, rfl⟩]
    simp only [Except.map, Bytes.toUInt64_ofUInt64]
  | unknownAttributes types =>
    obtain rfl := Except.ok.inj h
    rw [if_pos (by simp), Bytes.toUInt16List_ofUInt16List]
  | errorCode error =>
    obtain ⟨reason, hreason, rfl⟩ := Error.map_eq_ok_iff.mp h
    obtain ⟨-, hvalid, rfl⟩ := writableText_eq_ok_iff.mp hreason
    rw [ErrorCode.ofValue_eq_ok_iff.mpr ⟨hvalid, 0, 0, rfl⟩]
    rfl

/-- The values that a kind reads. -/
theorem exists_ofValue_iff : (∃ a, ofValue id kind value = .ok a) ↔ kind.IsValidValue value := by
  have haddress {f : TransportAddress → Attribute} :
      (∃ a, (TransportAddress.ofValue value).map f = .ok a) ↔
        TransportAddress.IsValidValue value := by
    rw [← TransportAddress.exists_ofValue_iff]
    simp only [Error.map_eq_ok_iff]
    exact ⟨fun ⟨_, a, h, _⟩ => ⟨a, h⟩, fun ⟨a, h⟩ => ⟨f a, a, h, rfl⟩⟩
  have htext {f : Bytes → Attribute} : (∃ a, (readableText value).map f = .ok a) ↔
      ∃ chars, value = Utf8.encode chars := by
    rw [← Utf8.isValid_iff]
    simp only [Error.map_eq_ok_iff, readableText_eq_ok_iff]
    exact ⟨fun ⟨_, _, ⟨h, _⟩, _⟩ => h, fun h => ⟨_, _, ⟨h, rfl⟩, rfl⟩⟩
  have hnumber {f : Bytes → Attribute} {width : Nat} :
      (∃ a, (numberOf width value).map f = .ok a) ↔ value.length = width := by
    simp only [Error.map_eq_ok_iff, numberOf_eq_ok_iff]
    exact ⟨fun ⟨_, _, ⟨h, _⟩, _⟩ => h, fun h => ⟨_, _, ⟨h, rfl⟩, rfl⟩⟩
  cases kind <;> simp only [ofValue, AttributeKind.IsValidValue, haddress, htext, hnumber]
  case messageIntegrity => exact ⟨fun _ => trivial, fun _ => ⟨_, rfl⟩⟩
  case useCandidate => exact ⟨fun _ => trivial, fun _ => ⟨_, rfl⟩⟩
  case unknownAttributes =>
    split
    · next heven => exact ⟨fun _ => heven, fun _ => ⟨_, rfl⟩⟩
    · next hodd => exact ⟨nofun, fun h => absurd h hodd⟩
  case errorCode =>
    rw [← Utf8.isValid_iff, ErrorCode.ofValue]
    split
    · next hshort => exact ⟨nofun, fun h => absurd h.1 (Nat.not_le.mpr hshort)⟩
    · next hlong =>
      simp only [Error.map_eq_ok_iff, readableText_eq_ok_iff]
      constructor
      · rintro ⟨_, _, ⟨_, ⟨hvalid, -⟩, -⟩, -⟩
        exact ⟨Nat.not_lt.mp hlong, hvalid⟩
      · rintro ⟨-, hvalid⟩
        exact ⟨_, _, ⟨_, ⟨hvalid, rfl⟩, rfl⟩, rfl⟩

private theorem writableText_of_readableText {limit : Nat} {text : Bytes}
    (h : readableText value = .ok text) :
    writableText limit text = .ok value ↔ value.length ≤ limit := by
  obtain ⟨hvalid, rfl⟩ := readableText_eq_ok_iff.mp h
  rw [writableText_eq_ok_iff]
  exact ⟨fun hw => hw.1, fun hlen => ⟨hlen, hvalid, rfl⟩⟩

/-- Of the values that a kind reads, the canonical ones are written again, but for the values of
USE-CANDIDATE, of which only the empty one is. -/
theorem toValue_eq_ok_iff_isCanonicalValue (h : ofValue id kind value = .ok a) :
    a.toValue id = .ok value ↔
      kind.IsCanonicalValue value ∧ (kind = .useCandidate → value = []) := by
  cases kind <;> simp only [ofValue, Error.map_eq_ok_iff, reduceCtorEq, false_implies, and_true]
    at h ⊢
  case mappedAddress | alternateServer =>
    obtain ⟨address, haddress, rfl⟩ := h
    exact TransportAddress.toValue_eq_ok_iff_isCanonicalValue haddress
  case xorMappedAddress =>
    obtain ⟨address, haddress, rfl⟩ := h
    rw [toValue, TransportAddress.masked_masked]
    exact TransportAddress.toValue_eq_ok_iff_isCanonicalValue haddress
  case username | realm | nonce | software =>
    obtain ⟨text, htext, rfl⟩ := h
    exact writableText_of_readableText htext
  case messageIntegrity =>
    obtain rfl := Except.ok.inj h
    exact ⟨fun _ => trivial, fun _ => rfl⟩
  case useCandidate =>
    obtain rfl := Except.ok.inj h
    constructor
    · intro hv
      exact ⟨trivial, fun _ => (Except.ok.inj hv).symm⟩
    · rintro ⟨-, hempty⟩
      rw [hempty trivial]
      rfl
  case unknownAttributes =>
    split at h
    · next heven =>
      obtain rfl := Except.ok.inj h
      rw [toValue, Bytes.ofUInt16List_toUInt16List heven]
      exact ⟨fun _ => trivial, fun _ => rfl⟩
    · exact absurd h nofun
  case fingerprint | priority =>
    obtain ⟨bytes, hnumber, rfl⟩ := h
    obtain ⟨hlen, rfl⟩ := numberOf_eq_ok_iff.mp hnumber
    rw [toValue, Bytes.ofUInt32_toUInt32 hlen]
    exact ⟨fun _ => trivial, fun _ => rfl⟩
  case iceControlled | iceControlling =>
    obtain ⟨bytes, hnumber, rfl⟩ := h
    obtain ⟨hlen, rfl⟩ := numberOf_eq_ok_iff.mp hnumber
    rw [toValue, Bytes.ofUInt64_toUInt64 hlen]
    exact ⟨fun _ => trivial, fun _ => rfl⟩
  case errorCode =>
    obtain ⟨error, herror, rfl⟩ := h
    obtain ⟨hvalid, first, second, rfl⟩ := ErrorCode.ofValue_eq_ok_iff.mp herror
    rw [toValue, Error.map_eq_ok_iff]
    constructor
    · rintro ⟨reason, hreason, hvalue⟩
      obtain ⟨hlen, -, rfl⟩ := writableText_eq_ok_iff.mp hreason
      obtain ⟨rfl, rfl⟩ : first = 0 ∧ second = 0 := by simpa [eq_comm] using hvalue
      exact ⟨rfl, hlen⟩
    · rintro ⟨hzero, hlen⟩
      obtain ⟨rfl, rfl⟩ : first = 0 ∧ second = 0 := by simpa using hzero
      exact ⟨error.reason, writableText_eq_ok_iff.mpr ⟨hlen, hvalid, rfl⟩, rfl⟩

/-! ### Records -/

variable {padding : UInt8} {r : Record}

theorem toRecord_eq_ok_iff :
    a.toRecord id padding = .ok r ↔ a.toValue id = .ok r.value ∧
      r.value.length ≤ Record.maxLength ∧ r.type = a.kind.code ∧
      r.padding = List.replicate (Record.paddingLength r.value.length) padding := by
  obtain ⟨type, value, pad⟩ := r
  unfold toRecord
  cases hvalue : a.toValue id with
  | error e => exact ⟨nofun, nofun⟩
  | ok written => grind

theorem isComplete_of_toRecord (h : a.toRecord id padding = .ok r) : r.IsComplete := by
  obtain ⟨-, hlen, -, hpadding⟩ := toRecord_eq_ok_iff.mp h
  exact ⟨hlen, by rw [hpadding, List.length_replicate]⟩

theorem ofRecord_eq_ok_iff :
    ofRecord id r = .ok a ↔ a.kind.code = r.type ∧ ofValue id a.kind r.value = .ok a := by
  unfold ofRecord
  cases hkind : AttributeKind.ofCode? r.type with
  | none =>
    refine ⟨nofun, fun h => ?_⟩
    rw [← h.1, AttributeKind.ofCode?_code] at hkind
    exact absurd hkind nofun
  | some kind =>
    constructor
    · intro h
      obtain rfl := kind_of_ofValue h
      exact ⟨AttributeKind.code_of_ofCode? hkind, h⟩
    · rintro ⟨hcode, h⟩
      rw [← hcode, AttributeKind.ofCode?_code] at hkind
      obtain rfl := Option.some.inj hkind
      exact h

/-- A FINGERPRINT is read from four bytes. -/
theorem ofRecord_eq_fingerprint_iff {checksum : UInt32} :
    ofRecord id r = .ok (fingerprint checksum) ↔
      r.type = AttributeKind.fingerprint.code ∧ r.value = Bytes.ofUInt32 checksum := by
  rw [ofRecord_eq_ok_iff, eq_comm]
  refine and_congr_right fun _ => ?_
  simp only [kind, ofValue, Error.map_eq_ok_iff, numberOf_eq_ok_iff, fingerprint.injEq]
  constructor
  · rintro ⟨bytes, ⟨hlen, rfl⟩, rfl⟩
    exact (Bytes.ofUInt32_toUInt32 hlen).symm
  · intro hvalue
    exact ⟨r.value, ⟨by rw [hvalue, Bytes.length_ofUInt32], rfl⟩,
      by rw [hvalue, Bytes.toUInt32_ofUInt32]⟩

/-- A MESSAGE-INTEGRITY is read from any bytes. -/
theorem ofRecord_eq_messageIntegrity_iff {hmac : Bytes} :
    ofRecord id r = .ok (messageIntegrity hmac) ↔
      r.type = AttributeKind.messageIntegrity.code ∧ r.value = hmac := by
  rw [ofRecord_eq_ok_iff, eq_comm]
  simp only [kind, ofValue, Except.ok.injEq, messageIntegrity.injEq]

/-- What an attribute is written as is read back, up to the bytes of an address that do not
count. -/
theorem ofRecord_toRecord (h : a.toRecord id padding = .ok r) :
    ofRecord id r = .ok a.canonical := by
  obtain ⟨hvalue, -, htype, -⟩ := toRecord_eq_ok_iff.mp h
  rw [ofRecord_eq_ok_iff, kind_canonical]
  exact ⟨htype.symm, ofValue_toValue hvalue⟩

/-- Of the records that are read, those are written again that hold a canonical value and are
filled up with the right byte. -/
theorem toRecord_eq_ok_iff_isCanonicalValue (h : ofRecord id r = .ok a) (hr : r.IsFit) :
    a.toRecord id padding = .ok r ↔
      (a.kind.IsCanonicalValue r.value ∧ (a.kind = .useCandidate → r.value = [])) ∧
        r.padding = List.replicate (Record.paddingLength r.value.length) padding := by
  obtain ⟨hcode, hvalue⟩ := ofRecord_eq_ok_iff.mp h
  rw [toRecord_eq_ok_iff, toValue_eq_ok_iff_isCanonicalValue hvalue]
  exact ⟨fun ⟨hc, _, _, hp⟩ => ⟨hc, hp⟩, fun ⟨hc, hp⟩ => ⟨hc, hr.1, hcode.symm, hp⟩⟩

@[simp] theorem toRecord_canonical (id : TransactionId) (padding : UInt8) (a : Attribute) :
    a.canonical.toRecord id padding = a.toRecord id padding := by
  have hvalue : a.canonical.toValue id = a.toValue id := by
    cases a <;>
      simp only [canonical, toValue, TransportAddress.toValue_canonical,
        ← TransportAddress.canonical_masked]
  rw [toRecord, toRecord, hvalue, kind_canonical]

end Attribute

/-! ### Records that may stand in a packet -/

namespace Record

variable {id : TransactionId} {r : Record}

/-- The records that may stand in a packet: those with a value that their kind reads, and those of
an unknown kind that may be passed over. -/
def IsReadable (r : Record) : Prop :=
  match AttributeKind.ofCode? r.type with
  | some kind => kind.IsValidValue r.value
  | none => 0x8000 ≤ r.type

theorem isReadable_iff_forall_kind : r.IsReadable ↔
    ((∃ kind : AttributeKind, kind.code = r.type) ∨ 0x8000 ≤ r.type) ∧
      ∀ kind : AttributeKind, kind.code = r.type → kind.IsValidValue r.value := by
  unfold IsReadable
  cases hkind : AttributeKind.ofCode? r.type with
  | some kind =>
    have hcode := AttributeKind.code_of_ofCode? hkind
    constructor
    · refine fun hvalid => ⟨.inl ⟨kind, hcode⟩, fun other hother => ?_⟩
      rw [← hother, AttributeKind.ofCode?_code] at hkind
      exact Option.some.inj hkind ▸ hvalid
    · exact fun h => h.2 kind hcode
  | none =>
    have hunknown (kind : AttributeKind) : kind.code ≠ r.type := by
      rintro hcode
      rw [← hcode, AttributeKind.ofCode?_code] at hkind
      exact absurd hkind nofun
    simp [hunknown]

theorem isReadable_of_ofRecord {a : Attribute} (h : Attribute.ofRecord id r = .ok a) :
    r.IsReadable := by
  obtain ⟨hcode, hvalue⟩ := Attribute.ofRecord_eq_ok_iff.mp h
  rw [IsReadable, ← hcode, AttributeKind.ofCode?_code]
  exact Attribute.exists_ofValue_iff.mp ⟨a, hvalue⟩

/-- A record that may stand in a packet is read or passed over. -/
theorem isReadable_iff : r.IsReadable ↔ (∃ a, Attribute.ofRecord id r = .ok a) ∨
    (Attribute.ofRecord id r = .error (.unknownAttribute r.type) ∧ ¬ mustBeUnderstood r.type) := by
  unfold IsReadable Attribute.ofRecord mustBeUnderstood
  cases AttributeKind.ofCode? r.type with
  | none => simp
  | some kind =>
    simp only [Attribute.ofValue_ne_unknownAttribute, false_and, or_false]
    exact Attribute.exists_ofValue_iff.symm

/-- A record of a known kind that may stand in a packet is read. -/
theorem exists_ofRecord {kind : AttributeKind} (h : r.IsReadable) (hkind : kind.code = r.type) :
    ∃ a, Attribute.ofRecord id r = .ok a := by
  obtain ⟨a, ha⟩ := Attribute.exists_ofValue_iff.mpr
    ((isReadable_iff_forall_kind.mp h).2 kind hkind)
  obtain rfl := Attribute.kind_of_ofValue ha
  exact ⟨a, Attribute.ofRecord_eq_ok_iff.mpr ⟨hkind, ha⟩⟩

/-- A FINGERPRINT that may stand in a packet is read as a number. -/
theorem exists_ofRecord_fingerprint (id : TransactionId) (h : r.IsReadable)
    (htype : r.type = AttributeKind.fingerprint.code) :
    ∃ checksum, Attribute.ofRecord id r = .ok (.fingerprint checksum) := by
  have hvalid := (isReadable_iff_forall_kind.mp h).2 .fingerprint htype.symm
  exact ⟨r.value.toUInt32, Attribute.ofRecord_eq_fingerprint_iff.mpr
    ⟨htype, (Bytes.ofUInt32_toUInt32 hvalid).symm⟩⟩

/-- A FINGERPRINT takes eight bytes. -/
theorem size_of_ofRecord_fingerprint {checksum : UInt32} (hr : r.IsFit)
    (h : Attribute.ofRecord id r = .ok (.fingerprint checksum)) : r.size = 8 := by
  have hlen : r.value.length = 4 := by
    rw [(Attribute.ofRecord_eq_fingerprint_iff.mp h).2, Bytes.length_ofUInt32]
  have hpadding := hr.2
  rw [hlen, show paddingLength 4 = 0 from rfl] at hpadding
  rw [size, headSize, hlen]
  omega

end Record

end Stun
