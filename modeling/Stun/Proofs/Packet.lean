import Mathlib.Tactic.IntervalCases
import Stun.Integrity
import Stun.Proofs.Framing

/-!
# Headers and what stands behind them

Twenty bytes are a header in one way only: the cookie, the method and the class leave no bit of
them open but those of the id and of the length. The code of MESSAGE-INTEGRITY is taken of a packet
whose length field is overwritten first, so it depends on the header up to its length and on the
records alone.

## Main definitions

* `Header.packet`: a header and some records, with the length that the packet has once some more
  bytes are added.

## Main results

* `Header.ofBytes_eq_ok_iff`: the bytes that a header is read from are those it is written as.
* `Header.exists_ofBytes_iff`: the bytes that a header is read from.
* `DigestSuite.integrity_eq_ok_iff`, `DigestSuite.integrity_eq_error_iff`: the code of a packet by
  its header and its records, and when there is none.
-/

namespace Stun

/-! ### The message type -/

private theorem and_methodMask_of_methodBits {type : UInt16} (h : methodBits type = .binding) :
    type &&& 0x3EEF = 1 := by
  rw [← UInt16.toBitVec_inj] at h ⊢
  have hbit (i : Nat) := congrArg (BitVec.getLsbD · i) h
  simp only [methodBits, Method.binding, UInt16.toBitVec_or, UInt16.toBitVec_and,
    UInt16.toBitVec_shiftRight, BitVec.getLsbD_or, BitVec.getLsbD_and] at hbit
  have hlow := And.intro (hbit 0) <| And.intro (hbit 1) <| And.intro (hbit 2) (hbit 3)
  have hmiddle := And.intro (hbit 4) <| And.intro (hbit 5) (hbit 6)
  have hhigh := And.intro (hbit 7) <| And.intro (hbit 8) <| And.intro (hbit 9) <|
    And.intro (hbit 10) (hbit 11)
  simp at hlow hmiddle hhigh
  apply BitVec.eq_of_getLsbD_eq
  intro i hi
  rw [UInt16.toBitVec_and, BitVec.getLsbD_and]
  interval_cases i <;> simp [*]

private theorem and_or_left (a b c : UInt16) : a &&& (b ||| c) = a &&& b ||| a &&& c :=
  UInt16.toBitVec_inj.mp BitVec.and_or_distrib_left

/-- A message type is determined by its method and its class. -/
private theorem eq_messageType {type : UInt16} {c : MessageClass}
    (hreserved : type &&& reservedMask = 0) (hmethod : methodBits type = .binding)
    (hclass : MessageClass.ofCode? (classBits type) = some c) : type = messageType .binding c := by
  have hfound := List.find?_some hclass
  have hcode : c.code = type &&& classMask := of_decide_eq_true hfound
  calc type = type &&& (reservedMask ||| 0x3EEF ||| classMask) := UInt16.and_neg_one.symm
    _ = type &&& reservedMask ||| type &&& 0x3EEF ||| type &&& classMask := by
      rw [and_or_left, and_or_left]
    _ = 0 ||| 1 ||| c.code := by rw [hreserved, and_methodMask_of_methodBits hmethod, hcode]
    _ = messageType .binding c := by cases c <;> rfl

/-! ### Headers -/

namespace Bytes

theorem length_slice {bytes : Bytes} {offset count : Nat} (h : offset + count ≤ bytes.length) :
    (bytes.slice offset count).length = count := by
  rw [slice, List.length_take, List.length_drop]
  omega

theorem slice_append_drop (bytes : Bytes) (offset count : Nat) :
    bytes.slice offset count ++ bytes.drop (offset + count) = bytes.drop offset := by
  rw [slice, ← List.drop_drop, List.take_append_drop]

theorem slice_append_of_le {front back : Bytes} {offset count : Nat}
    (h : offset + count ≤ front.length) :
    (front ++ back).slice offset count = front.slice offset count := by
  rw [slice, slice, List.drop_append_of_le_length (by omega),
    List.take_append_of_le_length (by rw [List.length_drop]; omega)]

end Bytes

namespace Header

variable {bytes : Bytes} {h h₁ h₂ : Header}

private theorem eq_slices (hlen : bytes.length = size) :
    bytes = bytes.slice 0 2 ++ bytes.slice 2 2 ++ bytes.slice 4 4 ++ bytes.slice 8 12 := by
  have hlast : bytes.drop 20 = [] := List.drop_eq_nil_of_le (Nat.le_of_eq hlen)
  calc
    bytes = bytes.slice 0 2 ++ (bytes.slice 2 2 ++ (bytes.slice 4 4 ++
        (bytes.slice 8 12 ++ bytes.drop 20))) := by
      rw [bytes.slice_append_drop 8 12, bytes.slice_append_drop 4 4, bytes.slice_append_drop 2 2,
        bytes.slice_append_drop 0 2, List.drop_zero]
    _ = _ := by simp only [hlast, List.append_nil, List.append_assoc]

/-- The bytes that a header is read from are those it is written as. -/
theorem ofBytes_eq_ok_iff (hlen : bytes.length = size) :
    ofBytes bytes = .ok h ↔ h.method = .binding ∧ bytes = h.bytes := by
  refine ⟨fun hread => ?_, fun ⟨hmethod, hbytes⟩ => hbytes ▸ ofBytes_bytes hmethod⟩
  have hslice {offset count : Nat} (hle : offset + count ≤ size) :
      (bytes.slice offset count).length = count := Bytes.length_slice (hlen ▸ hle)
  unfold ofBytes at hread
  simp only at hread
  split at hread
  · exact absurd hread nofun
  next hcookie =>
  split at hread
  · exact absurd hread nofun
  next htype =>
  split at hread
  · exact absurd hread nofun
  next c hclass =>
  simp only [not_or, ne_eq, Decidable.not_not] at hcookie htype
  obtain rfl := Except.ok.inj hread
  have hmessageType := eq_messageType htype.1 htype.2 hclass
  refine ⟨htype.2, ?_⟩
  conv_lhs => rw [eq_slices hlen]
  simp only [Header.bytes, htype.2]
  rw [← hmessageType, ← hcookie, lengthOffset, Bytes.ofUInt16_toUInt16 (hslice (by decide)),
    Bytes.ofUInt16_toUInt16 (hslice (by decide)), Bytes.ofUInt32_toUInt32 (hslice (by decide)),
    Bytes.toList_fit (hslice (by decide))]

theorem eq_of_bytes_eq (h₁method : h₁.method = .binding) (h₂method : h₂.method = .binding)
    (hbytes : h₁.bytes = h₂.bytes) : h₁ = h₂ := by
  have hread := ofBytes_bytes h₁method
  rw [hbytes, ofBytes_bytes h₂method] at hread
  exact (Except.ok.inj hread).symm

/-- The bytes that a header is read from: the magic cookie and the message type for binding of
some class say all. -/
theorem exists_ofBytes_iff (hlen : bytes.length = size) :
    (∃ h, ofBytes bytes = .ok h) ↔ bytes.slice 4 4 = Bytes.ofUInt32 magicCookie ∧
      ∃ c, bytes.slice 0 2 = Bytes.ofUInt16 (messageType .binding c) := by
  constructor
  · rintro ⟨h, hread⟩
    obtain ⟨hmethod, rfl⟩ := (ofBytes_eq_ok_iff hlen).mp hread
    exact ⟨h.slice_bytes_cookie, h.messageClass, by rw [h.slice_bytes_type, hmethod]⟩
  · rintro ⟨hcookie, c, htype⟩
    refine ⟨⟨c, .binding, Bytes.fit 12 (bytes.slice 8 12),
      (bytes.slice lengthOffset 2).toUInt16⟩, ?_⟩
    simp only [ofBytes, hcookie, htype, Bytes.toUInt16_ofUInt16, Bytes.toUInt32_ofUInt32]
    cases c <;> rfl

/-! ### Packets -/

/-- What stands before a record of a packet is the header and the records before it. -/
theorem take_bytes_append_concat (h : Header) (front back : List Record) :
    (h.bytes ++ Record.concat (front ++ back)).take (size + (Record.concat front).length) =
      h.bytes ++ Record.concat front := by
  rw [Record.concat_append, ← List.append_assoc]
  exact List.take_left' (by rw [List.length_append, length_bytes])

/-- A header and some records, with the length that the packet has once `more` bytes are added. -/
def packet (h : Header) (records : List Record) (more : Nat) : Bytes :=
  { h with length := UInt16.ofNat ((Record.concat records).length + more) }.bytes ++
    Record.concat records

@[simp] theorem length_packet (h : Header) (records : List Record) (more : Nat) :
    (h.packet records more).length = size + (Record.concat records).length := by
  rw [packet, List.length_append, length_bytes]

end Header

/-- The records of a packet are those that it was put together from. -/
theorem Record.ofPacket_bytes_append (h : Header) {records : List Record}
    (hrow : Record.IsRow records) :
    Record.ofPacket (h.bytes ++ Record.concat records) = records := by
  rw [Record.ofPacket, List.drop_left' h.length_bytes, Record.split_eq_iff.mpr ⟨rfl, hrow⟩]

theorem withLength_bytes_append (h : Header) (body : Bytes) (length : Nat) :
    withLength (h.bytes ++ body) length =
      { h with length := UInt16.ofNat length }.bytes ++ body := by
  simp only [withLength, Bytes.patch, Header.lengthOffset, Header.bytes, Bytes.length_ofUInt16,
    List.append_assoc]
  rw [List.take_left' (Bytes.length_ofUInt16 _), ← List.drop_drop,
    List.drop_left' (Bytes.length_ofUInt16 _), List.drop_left' (Bytes.length_ofUInt16 _)]

namespace Header

variable {h : Header} {records : List Record}

theorem withLength_packet (h : Header) (records : List Record) (first second : Nat) :
    withLength (h.packet records first) ((Record.concat records).length + second) =
      h.packet records second := by
  rw [packet, withLength_bytes_append, packet]

/-- The last record of a packet, and what stands before it. -/
theorem packet_concat (h : Header) (records : List Record) (r : Record) (more : Nat) :
    h.packet (records ++ [r]) more = h.packet records (r.size + more) ++ r.bytes := by
  simp only [packet, Record.concat_append, Record.concat_cons, Record.concat_nil, List.append_nil,
    List.length_append, Record.length_bytes, List.append_assoc, Nat.add_assoc]

theorem ofPacket_packet {more : Nat} (hcomplete : ∀ r ∈ records, r.IsComplete) :
    Record.ofPacket (h.packet records more) = records :=
  Record.ofPacket_bytes_append _ (Record.isRow_of_forall_isComplete hcomplete)

end Header

namespace DigestSuite

variable {suite : DigestSuite} {key : Bytes} {h : Header} {records : List Record}

private theorem integrity_bytes_append :
    suite.integrity key (h.bytes ++ Record.concat records) =
      if maxMessageLength < (Record.concat records).length + integrityRecordSize then
        .error .messageTooLarge
      else (suite.hmacSha1 key (h.packet records integrityRecordSize)).elim
        (.error .cryptoFailed) .ok := by
  have hlen : (h.bytes ++ Record.concat records).length - Header.size =
      (Record.concat records).length := by simp
  have hle : Header.size ≤ (h.bytes ++ Record.concat records).length := by simp
  rw [DigestSuite.integrity, if_neg (Nat.not_lt.mpr hle)]
  simp only [hlen, withLength_bytes_append]
  rw [← Header.packet]
  cases suite.hmacSha1 key (h.packet records integrityRecordSize) <;> rfl

/-- The code of a packet is taken of its header and its records with the length that the packet
has once the code is added, whatever its length field says. -/
theorem integrity_eq_ok_iff {code : Vector UInt8 20} :
    suite.integrity key (h.bytes ++ Record.concat records) = .ok code ↔
      (Record.concat records).length + integrityRecordSize ≤ maxMessageLength ∧
        suite.hmacSha1 key (h.packet records integrityRecordSize) = some code := by
  rw [integrity_bytes_append, ← Nat.not_lt]
  cases suite.hmacSha1 key (h.packet records integrityRecordSize) <;> grind

/-- There is no code of a packet that is too long, and none where the platform refuses it. -/
theorem integrity_eq_error_iff {e : Error} :
    suite.integrity key (h.bytes ++ Record.concat records) = .error e ↔
      (maxMessageLength < (Record.concat records).length + integrityRecordSize ∧
        e = .messageTooLarge) ∨
      ((Record.concat records).length + integrityRecordSize ≤ maxMessageLength ∧
        suite.hmacSha1 key (h.packet records integrityRecordSize) = none ∧ e = .cryptoFailed) := by
  rw [integrity_bytes_append, ← Nat.not_lt]
  cases suite.hmacSha1 key (h.packet records integrityRecordSize) <;> grind

end DigestSuite

end Stun
