import Stun.Message.Decode
import Stun.Proofs.Refusal

/-!
# The order of attributes

A reader drops what follows a MESSAGE-INTEGRITY, all but a FINGERPRINT, and it refuses a FINGERPRINT
that something follows. A message is written only where its FINGERPRINT comes last, and other
attributes behind a MESSAGE-INTEGRITY have it refused, with one exception: a further
MESSAGE-INTEGRITY is written, although a reader drops it.

## Main definitions

* `Attribute.IsOrdered`: the order of which a reader drops nothing.

## Main results

* `Message.order_of_encode`: the order of the attributes of a message that is written, and what a
  message with another order fails with.
* `Message.exists_encode_not_isOrdered`: a message that is written and of which a reader drops an
  attribute.
-/

namespace Stun

namespace Attribute

/-- Attributes of which a reader drops none: nothing follows a FINGERPRINT, and only FINGERPRINT
follows a MESSAGE-INTEGRITY. -/
def IsOrdered (attributes : List Attribute) : Prop :=
  attributes.Pairwise fun a b =>
    a.kind ≠ .fingerprint ∧ (a.kind = .messageIntegrity → b.kind = .fingerprint)

instance (attributes : List Attribute) : Decidable (IsOrdered attributes) :=
  inferInstanceAs (Decidable (List.Pairwise _ _))

namespace IsOrdered

variable {attributes front back : List Attribute} {a b : Attribute}

theorem of_append_cons (hordered : IsOrdered (front ++ a :: back)) (hb : b ∈ back) :
    a.kind ≠ .fingerprint ∧ (a.kind = .messageIntegrity → b.kind = .fingerprint) :=
  List.rel_of_pairwise_cons (List.pairwise_append.mp hordered).2.1 hb

theorem of_forall_append_cons (h : ∀ front a back, attributes = front ++ a :: back →
    ∀ b ∈ back, a.kind ≠ .fingerprint ∧ (a.kind = .messageIntegrity → b.kind = .fingerprint)) :
    IsOrdered attributes := by
  induction attributes with
  | nil => exact .nil
  | cons a attributes ih =>
    refine .cons (h [] a attributes rfl) (ih fun front b back hsplit => ?_)
    exact h (a :: front) b back (hsplit ▸ rfl)

/-- Attributes in this order have one MESSAGE-INTEGRITY at most. -/
theorem countP_le (hordered : IsOrdered attributes) :
    attributes.countP (·.kind = .messageIntegrity) ≤ 1 := by
  induction hordered with
  | nil => exact Nat.zero_le 1
  | @cons a attributes hback _ ih =>
    by_cases ha : a.kind = .messageIntegrity
    · have hnone : attributes.countP (·.kind = .messageIntegrity) = 0 := by
        refine List.countP_eq_zero.mpr fun b hb => ?_
        simp [(hback b hb).2 ha]
      rw [List.countP_cons_of_pos (by simpa using ha), hnone]
    · rwa [List.countP_cons_of_neg (by simpa using ha)]

end IsOrdered

namespace WrittenAs

variable {profile : Profile} {password : Option Bytes} {h : Header} {count : Nat}
  {front back : List Attribute} {records : List Record} {a : Attribute}

/-- A FINGERPRINT is written in the last place only. -/
theorem length_of_fingerprint
    (hwritten : WrittenAs profile password h count (front ++ a :: back) records)
    (ha : a.kind = .fingerprint) : front.length + 1 = count := by
  obtain ⟨before, -, -, resolved, -, hlen, -, hresolved, -⟩ := hwritten.exists_record_of_append_cons
  cases a with
  | fingerprint checksum => exact hlen ▸ hresolved.1
  | _ => exact absurd ha nofun

/-- Nothing but FINGERPRINT and MESSAGE-INTEGRITY is written behind a MESSAGE-INTEGRITY. -/
theorem kind_of_integrity
    (hwritten : WrittenAs profile password h count (front ++ a :: back) records)
    (hsealed : ∃ b ∈ front, b.kind = .messageIntegrity) :
    a.kind = .fingerprint ∨ a.kind = .messageIntegrity := by
  obtain ⟨b, hb, hkind⟩ := hsealed
  obtain ⟨before, -, -, resolved, -, -, -, hresolved, -⟩ := hwritten.exists_record_of_append_cons
  cases a with
  | fingerprint checksum => exact .inl rfl
  | messageIntegrity hmac => exact .inr rfl
  | _ => exact absurd hkind (hresolved.1 b hb)

end WrittenAs

end Attribute

/-! ### Messages -/

namespace Message

variable {m : Message} {profile : Profile} {password : Option Bytes} {packet : Bytes}

theorem back_eq_nil_of_encode (hencode : m.encode profile password = .ok packet)
    {front back : List Attribute} {a : Attribute} (hsplit : m.attributes = front ++ a :: back)
    (ha : a.kind = .fingerprint) : back = [] := by
  obtain ⟨records, hwritten, -, -⟩ := encode_eq_ok_iff.mp hencode
  rw [hsplit] at hwritten
  have hlen := hwritten.length_of_fingerprint ha
  rw [List.length_append, List.length_cons] at hlen
  exact List.eq_nil_of_length_eq_zero (by omega)

theorem kind_of_encode (hencode : m.encode profile password = .ok packet)
    {front back : List Attribute} {a b : Attribute} (hsplit : m.attributes = front ++ a :: back)
    (ha : a.kind = .messageIntegrity) (hb : b ∈ back) :
    b.kind = .fingerprint ∨ b.kind = .messageIntegrity := by
  obtain ⟨records, hwritten, -, -⟩ := encode_eq_ok_iff.mp hencode
  obtain ⟨between, after, rfl⟩ := List.append_of_mem hb
  rw [hsplit, ← List.cons_append, ← List.append_assoc] at hwritten
  exact hwritten.kind_of_integrity ⟨a, by simp, ha⟩

/-- A message that is written has the order of which a reader drops nothing, unless it has more
than one MESSAGE-INTEGRITY. -/
theorem isOrdered_iff_of_encode (hencode : m.encode profile password = .ok packet) :
    Attribute.IsOrdered m.attributes ↔
      m.attributes.countP (·.kind = .messageIntegrity) ≤ 1 := by
  refine ⟨fun hordered => hordered.countP_le, fun hsingle => ?_⟩
  refine .of_forall_append_cons fun front a back hsplit b hb => ⟨fun ha => ?_, fun ha => ?_⟩
  · exact List.not_mem_nil (back_eq_nil_of_encode hencode hsplit ha ▸ hb)
  · refine (kind_of_encode hencode hsplit ha hb).resolve_right fun hkind => ?_
    have hpos : 0 < back.countP (·.kind = .messageIntegrity) :=
      List.countP_pos_iff.mpr ⟨b, hb, decide_eq_true hkind⟩
    rw [hsplit, List.countP_append, List.countP_cons_of_pos (by simpa using ha)] at hsingle
    omega

/-- Another attribute behind a MESSAGE-INTEGRITY has a message refused, for itself unless the
attributes before it cannot be written. -/
theorem encode_of_behindCode {front back : List Attribute} {a : Attribute}
    (hsplit : m.attributes = front ++ a :: back)
    (hsealed : ∃ b ∈ front, b.kind = .messageIntegrity) (hchecksum : a.kind ≠ .fingerprint)
    (hcode : a.kind ≠ .messageIntegrity) :
    (∃ e, front.foldlM (Draft.write profile password m.attributes.length) m.draft = .error e ∧
        m.encode profile password = .error e) ∨
      (∃ d, front.foldlM (Draft.write profile password m.attributes.length) m.draft = .ok d) ∧
        m.encode profile password = .error .attributeAfterIntegrity := by
  cases hrun : front.foldlM (Draft.write profile password m.attributes.length) m.draft with
  | error e => exact .inl ⟨e, rfl, encode_of_foldlM_eq_error hsplit hrun⟩
  | ok d =>
    obtain ⟨records, -, hd⟩ := Draft.exists_writtenAs_of_foldlM m.holds_draft hrun
    have hwrite : d.write profile password m.attributes.length a =
        .error .attributeAfterIntegrity :=
      hd.write_eq_error_iff.mpr (.behindCode hchecksum hcode hsealed)
    have hfail := Error.foldlM_append_cons_eq_error hrun hwrite []
    have hfront : m.attributes = front ++ [a] ++ back := hsplit.trans (List.append_cons ..)
    exact .inr ⟨⟨d, rfl⟩, encode_of_foldlM_eq_error hfront hfail⟩

/-- In a message that is written a FINGERPRINT is the last attribute and only FINGERPRINT and
MESSAGE-INTEGRITY follow a MESSAGE-INTEGRITY, so a reader drops none of its attributes but a further
MESSAGE-INTEGRITY. Any other attribute behind a MESSAGE-INTEGRITY has a message refused. -/
theorem order_of_encode (m : Message) (profile : Profile) (password : Option Bytes) :
    (∀ packet, m.encode profile password = .ok packet →
      (∀ front a back, m.attributes = front ++ a :: back → a.kind = .fingerprint → back = []) ∧
      (∀ front a back, m.attributes = front ++ a :: back → a.kind = .messageIntegrity →
        ∀ b ∈ back, b.kind = .fingerprint ∨ b.kind = .messageIntegrity) ∧
      (Attribute.IsOrdered m.attributes ↔
        m.attributes.countP (·.kind = .messageIntegrity) ≤ 1)) ∧
    ∀ front a back, m.attributes = front ++ a :: back →
      (∃ b ∈ front, b.kind = .messageIntegrity) → a.kind ≠ .fingerprint →
      a.kind ≠ .messageIntegrity →
      (∃ e, front.foldlM (Draft.write profile password m.attributes.length) m.draft = .error e ∧
          m.encode profile password = .error e) ∨
        (∃ d, front.foldlM (Draft.write profile password m.attributes.length) m.draft = .ok d) ∧
          m.encode profile password = .error .attributeAfterIntegrity := by
  refine ⟨fun packet hencode => ⟨?_, ?_, isOrdered_iff_of_encode hencode⟩, ?_⟩
  · intro front a back hsplit ha
    exact back_eq_nil_of_encode hencode hsplit ha
  · intro front a back hsplit ha b hb
    exact kind_of_encode hencode hsplit ha hb
  · intro front a back hsplit hsealed hchecksum hcode
    exact encode_of_behindCode hsplit hsealed hchecksum hcode

/-- A request with a code and a checksum that are given. -/
def suppliedRequest : Message where
  attributes := [.messageIntegrity [0xAB], .fingerprint 5]

/-- The packet of that request. -/
def suppliedPacket : Bytes :=
  [0x00, 0x01, 0x00, 0x10, 0x21, 0x12, 0xA4, 0x42, 0x00, 0x00, 0x00, 0x00, 0x00, 0x00, 0x00, 0x00,
    0x00, 0x00, 0x00, 0x00, 0x00, 0x08, 0x00, 0x01, 0xAB, 0x00, 0x00, 0x00, 0x80, 0x28, 0x00, 0x04,
    0x00, 0x00, 0x00, 0x05]

/-- A request with a MESSAGE-INTEGRITY to be computed and a priority behind it. -/
def lateRequest : Message where
  attributes := [.messageIntegrity [], .priority 1]

/-- The first request is in order. The priority has the second one refused, but only once there is a
password. -/
theorem order_of_encode_lateRequest :
    suppliedRequest.encode {} none = .ok suppliedPacket ∧
      Attribute.IsOrdered suppliedRequest.attributes ∧
      lateRequest.encode {} none = .error .missingPassword ∧
      lateRequest.encode {} (some (Bytes.ofString "pw")) = .error .attributeAfterIntegrity := by
  have hsupplied : suppliedRequest.encode {} none = .ok suppliedPacket := by decide +kernel
  have hlate (password : Option Bytes) := (order_of_encode lateRequest {} password).2
    [.messageIntegrity []] (.priority 1) [] rfl ⟨_, List.mem_singleton_self _, rfl⟩ nofun nofun
  refine ⟨hsupplied, ?_, ?_, ?_⟩
  · exact ((order_of_encode suppliedRequest {} none).1 _ hsupplied).2.2.mpr (by decide)
  · obtain ⟨e, hrun, hfail⟩ | ⟨⟨d, hrun⟩, -⟩ := hlate none
    · obtain rfl : e = .missingPassword := (Except.error.inj hrun).symm
      exact hfail
    · exact absurd hrun nofun
  · have hok : ([.messageIntegrity []].foldlM (Draft.write {} (some (Bytes.ofString "pw"))
        lateRequest.attributes.length) lateRequest.draft).isOk = true := by decide +kernel
    obtain ⟨e, hrun, -⟩ | ⟨-, hfail⟩ := hlate (some (Bytes.ofString "pw"))
    · rw [hrun] at hok
      exact absurd hok nofun
    · exact hfail

/-- A request with two values to be computed of the same kind. -/
def twiceSealedRequest : Message where
  attributes := [.messageIntegrity [], .messageIntegrity []]

/-- The packet of that request under the password `pw`. -/
def twiceSealedPacket : Bytes :=
  [0x00, 0x01, 0x00, 0x30, 0x21, 0x12, 0xA4, 0x42, 0x00, 0x00, 0x00, 0x00, 0x00, 0x00, 0x00, 0x00,
    0x00, 0x00, 0x00, 0x00, 0x00, 0x08, 0x00, 0x14, 0x57, 0x94, 0x83, 0xF7, 0x89, 0x4D, 0x28, 0x94,
    0x39, 0x47, 0x95, 0x0C, 0x33, 0x4A, 0xB7, 0x8F, 0xA6, 0xC1, 0x80, 0xD9, 0x00, 0x08, 0x00, 0x14,
    0xBC, 0xC1, 0x88, 0x8F, 0x13, 0xA0, 0x33, 0x6E, 0x11, 0x7C, 0xA6, 0xED, 0x1C, 0x65, 0xC1, 0x43,
    0x90, 0x48, 0x2D, 0xAE]

/-- A second MESSAGE-INTEGRITY is written behind the first, and a reader drops it. -/
theorem exists_encode_not_isOrdered :
    ∃ m text packet m', encode m {} (some text) = .ok packet ∧
      ¬ Attribute.IsOrdered m.attributes ∧ decode packet {} none = .ok m' ∧
      m'.attributes.length < m.attributes.length := by
  refine ⟨twiceSealedRequest, Bytes.ofString "pw", twiceSealedPacket,
    ⟨{ length := 48 }, [.messageIntegrity ((twiceSealedPacket.drop 24).take 20)]⟩,
    by decide +kernel, by decide, by decide +kernel, by decide⟩

end Message

end Stun
