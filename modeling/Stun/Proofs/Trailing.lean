import Stun.Proofs.Authentication
import Stun.Proofs.Password

/-!
# What follows MESSAGE-INTEGRITY

Records behind a MESSAGE-INTEGRITY add nothing to a message but a FINGERPRINT. Still they are looked
at: another MESSAGE-INTEGRITY among them is compared with the code of all that stands before it, so
under a password it can have the packet refused. Nothing else behind a MESSAGE-INTEGRITY can.

## Main definitions

* `Record.IsTrailer`: the records that can be added behind a packet.

## Main results

* `Message.decode_none_append_concat`: without a password what follows does not matter.
* `Message.decode_append_concat_iff`: under a password only a further MESSAGE-INTEGRITY does.
* `Message.exists_decode_append_ne`: and one without its code has the packet refused.
-/

namespace Stun

/-! ### Packets with more behind them -/

namespace Record

variable {front records back : List Record} {r : Record} {packet : Bytes}

/-- A record that can be added behind any others: it lacks no padding, it is read or passed over,
and it is no FINGERPRINT. -/
structure IsTrailer (r : Record) : Prop where
  isComplete : r.IsComplete
  isReadable : r.IsReadable
  type_ne : r.type ≠ AttributeKind.fingerprint.code

/-- A row whose bytes fill words of four lacks no padding. -/
theorem IsRow.isComplete_of_length_mod (hrow : IsRow records)
    (hlen : (concat records).length % 4 = 0) : ∀ r ∈ records, r.IsComplete := by
  induction hrow with
  | nil => exact nofun
  | @last r hfit =>
    intro s hs
    obtain rfl := List.mem_singleton.mp hs
    refine ⟨hfit.1, ?_⟩
    have hpadding := hfit.2
    have hword := add_paddingLength_mod s.value.length
    have hlt := paddingLength_lt s.value.length
    simp only [concat_cons, concat_nil, List.append_nil, length_bytes, size, headSize] at hlen
    omega
  | @cons r records hcomplete _ ih =>
    have hword := add_paddingLength_mod r.value.length
    have hpadding := hcomplete.2
    simp only [concat_cons, List.length_append, length_bytes, size, headSize] at hlen
    intro s hs
    rcases List.mem_cons.mp hs with rfl | hs
    · exact hcomplete
    · exact ih (by omega) s hs

/-- A record of a packet starts inside it. -/
theorem start_le_length_of_ofPacket (h : ofPacket packet = front ++ r :: back) :
    start front ≤ packet.length := by
  have hbytes := congrArg List.length (concat_split (packet.drop Header.size))
  rw [← ofPacket, h] at hbytes
  have hpos := r.size_pos
  simp only [concat_append, concat_cons, List.length_append, length_bytes, List.length_drop]
    at hbytes
  rw [start]
  omega

/-- What a code covers does not depend on what follows. -/
theorem covered_append {more : Bytes} (h : start front ≤ packet.length) :
    covered (packet ++ more) front = covered packet front := by
  rw [covered, List.take_append_of_le_length h, covered]

theorem authenticates_append_iff {profile : Profile} {text more : Bytes}
    (h : start front ≤ packet.length) :
    r.Authenticates profile text (packet ++ more) front ↔
      r.Authenticates profile text packet front := by
  rw [Authenticates, covered_append h, Authenticates]

end Record

/-! ### Messages -/

namespace Attribute

/-- Reading keeps every FINGERPRINT. -/
theorem mem_keep {a : Attribute} {attributes : List Attribute} (h : a ∈ attributes)
    (ha : a.kind = .fingerprint) : a ∈ keep attributes := by
  induction attributes with
  | nil => exact h
  | cons b attributes ih =>
    rw [keep]
    split
    · rcases List.mem_cons.mp h with rfl | h
      · exact List.mem_cons_self
      · exact List.mem_cons_of_mem b (List.mem_filter.mpr ⟨h, decide_eq_true ha⟩)
    · rcases List.mem_cons.mp h with rfl | h
      · exact List.mem_cons_self
      · exact List.mem_cons_of_mem b (ih h)

/-- Behind a MESSAGE-INTEGRITY only a FINGERPRINT is kept. -/
theorem keep_ofRecords_append {id : TransactionId} {records back : List Record}
    (hsealed : ∃ r ∈ records, r.type = AttributeKind.messageIntegrity.code)
    (hback : ∀ r ∈ back, r.type ≠ AttributeKind.fingerprint.code) :
    keep (ofRecords id (records ++ back)) = keep (ofRecords id records) := by
  obtain ⟨r, hr, htype⟩ := hsealed
  obtain ⟨front, r, rest, rfl, htype, hfirst⟩ := Record.exists_first_of_mem hr htype
  have hnone : (ofRecords id back).filter (·.kind = .fingerprint) = [] := by
    refine List.filter_eq_nil_iff.mpr fun a ha => ?_
    simpa using kind_ne_of_mem_ofRecords ha hback
  rw [List.append_assoc, List.cons_append, keep_ofRecords_append_cons hfirst htype,
    keep_ofRecords_append_cons hfirst htype, ofRecords_append, List.filter_append, hnone,
    List.append_nil]

end Attribute

namespace Message

variable {m : Message} {packet : Bytes} {profile : Profile} {password : Option Bytes}
  {records back : List Record}

/-- Where no FINGERPRINT is read, the packet has none. -/
theorem IsReadFrom.type_ne_fingerprint (hm : m.IsReadFrom profile password records)
    (hopen : ∀ a ∈ m.attributes, a.kind ≠ .fingerprint) :
    ∀ r ∈ records, r.type ≠ AttributeKind.fingerprint.code := by
  intro r hr htype
  obtain ⟨checksum, hread⟩ :=
    Record.exists_ofRecord_fingerprint m.header.id (hm.isReadable r hr) htype
  have hmem : Attribute.fingerprint checksum ∈ Attribute.ofRecords m.header.id records :=
    List.mem_filterMap.mpr ⟨r, hr, by rw [hread]; rfl⟩
  refine hopen (.fingerprint checksum) ?_ rfl
  rw [hm.attributes_eq]
  exact Attribute.mem_keep hmem rfl

/-- Without a password nothing that follows a MESSAGE-INTEGRITY changes what is read. -/
theorem decode_none_append_concat (hdecode : decode packet profile none = .ok m)
    (hword : packet.length % 4 = 0) (hsealed : ∃ a ∈ m.attributes, a.kind = .messageIntegrity)
    (hopen : ∀ a ∈ m.attributes, a.kind ≠ .fingerprint)
    (hback : ∀ r ∈ back, r.IsTrailer) :
    decode (packet ++ Record.concat back) profile none = .ok m ∧
      Record.ofPacket (packet ++ Record.concat back) = Record.ofPacket packet ++ back := by
  obtain ⟨front, r, rest, hrecords, htype, -⟩ := exists_first_messageIntegrity hdecode hsealed
  obtain ⟨records, rfl, hm⟩ := decode_eq_ok_iff.mp hdecode
  rw [Record.ofPacket_bytes_append m.header hm.isRow] at hrecords ⊢
  have hcomplete : ∀ s ∈ records, s.IsComplete := by
    refine hm.isRow.isComplete_of_length_mod ?_
    rw [List.length_append, Header.length_bytes, Header.size] at hword
    omega
  have hrow : Record.IsRow (records ++ back) := Record.isRow_of_forall_isComplete fun s hs =>
    (List.mem_append.mp hs).elim (hcomplete s) fun hs => (hback s hs).isComplete
  rw [List.append_assoc, ← Record.concat_append]
  refine ⟨decode_eq_ok_iff.mpr ⟨records ++ back, rfl, hm.method_eq, hrow, ?_, ?_, ?_⟩,
    Record.ofPacket_bytes_append m.header hrow⟩
  · rw [hm.attributes_eq, Attribute.keep_ofRecords_append ⟨r, by simp [hrecords], htype⟩
      fun s hs => (hback s hs).type_ne]
  · intro s hs
    exact (List.mem_append.mp hs).elim (hm.isReadable s) fun hs => (hback s hs).isReadable
  · -- No FINGERPRINT is among the records, so nothing has to end the packet.
    intro before s after hsplit a ha
    have hs : s ∈ records ++ back := by simp [hsplit]
    refine Attribute.fits_none fun hkind => ?_
    have hmark : s.type = AttributeKind.fingerprint.code :=
      (Attribute.ofRecord_eq_ok_iff.mp ha).1.symm.trans (congrArg _ hkind)
    rcases List.mem_append.mp hs with hs | hs
    · exact hm.type_ne_fingerprint hopen s hs hmark
    · exact (hback s hs).type_ne hmark

/-- Of what follows a MESSAGE-INTEGRITY only a further MESSAGE-INTEGRITY can change what is read,
and only under a password: then it has to hold the code of all that stands before it. -/
theorem decode_append_concat_iff (hdecode : decode packet profile password = .ok m)
    (hword : packet.length % 4 = 0) (hsealed : ∃ a ∈ m.attributes, a.kind = .messageIntegrity)
    (hopen : ∀ a ∈ m.attributes, a.kind ≠ .fingerprint)
    (hback : ∀ r ∈ back, r.IsTrailer) :
    decode (packet ++ Record.concat back) profile password = .ok m ↔
      ∀ text, password = some text → ∀ before r after, back = before ++ r :: after →
        r.type = AttributeKind.messageIntegrity.code →
          r.Authenticates profile text (packet ++ Record.concat back)
            (Record.ofPacket packet ++ before) := by
  cases password with
  | none =>
    obtain ⟨hmore, -⟩ := decode_none_append_concat hdecode hword hsealed hopen hback
    exact ⟨fun _ => nofun, fun _ => hmore⟩
  | some text =>
    obtain ⟨hnone, hcodes⟩ := decode_some_eq_ok_iff.mp hdecode
    obtain ⟨hmore, hrecords⟩ := decode_none_append_concat hnone hword hsealed hopen hback
    rw [decode_some_eq_ok_iff, hrecords]
    constructor
    · rintro ⟨-, hmoreCodes⟩ _ ⟨⟩ before r after rfl htype
      exact hmoreCodes (Record.ofPacket packet ++ before) r after (by simp) htype
    · intro hlater
      refine ⟨hmore, fun front r after hsplit htype => ?_⟩
      have hlast (before : List Record) (hbefore : back = before ++ r :: after) :
          r.Authenticates profile text (packet ++ Record.concat back)
            (Record.ofPacket packet ++ before) := hlater text rfl before r after hbefore htype
      rcases List.append_eq_append_iff.mp hsplit with
        ⟨before, rfl, hbefore⟩ | ⟨between, hfront, htail⟩
      · exact hlast before hbefore
      · rcases List.cons_eq_append_iff.mp htail with ⟨rfl, hbefore⟩ | ⟨rest, rfl, -⟩
        · rw [List.append_nil] at hfront
          simpa [hfront] using hlast [] hbefore
        · have hinside := Record.start_le_length_of_ofPacket hfront
          exact (Record.authenticates_append_iff hinside).mpr
            (hcodes front r rest hfront htype)

/-- A request and its MESSAGE-INTEGRITY stay as they are with a USE-CANDIDATE and a record of an
unknown type behind them. -/
theorem decode_append_concat_iff_sealedRequest :
    let back : List Record := [⟨AttributeKind.useCandidate.code, [], []⟩, ⟨0xC000, [1], [0, 0, 0]⟩]
    ∃ m, decode (sealedRequest []) {} (some (Bytes.ofString "pw")) = .ok m ∧
      decode (sealedRequest [] ++ Record.concat back) {} (some (Bytes.ofString "pw")) = .ok m := by
  intro back
  have hdecode : decode (sealedRequest []) {} (some (Bytes.ofString "pw")) =
      .ok ⟨{ length := 24 }, [.messageIntegrity emptyRequestCode]⟩ := by decide +kernel
  have hback : ∀ r ∈ back, r.IsTrailer := by
    refine List.forall_mem_cons.mpr ⟨⟨⟨by decide, rfl⟩, trivial, by decide⟩, ?_⟩
    have hunknown : (0x8000 : UInt16) ≤ 0xC000 := by decide
    exact List.forall_mem_singleton.mpr ⟨⟨by decide, rfl⟩, hunknown, by decide⟩
  refine ⟨_, hdecode, ?_⟩
  refine (decode_append_concat_iff hdecode (by decide) ⟨_, List.mem_singleton_self _, rfl⟩
    (by simp [Attribute.kind]) hback).mpr fun text _ before r after hsplit htype => ?_
  have hr : r ∈ back := by simp [hsplit]
  have hnone : ∀ s ∈ back, s.type ≠ AttributeKind.messageIntegrity.code := by decide
  exact absurd htype (hnone r hr)

/-- Behind a MESSAGE-INTEGRITY that is right a second one that is wrong has the packet refused. -/
theorem exists_decode_append_ne :
    ∃ packet text m r, packet.length % 4 = 0 ∧ decode packet {} (some text) = .ok m ∧
      (∃ a ∈ m.attributes, a.kind = .messageIntegrity) ∧
      (∀ a ∈ m.attributes, a.kind ≠ .fingerprint) ∧
      r.IsTrailer ∧ ∃ code, decode (packet ++ Record.concat [r]) {} (some text) =
        .error (.integrityMismatch r.value code) := by
  refine ⟨sealedRequest [], Bytes.ofString "pw",
    ⟨{ length := 24 }, [.messageIntegrity emptyRequestCode]⟩,
    ⟨AttributeKind.messageIntegrity.code, List.replicate 20 0, []⟩, ?_⟩
  refine ⟨by decide, by decide +kernel, ⟨_, List.mem_singleton_self _, rfl⟩,
    by simp [Attribute.kind], ⟨⟨by decide, rfl⟩, trivial, by decide⟩,
    [0xBC, 0xC1, 0x88, 0x8F, 0x13, 0xA0, 0x33, 0x6E, 0x11, 0x7C, 0xA6, 0xED, 0x1C, 0x65, 0xC1, 0x43,
      0x90, 0x48, 0x2D, 0xAE], ?_⟩
  decide +kernel

end Message

end Stun
