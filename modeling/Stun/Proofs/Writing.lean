import Mathlib.Data.List.Induction
import Stun.Message.Encode
import Stun.Proofs.AttributeValue
import Stun.Proofs.Packet

/-!
# What writing a message comes to

A message in the middle of being written is determined by the attributes passed so far and the
records that they became, but for the length field of its header, which a FINGERPRINT to be
computed sets on the way. The length field has no influence on what is written later, since every
computed value sets it first. So writing is described by one relation between the attributes of a
message and the records of its packet, which says for each attribute what it is written as behind
the records before it.

## Main definitions

* `Attribute.ResolvesTo`: what an attribute is written as behind some others.
* `Attribute.WrittenAs`: some attributes are written as some records.
* `Draft.Holds`: a message in the middle of being written, behind some attributes.

## Main results

* `Draft.Holds.write_eq_ok_iff`: what one more attribute leads to.
* `Message.encode_eq_ok_iff`: the packet that a message is written as.
-/

namespace Stun

/-! ### Attributes as they are written -/

namespace Attribute

/-- What an attribute is written as behind some others, which are written as `records`, in a
message of `count` attributes: a FINGERPRINT is the last one, nothing else but MESSAGE-INTEGRITY
follows a MESSAGE-INTEGRITY, and placeholders are filled in. -/
def ResolvesTo (profile : Profile) (password : Option Bytes) (h : Header) (count : Nat)
    (front : List Attribute) (records : List Record) : Attribute → Attribute → Prop
  | .fingerprint checksum, resolved =>
    records.length + 1 = count ∧
      if checksum = 0 then
        (Record.concat records).length + Draft.fingerprintRecordSize ≤ maxMessageLength ∧
          resolved = .fingerprint
            (Stun.fingerprint (h.packet records Draft.fingerprintRecordSize))
      else resolved = .fingerprint checksum
  | .messageIntegrity hmac, resolved =>
    if hmac = [] then
      ∃ text key code, password = some text ∧
        profile.key (Names.ofAttributes front) text = .ok key ∧
        (Record.concat records).length + integrityRecordSize ≤ maxMessageLength ∧
        profile.suite.hmacSha1 key (h.packet records integrityRecordSize) = some code ∧
        resolved = .messageIntegrity code.toList
    else resolved = .messageIntegrity hmac
  | a, resolved => (∀ b ∈ front, b.kind ≠ .messageIntegrity) ∧ resolved = a

namespace ResolvesTo

variable {profile : Profile} {password : Option Bytes} {h : Header} {count : Nat}
  {front : List Attribute} {records : List Record} {a resolved : Attribute}

/-- Filling in a value changes neither the kind of an attribute nor the names that it gives. -/
theorem kind_and_observe
    (hresolved : a.ResolvesTo profile password h count front records resolved) :
    resolved.kind = a.kind ∧ ∀ names : Names, names.observe resolved = names.observe a := by
  cases a with
  | fingerprint checksum =>
    obtain ⟨-, hresolved⟩ := hresolved
    split at hresolved
    · obtain ⟨-, rfl⟩ := hresolved
      exact ⟨rfl, fun _ => rfl⟩
    · subst hresolved
      exact ⟨rfl, fun _ => rfl⟩
  | messageIntegrity hmac =>
    simp only [Attribute.ResolvesTo] at hresolved
    split at hresolved
    · obtain ⟨_, _, _, -, -, -, -, rfl⟩ := hresolved
      exact ⟨rfl, fun _ => rfl⟩
    · subst hresolved
      exact ⟨rfl, fun _ => rfl⟩
  | _ =>
    obtain ⟨-, rfl⟩ := hresolved
    exact ⟨rfl, fun _ => rfl⟩

/-- Without a password no MESSAGE-INTEGRITY is left to be computed. -/
theorem ne_nil_of_messageIntegrity {hmac : Bytes}
    (hresolved : a.ResolvesTo profile none h count front records (messageIntegrity hmac)) :
    hmac ≠ [] := by
  cases a with
  | messageIntegrity hmac' =>
    simp only [Attribute.ResolvesTo] at hresolved
    split at hresolved
    · obtain ⟨_, _, _, hnone, -⟩ := hresolved
      exact absurd hnone nofun
    · next hne =>
      obtain rfl := messageIntegrity.inj hresolved
      exact hne
  | fingerprint checksum =>
    have hkind := hresolved.kind_and_observe.1
    exact absurd hkind nofun
  | _ => exact absurd hresolved.2 nofun

end ResolvesTo

/-- Attributes are written as records, each behind those before it. -/
inductive WrittenAs (profile : Profile) (password : Option Bytes) (h : Header) (count : Nat) :
    List Attribute → List Record → Prop
  | nil : WrittenAs profile password h count [] []
  | snoc {front records a resolved r} (hfront : WrittenAs profile password h count front records)
      (hresolved : a.ResolvesTo profile password h count front records resolved)
      (hr : resolved.toRecord h.id profile.padding = .ok r) :
      WrittenAs profile password h count (front ++ [a]) (records ++ [r])

namespace WrittenAs

variable {profile : Profile} {password : Option Bytes} {h : Header} {count : Nat}
  {attributes : List Attribute} {records front back : List Record} {r : Record}

theorem length_eq (hwritten : WrittenAs profile password h count attributes records) :
    attributes.length = records.length := by
  induction hwritten with
  | nil => rfl
  | snoc _ _ _ ih => rw [List.length_append, List.length_append, ih]; rfl

theorem isComplete (hwritten : WrittenAs profile password h count attributes records) :
    ∀ r ∈ records, r.IsComplete := by
  induction hwritten with
  | nil => exact nofun
  | snoc _ _ hr ih =>
    intro s hs
    rcases List.mem_append.mp hs with hs | hs
    · exact ih s hs
    · exact List.mem_singleton.mp hs ▸ isComplete_of_toRecord hr

/-- The last attribute is written as the last record. -/
theorem exists_of_concat {a : Attribute}
    (hwritten : WrittenAs profile password h count (attributes ++ [a]) records) :
    ∃ front r resolved, records = front ++ [r] ∧
      WrittenAs profile password h count attributes front ∧
      a.ResolvesTo profile password h count attributes front resolved ∧
      resolved.toRecord h.id profile.padding = .ok r := by
  generalize hall : attributes ++ [a] = all at hwritten
  cases hwritten with
  | nil => exact absurd hall (by simp)
  | @snoc _ front _ resolved r hfront hresolved hr =>
    obtain ⟨rfl, hlast⟩ := List.append_inj' hall rfl
    obtain rfl := List.singleton_inj.mp hlast
    exact ⟨front, r, resolved, rfl, hfront, hresolved, hr⟩

/-- Each record is what one of the attributes is written as behind those before it. -/
theorem exists_of_append_cons
    (hwritten : WrittenAs profile password h count attributes (front ++ r :: back)) :
    ∃ before a after resolved, attributes = before ++ a :: after ∧
      WrittenAs profile password h count before front ∧
      a.ResolvesTo profile password h count before front resolved ∧
      resolved.toRecord h.id profile.padding = .ok r := by
  generalize hrecords : front ++ r :: back = records at hwritten
  induction hwritten generalizing back with
  | nil => exact absurd hrecords (by simp)
  | @snoc before records a resolved s hbefore hresolved hs ih =>
    rcases List.eq_nil_or_concat back with rfl | ⟨back, t, rfl⟩
    · obtain ⟨rfl, hr⟩ := List.append_inj' hrecords rfl
      obtain rfl := List.singleton_inj.mp hr
      exact ⟨before, a, [], resolved, rfl, hbefore, hresolved, hs⟩
    · rw [List.concat_eq_append, ← List.cons_append, ← List.append_assoc] at hrecords
      obtain ⟨before', a', after, resolved', rfl, hrest⟩ := ih (List.append_inj' hrecords rfl).1
      refine ⟨before', a', after ++ [a], resolved', ?_, hrest⟩
      rw [List.append_assoc, List.cons_append]

/-- Each attribute is written as one of the records behind those of the attributes before it. -/
theorem exists_record_of_append_cons {before after : List Attribute} {a : Attribute}
    (hwritten : WrittenAs profile password h count (before ++ a :: after) records) :
    ∃ front r back resolved, records = front ++ r :: back ∧ front.length = before.length ∧
      WrittenAs profile password h count before front ∧
      a.ResolvesTo profile password h count before front resolved ∧
      resolved.toRecord h.id profile.padding = .ok r := by
  have hlen := hwritten.length_eq
  rw [List.length_append, List.length_cons] at hlen
  have hindex : before.length < records.length := by omega
  have hsplit : records =
      records.take before.length ++ records[before.length] :: records.drop (before.length + 1) := by
    simp
  rw [hsplit] at hwritten
  obtain ⟨before', a', after', resolved, hattributes, hfront, hresolved, hr⟩ :=
    hwritten.exists_of_append_cons
  have hfrontLength : (records.take before.length).length = before.length :=
    List.length_take_of_le hindex.le
  obtain ⟨rfl, htail⟩ := List.append_inj hattributes (hfrontLength.symm.trans hfront.length_eq.symm)
  obtain ⟨rfl, -⟩ := List.cons.inj htail
  exact ⟨_, _, _, resolved, hsplit, hfrontLength, hfront, hresolved, hr⟩

end WrittenAs

end Attribute

/-! ### Drafts -/

namespace Draft

/-- A message in the middle of being written, behind some attributes that became `records`. -/
structure Holds (d : Draft) (h : Header) (front : List Attribute) (records : List Record) :
    Prop where
  header_eq : d.header = { h with length := d.header.length }
  records_eq : d.records = records.reverse
  names_eq : d.names = Names.ofAttributes front
  isSealed_iff : d.isSealed = true ↔ ∃ a ∈ front, a.kind = .messageIntegrity

/-- The draft with the length field that an attribute to be written leaves behind. -/
def announce (d : Draft) (a : Attribute) : Draft :=
  if a = .fingerprint 0 then
    { d with header := { d.header with
      length := UInt16.ofNat ((Record.concat d.records.reverse).length + fingerprintRecordSize) } }
  else d

/-- The draft with an attribute that became a record. -/
def push (d : Draft) (a : Attribute) (r : Record) : Draft where
  header := d.header
  records := r :: d.records
  names := d.names.observe a
  isSealed := d.isSealed || a.kind = .messageIntegrity

variable {profile : Profile} {password : Option Bytes} {h : Header} {count : Nat} {d d' : Draft}
  {front : List Attribute} {records : List Record} {a resolved : Attribute} {r : Record}

@[simp] theorem records_announce (d : Draft) (a : Attribute) :
    (d.announce a).records = d.records := by
  unfold announce
  split <;> rfl

@[simp] theorem names_announce (d : Draft) (a : Attribute) : (d.announce a).names = d.names := by
  unfold announce
  split <;> rfl

@[simp] theorem isSealed_announce (d : Draft) (a : Attribute) :
    (d.announce a).isSealed = d.isSealed := by
  unfold announce
  split <;> rfl

theorem Holds.header_announce_eq (hd : d.Holds h front records) (a : Attribute) :
    (d.announce a).header = { h with length := (d.announce a).header.length } := by
  unfold announce
  split
  · rw [hd.header_eq]
  · exact hd.header_eq

theorem Holds.push_announce (hd : d.Holds h front records) (a : Attribute) (r : Record) :
    ((d.announce a).push a r).Holds h (front ++ [a]) (records ++ [r]) where
  header_eq := hd.header_announce_eq a
  records_eq := by simp [push, hd.records_eq]
  names_eq := by
    rw [push, names_announce, hd.names_eq, Names.ofAttributes_append]
    rfl
  isSealed_iff := by simp [push, hd.isSealed_iff, or_and_right, exists_or]

/-- A draft with a length field that counts `more` bytes behind it, if it fits. -/
theorem Holds.setLength_eq_ok_iff (hd : d.Holds h front records) {more : Nat} :
    d.setLength more = .ok d' ↔ (Record.concat records).length + more ≤ maxMessageLength ∧
      d' = { d with header := { d.header with
        length := UInt16.ofNat ((Record.concat d.records.reverse).length + more) } } := by
  rw [setLength, hd.records_eq, List.reverse_reverse]
  grind

theorem Holds.packet_eq (hd : d.Holds h front records) (more : Nat) :
    packet { d with header := { d.header with
      length := UInt16.ofNat ((Record.concat d.records.reverse).length + more) } } =
        h.packet records more := by
  rw [packet, Header.packet, hd.header_eq, hd.records_eq, List.reverse_reverse]

theorem Holds.integrityValue_eq_ok_iff (hd : d.Holds h front records) :
    d.integrityValue profile password = .ok resolved ↔
      ∃ text key code, password = some text ∧
        profile.key (Names.ofAttributes front) text = .ok key ∧
        (Record.concat records).length + integrityRecordSize ≤ maxMessageLength ∧
        profile.suite.hmacSha1 key (h.packet records integrityRecordSize) = some code ∧
        resolved = .messageIntegrity code.toList := by
  have hpacket : h.packet records integrityRecordSize =
      d.header.packet records integrityRecordSize := by
    rw [hd.header_eq]
    rfl
  unfold integrityValue
  simp only [hd.names_eq, packet, hd.records_eq, List.reverse_reverse, hpacket]
  cases password with
  | none => simp
  | some text =>
    cases hkey : profile.key (Names.ofAttributes front) text with
    | error e => simp [hkey]
    | ok key =>
      simp only [hkey, Error.map_eq_ok_iff, DigestSuite.integrity_eq_ok_iff]
      constructor
      · rintro ⟨code, ⟨hle, hcode⟩, rfl⟩
        exact ⟨text, key, code, rfl, hkey, hle, hcode, rfl⟩
      · rintro ⟨_, key', code, ⟨⟩, hkey', hle, hcode, rfl⟩
        obtain rfl := Except.ok.inj (hkey.symm.trans hkey')
        exact ⟨code, ⟨hle, hcode⟩, rfl⟩

/-- What is written for an attribute behind some others. -/
theorem Holds.resolve_eq_ok_iff (hd : d.Holds h front records) :
    d.resolve profile password count a = .ok (d', resolved) ↔
      a.ResolvesTo profile password h count front records resolved ∧ d' = d.announce a := by
  cases a with
  | fingerprint checksum =>
    have hlen : d.records.length = records.length := by rw [hd.records_eq, List.length_reverse]
    simp only [resolve, Attribute.ResolvesTo, hlen, fingerprintValue]
    by_cases hcount : records.length + 1 = count
    · by_cases hchecksum : checksum = 0
      · simp only [hcount, hchecksum, ne_eq, not_true, if_true, if_false, Error.map_eq_ok_iff,
          hd.setLength_eq_ok_iff, announce, true_and]
        grind [hd.packet_eq fingerprintRecordSize]
      · simp [hcount, hchecksum, announce, eq_comm, and_comm]
    · simp [hcount]
  | messageIntegrity hmac =>
    simp only [resolve, Attribute.ResolvesTo]
    by_cases hempty : hmac = []
    · simp only [hempty, if_true, Error.map_eq_ok_iff, hd.integrityValue_eq_ok_iff]
      constructor
      · rintro ⟨_, hvalue, ⟨⟩⟩
        exact ⟨hvalue, rfl⟩
      · rintro ⟨hvalue, rfl⟩
        exact ⟨resolved, hvalue, rfl⟩
    · simp [hempty, announce, eq_comm, and_comm]
  | _ =>
    have hopen : (∀ b ∈ front, b.kind ≠ .messageIntegrity) ↔ ¬ d.isSealed = true := by
      rw [hd.isSealed_iff]
      push Not
      rfl
    simp only [resolve, Attribute.ResolvesTo, announce, hopen]
    by_cases hsealed : d.isSealed = true <;> simp [hsealed, eq_comm, and_comm]

/-- What one more attribute leads to. -/
theorem Holds.write_eq_ok_iff (hd : d.Holds h front records) :
    d.write profile password count a = .ok d' ↔
      ∃ resolved r, a.ResolvesTo profile password h count front records resolved ∧
        resolved.toRecord h.id profile.padding = .ok r ∧ d' = (d.announce a).push a r := by
  have hid : (d.announce a).header.id = h.id := by rw [hd.header_announce_eq a]
  unfold write
  cases hresolve : d.resolve profile password count a with
  | error e =>
    refine ⟨nofun, ?_⟩
    rintro ⟨resolved, r, hresolved, -, -⟩
    rw [hd.resolve_eq_ok_iff.mpr ⟨hresolved, rfl⟩] at hresolve
    exact absurd hresolve nofun
  | ok result =>
    obtain ⟨d₁, resolved⟩ := result
    obtain ⟨hresolved, rfl⟩ := hd.resolve_eq_ok_iff.mp hresolve
    simp only [Error.map_eq_ok_iff, hid]
    constructor
    · rintro ⟨r, hr, rfl⟩
      exact ⟨resolved, r, hresolved, hr, rfl⟩
    · rintro ⟨resolved', r, hresolved', hr, rfl⟩
      have hsame := hd.resolve_eq_ok_iff.mpr ⟨hresolved', rfl⟩
      rw [hresolve] at hsame
      obtain rfl := (Prod.mk.inj (Except.ok.inj hsame)).2
      exact ⟨r, hr, rfl⟩

/-- Behind some attributes that were written, the draft holds their records. -/
theorem exists_writtenAs_of_foldlM {d₀ : Draft} (hd₀ : d₀.Holds h [] [])
    {attributes : List Attribute}
    (hrun : attributes.foldlM (write profile password count) d₀ = .ok d) :
    ∃ records, Attribute.WrittenAs profile password h count attributes records ∧
      d.Holds h attributes records := by
  induction attributes using List.reverseRecOn generalizing d with
  | nil =>
    obtain rfl := Except.ok.inj hrun
    exact ⟨[], .nil, hd₀⟩
  | append_singleton attributes a ih =>
    obtain ⟨d₁, hfront, hwrite⟩ := Error.foldlM_concat_eq_ok_iff.mp hrun
    obtain ⟨records, hwritten, hd₁⟩ := ih hfront
    obtain ⟨resolved, r, hresolved, hr, rfl⟩ := hd₁.write_eq_ok_iff.mp hwrite
    exact ⟨records ++ [r], .snoc hwritten hresolved hr, hd₁.push_announce a r⟩

/-- Attributes that can be written one behind the other are all written. -/
theorem exists_foldlM_of_writtenAs {d₀ : Draft} (hd₀ : d₀.Holds h [] [])
    {attributes : List Attribute}
    (hwritten : Attribute.WrittenAs profile password h count attributes records) :
    ∃ d, attributes.foldlM (write profile password count) d₀ = .ok d ∧
      d.Holds h attributes records := by
  induction hwritten with
  | nil => exact ⟨d₀, rfl, hd₀⟩
  | @snoc front records a resolved r hfront hresolved hr ih =>
    obtain ⟨d, hrun, hd⟩ := ih
    refine ⟨(d.announce a).push a r, ?_, hd.push_announce a r⟩
    exact Error.foldlM_concat_eq_ok_iff.mpr
      ⟨d, hrun, hd.write_eq_ok_iff.mpr ⟨resolved, r, hresolved, hr, rfl⟩⟩

end Draft

/-! ### Messages -/

namespace Message

variable {m : Message} {profile : Profile} {password : Option Bytes} {packet : Bytes}

theorem holds_draft (m : Message) : m.draft.Holds m.header [] [] where
  header_eq := rfl
  records_eq := rfl
  names_eq := rfl
  isSealed_iff := ⟨nofun, nofun⟩

/-- The packet that a message is written as. -/
theorem encode_eq_ok_iff : m.encode profile password = .ok packet ↔
    ∃ records, Attribute.WrittenAs profile password m.header m.attributes.length m.attributes
        records ∧
      (Record.concat records).length ≤ maxMessageLength ∧ packet = m.header.packet records 0 := by
  unfold encode
  constructor
  · intro h
    split at h
    · exact absurd h nofun
    next d hrun =>
    obtain ⟨records, hwritten, hd⟩ := Draft.exists_writtenAs_of_foldlM m.holds_draft hrun
    obtain ⟨_, hlength, rfl⟩ := Error.map_eq_ok_iff.mp h
    obtain ⟨hle, rfl⟩ := hd.setLength_eq_ok_iff.mp hlength
    exact ⟨records, hwritten, hle, hd.packet_eq 0⟩
  · rintro ⟨records, hwritten, hle, rfl⟩
    obtain ⟨d, hrun, hd⟩ := Draft.exists_foldlM_of_writtenAs m.holds_draft hwritten
    rw [hrun]
    exact Error.map_eq_ok_iff.mpr ⟨_, hd.setLength_eq_ok_iff.mpr ⟨hle, rfl⟩, hd.packet_eq 0⟩

end Message

end Stun
