import Stun.Proofs.Reading

/-!
# What a password adds to reading

The key of a MESSAGE-INTEGRITY is made of the last username and the last realm before it, and its
code is taken of the bytes before it. So a password asks for one thing of each MESSAGE-INTEGRITY of
a packet, which only the bytes before it decide, and it adds nothing to a message.

## Main definitions

* `Record.lastValue?`, `Names.ofRecords`: the value of the last record of a type, and the names
  that some records give.
* `Profile.IsKey`, `Profile.LacksKeyFor`: the key of a password behind some records, and why there
  is none.
* `Record.covered`, `Record.Authenticates`: what the code of a MESSAGE-INTEGRITY is taken of, and
  that it is the code of that.
* `Record.RefusedFor`: what a MESSAGE-INTEGRITY without its code is refused for.

## Main results

* `Message.isReadFrom_some_iff`: what a password asks of the records of a message.
* `Message.decode_some_eq_ok_iff`: what it asks of a packet.
* `Message.decode_with_password`: reading with and without a password compared.
-/

namespace Stun

/-! ### The names before a record -/

namespace Record

/-- The value of the last record of a type, if there is one. -/
def lastValue? (type : UInt16) (records : List Record) : Option Bytes :=
  (records.reverse.find? (·.type = type)).map value

theorem lastValue?_concat (type : UInt16) (records : List Record) (r : Record) :
    lastValue? type (records ++ [r]) =
      if r.type = type then some r.value else lastValue? type records := by
  simp only [lastValue?, List.reverse_append, List.reverse_singleton, List.singleton_append,
    List.find?_cons]
  by_cases htype : r.type = type <;> simp [htype]

end Record

namespace Names

variable {id : TransactionId} {r : Record} {a : Attribute} {records : List Record}

/-- The names that some records give. -/
def ofRecords (records : List Record) : Names where
  username := Record.lastValue? AttributeKind.username.code records
  realm := Record.lastValue? AttributeKind.realm.code records

theorem ofRecords_concat_of_ne (husername : r.type ≠ AttributeKind.username.code)
    (hrealm : r.type ≠ AttributeKind.realm.code) :
    ofRecords (records ++ [r]) = ofRecords records := by
  rw [ofRecords, Record.lastValue?_concat, Record.lastValue?_concat, if_neg husername,
    if_neg hrealm, ofRecords]

theorem observe_ofRecords (h : Attribute.ofRecord id r = .ok a) :
    (ofRecords records).observe a = ofRecords (records ++ [r]) := by
  obtain ⟨htype, hvalue⟩ := Attribute.ofRecord_eq_ok_iff.mp h
  cases a with
  | username text | realm text =>
    obtain ⟨_, htext, ⟨⟩⟩ := Error.map_eq_ok_iff.mp hvalue
    obtain ⟨-, rfl⟩ := Attribute.readableText_eq_ok_iff.mp htext
    simp only [observe, ofRecords, Record.lastValue?_concat, ← htype, Attribute.kind,
      AttributeKind.code_inj, reduceCtorEq, if_true, if_false]
  | _ =>
    refine (ofRecords_concat_of_ne ?_ ?_).symm <;>
      rw [← htype, ne_eq, AttributeKind.code_inj] <;> simp [Attribute.kind]

/-- The names that the attributes of some records give stand in the records. -/
theorem ofAttributes_ofRecords (hreadable : ∀ r ∈ records, r.IsReadable) :
    ofAttributes (Attribute.ofRecords id records) = ofRecords records := by
  induction records using List.reverseRecOn with
  | nil => rfl
  | append_singleton records r ih =>
    have ih := ih fun s hs => hreadable s (by simp [hs])
    have hr := hreadable r (by simp)
    rw [Attribute.ofRecords_append, ofAttributes_append, ih]
    rcases hread : Attribute.ofRecord id r with e | a
    · have hknown (kind : AttributeKind) : r.type ≠ kind.code := by
        intro hkind
        obtain ⟨a, ha⟩ := Record.exists_ofRecord hr hkind.symm
        rw [ha] at hread
        exact absurd hread nofun
      rw [Attribute.ofRecords_cons_of_error hread, ofRecords_concat_of_ne (hknown _) (hknown _)]
      rfl
    · rw [Attribute.ofRecords_cons_of_ok hread, ← observe_ofRecords hread]
      rfl

end Names

/-! ### Keys -/

namespace Profile

/-- The key of a password behind some records: the prepared password where no realm is among them,
and the hash of the last username, the last realm and the prepared password where one is. -/
inductive IsKey (profile : Profile) (text : Bytes) (front : List Record) : Bytes → Prop
  | shortTerm {prepared : Bytes}
      (hrealm : Record.lastValue? AttributeKind.realm.code front = none)
      (hprep : Prep.apply profile.prep text = .ok prepared) : IsKey profile text front prepared
  | longTerm {username realm prepared : Bytes} {hash : Vector UInt8 16}
      (hrealm : Record.lastValue? AttributeKind.realm.code front = some realm)
      (husername : Record.lastValue? AttributeKind.username.code front = some username)
      (hprep : Prep.apply profile.prep text = .ok prepared)
      (hhash : profile.suite.md5 (longTermText username realm prepared) = some hash) :
      IsKey profile text front hash.toList

/-- What stands in the way of a key: a realm without a username, a password that cannot be prepared,
or a hash that the platform refuses. -/
inductive LacksKeyFor (profile : Profile) (text : Bytes) (front : List Record) : Error → Prop
  | missingUsername {realm : Bytes}
      (hrealm : Record.lastValue? AttributeKind.realm.code front = some realm)
      (husername : Record.lastValue? AttributeKind.username.code front = none) :
      LacksKeyFor profile text front .missingUsername
  | prep {e : Error} (hprep : Prep.apply profile.prep text = .error e) :
      LacksKeyFor profile text front e
  | hash {username realm prepared : Bytes}
      (hrealm : Record.lastValue? AttributeKind.realm.code front = some realm)
      (husername : Record.lastValue? AttributeKind.username.code front = some username)
      (hprep : Prep.apply profile.prep text = .ok prepared)
      (hhash : profile.suite.md5 (longTermText username realm prepared) = none) :
      LacksKeyFor profile text front .cryptoFailed

variable {profile : Profile} {text key : Bytes} {front : List Record} {e : Error}

theorem key_ofRecords_eq_ok_iff :
    profile.key (Names.ofRecords front) text = .ok key ↔ profile.IsKey text front key := by
  unfold Profile.key Names.ofRecords
  constructor
  · intro h
    simp only at h
    split at h
    · next hrealm => exact .shortTerm hrealm h
    · exact absurd h nofun
    · next realm username hrealm husername =>
      obtain ⟨hash, hkey, rfl⟩ := Error.map_eq_ok_iff.mp h
      obtain ⟨prepared, hprep, hhash⟩ := longTermKey_eq_ok_iff.mp hkey
      exact .longTerm hrealm husername hprep hhash
  · rintro (⟨hrealm, hprep⟩ | @⟨username, realm, prepared, hash, hrealm, husername, hprep, hhash⟩)
    · simp only [hrealm, shortTermKey, hprep]
    · simp only [hrealm, husername]
      exact Error.map_eq_ok_iff.mpr ⟨hash, longTermKey_eq_ok_iff.mpr ⟨prepared, hprep, hhash⟩, rfl⟩

theorem lacksKeyFor_of_key_ofRecords
    (h : profile.key (Names.ofRecords front) text = .error e) :
    profile.LacksKeyFor text front e := by
  unfold Profile.key Names.ofRecords at h
  simp only at h
  split at h
  · exact .prep h
  · next hrealm husername =>
    obtain rfl := Except.error.inj h
    exact .missingUsername hrealm husername
  · next realm username hrealm husername =>
    unfold longTermKey shortTermKey at h
    split at h
    · next hprep =>
      obtain rfl := Except.error.inj h
      exact .prep hprep
    next hprep =>
    split at h
    · next hhash =>
      obtain rfl := Except.error.inj h
      exact .hash hrealm husername hprep hhash
    · exact absurd h nofun

end Profile

/-! ### Codes -/

namespace Record

/-- The bytes that the code of a MESSAGE-INTEGRITY behind some records is taken of: those before it
in the packet, with a length field that counts the MESSAGE-INTEGRITY as the last record. -/
def covered (packet : Bytes) (front : List Record) : Bytes :=
  withLength (packet.take (start front)) (start front + 4)

/-- A record holds the code of what stands before it in a packet. -/
def Authenticates (profile : Profile) (text packet : Bytes) (front : List Record) (r : Record) :
    Prop :=
  ∃ key code, profile.IsKey text front key ∧ start front + 4 ≤ maxMessageLength ∧
    profile.suite.hmacSha1 key (covered packet front) = some code ∧ r.value = code.toList

/-- What a record is refused for that does not hold the code of what stands before it. -/
inductive RefusedFor (profile : Profile) (text packet : Bytes) (front : List Record) (r : Record) :
    Error → Prop
  | noKey {e : Error} (h : profile.LacksKeyFor text front e) :
      RefusedFor profile text packet front r e
  | tooLarge {key : Bytes} (hkey : profile.IsKey text front key)
      (hlarge : maxMessageLength < start front + 4) :
      RefusedFor profile text packet front r .messageTooLarge
  | noCode {key : Bytes} (hkey : profile.IsKey text front key)
      (hcode : profile.suite.hmacSha1 key (covered packet front) = none) :
      RefusedFor profile text packet front r .cryptoFailed
  | mismatch {key : Bytes} {code : Vector UInt8 20} (hkey : profile.IsKey text front key)
      (hcode : profile.suite.hmacSha1 key (covered packet front) = some code)
      (hne : code.toList ≠ r.value) :
      RefusedFor profile text packet front r (.integrityMismatch r.value code.toList)

variable {profile : Profile} {text : Bytes} {h : Header} {front back : List Record} {r : Record}

theorem start_add_four (front : List Record) :
    start front + 4 = (concat front).length + integrityRecordSize := by
  simp only [start, Header.size, integrityRecordSize]
  omega

/-- What is covered is the header and the records before the code. -/
theorem covered_bytes_append_concat (h : Header) (front back : List Record) :
    covered (h.bytes ++ concat (front ++ back)) front = h.packet front integrityRecordSize := by
  rw [covered, start_add_four, start, h.take_bytes_append_concat, withLength_bytes_append,
    Header.packet]

/-- With a password a MESSAGE-INTEGRITY fits where it holds the code of what stands before it. -/
theorem fits_messageIntegrity_iff (hreadable : ∀ s ∈ front, s.IsReadable) :
    (Attribute.messageIntegrity r.value).Fits profile (some text) h front back ↔
      r.Authenticates profile text (h.bytes ++ concat (front ++ r :: back)) front := by
  rw [Authenticates, covered_bytes_append_concat, start_add_four]
  simp only [Attribute.Fits, Option.some.injEq, forall_eq', Names.ofAttributes_ofRecords hreadable,
    Profile.key_ofRecords_eq_ok_iff]
  simp only [eq_comm]

/-- A MESSAGE-INTEGRITY without the code of what stands before it is refused. -/
theorem exists_refusedFor (hreadable : ∀ s ∈ front, s.IsReadable)
    (hwrong : ¬ r.Authenticates profile text (h.bytes ++ concat (front ++ r :: back)) front) :
    ∃ e, r.RefusedFor profile text (h.bytes ++ concat (front ++ r :: back)) front e ∧
      (Survey.ofRecords h.id front).check profile (some text)
        (h.bytes ++ concat (front ++ r :: back)) ((Survey.ofRecords h.id front).offset + r.size)
        (.messageIntegrity r.value) = .error e := by
  have hnames : Names.ofAttributes (Attribute.ofRecords h.id front) = Names.ofRecords front :=
    Names.ofAttributes_ofRecords hreadable
  have hcovered := covered_bytes_append_concat h front (r :: back)
  rcases hkey : profile.key (Names.ofRecords front) text with e | key
  · exact ⟨e, .noKey (Profile.lacksKeyFor_of_key_ofRecords hkey),
      Survey.check_ofRecords_messageIntegrity (.inl (hnames ▸ hkey))⟩
  have hisKey := Profile.key_ofRecords_eq_ok_iff.mp hkey
  rcases hcode : profile.suite.integrity key (h.bytes ++ concat front) with e | code
  · refine ⟨e, ?_,
      Survey.check_ofRecords_messageIntegrity (.inr ⟨key, hnames ▸ hkey, .inl hcode⟩)⟩
    rcases DigestSuite.integrity_eq_error_iff.mp hcode with ⟨hlarge, rfl⟩ | ⟨-, hhmac, rfl⟩
    · rw [← start_add_four] at hlarge
      exact .tooLarge hisKey hlarge
    · rw [← hcovered] at hhmac
      exact .noCode hisKey hhmac
  · obtain ⟨hle, hhmac⟩ := DigestSuite.integrity_eq_ok_iff.mp hcode
    rw [← start_add_four] at hle
    rw [← hcovered] at hhmac
    have hne : code.toList ≠ r.value := fun heq => hwrong ⟨key, code, hisKey, hle, hhmac, heq.symm⟩
    exact ⟨_, .mismatch hisKey hhmac hne, Survey.check_ofRecords_messageIntegrity
      (.inr ⟨key, hnames ▸ hkey, .inr ⟨code, hcode, hne, rfl⟩⟩)⟩

end Record

/-! ### Messages -/

namespace Message

variable {packet : Bytes} {profile : Profile} {text : Bytes} {m : Message}
  {records front : List Record} {r : Record}

/-- A password asks of each MESSAGE-INTEGRITY that it holds the code of what stands before it. -/
theorem isReadFrom_some_iff : m.IsReadFrom profile (some text) records ↔
    m.IsReadFrom profile none records ∧ ∀ front r back, records = front ++ r :: back →
      r.type = AttributeKind.messageIntegrity.code →
        r.Authenticates profile text (m.header.bytes ++ Record.concat records) front := by
  constructor
  · intro hm
    refine ⟨⟨hm.method_eq, hm.isRow, hm.attributes_eq, hm.isReadable, ?_⟩, ?_⟩
    · intro front r back hrecords a ha
      by_cases hkind : a.kind = .messageIntegrity
      · exact Attribute.fits_none (by rw [hkind]; decide)
      · exact (hm.fits front r back hrecords a ha).of_kind_ne hkind
    · rintro front r back rfl htype
      have hr : Attribute.ofRecord m.header.id r = .ok (.messageIntegrity r.value) :=
        Attribute.ofRecord_eq_messageIntegrity_iff.mpr ⟨htype, rfl⟩
      exact (Record.fits_messageIntegrity_iff fun s hs => hm.isReadable s (by simp [hs])).mp
        (hm.fits front r back rfl _ hr)
  · rintro ⟨hm, hcodes⟩
    refine ⟨hm.method_eq, hm.isRow, hm.attributes_eq, hm.isReadable, ?_⟩
    rintro front r back rfl a ha
    by_cases hkind : a.kind = .messageIntegrity
    · cases a with
      | messageIntegrity received =>
        obtain ⟨htype, rfl⟩ := Attribute.ofRecord_eq_messageIntegrity_iff.mp ha
        exact (Record.fits_messageIntegrity_iff fun s hs => hm.isReadable s (by simp [hs])).mpr
          (hcodes front r back rfl htype)
      | _ => exact absurd hkind nofun
    · exact (hm.fits front r back rfl a ha).of_kind_ne hkind

/-- A packet is read under a password as what it is read as without one, if each of its
MESSAGE-INTEGRITYs holds the code of what stands before it. -/
theorem decode_some_eq_ok_iff : decode packet profile (some text) = .ok m ↔
    decode packet profile none = .ok m ∧
      ∀ front r back, Record.ofPacket packet = front ++ r :: back →
        r.type = AttributeKind.messageIntegrity.code →
          r.Authenticates profile text packet front := by
  simp only [decode_eq_ok_iff, isReadFrom_some_iff]
  constructor
  · rintro ⟨records, rfl, hm, hcodes⟩
    rw [Record.ofPacket_bytes_append m.header hm.isRow]
    exact ⟨⟨records, rfl, hm⟩, hcodes⟩
  · rintro ⟨⟨records, rfl, hm⟩, hcodes⟩
    rw [Record.ofPacket_bytes_append m.header hm.isRow] at hcodes
    exact ⟨records, rfl, hm, hcodes⟩

/-- A packet whose first MESSAGE-INTEGRITY does not hold the code of what stands before it is
refused for that. -/
theorem exists_decode_some_eq_error {back : List Record}
    (hdecode : decode packet profile none = .ok m)
    (hrecords : Record.ofPacket packet = front ++ r :: back)
    (htype : r.type = AttributeKind.messageIntegrity.code)
    (hfirst : ∀ s ∈ front, s.type ≠ AttributeKind.messageIntegrity.code)
    (hwrong : ¬ r.Authenticates profile text packet front) :
    ∃ e, decode packet profile (some text) = .error e ∧
      r.RefusedFor profile text packet front e := by
  obtain ⟨records, rfl, hm⟩ := decode_eq_ok_iff.mp hdecode
  rw [Record.ofPacket_bytes_append m.header hm.isRow] at hrecords
  subst hrecords
  have hreadable (s : Record) (hs : s ∈ front) : s.IsReadable := hm.isReadable s (by simp [hs])
  obtain ⟨e, hrefused, hcheck⟩ := Record.exists_refusedFor hreadable hwrong
  refine ⟨e, decode_eq_error hm.method_eq hm.isRow hreadable ?_
    (Attribute.ofRecord_eq_messageIntegrity_iff.mpr ⟨htype, rfl⟩) hcheck, hrefused⟩
  rintro before s after rfl b hb
  refine (hm.fits before s (after ++ r :: back) (by simp) b hb).of_kind_ne fun hkind => ?_
  exact hfirst s (by simp) ((Attribute.ofRecord_eq_ok_iff.mp hb).1.symm.trans (congrArg _ hkind))

private theorem eq_of_append_cons_eq {back front' back' : List Record} {r' : Record} {type : UInt16}
    (h : front ++ r :: back = front' ++ r' :: back') (hr' : r'.type = type)
    (hothers : ∀ s ∈ front ++ back, s.type ≠ type) : front' = front ∧ r' = r := by
  rcases Record.cases_of_append_cons_eq h with heq | ⟨between, rfl⟩ | ⟨between, -, rfl⟩
  · exact heq
  · exact absurd hr' (hothers r' (by simp))
  · exact absurd hr' (hothers r' (by simp))

/-- Where a MESSAGE-INTEGRITY is read, the packet has a first one. -/
theorem exists_first_messageIntegrity (hdecode : decode packet profile none = .ok m)
    (hsealed : ∃ a ∈ m.attributes, a.kind = .messageIntegrity) :
    ∃ front r back, Record.ofPacket packet = front ++ r :: back ∧
      r.type = AttributeKind.messageIntegrity.code ∧
      ∀ s ∈ front, s.type ≠ AttributeKind.messageIntegrity.code := by
  obtain ⟨records, rfl, hm⟩ := decode_eq_ok_iff.mp hdecode
  rw [Record.ofPacket_bytes_append m.header hm.isRow]
  by_cases hrecords : ∃ r ∈ records, r.type = AttributeKind.messageIntegrity.code
  · obtain ⟨r, hr, htype⟩ := hrecords
    exact Record.exists_first_of_mem hr htype
  · push Not at hrecords
    obtain ⟨a, ha, hkind⟩ := hsealed
    have hnone : ∀ b ∈ Attribute.ofRecords m.header.id records, b.kind ≠ .messageIntegrity :=
      fun b hb => Attribute.kind_ne_of_mem_ofRecords hb hrecords
    rw [hm.attributes_eq, Attribute.keep_eq_self hnone] at ha
    exact absurd hkind (hnone a ha)

/-- A password only narrows what is read. What is read under a password is read without one, and
the first MESSAGE-INTEGRITY holds the code of what stands before it. Without a MESSAGE-INTEGRITY
a password does not matter. With a single one the packet is read under the password exactly when it
holds that code, and is otherwise refused for it. -/
theorem decode_with_password (packet : Bytes) (profile : Profile) (text : Bytes) (m : Message) :
    (decode packet profile (some text) = .ok m → decode packet profile none = .ok m ∧
      ((∃ a ∈ m.attributes, a.kind = .messageIntegrity) →
        ∃ front r back, Record.ofPacket packet = front ++ r :: back ∧
          r.type = AttributeKind.messageIntegrity.code ∧
          (∀ s ∈ front, s.type ≠ AttributeKind.messageIntegrity.code) ∧
          r.Authenticates profile text packet front)) ∧
    (decode packet profile none = .ok m →
      (∀ r ∈ Record.ofPacket packet, r.type ≠ AttributeKind.messageIntegrity.code) →
        decode packet profile (some text) = .ok m) ∧
    (decode packet profile none = .ok m → ∀ front r back,
      Record.ofPacket packet = front ++ r :: back →
      r.type = AttributeKind.messageIntegrity.code →
      (∀ s ∈ front ++ back, s.type ≠ AttributeKind.messageIntegrity.code) →
        (decode packet profile (some text) = .ok m ↔ r.Authenticates profile text packet front) ∧
        (¬ r.Authenticates profile text packet front → ∃ e,
          decode packet profile (some text) = .error e ∧
            r.RefusedFor profile text packet front e)) := by
  refine ⟨fun hdecode => ?_, fun hdecode hunsealed => ?_, ?_⟩
  · obtain ⟨hnone, hcodes⟩ := decode_some_eq_ok_iff.mp hdecode
    refine ⟨hnone, fun hsealed => ?_⟩
    obtain ⟨front, r, back, hrecords, htype, hfirst⟩ := exists_first_messageIntegrity hnone hsealed
    exact ⟨front, r, back, hrecords, htype, hfirst, hcodes front r back hrecords htype⟩
  · refine decode_some_eq_ok_iff.mpr ⟨hdecode, fun front r back hrecords htype => ?_⟩
    exact absurd htype (hunsealed r (by simp [hrecords]))
  · intro hdecode front r back hrecords htype hsingle
    refine ⟨⟨fun hsome => (decode_some_eq_ok_iff.mp hsome).2 front r back hrecords htype,
      fun hcode => decode_some_eq_ok_iff.mpr ⟨hdecode, ?_⟩⟩, fun hwrong => ?_⟩
    · intro front' r' back' hrecords' htype'
      obtain ⟨rfl, rfl⟩ := eq_of_append_cons_eq (hrecords.symm.trans hrecords') htype' hsingle
      exact hcode
    · exact exists_decode_some_eq_error hdecode hrecords htype
        (fun s hs => hsingle s (by simp [hs])) hwrong

/-- A request of `user` in `realm` with the code under the password `pw`. -/
def realmRequestPacket : Bytes :=
  [0x00, 0x01, 0x00, 0x2C, 0x21, 0x12, 0xA4, 0x42, 0x00, 0x00, 0x00, 0x00, 0x00, 0x00, 0x00, 0x00,
    0x00, 0x00, 0x00, 0x00, 0x00, 0x06, 0x00, 0x04, 0x75, 0x73, 0x65, 0x72, 0x00, 0x14, 0x00, 0x05,
    0x72, 0x65, 0x61, 0x6C, 0x6D, 0x00, 0x00, 0x00, 0x00, 0x08, 0x00, 0x14, 0x66, 0x90, 0x74, 0x3D,
    0x63, 0x82, 0x6B, 0x31, 0xFF, 0xF3, 0x2A, 0x93, 0x15, 0xC7, 0x6E, 0x14, 0x01, 0x59, 0xC3, 0x04]

/-- The same request with a FINGERPRINT behind the code. The length field counts the FINGERPRINT,
while the code is still taken with a length field that ends at the code. -/
def checkedRealmRequestPacket : Bytes :=
  [0x00, 0x01, 0x00, 0x34] ++ realmRequestPacket.drop 4 ++
    [0x80, 0x28, 0x00, 0x04, 0x3F, 0xD6, 0xDC, 0x57]

/-- Both requests are read under their password, and refused under another one for their code. What
the code of the second is taken of does not stand in the packet as it is. -/
theorem decode_with_password_realmRequest :
    (∃ front r, Record.ofPacket realmRequestPacket = front ++ [r] ∧
      r.Authenticates {} (Bytes.ofString "pw") realmRequestPacket front ∧
      ∃ e, decode realmRequestPacket {} (some (Bytes.ofString "no")) = .error e ∧
        r.RefusedFor {} (Bytes.ofString "no") realmRequestPacket front e) ∧
    ∃ front r last, Record.ofPacket checkedRealmRequestPacket = front ++ [r, last] ∧
      last.type = AttributeKind.fingerprint.code ∧
      Record.covered checkedRealmRequestPacket front ≠
        checkedRealmRequestPacket.take (Record.start front) ∧
      r.Authenticates {} (Bytes.ofString "pw") checkedRealmRequestPacket front ∧
      ∃ e, decode checkedRealmRequestPacket {} (some (Bytes.ofString "no")) = .error e ∧
        r.RefusedFor {} (Bytes.ofString "no") checkedRealmRequestPacket front e := by
  let front : List Record := [⟨AttributeKind.username.code, Bytes.ofString "user", []⟩,
    ⟨AttributeKind.realm.code, Bytes.ofString "realm", [0, 0, 0]⟩]
  let r : Record := ⟨AttributeKind.messageIntegrity.code, realmRequestPacket.slice 44 20, []⟩
  let last : Record := ⟨AttributeKind.fingerprint.code, [0x3F, 0xD6, 0xDC, 0x57], []⟩
  let attributes : List Attribute := [.username (Bytes.ofString "user"),
    .realm (Bytes.ofString "realm"), .messageIntegrity r.value]
  have hkey {packet back m} (hrecords : Record.ofPacket packet = front ++ r :: back)
      (hsingle : ∀ s ∈ front ++ back, s.type ≠ AttributeKind.messageIntegrity.code)
      (hread : ∀ text ∈ [none, some (Bytes.ofString "pw")], decode packet {} text = .ok m)
      (hwrong : decode packet {} (some (Bytes.ofString "no")) ≠ .ok m) :
      r.Authenticates {} (Bytes.ofString "pw") packet front ∧
        ∃ e, decode packet {} (some (Bytes.ofString "no")) = .error e ∧
          r.RefusedFor {} (Bytes.ofString "no") packet front e := by
    have hnone : decode packet {} none = .ok m := hread none (by simp)
    obtain ⟨-, -, hpw⟩ := decode_with_password packet {} (Bytes.ofString "pw") m
    obtain ⟨-, -, hno⟩ := decode_with_password packet {} (Bytes.ofString "no") m
    obtain ⟨hiff, -⟩ := hpw hnone front r back hrecords rfl hsingle
    obtain ⟨hiff', hrefused⟩ := hno hnone front r back hrecords rfl hsingle
    exact ⟨hiff.mp (hread _ (by simp)), hrefused fun hcode => hwrong (hiff'.mpr hcode)⟩
  constructor
  · have hrecords : Record.ofPacket realmRequestPacket = front ++ [r] := by decide +kernel
    have hread : ∀ text ∈ [none, some (Bytes.ofString "pw")],
        decode realmRequestPacket {} text = .ok ⟨{ length := 44 }, attributes⟩ := by
      decide +kernel
    exact ⟨front, r, hrecords, hkey hrecords (by decide) hread (by decide +kernel)⟩
  · have hrecords : Record.ofPacket checkedRealmRequestPacket = front ++ [r, last] := by
      decide +kernel
    have hread : ∀ text ∈ [none, some (Bytes.ofString "pw")],
        decode checkedRealmRequestPacket {} text =
          .ok ⟨{ length := 52 }, attributes ++ [.fingerprint 0x3FD6DC57]⟩ := by
      decide +kernel
    have hpatched : Record.covered checkedRealmRequestPacket front ≠
        checkedRealmRequestPacket.take (Record.start front) := by decide +kernel
    exact ⟨front, r, last, hrecords, rfl, hpatched,
      hkey hrecords (by decide) hread (by decide +kernel)⟩

end Message

end Stun
