import Stun.Proofs.Writing

/-!
# Long-term credentials

A message is given long-term credentials as a whole or not at all: both names are prepared before
the first attribute is added. Here the message is changed in place, where a failure between two
additions would leave it half changed. The names that are added come last, so the key of the
MESSAGE-INTEGRITY behind them is made of them whatever names the message gave before. It is made of
them as they are, since writing prepares the password alone.

## Main definitions

* `Message.addLongTermInPlace`: adding credentials to a message that is changed on the way.
* `Message.EndsWithCode`: a packet ends with the code of what stands before it.

## Main results

* `Message.run_addLongTermInPlace`: changing in place does what `Message.addLongTerm` does.
* `Message.exists_code_of_encode`: the code that a MESSAGE-INTEGRITY in the last place becomes.
* `Message.addLongTerm_authenticates`: credentials are added or nothing is, and the packet that is
  written with them ends with the code under their key.
-/

namespace Stun

namespace Attribute

/-- The record of a code, which takes twenty-four bytes. -/
def codeRecord (code : Vector UInt8 20) : Record :=
  ⟨AttributeKind.messageIntegrity.code, code.toList, []⟩

theorem toRecord_messageIntegrity (id : TransactionId) (padding : UInt8)
    (code : Vector UInt8 20) :
    (messageIntegrity code.toList).toRecord id padding = .ok (codeRecord code) := by
  rw [toRecord_eq_ok_iff, codeRecord, Vector.length_toList]
  exact ⟨rfl, by decide, rfl, rfl⟩

@[simp] theorem size_codeRecord (code : Vector UInt8 20) :
    (codeRecord code).size = integrityRecordSize := by
  rw [Record.size, codeRecord, Vector.length_toList]
  rfl

theorem bytes_codeRecord (code : Vector UInt8 20) :
    (codeRecord code).bytes = [0x00, 0x08, 0x00, 0x14] ++ code.toList := by
  have hhead : Bytes.ofUInt16 AttributeKind.messageIntegrity.code ++
      Bytes.ofUInt16 (UInt16.ofNat 20) = [0x00, 0x08, 0x00, 0x14] := by decide
  rw [Record.bytes, codeRecord, Vector.length_toList, List.append_nil, hhead]

end Attribute

namespace Message

variable {m : Message} {profile : Profile} {password packet : Bytes}

/-! ### The last code of a packet -/

/-- A packet ends with the code under a key of what stands before it, with the length field that
counts the code as well. -/
structure EndsWithCode (suite : DigestSuite) (key packet : Bytes) (code : Vector UInt8 20) :
    Prop where
  /-- The last bytes are those of a MESSAGE-INTEGRITY. -/
  drop_eq : packet.drop (packet.length - integrityRecordSize) =
    [0x00, 0x08, 0x00, 0x14] ++ code.toList
  /-- They are a record of the packet, behind all others. -/
  ofPacket_eq : Record.ofPacket packet =
    Record.ofPacket (packet.take (packet.length - integrityRecordSize)) ++
      [Attribute.codeRecord code]
  /-- The length fits into its field. -/
  length_le : packet.length - integrityRecordSize + 4 ≤ maxMessageLength
  /-- The code is taken of the bytes before it. -/
  code_eq : suite.hmacSha1 key (withLength (packet.take (packet.length - integrityRecordSize))
    (packet.length - integrityRecordSize + 4)) = some code

/-- A MESSAGE-INTEGRITY that is to be computed in the last place becomes the code of the packet
before it, under the key of the last names. -/
theorem exists_code_of_encode
    (hencode : m.addMessageIntegrity.encode profile (some password) = .ok packet) :
    ∃ key code, profile.key (Names.ofAttributes m.attributes) password = .ok key ∧
      EndsWithCode profile.suite key packet code := by
  obtain ⟨all, hwritten, -, rfl⟩ := encode_eq_ok_iff.mp hencode
  obtain ⟨records, r, resolved, rfl, hfront, hresolved, hr⟩ := hwritten.exists_of_concat
  rw [Attribute.ResolvesTo, if_pos rfl] at hresolved
  obtain ⟨text, key, code, htext, hkey, hroom, hcode, rfl⟩ := hresolved
  obtain rfl := Option.some.inj htext
  obtain rfl := Except.ok.inj ((Attribute.toRecord_messageIntegrity _ _ code).symm.trans hr)
  -- The length field of the whole packet is the one that the code is taken with.
  let front := m.header.packet records integrityRecordSize
  have hpacket : m.addMessageIntegrity.header.packet (records ++ [Attribute.codeRecord code]) 0 =
      front ++ ([0x00, 0x08, 0x00, 0x14] ++ code.toList) := by
    rw [Header.packet_concat, Attribute.size_codeRecord, Attribute.bytes_codeRecord]
    rfl
  have hlength : (front ++ ([0x00, 0x08, 0x00, 0x14] ++ code.toList)).length -
      integrityRecordSize = front.length := by
    rw [List.length_append, List.length_append, Vector.length_toList]
    exact Nat.add_sub_cancel front.length 24
  have hfield : front.length + 4 = (Record.concat records).length + integrityRecordSize := by
    rw [Header.length_packet, Header.size, integrityRecordSize]
    omega
  refine ⟨key, code, hkey, ?_⟩
  exact {
    drop_eq := by rw [hpacket, hlength, List.drop_left' rfl]
    ofPacket_eq := by
      rw [Header.ofPacket_packet hwritten.isComplete, hpacket, hlength, List.take_left' rfl,
        Header.ofPacket_packet hfront.isComplete]
    length_le := by rwa [hpacket, hlength, hfield]
    code_eq := by
      rw [hpacket, hlength, List.take_left' rfl, hfield, Header.withLength_packet]
      exact hcode }

/-! ### Adding credentials -/

section Adding

variable {prep : Option Prep} {username realm username' realm' : Bytes} {e : Error}

theorem addLongTerm_of_username_error (m : Message) (realm : Bytes)
    (husername : Prep.apply prep username = .error e) :
    m.addLongTerm prep username realm = .error e := by
  rw [addLongTerm, husername]

theorem addLongTerm_of_realm_error (m : Message)
    (husername : Prep.apply prep username = .ok username')
    (hrealm : Prep.apply prep realm = .error e) :
    m.addLongTerm prep username realm = .error e := by
  rw [addLongTerm, husername]
  exact Error.map_eq_error_iff.mpr hrealm

theorem addLongTerm_of_ok (m : Message) (husername : Prep.apply prep username = .ok username')
    (hrealm : Prep.apply prep realm = .ok realm') :
    m.addLongTerm prep username realm = .ok
      ⟨m.header, m.attributes ++ [.username username', .realm realm', .messageIntegrity []]⟩ := by
  rw [addLongTerm, husername]
  refine Error.map_eq_ok_iff.mpr ⟨realm', hrealm, ?_⟩
  simp only [addMessageIntegrity, add, List.append_assoc, List.cons_append, List.nil_append]

end Adding

/-- Adds a username, a realm and a MESSAGE-INTEGRITY to be computed to a message in place. -/
def addLongTermInPlace (prep : Option Prep) (username realm : Bytes) :
    ExceptT Error (StateM Message) Unit := do
  let username ← Prep.apply prep username
  let realm ← Prep.apply prep realm
  modify (·.add (.username username))
  modify (·.add (.realm realm))
  modify addMessageIntegrity

theorem run_addLongTermInPlace (m : Message) (prep : Option Prep) (username realm : Bytes) :
    (addLongTermInPlace prep username realm).run.run m =
      match m.addLongTerm prep username realm with
      | .error e => (.error e, m)
      | .ok m' => (.ok (), m') := by
  unfold addLongTermInPlace addLongTerm
  cases Prep.apply prep username with
  | error e => rfl
  | ok username =>
    cases Prep.apply prep realm with
    | error e => rfl
    | ok realm => rfl

/-- The key of a password behind a username and a realm is made of those two. -/
theorem key_ofAttributes_longTerm (attributes : List Attribute) {username realm key : Bytes} :
    profile.key (Names.ofAttributes (attributes ++ [.username username, .realm realm])) password =
        .ok key ↔
      ∃ prepared hash, Prep.apply profile.prep password = .ok prepared ∧
        profile.suite.md5 (longTermText username realm prepared) = some hash ∧
        hash.toList = key := by
  have hnames : Names.ofAttributes (attributes ++ [.username username, .realm realm]) =
      ⟨some username, some realm⟩ := Names.ofAttributes_append _ _
  rw [hnames, Profile.key, Error.map_eq_ok_iff]
  simp only [Profile.longTermKey_eq_ok_iff]
  constructor
  · rintro ⟨hash, ⟨prepared, hprep, hhash⟩, hkey⟩
    exact ⟨prepared, hash, hprep, hhash, hkey⟩
  · rintro ⟨prepared, hash, hprep, hhash, hkey⟩
    exact ⟨hash, ⟨prepared, hprep, hhash⟩, hkey⟩

/-- Where a name cannot be prepared a message stays as it is. Otherwise both names, as they are
prepared, and a MESSAGE-INTEGRITY to be computed are added to it, and a packet that it is written as
ends with the code under the key of these names and of the prepared password. -/
theorem addLongTerm_authenticates (m : Message) (prep : Option Prep) (username realm : Bytes) :
    (∀ e, Prep.apply prep username = .error e →
      m.addLongTerm prep username realm = .error e ∧
        (addLongTermInPlace prep username realm).run.run m = (.error e, m)) ∧
    (∀ username' e, Prep.apply prep username = .ok username' → Prep.apply prep realm = .error e →
      m.addLongTerm prep username realm = .error e ∧
        (addLongTermInPlace prep username realm).run.run m = (.error e, m)) ∧
    ∀ username' realm', Prep.apply prep username = .ok username' →
      Prep.apply prep realm = .ok realm' →
      let added : Message :=
        ⟨m.header, m.attributes ++ [.username username', .realm realm', .messageIntegrity []]⟩
      m.addLongTerm prep username realm = .ok added ∧
        (addLongTermInPlace prep username realm).run.run m = (.ok (), added) ∧
        ∀ profile password packet, added.encode profile (some password) = .ok packet →
          ∃ prepared hash code, Prep.apply profile.prep password = .ok prepared ∧
            profile.suite.md5 (longTermText username' realm' prepared) = some hash ∧
            EndsWithCode profile.suite hash.toList packet code := by
  refine ⟨fun e husername => ?_, fun username' e husername hrealm => ?_,
    fun username' realm' husername hrealm => ?_⟩
  · have hfail := addLongTerm_of_username_error m realm husername
    exact ⟨hfail, by rw [run_addLongTermInPlace, hfail]⟩
  · have hfail := addLongTerm_of_realm_error m husername hrealm
    exact ⟨hfail, by rw [run_addLongTermInPlace, hfail]⟩
  · intro added
    have hok : m.addLongTerm prep username realm = .ok added := addLongTerm_of_ok m husername hrealm
    refine ⟨hok, by rw [run_addLongTermInPlace, hok], fun profile password packet hencode => ?_⟩
    have hlast : added =
        addMessageIntegrity ⟨m.header, m.attributes ++ [.username username', .realm realm']⟩ := by
      rw [addMessageIntegrity, add, List.append_assoc]
      rfl
    rw [hlast] at hencode
    obtain ⟨key, code, hkey, hends⟩ := exists_code_of_encode hencode
    obtain ⟨prepared, hash, hprep, hhash, rfl⟩ := (key_ofAttributes_longTerm m.attributes).mp hkey
    exact ⟨prepared, hash, code, hprep, hhash, hends⟩

/-- A request that gives other names already. -/
def renamedRequest : Message where
  attributes := [.realm (Bytes.ofString "old"), .username (Bytes.ofString "old")]

/-- An `é` with a soft hyphen behind it, which preparation drops. -/
def hyphenatedName : Bytes := [0xC3, 0xA9, 0xC2, 0xAD]

/-- SASLprep on that name and on ASCII. -/
def hyphenPrep : Prep := fun text =>
  if text = hyphenatedName then .ok [0xC3, 0xA9] else Prep.ascii text

/-- The packet of that request with the name, the realm `realm` and the password `pw`. -/
def renamedPacket : Bytes :=
  [0x00, 0x01, 0x00, 0x3C, 0x21, 0x12, 0xA4, 0x42, 0x00, 0x00, 0x00, 0x00, 0x00, 0x00, 0x00, 0x00,
    0x00, 0x00, 0x00, 0x00, 0x00, 0x14, 0x00, 0x03, 0x6F, 0x6C, 0x64, 0x00, 0x00, 0x06, 0x00, 0x03,
    0x6F, 0x6C, 0x64, 0x00, 0x00, 0x06, 0x00, 0x02, 0xC3, 0xA9, 0x00, 0x00, 0x00, 0x14, 0x00, 0x05,
    0x72, 0x65, 0x61, 0x6C, 0x6D, 0x00, 0x00, 0x00, 0x00, 0x08, 0x00, 0x14, 0xDD, 0xAE, 0xAF, 0x7A,
    0xB2, 0x6D, 0xBB, 0x1A, 0x06, 0xC4, 0x7E, 0xAE, 0xDF, 0xC8, 0xA4, 0xB2, 0x4E, 0x2A, 0x25, 0x2D]

/-- A name and a realm with a control character leave the request as it is. With the name and
`realm` it is written although the prepared name would be refused if it were prepared again. -/
theorem addLongTerm_authenticates_renamedRequest :
    let run (username realm : Bytes) :=
      (addLongTermInPlace (some hyphenPrep) username realm).run.run renamedRequest
    let realm := Bytes.ofString "realm"
    run [0x07] realm = (.error .prepRejected, renamedRequest) ∧
      run hyphenatedName [0x07] = (.error .prepRejected, renamedRequest) ∧
      (run hyphenatedName realm).2.encode { prep := some .ascii } (some (Bytes.ofString "pw")) =
        .ok renamedPacket ∧
      Prep.ascii [0xC3, 0xA9] = .error .prepRejected ∧
      ∃ prepared hash code, Prep.ascii (Bytes.ofString "pw") = .ok prepared ∧
        DigestSuite.standard.md5 (longTermText [0xC3, 0xA9] realm prepared) = some hash ∧
        EndsWithCode .standard hash.toList renamedPacket code := by
  intro run realm
  obtain ⟨-, hrealm, hok⟩ :=
    addLongTerm_authenticates renamedRequest (some hyphenPrep) hyphenatedName [0x07]
  have hrefused := (addLongTerm_authenticates renamedRequest (some hyphenPrep) [0x07] realm).1
    .prepRejected rfl
  obtain ⟨-, hadded, hends⟩ := (addLongTerm_authenticates renamedRequest (some hyphenPrep)
    hyphenatedName realm).2.2 [0xC3, 0xA9] realm rfl (by decide +kernel)
  have hencode : (run hyphenatedName realm).2.encode { prep := some .ascii }
      (some (Bytes.ofString "pw")) = .ok renamedPacket := by decide +kernel
  have hsame : (run hyphenatedName realm).2 = _ := congrArg Prod.snd hadded
  refine ⟨hrefused.2, (hrealm [0xC3, 0xA9] .prepRejected rfl rfl).2, hencode, by decide, ?_⟩
  rw [hsame] at hencode
  exact hends { prep := some .ascii } (Bytes.ofString "pw") renamedPacket hencode

end Message

end Stun
