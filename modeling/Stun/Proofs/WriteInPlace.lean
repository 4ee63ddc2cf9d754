import Stun.Bytes.Item
import Stun.Error.Report
import Stun.Proofs.AttributeRecord
import Stun.Proofs.Size

/-!
# Attributes written in place

A packet grows in place while an attribute is written, so a failure behind the first of its bytes
would leave half a record. The value is therefore put together in a buffer of its own, where it may
turn out to be too long, and the packet is touched only when nothing can fail any more. Here writing
is a program that changes a packet piece by piece. It fails for one of four causes, each under a
condition on the attribute alone, and leaves a packet on which it fails as it was.

## Main definitions

* `PacketWriter`, `PacketWriter.put`, `PacketWriter.runOn`: programs that write behind a packet.
* `PacketWriter.Appends`: a program appends some bytes, or fails without a trace.
* `Attribute.putValue`, `Attribute.writeInPlace`: an attribute written piece by piece.
* `Attribute.IsUnwritable`: why an attribute cannot be written.

## Main results

* `Attribute.toRecord_eq_error_iff`: an attribute has no record for one of four causes.
* `Attribute.runOn_writeInPlace`: writing in place does what `Attribute.write` does.
* `Attribute.failsAs_writeInPlace_iff`: when writing in place fails, and what is left then.
-/

namespace Stun

/-! ### Programs that write behind a packet -/

/-- A program that changes a packet and may fail. What it changed before it failed stays changed. -/
abbrev PacketWriter := ExceptT Error (StateM Bytes)

namespace PacketWriter

/-- How a program ends on a packet, and what it leaves of it. -/
def runOn (w : PacketWriter Unit) (packet : Bytes) : Except Error Unit × Bytes := w.run.run packet

/-- Writes an item at the end of the packet. -/
def put (item : Item) : PacketWriter Unit := modify (Item.write · item)

/-- A program appends some bytes to whatever packet it runs on, or fails and leaves the packet as
it is. -/
def Appends (w : PacketWriter Unit) (written : Except Error Bytes) : Prop :=
  ∀ packet, w.runOn packet = match written with
    | .ok bytes => (.ok (), packet ++ bytes)
    | .error e => (.error e, packet)

theorem appends_put (item : Item) : (put item).Appends (.ok item.toBytes) :=
  fun _ => rfl

theorem appends_throw (e : Error) : (throw e : PacketWriter Unit).Appends (.error e) :=
  fun _ => rfl

theorem appends_pure : (pure () : PacketWriter Unit).Appends (.ok []) :=
  fun packet => congrArg (Prod.mk _) packet.append_nil.symm

/-- Two programs in a row, the second of which succeeds, append what both append. -/
theorem Appends.bind {first second : PacketWriter Unit} {front : Except Error Bytes} {back : Bytes}
    (hfirst : first.Appends front) (hsecond : second.Appends (.ok back)) :
    (first >>= fun _ => second).Appends (front.map (· ++ back)) := by
  intro packet
  have hrun : (first >>= fun _ => second).runOn packet = match first.runOn packet with
      | (.ok _, packet') => second.runOn packet'
      | (.error e, packet') => (.error e, packet') := by
    simp only [runOn, ExceptT.run_bind, StateT.run_bind]
    rcases first.run.run packet with ⟨_ | _, _⟩ <;> rfl
  rw [hrun, hfirst packet]
  cases front with
  | error e => rfl
  | ok bytes =>
    exact (hsecond (packet ++ bytes)).trans (congrArg (Prod.mk _) (List.append_assoc ..))

/-- Such a program leaves a packet on which it fails as it was. -/
theorem Appends.snd_of_error {w : PacketWriter Unit} {written : Except Error Bytes}
    (h : w.Appends written) {packet : Bytes} {e : Error}
    (hfails : (w.runOn packet).1 = .error e) : (w.runOn packet).2 = packet := by
  rw [h packet] at hfails ⊢
  cases written with
  | error e => rfl
  | ok bytes => cases hfails

/-- Such a program leaves what was written before in front. -/
theorem Appends.isPrefix {w : PacketWriter Unit} {written : Except Error Bytes}
    (h : w.Appends written) (packet : Bytes) : packet <+: (w.runOn packet).2 := by
  rw [h packet]
  cases written with
  | error e => exact List.prefix_rfl
  | ok bytes => exact List.prefix_append packet bytes

/-- A program fails on a packet with a cause that is reported so. -/
def FailsAs (w : PacketWriter Unit) (packet : Bytes) (report : Error.Report) : Prop :=
  ∃ e, (w.runOn packet).1 = .error e ∧ e.report = report

theorem Appends.failsAs_iff {w : PacketWriter Unit} {written : Except Error Bytes}
    (h : w.Appends written) {packet : Bytes} {report : Error.Report} :
    w.FailsAs packet report ↔ ∃ e, written = .error e ∧ e.report = report := by
  rw [FailsAs, h packet]
  cases written <;> simp

end PacketWriter

/-! ### Values -/

open PacketWriter

namespace TransportAddress

/-- Writes an address as a value. -/
def putValue (a : TransportAddress) : PacketWriter Unit :=
  if a.family = ipv4Family ∨ a.family = ipv6Family then do
    put (.u8 0)
    put (.u8 a.family)
    put (.u16 a.port)
    put (.bytes a.octets)
  else throw (.invalidFamily a.family)

theorem appends_putValue (a : TransportAddress) : a.putValue.Appends a.toValue := by
  unfold putValue toValue
  split
  · exact (appends_put _).bind ((appends_put _).bind ((appends_put _).bind (appends_put _)))
  · exact appends_throw _

theorem toValue_eq_error_iff {a : TransportAddress} {e : Error} : a.toValue = .error e ↔
    a.family ≠ ipv4Family ∧ a.family ≠ ipv6Family ∧ e = .invalidFamily a.family := by
  unfold toValue
  grind

end TransportAddress

namespace Attribute

variable {id : TransactionId} {padding : UInt8} {packet : Bytes} {a : Attribute} {e : Error}
  {limit : Nat} {text : Bytes}

/-- Looks at a text before it is written. -/
def checkText (limit : Nat) (text : Bytes) : PacketWriter Unit :=
  if limit < text.length then throw (.textTooLong limit text.length)
  else if Utf8.isValid text then pure ()
  else throw .invalidText

theorem appends_checkText (limit : Nat) (text : Bytes) :
    (checkText limit text).Appends ((writableText limit text).map fun _ => []) := by
  unfold checkText writableText
  split
  · exact appends_throw _
  split
  · exact appends_pure
  · exact appends_throw _

/-- Writes a text that may be written. -/
def putText (limit : Nat) (text : Bytes) : PacketWriter Unit := do
  checkText limit text
  put (.bytes text)

theorem appends_putText (limit : Nat) (text : Bytes) :
    (putText limit text).Appends (writableText limit text) := by
  have happends := (appends_checkText limit text).bind (appends_put (.bytes text))
  cases htext : writableText limit text with
  | error e => rwa [htext] at happends
  | ok written =>
    obtain ⟨-, -, rfl⟩ := writableText_eq_ok_iff.mp htext
    rwa [htext] at happends

/-- Writes the value of an attribute. -/
def putValue (id : TransactionId) : Attribute → PacketWriter Unit
  | mappedAddress address => address.putValue
  | xorMappedAddress address => (address.masked id).putValue
  | alternateServer address => address.putValue
  | username text => putText usernameLimit text
  | realm text => putText textLimit text
  | nonce text => putText textLimit text
  | software text => putText textLimit text
  | messageIntegrity hmac => put (.bytes hmac)
  | fingerprint checksum => put (.u32 checksum)
  | errorCode error => do
    checkText textLimit error.reason
    put (.u16 0)
    put (.u8 error.hundreds)
    put (.u8 error.number)
    put (.bytes error.reason)
  | unknownAttributes types => types.forM fun type => put (.u16 type)
  | priority value => put (.u32 value)
  | useCandidate => pure ()
  | iceControlled tieBreaker => put (.u64 tieBreaker)
  | iceControlling tieBreaker => put (.u64 tieBreaker)

theorem appends_forM_put (types : List UInt16) :
    (types.forM fun type => put (.u16 type)).Appends (.ok (Bytes.ofUInt16List types)) := by
  induction types with
  | nil => exact appends_pure
  | cons type types ih => exact (appends_put (.u16 type)).bind ih

theorem appends_putValue (id : TransactionId) (a : Attribute) :
    (a.putValue id).Appends (a.toValue id) := by
  cases a with
  | mappedAddress address | alternateServer address => exact address.appends_putValue
  | xorMappedAddress address => exact (address.masked id).appends_putValue
  | username text | realm text | nonce text | software text => exact appends_putText _ text
  | messageIntegrity hmac => exact appends_put (.bytes hmac)
  | fingerprint number | priority number => exact appends_put (.u32 number)
  | iceControlled number | iceControlling number => exact appends_put (.u64 number)
  | useCandidate => exact appends_pure
  | unknownAttributes types => exact appends_forM_put types
  | errorCode error =>
    have happends := (appends_checkText textLimit error.reason).bind <|
      (appends_put (.u16 0)).bind <| (appends_put (.u8 error.hundreds)).bind <|
        (appends_put (.u8 error.number)).bind (appends_put (.bytes error.reason))
    rw [toValue]
    cases htext : writableText textLimit error.reason with
    | error e => rwa [htext] at happends
    | ok written =>
      obtain ⟨-, -, rfl⟩ := writableText_eq_ok_iff.mp htext
      rwa [htext] at happends

/-! ### Records -/

/-- Writes an attribute at the end of the packet. Its value is put together first, in a buffer of
its own. -/
def writeInPlace (id : TransactionId) (padding : UInt8) (a : Attribute) : PacketWriter Unit :=
  match (a.putValue id).runOn [] with
  | (.error e, _) => throw e
  | (.ok _, value) =>
    if Record.maxLength < value.length then throw (.valueTooLong Record.maxLength value.length)
    else do
      put (.u16 a.kind.code)
      put (.u16 (UInt16.ofNat value.length))
      put (.bytes value)
      put (.padding (Record.paddingLength value.length) padding)

theorem appends_writeInPlace (id : TransactionId) (padding : UInt8) (a : Attribute) :
    (a.writeInPlace id padding).Appends ((a.toRecord id padding).map Record.bytes) := by
  unfold writeInPlace toRecord
  rw [appends_putValue id a []]
  cases a.toValue id with
  | error e => exact appends_throw e
  | ok value =>
    simp only [List.nil_append]
    split
    · exact appends_throw _
    · have happends := (appends_put (.u16 a.kind.code)).bind <|
        (appends_put (.u16 (UInt16.ofNat value.length))).bind <| (appends_put (.bytes value)).bind
          (appends_put (.padding (Record.paddingLength value.length) padding))
      simpa only [Except.map, Record.bytes, Item.toBytes, List.append_assoc] using happends

/-- Writing in place does what `Attribute.write` does, and leaves the packet alone where that
fails. -/
theorem runOn_writeInPlace (id : TransactionId) (padding : UInt8) (a : Attribute)
    (packet : Bytes) : (a.writeInPlace id padding).runOn packet =
      match a.write id padding packet with
      | .ok packet' => (.ok (), packet')
      | .error e => (.error e, packet) := by
  rw [appends_writeInPlace id padding a packet, write]
  cases a.toRecord id padding <;> rfl

/-! ### When an attribute cannot be written -/

theorem writableText_eq_error_iff :
    writableText limit text = .error e ↔
      (limit < text.length ∧ e = .textTooLong limit text.length) ∨
      (text.length ≤ limit ∧ (∀ chars, text ≠ Utf8.encode chars) ∧ e = .invalidText) := by
  have hvalid : (∀ chars, text ≠ Utf8.encode chars) ↔ Utf8.isValid text = false := by
    rw [← Bool.not_eq_true, Utf8.isValid_iff, not_exists]
  rw [hvalid]
  unfold writableText
  grind

/-- The text of an attribute that holds one, with the greatest size of such a text. -/
def limitedText? : Attribute → Option (Nat × Bytes)
  | username text => some (512, text)
  | realm text | nonce text | software text => some (763, text)
  | errorCode error => some (763, error.reason)
  | _ => none

/-- Why an attribute cannot be written. -/
inductive IsUnwritable : Attribute → Error → Prop
  /-- An address of no known family. -/
  | family {a : Attribute} {address : TransportAddress} (haddress : a.address? = some address)
      (hipv4 : address.family ≠ ipv4Family) (hipv6 : address.family ≠ ipv6Family) :
      IsUnwritable a (.invalidFamily address.family)
  /-- A text above the limit of its kind, UTF-8 or not. -/
  | longText {a : Attribute} {limit : Nat} {text : Bytes}
      (htext : a.limitedText? = some (limit, text)) (hlong : limit < text.length) :
      IsUnwritable a (.textTooLong limit text.length)
  /-- A text within the limit that is no UTF-8. -/
  | brokenText {a : Attribute} {limit : Nat} {text : Bytes}
      (htext : a.limitedText? = some (limit, text)) (hshort : text.length ≤ limit)
      (hbroken : ∀ chars, text ≠ Utf8.encode chars) : IsUnwritable a .invalidText
  /-- A code that is longer than the length field can say. -/
  | longCode {hmac : Bytes} (hlong : 65535 < hmac.length) :
      IsUnwritable (messageIntegrity hmac) (.valueTooLong 65535 hmac.length)
  /-- More types than the length field can say, which counts two bytes for each. -/
  | manyTypes {types : List UInt16} (hmany : 32767 < types.length) :
      IsUnwritable (unknownAttributes types) (.valueTooLong 65535 (2 * types.length))

theorem toValue_eq_error_iff : a.toValue id = .error e ↔
    (∃ address, a.address? = some address ∧ address.family ≠ ipv4Family ∧
      address.family ≠ ipv6Family ∧ e = .invalidFamily address.family) ∨
    ∃ limit text, a.limitedText? = some (limit, text) ∧ writableText limit text = .error e := by
  cases a with simp only [toValue, address?, limitedText?]
  | mappedAddress address | alternateServer address | xorMappedAddress address =>
    simp [TransportAddress.toValue_eq_error_iff]
  | username text | realm text | nonce text | software text =>
    simp [usernameLimit, textLimit]
  | errorCode error =>
    simp [Error.map_eq_error_iff, textLimit]
  | _ => simp

/-- Only a code and a list of types can have a value that is too long. -/
theorem cases_of_toValue_of_lt {value : Bytes} (hvalue : a.toValue id = .ok value)
    (hlong : Record.maxLength < value.length) :
    a = messageIntegrity value ∨ ∃ types, a = unknownAttributes types ∧
      value.length = 2 * types.length := by
  rw [Record.maxLength] at hlong
  have hlength : a ≠ messageIntegrity [] → value.length = a.valueLength :=
    length_of_toValue hvalue
  cases a with simp only [toValue, valueLength] at hvalue hlength
  | mappedAddress address | alternateServer address | xorMappedAddress address =>
    have hsize := address.size_le
    have hhead : TransportAddress.headSize = 4 := rfl
    have := hlength (by simp)
    omega
  | username text | realm text | nonce text | software text =>
    obtain ⟨hle, -, rfl⟩ := writableText_eq_ok_iff.mp hvalue
    have hlimits : usernameLimit = 512 ∧ textLimit = 763 := ⟨rfl, rfl⟩
    omega
  | errorCode error =>
    obtain ⟨reason, hreason, -⟩ := Error.map_eq_ok_iff.mp hvalue
    obtain ⟨hle, -, -⟩ := writableText_eq_ok_iff.mp hreason
    have hlimit : textLimit = 763 := rfl
    have := hlength (by simp)
    omega
  | messageIntegrity hmac => exact .inl (congrArg _ (Except.ok.inj hvalue))
  | unknownAttributes types => exact .inr ⟨types, rfl, hlength (by simp)⟩
  | _ =>
    have := hlength (by simp)
    omega

theorem toRecord_eq_error : a.toRecord id padding = .error e ↔
    a.toValue id = .error e ∨ ∃ value, a.toValue id = .ok value ∧
      Record.maxLength < value.length ∧ e = .valueTooLong Record.maxLength value.length := by
  unfold toRecord
  cases a.toValue id <;> grind

/-- An attribute has no record for one of these causes. -/
theorem toRecord_eq_error_iff : a.toRecord id padding = .error e ↔ a.IsUnwritable e := by
  rw [toRecord_eq_error, toValue_eq_error_iff]
  constructor
  · rintro ((⟨address, haddress, hipv4, hipv6, rfl⟩ | ⟨limit, text, htext, hcheck⟩) |
      ⟨value, hvalue, hlong, rfl⟩)
    · exact .family haddress hipv4 hipv6
    · obtain ⟨hlong, rfl⟩ | ⟨hshort, hbroken, rfl⟩ := writableText_eq_error_iff.mp hcheck
      · exact .longText htext hlong
      · exact .brokenText htext hshort hbroken
    · obtain rfl | ⟨types, rfl, hlength⟩ := cases_of_toValue_of_lt hvalue hlong
      · exact .longCode hlong
      · rw [hlength] at hlong ⊢
        rw [Record.maxLength] at hlong
        exact .manyTypes (by omega)
  · intro h
    cases h with
    | family haddress hipv4 hipv6 => exact .inl (.inl ⟨_, haddress, hipv4, hipv6, rfl⟩)
    | longText htext hlong =>
      exact .inl (.inr ⟨_, _, htext, writableText_eq_error_iff.mpr (.inl ⟨hlong, rfl⟩)⟩)
    | brokenText htext hshort hbroken =>
      exact .inl (.inr ⟨_, _, htext,
        writableText_eq_error_iff.mpr (.inr ⟨hshort, hbroken, rfl⟩)⟩)
    | longCode hlong => exact .inr ⟨_, rfl, hlong, rfl⟩
    | manyTypes hmany =>
      refine .inr ⟨_, rfl, ?_, ?_⟩ <;> rw [Bytes.length_ofUInt16List]
      · rw [Record.maxLength]
        omega
      · rfl

/-- What writing in place fails with, as it is reported. -/
theorem failsAs_writeInPlace {report : Error.Report} :
    (a.writeInPlace id padding).FailsAs packet report ↔
      (∃ address, a.address? = some address ∧ address.family ≠ 1 ∧ address.family ≠ 2 ∧
        report = ⟨.attributes, 5, .number address.family.toUInt16⟩) ∨
      (∃ limit text, a.limitedText? = some (limit, text) ∧ limit < text.length ∧
        report = ⟨.attributes, 7, .size limit text.length⟩) ∨
      (∃ limit text, a.limitedText? = some (limit, text) ∧ text.length ≤ limit ∧
        (∀ chars, text ≠ Utf8.encode chars) ∧ report = ⟨.attributes, 3, .none⟩) ∨
      (∃ hmac, a = messageIntegrity hmac ∧ 65535 < hmac.length ∧
        report = ⟨.attributes, 2, .size 65535 hmac.length⟩) ∨
      ∃ types, a = unknownAttributes types ∧ 32767 < types.length ∧
        report = ⟨.attributes, 2, .size 65535 (2 * types.length)⟩ := by
  rw [(appends_writeInPlace id padding a).failsAs_iff]
  simp only [Error.map_eq_error_iff, toRecord_eq_error_iff]
  constructor
  · rintro ⟨e, hcause, rfl⟩
    cases hcause with
    | family haddress hipv4 hipv6 => exact .inl ⟨_, haddress, hipv4, hipv6, rfl⟩
    | longText htext hlong => exact .inr (.inl ⟨_, _, htext, hlong, rfl⟩)
    | brokenText htext hshort hbroken =>
      exact .inr (.inr (.inl ⟨_, _, htext, hshort, hbroken, rfl⟩))
    | longCode hlong => exact .inr (.inr (.inr (.inl ⟨_, rfl, hlong, rfl⟩)))
    | manyTypes hmany => exact .inr (.inr (.inr (.inr ⟨_, rfl, hmany, rfl⟩)))
  · rintro (⟨_, haddress, hipv4, hipv6, rfl⟩ | ⟨_, _, htext, hlong, rfl⟩ |
      ⟨_, _, htext, hshort, hbroken, rfl⟩ | ⟨_, rfl, hlong, rfl⟩ | ⟨_, rfl, hmany, rfl⟩)
    · exact ⟨_, .family haddress hipv4 hipv6, rfl⟩
    · exact ⟨_, .longText htext hlong, rfl⟩
    · exact ⟨_, .brokenText htext hshort hbroken, rfl⟩
    · exact ⟨_, .longCode hlong, rfl⟩
    · exact ⟨_, .manyTypes hmany, rfl⟩

/-- An attribute is written in place as `Attribute.write` writes it, unless its address is of no
known family, its text is above the limit or no UTF-8, or its value is longer than the length field
can say, and each of these is reported as itself. A packet is left as it was on a failure, and stays
in front of what is written. -/
theorem failsAs_writeInPlace_iff (a : Attribute) (id : TransactionId) (padding : UInt8)
    (packet : Bytes) :
    let writer := a.writeInPlace id padding
    (writer.runOn packet = match a.write id padding packet with
      | .ok packet' => (.ok (), packet')
      | .error e => (.error e, packet)) ∧
    (∀ detail, writer.FailsAs packet ⟨.attributes, 5, detail⟩ ↔
      ∃ address, a.address? = some address ∧ address.family ≠ 1 ∧ address.family ≠ 2 ∧
        detail = .number address.family.toUInt16) ∧
    (∀ detail, writer.FailsAs packet ⟨.attributes, 7, detail⟩ ↔
      ∃ limit text, a.limitedText? = some (limit, text) ∧ limit < text.length ∧
        detail = .size limit text.length) ∧
    (∀ detail, writer.FailsAs packet ⟨.attributes, 3, detail⟩ ↔
      ∃ limit text, a.limitedText? = some (limit, text) ∧ text.length ≤ limit ∧
        (∀ chars, text ≠ Utf8.encode chars) ∧ detail = .none) ∧
    (∀ detail, writer.FailsAs packet ⟨.attributes, 2, detail⟩ ↔
      (∃ hmac, a = messageIntegrity hmac ∧ 65535 < hmac.length ∧
        detail = .size 65535 hmac.length) ∨
      ∃ types, a = unknownAttributes types ∧ 32767 < types.length ∧
        detail = .size 65535 (2 * types.length)) ∧
    (∀ report, writer.FailsAs packet report →
      report.category = .attributes ∧ report.code ∈ [5, 7, 3, 2]) ∧
    (∀ e, (writer.runOn packet).1 = .error e → (writer.runOn packet).2 = packet) ∧
    ((writer.runOn packet).1 = .ok () → packet <+: (writer.runOn packet).2) := by
  intro writer
  have happends := appends_writeInPlace id padding a
  refine ⟨runOn_writeInPlace id padding a packet, fun detail => ?_, fun detail => ?_,
    fun detail => ?_, fun detail => ?_, fun report hfails => ?_,
    fun e hfails => happends.snd_of_error hfails, fun _ => happends.isPrefix packet⟩
  · simp [writer, failsAs_writeInPlace]
  · simp [writer, failsAs_writeInPlace]
  · simp [writer, failsAs_writeInPlace]
  · simp [writer, failsAs_writeInPlace]
  · obtain ⟨_, -, -, -, rfl⟩ | ⟨_, _, -, -, rfl⟩ | ⟨_, _, -, -, -, rfl⟩ | ⟨_, -, -, rfl⟩ |
      ⟨_, -, -, rfl⟩ := failsAs_writeInPlace.mp hfails <;> simp

end Attribute

end Stun
