import Stun.Bytes.Item
import Stun.Error.Report
import Stun.Proofs.AttributeRecord
import Stun.Proofs.Reading

/-!
# Headers are read where they are written

The message type, the cookie and the free fields of a header are laid out in twenty bytes without a
bit to spare: every row of twenty bytes is the header of at most one message, which is written as
these bytes again. A reader passes over twenty bytes as soon as they are there, whatever they say.

A packet can be looked at for its header alone, before its attributes are read. That look and the
reading of the whole packet agree on what starts with a header: reading stops at the header exactly
where the look finds none, and no failure behind the header is one of the header, save where a
preparation of credentials passes one off as its own.

## Main definitions

* `Header.write`: a packet with a header written behind it, field by field.
* `Message.StopsAtHeader`: reading a packet fails in the call that reads its header.

## Main results

* `Header.exists_read_iff`, `Header.read_eq_ok`: which bytes a header is read from, and which.
* `Header.read_write`: a header is read where it is written.
* `Message.category_of_decode`: a failure behind the header is none of the header.
* `Header.read_inverts_write`: headers are read and written back and forth, and found or missed by
  both entry points alike.
-/

namespace Stun

namespace Bytes

theorem slice_drop (bytes : Bytes) (start offset count : Nat) :
    slice (bytes.drop start) offset count = bytes.slice (start + offset) count := by
  rw [slice, slice, List.drop_drop]

theorem slice_take {bytes : Bytes} {size offset count : Nat} (h : offset + count ≤ size) :
    slice (bytes.take size) offset count = bytes.slice offset count := by
  rw [slice, slice, List.drop_take, List.take_take, Nat.min_eq_left (by omega)]

end Bytes

/-! ### One header -/

namespace Header

variable {packet front back : Bytes} {position : Nat} {r : Reader} {h : Header}

/-- A packet with a header written behind it, field by field. -/
def write (packet : Bytes) (h : Header) : Bytes :=
  [Item.u16 (messageType h.method h.messageClass), .u16 h.length, .u32 magicCookie,
    .bytes h.id.toList].foldl Item.write packet

theorem write_eq (packet : Bytes) (h : Header) : h.write packet = packet ++ h.bytes := by
  simp only [write, List.foldl_cons, List.foldl_nil, Item.write, Item.toBytes, bytes,
    List.append_assoc]

theorem read_of_lt (hlt : r.remaining < size) : read r = (.error .headerTooShort, r) := by
  rw [read, Reader.take?_eq_none_iff.mpr hlt]

theorem read_of_le (hle : size ≤ r.remaining) :
    read r = (ofBytes (r.rest.take size), r.advance size) := by
  rw [read, Reader.take?_eq_some_iff.mpr ⟨hle, rfl, rfl⟩]

/-- A header is read from a cookie and a message type for binding, wherever they stand. -/
theorem exists_read_iff : (∃ h, (read r).1 = .ok h) ↔
    size ≤ r.remaining ∧ r.rest.slice 4 4 = Bytes.ofUInt32 magicCookie ∧
      ∃ c, r.rest.slice 0 2 = Bytes.ofUInt16 (messageType .binding c) := by
  by_cases hle : size ≤ r.remaining
  · have hlen : (r.rest.take size).length = size := List.length_take_of_le hle
    rw [read_of_le hle, exists_ofBytes_iff hlen, Bytes.slice_take (by decide),
      Bytes.slice_take (by decide)]
    exact (and_iff_right hle).symm
  · rw [read_of_lt (Nat.not_le.mp hle)]
    exact ⟨fun ⟨_, hread⟩ => absurd hread nofun, fun hread => absurd hread.1 hle⟩

/-- A header that is read is for binding and is written as the bytes that it was read from. -/
theorem read_eq_ok (hread : (read r).1 = .ok h) :
    size ≤ r.remaining ∧ h.method = .binding ∧ r.rest.take size = h.bytes := by
  obtain ⟨hle, -⟩ := exists_read_iff.mp ⟨h, hread⟩
  rw [read_of_le hle] at hread
  exact ⟨hle, (ofBytes_eq_ok_iff (List.length_take_of_le hle)).mp hread⟩

/-- The fields of a header stand where it was read from. -/
theorem slices_of_read (hover : r.IsOver packet) (hread : (read r).1 = .ok h) :
    packet.slice r.position size = h.bytes ∧
      packet.slice r.position 2 = Bytes.ofUInt16 (messageType .binding h.messageClass) ∧
      packet.slice (r.position + 2) 2 = Bytes.ofUInt16 h.length ∧
      packet.slice (r.position + 8) 12 = h.id.toList := by
  obtain ⟨-, hmethod, hbytes⟩ := read_eq_ok hread
  rw [hover.2] at hbytes
  have hslice (offset count : Nat) (hle : offset + count ≤ size) :
      packet.slice (r.position + offset) count = h.bytes.slice offset count := by
    rw [← hbytes, Bytes.slice_take hle, Bytes.slice_drop]
  refine ⟨hbytes, ?_, ?_, ?_⟩
  · rw [← hmethod, ← slice_bytes_type]
    exact hslice 0 2 (by decide)
  · rw [hslice 2 2 (by decide), ← slice_bytes_length]
    rfl
  · rw [hslice 8 12 (by decide), slice_bytes_id]

/-- A header for binding is read where it is written, and the reader then stands behind it. -/
theorem read_write (hmethod : h.method = .binding) (front back : Bytes) :
    let reader := Reader.ofBytes (h.write front ++ back)
    read (reader.advance front.length) = (.ok h, reader.advance (front.length + size)) := by
  intro reader
  have hrest : (reader.advance front.length).rest = h.bytes ++ back := by
    simp only [reader, Reader.advance, Reader.ofBytes, write_eq, List.append_assoc,
      List.drop_left' rfl]
  have hle : size ≤ (reader.advance front.length).remaining := by
    rw [Reader.remaining, hrest, List.length_append, length_bytes]
    exact Nat.le_add_right ..
  rw [read_of_le hle, hrest, List.take_left' h.length_bytes, ofBytes_bytes hmethod,
    Reader.advance_advance]

theorem category_of_read {e : Error} (hread : (read r).1 = .error e) :
    e.report.category = .headers := by
  unfold read at hread
  split at hread
  · obtain rfl := Except.error.inj hread
    rfl
  · unfold ofBytes at hread
    grind [Error.report]

theorem isSome_ofPacket?_iff :
    (ofPacket? packet).isSome ↔ ∀ e, (read (Reader.ofBytes packet)).1 ≠ .error e := by
  unfold ofPacket?
  cases (read (Reader.ofBytes packet)).1 <;> simp [Except.toOption]

end Header

/-! ### Failures behind the header -/

theorem DigestSuite.category_of_integrity {suite : DigestSuite} {key packet : Bytes} {e : Error}
    (hsize : Header.size ≤ packet.length) (h : suite.integrity key packet = .error e) :
    e.report.category ≠ .headers := by
  unfold DigestSuite.integrity at h
  grind [Error.report]

/-- A key is missing for the names, for the platform or for the preparation of the password. -/
theorem Profile.cause_of_key {profile : Profile} {names : Names} {text : Bytes} {e : Error}
    (h : profile.key names text = .error e) :
    Prep.apply profile.prep text = .error e ∨ e = .missingUsername ∨ e = .cryptoFailed := by
  unfold Profile.key Profile.longTermKey Profile.shortTermKey at h
  grind [Error.map_eq_error_iff]

theorem Attribute.category_of_ofRecord {id : TransactionId} {r : Record} {e : Error}
    (h : Attribute.ofRecord id r = .error e) : e.report.category = .attributes := by
  unfold Attribute.ofRecord at h
  split at h
  · obtain rfl := Except.error.inj h
    rfl
  · obtain rfl | rfl | ⟨family, rfl⟩ | ⟨limit, length, rfl⟩ := cause_of_ofValue h <;> rfl

namespace Survey

variable {id : TransactionId} {profile : Profile} {password : Option Bytes} {packet : Bytes}
  {s : Survey} {r : Record} {a : Attribute} {behind : Nat} {e : Error}

theorem category_of_checkFingerprint {received : UInt32}
    (h : s.checkFingerprint packet behind received = .error e) : e.report.category = .messages := by
  unfold checkFingerprint at h
  grind [Error.report]

theorem category_of_checkIntegrity {received : Bytes}
    (hoffset : Header.size ≤ (packet.take s.offset).length)
    (h : s.checkIntegrity profile password packet received = .error e) :
    e.report.category ≠ .headers ∨ ∃ text, Prep.apply profile.prep text = .error e := by
  unfold checkIntegrity at h
  split at h
  · cases h
  next text =>
  split at h
  · next e' hkey =>
    obtain rfl := Except.error.inj h
    obtain hprep | rfl | rfl := Profile.cause_of_key hkey
    · exact .inr ⟨text, hprep⟩
    · exact .inl nofun
    · exact .inl nofun
  split at h
  · next e' hcode =>
    obtain rfl := Except.error.inj h
    exact .inl (DigestSuite.category_of_integrity hoffset hcode)
  split at h
  · cases h
  · obtain rfl := Except.error.inj h
    exact .inl nofun

/-- A record is never refused for the header, save by the preparation of the password. -/
theorem category_of_visit (hoffset : Header.size ≤ (packet.take s.offset).length)
    (h : s.visit id profile password packet r = .error e) :
    e.report.category ≠ .headers ∨ ∃ text, Prep.apply profile.prep text = .error e := by
  unfold visit at h
  cases hr : Attribute.ofRecord id r with
  | ok a =>
    rw [hr] at h
    have hcheck := Error.map_eq_error_iff.mp h
    cases a with
    | fingerprint received =>
      left
      rw [category_of_checkFingerprint hcheck]
      exact nofun
    | messageIntegrity received => exact category_of_checkIntegrity hoffset hcheck
    | _ => cases hcheck
  | error e' =>
    rw [hr] at h
    simp only at h
    split at h
    · cases h
    · obtain rfl := Except.error.inj h
      left
      rw [Attribute.category_of_ofRecord hr]
      exact nofun

end Survey

namespace Message

variable {packet : Bytes} {profile : Profile} {password : Option Bytes} {m : Message} {e : Error}

/-- Reading a packet fails in the call that reads its header, and with what this call fails with. -/
def StopsAtHeader (packet : Bytes) (profile : Profile) (password : Option Bytes) (e : Error) :
    Prop :=
  (Header.read (Reader.ofBytes packet)).1 = .error e ∧ decode packet profile password = .error e

/-- Behind the header nothing is refused for the header, save by the preparation of the password. -/
theorem category_of_decode {h : Header}
    (hread : (Header.read (Reader.ofBytes packet)).1 = .ok h)
    (hdecode : decode packet profile password = .error e) :
    e.report.category ≠ .headers ∨ ∃ text, Prep.apply profile.prep text = .error e := by
  unfold decode at hdecode
  cases hfound : Header.read (Reader.ofBytes packet) with
  | mk result r =>
  rw [hfound] at hread hdecode
  obtain rfl : result = .ok h := hread
  obtain ⟨-, body, rfl, rfl⟩ := Header.read_ofBytes_eq_ok_iff.mp hfound
  simp only at hdecode
  split at hdecode
  · next e' hrun =>
    obtain rfl := Except.error.inj hdecode
    obtain ⟨front, r, back, s, -, hfront, hvisit⟩ := Error.foldlM_eq_error_iff.mp hrun
    obtain ⟨rfl, -⟩ := Survey.foldlM_visit.mp hfront
    refine Survey.category_of_visit ?_ hvisit
    rw [List.length_take, Survey.ofRecords, List.length_append, h.length_bytes]
    exact le_min (Nat.le_add_right ..) (Nat.le_add_right ..)
  · split at hdecode
    · cases hdecode
    · obtain rfl := Except.error.inj hdecode
      exact .inl (by decide)

theorem stopsAtHeader_iff :
    StopsAtHeader packet profile password e ↔
      (Header.read (Reader.ofBytes packet)).1 = .error e := by
  refine ⟨And.left, fun hread => ⟨hread, ?_⟩⟩
  unfold decode
  cases hfound : Header.read (Reader.ofBytes packet) with
  | mk result r =>
  rw [hfound] at hread
  obtain rfl : result = .error e := hread
  rfl

/-- Reading a packet and looking for its header agree. -/
theorem agree_ofPacket? (packet : Bytes) (profile : Profile) (password : Option Bytes) :
    ((Header.ofPacket? packet).isSome ↔ ∀ e, ¬ StopsAtHeader packet profile password e) ∧
    (∀ e, StopsAtHeader packet profile password e → e.report.category = .headers) ∧
    (∀ e, decode packet profile password = .error e → e.report.category = .headers →
      StopsAtHeader packet profile password e ∨ ∃ text, Prep.apply profile.prep text = .error e) ∧
    ∀ m, decode packet profile password = .ok m → Header.ofPacket? packet = some m.header := by
  simp only [stopsAtHeader_iff]
  refine ⟨Header.isSome_ofPacket?_iff, fun e => Header.category_of_read,
    fun e hdecode hcategory => ?_, fun m hdecode => ?_⟩
  · cases hread : (Header.read (Reader.ofBytes packet)).1 with
    | error e' =>
      have hstops : StopsAtHeader packet profile password e' := stopsAtHeader_iff.mpr hread
      exact .inl (congrArg _ (Except.error.inj (hstops.2.symm.trans hdecode)))
    | ok h => exact .inr ((category_of_decode hread hdecode).resolve_left (not_not.mpr hcategory))
  · obtain ⟨records, rfl, hm⟩ := decode_eq_ok_iff.mp hdecode
    exact Header.ofPacket?_eq_some_iff.mpr ⟨hm.method_eq, _, rfl⟩

end Message

/-! ### Both ways -/

/-- A header is read from twenty bytes with the cookie and a message type for binding, which say
all of it and are what it is written as, and whatever is written as a header is read as it. The
reader moves over twenty bytes or not at all. A packet has a header exactly where reading it does
not stop at its header, and then it is that of the message. -/
theorem Header.read_inverts_write :
    (∀ (packet : Bytes) (r : Reader), r.IsOver packet →
      ((∃ h, (read r).1 = .ok h) ↔ r.position + 20 ≤ packet.length ∧
        packet.slice (r.position + 4) 4 = Bytes.ofUInt32 magicCookie ∧
        ∃ c, packet.slice r.position 2 = Bytes.ofUInt16 (messageType .binding c)) ∧
      (∀ h, (read r).1 = .ok h →
        packet.slice r.position 2 = Bytes.ofUInt16 (messageType .binding h.messageClass) ∧
        h.method = .binding ∧ packet.slice (r.position + 2) 2 = Bytes.ofUInt16 h.length ∧
        packet.slice (r.position + 8) 12 = h.id.toList ∧ packet.slice r.position 20 = h.bytes ∧
        ∀ front, h.write front = front ++ packet.slice r.position 20) ∧
      (packet.length < r.position + 20 → (read r).2 = r) ∧
      (r.position + 20 ≤ packet.length → (read r).2 = r.advance 20)) ∧
    (∀ (c : MessageClass) (id : TransactionId) (length : UInt16) (front back : Bytes),
      let h : Header := ⟨c, .binding, id, length⟩
      let reader := Reader.ofBytes (h.write front ++ back)
      read (reader.advance front.length) = (.ok h, reader.advance (front.length + 20))) ∧
    ∀ (packet : Bytes) (profile : Profile) (password : Option Bytes),
      ((ofPacket? packet).isSome ↔
        ∀ e, ¬ Message.StopsAtHeader packet profile password e) ∧
      (∀ e, Message.StopsAtHeader packet profile password e → e.report.category = .headers) ∧
      (∀ e, Message.decode packet profile password = .error e → e.report.category = .headers →
        Message.StopsAtHeader packet profile password e ∨
          ∃ text, Prep.apply profile.prep text = .error e) ∧
      ∀ m, Message.decode packet profile password = .ok m → ofPacket? packet = some m.header := by
  refine ⟨fun packet r hover => ?_, fun c id length front back => read_write rfl front back,
    Message.agree_ofPacket?⟩
  have hposition := hover.position_le
  have hremaining : size ≤ r.remaining ↔ r.position + 20 ≤ packet.length := by
    rw [hover.remaining_eq, size]
    omega
  refine ⟨?_, fun h hread => ?_, fun hlt => ?_, fun hle => ?_⟩
  · rw [exists_read_iff, hremaining, hover.2, Bytes.slice_drop, Bytes.slice_drop]
    rfl
  · obtain ⟨hbytes, htype, hlength, hid⟩ := slices_of_read hover hread
    refine ⟨htype, (read_eq_ok hread).2.1, hlength, hid, hbytes, fun front => ?_⟩
    rw [write_eq, ← hbytes]
    rfl
  · rw [read_of_lt (Nat.not_le.mp fun hle => absurd (hremaining.mp hle) (Nat.not_le.mpr hlt))]
  · rw [read_of_le (hremaining.mpr hle)]
    rfl

end Stun
