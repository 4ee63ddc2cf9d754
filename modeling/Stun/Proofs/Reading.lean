import Mathlib.Data.List.Induction
import Stun.Message.Decode
import Stun.Proofs.AttributeValue
import Stun.Proofs.Packet

/-!
# What reading a message comes to

A packet in the middle of being read is determined by the records passed so far: where the next
one starts, which attributes are kept, which names were given last and whether a MESSAGE-INTEGRITY
was among them. Reading succeeds exactly when the bytes behind a header are a row of records each
of which may follow those before it, so a packet that is read is described by its header and its
records without a word on the order in which they are looked at.

## Main definitions

* `Attribute.ofRecords`, `Attribute.keep`: the attributes of some records, and those of them that
  reading keeps.
* `Survey.ofRecords`: the packet in the middle of being read, behind some records.
* `Attribute.Fits`: whether an attribute may follow some records and stand before others.
* `Message.IsReadFrom`: a message is what some records behind its header are read as.

## Main results

* `Attribute.keep_ofRecords_append_cons`: what is kept of the attributes of records with a
  MESSAGE-INTEGRITY among them.
* `Survey.visit_ofRecords`, `Survey.foldlM_visit`: what one record and what some records in a row
  lead to.
* `Message.decode_eq_ok_iff`: the packets that are read as a given message.
* `Message.decode_eq_error`: what a packet is refused for.
-/

namespace Stun

/-! ### The attributes of records -/

namespace Attribute

/-- The attributes of some records, those of unknown kinds left out. -/
def ofRecords (id : TransactionId) (records : List Record) : List Attribute :=
  records.filterMap fun r => (ofRecord id r).toOption

/-- The attributes that reading keeps: behind the first MESSAGE-INTEGRITY only FINGERPRINT. -/
def keep : List Attribute → List Attribute
  | [] => []
  | a :: attributes =>
    if a.kind = .messageIntegrity then a :: attributes.filter (·.kind = .fingerprint)
    else a :: keep attributes

variable {id : TransactionId} {r : Record} {a : Attribute} {records : List Record}

@[simp] theorem ofRecords_nil : ofRecords id [] = [] := rfl

@[simp] theorem ofRecords_append (front back : List Record) :
    ofRecords id (front ++ back) = ofRecords id front ++ ofRecords id back :=
  List.filterMap_append

theorem ofRecords_cons_of_ok (h : ofRecord id r = .ok a) :
    ofRecords id (r :: records) = a :: ofRecords id records := by
  rw [ofRecords, List.filterMap_cons, h]
  rfl

theorem ofRecords_cons_of_error {e : Error} (h : ofRecord id r = .error e) :
    ofRecords id (r :: records) = ofRecords id records := by
  rw [ofRecords, List.filterMap_cons, h]
  rfl

theorem exists_type_eq_of_mem_ofRecords (h : a ∈ ofRecords id records) :
    ∃ r ∈ records, r.type = a.kind.code := by
  obtain ⟨r, hr, ha⟩ := List.mem_filterMap.mp h
  refine ⟨r, hr, ?_⟩
  cases hread : ofRecord id r with
  | ok b =>
    rw [hread] at ha
    obtain rfl := Option.some.inj ha
    exact (ofRecord_eq_ok_iff.mp hread).1.symm
  | error e => rw [hread] at ha; exact absurd ha nofun

theorem kind_ne_of_mem_ofRecords {kind : AttributeKind} (h : a ∈ ofRecords id records)
    (hrecords : ∀ r ∈ records, r.type ≠ kind.code) : a.kind ≠ kind := by
  obtain ⟨r, hr, htype⟩ := exists_type_eq_of_mem_ofRecords h
  rintro rfl
  exact hrecords r hr htype

theorem keep_eq_self {attributes : List Attribute}
    (h : ∀ b ∈ attributes, b.kind ≠ .messageIntegrity) : keep attributes = attributes := by
  induction attributes with
  | nil => rfl
  | cons b attributes ih =>
    rw [keep, if_neg (h b List.mem_cons_self), ih fun c hc => h c (List.mem_cons_of_mem b hc)]

/-- All attributes up to the first MESSAGE-INTEGRITY are kept, and only FINGERPRINT behind it. -/
theorem keep_append_cons {front back : List Attribute}
    (hfront : ∀ b ∈ front, b.kind ≠ .messageIntegrity) (ha : a.kind = .messageIntegrity) :
    keep (front ++ a :: back) = front ++ a :: back.filter (·.kind = .fingerprint) := by
  induction front with
  | nil => rw [List.nil_append, List.nil_append, keep, if_pos ha]
  | cons b front ih =>
    rw [List.cons_append, keep, if_neg (hfront b List.mem_cons_self),
      ih fun c hc => hfront c (List.mem_cons_of_mem b hc), List.cons_append]

/-- The same for the attributes of records. -/
theorem keep_ofRecords_append_cons {front back : List Record}
    (hfront : ∀ s ∈ front, s.type ≠ AttributeKind.messageIntegrity.code)
    (hr : r.type = AttributeKind.messageIntegrity.code) :
    keep (ofRecords id (front ++ r :: back)) = ofRecords id front ++
      messageIntegrity r.value :: (ofRecords id back).filter (·.kind = .fingerprint) := by
  have hread : ofRecord id r = .ok (messageIntegrity r.value) :=
    ofRecord_eq_messageIntegrity_iff.mpr ⟨hr, rfl⟩
  rw [ofRecords_append, ofRecords_cons_of_ok hread]
  exact keep_append_cons (fun b hb => kind_ne_of_mem_ofRecords hb hfront) rfl

theorem keep_concat (attributes : List Attribute) (a : Attribute) :
    keep (attributes ++ [a]) =
      if attributes.any (·.kind = .messageIntegrity) && a.kind ≠ .fingerprint then keep attributes
      else keep attributes ++ [a] := by
  induction attributes with
  | nil => simp [keep]
  | cons b attributes ih =>
    simp only [List.cons_append, keep, List.any_cons]
    by_cases hb : b.kind = .messageIntegrity
    · by_cases ha : a.kind = .fingerprint <;> simp [hb, ha]
    · simp only [hb, if_false, ih, decide_false, Bool.false_or]
      split <;> rfl

end Attribute

/-! ### Behind some records -/

namespace Survey

/-- The packet in the middle of being read, behind some records. -/
def ofRecords (id : TransactionId) (records : List Record) : Survey where
  offset := Header.size + (Record.concat records).length
  kept := (Attribute.keep (Attribute.ofRecords id records)).reverse
  names := Names.ofAttributes (Attribute.ofRecords id records)
  isSealed := (Attribute.ofRecords id records).any (·.kind = .messageIntegrity)

variable {id : TransactionId} {r : Record} {a : Attribute} {records : List Record}

theorem ofRecords_nil : ofRecords id [] = {} := rfl

theorem accept_ofRecords (h : Attribute.ofRecord id r = .ok a) :
    (ofRecords id records).accept ((ofRecords id records).offset + r.size) a =
      ofRecords id (records ++ [r]) := by
  simp only [accept, ofRecords, Attribute.ofRecords_append, Attribute.ofRecords_cons_of_ok h,
    Attribute.ofRecords_nil, Attribute.keep_concat, Names.ofAttributes_append, List.any_append,
    List.any_cons, List.any_nil, Bool.or_false, List.foldl_cons, List.foldl_nil,
    Record.concat_append, Record.concat_cons, Record.concat_nil, List.append_nil,
    List.length_append, Record.length_bytes, Nat.add_assoc]
  congr 1
  rw [apply_ite List.reverse, List.reverse_append]
  rfl

theorem passOver_ofRecords {e : Error} (h : Attribute.ofRecord id r = .error e) :
    { ofRecords id records with offset := (ofRecords id records).offset + r.size } =
      ofRecords id (records ++ [r]) := by
  simp only [ofRecords, Attribute.ofRecords_append, Attribute.ofRecords_cons_of_error h,
    Attribute.ofRecords_nil, List.append_nil, Record.concat_append, Record.concat_cons,
    Record.concat_nil, List.length_append, Record.length_bytes, Nat.add_assoc]

variable {profile : Profile} {password : Option Bytes} {packet : Bytes} {s : Survey}

/-- Whether a record may follow some others in a packet. -/
def Admits (id : TransactionId) (profile : Profile) (password : Option Bytes) (packet : Bytes)
    (front : List Record) (r : Record) : Prop :=
  r.IsReadable ∧ ∀ a, Attribute.ofRecord id r = .ok a →
    (ofRecords id front).check profile password packet ((ofRecords id front).offset + r.size) a =
      .ok ()

/-- Behind some records one more leads to the same as reading all of them. -/
theorem visit_ofRecords :
    (ofRecords id records).visit id profile password packet r = .ok s ↔
      s = ofRecords id (records ++ [r]) ∧ Admits id profile password packet records r := by
  unfold visit Admits
  simp only
  cases hr : Attribute.ofRecord id r with
  | ok a =>
    have hreadable := Record.isReadable_of_ofRecord hr
    simp only [Error.map_eq_ok_iff, accept_ofRecords hr]
    constructor
    · rintro ⟨⟨⟩, hcheck, rfl⟩
      refine ⟨rfl, hreadable, fun b hb => ?_⟩
      rw [← Except.ok.inj hb]
      exact hcheck
    · rintro ⟨rfl, -, hcheck⟩
      exact ⟨(), hcheck a rfl, rfl⟩
  | error e =>
    have hreadable := (Record.isReadable_iff : r.IsReadable ↔ _ ∨ (Attribute.ofRecord id r = _ ∧ _))
    simp only [hr, reduceCtorEq, exists_false, false_or, Except.error.injEq] at hreadable
    simp only [passOver_ofRecords hr, hreadable, reduceCtorEq, false_implies, implies_true,
      and_true]
    split
    · next hskip => exact ⟨fun h => ⟨(Except.ok.inj h).symm, hskip⟩, fun h => congrArg _ h.1.symm⟩
    · next hskip => exact ⟨nofun, fun h => absurd h.2 hskip⟩

private theorem forall_concat_iff {α : Type} {P : List α → α → Prop} {l : List α} {x : α} :
    (∀ front y back, l ++ [x] = front ++ y :: back → P front y) ↔
      (∀ front y back, l = front ++ y :: back → P front y) ∧ P l x := by
  constructor
  · intro h
    refine ⟨fun front y back hl => h front y (back ++ [x]) ?_, h l x [] rfl⟩
    rw [hl, List.append_assoc, List.cons_append]
  · rintro ⟨h, hx⟩ front y back hl
    rcases List.eq_nil_or_concat back with rfl | ⟨back, z, rfl⟩
    · obtain ⟨rfl, hy⟩ := List.append_inj' hl rfl
      obtain rfl := List.singleton_inj.mp hy
      exact hx
    · rw [List.concat_eq_append, ← List.cons_append, ← List.append_assoc] at hl
      exact h front y back (List.append_inj' hl rfl).1

/-- A record whose attribute is not fit to follow is refused for what the comparison says. -/
theorem visit_eq_error {e : Error} (hr : Attribute.ofRecord id r = .ok a)
    (hcheck : s.check profile password packet (s.offset + r.size) a = .error e) :
    s.visit id profile password packet r = .error e := by
  simp only [visit, hr, hcheck]
  rfl

/-- Some records in a row are read exactly when each of them may follow those before it. -/
theorem foldlM_visit :
    records.foldlM (visit id profile password packet) {} = .ok s ↔
      s = ofRecords id records ∧ ∀ front r back, records = front ++ r :: back →
        Admits id profile password packet front r := by
  induction records using List.reverseRecOn generalizing s with
  | nil =>
    rw [ofRecords_nil]
    constructor
    · intro h
      refine ⟨(Except.ok.inj h).symm, fun front r back h => ?_⟩
      exact absurd h (by simp)
    · rintro ⟨rfl, -⟩
      rfl
  | append_singleton records r ih =>
    rw [Error.foldlM_concat_eq_ok_iff, forall_concat_iff]
    constructor
    · rintro ⟨t, hrun, hvisit⟩
      obtain ⟨rfl, hrecords⟩ := ih.mp hrun
      obtain ⟨rfl, hlast⟩ := visit_ofRecords.mp hvisit
      exact ⟨rfl, hrecords, hlast⟩
    · rintro ⟨rfl, hrecords, hlast⟩
      exact ⟨_, ih.mpr ⟨rfl, hrecords⟩, visit_ofRecords.mpr ⟨rfl, hlast⟩⟩

end Survey

/-! ### Whole packets -/

/-- Whether an attribute may follow some records behind a header and stand before others. A
FINGERPRINT ends the packet and is the checksum of what stands before it. With a password a
MESSAGE-INTEGRITY is the code of what stands before it, under the last names before it. -/
def Attribute.Fits (profile : Profile) (password : Option Bytes) (h : Header)
    (front back : List Record) : Attribute → Prop
  | .fingerprint received =>
    back = [] ∧ Stun.fingerprint (h.bytes ++ Record.concat front) = received
  | .messageIntegrity received => ∀ text, password = some text → ∃ key code,
    profile.key (Names.ofAttributes (ofRecords h.id front)) text = .ok key ∧
      (Record.concat front).length + integrityRecordSize ≤ maxMessageLength ∧
      profile.suite.hmacSha1 key (h.packet front integrityRecordSize) = some code ∧
      code.toList = received
  | _ => True

namespace Attribute

variable {profile profile' : Profile} {password password' : Option Bytes} {h : Header}
  {front back : List Record} {a : Attribute}

/-- Only a MESSAGE-INTEGRITY depends on the password. -/
theorem Fits.of_kind_ne (ha : a.kind ≠ .messageIntegrity)
    (hfits : a.Fits profile password h front back) : a.Fits profile' password' h front back := by
  cases a with
  | messageIntegrity received => exact absurd rfl ha
  | _ => exact hfits

/-- Without a password only a FINGERPRINT may be out of place. -/
theorem fits_none (ha : a.kind ≠ .fingerprint) : a.Fits profile none h front back := by
  cases a with
  | fingerprint received => exact absurd rfl ha
  | messageIntegrity received => exact nofun
  | _ => trivial

end Attribute

namespace Survey

variable {profile : Profile} {password : Option Bytes} {h : Header} {front back : List Record}
  {r : Record} {a : Attribute}

private theorem take_offset :
    (h.bytes ++ Record.concat (front ++ r :: back)).take (ofRecords h.id front).offset =
      h.bytes ++ Record.concat front :=
  h.take_bytes_append_concat front (r :: back)

private theorem behind_eq_length_iff :
    (ofRecords h.id front).offset + r.size =
      (h.bytes ++ Record.concat (front ++ r :: back)).length ↔ back = [] := by
  rw [← Record.concat_eq_nil_iff, ← List.length_eq_zero_iff]
  simp only [ofRecords, List.length_append, Header.length_bytes, Record.concat_append,
    Record.concat_cons, Record.length_bytes]
  omega

theorem check_ofRecords_fingerprint {received : UInt32}
    (hne : fingerprint (h.bytes ++ Record.concat front) ≠ received) :
    (ofRecords h.id front).check profile password (h.bytes ++ Record.concat (front ++ [r]))
        ((ofRecords h.id front).offset + r.size) (.fingerprint received) =
      .error (.fingerprintMismatch received (fingerprint (h.bytes ++ Record.concat front))) := by
  have hlast : (ofRecords h.id front).offset + r.size =
      (h.bytes ++ Record.concat (front ++ [r])).length := behind_eq_length_iff.mpr rfl
  simp only [check, checkFingerprint, take_offset, hlast, if_neg hne, ne_eq, not_true, if_false]

/-- A MESSAGE-INTEGRITY is refused for what stands in the way of its code, or for another code. -/
theorem check_ofRecords_messageIntegrity {text received : Bytes} {e : Error}
    (hrefused : profile.key (Names.ofAttributes (Attribute.ofRecords h.id front)) text = .error e ∨
      ∃ key, profile.key (Names.ofAttributes (Attribute.ofRecords h.id front)) text = .ok key ∧
        (profile.suite.integrity key (h.bytes ++ Record.concat front) = .error e ∨
          ∃ code, profile.suite.integrity key (h.bytes ++ Record.concat front) = .ok code ∧
            code.toList ≠ received ∧ e = .integrityMismatch received code.toList)) :
    (ofRecords h.id front).check profile (some text)
        (h.bytes ++ Record.concat (front ++ r :: back)) ((ofRecords h.id front).offset + r.size)
        (.messageIntegrity received) = .error e := by
  simp only [check, checkIntegrity, take_offset]
  simp only [ofRecords]
  rcases hrefused with hkey | ⟨key, hkey, hcode | ⟨code, hcode, hne, rfl⟩⟩
  · simp only [hkey]
  · simp only [hkey, hcode]
  · simp only [hkey, hcode, if_neg hne]

theorem check_ofRecords :
    (ofRecords h.id front).check profile password (h.bytes ++ Record.concat (front ++ r :: back))
        ((ofRecords h.id front).offset + r.size) a = .ok () ↔
      a.Fits profile password h front back := by
  cases a with
  | fingerprint received =>
    simp only [check, checkFingerprint, take_offset, ne_eq, behind_eq_length_iff, Attribute.Fits]
    by_cases hback : back = [] <;> simp [hback]
  | messageIntegrity received =>
    simp only [check, checkIntegrity, take_offset, Attribute.Fits]
    cases password with
    | none => simp
    | some text =>
      simp only [Option.some.injEq, forall_eq', ofRecords]
      cases profile.key (Names.ofAttributes (Attribute.ofRecords h.id front)) text with
      | error e => simp
      | ok key =>
        simp only [Except.ok.injEq, exists_and_left, exists_eq_left']
        rw [← exists_and_left]
        simp only [← and_assoc, ← DigestSuite.integrity_eq_ok_iff]
        cases profile.suite.integrity key (h.bytes ++ Record.concat front) with
        | error e => simp
        | ok code => by_cases hcode : code.toList = received <;> simp [hcode]
  | _ => exact ⟨fun _ => trivial, fun _ => rfl⟩

end Survey

/-! ### Headers -/

namespace Header

variable {packet : Bytes} {h : Header} {r : Reader}

/-- The packets that start with a given header. -/
theorem read_ofBytes_eq_ok_iff :
    read (Reader.ofBytes packet) = (.ok h, r) ↔
      h.method = .binding ∧ ∃ body, packet = h.bytes ++ body ∧ r = ⟨size, body⟩ := by
  constructor
  · intro hread
    unfold read at hread
    cases htake : (Reader.ofBytes packet).take? size with
    | none =>
      rw [htake] at hread
      exact absurd hread nofun
    | some taken =>
      obtain ⟨bytes, r'⟩ := taken
      obtain ⟨hle, rfl, rfl⟩ := Reader.take?_eq_some_iff.mp htake
      rw [htake] at hread
      obtain ⟨hheader, rfl⟩ := Prod.mk.inj hread
      have hlen : (packet.take size).length = size := List.length_take_of_le hle
      obtain ⟨hmethod, hbytes⟩ := (ofBytes_eq_ok_iff hlen).mp hheader
      refine ⟨hmethod, packet.drop size, ?_, ?_⟩
      · rw [← hbytes, List.take_append_drop]
      · rw [Reader.advance, Reader.ofBytes, Nat.zero_add]
  · rintro ⟨hmethod, body, rfl, rfl⟩
    have htake : (Reader.ofBytes (h.bytes ++ body)).take? size =
        some (h.bytes, ⟨size, body⟩) := by
      refine Reader.take?_eq_some_iff.mpr ⟨?_, ?_, ?_⟩
      · simp [Reader.remaining, Reader.ofBytes]
      · exact (List.take_left' h.length_bytes).symm
      · rw [Reader.advance, Reader.ofBytes, List.drop_left' h.length_bytes, Nat.zero_add]
    rw [read, htake]
    simp only [ofBytes_bytes hmethod]

theorem ofPacket?_eq_some_iff :
    ofPacket? packet = some h ↔ h.method = .binding ∧ ∃ body, packet = h.bytes ++ body := by
  constructor
  · intro hpacket
    unfold ofPacket? at hpacket
    cases hread : read (Reader.ofBytes packet) with
    | mk result r =>
    rw [hread] at hpacket
    cases result with
    | error e => exact absurd hpacket nofun
    | ok h' =>
    obtain rfl := Option.some.inj hpacket
    obtain ⟨hmethod, body, hbytes, -⟩ := read_ofBytes_eq_ok_iff.mp hread
    exact ⟨hmethod, body, hbytes⟩
  · rintro ⟨hmethod, body, hbytes⟩
    rw [ofPacket?, read_ofBytes_eq_ok_iff.mpr ⟨hmethod, body, hbytes, rfl⟩]
    rfl

end Header

/-! ### Messages -/

namespace Message

/-- A message is what some records behind its header are read as. -/
structure IsReadFrom (m : Message) (profile : Profile) (password : Option Bytes)
    (records : List Record) : Prop where
  method_eq : m.header.method = .binding
  isRow : Record.IsRow records
  attributes_eq : m.attributes = Attribute.keep (Attribute.ofRecords m.header.id records)
  isReadable : ∀ r ∈ records, r.IsReadable
  fits : ∀ front r back, records = front ++ r :: back → ∀ a,
    Attribute.ofRecord m.header.id r = .ok a → a.Fits profile password m.header front back

variable {profile : Profile} {password : Option Bytes} {packet : Bytes} {m : Message}

private theorem admits_iff {h : Header} {front back : List Record} {r : Record} :
    Survey.Admits h.id profile password (h.bytes ++ Record.concat (front ++ r :: back)) front r ↔
      r.IsReadable ∧ ∀ a, Attribute.ofRecord h.id r = .ok a →
        a.Fits profile password h front back := by
  simp only [Survey.Admits, Survey.check_ofRecords]

/-- The packets that a message is read from. -/
theorem decode_eq_ok_iff : decode packet profile password = .ok m ↔
    ∃ records, packet = m.header.bytes ++ Record.concat records ∧
      m.IsReadFrom profile password records := by
  constructor
  · intro hdecode
    unfold decode at hdecode
    cases hread : Header.read (Reader.ofBytes packet) with
    | mk result r =>
    rw [hread] at hdecode
    cases result with
    | error e => exact absurd hdecode nofun
    | ok h =>
    obtain ⟨hmethod, body, rfl, rfl⟩ := Header.read_ofBytes_eq_ok_iff.mp hread
    cases hsplit : Record.split body with
    | mk records left =>
    simp only [hsplit] at hdecode
    cases hrun : records.foldlM (Survey.visit h.id profile password (h.bytes ++ body)) {} with
    | error e =>
      rw [hrun] at hdecode
      exact absurd hdecode nofun
    | ok s =>
    obtain ⟨rfl, hadmits⟩ := Survey.foldlM_visit.mp hrun
    simp only [hrun] at hdecode
    split at hdecode
    · next hleft =>
      subst hleft
      obtain rfl := Except.ok.inj hdecode
      obtain ⟨rfl, hrow⟩ := Record.split_eq_iff.mp hsplit
      refine ⟨records, rfl, hmethod, hrow, List.reverse_reverse _, ?_, ?_⟩
      · intro r hr
        obtain ⟨front, back, rfl⟩ := List.append_of_mem hr
        exact (hadmits front r back rfl).1
      · rintro front r back rfl
        exact (admits_iff.mp (hadmits front r back rfl)).2
    · exact absurd hdecode nofun
  · rintro ⟨records, rfl, hm⟩
    have hrun : records.foldlM (Survey.visit m.header.id profile password
        (m.header.bytes ++ Record.concat records)) {} =
          .ok (Survey.ofRecords m.header.id records) := by
      refine Survey.foldlM_visit.mpr ⟨rfl, ?_⟩
      rintro front r back rfl
      exact admits_iff.mpr ⟨hm.isReadable r (by simp), hm.fits front r back rfl⟩
    rw [decode, Header.read_ofBytes_eq_ok_iff.mpr ⟨hm.method_eq, _, rfl, rfl⟩]
    simp only [Record.split_eq_iff.mpr ⟨rfl, hm.isRow⟩, hrun, if_true]
    simp only [Survey.ofRecords, List.reverse_reverse, ← hm.attributes_eq]

/-- A packet is refused for the first of its records whose attribute is not fit to follow those
before it. -/
theorem decode_eq_error {h : Header} {front back : List Record} {r : Record} {a : Attribute}
    {e : Error} (hmethod : h.method = .binding) (hrow : Record.IsRow (front ++ r :: back))
    (hreadable : ∀ s ∈ front, s.IsReadable)
    (hfits : ∀ before s after, front = before ++ s :: after → ∀ b,
      Attribute.ofRecord h.id s = .ok b → b.Fits profile password h before (after ++ r :: back))
    (hr : Attribute.ofRecord h.id r = .ok a)
    (hcheck : (Survey.ofRecords h.id front).check profile password
      (h.bytes ++ Record.concat (front ++ r :: back))
      ((Survey.ofRecords h.id front).offset + r.size) a = .error e) :
    decode (h.bytes ++ Record.concat (front ++ r :: back)) profile password = .error e := by
  have hfront : front.foldlM (Survey.visit h.id profile password
      (h.bytes ++ Record.concat (front ++ r :: back))) {} = .ok (Survey.ofRecords h.id front) := by
    refine Survey.foldlM_visit.mpr ⟨rfl, ?_⟩
    rintro before s after rfl
    rw [List.append_assoc, List.cons_append]
    exact admits_iff.mpr ⟨hreadable s (by simp), hfits before s after rfl⟩
  have hrun := Error.foldlM_append_cons_eq_error hfront (Survey.visit_eq_error hr hcheck) back
  rw [decode, Header.read_ofBytes_eq_ok_iff.mpr ⟨hmethod, _, rfl, rfl⟩]
  simp only [Record.split_eq_iff.mpr ⟨rfl, hrow⟩, hrun]

end Message

end Stun
