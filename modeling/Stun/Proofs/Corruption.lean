import Stun.Proofs.Checksum
import Stun.Proofs.Reading

/-!
# Corrupted packets

The FINGERPRINT of a packet is compared with the checksum of what stands before it, and errors that
lie inside four bytes in a row change that checksum. Errors that spare the types and the lengths of
the records leave the packet cut as it was, so that the FINGERPRINT is found where it stood and the
packet is refused. Where everything else can still be read the cause is the FINGERPRINT.

## Main definitions

* `Record.frame`: what the cut of a packet shows of a record.
* `Record.HeadAt`: an offset is that of a type or a length.
* `IsCorruption`: a packet is another one with errors inside four bytes.

## Main results

* `Record.exists_concat_of_head_eq`: bytes with the same types and lengths in them are cut alike.
* `fingerprint_ne_of_burst`: errors inside four bytes in a row change the FINGERPRINT.
* `Message.decode_of_isCorruption`: corrupted packets are refused.
-/

namespace Stun

/-! ### Packets that are cut alike -/

namespace Record

/-- What the cut of a packet shows of a record: its type and the sizes of its value and padding. -/
def frame (r : Record) : UInt16 × Nat × Nat := (r.type, r.value.length, r.padding.length)

variable {r s : Record} {records records' : List Record}

theorem frame_eq_iff : s.frame = r.frame ↔
    s.type = r.type ∧ s.value.length = r.value.length ∧ s.padding.length = r.padding.length := by
  simp only [frame, Prod.mk.injEq]

theorem size_eq_of_frame_eq (h : s.frame = r.frame) : s.size = r.size := by
  obtain ⟨-, hvalue, hpadding⟩ := frame_eq_iff.mp h
  rw [size, size, hvalue, hpadding]

theorem length_concat_eq_of_frame_eq (h : records'.map frame = records.map frame) :
    (concat records').length = (concat records).length := by
  induction records generalizing records' with
  | nil => rw [List.map_eq_nil_iff.mp h]
  | cons r records ih =>
    obtain ⟨s, rest, rfl, hs, hrest⟩ := List.map_eq_cons_iff.mp h
    rw [concat_cons, concat_cons, List.length_append, List.length_append, ih hrest, length_bytes,
      length_bytes, size_eq_of_frame_eq hs]

theorem start_eq_of_frame_eq (h : records'.map frame = records.map frame) :
    start records' = start records := by
  rw [start, start, length_concat_eq_of_frame_eq h]

theorem type_ne_of_frame_eq {type : UInt16} (h : records'.map frame = records.map frame)
    (hne : ∀ r ∈ records, r.type ≠ type) : ∀ s ∈ records', s.type ≠ type := by
  intro s hs
  have hframe : s.frame ∈ records.map frame := h ▸ List.mem_map_of_mem hs
  obtain ⟨r, hr, hsame⟩ := List.mem_map.mp hframe
  rw [← (frame_eq_iff.mp hsame).1]
  exact hne r hr

theorem isFit_of_frame_eq (h : s.frame = r.frame) (hr : r.IsFit) : s.IsFit := by
  obtain ⟨-, hvalue, hpadding⟩ := frame_eq_iff.mp h
  rw [IsFit, hvalue, hpadding]
  exact hr

theorem isComplete_of_frame_eq (h : s.frame = r.frame) (hr : r.IsComplete) : s.IsComplete := by
  obtain ⟨-, hvalue, hpadding⟩ := frame_eq_iff.mp h
  rw [IsComplete, hvalue, hpadding]
  exact hr

theorem isRow_of_frame_eq (h : records'.map frame = records.map frame) (hrow : IsRow records) :
    IsRow records' := by
  induction hrow generalizing records' with
  | nil =>
    rw [List.map_eq_nil_iff.mp h]
    exact .nil
  | last hr =>
    obtain ⟨s, rfl, hs⟩ := List.map_eq_singleton_iff.mp h
    exact .last (isFit_of_frame_eq hs hr)
  | cons hr _ ih =>
    obtain ⟨s, rest, rfl, hs, hrest⟩ := List.map_eq_cons_iff.mp h
    exact .cons (isComplete_of_frame_eq hs hr) (ih hrest)

/-- Bytes that agree with those of some records in all types and lengths are cut alike. -/
theorem exists_concat_of_head_eq {body : Bytes} (hlen : body.length = (concat records).length)
    (hhead : ∀ front r back, records = front ++ r :: back → ∀ i < headSize,
      body[(concat front).length + i]? = (concat records)[(concat front).length + i]?) :
    ∃ records', body = concat records' ∧ records'.map frame = records.map frame := by
  induction records generalizing body with
  | nil => exact ⟨[], List.eq_nil_of_length_eq_zero hlen, rfl⟩
  | cons r records ih =>
    have hsize : body.length = r.size + (concat records).length := by
      rw [hlen, concat_cons, List.length_append, length_bytes]
    have hparts : r.size = headSize + r.value.length + r.padding.length := rfl
    have hhere : body.take headSize =
        Bytes.ofUInt16 r.type ++ Bytes.ofUInt16 (UInt16.ofNat r.value.length) := by
      have hsame : body.take headSize = (concat (r :: records)).take headSize := by
        ext1 i
        by_cases hi : i < headSize
        · rw [List.getElem?_take_of_lt hi, List.getElem?_take_of_lt hi]
          simpa only [concat_nil, List.length_nil, Nat.zero_add] using hhead [] r records rfl i hi
        · rw [List.getElem?_take_eq_none (by omega), List.getElem?_take_eq_none (by omega)]
      rw [hsame, concat_cons, bytes, List.append_assoc, List.append_assoc]
      exact List.take_left' (by simp [headSize])
    have hlenRest : (body.drop r.size).length = (concat records).length := by
      rw [List.length_drop, hsize, Nat.add_sub_cancel_left]
    obtain ⟨rest, hrest, hframe⟩ := ih hlenRest (by
      rintro front t back rfl i hi
      have hthere := hhead (r :: front) t back rfl i hi
      rw [concat_cons, List.length_append, length_bytes, Nat.add_assoc] at hthere
      rw [List.getElem?_drop, hthere, concat_cons, List.getElem?_append_right (by simp),
        length_bytes, Nat.add_sub_cancel_left])
    let s : Record := ⟨r.type, body.slice headSize r.value.length,
      body.slice (headSize + r.value.length) r.padding.length⟩
    have hs : s.frame = r.frame := by
      refine frame_eq_iff.mpr ⟨rfl, Bytes.length_slice (by omega), Bytes.length_slice (by omega)⟩
    refine ⟨s :: rest, ?_, ?_⟩
    · calc
        body = body.take headSize ++ (s.value ++ (s.padding ++ body.drop r.size)) := by
          rw [hparts, Bytes.slice_append_drop, Bytes.slice_append_drop, List.take_append_drop]
        _ = s.bytes ++ concat rest := by
          rw [hhere, hrest, bytes, (frame_eq_iff.mp hs).2.1]
          simp only [s, List.append_assoc]
    · rw [List.map_cons, List.map_cons, hs, hframe]

/-- No record of a packet starts behind the last one. -/
theorem start_le_of_append_eq {front front' back : List Record}
    (h : front ++ [r] = front' ++ s :: back) : start front' ≤ start front := by
  rcases cases_of_append_cons_eq h with ⟨rfl, -⟩ | ⟨between, rfl⟩ | ⟨between, -, hnil⟩
  · exact Nat.le_refl _
  · rw [start_append_cons, Nat.add_assoc]
    exact Nat.le_add_right _ _
  · exact absurd hnil (by simp)

/-- The value of a record stands behind its type and its length. -/
theorem slice_value {header : Bytes} (hheader : header.length = Header.size)
    (front back : List Record) {count : Nat} (hcount : r.value.length = count) :
    (header ++ concat (front ++ r :: back)).slice (start front + headSize) count = r.value := by
  have hsplit : header ++ concat (front ++ r :: back) = (header ++ concat front ++
      (Bytes.ofUInt16 r.type ++ Bytes.ofUInt16 (UInt16.ofNat r.value.length))) ++
        (r.value ++ (r.padding ++ concat back)) := by
    simp only [concat_append, concat_cons, bytes, List.append_assoc]
  rw [hsplit]
  exact Bytes.slice_append (by simp [start, headSize, hheader, Nat.add_assoc]) hcount

/-- What stands behind the header of a packet tells the packet by its header. -/
theorem eq_bytes_append_of_drop {h : Header} {packet body : Bytes} {front back : List Record}
    (hpacket : packet = h.bytes ++ body)
    (hbody : packet.drop Header.size = concat (front ++ back)) :
    packet = h.bytes ++ concat (front ++ back) ∧
      packet.take (start front) = h.bytes ++ concat front := by
  rw [hpacket, List.drop_left' h.length_bytes] at hbody
  rw [hpacket, hbody, start, h.take_bytes_append_concat]
  exact ⟨rfl, rfl⟩

/-- An offset of a packet is that of the type or the length of a record. -/
def HeadAt (packet : Bytes) (offset : Nat) : Prop :=
  ∃ front r back, ofPacket packet = front ++ r :: back ∧
    start front ≤ offset ∧ offset < start front + headSize

/-- Inside the value and the padding of a record there is no type and no length. -/
theorem not_headAt {packet : Bytes} {front back : List Record} {offset : Nat}
    (hrecords : ofPacket packet = front ++ r :: back) (hbehind : start front + headSize ≤ offset)
    (hinside : offset < start front + r.size) : ¬ HeadAt packet offset := by
  rintro ⟨front', s, back', hsplit, hstart, hhead⟩
  rcases cases_of_append_cons_eq (hrecords.symm.trans hsplit) with
    ⟨rfl, -⟩ | ⟨between, rfl⟩ | ⟨between, rfl, -⟩
  · omega
  · rw [start_append_cons, size] at hbehind
    omega
  · rw [start_append_cons] at hstart
    omega

end Record

/-! ### Errors inside four bytes -/

/-- A packet of the same size is another one, whose FINGERPRINT starts at `offset`, with errors
inside four bytes: in a row before the FINGERPRINT, all types and lengths spared, or in its value.
-/
structure IsCorruption (packet packet' : Bytes) (offset : Nat) : Prop where
  length_eq : packet'.length = packet.length
  ne : packet' ≠ packet
  short : (∃ start, ∀ i, packet'[i]? ≠ packet[i]? →
      start ≤ i ∧ i < start + 4 ∧ i < offset ∧ ¬ Record.HeadAt packet i) ∨
    ∀ i, packet'[i]? ≠ packet[i]? → offset + 4 ≤ i ∧ i < offset + 8

variable {packet packet' : Bytes} {offset : Nat}

/-- Errors inside four bytes in a row change the FINGERPRINT of what they stand in. -/
theorem fingerprint_ne_of_burst {start : Nat} (hlen : packet'.length = packet.length)
    (hne : packet' ≠ packet)
    (hburst : ∀ i, packet'[i]? ≠ packet[i]? → start ≤ i ∧ i < start + 4) :
    fingerprint packet' ≠ fingerprint packet := by
  have hcut (bytes : Bytes) : bytes.take start ++ (bytes.slice start 4 ++ bytes.drop (start + 4)) =
      bytes := by
    rw [Bytes.slice_append_drop, List.take_append_drop]
  have hfront : packet'.take start = packet.take start := by
    ext1 i
    simp only [List.getElem?_take]
    grind
  have hback : packet'.drop (start + 4) = packet.drop (start + 4) := by
    ext1 i
    simp only [List.getElem?_drop]
    grind
  have hslice : packet'.slice start 4 ≠ packet.slice start 4 := by
    intro hslice
    apply hne
    rw [← hcut packet', hfront, hslice, hback, hcut]
  have hchecksum := Crc32.checksum_ne (packet.take start) (packet.drop (start + 4))
    (by simp only [Bytes.slice, List.length_take, List.length_drop, hlen])
    (by simp only [Bytes.slice]; exact List.length_take_le _ _) hslice
  rw [hcut] at hchecksum
  nth_rewrite 1 [← hfront, ← hback] at hchecksum
  rw [hcut] at hchecksum
  intro heq
  exact hchecksum ((UInt32.xor_left_inj _).mp heq)

namespace IsCorruption

/-- A FINGERPRINT that was right is wrong after the corruption. -/
theorem fingerprint_take_ne (h : IsCorruption packet packet' offset)
    (hlen : packet.length = offset + 8)
    (hright : fingerprint (packet.take offset) = (packet.slice (offset + 4) 4).toUInt32) :
    fingerprint (packet'.take offset) ≠ (packet'.slice (offset + 4) 4).toUInt32 := by
  have hlen' := h.length_eq
  have hne := h.ne
  rcases h.short with ⟨start, hburst⟩ | hvalue
  · have hslice : packet'.slice (offset + 4) 4 = packet.slice (offset + 4) 4 := by
      ext1 i
      simp only [Bytes.slice, List.getElem?_take, List.getElem?_drop]
      grind
    have htake : packet'.take offset ≠ packet.take offset := by
      intro htake
      apply hne
      ext1 i
      have hi := congrArg (·[i]?) htake
      simp only [List.getElem?_take] at hi
      grind
    rw [hslice, ← hright]
    have hinside (i : Nat) (hi : (packet'.take offset)[i]? ≠ (packet.take offset)[i]?) :
        start ≤ i ∧ i < start + 4 := by
      simp only [List.getElem?_take] at hi
      grind
    exact fingerprint_ne_of_burst (by simp [hlen']) htake hinside
  · have htake : packet'.take offset = packet.take offset := by
      ext1 i
      simp only [List.getElem?_take]
      grind
    rw [htake, hright]
    intro hnumber
    apply hne
    have hslice := congrArg Bytes.ofUInt32 hnumber
    rw [Bytes.ofUInt32_toUInt32 (Bytes.length_slice (by omega)),
      Bytes.ofUInt32_toUInt32 (Bytes.length_slice (by omega))] at hslice
    ext1 i
    by_cases hi : offset + 4 ≤ i ∧ i < offset + 8
    · have hbyte := congrArg (·[i - (offset + 4)]?) hslice
      simp only [Bytes.slice, List.getElem?_take, List.getElem?_drop] at hbyte
      grind
    · grind

/-- All types and lengths are spared. -/
theorem getElem?_eq_of_head {front front' back : List Record} {r s : Record} {i : Nat}
    (h : IsCorruption packet packet' (Record.start front))
    (hrecords : Record.ofPacket packet = front ++ [r]) (hsplit : front ++ [r] = front' ++ s :: back)
    (hi : i < Record.headSize) :
    packet'[Record.start front' + i]? = packet[Record.start front' + i]? := by
  by_contra hne
  rcases h.short with ⟨start, hburst⟩ | hvalue
  · exact (hburst _ hne).2.2.2
      ⟨front', s, back, hrecords.trans hsplit, Nat.le_add_right _ _, Nat.add_lt_add_left hi _⟩
  · have hle := Record.start_le_of_append_eq hsplit
    have hbehind := (hvalue _ hne).1
    simp only [Record.headSize] at hi
    omega

/-- The corrupted packet is cut as before. -/
theorem exists_concat {h : Header} {front : List Record} {r : Record}
    (hcorrupt : IsCorruption (h.bytes ++ Record.concat (front ++ [r])) packet' (Record.start front))
    (hrow : Record.IsRow (front ++ [r])) :
    ∃ front' r', packet'.drop Header.size = Record.concat (front' ++ [r']) ∧
      front'.map Record.frame = front.map Record.frame ∧ r'.frame = r.frame := by
  have hrecords := Record.ofPacket_bytes_append h hrow
  have hbody : (packet'.drop Header.size).length = (Record.concat (front ++ [r])).length := by
    rw [List.length_drop, hcorrupt.length_eq, List.length_append, h.length_bytes,
      Nat.add_sub_cancel_left]
  obtain ⟨records', hconcat, hframe⟩ := Record.exists_concat_of_head_eq hbody (by
    intro front' s back hsplit i hi
    have hhead := hcorrupt.getElem?_eq_of_head hrecords hsplit hi
    rw [Record.start, Nat.add_assoc] at hhead
    rw [List.getElem?_drop, hhead, List.getElem?_append_right (by simp), h.length_bytes,
      Nat.add_sub_cancel_left])
  obtain ⟨front', last, rfl, hfront, hlast⟩ :=
    List.map_eq_append_iff.mp (hframe.trans List.map_append)
  obtain ⟨r', rfl, hr'⟩ := List.map_eq_singleton_iff.mp hlast
  exact ⟨front', r', hconcat, hfront, hr'⟩

/-- Its last record is a FINGERPRINT that is wrong. -/
theorem exists_records {h : Header} {front : List Record} {r : Record} {received : UInt32}
    (hcorrupt : IsCorruption (h.bytes ++ Record.concat (front ++ [r])) packet' (Record.start front))
    (hrow : Record.IsRow (front ++ [r]))
    (hr : Attribute.ofRecord h.id r = .ok (.fingerprint received))
    (hright : fingerprint (h.bytes ++ Record.concat front) = received) :
    ∃ front' r', packet'.drop Header.size = Record.concat (front' ++ [r']) ∧
      front'.map Record.frame = front.map Record.frame ∧ r'.frame = r.frame ∧
      r'.value = packet'.slice (Record.start front + 4) 4 ∧ r'.value.length = 4 ∧
      fingerprint (packet'.take (Record.start front)) ≠ r'.value.toUInt32 := by
  have hsize : r.size = 8 := Record.size_of_ofRecord_fingerprint (hrow.isFit r (by simp)) hr
  have hvalue : r.value = Bytes.ofUInt32 received :=
    (Attribute.ofRecord_eq_fingerprint_iff.mp hr).2
  have hlen : (h.bytes ++ Record.concat (front ++ [r])).length = Record.start front + 8 := by
    simp [Record.start, hsize, Nat.add_assoc]
  have hlen' := hcorrupt.length_eq.trans hlen
  obtain ⟨front', r', hconcat, hfront, hr'⟩ := hcorrupt.exists_concat hrow
  have hstart : Record.start front' = Record.start front :=
    Record.start_eq_of_frame_eq hfront
  have hlenValue : r'.value.length = 4 := by
    rw [(Record.frame_eq_iff.mp hr').2.1, hvalue, Bytes.length_ofUInt32]
  have hheader : (packet'.take Header.size).length = Header.size := by
    rw [List.length_take_of_le]
    rw [hlen', Record.start]
    omega
  have hvalue' : r'.value = packet'.slice (Record.start front + 4) 4 := by
    have hslice := Record.slice_value hheader front' [] hlenValue
    rw [← hconcat, List.take_append_drop, hstart] at hslice
    exact hslice.symm
  have hslice : Bytes.slice (h.bytes ++ Record.concat (front ++ [r])) (Record.start front + 4) 4 =
      r.value :=
    Record.slice_value h.length_bytes front [] (by rw [hvalue, Bytes.length_ofUInt32])
  refine ⟨front', r', hconcat, hfront, hr', hvalue', hlenValue, ?_⟩
  rw [hvalue']
  refine hcorrupt.fingerprint_take_ne hlen ?_
  rw [Record.start, h.take_bytes_append_concat, hright, ← Record.start, hslice, hvalue,
    Bytes.toUInt32_ofUInt32]

end IsCorruption

namespace Message

variable {m : Message} {profile : Profile}

/-- A packet with a FINGERPRINT is refused after a corruption inside four bytes. If its header and
all values of its records can still be read, it is refused for the FINGERPRINT. -/
theorem decode_of_isCorruption (hdecode : decode packet profile none = .ok m)
    (hoffset : Record.FirstAt AttributeKind.fingerprint.code packet offset)
    (hcorrupt : IsCorruption packet packet' offset) (profile' : Profile) :
    (∀ password m', decode packet' profile' password ≠ .ok m') ∧
      ((∃ h, Header.ofPacket? packet' = some h) →
        (∀ r ∈ Record.ofPacket packet', r.IsReadable) →
        decode packet' profile' none = .error (.fingerprintMismatch
          (packet'.slice (offset + 4) 4).toUInt32 (fingerprint (packet'.take offset)))) := by
  obtain ⟨records, rfl, hm⟩ := decode_eq_ok_iff.mp hdecode
  obtain ⟨front, r, back, hrecords, htype, hfirst, hoffset⟩ := hoffset
  obtain rfl : offset = Record.start front := hoffset
  rw [Record.ofPacket_bytes_append m.header hm.isRow] at hrecords
  subst hrecords
  obtain ⟨received, hreceived⟩ := Record.exists_ofRecord_fingerprint m.header.id
    (hm.isReadable r (by simp)) htype
  obtain ⟨rfl, hright⟩ := hm.fits front r back rfl _ hreceived
  obtain ⟨front', r', hbody, hfront, hr', hvalue, hlen, hwrong⟩ :=
    IsCorruption.exists_records hcorrupt hm.isRow hreceived hright
  have hrow : Record.IsRow (front' ++ [r']) := Record.isRow_of_frame_eq
    (by rw [List.map_append, List.map_append, hfront, List.map_singleton, List.map_singleton, hr'])
    hm.isRow
  have hstart : Record.start front' = Record.start front :=
    Record.start_eq_of_frame_eq hfront
  have hlast (id : TransactionId) :
      Attribute.ofRecord id r' = .ok (.fingerprint r'.value.toUInt32) :=
    Attribute.ofRecord_eq_fingerprint_iff.mpr
      ⟨(Record.frame_eq_iff.mp hr').1.trans htype, (Bytes.ofUInt32_toUInt32 hlen).symm⟩
  have hcut {h : Header} {body : Bytes} (hpacket : packet' = h.bytes ++ body) :
      packet' = h.bytes ++ Record.concat (front' ++ [r']) ∧
        packet'.take (Record.start front) = h.bytes ++ Record.concat front' :=
    hstart ▸ Record.eq_bytes_append_of_drop hpacket hbody
  constructor
  · intro password m' hdecode'
    obtain ⟨records', hpacket, hm'⟩ := decode_eq_ok_iff.mp hdecode'
    obtain ⟨hpacket', htake⟩ := hcut hpacket
    obtain rfl : records' = front' ++ [r'] := hm'.isRow.eq_of_concat_eq hrow
      (List.append_cancel_left (hpacket.symm.trans hpacket'))
    have hfits := (hm'.fits front' r' [] rfl _ (hlast _)).2
    rw [htake] at hwrong
    exact hwrong hfits
  · rintro ⟨h, hheader⟩ hreadable
    obtain ⟨hmethod, body, hpacket⟩ := Header.ofPacket?_eq_some_iff.mp hheader
    obtain ⟨hpacket', htake⟩ := hcut hpacket
    rw [hpacket', Record.ofPacket_bytes_append h hrow] at hreadable
    rw [htake] at hwrong ⊢
    rw [← hvalue, hpacket']
    refine decode_eq_error hmethod hrow (fun s hs => hreadable s (by simp [hs])) ?_ (hlast h.id)
      (Survey.check_ofRecords_fingerprint hwrong)
    rintro before s after rfl b hb
    refine Attribute.fits_none fun hkind => ?_
    refine Record.type_ne_of_frame_eq hfront hfirst s (by simp) ?_
    rw [← (Attribute.ofRecord_eq_ok_iff.mp hb).1, hkind]

/-- A request with the name `ab` of its software and a FINGERPRINT. -/
def softwareRequestPacket : Bytes :=
  [0x00, 0x01, 0x00, 0x10, 0x21, 0x12, 0xA4, 0x42, 0x00, 0x00, 0x00, 0x00, 0x00, 0x00, 0x00, 0x00,
    0x00, 0x00, 0x00, 0x00, 0x80, 0x22, 0x00, 0x02, 0x61, 0x62, 0x00, 0x00, 0x80, 0x28, 0x00, 0x04,
    0x44, 0x4E, 0xAD, 0xD7]

/-- The request is refused with the last byte of the name and the last of the padding changed. -/
theorem decode_of_isCorruption_softwareRequest :
    let packet' := (softwareRequestPacket.set 25 0x63).set 27 0x01
    ∃ m, decode softwareRequestPacket {} none = .ok m ∧
      Record.FirstAt AttributeKind.fingerprint.code softwareRequestPacket 28 ∧
      IsCorruption softwareRequestPacket packet' 28 ∧
      decode packet' {} none =
        .error (.fingerprintMismatch 0x444EADD7 (fingerprint (packet'.take 28))) := by
  intro packet'
  let software : Record := ⟨AttributeKind.software.code, [0x61, 0x62], [0x00, 0x00]⟩
  let mark : Record := ⟨AttributeKind.fingerprint.code, [0x44, 0x4E, 0xAD, 0xD7], []⟩
  have hdecode : decode softwareRequestPacket {} none =
      .ok ⟨{ length := 16 }, [.software [0x61, 0x62], .fingerprint 0x444EADD7]⟩ := by
    decide +kernel
  have hrecords : Record.ofPacket softwareRequestPacket = [software, mark] := by decide +kernel
  have hrecords' : Record.ofPacket packet' =
      [⟨software.type, [0x61, 0x63], [0x00, 0x01]⟩, mark] := by decide +kernel
  have hoffset : Record.FirstAt AttributeKind.fingerprint.code softwareRequestPacket 28 :=
    ⟨[software], mark, [], hrecords, rfl, by decide, rfl⟩
  have hspared {i : Nat} (hi : 24 ≤ i) (hlt : i < 28) :
      ¬ Record.HeadAt softwareRequestPacket i := by
    have hsplit : Record.ofPacket softwareRequestPacket = [] ++ software :: [mark] := hrecords
    exact Record.not_headAt hsplit hi hlt
  have hcorrupt : IsCorruption softwareRequestPacket packet' 28 := by
    refine ⟨rfl, by decide, .inl ⟨24, fun i hi => ?_⟩⟩
    have hchanged : i = 25 ∨ i = 27 := by
      by_contra hother
      rw [not_or] at hother
      rw [List.getElem?_set_ne (Ne.symm hother.2), List.getElem?_set_ne (Ne.symm hother.1)] at hi
      exact hi rfl
    have hbounds : 24 ≤ i ∧ i < 28 := by omega
    exact ⟨hbounds.1, hbounds.2, hbounds.2, hspared hbounds.1 hbounds.2⟩
  have hname : Attribute.ofRecord (Vector.replicate 12 0)
      ⟨software.type, [0x61, 0x63], [0x00, 0x01]⟩ = .ok (.software [0x61, 0x63]) := by
    decide +kernel
  have hmark : Attribute.ofRecord (Vector.replicate 12 0) mark =
      .ok (.fingerprint 0x444EADD7) := by
    decide +kernel
  refine ⟨_, hdecode, hoffset, hcorrupt, ?_⟩
  refine (decode_of_isCorruption hdecode hoffset hcorrupt {}).2
    ⟨{ length := 16 }, by decide +kernel⟩ fun r hr => ?_
  rw [hrecords'] at hr
  simp only [List.mem_cons, List.not_mem_nil, or_false] at hr
  rcases hr with rfl | rfl
  · exact Record.isReadable_of_ofRecord hname
  · exact Record.isReadable_of_ofRecord hmark

end Message

end Stun
