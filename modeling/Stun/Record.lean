import Stun.Bytes.Reader

/-!
# Type, length, value

Behind the header a packet is a row of records. A record is a type and a length in two bytes each,
a value of that length, and padding to a multiple of four bytes, which is counted in no length and
whose content does not matter. The padding of the last record may be cut short.

## Main definitions

* `Record`, `Record.bytes`, `Record.size`: records and how they stand in a packet.
* `Record.paddingLength`: how many bytes are missing to the next multiple of four.
* `Record.cut?`: the record at the front of a byte string and the bytes behind it.
* `Record.read`: the same for a reader.
* `Record.split`, `Record.concat`: all records of a byte string, with what is left where no record
  follows, and the bytes of records in a row.
* `Record.IsComplete`, `Record.IsFit`: the records whose padding is not cut short, and those whose
  padding may be.

## Main results

* `Record.length_cut?`, `Record.bytes_append_of_cut?`: a record accounts for exactly the bytes that
  it was cut from.
* `Record.cut?_bytes_append`, `Record.split_concat`: records are read back.
* `Record.concat_split`: splitting loses no byte.
-/

namespace Stun

/-- A type, a value and the padding behind it. -/
structure Record where
  /-- What the value is. -/
  type : UInt16
  /-- The value. -/
  value : Bytes
  /-- What stands behind the value up to the next record. -/
  padding : Bytes
  deriving Repr, DecidableEq

namespace Record

/-- The number of bytes in front of the value. -/
def headSize : Nat := 4

/-- The greatest length of a value. -/
def maxLength : Nat := 0xFFFF

/-- The number of bytes that a record takes in a packet. -/
def size (r : Record) : Nat := headSize + r.value.length + r.padding.length

/-- A record as it stands in a packet. -/
def bytes (r : Record) : Bytes :=
  Bytes.ofUInt16 r.type ++ Bytes.ofUInt16 (UInt16.ofNat r.value.length) ++ r.value ++ r.padding

@[simp] theorem length_bytes (r : Record) : r.bytes.length = r.size := by
  simp only [bytes, size, headSize, List.length_append, Bytes.length_ofUInt16]

/-- The number of bytes from a length to the next multiple of four. -/
def paddingLength (length : Nat) : Nat := (4 - length % 4) % 4

theorem paddingLength_lt (length : Nat) : paddingLength length < 4 := Nat.mod_lt _ (by decide)

theorem add_paddingLength_mod (length : Nat) : (length + paddingLength length) % 4 = 0 := by
  unfold paddingLength
  omega

/-- The record at the front of a byte string, and the bytes behind it. Fails when the bytes end
before the value does. -/
def cut? (packet : Bytes) : Option (Record × Bytes) :=
  let head := packet.take headSize
  let length := (Bytes.toUInt16 (head.drop 2)).toNat
  let behind := packet.drop headSize
  let value := behind.take length
  if head.length < headSize ∨ value.length < length then none
  else
    let behind := behind.drop length
    let pad := paddingLength length
    some (⟨Bytes.toUInt16 (head.take 2), value, behind.take pad⟩, behind.drop pad)

/-- A record accounts for exactly the bytes that it was cut from. -/
theorem length_cut? {packet rest : Bytes} {r : Record} (h : cut? packet = some (r, rest)) :
    packet.length = r.size + rest.length := by
  unfold cut? at h
  simp only at h
  split at h
  · exact absurd h nofun
  · next hlen =>
    simp only [Option.some.injEq, Prod.mk.injEq] at h
    obtain ⟨rfl, rfl⟩ := h
    simp only [size, headSize, List.length_take, List.length_drop] at hlen ⊢
    omega

/-- The bytes that a record was cut from are those of the record and those behind it. -/
theorem bytes_append_of_cut? {packet rest : Bytes} {r : Record}
    (h : cut? packet = some (r, rest)) : r.bytes ++ rest = packet := by
  unfold cut? at h
  simp only at h
  split at h
  · exact absurd h nofun
  · next hlen =>
    simp only [Option.some.injEq, Prod.mk.injEq] at h
    obtain ⟨rfl, rfl⟩ := h
    rw [not_or] at hlen
    obtain ⟨hhead, hvalue⟩ := hlen
    rw [Nat.not_lt] at hhead hvalue
    have hfour : (packet.take headSize).length = 4 := by
      simp only [headSize, List.length_take] at hhead ⊢
      omega
    have hlength := Nat.le_antisymm (List.length_take_le ..) hvalue
    rw [bytes]
    simp only
    rw [hlength, UInt16.ofNat_toNat, Bytes.ofUInt16_toUInt16 (by simp [hfour]),
      Bytes.ofUInt16_toUInt16 (by simp [hfour])]
    simp only [List.append_assoc, List.take_append_drop]

/-- A record whose padding is complete. -/
def IsComplete (r : Record) : Prop :=
  r.value.length ≤ maxLength ∧ r.padding.length = paddingLength r.value.length

/-- A record whose value fits its length field and whose padding is complete or cut short. -/
def IsFit (r : Record) : Prop :=
  r.value.length ≤ maxLength ∧ r.padding.length ≤ paddingLength r.value.length

theorem IsComplete.isFit {r : Record} (h : r.IsComplete) : r.IsFit := ⟨h.1, Nat.le_of_eq h.2⟩

/-- A fit record is cut from its bytes at the end of a byte string, and a complete one is whatever
stands behind it. -/
theorem cut?_bytes_append {r : Record} (h : r.IsFit) {rest : Bytes}
    (hrest : rest = [] ∨ r.IsComplete) : cut? (r.bytes ++ rest) = some (r, rest) := by
  obtain ⟨type, value, padding⟩ := r
  obtain ⟨hvalue, hpadding⟩ := h
  simp only [maxLength] at hvalue hpadding
  have hlength : (UInt16.ofNat value.length).toNat = value.length := by
    rw [UInt16.toNat_ofNat']
    omega
  have hhead : (Bytes.ofUInt16 type ++ Bytes.ofUInt16 (UInt16.ofNat value.length)).length
      = headSize := by simp [headSize]
  have htype : (Bytes.ofUInt16 type).length = 2 := Bytes.length_ofUInt16 type
  have hpad : (padding ++ rest).take (paddingLength value.length) = padding ∧
      (padding ++ rest).drop (paddingLength value.length) = rest := by
    rcases hrest with rfl | hcomplete
    · rw [List.append_nil, List.take_of_length_le hpadding, List.drop_of_length_le hpadding]
      exact ⟨rfl, rfl⟩
    · exact ⟨List.take_left' hcomplete.2, List.drop_left' hcomplete.2⟩
  simp only [cut?, bytes, List.append_assoc]
  rw [← List.append_assoc (Bytes.ofUInt16 type), List.take_left' hhead, List.drop_left' hhead,
    List.take_left' htype, List.drop_left' htype, Bytes.toUInt16_ofUInt16,
    Bytes.toUInt16_ofUInt16, hlength, List.take_left' rfl, List.drop_left' rfl, hpad.1, hpad.2,
    if_neg (by simp [hhead])]

/-- How many bytes the head fields take that fit into `remaining` bytes. -/
def headWithin (remaining : Nat) : Nat :=
  if remaining < headSize then remaining / 2 * 2 else headSize

/-- The record in front of a reader. Where there is none, the reader still moves behind those of
the two head fields that are there. -/
def read (r : Reader) : Option Record × Reader :=
  match cut? r.rest with
  | some (record, _) => (some record, r.advance record.size)
  | none => (none, r.advance (headWithin r.remaining))

/-- The records of a byte string in order, and the bytes that are left where no record follows. -/
def split (packet : Bytes) : List Record × Bytes :=
  match h : cut? packet with
  | none => ([], packet)
  | some (record, rest) =>
    have : rest.length < packet.length := by
      have := length_cut? h
      simp only [size, headSize] at this
      omega
    let (records, left) := split rest
    (record :: records, left)
termination_by packet.length

/-- The bytes of records in a row. -/
def concat (records : List Record) : Bytes := records.flatMap bytes

@[simp] theorem concat_nil : concat [] = [] := rfl

@[simp] theorem concat_cons (r : Record) (records : List Record) :
    concat (r :: records) = r.bytes ++ concat records := rfl

/-- The records of a byte string and what is left account for all of its bytes. -/
theorem concat_split (packet : Bytes) : concat (split packet).1 ++ (split packet).2 = packet := by
  fun_induction split packet with
  | case1 packet h => rfl
  | case2 packet record rest h _ records left hsplit ih =>
    rw [hsplit] at ih
    rw [concat_cons, List.append_assoc, ih, bytes_append_of_cut? h]

/-- Complete records in a row are split into themselves. -/
theorem split_concat {records : List Record} (h : ∀ r ∈ records, r.IsComplete) :
    split (concat records) = (records, []) := by
  induction records with
  | nil => rw [split]; rfl
  | cons r records ih =>
    have hcomplete := h r (List.mem_cons_self ..)
    have hr : cut? (r.bytes ++ concat records) = some (r, concat records) :=
      cut?_bytes_append hcomplete.isFit (.inr hcomplete)
    have hrest := ih fun s hs => h s (List.mem_cons_of_mem _ hs)
    rw [split, concat_cons]
    split
    · next hcut => rw [hr] at hcut; exact absurd hcut nofun
    · next hcut =>
      rw [hr] at hcut
      cases hcut
      rw [hrest]

end Record

end Stun
