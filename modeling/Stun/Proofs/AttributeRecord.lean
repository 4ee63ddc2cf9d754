import Mathlib.Data.List.Induction
import Stun.Proofs.AttributeValue

/-!
# Attributes in the middle of a packet

An attribute that is written behind a packet is read from there as itself, whatever stands before
it and whatever follows, and the reader then stands where it ends. Nothing but the bytes of an
address that do not count is lost, and what is written does not depend on these bytes, nor does the
cause when nothing is written.

## Main definitions

* `Attribute.address?`: the address of an attribute that holds one.

## Main results

* `Record.read_advance`: a complete record is read wherever it stands.
* `Attribute.read_of_write`: an attribute is read wherever it is written.
-/

namespace Stun

namespace Record

/-- A complete record is read wherever it stands, and the reader then stands behind it. -/
theorem read_advance {r : Record} (h : r.IsComplete) (packet rest : Bytes) :
    let reader := Reader.ofBytes (packet ++ r.bytes ++ rest)
    read (reader.advance packet.length) = (some r, reader.advance (packet.length + r.size)) := by
  intro reader
  have hrest : (reader.advance packet.length).rest = r.bytes ++ rest := by
    simp only [reader, Reader.advance, Reader.ofBytes, List.append_assoc, List.drop_left' rfl]
  have hcut : cut? (r.bytes ++ rest) = some (r, rest) := cut?_bytes_append h.isFit (.inr h)
  simp only [read, hrest, hcut, Reader.advance_advance]

end Record

namespace TransportAddress

/-- An address without bytes that do not count has zeros in their place. -/
theorem getElem_of_canonical_eq {a : TransportAddress} (h : a.canonical = a) {i : Nat}
    (hsize : a.size ≤ i) (hi : i < 16) : a.bytes[i] = 0 := by
  have hcanonical := a.getElem_canonical hi
  rw [if_neg (Nat.not_lt.mpr hsize)] at hcanonical
  rw [← hcanonical]
  simp only [h]

end TransportAddress

namespace Attribute

variable {id : TransactionId} {padding : UInt8} {packet packet' : Bytes} {a b : Attribute}

/-- The address of an attribute that holds one. -/
def address? : Attribute → Option TransportAddress
  | mappedAddress address | xorMappedAddress address | alternateServer address => some address
  | _ => none

theorem canonical_of_address?_canonical {address : TransportAddress}
    (h : a.canonical.address? = some address) : address.canonical = address := by
  cases a <;> simp only [canonical, address?, Option.some.injEq, reduceCtorEq] at h <;>
    rw [← h, TransportAddress.canonical_canonical]

/-- Attributes that are equal in the sense of `==` are written alike, and fail alike. -/
theorem write_congr (h : (a == b) = true) :
    a.write id padding packet = b.write id padding packet := by
  rw [write, write, ← toRecord_canonical, beq_iff.mp h, toRecord_canonical]

/-- An attribute is read where it is written, and what is written depends on it up to `==` alone. -/
theorem read_of_write (a : Attribute) (id : TransactionId) (padding : UInt8)
    (packet rest : Bytes) :
    (∀ packet', a.write id padding packet = .ok packet' →
      ∃ value bytes b, a.toValue id = .ok value ∧ packet' = packet ++ bytes ∧
        bytes.length = 4 + value.length + (4 - value.length % 4) % 4 ∧
        read id ((Reader.ofBytes (packet' ++ rest)).advance packet.length) =
          (.ok b, (Reader.ofBytes (packet' ++ rest)).advance (packet.length + bytes.length)) ∧
        (b == a) = true ∧
        ∀ address, b.address? = some address → ∀ i (hi : i < 16), address.size ≤ i →
          address.bytes[i] = 0) ∧
    ∀ b, (a == b) = true → a.write id padding packet = b.write id padding packet := by
  refine ⟨fun packet' hwrite => ?_, fun b => write_congr⟩
  obtain ⟨r, hr, rfl⟩ := write_eq_ok hwrite
  obtain ⟨hvalue, -, -, hpadding⟩ := toRecord_eq_ok_iff.mp hr
  have hlength : r.bytes.length = 4 + r.value.length + (4 - r.value.length % 4) % 4 := by
    rw [Record.length_bytes, Record.size, hpadding, List.length_replicate]
    rfl
  refine ⟨r.value, r.bytes, a.canonical, hvalue, rfl, hlength, ?_, ?_, ?_⟩
  · rw [read, Record.read_advance (isComplete_of_toRecord hr), Record.length_bytes]
    simp only [ofRecord_toRecord hr]
  · exact beq_iff.mpr a.canonical_canonical
  · intro address haddress i hi hsize
    have hcanonical := canonical_of_address?_canonical haddress
    exact TransportAddress.getElem_of_canonical_eq hcanonical hsize hi

/-- An IPv4 address with something else than zeros behind its four bytes. -/
def staleAddress : TransportAddress := ⟨ipv4Family, 0x1234, Vector.replicate 16 0xEE⟩

/-- The bytes that do not count are not written, and zeros are read in their place. -/
theorem read_of_write_staleAddress :
    let id := Vector.replicate 12 0
    let packet : Bytes := [0x01, 0x02, 0x03]
    let packet' : Bytes := packet ++ [0x00, 0x20, 0x00, 0x08, 0x00, 0x01, 0x33, 0x26, 0xCF, 0xFC,
      0x4A, 0xAC]
    let reader := Reader.ofBytes (packet' ++ [0xFF])
    (∃ b, read id (reader.advance 3) = (.ok b, reader.advance 15) ∧
        (b == xorMappedAddress staleAddress) = true ∧ b ≠ xorMappedAddress staleAddress) ∧
      (xorMappedAddress staleAddress.canonical).write id 0xAA packet = .ok packet' := by
  intro id packet packet' reader
  have hwrite : (xorMappedAddress staleAddress).write id 0xAA packet = .ok packet' := by
    decide +kernel
  have hequal : (xorMappedAddress staleAddress == xorMappedAddress staleAddress.canonical) = true :=
    by decide +kernel
  obtain ⟨hread, hcongr⟩ := read_of_write (xorMappedAddress staleAddress) id 0xAA packet [0xFF]
  obtain ⟨_, bytes, b, -, hbytes, -, hread, hb, hzero⟩ := hread packet' hwrite
  obtain rfl := List.append_cancel_left hbytes
  refine ⟨⟨b, hread, hb, ?_⟩, (hcongr _ hequal).symm.trans hwrite⟩
  rintro rfl
  exact absurd (hzero staleAddress rfl 4 (by decide) (by decide)) (by decide)

end Attribute

end Stun
