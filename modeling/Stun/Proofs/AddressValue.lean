import Stun.Address.Value

/-!
# Addresses are read back

The value that an address is written as is read as the address with zeros for the bytes that do
not count. Reading ignores the first byte of a value and what stands behind the address, and
nothing else: a value is read as an address exactly when it is what the address is written as, up
to these.

## Main definitions

* `TransportAddress.IsValidValue`, `TransportAddress.IsCanonicalValue`: the values that hold an
  address, and those that an address is written as.

## Main results

* `TransportAddress.ofValue_eq_ok_iff`: the values that are read as a given address.
* `TransportAddress.exists_ofValue_iff`, `TransportAddress.toValue_eq_ok_iff_isCanonicalValue`:
  which values are read as some address, and which of these the address is written as again.
* `TransportAddress.canonical_masked`: clearing the bytes that do not count and laying the mask
  over the others do not depend on each other.
-/

namespace Stun.TransportAddress

attribute [ext] TransportAddress

variable {a : TransportAddress} {value : Bytes}

theorem toValue_eq_ok_iff :
    a.toValue = .ok value ↔ (a.family = ipv4Family ∨ a.family = ipv6Family) ∧
      value = [0, a.family] ++ Bytes.ofUInt16 a.port ++ a.octets := by
  unfold toValue
  split
  · next h => exact ⟨fun hv => ⟨h, (Except.ok.inj hv).symm⟩, fun hv => hv.2 ▸ rfl⟩
  · next h => exact ⟨nofun, fun hv => absurd hv.1 h⟩

@[simp] theorem toValue_canonical (a : TransportAddress) : a.canonical.toValue = a.toValue := by
  simp only [toValue, family_canonical, port_canonical, octets_canonical]

/-! ### The bytes that count -/

theorem getElem_canonical (a : TransportAddress) {i : Nat} (h : i < 16) :
    a.canonical.bytes[i] = if i < a.size then a.bytes[i] else 0 := by
  split
  · next hi => simp [octets, canonical, Bytes.fit, hi, h]
  · next hi => simp [octets, canonical, Bytes.fit, List.getElem?_take, hi]

theorem canonical_masked (id : TransactionId) (a : TransportAddress) :
    (a.masked id).canonical = a.canonical.masked id := by
  have hbytes : (a.masked id).canonical.bytes = (a.canonical.masked id).bytes := by
    apply Vector.ext
    intro i hi
    rw [getElem_canonical, getElem_masked, getElem_masked, getElem_canonical, size_masked,
      size_canonical]
    split <;> rfl
  have hport : (a.masked id).canonical.port = (a.canonical.masked id).port := by
    simp only [port_canonical, masked]
  exact TransportAddress.ext (by simp only [family_canonical, family_masked]) hport hbytes

private theorem octets_of_bytes_eq_fit {bytes : Bytes} (hbytes : a.bytes = Bytes.fit 16 bytes)
    (hsize : a.size ≤ bytes.length) : a.octets = bytes.take a.size := by
  have hle := a.size_le
  apply List.ext_getElem
  · rw [length_octets, List.length_take]
    omega
  · intro i hi hi'
    rw [length_octets] at hi
    have hlt : i < bytes.length := by omega
    simp [octets, hbytes, Bytes.fit, List.getElem?_eq_getElem hlt]

private theorem four_le_size (a : TransportAddress) : 4 ≤ a.size := by
  unfold size
  split <;> decide

/-! ### Reading -/

private theorem ofValue_cons (first family high low : UInt8) (bytes : Bytes) :
    ofValue (first :: family :: high :: low :: bytes) =
      if bytes.length < 4 then .error .valueTooShort
      else if family ≠ ipv4Family ∧ family ≠ ipv6Family then .error (.invalidFamily family)
      else
        let address : TransportAddress := ⟨family, Bytes.toUInt16 [high, low], Bytes.fit 16 bytes⟩
        if bytes.length < address.size then .error .valueTooShort else .ok address.canonical := by
  have hlen : (first :: family :: high :: low :: bytes).length < headSize + 4 ↔
      bytes.length < 4 := by
    simp only [List.length_cons, headSize]
    omega
  simp only [ofValue, hlen]
  rfl

private theorem exists_cons_of_le (h : headSize ≤ value.length) :
    ∃ first family high low bytes, value = first :: family :: high :: low :: bytes := by
  match value with
  | _ :: _ :: _ :: _ :: _ => exact ⟨_, _, _, _, _, rfl⟩
  | [] | [_] | [_, _] | [_, _, _] => simp [headSize] at h

private theorem exists_ofUInt16_eq (n : UInt16) : ∃ high low, Bytes.ofUInt16 n = [high, low] :=
  ⟨_, _, rfl⟩

private theorem exists_toValue_of_ofValue (h : ofValue value = .ok a) : a.canonical = a ∧
    ∃ first exact extra, a.toValue = .ok (0 :: exact) ∧ value = first :: (exact ++ extra) := by
  have hlen : ¬ value.length < headSize + 4 := by
    intro hshort
    rw [ofValue, if_pos hshort] at h
    exact absurd h nofun
  have hhead : headSize ≤ value.length := by omega
  obtain ⟨first, family, high, low, bytes, rfl⟩ := exists_cons_of_le hhead
  rw [ofValue_cons] at h
  obtain ⟨address, haddress⟩ : ∃ address : TransportAddress,
      address = ⟨family, Bytes.toUInt16 [high, low], Bytes.fit 16 bytes⟩ := ⟨_, rfl⟩
  rw [← haddress] at h
  split at h
  · exact absurd h nofun
  split at h
  · exact absurd h nofun
  next hfamily =>
  dsimp only at h
  split at h
  · exact absurd h nofun
  next hsize =>
  rw [Nat.not_lt] at hsize
  rw [ne_eq, ne_eq, ← Decidable.or_iff_not_not_and_not] at hfamily
  obtain rfl := Except.ok.inj h
  have hbytes : address.bytes = Bytes.fit 16 bytes := by rw [haddress]
  have hoctets := octets_of_bytes_eq_fit hbytes hsize
  have hread : address.family = family ∧ address.port = Bytes.toUInt16 [high, low] := by
    simp only [haddress, and_self]
  have hport : Bytes.ofUInt16 address.port = [high, low] := by
    rw [hread.2, Bytes.ofUInt16_toUInt16 rfl]
  refine ⟨canonical_canonical _, first, family :: high :: low :: address.octets,
    bytes.drop address.size, ?_, ?_⟩
  · rw [toValue_canonical, toValue_eq_ok_iff, hport, hread.1]
    exact ⟨hfamily, rfl⟩
  · simp [hoctets]

private theorem ofValue_of_toValue {exact : Bytes} (hcanonical : a.canonical = a)
    (hvalue : a.toValue = .ok (0 :: exact)) (first : UInt8) (extra : Bytes) :
    ofValue (first :: (exact ++ extra)) = .ok a := by
  obtain ⟨hfamily, hexact⟩ := toValue_eq_ok_iff.mp hvalue
  obtain ⟨high, low, hport⟩ := exists_ofUInt16_eq a.port
  have hread : Bytes.toUInt16 [high, low] = a.port := by rw [← hport, Bytes.toUInt16_ofUInt16]
  simp only [hport, List.cons_append, List.nil_append, List.cons.injEq, true_and] at hexact
  subst hexact
  obtain ⟨address, haddress⟩ : ∃ address : TransportAddress,
      address = ⟨a.family, a.port, Bytes.fit 16 (a.octets ++ extra)⟩ := ⟨_, rfl⟩
  have hsize : address.size = a.size := by simp only [size, haddress]
  have hlen : (a.octets ++ extra).length = a.size + extra.length := by simp
  have hfour := a.four_le_size
  have hfit : address.bytes = Bytes.fit 16 (a.octets ++ extra) := by rw [haddress]
  have hoctets : address.octets = a.octets := by
    rw [octets_of_bytes_eq_fit hfit (by omega), hsize]
    exact List.take_left' (length_octets a)
  have hcanonical' : address.canonical = a := by
    have hbytes : address.canonical.bytes = a.canonical.bytes := congrArg (Bytes.fit 16) hoctets
    rw [← hcanonical]
    refine TransportAddress.ext ?_ ?_ hbytes
    · simp only [family_canonical, haddress]
    · simp only [port_canonical, haddress]
  rw [List.cons_append, List.cons_append, List.cons_append, ofValue_cons, hread, ← haddress,
    if_neg (by omega), if_neg (Decidable.or_iff_not_not_and_not.mp hfamily)]
  dsimp only
  rw [if_neg (by omega), hcanonical']

/-- A value is read as an address exactly when it is what the address is written as, up to its
first byte and to what stands behind. -/
theorem ofValue_eq_ok_iff :
    ofValue value = .ok a ↔ a.canonical = a ∧
      ∃ first exact extra, a.toValue = .ok (0 :: exact) ∧ value = first :: (exact ++ extra) := by
  refine ⟨exists_toValue_of_ofValue, ?_⟩
  rintro ⟨hcanonical, first, exact, extra, hvalue, rfl⟩
  exact ofValue_of_toValue hcanonical hvalue first extra

/-! ### The values that are addresses -/

/-- The values that hold an address: of a known family, and no shorter than its bytes need. -/
def IsValidValue (value : Bytes) : Prop :=
  (value[1]? = some ipv4Family ∧ 8 ≤ value.length) ∨
    (value[1]? = some ipv6Family ∧ 20 ≤ value.length)

/-- The values that an address is written as: a zero byte in front and nothing behind. -/
def IsCanonicalValue (value : Bytes) : Prop :=
  value[0]? = some 0 ∧
    ((value[1]? = some ipv4Family ∧ value.length = 8) ∨
      (value[1]? = some ipv6Family ∧ value.length = 20))

theorem exists_ofValue_iff : (∃ a, ofValue value = .ok a) ↔ IsValidValue value := by
  unfold IsValidValue
  by_cases hlen : value.length < headSize + 4
  · rw [ofValue, if_pos hlen]
    rw [headSize] at hlen
    exact ⟨fun ⟨_, h⟩ => absurd h nofun, by omega⟩
  have hhead : headSize ≤ value.length := by omega
  obtain ⟨first, family, high, low, bytes, rfl⟩ := exists_cons_of_le hhead
  simp only [List.length_cons, headSize] at hlen
  rw [ofValue_cons, if_neg (by omega)]
  simp only [size, List.getElem?_cons_succ, List.getElem?_cons_zero, List.length_cons,
    Option.some.injEq]
  constructor
  · rintro ⟨a, h⟩
    grind
  · intro h
    refine ⟨canonical ⟨family, Bytes.toUInt16 [high, low], Bytes.fit 16 bytes⟩, ?_⟩
    grind [ipv4Family, ipv6Family]

/-- An address that was read is written as the value it was read from exactly when that is one of
those that addresses are written as. -/
theorem toValue_eq_ok_iff_isCanonicalValue (h : ofValue value = .ok a) :
    a.toValue = .ok value ↔ IsCanonicalValue value := by
  obtain ⟨-, first, exact, extra, hvalue, rfl⟩ := ofValue_eq_ok_iff.mp h
  obtain ⟨hfamily, hexact⟩ := toValue_eq_ok_iff.mp hvalue
  obtain ⟨high, low, hport⟩ := exists_ofUInt16_eq a.port
  simp only [hport, List.cons_append, List.nil_append, List.cons.injEq, true_and] at hexact
  subst hexact
  have hextra : a.family :: high :: low :: a.octets = a.family :: high :: low :: a.octets ++ extra ↔
      extra.length = 0 := by
    rw [List.self_eq_append_right, List.length_eq_zero_iff]
  rw [hvalue, Except.ok.injEq, List.cons.injEq, hextra]
  simp only [IsCanonicalValue, List.cons_append, List.getElem?_cons_succ, List.getElem?_cons_zero,
    List.length_cons, List.length_append, length_octets, Option.some.injEq,
    eq_comm (a := (0 : UInt8))]
  unfold size
  grind [ipv4Family, ipv6Family]

end Stun.TransportAddress
