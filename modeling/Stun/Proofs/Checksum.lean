import Mathlib.Logic.Function.Basic
import Stun.Fingerprint

/-!
# Short errors change the checksum

The state of the checksum is a polynomial over two elements, and a step of the division is linear
and loses nothing. So the state after some bytes determines the state before them, and at most four
bytes, which fill the state no more than once, are determined by the states on both sides of them.
Two byte strings that differ, and only inside four bytes in a row, have different checksums.

The entries of the table are what eight steps make of each single byte. By linearity a byte that is
absorbed by table is absorbed by eight steps from any state.

## Main definitions

* `Crc32.bit`: a coefficient of a state.
* `Crc32.word`: the number that some bytes are absorbed as, least significant byte first.

## Main results

* `Crc32.absorb_eq_absorbBits`: a byte that is absorbed by table is absorbed by eight steps.
* `fingerprint_bitwise`: states, checksums and FINGERPRINT by table are those of the division.
* `Crc32.update_injective`: the state after some bytes determines the state before them.
* `Crc32.eq_of_update_eq`: at most four bytes are determined by the states on both sides of them.
* `Crc32.checksum_ne`: errors inside four bytes in a row change the checksum.
-/

namespace Stun

namespace Crc32

/-! ### Coefficients -/

/-- A coefficient of a state, the least significant bit first. -/
def bit (state : UInt32) (i : Nat) : Bool := state.toBitVec.getLsbD i

variable {x y : UInt32} {i : Nat}

theorem eq_of_bit_eq (h : ∀ i < 32, bit x i = bit y i) : x = y :=
  UInt32.toBitVec_inj.mp (BitVec.eq_of_getLsbD_eq h)

theorem bit_of_le (h : 32 ≤ i) : bit x i = false := BitVec.getLsbD_of_ge _ _ h

@[simp] theorem bit_zero (i : Nat) : bit 0 i = false := BitVec.getLsbD_zero

@[simp] theorem bit_xor (x y : UInt32) (i : Nat) : bit (x ^^^ y) i = (bit x i ^^ bit y i) := by
  rw [bit, UInt32.toBitVec_xor, BitVec.getLsbD_xor]
  rfl

@[simp] theorem bit_toUInt32 (b : UInt8) (i : Nat) : bit b.toUInt32 i = b.toBitVec.getLsbD i := by
  rw [bit, UInt8.toBitVec_toUInt32, BitVec.getLsbD_setWidth]
  grind

theorem bit_shiftRight_one (x : UInt32) (i : Nat) : bit (x >>> 1) i = bit x (i + 1) := by
  simp [bit, Nat.add_comm]

theorem bit_shiftRight_eight (x : UInt32) (i : Nat) : bit (x >>> 8) i = bit x (i + 8) := by
  simp [bit, Nat.add_comm]

theorem bit_shiftLeft_eight_of_lt (h : i < 8) : bit (x <<< 8) i = false := by
  simp [bit, h]

theorem bit_shiftLeft_eight_add (h : i + 8 < 32) : bit (x <<< 8) (i + 8) = bit x i := by
  have hi : i < 32 := by omega
  simp [bit, h, hi]

/-! ### One step of the division -/

theorem and_one_eq_one_iff : x &&& 1 = 1 ↔ bit x 0 = true := by
  have hlow : x.toBitVec &&& 1#32 = (BitVec.ofBool (bit x 0)).setWidth 32 :=
    BitVec.and_one_eq_setWidth_ofBool_getLsbD
  rw [← UInt32.toBitVec_inj, UInt32.toBitVec_and]
  exact hlow ▸ by cases bit x 0 <;> decide

theorem bit_shift (x : UInt32) (i : Nat) :
    bit (shift x) i = (bit x (i + 1) ^^ (bit x 0 && bit 0xEDB88320 i)) := by
  unfold shift
  split
  · next h => rw [bit_xor, bit_shiftRight_one, and_one_eq_one_iff.mp h, Bool.true_and]
  · next h =>
    rw [and_one_eq_one_iff, Bool.not_eq_true] at h
    rw [bit_shiftRight_one, h, Bool.false_and, Bool.xor_false]

theorem shift_xor (x y : UInt32) : shift (x ^^^ y) = shift x ^^^ shift y := by
  apply eq_of_bit_eq
  intro i _
  simp only [bit_shift, bit_xor, Bool.and_xor_distrib_right, Bool.xor_assoc, Bool.xor_left_comm]

/-- The highest coefficient tells whether the polynomial was taken along, and so which bit left. -/
theorem shift_injective : Function.Injective shift := by
  intro x y h
  have hbit (i : Nat) := congrArg (bit · i) h
  simp only [bit_shift] at hbit
  have hlow : bit x 0 = bit y 0 := by
    have htop : bit 0xEDB88320 31 = true := by decide
    simpa only [bit_of_le (Nat.le_refl 32), htop, Bool.and_true, Bool.false_xor] using hbit 31
  apply eq_of_bit_eq
  intro i _
  cases i with
  | zero => exact hlow
  | succ i => simpa only [hlow, Bool.xor_left_inj] using hbit i

/-! ### Many steps -/

theorem repeat_shift_xor (n : Nat) (x y : UInt32) :
    Nat.repeat shift n (x ^^^ y) = Nat.repeat shift n x ^^^ Nat.repeat shift n y := by
  induction n with
  | zero => rfl
  | succ n ih => rw [Nat.repeat, ih, shift_xor, Nat.repeat, Nat.repeat]

theorem repeat_shift_injective (n : Nat) : Function.Injective (Nat.repeat shift n) := by
  induction n with
  | zero => exact fun _ _ h => h
  | succ n ih => exact fun _ _ h => ih (shift_injective h)

theorem repeat_shift_add (m n : Nat) (x : UInt32) :
    Nat.repeat shift (m + n) x = Nat.repeat shift m (Nat.repeat shift n x) := by
  induction m with
  | zero => rw [Nat.zero_add, Nat.repeat]
  | succ m ih => rw [Nat.succ_add, Nat.repeat, ih, Nat.repeat]

/-- As long as only zeros leave, the steps move the other coefficients down. -/
theorem bit_repeat_shift {n : Nat} (h : ∀ i < n, bit x i = false) (i : Nat) :
    bit (Nat.repeat shift n x) i = bit x (i + n) := by
  induction n generalizing i with
  | zero => rfl
  | succ n ih =>
    have hmoved := ih fun i hi => h i (Nat.lt_succ_of_lt hi)
    have hlow : bit (Nat.repeat shift n x) 0 = false := by
      rw [hmoved, Nat.zero_add]
      exact h n (Nat.lt_succ_self n)
    rw [Nat.repeat, bit_shift, hlow, Bool.false_and, Bool.xor_false, hmoved]
    congr 1
    omega

/-! ### One byte -/

/-- The table holds what eight steps make of each single byte. -/
theorem toList_table :
    table.toList = (List.range 256).map fun i => Nat.repeat shift 8 (UInt32.ofNat i) := by
  decide +kernel

private theorem getElem_of_toList_eq {entries : Vector UInt32 256} {f : Nat → UInt32}
    (h : entries.toList = (List.range 256).map f) (b : UInt8) : entries[b.toFin] = f b.toNat := by
  have hlt : b.toNat < entries.toList.length := by
    rw [Vector.length_toList]
    exact b.toNat_lt
  calc
    entries[b.toFin] = entries.toList[b.toNat] := (Vector.getElem_toList hlt).symm
    _ = f b.toNat := by simp only [h, List.getElem_map, List.getElem_range]

theorem getElem_table (b : UInt8) : table[b.toFin] = Nat.repeat shift 8 b.toUInt32 := by
  rw [getElem_of_toList_eq toList_table, UInt32.ofNat_uInt8ToNat]

/-- A byte that is absorbed by table is absorbed by eight steps: the low byte of the state leaves
together with it, and what is above is moved down. -/
theorem absorb_eq_absorbBits (state : UInt32) (byte : UInt8) :
    absorb state byte = absorbBits state byte := by
  have hlow (i : Nat) : bit state.toUInt8.toUInt32 i = (decide (i < 8) && bit state i) := by
    rw [bit_toUInt32, UInt32.toBitVec_toUInt8, BitVec.getLsbD_setWidth]
    rfl
  have hsplit : state ^^^ byte.toUInt32 =
      (state.toUInt8 ^^^ byte).toUInt32 ^^^ (state ^^^ state.toUInt8.toUInt32) := by
    apply eq_of_bit_eq
    intro i _
    rw [UInt8.toUInt32_xor]
    simp only [bit_xor]
    cases bit state i <;> cases bit byte.toUInt32 i <;> cases bit state.toUInt8.toUInt32 i <;> rfl
  have hhigh : Nat.repeat shift 8 (state ^^^ state.toUInt8.toUInt32) = state >>> 8 := by
    apply eq_of_bit_eq
    intro i _
    rw [bit_repeat_shift, bit_shiftRight_eight, bit_xor, hlow, decide_eq_false (by omega),
      Bool.false_and, Bool.xor_false]
    intro i hi
    rw [bit_xor, hlow, decide_eq_true hi, Bool.true_and, Bool.xor_self]
  rw [absorb, getElem_table, absorbBits, hsplit, repeat_shift_xor, hhigh]

theorem absorb_injective (byte : UInt8) : Function.Injective (absorb · byte) := by
  intro x y h
  simp only [absorb_eq_absorbBits, absorbBits] at h
  exact (UInt32.xor_left_inj _).mp (repeat_shift_injective 8 h)

/-! ### Many bytes -/

/-- Bytes that are absorbed by table are absorbed by eight steps each, from any state. -/
theorem update_eq_updateBits (state : UInt32) (bytes : Bytes) :
    update state bytes = updateBits state bytes := by
  induction bytes generalizing state with
  | nil => rfl
  | cons b bytes ih =>
    calc
      update state (b :: bytes) = update (absorb state b) bytes := rfl
      _ = updateBits (absorb state b) bytes := ih _
      _ = updateBits (absorbBits state b) bytes := by rw [absorb_eq_absorbBits]
      _ = updateBits state (b :: bytes) := rfl

/-- The state after some bytes determines the state before them. -/
theorem update_injective (bytes : Bytes) : Function.Injective (update · bytes) := by
  induction bytes with
  | nil => exact fun _ _ h => h
  | cons b bytes ih => exact fun _ _ h => absorb_injective b (ih h)

/-- The number that some bytes are absorbed as, least significant byte first. -/
def word : Bytes → UInt32
  | [] => 0
  | b :: bytes => b.toUInt32 ^^^ (word bytes <<< 8)

variable {bytes first second : Bytes}

theorem bit_word_of_le (h : 8 * bytes.length ≤ i) : bit (word bytes) i = false := by
  induction bytes generalizing i with
  | nil => exact bit_zero i
  | cons b bytes ih =>
    rw [List.length_cons] at h
    obtain ⟨i, rfl⟩ : ∃ j, i = j + 8 := ⟨i - 8, by omega⟩
    rw [word, bit_xor, bit_toUInt32, BitVec.getLsbD_of_ge _ _ (by omega), Bool.false_xor]
    by_cases hi : i + 8 < 32
    · rw [bit_shiftLeft_eight_add hi, ih (by omega)]
    · exact bit_of_le (by omega)

/-- At most four bytes are absorbed as one number. -/
theorem update_eq_repeat_shift (hlen : bytes.length ≤ 4) (state : UInt32) :
    update state bytes = Nat.repeat shift (8 * bytes.length) (state ^^^ word bytes) := by
  induction bytes generalizing state with
  | nil => rw [word, UInt32.xor_zero]; rfl
  | cons b bytes ih =>
    rw [List.length_cons] at hlen
    have hword : Nat.repeat shift 8 (word bytes <<< 8) = word bytes := by
      apply eq_of_bit_eq
      intro i _
      rw [bit_repeat_shift fun i hi => bit_shiftLeft_eight_of_lt hi]
      by_cases hi : i + 8 < 32
      · exact bit_shiftLeft_eight_add hi
      · rw [bit_of_le (by omega), bit_word_of_le (by omega)]
    calc
      update state (b :: bytes) = update (absorb state b) bytes := rfl
      _ = Nat.repeat shift (8 * bytes.length) (absorb state b ^^^ word bytes) := ih (by omega) _
      _ = Nat.repeat shift (8 * bytes.length)
          (Nat.repeat shift 8 (state ^^^ word (b :: bytes))) := by
        rw [absorb_eq_absorbBits, absorbBits, word, ← UInt32.xor_assoc,
          repeat_shift_xor 8 _ (word bytes <<< 8), hword]
      _ = Nat.repeat shift (8 * (b :: bytes).length) (state ^^^ word (b :: bytes)) := by
        rw [← repeat_shift_add, List.length_cons, Nat.mul_succ]

theorem eq_of_word_eq (hlen : first.length = second.length) (hle : first.length ≤ 4)
    (h : word first = word second) : first = second := by
  induction first generalizing second with
  | nil => exact (List.eq_nil_of_length_eq_zero hlen.symm).symm
  | cons b first ih =>
    cases second with
    | nil => exact absurd hlen (by simp)
    | cons c second =>
      rw [List.length_cons, List.length_cons, Nat.add_right_cancel_iff] at hlen
      rw [List.length_cons] at hle
      have hbit (i : Nat) := congrArg (bit · i) h
      simp only [word, bit_xor, bit_toUInt32] at hbit
      have hhead : b = c := by
        apply UInt8.toBitVec_inj.mp
        apply BitVec.eq_of_getLsbD_eq
        intro i hi
        simpa only [bit_shiftLeft_eight_of_lt hi, Bool.xor_false] using hbit i
      have htail : word first = word second := by
        apply eq_of_bit_eq
        intro i _
        by_cases hi : i + 8 < 32
        · simpa only [bit_shiftLeft_eight_add hi, hhead, Bool.xor_right_inj] using hbit (i + 8)
        · rw [bit_word_of_le (by omega), bit_word_of_le (by omega)]
      rw [hhead, ih hlen (by omega) htail]

/-- At most four bytes are determined by the states on both sides of them. -/
theorem eq_of_update_eq {state : UInt32} (hlen : first.length = second.length)
    (hle : first.length ≤ 4) (h : update state first = update state second) : first = second := by
  rw [update_eq_repeat_shift hle, update_eq_repeat_shift (hlen ▸ hle), ← hlen] at h
  exact eq_of_word_eq hlen hle ((UInt32.xor_right_inj _).mp (repeat_shift_injective _ h))

/-- Bytes that differ, and only inside four in a row, have different checksums. -/
theorem checksum_ne (front back : Bytes) (hlen : first.length = second.length)
    (hle : first.length ≤ 4) (hne : first ≠ second) :
    checksum (front ++ (first ++ back)) ≠ checksum (front ++ (second ++ back)) := by
  intro h
  simp only [checksum, update_append, UInt32.not_inj] at h
  exact hne (eq_of_update_eq hlen hle (update_injective back h))

end Crc32

/-- The checksum by table is the division itself, a bit at a time, and so is the FINGERPRINT up to
its mask. -/
theorem fingerprint_bitwise :
    (∀ (state : UInt32) (bytes : Bytes),
      Crc32.update state bytes = Crc32.updateBits state bytes) ∧
    (∀ bytes : Bytes, Crc32.checksum bytes = ~~~ Crc32.updateBits 0xFFFFFFFF bytes) ∧
    ∀ bytes : Bytes,
      fingerprint bytes = ~~~ Crc32.updateBits 0xFFFFFFFF bytes ^^^ 0x5354554E := by
  have hchecksum (bytes : Bytes) :
      Crc32.checksum bytes = ~~~ Crc32.updateBits 0xFFFFFFFF bytes := by
    rw [Crc32.checksum, Crc32.update_eq_updateBits]
  refine ⟨Crc32.update_eq_updateBits, hchecksum, fun bytes => ?_⟩
  rw [fingerprint, hchecksum, fingerprintMask]

end Stun
