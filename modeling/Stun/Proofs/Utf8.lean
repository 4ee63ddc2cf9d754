import Mathlib.Algebra.Group.Nat.Defs
import Stun.Text.Utf8

/-!
# UTF-8 is read back

Reading a character from the front of a byte string gives exactly the character whose shortest
form stands there. The continuation bytes of a form are the last base-64 digits of the number of
the character, so reading them is undone by one formula whatever their count is, and the four
kinds of first bytes differ only in that count and in the number of bits that they carry.

## Main definitions

* `Utf8.tail`: the continuation bytes of a number.

## Main results

* `Utf8.next?_eq_some_iff`: what reading one character gives.
* `Utf8.isValid_iff`: the texts are the byte strings that some characters are written as.
-/

namespace Stun.Utf8

/-! ### The bits of single bytes -/

/-- A mask of high bits rounds down. -/
private theorem toNat_and_highBits (b mask : UInt8) {bits : Nat} (hbits : bits < 8)
    (h : mask = UInt8.ofNat (256 - 2 ^ bits)) :
    (b &&& mask).toNat = b.toNat / 2 ^ bits * 2 ^ bits := by
  obtain ⟨⟨b⟩⟩ := b
  subst h
  revert bits b
  decide +kernel

/-- A mask of low bits is a remainder. -/
private theorem toNat_and_lowBits (b mask : UInt8) (bits : Nat) (h : mask.toNat = 2 ^ bits - 1) :
    (b &&& mask).toNat = b.toNat % 2 ^ bits := by
  rw [UInt8.toNat_and, h, Nat.and_two_pow_sub_one_eq_mod]

/-! ### Continuation bytes -/

/-- The continuation bytes that carry the last `count` base-64 digits of a number. -/
def tail : Nat → Nat → Bytes
  | 0, _ => []
  | count + 1, n => UInt8.ofNat (n / 64 ^ count % 64 + 0x80) :: tail count n

/-- A byte is the continuation byte of a digit exactly when it is marked as one and carries it. -/
private theorem eq_continuation_iff {b : UInt8} {digit : Nat} (h : digit < 64) :
    b = UInt8.ofNat (digit + 0x80) ↔ b &&& 0xC0 = 0x80 ∧ (b &&& 0x3F).toNat = digit := by
  have hhigh := toNat_and_highBits b 0xC0 (by decide : 6 < 8) rfl
  have hlow := toNat_and_lowBits b 0x3F 6 rfl
  have hb := b.toNat_lt
  rw [hlow, ← UInt8.toNat_inj, ← UInt8.toNat_inj, hhigh, UInt8.toNat_ofNat']
  simp only [UInt8.reduceToNat]
  omega

/-- Reading continuation bytes gives the number whose digits they carry behind those read before. -/
theorem continue?_eq_some_iff {value count n : Nat} {bytes rest : Bytes} :
    continue? value count bytes = some (n, rest) ↔
      bytes = tail count n ++ rest ∧ n / 64 ^ count = value := by
  induction count generalizing value bytes with
  | zero =>
    simp only [continue?, tail, List.nil_append, Nat.pow_zero, Nat.div_one, Option.some.injEq,
      Prod.mk.injEq]
    constructor
    · rintro ⟨rfl, rfl⟩
      exact ⟨rfl, rfl⟩
    · rintro ⟨rfl, rfl⟩
      exact ⟨rfl, rfl⟩
  | succ count ih =>
    cases bytes with
    | nil => simp [continue?, tail]
    | cons b bytes =>
      have hdigit : n / 64 ^ count % 64 < 64 := Nat.mod_lt _ (by decide)
      have hpow : n / 64 ^ (count + 1) = n / 64 ^ count / 64 := by
        rw [Nat.pow_succ, Nat.div_div_eq_div_mul]
      have hlow := toNat_and_lowBits b 0x3F 6 rfl
      rw [continue?, tail, List.cons_append, List.cons.injEq, eq_continuation_iff hdigit, hpow]
      split
      · next hb =>
        rw [ih]
        constructor
        · rintro ⟨rfl, hvalue⟩
          exact ⟨⟨⟨hb, by omega⟩, rfl⟩, by omega⟩
        · rintro ⟨⟨⟨-, hb'⟩, rfl⟩, hvalue⟩
          exact ⟨rfl, by omega⟩
      · next hb => exact ⟨nofun, fun h => absurd h.1.1.1 hb⟩

/-! ### Characters -/

theorem char?_eq_some_iff {least value : Nat} {c : Char} :
    char? least value = some c ↔ c.toNat = value ∧ least ≤ value := by
  by_cases hvalid : value.isValidChar
  · by_cases hleast : least ≤ value
    · rw [char?, dif_pos hvalid, if_pos hleast, Option.some.injEq]
      constructor
      · rintro rfl
        exact ⟨rfl, hleast⟩
      · rintro ⟨rfl, -⟩
        exact Char.ext rfl
    · rw [char?, dif_pos hvalid, if_neg hleast]
      exact ⟨fun h => absurd h.symm (Option.some_ne_none c), fun h => absurd h.2 hleast⟩
  · rw [char?, dif_neg hvalid]
    exact ⟨fun h => absurd h.symm (Option.some_ne_none c), fun h => absurd (h.1 ▸ c.valid) hvalid⟩

theorem wide?_eq_some_iff {value count least : Nat} {bytes rest : Bytes} {c : Char} :
    wide? value count least bytes = some (c, rest) ↔
      bytes = tail count c.toNat ++ rest ∧ c.toNat / 64 ^ count = value ∧ least ≤ c.toNat := by
  unfold wide?
  split
  · next n rest' hcontinue =>
    rw [Option.map_eq_some_iff]
    constructor
    · rintro ⟨c', hc, heq⟩
      obtain ⟨rfl, rfl⟩ := Prod.mk.inj heq
      obtain ⟨rfl, hleast⟩ := char?_eq_some_iff.mp hc
      obtain ⟨hbytes, hvalue⟩ := continue?_eq_some_iff.mp hcontinue
      exact ⟨hbytes, hvalue, hleast⟩
    · rintro ⟨hbytes, hvalue, hleast⟩
      rw [continue?_eq_some_iff.mpr ⟨hbytes, hvalue⟩] at hcontinue
      obtain ⟨rfl, rfl⟩ := Prod.mk.inj (Option.some.inj hcontinue)
      exact ⟨c, char?_eq_some_iff.mpr ⟨rfl, hleast⟩, rfl⟩
  · next hcontinue =>
    refine ⟨nofun, fun h => ?_⟩
    rw [continue?_eq_some_iff.mpr ⟨h.1, h.2.1⟩] at hcontinue
    exact absurd hcontinue nofun

/-- The kinds of first bytes, by the numbers that they are. -/
private theorem next?_cons (lead : UInt8) (bytes : Bytes) :
    next? (lead :: bytes) =
      if lead.toNat < 0x80 then wide? lead.toNat 0 0 bytes
      else if lead.toNat < 0xC0 then none
      else if lead.toNat < 0xE0 then wide? (lead.toNat - 0xC0) 1 0x80 bytes
      else if lead.toNat < 0xF0 then wide? (lead.toNat - 0xE0) 2 0x800 bytes
      else if lead.toNat < 0xF8 then wide? (lead.toNat - 0xF0) 3 0x10000 bytes
      else none := by
  have two : lead &&& 0xE0 = 0xC0 ↔ lead.toNat / 32 = 6 := by
    rw [← UInt8.toNat_inj, toNat_and_highBits lead 0xE0 (by decide : 5 < 8) rfl]
    simp only [UInt8.reduceToNat]
    omega
  have three : lead &&& 0xF0 = 0xE0 ↔ lead.toNat / 16 = 14 := by
    rw [← UInt8.toNat_inj, toNat_and_highBits lead 0xF0 (by decide : 4 < 8) rfl]
    simp only [UInt8.reduceToNat]
    omega
  have four : lead &&& 0xF8 = 0xF0 ↔ lead.toNat / 8 = 30 := by
    rw [← UInt8.toNat_inj, toNat_and_highBits lead 0xF8 (by decide : 3 < 8) rfl]
    simp only [UInt8.reduceToNat]
    omega
  have one : lead < 0x80 ↔ lead.toNat < 0x80 := Iff.rfl
  rw [next?, toNat_and_lowBits lead 0x1F 5 rfl, toNat_and_lowBits lead 0x0F 4 rfl,
    toNat_and_lowBits lead 0x07 3 rfl]
  simp only [one, two, three, four]
  grind

private theorem toNat_lt (c : Char) : c.toNat < 0x110000 := by
  rcases c.valid with h | ⟨-, h⟩
  · exact Nat.lt_trans h (by decide)
  · exact h

/-- The shortest form of a character: a first byte of the kind that its number asks for, and
continuation bytes. -/
private theorem utf8EncodeChar_eq (c : Char) :
    String.utf8EncodeChar c =
      if c.toNat < 0x80 then [UInt8.ofNat c.toNat]
      else if c.toNat < 0x800 then UInt8.ofNat (c.toNat / 64 + 0xC0) :: tail 1 c.toNat
      else if c.toNat < 0x10000 then UInt8.ofNat (c.toNat / 4096 + 0xE0) :: tail 2 c.toNat
      else UInt8.ofNat (c.toNat / 262144 + 0xF0) :: tail 3 c.toNat := by
  have hmax := toNat_lt c
  have hval : c.val.toNat = c.toNat := rfl
  have hsmall : c.toNat < 0x800 → c.toNat / 64 % 0x20 = c.toNat / 64 := by omega
  have hmiddle : c.toNat < 0x10000 → c.toNat / 4096 % 0x10 = c.toNat / 4096 := by omega
  have hlarge : c.toNat / 262144 % 0x08 = c.toNat / 262144 := by omega
  simp only [String.utf8EncodeChar, hval, tail, Nat.pow_zero, Nat.div_one, Nat.reducePow]
  grind

/-- Reading a character gives the one whose shortest form stands at the front. -/
theorem next?_eq_some_iff {bytes rest : Bytes} {c : Char} :
    next? bytes = some (c, rest) ↔ bytes = String.utf8EncodeChar c ++ rest := by
  cases bytes with
  | nil => simp [next?]
  | cons lead bytes =>
    have hlead := lead.toNat_lt
    have hmax := toNat_lt c
    rw [next?_cons, utf8EncodeChar_eq]
    simp only [wide?_eq_some_iff, apply_ite (· = some (c, rest)),
      apply_ite (lead :: bytes = · ++ rest), List.cons_append, List.cons.injEq,
      ← UInt8.toNat_inj (a := lead), UInt8.toNat_ofNat', Nat.pow_zero, Nat.div_one,
      List.nil_append]
    -- The first bytes of each kind form a range, and so do the numbers that they are written for.
    grind [tail]

/-! ### Texts -/

theorem scan_of_none {bytes : Bytes} (h : next? bytes = none) : scan bytes = ([], bytes) := by
  rw [scan]
  split
  · rfl
  · next hsome => rw [h] at hsome; cases hsome

theorem scan_of_some {bytes rest : Bytes} {c : Char} (h : next? bytes = some (c, rest)) :
    scan bytes = (c :: (scan rest).1, (scan rest).2) := by
  rw [scan]
  split
  · next hnone => rw [h] at hnone; cases hnone
  · next hsome =>
    rw [h] at hsome
    cases hsome
    rfl

theorem encode_cons (c : Char) (chars : List Char) :
    encode (c :: chars) = String.utf8EncodeChar c ++ encode chars := rfl

/-- The characters that are read and the bytes that are left account for all bytes. -/
theorem encode_scan (bytes : Bytes) : encode (scan bytes).1 ++ (scan bytes).2 = bytes := by
  fun_induction scan bytes with
  | case1 bytes h => rfl
  | case2 bytes c rest h _ chars left hscan ih =>
    rw [hscan] at ih
    rw [encode_cons, List.append_assoc, ih, next?_eq_some_iff.mp h]

/-- The characters of a text are read one after the other from its front. -/
theorem scan_encode (chars : List Char) : scan (encode chars) = (chars, []) := by
  induction chars with
  | nil => exact scan_of_none rfl
  | cons c chars ih =>
    have hnext : next? (encode (c :: chars)) = some (c, encode chars) :=
      next?_eq_some_iff.mpr rfl
    rw [scan_of_some hnext, ih]

theorem scan_eq_iff {bytes : Bytes} {chars : List Char} :
    scan bytes = (chars, []) ↔ bytes = encode chars := by
  constructor
  · intro h
    have hencode := encode_scan bytes
    rw [h, List.append_nil] at hencode
    exact hencode.symm
  · rintro rfl
    exact scan_encode chars

/-- Different characters are written as different bytes. -/
theorem encode_injective : Function.Injective encode := by
  intro chars chars' h
  have hscan := scan_encode chars
  rw [h, scan_encode] at hscan
  exact (congrArg Prod.fst hscan).symm

/-- A byte string is text exactly when some characters are written as it. -/
theorem isValid_iff {bytes : Bytes} : isValid bytes = true ↔ ∃ chars, bytes = encode chars := by
  rw [isValid_eq_scan, List.isEmpty_iff]
  constructor
  · intro h
    exact ⟨(scan bytes).1, scan_eq_iff.mp (Prod.ext rfl h)⟩
  · rintro ⟨chars, rfl⟩
    rw [scan_encode]

end Stun.Utf8
