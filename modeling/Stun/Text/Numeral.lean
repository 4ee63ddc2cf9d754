import Stun.Bytes.Basic

/-!
# Digits and numerals

Numbers stand in texts in base ten and base sixteen. The digits above nine are written as lower
case letters and read in either case.

## Main definitions

* `Numeral.digit`, `Numeral.digit?`: the character of a number below sixteen, and back.
* `Numeral.ofNat`: a number in a base, without leading zeros.
* `Numeral.toNat?`: the number that digits of a base stand for.

## Main results

* `Numeral.digit?_digit`: every digit that is written is read back.
* `Numeral.toNat?_ofNat`: every numeral that is written is read back.
-/

namespace Stun.Numeral

/-! ### Digits -/

/-- The character of a number below sixteen. -/
def digit (value : Nat) : UInt8 := UInt8.ofNat (if value < 10 then 0x30 + value else 0x57 + value)

/-- The number of a digit of either case. -/
def digit? (c : UInt8) : Option Nat :=
  if 0x30 ≤ c ∧ c ≤ 0x39 then some (c.toNat - 0x30)
  else if 0x61 ≤ c ∧ c ≤ 0x66 then some (c.toNat - 0x57)
  else if 0x41 ≤ c ∧ c ≤ 0x46 then some (c.toNat - 0x37)
  else none

/-- Every digit that is written is read back. -/
theorem digit?_digit {value : Nat} (h : value < 16) : digit? (digit value) = some value := by
  have all : ∀ v : Fin 16, digit? (digit v) = some v.val := by decide
  exact all ⟨value, h⟩

/-! ### Numerals -/

/-- The digits of a number in a base, most significant first and without leading zeros. -/
def ofNat (base n : Nat) : Bytes :=
  if n < base ∨ base < 2 then [digit n] else ofNat base (n / base) ++ [digit (n % base)]
termination_by n
decreasing_by
  next h =>
    rw [not_or] at h
    exact Nat.div_lt_self (by omega) (by omega)

/-- The number after one more digit of a base. -/
def extend? (base n : Nat) (c : UInt8) : Option Nat :=
  (digit? c).bind fun value => if value < base then some (n * base + value) else none

/-- The number that digits of a base stand for, zero for none. -/
def toNat? (base : Nat) (text : Bytes) : Option Nat := text.foldlM (extend? base) 0

/-- Every numeral that is written is read back. -/
theorem toNat?_ofNat {base : Nat} (hbase : 2 ≤ base) (hle : base ≤ 16) (n : Nat) :
    toNat? base (ofNat base n) = some n := by
  fun_induction ofNat base n with
  | case1 n h =>
    have hn : n < base := by omega
    simp [toNat?, extend?, digit?_digit (show n < 16 by omega), hn]
  | case2 n h ih =>
    have hmod := Nat.mod_lt n (show 0 < base by omega)
    have hdiv := Nat.div_add_mod n base
    rw [toNat?] at ih ⊢
    rw [List.foldlM_append, ih]
    simp only [bind, Option.bind, List.foldlM_cons, List.foldlM_nil, extend?,
      digit?_digit (show n % base < 16 by omega), if_pos hmod, Nat.mul_comm (n / base), hdiv]
    rfl

/-! ### Texts of several parts -/

/-- A text is unreadable when one of its parts is. -/
theorem mapM_eq_none_of_mem {α β : Type} {read : α → Option β} {parts : List α} {part : α}
    (hpart : part ∈ parts) (h : read part = none) : parts.mapM read = none := by
  induction parts with
  | nil => cases hpart
  | cons first parts ih =>
    rcases List.mem_cons.mp hpart with rfl | hmem
    · simp [h]
    · simp [ih hmem]

end Stun.Numeral
