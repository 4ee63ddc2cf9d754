import Stun.Bytes.Basic

/-!
# Reading a byte string from the front

A `Reader` stands at a position in a byte string and holds what is left from there on. A read
either gives all the bytes it asks for and moves behind them, or gives nothing and leaves the
reader where it is.

## Main definitions

* `Reader`, `Reader.ofBytes`, `Reader.remaining`, `Reader.isEmpty`.
* `Reader.advance`: moving by a number of bytes that are known to be there.
* `Reader.take?`, `Reader.skip?`: reading and passing over bytes.
* `Reader.u8?`, `Reader.u16?`, `Reader.u32?`, `Reader.u64?`: reading numbers.
* `Reader.IsOver`: the reader belongs to a given byte string.

## Main results

* `Reader.take?_eq_some_iff`, `Reader.take?_eq_none_iff`: a read succeeds exactly when enough bytes
  are left.
* `Reader.IsOver.advance`, `Reader.IsOver.position_le`: a reader never leaves its byte string.
-/

namespace Stun

/-- A position in a byte string, with the bytes from there on. -/
structure Reader where
  /-- The number of bytes passed. -/
  position : Nat
  /-- The bytes that are left. -/
  rest : Bytes
  deriving Repr, DecidableEq

namespace Reader

/-- The reader in front of a byte string. -/
def ofBytes (bytes : Bytes) : Reader := ⟨0, bytes⟩

/-- The number of bytes that are left. -/
def remaining (r : Reader) : Nat := r.rest.length

/-- Whether no byte is left. -/
def isEmpty (r : Reader) : Bool := r.rest.isEmpty

/-- The reader `count` bytes further on. -/
def advance (r : Reader) (count : Nat) : Reader := ⟨r.position + count, r.rest.drop count⟩

theorem advance_advance (r : Reader) (first second : Nat) :
    (r.advance first).advance second = r.advance (first + second) := by
  simp only [advance, List.drop_drop, Nat.add_assoc]

/-- The next `count` bytes and the reader behind them. -/
def take? (r : Reader) (count : Nat) : Option (Bytes × Reader) :=
  let taken := r.rest.take count
  if taken.length = count then some (taken, r.advance count) else none

/-- The reader behind the next `count` bytes. -/
def skip? (r : Reader) (count : Nat) : Option Reader := (r.take? count).map Prod.snd

/-- The next byte. -/
def u8? (r : Reader) : Option (UInt8 × Reader) :=
  (r.take? 1).map fun (bytes, r) => (UInt8.ofNat bytes.toNat, r)

/-- The number in the next two bytes. -/
def u16? (r : Reader) : Option (UInt16 × Reader) :=
  (r.take? 2).map fun (bytes, r) => (bytes.toUInt16, r)

/-- The number in the next four bytes. -/
def u32? (r : Reader) : Option (UInt32 × Reader) :=
  (r.take? 4).map fun (bytes, r) => (bytes.toUInt32, r)

/-- The number in the next eight bytes. -/
def u64? (r : Reader) : Option (UInt64 × Reader) :=
  (r.take? 8).map fun (bytes, r) => (bytes.toUInt64, r)

/-- A read gives the next bytes and moves behind them, and succeeds exactly when they are there. -/
theorem take?_eq_some_iff {r r' : Reader} {count : Nat} {bytes : Bytes} :
    r.take? count = some (bytes, r') ↔
      count ≤ r.remaining ∧ bytes = r.rest.take count ∧ r' = r.advance count := by
  simp only [take?, remaining, List.length_take]
  constructor
  · intro h
    split at h
    · simp only [Option.some.injEq, Prod.mk.injEq] at h
      exact ⟨by omega, h.1.symm, h.2.symm⟩
    · exact absurd h nofun
  · rintro ⟨h, rfl, rfl⟩
    rw [if_pos (by omega)]

/-- A read fails exactly when too few bytes are left. -/
theorem take?_eq_none_iff {r : Reader} {count : Nat} :
    r.take? count = none ↔ r.remaining < count := by
  simp only [take?, remaining, List.length_take]
  split
  · exact iff_of_false nofun (by omega)
  · exact iff_of_true rfl (by omega)

/-! ### Staying inside the byte string -/

/-- The reader stands inside `bytes` and holds what is left of it. -/
def IsOver (r : Reader) (bytes : Bytes) : Prop :=
  r.position ≤ bytes.length ∧ r.rest = bytes.drop r.position

theorem isOver_ofBytes (bytes : Bytes) : (ofBytes bytes).IsOver bytes := by
  simp [IsOver, ofBytes]

theorem IsOver.position_le {r : Reader} {bytes : Bytes} (h : r.IsOver bytes) :
    r.position ≤ bytes.length := h.1

theorem IsOver.remaining_eq {r : Reader} {bytes : Bytes} (h : r.IsOver bytes) :
    r.remaining = bytes.length - r.position := by
  simp [remaining, h.2]

theorem IsOver.advance {r : Reader} {bytes : Bytes} {count : Nat} (h : r.IsOver bytes)
    (hcount : count ≤ r.remaining) : (r.advance count).IsOver bytes := by
  have hle := h.1
  rw [h.remaining_eq] at hcount
  refine ⟨?_, ?_⟩
  · simp only [Reader.advance]
    omega
  · simp [Reader.advance, h.2]

end Reader

end Stun
