import Stun.Bytes.Basic

/-!
# UTF-8

Texts in a packet are UTF-8: a character is written in one to four bytes, in the shortest form
that holds its number, and no number that is not a character is written. This file reads the
characters of a byte string from the front.

## Main definitions

* `Utf8.next?`: the first character of a byte string and the bytes behind it.
* `Utf8.scan`: all characters up to the first failure, and the bytes from there on.
* `Utf8.isValid`: whether the whole of a byte string is text.
* `Utf8.encode`: the bytes of a list of characters.

## Main results

* `Utf8.length_lt_of_next?`: reading a character passes over at least one byte.
-/

namespace Stun.Utf8

/-- The bytes of a list of characters. -/
def encode (chars : List Char) : Bytes := chars.flatMap String.utf8EncodeChar

/-- Reads `count` continuation bytes, each of which adds six bits to `value`. -/
def continue? (value : Nat) : Nat → Bytes → Option (Nat × Bytes)
  | 0, rest => some (value, rest)
  | _ + 1, [] => none
  | count + 1, b :: rest =>
    if b &&& 0xC0 = 0x80 then continue? (value * 64 + (b &&& 0x3F).toNat) count rest else none

/-- The character numbered `value`, if there is one and no shorter form would hold it: numbers
below `least` fit into fewer bytes. -/
def char? (least value : Nat) : Option Char :=
  if h : value.isValidChar then
    if least ≤ value then some (Char.ofNatAux value h) else none
  else none

/-- Reads a character of `count` bytes more, whose first byte carries the bits `value`. -/
def wide? (value count least : Nat) (rest : Bytes) : Option (Char × Bytes) :=
  match continue? value count rest with
  | some (value, rest) => (char? least value).map fun c => (c, rest)
  | none => none

/-- The first character of a byte string and the bytes behind it. The first byte says how many
continuation bytes follow. -/
def next? : Bytes → Option (Char × Bytes)
  | [] => none
  | lead :: rest =>
    if lead < 0x80 then wide? lead.toNat 0 0 rest
    else if lead &&& 0xE0 = 0xC0 then wide? (lead &&& 0x1F).toNat 1 0x80 rest
    else if lead &&& 0xF0 = 0xE0 then wide? (lead &&& 0x0F).toNat 2 0x800 rest
    else if lead &&& 0xF8 = 0xF0 then wide? (lead &&& 0x07).toNat 3 0x10000 rest
    else none

theorem length_of_continue? {value value' count : Nat} {bytes rest : Bytes}
    (h : continue? value count bytes = some (value', rest)) :
    bytes.length = rest.length + count := by
  fun_induction continue? value count bytes with
  | case1 => simp_all
  | case2 => exact absurd h nofun
  | case3 value count b bytes hb ih => simp [ih h]; omega
  | case4 => exact absurd h nofun

theorem length_of_wide? {value count least : Nat} {bytes rest : Bytes} {c : Char}
    (h : wide? value count least bytes = some (c, rest)) : bytes.length = rest.length + count := by
  unfold wide? at h
  split at h
  · next hc =>
    simp only [Option.map_eq_some_iff, Prod.mk.injEq] at h
    obtain ⟨_, _, _, rfl⟩ := h
    exact length_of_continue? hc
  · exact absurd h nofun

/-- Reading a character passes over at least one byte. -/
theorem length_lt_of_next? {bytes rest : Bytes} {c : Char} (h : next? bytes = some (c, rest)) :
    rest.length < bytes.length := by
  unfold next? at h
  split at h
  · exact absurd h nofun
  · simp only [List.length_cons]
    split at h
    · have := length_of_wide? h; omega
    split at h
    · have := length_of_wide? h; omega
    split at h
    · have := length_of_wide? h; omega
    split at h
    · have := length_of_wide? h; omega
    · exact absurd h nofun

/-- The characters of a byte string up to the first failure, and the bytes from there on. -/
def scan (bytes : Bytes) : List Char × Bytes :=
  match h : next? bytes with
  | none => ([], bytes)
  | some (c, rest) =>
    have := length_lt_of_next? h
    let (chars, left) := scan rest
    (c :: chars, left)
termination_by bytes.length

/-- Whether a byte string is text from its first byte to its last. -/
def isValid (bytes : Bytes) : Bool :=
  match h : next? bytes with
  | none => bytes.isEmpty
  | some (_, rest) =>
    have := length_lt_of_next? h
    isValid rest
termination_by bytes.length

/-- A byte string is text when reading its characters leaves nothing over. -/
theorem isValid_eq_scan (bytes : Bytes) : isValid bytes = (scan bytes).2.isEmpty := by
  fun_induction isValid bytes with
  | case1 bytes h => rw [scan]; split <;> simp_all
  | case2 bytes c rest h _ ih =>
    rw [scan]
    split
    · simp_all
    · next h' =>
      rw [h] at h'
      cases h'
      exact ih

end Stun.Utf8
