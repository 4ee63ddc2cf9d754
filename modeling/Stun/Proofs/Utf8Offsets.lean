import Mathlib.Logic.ExistsUnique
import Mathlib.Tactic.SplitIfs
import Stun.Proofs.Utf8

/-!
# UTF-8 by offsets

A text can also be read in place: a character is read at an offset of the whole text, every byte
of it is fetched by its own offset, and fetching from outside of the text is a fault of its own.
The number of bytes that the first byte asks for is compared with what is left before any other
byte is fetched, so there is never a fault. Reading in place gives the characters that are read
from the front of what is left, so it gives a character exactly where its shortest form stands.

## Main definitions

* `Utf8.Outside`, `Utf8.fetch`: fetching a byte by its offset.
* `Utf8.nextAt`: the character at an offset and the offset behind it.
* `Utf8.scanAt`: all characters from an offset on.

## Main results

* `Utf8.nextAt_eq`: reading at an offset is reading what is left there, and never a fault.
* `Utf8.scanAt_eq_scan`: reading in place gives the characters of the text without a fault.
* `Utf8.isValid_iff_characters`: the texts, their characters, and what reading one of them gives.
-/

namespace Stun.Utf8

/-- A byte was fetched from outside of a text. -/
structure Outside where
  /-- The offset it was fetched from. -/
  offset : Nat
  deriving Repr, DecidableEq

/-- The byte of a text at an offset. -/
def fetch (text : Bytes) (offset : Nat) : Except Outside UInt8 :=
  match text[offset]? with
  | some b => .ok b
  | none => .error ⟨offset⟩

/-- Reads `count` continuation bytes from an offset on, each of which adds six bits to `value`. -/
def continueAt (text : Bytes) (offset value : Nat) : Nat → Except Outside (Option Nat)
  | 0 => .ok (some value)
  | count + 1 =>
    match fetch text offset with
    | .error e => .error e
    | .ok b =>
      if b &&& 0xC0 = 0x80 then
        continueAt text (offset + 1) (value * 64 + (b &&& 0x3F).toNat) count
      else .ok none

/-- What a first byte says: the bits that it carries, the number of continuation bytes, and the
least number that needs as many. -/
def form? (lead : UInt8) : Option (Nat × Nat × Nat) :=
  if lead < 0x80 then some (lead.toNat, 0, 0)
  else if lead &&& 0xE0 = 0xC0 then some ((lead &&& 0x1F).toNat, 1, 0x80)
  else if lead &&& 0xF0 = 0xE0 then some ((lead &&& 0x0F).toNat, 2, 0x800)
  else if lead &&& 0xF8 = 0xF0 then some ((lead &&& 0x07).toNat, 3, 0x10000)
  else none

/-- The character at an offset, and the offset behind it. Where there is none the offset stays. -/
def nextAt (text : Bytes) (offset : Nat) : Except Outside (Option Char × Nat) :=
  match fetch text offset with
  | .error e => .error e
  | .ok lead =>
    match form? lead with
    | none => .ok (none, offset)
    | some (bits, count, least) =>
      if text.length < offset + 1 + count then .ok (none, offset)
      else
        (continueAt text (offset + 1) bits count).map fun value =>
          match value.bind (char? least) with
          | none => (none, offset)
          | some c => (some c, offset + 1 + count)

variable {text : Bytes} {offset behind value count : Nat} {c : Char}

theorem next?_cons_eq_bind (lead : UInt8) (bytes : Bytes) :
    next? (lead :: bytes) = (form? lead).bind fun (bits, count, least) =>
      wide? bits count least bytes := by
  simp only [next?, form?]
  split_ifs <;> rfl

theorem fetch_of_lt (h : offset < text.length) : fetch text offset = .ok text[offset] := by
  rw [fetch, List.getElem?_eq_getElem h]

/-- Where enough bytes are left, continuation bytes are fetched without a fault. -/
theorem continueAt_eq_continue? (h : offset + count ≤ text.length) :
    continueAt text offset value count =
      .ok ((continue? value count (text.drop offset)).map Prod.fst) := by
  induction count generalizing offset value with
  | zero => rfl
  | succ count ih =>
    have hlt : offset < text.length := by omega
    simp only [continueAt, fetch_of_lt hlt, List.drop_eq_getElem_cons hlt, continue?]
    split_ifs
    · exact ih (by omega)
    · rfl

/-- Reading at an offset is reading what is left there, and never a fault. -/
theorem nextAt_eq (h : offset < text.length) :
    nextAt text offset = .ok (match next? (text.drop offset) with
      | none => (none, offset)
      | some (c, rest) => (some c, text.length - rest.length)) := by
  rw [List.drop_eq_getElem_cons h, next?_cons_eq_bind]
  simp only [nextAt, fetch_of_lt h]
  cases form? text[offset] with
  | none => rfl
  | some form =>
    obtain ⟨bits, count, least⟩ := form
    simp only [Option.bind_some, wide?]
    cases hcontinue : continue? bits count (text.drop (offset + 1)) with
    | none =>
      split_ifs
      · rfl
      · rw [continueAt_eq_continue? (by omega), hcontinue]
        rfl
    | some read =>
      have hlength := length_of_continue? hcontinue
      rw [List.length_drop] at hlength
      rw [if_neg (by omega), continueAt_eq_continue? (by omega), hcontinue]
      cases hchar : char? least read.1 with
      | none => simp [hchar, Except.map]
      | some c =>
        simp [hchar, Except.map]
        omega

/-- A character is read at an offset exactly where it is read from what is left there. -/
theorem nextAt_eq_ok_some_iff (h : offset < text.length) :
    nextAt text offset = .ok (some c, behind) ↔
      next? (text.drop offset) = some (c, text.drop behind) ∧
        behind = offset + (String.utf8EncodeChar c).length := by
  rw [nextAt_eq h]
  cases hnext : next? (text.drop offset) with
  | none => simp
  | some read =>
    obtain ⟨c', rest⟩ := read
    have hbytes := next?_eq_some_iff.mp hnext
    have hlength := congrArg List.length hbytes
    rw [List.length_drop, List.length_append] at hlength
    have hrest : text.drop (offset + (String.utf8EncodeChar c').length) = rest := by
      rw [← List.drop_drop, hbytes, List.drop_left' rfl]
    simp only [Except.ok.injEq, Prod.mk.injEq, Option.some.injEq]
    constructor
    · rintro ⟨rfl, rfl⟩
      have hbehind : text.length - rest.length = offset + (String.utf8EncodeChar c').length := by
        omega
      exact ⟨⟨rfl, hbehind ▸ hrest.symm⟩, hbehind⟩
    · rintro ⟨⟨rfl, -⟩, rfl⟩
      exact ⟨rfl, by omega⟩

/-- Where no character is read, the offset stays. -/
theorem nextAt_eq_ok_none_iff (h : offset < text.length) :
    nextAt text offset = .ok (none, behind) ↔
      next? (text.drop offset) = none ∧ behind = offset := by
  rw [nextAt_eq h]
  cases next? (text.drop offset) <;> simp [eq_comm]

/-- No character is read exactly where none stands. -/
theorem next?_eq_none_iff {bytes : Bytes} :
    next? bytes = none ↔ ∀ c, ¬ String.utf8EncodeChar c <+: bytes := by
  constructor
  · rintro h c ⟨rest, hbytes⟩
    rw [next?_eq_some_iff.mpr hbytes.symm] at h
    cases h
  · intro h
    cases hnext : next? bytes with
    | none => rfl
    | some read => exact absurd ⟨read.2, (next?_eq_some_iff.mp hnext).symm⟩ (h read.1)

/-- The shortest form of a character is one to four bytes long. -/
theorem length_utf8EncodeChar_bounds (c : Char) :
    1 ≤ (String.utf8EncodeChar c).length ∧ (String.utf8EncodeChar c).length ≤ 4 := by
  rw [String.length_utf8EncodeChar]
  exact ⟨c.utf8Size_pos, c.utf8Size_le_four⟩

theorem offset_lt_of_nextAt (h : offset < text.length)
    (hnext : nextAt text offset = .ok (some c, behind)) : offset < behind := by
  have hpos := (length_utf8EncodeChar_bounds c).1
  rw [((nextAt_eq_ok_some_iff h).mp hnext).2]
  omega

/-- The characters from an offset on up to the first failure, and the offset where it is. -/
def scanAt (text : Bytes) (offset : Nat) : Except Outside (List Char × Nat) :=
  if hlt : offset < text.length then
    match h : nextAt text offset with
    | .error e => .error e
    | .ok (none, stop) => .ok ([], stop)
    | .ok (some c, behind) =>
      have := offset_lt_of_nextAt hlt h
      (scanAt text behind).map fun (chars, stop) => (c :: chars, stop)
  else .ok ([], offset)
termination_by text.length - offset

/-- Reading in place gives the characters that are read from the front, without a fault. -/
theorem scanAt_eq_scan (h : offset ≤ text.length) :
    scanAt text offset = .ok ((scan (text.drop offset)).1,
      text.length - (scan (text.drop offset)).2.length) := by
  fun_induction scanAt text offset with
  | case1 offset hlt e hnext =>
    rw [nextAt_eq hlt] at hnext
    cases hnext
  | case2 offset hlt stop hnext =>
    obtain ⟨hread, rfl⟩ := (nextAt_eq_ok_none_iff hlt).mp hnext
    rw [scan_of_none hread, List.length_drop, Nat.sub_sub_self h]
  | case3 offset hlt c behind hnext _ ih =>
    obtain ⟨hread, hbehind⟩ := (nextAt_eq_ok_some_iff hlt).mp hnext
    have hlength := congrArg List.length (next?_eq_some_iff.mp hread)
    rw [List.length_drop, List.length_append] at hlength
    rw [ih (by omega), scan_of_some hread]
    rfl
  | case4 offset hle =>
    have hend : text.drop offset = [] := List.drop_of_length_le (Nat.le_of_not_lt hle)
    rw [hend, scan_of_none rfl, Nat.le_antisymm h (Nat.le_of_not_lt hle)]
    rfl

/-- A byte string is text exactly when it is what characters are written as, which are then the
ones that are read from its start to its end. At each offset a character is read where its shortest
form stands, and otherwise the offset stays. No byte outside of the byte string is fetched. -/
theorem isValid_iff_characters (text : Bytes) :
    (isValid text = true ↔ ∃! chars, text = encode chars) ∧
    (∀ chars, text = encode chars ↔ scanAt text 0 = .ok (chars, text.length)) ∧
    scanAt text 0 = .ok ((scan text).1, text.length - (scan text).2.length) ∧
    ∀ offset < text.length,
      (∃ c, nextAt text offset = .ok (some c, offset + (String.utf8EncodeChar c).length) ∧
        text.slice offset (String.utf8EncodeChar c).length = String.utf8EncodeChar c ∧
        1 ≤ (String.utf8EncodeChar c).length ∧ (String.utf8EncodeChar c).length ≤ 4) ∨
      (nextAt text offset = .ok (none, offset) ∧
        ∀ c, ¬ String.utf8EncodeChar c <+: text.drop offset) := by
  have hscan := scanAt_eq_scan (Nat.zero_le text.length)
  rw [List.drop_zero] at hscan
  refine ⟨?_, fun chars => ?_, hscan, fun offset hlt => ?_⟩
  · rw [isValid_iff]
    exact ⟨fun ⟨chars, h⟩ => ⟨chars, h, fun _ h' => encode_injective (h'.symm.trans h)⟩,
      fun ⟨chars, h, _⟩ => ⟨chars, h⟩⟩
  · have hlength := congrArg List.length (encode_scan text)
    rw [List.length_append] at hlength
    rw [← scan_eq_iff, hscan, Except.ok.injEq, Prod.ext_iff, Prod.ext_iff]
    refine and_congr_right fun _ => ?_
    change (scan text).2 = [] ↔ text.length - (scan text).2.length = text.length
    rw [← List.length_eq_zero_iff]
    omega
  · cases hnext : next? (text.drop offset) with
    | some read =>
      obtain ⟨c, rest⟩ := read
      have hbytes := next?_eq_some_iff.mp hnext
      refine .inl ⟨c, (nextAt_eq_ok_some_iff hlt).mpr ⟨?_, rfl⟩, ?_, length_utf8EncodeChar_bounds c⟩
      · rw [hnext, ← List.drop_drop, hbytes, List.drop_left' rfl]
      · rw [Bytes.slice, hbytes, List.take_left' rfl]
    | none =>
      exact .inr ⟨(nextAt_eq_ok_none_iff hlt).mpr ⟨hnext, rfl⟩, next?_eq_none_iff.mp hnext⟩

/-- Two characters, and a surrogate in the form that a character of its number would have. -/
def surrogateText : Bytes := [0x41, 0xC3, 0xA9, 0xED, 0xA0, 0x80]

theorem isValid_iff_characters_surrogateText :
    1 < surrogateText.length ∧ 3 < surrogateText.length ∧
    nextAt surrogateText 1 = .ok (some 'é', 3) ∧
    surrogateText.slice 1 2 = String.utf8EncodeChar 'é' ∧
    nextAt surrogateText 3 = .ok (none, 3) ∧
    (∀ c, ¬ String.utf8EncodeChar c <+: surrogateText.drop 3) ∧
    ¬ ∃! chars, surrogateText = encode chars := by
  obtain ⟨hvalid, -, -, hat⟩ := isValid_iff_characters surrogateText
  have hread : nextAt surrogateText 1 = .ok (some 'é', 3) := rfl
  have hstay : nextAt surrogateText 3 = .ok (none, 3) := rfl
  refine ⟨by decide, by decide, hread, ?_, hstay, ?_, ?_⟩
  · rcases hat 1 (by decide) with ⟨c, hc, hslice, -⟩ | ⟨hnone, -⟩
    · obtain ⟨hchar, -⟩ := Prod.mk.inj (Except.ok.inj (hread.symm.trans hc))
      obtain rfl := Option.some.inj hchar
      exact hslice
    · cases hread.symm.trans hnone
  · rcases hat 3 (by decide) with ⟨c, hc, -⟩ | ⟨-, hnone⟩
    · cases hstay.symm.trans hc
    · exact hnone
  · rw [← hvalid]
    decide +kernel

end Stun.Utf8
