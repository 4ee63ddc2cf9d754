import Mathlib.Data.List.Forall2
import Mathlib.Tactic.SplitIfs
import Stun.Text.Hex

/-!
# The texts that bytes are read from

A text stands for bytes exactly when its characters, white space aside, are digits of their halves
in order. Each digit may be of either case, and white space may stand anywhere, also between the
two digits of one byte. A reader that goes through the text once therefore has to carry the first
digit of a byte until the second one comes. Wherever it stands, the digits that it has passed are
those of the bytes it has written, followed by the one it carries. This decides where it stops and
what it gives, and so it reads the same texts as the reader that takes white space out first.

## Main definitions

* `Hex.IsDigit`: the digits and the numbers that they stand for.
* `Hex.whiteSpace`, `Hex.strip`, `Hex.spread`: white space, a text without it, and a text into
  which some is let.
* `Hex.halves`: the halves of some bytes in order.
* `Hex.Scan`, `Hex.scan?`: reading a text in one pass.
* `Hex.Scan.After`: the numbers that a pass has read.

## Main results

* `Hex.parse?_eq_some_iff`: the texts that stand for some bytes.
* `Hex.Scan.After.foldlM_step?`: how far a pass comes, and what it has read then.
* `Hex.scan?_eq_parse?`: reading in one pass gives the same bytes.
* `Hex.parse?_iff_and_spread`: the texts that are read, and what they stand for.
-/

namespace Stun.Hex

variable {text digits bytes : Bytes} {values : List Nat} {c : UInt8} {value : Nat}

/-! ### Digits and white space -/

/-- A character is a digit of a number below sixteen. -/
inductive IsDigit (value : Nat) (c : UInt8) : Prop
  /-- A number below ten has one digit. -/
  | decimal (hlt : value < 10) (hc : c.toNat = '0'.toNat + value)
  /-- The lower case digit of a greater number. -/
  | lower (hle : 10 ≤ value) (hlt : value < 16) (hc : c.toNat = 'a'.toNat + (value - 10))
  /-- The upper case digit of a greater number. -/
  | upper (hle : 10 ≤ value) (hlt : value < 16) (hc : c.toNat = 'A'.toNat + (value - 10))

/-- White space: tab, line feed, vertical tab, form feed, carriage return and space. -/
def whiteSpace : Bytes := [0x09, 0x0A, 0x0B, 0x0C, 0x0D, 0x20]

/-- A text without its white space. -/
def strip (text : Bytes) : Bytes := text.filter (· ∉ whiteSpace)

theorem IsDigit.lt (h : IsDigit value c) : value < 16 := by
  cases h <;> omega

theorem digit?_eq_some_iff : Numeral.digit? c = some value ↔ IsDigit value c := by
  have hzero : '0'.toNat = 0x30 := rfl
  have hlower : 'a'.toNat = 0x61 := rfl
  have hupper : 'A'.toNat = 0x41 := rfl
  simp only [Numeral.digit?, UInt8.le_iff_toNat_le, UInt8.reduceToNat]
  constructor
  · intro h
    split_ifs at h with hdecimal hlow hup <;> obtain rfl := Option.some.inj h
    · exact .decimal (by omega) (by omega)
    · exact .lower (by omega) (by omega) (by omega)
    · exact .upper (by omega) (by omega) (by omega)
  · rintro (⟨hlt, hc⟩ | ⟨hle, hlt, hc⟩ | ⟨hle, hlt, hc⟩)
    · rw [if_pos (by omega), Option.some.injEq]
      omega
    · rw [if_neg (by omega), if_pos (by omega), Option.some.injEq]
      omega
    · rw [if_neg (by omega), if_neg (by omega), if_pos (by omega), Option.some.injEq]
      omega

theorem mem_whiteSpace_iff :
    c ∈ whiteSpace ↔ c.toNat = 0x20 ∨ 0x09 ≤ c.toNat ∧ c.toNat ≤ 0x0D := by
  simp only [whiteSpace, List.mem_cons, List.not_mem_nil, or_false, ← UInt8.toNat_inj,
    UInt8.reduceToNat]
  omega

theorem isBlank_iff_mem : isBlank c = true ↔ c ∈ whiteSpace := by
  simp only [mem_whiteSpace_iff, isBlank, Bool.or_eq_true, Bool.and_eq_true, decide_eq_true_eq,
    UInt8.le_iff_toNat_le, ← UInt8.toNat_inj, UInt8.reduceToNat]

theorem IsDigit.not_mem (h : IsDigit value c) : c ∉ whiteSpace := by
  have hread := digit?_eq_some_iff.mpr h
  rw [mem_whiteSpace_iff]
  simp only [Numeral.digit?, UInt8.le_iff_toNat_le, UInt8.reduceToNat] at hread
  grind

theorem filter_not_isBlank (text : Bytes) : (text.filter fun c => !isBlank c) = strip text := by
  refine List.filter_congr fun c _ => ?_
  rw [Bool.eq_iff_iff, Bool.not_eq_true', ← Bool.not_eq_true, isBlank_iff_mem, decide_eq_true_eq]

theorem strip_append (front back : Bytes) : strip (front ++ back) = strip front ++ strip back :=
  List.filter_append ..

theorem strip_cons (c : UInt8) (text : Bytes) :
    strip (c :: text) = if c ∈ whiteSpace then strip text else c :: strip text := by
  by_cases hc : c ∈ whiteSpace <;> simp [strip, hc]

/-! ### Halves -/

/-- The halves of some bytes in order, the higher half of each first. -/
def halves (bytes : Bytes) : List Nat := bytes.flatMap fun b => [b.toNat / 16, b.toNat % 16]

theorem halves_cons (b : UInt8) (bytes : Bytes) :
    halves (b :: bytes) = b.toNat / 16 :: b.toNat % 16 :: halves bytes := rfl

@[simp] theorem halves_append (front back : Bytes) :
    halves (front ++ back) = halves front ++ halves back := List.flatMap_append

@[simp] theorem length_halves (bytes : Bytes) : (halves bytes).length = 2 * bytes.length := by
  induction bytes with
  | nil => rfl
  | cons b bytes ih =>
    rw [halves_cons, List.length_cons, List.length_cons, ih, List.length_cons]
    omega

/-- A byte that is put together from two halves has these halves. -/
theorem halves_ofNat_cons {high low : Nat} (hhigh : high < 16) (hlow : low < 16) (bytes : Bytes) :
    halves (UInt8.ofNat (high * 16 + low) :: bytes) = high :: low :: halves bytes := by
  have hbyte : (UInt8.ofNat (high * 16 + low)).toNat = high * 16 + low := by
    rw [UInt8.toNat_ofNat']
    omega
  rw [halves_cons, hbyte, show (high * 16 + low) / 16 = high by omega,
    show (high * 16 + low) % 16 = low by omega]

theorem join?_halves (bytes : Bytes) : join? (halves bytes) = some bytes := by
  induction bytes with
  | nil => rfl
  | cons b bytes ih =>
    rw [halves_cons, join?, ih, Option.map_some, Nat.div_add_mod', UInt8.ofNat_toNat]

theorem eq_halves_of_join? (hlt : ∀ value ∈ values, value < 16) (h : join? values = some bytes) :
    values = halves bytes := by
  fun_induction join? values generalizing bytes with
  | case1 =>
    obtain rfl := Option.some.inj h
    rfl
  | case2 => cases h
  | case3 high low rest ih =>
    obtain ⟨behind, hrest, rfl⟩ := Option.map_eq_some_iff.mp h
    simp only [List.forall_mem_cons] at hlt
    obtain ⟨hhigh, hlow, hlt⟩ := hlt
    rw [halves_ofNat_cons hhigh hlow, ih hlt hrest]

theorem halves_injective {bytes' : Bytes} (h : halves bytes = halves bytes') : bytes = bytes' := by
  have hjoin := join?_halves bytes
  rw [h, join?_halves] at hjoin
  exact (Option.some.inj hjoin).symm

/-- Numbers can be joined exactly when there are evenly many of them. -/
theorem exists_join?_iff : (∃ bytes, join? values = some bytes) ↔ values.length % 2 = 0 := by
  fun_induction join? values with
  | case1 => simp
  | case2 => simp
  | case3 high low rest ih =>
    simp only [Option.map_eq_some_iff, List.length_cons]
    rw [show (rest.length + 1 + 1) % 2 = rest.length % 2 by omega, ← ih]
    exact ⟨fun ⟨_, behind, hrest, _⟩ => ⟨behind, hrest⟩,
      fun ⟨behind, hrest⟩ => ⟨_, behind, hrest, rfl⟩⟩

/-! ### Texts -/

theorem mapM_digit?_eq_some_iff :
    digits.mapM Numeral.digit? = some values ↔ List.Forall₂ IsDigit values digits := by
  induction digits generalizing values with
  | nil => simp [eq_comm]
  | cons c digits ih =>
    simp only [List.mapM_cons, Option.bind_eq_bind, Option.bind_eq_some_iff, digit?_eq_some_iff,
      ih, List.forall₂_cons_right_iff, Option.pure_def, Option.some.injEq]
    grind

theorem lt_of_forall₂ (h : List.Forall₂ IsDigit values digits) : ∀ value ∈ values, value < 16 := by
  induction h with
  | nil => simp
  | cons hdigit _ ih => exact List.forall_mem_cons.mpr ⟨hdigit.lt, ih⟩

theorem exists_forall₂_iff :
    (∃ values, List.Forall₂ IsDigit values digits) ↔ ∀ c ∈ digits, ∃ value, IsDigit value c := by
  induction digits with
  | nil => simp
  | cons c digits ih =>
    rw [List.forall_mem_cons, ← ih]
    simp only [List.forall₂_cons_right_iff]
    exact ⟨fun ⟨_, value, values, hdigit, hdigits, _⟩ => ⟨⟨value, hdigit⟩, values, hdigits⟩,
      fun ⟨⟨value, hdigit⟩, values, hdigits⟩ => ⟨_, value, values, hdigit, hdigits, rfl⟩⟩

/-- The digits that bytes are written with are those of their halves. -/
theorem forall₂_encode (bytes : Bytes) : List.Forall₂ IsDigit (halves bytes) (encode bytes) := by
  induction bytes with
  | nil => exact .nil
  | cons b bytes ih =>
    have hlt := b.toNat_lt
    have hhigh : b.toNat / 16 < 16 := by omega
    have hlow : b.toNat % 16 < 16 := by omega
    exact .cons (digit?_eq_some_iff.mp (Numeral.digit?_digit hhigh))
      (.cons (digit?_eq_some_iff.mp (Numeral.digit?_digit hlow)) ih)

/-- A text stands for the bytes whose halves its digits are, white space aside. -/
theorem parse?_eq_some_iff :
    parse? text = some bytes ↔ List.Forall₂ IsDigit (halves bytes) (strip text) := by
  rw [parse?, filter_not_isBlank, Option.bind_eq_some_iff]
  simp only [mapM_digit?_eq_some_iff]
  constructor
  · rintro ⟨values, hdigits, hjoin⟩
    rwa [← eq_halves_of_join? (lt_of_forall₂ hdigits) hjoin]
  · intro hdigits
    exact ⟨halves bytes, hdigits, join?_halves bytes⟩

/-- A text stands for some bytes exactly when it is an even number of digits, white space aside. -/
theorem exists_parse?_iff : (∃ bytes, parse? text = some bytes) ↔
    (strip text).length % 2 = 0 ∧ ∀ c ∈ strip text, ∃ value, IsDigit value c := by
  constructor
  · rintro ⟨bytes, hparse⟩
    have hdigits := parse?_eq_some_iff.mp hparse
    refine ⟨?_, exists_forall₂_iff.mp ⟨_, hdigits⟩⟩
    rw [← hdigits.length_eq, length_halves, Nat.mul_mod_right]
  · rintro ⟨heven, hall⟩
    obtain ⟨values, hdigits⟩ := exists_forall₂_iff.mpr hall
    rw [← hdigits.length_eq] at heven
    obtain ⟨bytes, hjoin⟩ := exists_join?_iff.mpr heven
    obtain rfl := eq_halves_of_join? (lt_of_forall₂ hdigits) hjoin
    exact ⟨bytes, parse?_eq_some_iff.mpr hdigits⟩

/-! ### White space let in -/

/-- A text into which white space is let: `gaps i` stands in front of the character at `i`, and
the gap behind the last character at the end. -/
def spread (gaps : Nat → Bytes) : Bytes → Bytes
  | [] => gaps 0
  | c :: text => gaps 0 ++ c :: spread (fun i => gaps (i + 1)) text

theorem strip_eq_nil {gap : Bytes} (h : ∀ c ∈ gap, c ∈ whiteSpace) : strip gap = [] := by
  simpa [strip] using h

theorem strip_spread {gaps : Nat → Bytes} (hgaps : ∀ i, ∀ c ∈ gaps i, c ∈ whiteSpace)
    (text : Bytes) : strip (spread gaps text) = strip text := by
  induction text generalizing gaps with
  | nil => exact strip_eq_nil (hgaps 0)
  | cons c text ih =>
    have hrest := ih fun i => hgaps (i + 1)
    rw [spread, strip_append, strip_eq_nil (hgaps 0), List.nil_append, strip_cons, hrest,
      strip_cons]

theorem strip_of_forall₂ (h : List.Forall₂ IsDigit values digits) : strip digits = digits := by
  induction h with
  | nil => rfl
  | cons hdigit _ ih => rw [strip_cons, if_neg hdigit.not_mem, ih]

/-! ### One pass -/

/-- What a pass holds: the bytes that it has written, and the first digit of the next byte where it
has come to it. -/
structure Scan where
  /-- The bytes that are complete. -/
  written : Bytes := []
  /-- The number of a digit that waits for the second one of its byte. -/
  pending : Option Nat := none

namespace Scan

/-- A pass after one more digit, which waits or completes its byte. -/
def push (s : Scan) (value : Nat) : Scan :=
  match s.pending with
  | none => { s with pending := some value }
  | some high => ⟨s.written ++ [UInt8.ofNat (high <<< 4 ||| value)], none⟩

/-- A pass after one more character. White space changes nothing. -/
def step? (s : Scan) (c : UInt8) : Option Scan :=
  if isBlank c then some s else (Numeral.digit? c).map s.push

/-- What is written at the end of a text, unless a digit still waits. -/
def finish? (s : Scan) : Option Bytes :=
  match s.pending with
  | none => some s.written
  | some _ => none

/-- The numbers that a pass has read are the halves of the bytes that it has written, and then the
one that waits. -/
structure After (s : Scan) (values : List Nat) : Prop where
  /-- All numbers, in order. -/
  values_eq : values = halves s.written ++ s.pending.toList
  /-- The one that waits is the number of a digit. -/
  lt : ∀ high ∈ s.pending, high < 16

variable {s s' : Scan}

/-- What has been read says where a pass stands. -/
theorem After.eq (h : s.After values) (h' : s'.After values) : s = s' := by
  obtain ⟨written, pending⟩ := s
  obtain ⟨written', pending'⟩ := s'
  have hvalues := h.values_eq.symm.trans h'.values_eq
  -- Whether a digit waits is whether the numbers are oddly many.
  have hlength := congrArg List.length hvalues
  simp only [List.length_append, length_halves] at hlength
  cases pending with
  | none =>
    cases pending' with
    | none =>
      obtain rfl := halves_injective (by simpa using hvalues)
      rfl
    | some high' => exact absurd hlength (by simp only [Option.toList, List.length]; omega)
  | some high =>
    cases pending' with
    | none => exact absurd hlength (by simp only [Option.toList, List.length]; omega)
    | some high' =>
      obtain ⟨hhalves, hlast⟩ := List.append_inj' hvalues rfl
      obtain rfl := halves_injective hhalves
      obtain rfl := List.singleton_inj.mp hlast
      rfl

theorem After.push (h : s.After values) (hvalue : value < 16) :
    (s.push value).After (values ++ [value]) := by
  obtain ⟨written, pending⟩ := s
  obtain ⟨rfl, hpending⟩ := h
  cases pending with
  | none => exact ⟨by simp [Scan.push], by simpa [Scan.push] using hvalue⟩
  | some high =>
    have hbyte : high <<< 4 ||| value = high * 16 + value := by
      rw [← Nat.shiftLeft_add_eq_or_of_lt hvalue, Nat.shiftLeft_eq]
    have hhalves := halves_ofNat_cons (hpending high rfl) hvalue []
    refine ⟨?_, nofun⟩
    change _ = halves (written ++ [UInt8.ofNat (high <<< 4 ||| value)]) ++ []
    rw [hbyte, halves_append, hhalves, List.append_nil, List.append_assoc]
    rfl

/-- One more character is white space, which changes nothing, or a digit, which is one more number
that is read. -/
theorem After.step?_eq_some_iff (h : s.After values) : s.step? c = some s' ↔
    (c ∈ whiteSpace ∧ s' = s) ∨
      c ∉ whiteSpace ∧ ∃ value, IsDigit value c ∧ s'.After (values ++ [value]) := by
  have hpush {value : Nat} (hdigit : IsDigit value c) :
      s.push value = s' ↔ s'.After (values ++ [value]) :=
    ⟨fun heq => heq ▸ h.push hdigit.lt, fun hafter => (h.push hdigit.lt).eq hafter⟩
  by_cases hc : c ∈ whiteSpace
  · rw [step?, if_pos (isBlank_iff_mem.mpr hc)]
    simp [hc, eq_comm]
  · rw [step?, if_neg (mt isBlank_iff_mem.mp hc), Option.map_eq_some_iff]
    simp only [hc, digit?_eq_some_iff, false_and, false_or, not_false_eq_true, true_and]
    exact exists_congr fun value => and_congr_right fun hdigit => hpush hdigit

/-- A pass comes through a text exactly when its characters, white space aside, are digits, whose
numbers it has then read. -/
theorem After.foldlM_step? (h : s.After values) : text.foldlM step? s = some s' ↔
    ∃ more, List.Forall₂ IsDigit more (strip text) ∧ s'.After (values ++ more) := by
  -- The numbers that have been read before are kept general, since every digit adds to them.
  induction text generalizing s values with
  | nil =>
    constructor
    · intro hrun
      obtain rfl := Option.some.inj hrun
      exact ⟨[], .nil, by rwa [List.append_nil]⟩
    · rintro ⟨more, hdigits, hafter⟩
      obtain rfl := List.forall₂_nil_right_iff.mp hdigits
      rw [List.append_nil] at hafter
      exact congrArg some (h.eq hafter)
  | cons c text ih =>
    rw [List.foldlM_cons]
    refine Option.bind_eq_some_iff.trans ?_
    simp only [h.step?_eq_some_iff]
    by_cases hc : c ∈ whiteSpace
    · rw [strip_cons, if_pos hc, ← ih h]
      simp [hc]
    · simp only [strip_cons, hc, if_false, false_and, false_or, not_false_eq_true, true_and,
        List.forall₂_cons_right_iff]
      constructor
      · rintro ⟨next, ⟨value, hdigit, hnext⟩, hrun⟩
        obtain ⟨more, hdigits, hafter⟩ := (ih hnext).mp hrun
        exact ⟨value :: more, ⟨value, more, hdigit, hdigits, rfl⟩, by simpa using hafter⟩
      · rintro ⟨_, ⟨value, more, hdigit, hdigits, rfl⟩, hafter⟩
        have hnext := h.push hdigit.lt
        exact ⟨s.push value, ⟨value, hdigit, hnext⟩,
          (ih hnext).mpr ⟨more, hdigits, by simpa using hafter⟩⟩

theorem after_halves (bytes : Bytes) : (⟨bytes, none⟩ : Scan).After (halves bytes) :=
  ⟨(List.append_nil _).symm, nofun⟩

theorem After.finish?_eq_some_iff (h : s.After values) :
    s.finish? = some bytes ↔ values = halves bytes := by
  constructor
  · intro hfinish
    obtain ⟨written, pending⟩ := s
    cases pending with
    | none =>
      obtain rfl := Option.some.inj hfinish
      simpa using h.values_eq
    | some high => cases hfinish
  · rintro rfl
    rw [h.eq (after_halves bytes)]
    rfl

end Scan

/-- The bytes that a text stands for, read in one pass. -/
def scan? (text : Bytes) : Option Bytes := (text.foldlM Scan.step? {}).bind Scan.finish?

theorem scan?_eq_some_iff :
    scan? text = some bytes ↔ List.Forall₂ IsDigit (halves bytes) (strip text) := by
  have hstart : ({} : Scan).After [] := Scan.after_halves []
  rw [scan?, Option.bind_eq_some_iff]
  simp only [hstart.foldlM_step?, List.nil_append]
  constructor
  · rintro ⟨s, ⟨values, hdigits, hafter⟩, hfinish⟩
    rwa [← hafter.finish?_eq_some_iff.mp hfinish]
  · intro hdigits
    exact ⟨⟨bytes, none⟩, ⟨halves bytes, hdigits, Scan.after_halves bytes⟩, rfl⟩

/-- Reading in one pass gives the same bytes as reading the digits after the white space is gone. -/
theorem scan?_eq_parse? (text : Bytes) : scan? text = parse? text := by
  ext bytes
  rw [scan?_eq_some_iff, parse?_eq_some_iff]

/-- A text is read exactly when it is, white space aside, an even number of digits of either case.
It stands for the bytes whose halves these are, however the cases are mixed and wherever white space
is let in, so what bytes are written as stands for them. Any other character, or an odd number of
digits, makes the whole text unreadable. It does not matter whether white space is taken out first
or passed over while the first digit of a byte waits for the second one. -/
theorem parse?_iff_and_spread :
    (∀ text bytes : Bytes, parse? text = some bytes ↔
      List.Forall₂ IsDigit (halves bytes) (strip text)) ∧
    (∀ text : Bytes, (∃ bytes, parse? text = some bytes) ↔
      (strip text).length % 2 = 0 ∧ ∀ c ∈ strip text, ∃ value, IsDigit value c) ∧
    (∀ bytes : Bytes, List.Forall₂ IsDigit (halves bytes) (encode bytes)) ∧
    (∀ (bytes digits : Bytes) (gaps : Nat → Bytes), List.Forall₂ IsDigit (halves bytes) digits →
      (∀ i, ∀ c ∈ gaps i, c ∈ whiteSpace) → parse? (spread gaps digits) = some bytes) ∧
    (∀ text : Bytes, (∃ c ∈ text, c ∉ whiteSpace ∧ ∀ value, ¬ IsDigit value c) ∨
      (strip text).length % 2 = 1 → parse? text = none) ∧
    ∀ text : Bytes, scan? text = parse? text := by
  refine ⟨fun text bytes => parse?_eq_some_iff, fun text => exists_parse?_iff, forall₂_encode,
    fun bytes digits gaps hdigits hgaps => ?_, fun text hbad => ?_, scan?_eq_parse?⟩
  · rw [parse?_eq_some_iff, strip_spread hgaps, strip_of_forall₂ hdigits]
    exact hdigits
  · rw [Option.eq_none_iff_forall_ne_some]
    intro bytes hparse
    obtain ⟨heven, hall⟩ := exists_parse?_iff.mp ⟨bytes, hparse⟩
    obtain ⟨c, hmem, hblank, hno⟩ | hodd := hbad
    · obtain ⟨value, hdigit⟩ := hall c (List.mem_filter.mpr ⟨hmem, by simpa using hblank⟩)
      exact hno value hdigit
    · omega

/-- Two bytes in digits of both cases, with a space and a line feed let in. -/
def wrappedText : Bytes := [0x32, 0x20, 0x61, 0x0A, 0x46, 0x66]

theorem parse?_iff_and_spread_wrappedText :
    parse? wrappedText = some [0x2A, 0xFF] ∧ parse? (wrappedText ++ [0x33]) = none ∧
      parse? (wrappedText ++ [0x67]) = none := by
  obtain ⟨-, -, -, hspread, hbad, -⟩ := parse?_iff_and_spread
  have hdigits : List.Forall₂ IsDigit (halves [0x2A, 0xFF]) [0x32, 0x61, 0x46, 0x66] :=
    .cons (.decimal (by decide) rfl) <| .cons (.lower (by decide) (by decide) rfl) <|
      .cons (.upper (by decide) (by decide) rfl) <| .cons (.lower (by decide) (by decide) rfl) .nil
  refine ⟨?_, hbad _ (.inr rfl), hbad _ (.inl ⟨0x67, by decide, by decide, fun value hdigit => ?_⟩)⟩
  · refine hspread [0x2A, 0xFF] [0x32, 0x61, 0x46, 0x66]
      (fun i => if i = 1 then [0x20] else if i = 2 then [0x0A] else []) hdigits fun i c hc => ?_
    split_ifs at hc <;> simp_all [whiteSpace]
  · cases digit?_eq_some_iff.mpr hdigit

end Stun.Hex
