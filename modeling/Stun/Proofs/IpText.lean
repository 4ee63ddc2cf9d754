import Mathlib.Algebra.Group.Nat.Defs
import Mathlib.Data.List.TakeWhile
import Stun.Address.Ipv6Text

/-!
# Host texts are read back

The text of an IPv4 address is read as its four bytes, and the text of eight groups is read as
these groups, whatever run of zero groups the double colon stands for and whether or not the last
two groups are printed as an IPv4 address.

Both rest on the numerals: a numeral is a row of digits, no longer than the size of its number
says, and begins with a zero only for zero. No digit is a dot or a colon, so that cutting a row of
fields at these characters gives the fields back.

## Main definitions

* `isHostChar`: the characters of host texts.
* `Ipv6Text.IsLongestBelow`: the longest of the runs of zero groups that start below a bound.
* `Ipv6Text.IsField`, `Ipv6Text.StandFor`: what may stand between colons, and the fields that stand
  for some groups.

## Main results

* `Ipv4Text.parse?_print`, `Ipv6Text.parse?_print`: what is printed is read back.
* `Ipv6Text.longestZeroRun_spec`: the run that is elided is the first one of the greatest length.
* `Ipv4Text.length_print_le`, `Ipv6Text.length_print_lt`: how long the texts are.
-/

namespace Stun

/-- The characters of host texts: dots, colons and digits. -/
def isHostChar (c : UInt8) : Bool := c = Ascii.dot || c = Ascii.colon || (Numeral.digit? c).isSome

/-! ### Rows of fields -/

section Rows

variable {c separator : UInt8} {rows : List Bytes}

/-- A character of a row is the separator or stands in a field. -/
theorem cases_of_mem_intercalate (h : c ∈ [separator].intercalate rows) :
    c = separator ∨ ∃ field ∈ rows, c ∈ field := by
  induction rows with
  | nil => cases h
  | cons field rows ih =>
    cases rows with
    | nil =>
      rw [List.intercalate_singleton] at h
      exact .inr ⟨field, List.mem_cons_self, h⟩
    | cons next rows =>
      rw [List.intercalate_cons_cons, List.mem_append, List.mem_append, List.mem_singleton] at h
      obtain (h | rfl) | h := h
      · exact .inr ⟨field, List.mem_cons_self, h⟩
      · exact .inl rfl
      · obtain rfl | ⟨field', hfield', hc⟩ := ih h
        · exact .inl rfl
        · exact .inr ⟨field', List.mem_cons_of_mem field hfield', hc⟩

/-- A row takes no more than its fields with a separator behind each. -/
theorem length_intercalate_le : ([separator].intercalate rows).length ≤
    (rows.flatMap (· ++ [separator])).length := by
  induction rows with
  | nil => exact Nat.le_refl 0
  | cons field rows ih =>
    cases rows with
    | nil => simp
    | cons next rows =>
      rw [List.intercalate_cons_cons, List.flatMap_cons]
      simp only [List.length_append]
      omega

/-- Fields of a bounded length take no more than the bound and a separator each. -/
theorem length_flatMap_le (separator : UInt8) {α : Type} {print : α → Bytes} {width : Nat}
    (h : ∀ value, (print value).length ≤ width) (values : List α) :
    ((values.map print).flatMap (· ++ [separator])).length ≤ (width + 1) * values.length := by
  induction values with
  | nil => exact Nat.le_refl 0
  | cons value values ih =>
    have := h value
    rw [List.map_cons, List.flatMap_cons, List.length_append, List.length_append,
      List.length_singleton, List.length_cons, Nat.mul_succ]
    omega

/-- Fields that are read back one by one are read back together. -/
theorem mapM_map_eq_some {α : Type} {print : α → Bytes} {read : Bytes → Option α}
    (h : ∀ value, read (print value) = some value) (values : List α) :
    (values.map print).mapM read = some values := by
  induction values with
  | nil => rfl
  | cons value values ih =>
    rw [List.map_cons, List.mapM_cons, h value, ih]
    rfl

end Rows

/-! ### Numerals -/

namespace Numeral

variable {base n : Nat} {c : UInt8}

theorem ofNat_ne_nil (base n : Nat) : ofNat base n ≠ [] := by
  rw [ofNat]
  split <;> simp

/-- The characters of a numeral are digits. -/
theorem isSome_digit?_of_mem (hbase : 2 ≤ base) (hle : base ≤ 16) (h : c ∈ ofNat base n) :
    (digit? c).isSome = true := by
  fun_induction ofNat base n with
  | case1 n hn =>
    obtain rfl := List.mem_singleton.mp h
    rw [digit?_digit (by omega), Option.isSome_some]
  | case2 n hn ih =>
    obtain h | h := List.mem_append.mp h
    · exact ih h
    · obtain rfl := List.mem_singleton.mp h
      have := Nat.mod_lt n (show 0 < base by omega)
      rw [digit?_digit (by omega), Option.isSome_some]

theorem not_mem_ofNat (hbase : 2 ≤ base) (hle : base ≤ 16) (hc : digit? c = none) :
    c ∉ ofNat base n := by
  intro hmem
  have hdigit := isSome_digit?_of_mem hbase hle hmem
  rw [hc] at hdigit
  cases hdigit

/-- A number takes no more digits than its size says. -/
theorem length_ofNat_le {width : Nat} (hbase : 2 ≤ base) (hwidth : 0 < width)
    (hn : n < base ^ width) : (ofNat base n).length ≤ width := by
  induction width generalizing n with
  | zero => omega
  | succ width ih =>
    rw [ofNat]
    split
    · simp
    · next hlarge =>
      rw [not_or, Nat.not_lt] at hlarge
      have hdiv : n / base < base ^ width := by
        rw [Nat.div_lt_iff_lt_mul (by omega)]
        rwa [Nat.pow_succ] at hn
      have hpos : 0 < width := by
        rcases Nat.eq_zero_or_pos width with rfl | hpos
        · have hzero : n / base = 0 := by simpa using hdiv
          have := Nat.div_pos hlarge.1 (by omega)
          omega
        · exact hpos
      have := ih hpos hdiv
      simp only [List.length_append, List.length_singleton]
      omega

/-- A number other than zero has no leading zero. -/
theorem head?_ofNat_ne (hbase : 2 ≤ base) (hle : base ≤ 16) (hn : n ≠ 0) :
    (ofNat base n).head? ≠ some Ascii.zero := by
  fun_induction ofNat base n with
  | case1 n hlt =>
    intro hhead
    have hdigit := digit?_digit (show n < 16 by omega)
    rw [Option.some.inj hhead] at hdigit
    exact hn (Option.some.inj hdigit).symm
  | case2 n hlarge ih =>
    rw [not_or, Nat.not_lt] at hlarge
    have hdiv := Nat.div_pos hlarge.1 (by omega)
    obtain ⟨first, rest, hdigits⟩ := List.exists_cons_of_ne_nil (ofNat_ne_nil base (n / base))
    have hhead := ih (by omega)
    rw [hdigits] at hhead ⊢
    exact hhead

/-- A character that is no digit makes a numeral unreadable. -/
theorem toNat?_eq_none_of_mem {text : Bytes} (hc : c ∈ text) (h : digit? c = none) :
    toNat? base text = none := by
  obtain ⟨front, back, rfl⟩ := List.append_of_mem hc
  rw [toNat?, List.foldlM_append]
  cases front.foldlM (extend? base) 0 with
  | none => rfl
  | some n =>
    have hstep : extend? base n c = none := by rw [extend?, h, Option.bind_none]
    exact congrArg (· >>= fun n => back.foldlM (extend? base) n) hstep

end Numeral

/-! ### IPv4 -/

namespace Ipv4Text

variable {octets text : Bytes} {c : UInt8}

/-- The number of an octet is read back. -/
theorem octet?_ofNat (b : UInt8) : octet? (Numeral.ofNat 10 b.toNat) = some b := by
  have hzero : ¬ (1 < (Numeral.ofNat 10 b.toNat).length ∧
      (Numeral.ofNat 10 b.toNat).head? = some Ascii.zero) := by
    rintro ⟨hlen, hhead⟩
    by_cases hb : b.toNat = 0
    · rw [hb, Numeral.ofNat] at hlen
      exact absurd hlen (by decide)
    · exact Numeral.head?_ofNat_ne (by decide) (by decide) hb hhead
  have hle := b.toNat_lt
  rw [octet?, if_neg (not_or.mpr ⟨Numeral.ofNat_ne_nil 10 _, hzero⟩),
    Numeral.toNat?_ofNat (by decide) (by decide), Option.bind_some, if_pos (by omega),
    UInt8.ofNat_toNat]

/-- The four bytes of an address are read back from their text. -/
theorem parse?_print (h : octets.length = 4) : parse? (print octets) = some octets := by
  have hfields : (print octets).splitOn Ascii.dot =
      octets.map fun b => Numeral.ofNat 10 b.toNat := by
    refine List.splitOn_intercalate Ascii.dot ?_ ?_
    · intro field hfield
      obtain ⟨b, -, rfl⟩ := List.mem_map.mp hfield
      exact Numeral.not_mem_ofNat (by decide) (by decide) (by decide)
    · intro hnil
      rw [List.map_eq_nil_iff.mp hnil] at h
      cases h
  rw [parse?, hfields, if_pos (by rwa [List.length_map])]
  exact mapM_map_eq_some octet?_ofNat octets

/-- A text with a character that is no digit and no dot is no address. -/
theorem parse?_eq_none_of_mem (hc : c ∈ text) (hdot : c ≠ Ascii.dot)
    (hdigit : Numeral.digit? c = none) : parse? text = none := by
  have htext : [Ascii.dot].intercalate (text.splitOn Ascii.dot) = text :=
    List.intercalate_splitOn Ascii.dot
  rw [← htext] at hc
  obtain hsep | ⟨field, hfield, hmem⟩ := cases_of_mem_intercalate hc
  · exact absurd hsep hdot
  have hoctet : octet? field = none := by
    unfold octet?
    rw [Numeral.toNat?_eq_none_of_mem hmem hdigit, Option.bind_none, ite_self]
  rw [parse?, Numeral.mapM_eq_none_of_mem hfield hoctet, ite_self]

/-- The characters of an address are digits and dots. -/
theorem cases_of_mem_print (h : c ∈ print octets) :
    c = Ascii.dot ∨ (Numeral.digit? c).isSome = true := by
  obtain hdot | ⟨field, hfield, hmem⟩ := cases_of_mem_intercalate h
  · exact .inl hdot
  · obtain ⟨b, -, rfl⟩ := List.mem_map.mp hfield
    exact .inr (Numeral.isSome_digit?_of_mem (by decide) (by decide) hmem)

theorem isHostChar_of_mem_print (h : c ∈ print octets) : isHostChar c = true := by
  obtain rfl | hdigit := cases_of_mem_print h
  · rfl
  · rw [isHostChar, hdigit, Bool.or_true]

theorem dot_mem_print (h : octets.length = 4) : Ascii.dot ∈ print octets := by
  match octets, h with
  | [_, _, _, _], _ => simp [print, List.intercalate_cons_cons]

theorem length_print_le (octets : Bytes) : (print octets).length ≤ 4 * octets.length := by
  refine Nat.le_trans length_intercalate_le (length_flatMap_le Ascii.dot (fun b => ?_) octets)
  exact Numeral.length_ofNat_le (by decide) (by decide) (Nat.lt_of_lt_of_le b.toNat_lt (by decide))

end Ipv4Text

/-! ### IPv6 -/

namespace Ipv6Text

variable {c : UInt8} {groups front back : List UInt16} {rows : List Bytes} {row : Bytes}

/-! #### The longest run of zero groups -/

section ZeroRun

variable {bound start length : Nat} {run : Nat × Nat}

/-- A run of zero groups is as long as all that start below a bound, and longer than those that
start before it. -/
structure IsLongestBelow (groups : List UInt16) (bound : Nat) (run : Nat × Nat) : Prop where
  /-- There are as many zero groups. -/
  isRun : run.2 ≤ zeroRunAt groups run.1
  /-- None of the runs is longer. -/
  le : ∀ start < bound, zeroRunAt groups start ≤ run.2
  /-- The runs that start before are shorter. -/
  lt : ∀ start < run.1, zeroRunAt groups start < run.2

/-- The longer one of the run before and the run at the bound. -/
theorem IsLongestBelow.step (h : IsLongestBelow groups bound run) :
    IsLongestBelow groups (bound + 1)
      (if run.2 < zeroRunAt groups bound then (bound, zeroRunAt groups bound) else run) := by
  split
  · next hlonger =>
    refine ⟨Nat.le_refl _, fun start hstart => ?_, fun start hstart =>
      Nat.lt_of_le_of_lt (h.le start hstart) hlonger⟩
    rcases Nat.lt_succ_iff_lt_or_eq.mp hstart with hbelow | rfl
    · exact Nat.le_of_lt (Nat.lt_of_le_of_lt (h.le start hbelow) hlonger)
    · exact Nat.le_refl _
  · next hlonger =>
    refine ⟨h.isRun, fun start hstart => ?_, h.lt⟩
    rcases Nat.lt_succ_iff_lt_or_eq.mp hstart with hbelow | rfl
    · exact h.le start hbelow
    · exact Nat.not_lt.mp hlonger

theorem isLongestBelow_longestZeroRun (groups : List UInt16) :
    IsLongestBelow groups groups.length (longestZeroRun groups) := by
  have hfold (bound : Nat) : IsLongestBelow groups bound ((List.range bound).foldl
      (fun best start =>
        if best.2 < zeroRunAt groups start then (start, zeroRunAt groups start) else best)
      (0, 0)) := by
    induction bound with
    | zero => exact ⟨Nat.zero_le _, nofun, nofun⟩
    | succ bound ih =>
      rw [List.range_succ, List.foldl_append]
      exact ih.step
  exact hfold groups.length

theorem zeroRunAt_le (groups : List UInt16) (start : Nat) :
    zeroRunAt groups start ≤ groups.length - start := by
  rw [← List.length_drop]
  exact (List.takeWhile_prefix _).length_le

/-- The run that is found is as long as every run, and the first one of its length. -/
theorem longestZeroRun_spec (groups : List UInt16) :
    (longestZeroRun groups).2 = zeroRunAt groups (longestZeroRun groups).1 ∧
      (∀ start, zeroRunAt groups start ≤ (longestZeroRun groups).2) ∧
      ∀ start < (longestZeroRun groups).1,
        zeroRunAt groups start < (longestZeroRun groups).2 := by
  have h := isLongestBelow_longestZeroRun groups
  have hle (start : Nat) : zeroRunAt groups start ≤ (longestZeroRun groups).2 := by
    rcases Nat.lt_or_ge start groups.length with hlt | hge
    · exact h.le start hlt
    · have := zeroRunAt_le groups start
      omega
  exact ⟨Nat.le_antisymm h.isRun (hle _), hle, h.lt⟩

/-- A run of zero groups between what stands before and behind it. -/
theorem eq_append_of_zeroRunAt (h : zeroRunAt groups start = length) :
    groups = groups.take start ++ List.replicate length 0 ++ groups.drop (start + length) := by
  have hzeros : (groups.drop start).takeWhile (· = 0) = List.replicate length 0 := by
    refine List.eq_replicate_iff.mpr ⟨h, fun group hgroup => ?_⟩
    simpa using List.mem_takeWhile_imp hgroup
  have hsplit : List.replicate length 0 ++ (groups.drop start).dropWhile (· = 0) =
      groups.drop start := by
    rw [← hzeros, List.takeWhile_append_dropWhile]
  have hbehind : (groups.drop start).dropWhile (· = 0) = groups.drop (start + length) := by
    have hdrop := congrArg (List.drop length) hsplit
    rwa [List.drop_left' List.length_replicate, List.drop_drop] at hdrop
  rw [List.append_assoc, ← hbehind, hsplit, List.take_append_drop]

end ZeroRun

/-! #### Fields -/

theorem length_field_le (group : UInt16) : (field group).length ≤ 4 :=
  Numeral.length_ofNat_le (by decide) (by decide) group.toNat_lt

theorem group?_field (group : UInt16) : group? (field group) = some group := by
  have hne : field group ≠ [] := Numeral.ofNat_ne_nil 16 _
  rw [group?, if_neg (not_or.mpr ⟨hne, Nat.not_lt.mpr (length_field_le group)⟩), field,
    Numeral.toNat?_ofNat (by decide) (by decide), Option.map_some, UInt16.ofNat_toNat]

/-- A field that can stand between colons. -/
def IsField (row : Bytes) : Prop := row ≠ [] ∧ Ascii.colon ∉ row

theorem isField_field (group : UInt16) : IsField (field group) :=
  ⟨Numeral.ofNat_ne_nil 16 _, Numeral.not_mem_ofNat (by decide) (by decide) (by decide)⟩

theorem isField_of_mem_map (h : row ∈ groups.map field) : IsField row := by
  obtain ⟨group, -, rfl⟩ := List.mem_map.mp h
  exact isField_field group

theorem join_cons_cons (row next : Bytes) (rows : List Bytes) :
    join (row :: next :: rows) = row ++ Ascii.colon :: join (next :: rows) := by
  rw [join, List.intercalate_cons_cons, List.append_assoc]
  rfl

/-- A row of fields begins with its first field. -/
theorem exists_join_cons (row : Bytes) (rows : List Bytes) :
    ∃ rest, join (row :: rows) = row ++ rest := by
  cases rows with
  | nil => exact ⟨[], by rw [join, List.intercalate_singleton, List.append_nil]⟩
  | cons next rows => exact ⟨_, join_cons_cons row next rows⟩

/-- Cutting a row of fields at the colons gives the fields back. -/
theorem fields_join (h : ∀ row ∈ rows, IsField row) : fields (join rows) = rows := by
  cases rows with
  | nil => rfl
  | cons row rows =>
    have hne : join (row :: rows) ≠ [] := by
      obtain ⟨rest, hrest⟩ := exists_join_cons row rows
      rw [hrest]
      exact List.append_ne_nil_of_left_ne_nil (h row List.mem_cons_self).1 rest
    rw [fields, if_neg hne]
    exact List.splitOn_intercalate Ascii.colon (fun row' hrow => (h row' hrow).2) nofun

theorem tail?_map_field_append (groups : List UInt16) (rows : List Bytes) :
    tail? (groups.map field ++ rows) = (tail? rows).map (groups ++ ·) := by
  induction groups with
  | nil => simp
  | cons group groups ih =>
    have hstep (rows : List Bytes) :
        tail? (field group :: rows) = (tail? rows).map (group :: ·) := by
      have hdot : Ascii.dot ∉ field group :=
        Numeral.not_mem_ofNat (by decide) (by decide) (by decide)
      cases rows with
      | nil => simp [tail?, hdot, group?_field]
      | cons row rows => simp [tail?, group?_field]
    rw [List.map_cons, List.cons_append, hstep, ih, Option.map_map]
    rfl

/-! #### The double colon -/

theorem elision?_append_of_not_mem (h : Ascii.colon ∉ row) (rest : Bytes) :
    elision? (row ++ rest) =
      (elision? rest).map fun (before, behind) => (row ++ before, behind) := by
  induction row with
  | nil => simp
  | cons b row ih =>
    obtain ⟨hb, hrow⟩ := not_or.mp (mt List.mem_cons.mpr h)
    rw [List.cons_append, elision?, if_neg fun hcolon => hb hcolon.1.symm, ih hrow, Option.map_map]
    rfl

/-- There is no double colon in a row of fields. -/
theorem elision?_join_append (h : ∀ row ∈ rows, IsField row) (rest : Bytes) :
    elision? (join rows ++ rest) =
      (elision? rest).map fun (before, behind) => (join rows ++ before, behind) := by
  induction rows with
  | nil => simp [join]
  | cons row rows ih =>
    have hrow := h row List.mem_cons_self
    cases rows with
    | nil =>
      rw [join, List.intercalate_singleton]
      exact elision?_append_of_not_mem hrow.2 rest
    | cons next rows =>
      have hnext := h next (List.mem_cons_of_mem row List.mem_cons_self)
      have hhead : (join (next :: rows) ++ rest).head? ≠ some Ascii.colon := by
        obtain ⟨behind, hbehind⟩ := exists_join_cons next rows
        obtain ⟨b, next', rfl⟩ := List.exists_cons_of_ne_nil hnext.1
        rw [hbehind]
        exact fun hb => hnext.2 (List.mem_cons.mpr (.inl (Option.some.inj hb).symm))
      rw [join_cons_cons, List.append_assoc, elision?_append_of_not_mem hrow.2, List.cons_append,
        elision?, if_neg fun hcolon => hhead hcolon.2,
        ih fun row' hrow' => h row' (List.mem_cons_of_mem row hrow'), Option.map_map,
        Option.map_map]
      congr 1
      funext parts
      simp

/-! #### The two forms of a text -/

/-- Fields that are read as some groups and take no more characters than a dotted end needs. -/
structure StandFor (rows : List Bytes) (groups : List UInt16) : Prop where
  /-- The fields can stand between colons. -/
  isField : ∀ row ∈ rows, IsField row
  /-- The fields consist of the characters of host texts. -/
  isHostChar : ∀ row ∈ rows, ∀ c ∈ row, isHostChar c = true
  /-- The fields are read as the groups. -/
  tail?_eq : tail? rows = some groups
  /-- A dotted end takes up to seven characters more than two groups in digits. -/
  length_le : (join rows).length ≤ 5 * groups.length + 7

theorem length_join_map_field_le (groups : List UInt16) :
    (join (groups.map field)).length ≤ 5 * groups.length :=
  Nat.le_trans length_intercalate_le (length_flatMap_le Ascii.colon length_field_le groups)

theorem isHostChar_of_mem_map (h : row ∈ groups.map field) (hc : c ∈ row) :
    isHostChar c = true := by
  obtain ⟨group, -, rfl⟩ := List.mem_map.mp h
  rw [isHostChar, Numeral.isSome_digit?_of_mem (by decide) (by decide) hc, Bool.or_true]

theorem standFor_map_field (groups : List UInt16) : StandFor (groups.map field) groups where
  isField _ h := isField_of_mem_map h
  isHostChar _ h _ hc := isHostChar_of_mem_map h hc
  tail?_eq := by
    have h := tail?_map_field_append groups []
    rwa [List.append_nil, tail?, Option.map_some, List.append_nil] at h
  length_le := Nat.le_trans (length_join_map_field_le groups) (Nat.le_add_right _ 7)

/-- The last two groups can be printed as an IPv4 address. -/
theorem standFor_dottedFields (h : 2 ≤ groups.length) : StandFor (dottedFields groups) groups := by
  have hlast : (groups.drop (groups.length - 2)).length = 2 := by
    rw [List.length_drop]
    omega
  have hbytes : (Bytes.ofUInt16List (groups.drop (groups.length - 2))).length = 4 := by
    rw [Bytes.length_ofUInt16List, hlast]
  have hdot := Ipv4Text.dot_mem_print hbytes
  have hcases {row : Bytes} (hrow : row ∈ dottedFields groups) :
      row ∈ (groups.take (groups.length - 2)).map field ∨
        row = Ipv4Text.print (Bytes.ofUInt16List (groups.drop (groups.length - 2))) :=
    (List.mem_append.mp hrow).imp_right List.mem_singleton.mp
  constructor
  case isField =>
    intro row hrow
    obtain hfront | rfl := hcases hrow
    · exact isField_of_mem_map hfront
    · refine ⟨List.ne_nil_of_mem hdot, fun hcolon => ?_⟩
      obtain h | h := Ipv4Text.cases_of_mem_print hcolon
      · exact absurd h (by decide)
      · exact absurd h (by decide)
  case isHostChar =>
    intro row hrow c hc
    obtain hfront | rfl := hcases hrow
    · exact isHostChar_of_mem_map hfront hc
    · exact Ipv4Text.isHostChar_of_mem_print hc
  case tail?_eq =>
    rw [dottedFields, tail?_map_field_append, tail?, if_pos hdot, Ipv4Text.parse?_print hbytes,
      Option.map_some, Option.map_some, Bytes.toUInt16List_ofUInt16List, List.take_append_drop]
  case length_le =>
    have hfront := length_flatMap_le Ascii.colon length_field_le
      (groups.take (groups.length - 2))
    have hprint :=
      Ipv4Text.length_print_le (Bytes.ofUInt16List (groups.drop (groups.length - 2)))
    rw [hbytes] at hprint
    rw [List.length_take] at hfront
    refine Nat.le_trans length_intercalate_le ?_
    rw [dottedFields, List.flatMap_append, List.flatMap_singleton, List.length_append,
      List.length_append, List.length_singleton]
    omega

/-- Eight groups are printed as eight fields, or with a double colon in the place of at least two
zero groups. -/
theorem print_cases (h : groups.length = 8) :
    print groups = join (groups.map field) ∨
      ∃ front length back rows, groups = front ++ List.replicate length 0 ++ back ∧ 2 ≤ length ∧
        StandFor rows back ∧
        print groups = join (front.map field) ++ [Ascii.colon, Ascii.colon] ++ join rows := by
  obtain ⟨hrun, -⟩ := longestZeroRun_spec groups
  rw [print]
  generalize longestZeroRun groups = run at hrun ⊢
  obtain ⟨start, length⟩ := run
  dsimp only at hrun ⊢
  by_cases hshort : length < 2
  · exact .inl (if_pos hshort)
  refine .inr ⟨_, length, _, _, eq_append_of_zeroRunAt hrun.symm, Nat.not_lt.mp hshort, ?_,
    if_neg hshort⟩
  split
  · next hdotted =>
    have hend : start = 0 ∧ (length = 6 ∨ length = 5) := by
      simp only [isDotted, Bool.and_eq_true, Bool.or_eq_true, decide_eq_true_eq] at hdotted
      exact ⟨hdotted.1, hdotted.2.imp_right And.left⟩
    refine standFor_dottedFields ?_
    rw [List.length_drop]
    omega
  · exact standFor_map_field _

/-! #### Reading -/

theorem parse?_join (hrows : ∀ row ∈ rows, IsField row) (htail : tail? rows = some groups)
    (h : groups.length = 8) : parse? (join rows) = some groups := by
  have hnone : elision? (join rows) = none := by
    have h := elision?_join_append hrows []
    rwa [List.append_nil] at h
  rw [parse?, hnone, fields_join hrows, htail, Option.bind_some, if_pos h]

theorem parse?_elided (h : StandFor rows back) (hlt : front.length + back.length < 8) :
    parse? (join (front.map field) ++ [Ascii.colon, Ascii.colon] ++ join rows) =
      some (front ++ List.replicate (8 - (front.length + back.length)) 0 ++ back) := by
  have helision : elision? (join (front.map field) ++ [Ascii.colon, Ascii.colon] ++ join rows) =
      some (join (front.map field), join rows) := by
    have hfront : ∀ row ∈ front.map field, IsField row := fun _ => isField_of_mem_map
    rw [List.append_assoc, elision?_join_append hfront, List.cons_append, elision?,
      if_pos ⟨rfl, rfl⟩, Option.map_some]
    simp
  have hfront : ∀ row ∈ front.map field, IsField row := fun _ => isField_of_mem_map
  rw [parse?, helision]
  dsimp only
  rw [fields_join hfront, mapM_map_eq_some group?_field, fields_join h.isField, h.tail?_eq,
    Option.bind_some, Option.bind_some, if_pos hlt]

/-- Eight groups are read back from their text. -/
theorem parse?_print (h : groups.length = 8) : parse? (print groups) = some groups := by
  obtain hprint | ⟨front, length, back, rows, rfl, hlength, hrows, hprint⟩ := print_cases h
  · have hrows := standFor_map_field groups
    rw [hprint, parse?_join hrows.isField hrows.tail?_eq h]
  · simp only [List.length_append, List.length_replicate] at h
    have hzeros : 8 - (front.length + back.length) = length := by omega
    rw [hprint, parse?_elided hrows (by omega), hzeros]

/-- The characters of eight groups are those of host texts. -/
theorem isHostChar_of_mem_print (h : groups.length = 8) (hc : c ∈ print groups) :
    isHostChar c = true := by
  have hjoin {rows : List Bytes} (hrows : ∀ row ∈ rows, ∀ c ∈ row, isHostChar c = true)
      (hc : c ∈ join rows) : isHostChar c = true := by
    obtain rfl | ⟨row, hrow, hc⟩ := cases_of_mem_intercalate hc
    · rfl
    · exact hrows row hrow c hc
  obtain hprint | ⟨front, length, back, rows, -, -, hrows, hprint⟩ := print_cases h
  · rw [hprint] at hc
    exact hjoin (standFor_map_field groups).isHostChar hc
  · rw [hprint] at hc
    obtain hc | hc := List.mem_append.mp hc
    · obtain hc | hc := List.mem_append.mp hc
      · exact hjoin (standFor_map_field front).isHostChar hc
      · simp only [List.mem_cons, List.not_mem_nil, or_false, or_self] at hc
        rw [hc]
        rfl
    · exact hjoin hrows.isHostChar hc

theorem colon_mem_print (h : groups.length = 8) : Ascii.colon ∈ print groups := by
  obtain hprint | ⟨front, length, back, rows, -, -, -, hprint⟩ := print_cases h
  · match groups, h with
    | first :: second :: _, _ =>
      rw [hprint, List.map_cons, List.map_cons, join_cons_cons]
      simp
  · rw [hprint]
    simp

theorem length_print_lt (h : groups.length = 8) : (print groups).length < 46 := by
  obtain hprint | ⟨front, length, back, rows, rfl, hlength, hrows, hprint⟩ := print_cases h
  · have := length_join_map_field_le groups
    rw [hprint]
    omega
  · have hfront := length_join_map_field_le front
    have hback := hrows.length_le
    simp only [List.length_append, List.length_replicate] at h
    simp only [hprint, List.length_append, List.length_cons, List.length_nil]
    omega

end Ipv6Text

end Stun
