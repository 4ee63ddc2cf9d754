import Stun.Header
import Stun.Record

/-!
# Rows of records

The bytes behind a header are cut into records by the length fields alone. This file says which
byte strings are cut without rest: the rows of records of which only the last may lack some of its
padding. A byte string is such a row in one way only.

## Main definitions

* `Record.IsRow`: the records that may stand behind a header, up to the end of a packet.
* `Record.ofPacket`: the records behind the header of a packet.
* `Record.start`: where the record behind some others starts in a packet.
* `Record.FirstAt`: where the first record of a type starts in a packet.

## Main results

* `Record.cut?_eq_some_iff`: what is cut from the front of a byte string.
* `Record.split_eq_iff`: a byte string is cut into records without rest exactly when it is a row.
* `Record.IsRow.eq_of_concat_eq`: no byte string is a row in two ways.
* `Record.cases_of_append_cons_eq`: how two records of a packet stand to each other.
-/

namespace Stun.Record

/-! ### One record -/

private theorem isFit_of_cut? {packet rest : Bytes} {r : Record}
    (h : cut? packet = some (r, rest)) : r.IsFit ∧ (rest = [] ∨ r.IsComplete) := by
  unfold cut? at h
  simp only at h
  split at h
  · exact absurd h nofun
  · next hlen =>
    simp only [Option.some.injEq, Prod.mk.injEq] at h
    obtain ⟨rfl, rfl⟩ := h
    have hmax := (Bytes.toUInt16 ((packet.take headSize).drop 2)).toNat_lt
    simp only [IsFit, IsComplete, maxLength, List.length_take, List.length_drop,
      List.drop_eq_nil_iff] at hlen ⊢
    rw [not_or, Nat.not_lt, Nat.not_lt] at hlen
    rw [Nat.min_eq_left (a := (Bytes.toUInt16 ((packet.take headSize).drop 2)).toNat) (by omega)]
    omega

/-- What is cut from the front of a byte string: a record that accounts for the bytes with those
behind it, and that lacks no padding unless nothing is behind it. -/
theorem cut?_eq_some_iff {packet rest : Bytes} {r : Record} :
    cut? packet = some (r, rest) ↔
      packet = r.bytes ++ rest ∧ r.IsFit ∧ (rest = [] ∨ r.IsComplete) := by
  constructor
  · intro h
    exact ⟨(bytes_append_of_cut? h).symm, isFit_of_cut? h⟩
  · rintro ⟨rfl, hfit, hrest⟩
    exact cut?_bytes_append hfit hrest

theorem size_pos (r : Record) : 0 < r.size := by
  simp only [size, headSize]
  omega

/-! ### Rows -/

/-- Records in a row to the end of a packet: only the last may lack some of its padding. -/
inductive IsRow : List Record → Prop
  | nil : IsRow []
  | last {r} (h : r.IsFit) : IsRow [r]
  | cons {r records} (h : r.IsComplete) (hrow : IsRow records) : IsRow (r :: records)

theorem isRow_of_forall_isComplete {records : List Record} (h : ∀ r ∈ records, r.IsComplete) :
    IsRow records := by
  induction records with
  | nil => exact .nil
  | cons r records ih =>
    exact .cons (h r List.mem_cons_self) (ih fun s hs => h s (List.mem_cons_of_mem _ hs))

@[simp] theorem concat_append (front back : List Record) :
    concat (front ++ back) = concat front ++ concat back := List.flatMap_append

theorem concat_eq_nil_iff {records : List Record} : concat records = [] ↔ records = [] := by
  refine ⟨fun h => ?_, fun h => h ▸ rfl⟩
  cases records with
  | nil => rfl
  | cons r records =>
    have hpos := r.size_pos
    have hlen := congrArg List.length h
    simp only [concat_cons, List.length_append, length_bytes, List.length_nil] at hlen
    omega

theorem split_of_cut? {packet rest : Bytes} {r : Record}
    (h : cut? packet = some (r, rest)) : split packet = (r :: (split rest).1, (split rest).2) := by
  rw [split]
  split
  · next hnone => rw [h] at hnone; exact absurd hnone nofun
  · next hsome =>
    rw [h] at hsome
    cases hsome
    rfl

/-- Where no record stands, all bytes are left. -/
theorem split_of_cut?_eq_none {packet : Bytes} (h : cut? packet = none) :
    split packet = ([], packet) := by
  rw [split]
  split
  · rfl
  · next hsome => rw [h] at hsome; exact absurd hsome nofun

theorem split_nil : split [] = ([], []) :=
  split_concat fun r (hr : r ∈ []) => absurd hr List.not_mem_nil

/-- A byte string is cut into records without rest exactly when it is a row of them. -/
theorem split_eq_iff {packet : Bytes} {records : List Record} :
    split packet = (records, []) ↔ packet = concat records ∧ IsRow records := by
  constructor
  · intro h
    have hconcat := concat_split packet
    rw [h, List.append_nil] at hconcat
    refine ⟨hconcat.symm, ?_⟩
    clear hconcat
    fun_induction split packet generalizing records with
    | case1 packet hcut =>
      cases h
      exact .nil
    | case2 packet r rest hcut _ tail left hsplit ih =>
      cases h
      have hrow := ih hsplit
      obtain ⟨-, hfit, rfl | hcomplete⟩ := cut?_eq_some_iff.mp hcut
      · rw [split_nil] at hsplit
        cases hsplit
        exact .last hfit
      · exact .cons hcomplete hrow
  · rintro ⟨rfl, hrow⟩
    induction hrow with
    | nil => exact split_nil
    | @last r hfit =>
      have hcut : cut? (concat [r]) = some (r, []) := by
        rw [concat_cons, concat_nil]
        exact cut?_bytes_append hfit (.inl rfl)
      rw [split_of_cut? hcut, split_nil]
    | @cons r records hcomplete hrow ih =>
      have hcut : cut? (concat (r :: records)) = some (r, concat records) :=
        cut?_bytes_append hcomplete.isFit (.inr hcomplete)
      rw [split_of_cut? hcut, ih]

theorem IsRow.isFit {records : List Record} (h : IsRow records) : ∀ r ∈ records, r.IsFit := by
  induction h with
  | nil => exact nofun
  | last h =>
    intro r hr
    rw [List.mem_singleton.mp hr]
    exact h
  | cons h _ ih =>
    intro r hr
    rcases List.mem_cons.mp hr with rfl | hr
    · exact h.isFit
    · exact ih r hr

/-- All records of a row that another one follows are complete. -/
theorem IsRow.isComplete_of_append_cons {front back : List Record} {r : Record}
    (h : IsRow (front ++ r :: back)) : ∀ s ∈ front, s.IsComplete := by
  induction front with
  | nil => exact nofun
  | cons t front ih =>
    intro s hs
    cases front with
    | nil =>
      cases h with
      | cons h _ => exact List.mem_singleton.mp hs ▸ h
    | cons u front =>
      cases h with
      | cons h hrow =>
        rcases List.mem_cons.mp hs with rfl | hs
        · exact h
        · exact ih hrow s hs

/-- No byte string is a row in two ways. -/
theorem IsRow.eq_of_concat_eq {first second : List Record} (hfirst : IsRow first)
    (hsecond : IsRow second) (h : concat first = concat second) : first = second := by
  have hsplit := split_eq_iff.mpr ⟨h, hsecond⟩
  rw [split_eq_iff.mpr ⟨rfl, hfirst⟩] at hsplit
  exact congrArg Prod.fst hsplit

/-! ### The records of a packet -/

/-- The records behind the header of a packet. -/
def ofPacket (packet : Bytes) : List Record := (split (packet.drop Header.size)).1

/-- The offset of the record behind some others in a packet. -/
def start (front : List Record) : Nat := Header.size + (concat front).length

/-- The first record of a type starts at an offset of a packet. -/
def FirstAt (type : UInt16) (packet : Bytes) (offset : Nat) : Prop :=
  ∃ front r back, ofPacket packet = front ++ r :: back ∧ r.type = type ∧
    (∀ s ∈ front, s.type ≠ type) ∧ offset = Header.size + (concat front).length

/-- Of two records in a row one stands before the other, unless they are the same. -/
theorem cases_of_append_cons_eq {front back front' back' : List Record} {r s : Record}
    (h : front ++ r :: back = front' ++ s :: back') :
    (front' = front ∧ s = r) ∨ (∃ between, front = front' ++ s :: between) ∨
      ∃ between, front' = front ++ r :: between ∧ back = between ++ s :: back' := by
  rcases List.append_eq_append_iff.mp h with ⟨between, rfl, htail⟩ | ⟨between, rfl, htail⟩
  · rcases List.cons_eq_append_iff.mp htail with ⟨rfl, heq⟩ | ⟨rest, rfl, rfl⟩
    · exact .inl ⟨List.append_nil _, (List.cons.inj heq).1⟩
    · exact .inr (.inr ⟨rest, rfl, rfl⟩)
  · rcases List.cons_eq_append_iff.mp htail with ⟨rfl, heq⟩ | ⟨rest, rfl, -⟩
    · exact .inl ⟨(List.append_nil _).symm, (List.cons.inj heq).1.symm⟩
    · exact .inr (.inl ⟨rest, rfl⟩)

theorem start_append_cons (front : List Record) (r : Record) (back : List Record) :
    start (front ++ r :: back) = start front + r.size + (concat back).length := by
  simp only [start, concat_append, concat_cons, List.length_append, length_bytes, Nat.add_assoc]

/-- Where a record of some type stands, a first one does. -/
theorem exists_first_of_mem {records : List Record} {type : UInt16} {r : Record} (hr : r ∈ records)
    (htype : r.type = type) :
    ∃ front s back, records = front ++ s :: back ∧ s.type = type ∧ ∀ t ∈ front, t.type ≠ type := by
  have hfound : (records.find? (·.type = type)).isSome :=
    List.find?_isSome.mpr ⟨r, hr, decide_eq_true htype⟩
  obtain ⟨s, hs⟩ := Option.isSome_iff_exists.mp hfound
  obtain ⟨hs, front, back, hrecords, hfront⟩ := List.find?_eq_some_iff_append.mp hs
  refine ⟨front, s, back, hrecords, of_decide_eq_true hs, fun t ht => ?_⟩
  simpa using hfront t ht

end Stun.Record
