import Stun.Proofs.AttributeRecord
import Stun.Proofs.Reading

/-!
# Reading goes on behind every attribute

A call that reads an attribute fails for the framing only where fewer bytes are left than the
length field asks for. In all other cases, whether the value is valid, invalid or of an unknown
kind, the reader moves behind the record and its padding. So the places at which attributes are
looked for are found by hopping from length field to length field, and no value on the way can
shift them. Every hop passes over four bytes at least, which bounds the number of calls.

A message is read by cutting all records first. This file holds beside it the loop that reads one
attribute after the other and looks at each before it goes on, with a log of its calls, and shows
that the two lead to the same.

## Main definitions

* `Record.lengthAt`, `Record.behind?`: the length field of the record at an offset, and where it
  says that the record ends.
* `Record.starts`: the offsets that are reached from length field to length field.
* `Attribute.Call`, `Attribute.Trace`: a call that reads an attribute, and the calls of a loop with
  what they lead to.
* `Attribute.readEach`: the calls that read one attribute after the other, whatever they give.
* `Survey.follow`, `Message.follow`: the loop that reads a message.

## Main results

* `Record.starts_congr`: the offsets depend on the length fields alone.
* `Attribute.map_position_readEach`: calls that read each attribute are made at these offsets.
* `Message.result_follow`: the loop leads to the message that is read from the records.
* `Attribute.read_resynchronises`: where calls stand, where they end, and how many there are.
-/

namespace Stun

namespace Record

variable {packet packet' bytes rest : Bytes} {offset behind : Nat} {r : Record}

/-- The number that the length field of a record at an offset holds. -/
def lengthAt (packet : Bytes) (offset : Nat) : Nat := (packet.slice (offset + 2) 2).toUInt16.toNat

/-- The offset behind the record at an offset, found from its length field alone. Padding that is
cut short ends with the packet. -/
def behind? (packet : Bytes) (offset : Nat) : Option Nat :=
  let ending := offset + headSize + lengthAt packet offset
  if ending ≤ packet.length then
    some (min (ending + paddingLength (lengthAt packet offset)) packet.length)
  else none

theorem behind?_eq_some_iff :
    behind? packet offset = some behind ↔
      offset + headSize + lengthAt packet offset ≤ packet.length ∧
        behind = min (offset + headSize + lengthAt packet offset +
          paddingLength (lengthAt packet offset)) packet.length := by
  simp only [behind?, Option.ite_none_right_eq_some, Option.some.injEq, eq_comm (a := behind)]

theorem behind?_eq_none_iff :
    behind? packet offset = none ↔
      packet.length < offset + headSize + lengthAt packet offset := by
  simp only [behind?, ite_eq_right_iff, reduceCtorEq, imp_false, Nat.not_le]

theorem behind?_bounds (h : behind? packet offset = some behind) :
    offset + headSize ≤ behind ∧ behind ≤ packet.length := by
  obtain ⟨hle, rfl⟩ := behind?_eq_some_iff.mp h
  omega

theorem lt_of_behind? (h : behind? packet offset = some behind) :
    offset < behind ∧ offset < packet.length := by
  have hbounds := behind?_bounds h
  rw [headSize] at hbounds
  omega

/-- The offsets at which records are looked for from an offset on, found from the length fields
alone. At the last of them there may be none. -/
def starts (packet : Bytes) (offset : Nat) : List Nat :=
  if offset < packet.length then
    match h : behind? packet offset with
    | none => [offset]
    | some behind =>
      have := lt_of_behind? h
      offset :: starts packet behind
  else []
termination_by packet.length - offset

theorem starts_of_le (h : packet.length ≤ offset) : starts packet offset = [] := by
  rw [starts, if_neg (Nat.not_lt.mpr h)]

theorem starts_of_none (hlt : offset < packet.length) (h : behind? packet offset = none) :
    starts packet offset = [offset] := by
  rw [starts, if_pos hlt]
  split
  · rfl
  · next hsome => rw [h] at hsome; exact absurd hsome nofun

theorem starts_of_some (h : behind? packet offset = some behind) :
    starts packet offset = offset :: starts packet behind := by
  rw [starts, if_pos (lt_of_behind? h).2]
  split
  · next hnone => rw [h] at hnone; exact absurd hnone nofun
  · next hsome =>
    rw [h] at hsome
    cases hsome
    rfl

theorem behind?_congr (hsize : packet'.length = packet.length)
    (h : offset + headSize ≤ packet.length →
      packet'.slice (offset + 2) 2 = packet.slice (offset + 2) 2) :
    behind? packet' offset = behind? packet offset := by
  by_cases hhead : offset + headSize ≤ packet.length
  · rw [behind?, behind?, lengthAt, lengthAt, h hhead, hsize]
  · rw [behind?_eq_none_iff.mpr (by omega), behind?_eq_none_iff.mpr (by omega)]

/-- Packets of one size that agree in the length fields that are looked at are cut alike. -/
theorem starts_congr (hsize : packet'.length = packet.length)
    (h : ∀ p ∈ starts packet offset, p + headSize ≤ packet.length →
      packet'.slice (p + 2) 2 = packet.slice (p + 2) 2) :
    starts packet' offset = starts packet offset := by
  fun_induction starts packet offset with
  | case1 offset hlt hnone =>
    have hbehind := behind?_congr hsize (h offset List.mem_cons_self)
    exact starts_of_none (hsize ▸ hlt) (hbehind.trans hnone)
  | case2 offset hlt behind hsome _ ih =>
    have hbehind := behind?_congr hsize (h offset List.mem_cons_self)
    rw [starts_of_some (hbehind.trans hsome)]
    exact congrArg _ (ih fun p hp => h p (List.mem_cons_of_mem _ hp))
  | case3 offset hle => exact starts_of_le (hsize ▸ Nat.le_of_not_lt hle)

/-! ### Records where the length fields say -/

private theorem toNat_drop_take (packet : Bytes) :
    (Bytes.toUInt16 ((packet.take headSize).drop 2)).toNat = lengthAt packet 0 := by
  rw [List.drop_take]
  rfl

theorem cut?_eq_none_iff :
    cut? bytes = none ↔ bytes.length < headSize + lengthAt bytes 0 := by
  simp only [cut?, toNat_drop_take, ite_eq_left_iff, reduceCtorEq, imp_false, not_not,
    List.length_take, List.length_drop]
  omega

theorem size_of_cut? (h : cut? bytes = some (r, rest)) :
    r.size = min (headSize + lengthAt bytes 0 + paddingLength (lengthAt bytes 0)) bytes.length := by
  have hsome : ¬ bytes.length < headSize + lengthAt bytes 0 := by
    rw [← cut?_eq_none_iff, h]
    exact Option.some_ne_none _
  simp only [cut?, toNat_drop_take, Option.ite_none_left_eq_some, Option.some.injEq,
    Prod.mk.injEq] at h
  obtain ⟨-, rfl, -⟩ := h
  simp only [size, List.length_take, List.length_drop]
  omega

variable {reader : Reader}

theorem lengthAt_rest (hover : reader.IsOver packet) :
    lengthAt reader.rest 0 = lengthAt packet reader.position := by
  rw [lengthAt, lengthAt, Bytes.slice, Bytes.slice, hover.2, List.drop_drop, Nat.zero_add]

/-- No record is in front of a reader where the length field runs past the end. -/
theorem cut?_rest_eq_none_iff (hover : reader.IsOver packet) :
    cut? reader.rest = none ↔ behind? packet reader.position = none := by
  have hle := hover.position_le
  have hremaining := hover.remaining_eq
  rw [Reader.remaining] at hremaining
  rw [cut?_eq_none_iff, behind?_eq_none_iff, lengthAt_rest hover]
  omega

/-- A record in front of a reader ends where the length field says. -/
theorem behind?_of_cut? (hover : reader.IsOver packet) (h : cut? reader.rest = some (r, rest)) :
    behind? packet reader.position = some (reader.position + r.size) := by
  have hle := hover.position_le
  have hremaining := hover.remaining_eq
  rw [Reader.remaining] at hremaining
  have hsome : ¬ reader.rest.length < headSize + lengthAt reader.rest 0 := by
    rw [← cut?_eq_none_iff, h]
    exact Option.some_ne_none _
  rw [behind?_eq_some_iff, size_of_cut? h, ← lengthAt_rest hover]
  omega

end Record

namespace Attribute

variable {id : TransactionId} {packet rest : Bytes} {reader : Reader} {r : Record}

theorem ofRecord_ne_attributeTruncated : ofRecord id r ≠ .error .attributeTruncated := by
  unfold ofRecord
  split
  · nofun
  · exact ofValue_ne_attributeTruncated

/-- A type that is unknown is reported as it stands in the record. -/
theorem eq_type_of_ofRecord {type : UInt16} (h : ofRecord id r = .error (.unknownAttribute type)) :
    type = r.type := by
  unfold ofRecord at h
  split at h
  · exact (Error.unknownAttribute.inj (Except.error.inj h)).symm
  · exact absurd h (ofValue_ne_unknownAttribute type)

theorem read_of_some (h : Record.cut? reader.rest = some (r, rest)) :
    read id reader = (ofRecord id r, reader.advance r.size) := by
  simp only [read, Record.read, h]

theorem read_of_none (h : Record.cut? reader.rest = none) :
    read id reader =
      (.error .attributeTruncated, reader.advance (Record.headWithin reader.remaining)) := by
  simp only [read, Record.read, h]

/-- Reading fails for the framing exactly where no record stands. -/
theorem read_eq_attributeTruncated_iff :
    (read id reader).1 = .error .attributeTruncated ↔ Record.cut? reader.rest = none := by
  cases hcut : Record.cut? reader.rest with
  | none => simp only [read_of_none hcut]
  | some cut =>
    obtain ⟨r, rest⟩ := cut
    simp only [read_of_some hcut, ofRecord_ne_attributeTruncated, reduceCtorEq]

theorem isOver_read (id : TransactionId) (hover : reader.IsOver packet) :
    (read id reader).2.IsOver packet := by
  cases hcut : Record.cut? reader.rest with
  | none =>
    rw [read_of_none hcut]
    refine hover.advance ?_
    rw [Record.headWithin, Record.headSize]
    split <;> omega
  | some cut =>
    obtain ⟨r, rest⟩ := cut
    rw [read_of_some hcut]
    refine hover.advance ?_
    rw [Reader.remaining, Record.length_cut? hcut]
    exact Nat.le_add_right _ _

/-- A call that finds a record passes over at least its head. -/
theorem remaining_read (h : (read id reader).1 ≠ .error .attributeTruncated) :
    (read id reader).2.remaining + Record.headSize ≤ reader.remaining := by
  cases hcut : Record.cut? reader.rest with
  | none => exact absurd (read_eq_attributeTruncated_iff.mpr hcut) h
  | some cut =>
    obtain ⟨r, rest⟩ := cut
    have hlen := Record.length_cut? hcut
    rw [Record.size] at hlen
    simp only [read_of_some hcut, Reader.remaining, Reader.advance, List.length_drop, Record.size]
    omega

theorem remaining_read_lt (h : (read id reader).1 ≠ .error .attributeTruncated) :
    (read id reader).2.remaining < reader.remaining := by
  have hle := remaining_read h
  rw [Record.headSize] at hle
  omega

/-- A call of `Attribute.read`: where the reader stood, and what the call gave. -/
structure Call where
  /-- The position of the reader before the call. -/
  position : Nat
  /-- What was read. -/
  outcome : Except Error Attribute

/-- The calls that a loop makes, and what they lead to. -/
structure Trace (α : Type) where
  /-- The calls, in order. -/
  calls : List Call
  /-- What they lead to. -/
  result : Except Error α

/-- The calls that read the attributes in front of a reader one after the other, whatever they give,
to the end of the bytes or to where no record stands. -/
def readEach (id : TransactionId) (reader : Reader) : List Call :=
  if reader.isEmpty then []
  else
    let call := ⟨reader.position, (read id reader).1⟩
    if h : (read id reader).1 = .error .attributeTruncated then [call]
    else
      have := remaining_read_lt h
      call :: readEach id (read id reader).2
termination_by reader.remaining

theorem readEach_of_isEmpty (h : reader.isEmpty = true) : readEach id reader = [] := by
  rw [readEach, if_pos h]

theorem exists_readEach_eq_cons (id : TransactionId) (h : ¬ reader.isEmpty = true) :
    ∃ calls, readEach id reader = ⟨reader.position, (read id reader).1⟩ :: calls := by
  rw [readEach, if_neg h]
  split <;> exact ⟨_, rfl⟩

theorem readEach_eq_cons (h : ¬ reader.isEmpty = true)
    (hread : (read id reader).1 ≠ .error .attributeTruncated) :
    readEach id reader =
      ⟨reader.position, (read id reader).1⟩ :: readEach id (read id reader).2 := by
  rw [readEach, if_neg h]
  exact dif_neg hread

private theorem isEmpty_iff_le_position (hover : reader.IsOver packet) :
    reader.isEmpty = true ↔ packet.length ≤ reader.position := by
  rw [Reader.isEmpty, List.isEmpty_iff, hover.2, List.drop_eq_nil_iff]

/-- A reader stands where the length field says after a call that finds a record. -/
theorem behind?_of_read (hover : reader.IsOver packet)
    (h : (read id reader).1 ≠ .error .attributeTruncated) :
    Record.behind? packet reader.position = some (read id reader).2.position := by
  cases hcut : Record.cut? reader.rest with
  | none => exact absurd (read_eq_attributeTruncated_iff.mpr hcut) h
  | some cut =>
    obtain ⟨r, rest⟩ := cut
    rw [read_of_some hcut]
    exact Record.behind?_of_cut? hover hcut

theorem behind?_eq_none_iff_read (hover : reader.IsOver packet) :
    Record.behind? packet reader.position = none ↔
      (read id reader).1 = .error .attributeTruncated := by
  rw [read_eq_attributeTruncated_iff, Record.cut?_rest_eq_none_iff hover]

/-- The positions of the calls are found from the length fields alone. -/
theorem map_position_readEach (id : TransactionId) (hover : reader.IsOver packet) :
    (readEach id reader).map Call.position = Record.starts packet reader.position := by
  fun_induction readEach id reader with
  | case1 reader hempty =>
    exact (Record.starts_of_le ((isEmpty_iff_le_position hover).mp hempty)).symm
  | case2 reader hempty call htruncated =>
    rw [isEmpty_iff_le_position hover, Nat.not_le] at hempty
    exact (Record.starts_of_none hempty ((behind?_eq_none_iff_read hover).mpr htruncated)).symm
  | case3 reader hempty call hread _ ih =>
    rw [List.map_cons, ih (isOver_read id hover),
      Record.starts_of_some (behind?_of_read hover hread)]

/-- Some calls are at most `count` many, and perhaps a last one behind them that finds no record. -/
def IsWithin (calls : List Call) (count : Nat) : Prop :=
  ∃ completed : List Call, completed.length ≤ count ∧ (calls = completed ∨
    ∃ position, calls = completed ++ [⟨position, .error .attributeTruncated⟩])

theorem isWithin_readEach (id : TransactionId) (reader : Reader) :
    IsWithin (readEach id reader) (reader.remaining / 4) := by
  fun_induction readEach id reader with
  | case1 => exact ⟨[], Nat.zero_le _, .inl rfl⟩
  | case2 reader hempty call htruncated =>
    exact ⟨[], Nat.zero_le _, .inr ⟨reader.position, by rw [List.nil_append, ← htruncated]⟩⟩
  | case3 reader hempty call hread _ ih =>
    obtain ⟨completed, hlength, hcalls⟩ := ih
    have hremaining := remaining_read hread
    rw [Record.headSize] at hremaining
    refine ⟨call :: completed, ?_, ?_⟩
    · rw [List.length_cons]
      omega
    · rcases hcalls with hcalls | ⟨position, hcalls⟩
      · exact .inl (congrArg _ hcalls)
      · exact .inr ⟨position, congrArg _ hcalls⟩

theorem IsWithin.of_prefix {calls before : List Call} {count : Nat} (h : IsWithin calls count)
    (hbefore : before <+: calls) : IsWithin before count := by
  obtain ⟨completed, hlength, rfl | ⟨position, rfl⟩⟩ := h
  · exact ⟨before, hbefore.length_le.trans hlength, .inl rfl⟩
  · rcases List.prefix_concat_iff.mp hbefore with rfl | hbefore
    · exact ⟨completed, hlength, .inr ⟨position, rfl⟩⟩
    · exact ⟨before, hbefore.length_le.trans hlength, .inl rfl⟩

end Attribute

/-! ### The reading of a message -/

namespace Survey

open Attribute (Call Trace readEach)

/-- The survey after what a call gave, with the reader at `behind`: an attribute of an unknown kind
that need not be understood is passed over. -/
def handle (profile : Profile) (password : Option Bytes) (packet : Bytes) (s : Survey)
    (behind : Nat) : Except Error Attribute → Except Error Survey
  | .ok a => (s.check profile password packet behind a).map fun _ => s.accept behind a
  | .error (.unknownAttribute type) =>
    if mustBeUnderstood type then .error (.unknownAttribute type)
    else .ok { s with offset := behind }
  | .error e => .error e

variable {id : TransactionId} {profile : Profile} {password : Option Bytes} {packet rest : Bytes}
  {s s' : Survey} {behind : Nat} {outcome : Except Error Attribute} {reader : Reader} {r : Record}

theorem ne_attributeTruncated_of_handle
    (h : s.handle profile password packet behind outcome = .ok s') :
    outcome ≠ .error .attributeTruncated := by
  rintro rfl
  exact absurd h nofun

/-- Attributes are read and looked at one after the other, to the end of the bytes or to the first
that is refused. -/
def follow (id : TransactionId) (profile : Profile) (password : Option Bytes) (packet : Bytes)
    (s : Survey) (reader : Reader) : Trace Survey :=
  if reader.isEmpty then ⟨[], .ok s⟩
  else
    let call : Call := ⟨reader.position, (Attribute.read id reader).1⟩
    let reader' := (Attribute.read id reader).2
    match h : s.handle profile password packet reader'.position (Attribute.read id reader).1 with
    | .error e => ⟨[call], .error e⟩
    | .ok s' =>
      have := Attribute.remaining_read_lt (ne_attributeTruncated_of_handle h)
      let later := follow id profile password packet s' reader'
      { later with calls := call :: later.calls }
termination_by reader.remaining

/-- The calls that reading a message makes are the first of those that read each attribute. -/
theorem follow_isPrefix :
    (follow id profile password packet s reader).calls <+: readEach id reader := by
  fun_induction follow id profile password packet s reader with
  | case1 => exact List.nil_prefix
  | case2 s reader hempty call reader' e hhandle =>
    obtain ⟨calls, hcalls⟩ := Attribute.exists_readEach_eq_cons id hempty
    exact ⟨calls, hcalls.symm⟩
  | case3 s reader hempty call reader' s' hhandle _ later ih =>
    rw [Attribute.readEach_eq_cons hempty (ne_attributeTruncated_of_handle hhandle)]
    exact (List.cons_prefix_cons).mpr ⟨rfl, ih⟩

/-- Where nothing is refused, these are all calls. -/
theorem follow_eq_readEach (h : (follow id profile password packet s reader).result = .ok s') :
    (follow id profile password packet s reader).calls = readEach id reader := by
  fun_induction follow id profile password packet s reader with
  | case1 s reader hempty => exact (Attribute.readEach_of_isEmpty hempty).symm
  | case2 => exact absurd h nofun
  | case3 s reader hempty call reader' s₁ hhandle _ later ih =>
    rw [Attribute.readEach_eq_cons hempty (ne_attributeTruncated_of_handle hhandle)]
    exact congrArg _ (ih h)

theorem offset_of_handle (h : s.handle profile password packet behind outcome = .ok s') :
    s'.offset = behind := by
  cases outcome with
  | ok a =>
    obtain ⟨_, -, rfl⟩ := Error.map_eq_ok_iff.mp h
    rfl
  | error e =>
    cases e with
    | unknownAttribute type =>
      simp only [handle] at h
      split at h
      · exact absurd h nofun
      · exact Except.ok.inj h ▸ rfl
    | _ => exact absurd h nofun

/-- What is read from a record is met as the record is visited. -/
theorem handle_ofRecord (hbehind : s.offset + r.size = behind) :
    s.handle profile password packet behind (Attribute.ofRecord id r) =
      s.visit id profile password packet r := by
  subst hbehind
  unfold visit
  cases hr : Attribute.ofRecord id r with
  | ok a => rfl
  | error e =>
    cases e with
    | unknownAttribute type =>
      obtain rfl := Attribute.eq_type_of_ofRecord hr
      by_cases hskip : mustBeUnderstood r.type = true <;> simp [handle, hskip]
    | _ => simp only [handle, reduceCtorEq, false_and, if_false]

/-- Where a record stands, a call and meeting what it gives come to visiting the record. -/
theorem handle_read (hoffset : s.offset = reader.position)
    (hcut : Record.cut? reader.rest = some (r, rest)) :
    s.handle profile password packet (Attribute.read id reader).2.position
        (Attribute.read id reader).1 = s.visit id profile password packet r ∧
      (Attribute.read id reader).2.rest = rest := by
  rw [Attribute.read_of_some hcut]
  refine ⟨handle_ofRecord (congrArg (· + r.size) hoffset), ?_⟩
  rw [Reader.advance, ← Record.bytes_append_of_cut? hcut]
  exact List.drop_left' r.length_bytes

/-- Following the attributes with a reader leads to the same as cutting all records first. -/
theorem result_follow (hoffset : s.offset = reader.position) :
    (follow id profile password packet s reader).result =
      match (Record.split reader.rest).1.foldlM (visit id profile password packet) s with
      | .error e => .error e
      | .ok s' =>
        if (Record.split reader.rest).2 = [] then .ok s' else .error .attributeTruncated := by
  fun_induction follow id profile password packet s reader with
  | case1 s reader hempty =>
    rw [List.isEmpty_iff.mp hempty, Record.split_nil]
    rfl
  | case2 s reader hempty call reader' e hhandle =>
    cases hcut : Record.cut? reader.rest with
    | none =>
      have hleft : reader.rest ≠ [] := fun h => hempty (List.isEmpty_iff.mpr h)
      rw [Attribute.read_eq_attributeTruncated_iff.mpr hcut] at hhandle
      obtain rfl := Except.error.inj hhandle
      rw [Record.split_of_cut?_eq_none hcut]
      exact (if_neg hleft).symm
    | some cut =>
      obtain ⟨hvisit, -⟩ := handle_read hoffset hcut
      rw [Record.split_of_cut? hcut, List.foldlM_cons, ← hvisit, hhandle]
      rfl
  | case3 s reader hempty call reader' s' hhandle _ later ih =>
    cases hcut : Record.cut? reader.rest with
    | none =>
      have htruncated : (Attribute.read id reader).1 = _ :=
        Attribute.read_eq_attributeTruncated_iff.mpr hcut
      exact absurd htruncated (ne_attributeTruncated_of_handle hhandle)
    | some cut =>
      obtain ⟨hvisit, hbehind⟩ := handle_read hoffset hcut
      have hlater := ih (offset_of_handle hhandle)
      rw [hbehind] at hlater
      rw [Record.split_of_cut? hcut, List.foldlM_cons, ← hvisit, hhandle]
      exact hlater

end Survey

namespace Message

open Attribute (Call Trace readEach)

/-- The message of a packet by a reader that moves along it. -/
def follow (packet : Bytes) (profile : Profile) (password : Option Bytes) : Trace Message :=
  match Header.read (Reader.ofBytes packet) with
  | (.error e, _) => ⟨[], .error e⟩
  | (.ok header, reader) =>
    let trace := Survey.follow header.id profile password packet {} reader
    ⟨trace.calls, trace.result.map fun s => ⟨header, s.kept.reverse⟩⟩

/-- A reader that moves along a packet comes to the message that is read from its records. -/
theorem result_follow (packet : Bytes) (profile : Profile) (password : Option Bytes) :
    (follow packet profile password).result = decode packet profile password := by
  unfold follow decode
  cases hread : Header.read (Reader.ofBytes packet) with
  | mk result reader =>
  cases result with
  | error e => rfl
  | ok header =>
  obtain ⟨-, body, rfl, rfl⟩ := Header.read_ofBytes_eq_ok_iff.mp hread
  have hfollow : (Survey.follow header.id profile password (header.bytes ++ body) {}
      ⟨Header.size, body⟩).result = _ := Survey.result_follow rfl
  simp only [hfollow]
  cases (Record.split body).1.foldlM
      (Survey.visit header.id profile password (header.bytes ++ body)) {} with
  | error e => rfl
  | ok s => by_cases hleft : (Record.split body).2 = [] <;> simp [hleft, Except.map]

/-- Without a header no call is made. Behind one the calls are the first of those that read each
attribute, and all of them for a message. -/
theorem calls_follow (packet : Bytes) (profile : Profile) (password : Option Bytes) :
    ((follow packet profile password).calls = [] ∧
      ∀ m, (follow packet profile password).result ≠ .ok m) ∨
    ∃ id reader, reader.IsOver packet ∧ reader.position = Header.size ∧
      (follow packet profile password).calls <+: readEach id reader ∧
      ∀ m, (follow packet profile password).result = .ok m →
        (follow packet profile password).calls = readEach id reader := by
  unfold follow
  cases hread : Header.read (Reader.ofBytes packet) with
  | mk result reader =>
  cases result with
  | error e => exact .inl ⟨rfl, nofun⟩
  | ok header =>
  obtain ⟨-, body, rfl, rfl⟩ := Header.read_ofBytes_eq_ok_iff.mp hread
  refine .inr ⟨header.id, ⟨Header.size, body⟩, ⟨?_, ?_⟩, rfl, Survey.follow_isPrefix, ?_⟩
  · simp only [List.length_append, Header.length_bytes, Nat.le_add_right]
  · exact (List.drop_left' header.length_bytes).symm
  · intro m hm
    obtain ⟨s, hs, -⟩ := Error.map_eq_ok_iff.mp hm
    exact Survey.follow_eq_readEach hs

end Message

namespace Attribute

variable {packet : Bytes} {id : TransactionId} {reader : Reader}

/-- A call that finds a record ends behind its padding, or where the packet ends before. -/
theorem position_read (hover : reader.IsOver packet)
    (h : (read id reader).1 ≠ .error .attributeTruncated) :
    let length := Record.lengthAt packet reader.position
    (read id reader).2.position = reader.position + 4 + length +
      min ((4 - length % 4) % 4) (reader.remaining - 4 - length) := by
  intro length
  obtain ⟨hle, hposition⟩ := Record.behind?_eq_some_iff.mp (behind?_of_read hover h)
  rw [hposition, hover.remaining_eq, Record.paddingLength, Record.headSize]
  rw [Record.headSize] at hle
  omega

/-- A call finds no record where fewer bytes are left than the head and the length field ask for. -/
theorem read_eq_attributeTruncated_iff_lt (hover : reader.IsOver packet) :
    (read id reader).1 = .error .attributeTruncated ↔
      reader.remaining < 4 ∨ reader.remaining - 4 < Record.lengthAt packet reader.position := by
  have hle := hover.position_le
  rw [← behind?_eq_none_iff_read hover, Record.behind?_eq_none_iff, hover.remaining_eq,
    Record.headSize]
  omega

/-- Attributes are found by the length fields alone, whatever they hold. A message is read by no
more calls than there are words of four bytes behind its header, and one that finds no record. -/
theorem read_resynchronises (packet : Bytes) :
    (∀ (id : TransactionId) (reader : Reader), reader.IsOver packet →
      let length := Record.lengthAt packet reader.position
      ((read id reader).1 = .error .attributeTruncated ↔
        reader.remaining < 4 ∨ reader.remaining - 4 < length) ∧
      ((read id reader).1 ≠ .error .attributeTruncated →
        (read id reader).2.position = reader.position + 4 + length +
            min ((4 - length % 4) % 4) (reader.remaining - 4 - length) ∧
          reader.position + 4 ≤ (read id reader).2.position) ∧
      (read id reader).2.IsOver packet ∧
      (readEach id reader).map Call.position = Record.starts packet reader.position) ∧
    (∀ (packet' : Bytes) (offset : Nat), packet'.length = packet.length →
      (∀ p ∈ Record.starts packet offset, p + 4 ≤ packet.length →
        packet'.slice (p + 2) 2 = packet.slice (p + 2) 2) →
      Record.starts packet' offset = Record.starts packet offset) ∧
    ∀ (profile : Profile) (password : Option Bytes),
      let trace := Message.follow packet profile password
      trace.result = Message.decode packet profile password ∧
      trace.calls.map Call.position <+: Record.starts packet Header.size ∧
      (∀ m, trace.result = .ok m →
        trace.calls.map Call.position = Record.starts packet Header.size) ∧
      IsWithin trace.calls ((packet.length - Header.size) / 4) := by
  refine ⟨fun id reader hover => ⟨read_eq_attributeTruncated_iff_lt hover, fun hread => ?_,
    isOver_read id hover, map_position_readEach id hover⟩,
    fun packet' offset => Record.starts_congr, fun profile password => ?_⟩
  · have hposition := position_read hover hread
    exact ⟨hposition, by omega⟩
  · refine ⟨Message.result_follow packet profile password, ?_⟩
    obtain ⟨hnone, hrefused⟩ | ⟨id, reader, hover, hposition, hbefore, hall⟩ :=
      Message.calls_follow packet profile password
    · simp only [hnone]
      exact ⟨List.nil_prefix, fun m hm => absurd hm (hrefused m), [], Nat.zero_le _, .inl rfl⟩
    · have hstarts := map_position_readEach id hover
      rw [hposition] at hstarts
      have hwithin := isWithin_readEach id reader
      rw [hover.remaining_eq, hposition] at hwithin
      refine ⟨hstarts ▸ hbefore.map Call.position, fun m hm => ?_, hwithin.of_prefix hbefore⟩
      rw [hall m hm, hstarts]

/-- A request with an attribute of an unknown kind and a SOFTWARE whose padding is cut off. -/
def looseRequest : Bytes :=
  [0x00, 0x01, 0x00, 0x00, 0x21, 0x12, 0xA4, 0x42, 0x00, 0x00, 0x00, 0x00, 0x00, 0x00, 0x00, 0x00,
    0x00, 0x00, 0x00, 0x00, 0x80, 0x99, 0x00, 0x01, 0xAA, 0x00, 0x00, 0x00, 0x80, 0x22, 0x00, 0x02,
    0x68, 0x69]

/-- The same bytes with nothing kept but the two length fields. -/
def looseNoise : Bytes :=
  List.replicate 22 0xFF ++ [0x00, 0x01] ++ List.replicate 6 0xFF ++ [0x00, 0x02, 0xFF, 0xFF]

/-- The request is read by two calls, and the noise is cut at the same two places. -/
theorem read_resynchronises_looseRequest :
    let reader := (Reader.ofBytes looseRequest).advance 28
    (read (Vector.replicate 12 0) reader).2.position = 34 ∧
      (Message.follow looseRequest {} none).calls.map Call.position = [20, 28] ∧
      Record.starts looseNoise 20 = [20, 28] := by
  intro reader
  have hover : reader.IsOver looseRequest :=
    (Reader.isOver_ofBytes looseRequest).advance (by decide)
  have hread : (read (Vector.replicate 12 0) reader).1 ≠ .error .attributeTruncated := by
    decide +kernel
  have hstarts : Record.starts looseRequest 20 = [20, 28] := by
    have hfirst : Record.behind? looseRequest 20 = some 28 := by decide +kernel
    have hsecond : Record.behind? looseRequest 28 = some 34 := by decide +kernel
    rw [Record.starts_of_some hfirst, Record.starts_of_some hsecond,
      Record.starts_of_le (Nat.le_refl 34)]
  have hdecode : ∃ m, Message.decode looseRequest {} none = .ok m :=
    ⟨{ attributes := [.software (Bytes.ofString "hi")] }, by decide +kernel⟩
  obtain ⟨hcall, hsame, hmessage⟩ := read_resynchronises looseRequest
  obtain ⟨hresult, -, hcalls, -⟩ := hmessage {} none
  obtain ⟨m, hm⟩ := hdecode
  refine ⟨((hcall _ reader hover).2.1 hread).1.trans (by decide +kernel), ?_, ?_⟩
  · rw [hcalls m (hresult.trans hm), Header.size, hstarts]
  · rw [hsame looseNoise 20 rfl, hstarts]
    rw [hstarts]
    decide +kernel

end Attribute

end Stun
