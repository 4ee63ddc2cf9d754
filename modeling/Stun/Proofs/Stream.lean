import Stun.Bytes.Item
import Stun.Bytes.Reader

/-!
# Items written and read in rows

Items are written one behind the other, each at the end of what is there, so what was there stays
in front and a reader that stands behind it finds the items in the same order. Calls that ask for
the right kinds give the values back one by one. A call looks only at whether enough bytes are left:
whatever calls were made before, the reader stands inside its byte string, and a call either moves
it over all the bytes it asks for or leaves it where it is.

## Main definitions

* `Reader.Call`, `Reader.Answer`: the calls that can be made on a reader, and what they answer.
* `Reader.Call.run`, `Reader.run`: one call, and calls in a row.
* `Item.call`, `Item.answer`: the call that reads an item, and what it answers.

## Main results

* `Reader.Call.run_eq`: a call succeeds exactly when enough bytes are left.
* `Reader.IsOver.run`: calls in a row never leave the byte string.
* `Reader.run_map_call`: items are read back where they stand.
* `Item.getElem?_patch`, `Item.run_patch`: an item that is written over others.
-/

namespace Stun

namespace Reader

/-! ### Calls -/

/-- A call on a reader. -/
inductive Call where
  /-- The next byte. -/
  | u8
  /-- The number in the next two bytes. -/
  | u16
  /-- The number in the next four bytes. -/
  | u32
  /-- The number in the next eight bytes. -/
  | u64
  /-- The next `count` bytes. -/
  | bytes (count : Nat)
  /-- Passing over the next `count` bytes. -/
  | skip (count : Nat)
  deriving Repr, DecidableEq

/-- What a call answers when it succeeds. -/
inductive Answer where
  /-- One byte. -/
  | u8 (value : UInt8)
  /-- A number from two bytes. -/
  | u16 (value : UInt16)
  /-- A number from four bytes. -/
  | u32 (value : UInt32)
  /-- A number from eight bytes. -/
  | u64 (value : UInt64)
  /-- Bytes as they are. -/
  | bytes (value : Bytes)
  /-- The bytes have been passed over. -/
  | skipped
  deriving Repr, DecidableEq

variable {r : Reader} {packet : Bytes}

/-- The answer of a call and the reader behind it. Without an answer the reader stays. -/
def settle (r : Reader) : Option (Answer × Reader) → Option Answer × Reader
  | some (answer, r') => (some answer, r')
  | none => (none, r)

namespace Call

/-- The number of bytes that a call asks for. -/
def count : Call → Nat
  | u8 => 1
  | u16 => 2
  | u32 => 4
  | u64 => 8
  | bytes count | skip count => count

/-- What a call makes of the bytes that it asks for. -/
def answer : Call → Bytes → Answer
  | u8, taken => .u8 (UInt8.ofNat taken.toNat)
  | u16, taken => .u16 taken.toUInt16
  | u32, taken => .u32 taken.toUInt32
  | u64, taken => .u64 taken.toUInt64
  | bytes _, taken => .bytes taken
  | skip _, _ => .skipped

/-- What a call answers, if anything, and the reader behind it. -/
def run (r : Reader) : Call → Option Answer × Reader
  | u8 => r.settle (r.u8?.map fun (value, r') => (.u8 value, r'))
  | u16 => r.settle (r.u16?.map fun (value, r') => (.u16 value, r'))
  | u32 => r.settle (r.u32?.map fun (value, r') => (.u32 value, r'))
  | u64 => r.settle (r.u64?.map fun (value, r') => (.u64 value, r'))
  | bytes count => r.settle ((r.take? count).map fun (taken, r') => (.bytes taken, r'))
  | skip count => r.settle ((r.skip? count).map fun r' => (.skipped, r'))

/-- Every call takes the bytes that it asks for and makes its answer of them. -/
theorem run_eq_settle (r : Reader) (call : Call) : call.run r =
    r.settle ((r.take? call.count).map fun (taken, r') => (call.answer taken, r')) := by
  cases call <;> simp only [run, u8?, u16?, u32?, u64?, skip?, Option.map_map] <;> rfl

/-- A call succeeds exactly when enough bytes are left, and otherwise leaves the reader. -/
theorem run_eq (r : Reader) (call : Call) : call.run r =
    if call.count ≤ r.remaining then
      (some (call.answer (r.rest.take call.count)), r.advance call.count)
    else (none, r) := by
  rw [run_eq_settle]
  split
  next hle =>
    rw [take?_eq_some_iff.mpr ⟨hle, rfl, rfl⟩]
    rfl
  next hlt =>
    rw [take?_eq_none_iff.mpr (Nat.not_le.mp hlt)]
    rfl

end Call

/-- What calls in a row answer, and the reader behind all of them. -/
def run (r : Reader) : List Call → List (Option Answer) × Reader
  | [] => ([], r)
  | call :: calls =>
    let (answer, r') := call.run r
    let (answers, r'') := r'.run calls
    (answer :: answers, r'')

theorem run_cons (r : Reader) (call : Call) (calls : List Call) :
    r.run (call :: calls) =
      ((call.run r).1 :: ((call.run r).2.run calls).1, ((call.run r).2.run calls).2) := rfl

theorem IsOver.run_call (h : r.IsOver packet) (call : Call) : (call.run r).2.IsOver packet := by
  rw [Call.run_eq]
  split
  next hle => exact h.advance hle
  next => exact h

/-- A call makes its answer of the bytes behind the reader and moves over them, or leaves the reader
where too few are left. -/
theorem IsOver.call_cases (h : r.IsOver packet) (call : Call) :
    (call.count ≤ r.remaining ∧ call.run r =
      (some (call.answer (packet.slice r.position call.count)), r.advance call.count)) ∨
    (r.remaining < call.count ∧ call.run r = (none, r)) := by
  rw [Call.run_eq, Bytes.slice, ← h.2]
  by_cases hle : call.count ≤ r.remaining
  · exact .inl ⟨hle, if_pos hle⟩
  · exact .inr ⟨Nat.not_le.mp hle, if_neg hle⟩

/-- Calls in a row never leave the byte string. -/
theorem IsOver.run (h : r.IsOver packet) (calls : List Call) : (r.run calls).2.IsOver packet := by
  induction calls generalizing r with
  | nil => exact h
  | cons call calls ih => exact ih (h.run_call call)

end Reader

namespace Item

/-- The call that reads an item. Padding is read as bytes. -/
def call : Item → Reader.Call
  | u8 _ => .u8
  | u16 _ => .u16
  | u32 _ => .u32
  | u64 _ => .u64
  | bytes value => .bytes value.length
  | padding count _ => .bytes count

/-- What the call that reads an item answers: the value that was written. -/
def answer : Item → Reader.Answer
  | u8 value => .u8 value
  | u16 value => .u16 value
  | u32 value => .u32 value
  | u64 value => .u64 value
  | bytes value => .bytes value
  | padding count value => .bytes (List.replicate count value)

/-- An item is as long as its call asks for. -/
@[simp] theorem length_toBytes (item : Item) : item.toBytes.length = item.call.count := by
  cases item <;> simp [toBytes, call, Reader.Call.count]

/-- The call that reads an item makes its value of its bytes. -/
@[simp] theorem answer_toBytes (item : Item) : item.call.answer item.toBytes = item.answer := by
  cases item <;> simp [toBytes, call, Reader.Call.answer, answer, Bytes.toNat]

end Item

/-! ### Written and read -/

namespace Reader

variable {r : Reader} {back : Bytes}

/-- An item is read where its bytes stand. -/
theorem run_call {item : Item} (h : r.rest = item.toBytes ++ back) :
    item.call.run r = (some item.answer, r.advance item.call.count) := by
  have hle : item.call.count ≤ r.remaining := by
    rw [remaining, h, List.length_append, Item.length_toBytes]
    exact Nat.le_add_right ..
  rw [Call.run_eq, if_pos hle, h, List.take_left' item.length_toBytes, Item.answer_toBytes]

/-- Items are read back one by one where their bytes stand in a row. -/
theorem run_map_call {items : List Item} (h : r.rest = items.flatMap Item.toBytes ++ back) :
    r.run (items.map Item.call) =
      (items.map fun item => some item.answer, r.advance (items.flatMap Item.toBytes).length) := by
  induction items generalizing r with
  | nil => rfl
  | cons item items ih =>
    rw [List.flatMap_cons, List.append_assoc] at h
    have hrest : (r.advance item.call.count).rest = items.flatMap Item.toBytes ++ back := by
      rw [advance, h, List.drop_left' item.length_toBytes]
    rw [List.map_cons, run_cons, run_call h, ih hrest, advance_advance, List.flatMap_cons,
      List.length_append, Item.length_toBytes]
    rfl

end Reader

namespace Bytes

variable {bytes replacement : Bytes} {offset i : Nat}

theorem drop_patch (h : offset + replacement.length ≤ bytes.length) :
    (bytes.patch offset replacement).drop offset =
      replacement ++ bytes.drop (offset + replacement.length) := by
  have hfront : (bytes.take offset).length = offset := List.length_take_of_le (by omega)
  rw [patch, List.append_assoc, List.drop_left' hfront]

/-- Overwriting changes no byte outside of what is overwritten. -/
theorem getElem?_patch (h : offset + replacement.length ≤ bytes.length)
    (hi : i < offset ∨ offset + replacement.length ≤ i) :
    (bytes.patch offset replacement)[i]? = bytes[i]? := by
  have hfront : (bytes.take offset).length = offset := List.length_take_of_le (by omega)
  rw [patch, List.append_assoc]
  obtain hbefore | hbehind := hi
  · rw [List.getElem?_append_left (by omega), List.getElem?_take_of_lt hbefore]
  · rw [List.getElem?_append_right (by omega), List.getElem?_append_right (by omega),
      List.getElem?_drop, hfront]
    congr 1
    omega

end Bytes

namespace Item

variable {packet : Bytes} {offset : Nat} {item : Item}

/-- Items in a row stand one behind the other at the end of what was there. -/
theorem foldl_write (packet : Bytes) (items : List Item) :
    items.foldl write packet = packet ++ items.flatMap toBytes := by
  induction items generalizing packet with
  | nil => exact packet.append_nil.symm
  | cons item items ih => rw [List.foldl_cons, ih, write, List.append_assoc, List.flatMap_cons]

/-- Items that were written behind a packet are read back from there, and then nothing is left. -/
theorem run_foldl_write (packet : Bytes) (items : List Item) :
    let reader := Reader.ofBytes (items.foldl write packet)
    (reader.advance packet.length).run (items.map call) =
      (items.map fun item => some item.answer,
        reader.advance (items.foldl write packet).length) := by
  intro reader
  have hrest : (reader.advance packet.length).rest = items.flatMap toBytes ++ [] := by
    rw [Reader.advance, List.append_nil]
    change (items.foldl write packet).drop packet.length = _
    rw [foldl_write, List.drop_left' rfl]
  rw [Reader.run_map_call hrest, Reader.advance_advance, ← List.length_append, ← foldl_write]

/-- An item is read from where it was written over others. -/
theorem run_patch (h : offset + item.call.count ≤ packet.length) :
    let reader := Reader.ofBytes (patch packet offset item)
    item.call.run (reader.advance offset) =
      (some item.answer, reader.advance (offset + item.call.count)) := by
  intro reader
  have hrest : (reader.advance offset).rest =
      item.toBytes ++ packet.drop (offset + item.toBytes.length) :=
    Bytes.drop_patch (by rwa [length_toBytes])
  rw [Reader.run_call hrest, Reader.advance_advance]

end Item

end Stun
