import Stun.Proofs.Stream

/-!
# Items in the memory of a machine

A machine keeps the bytes of a number in an order of its own, so it turns a number round before it
stores it and after it loads it. It counts in words, where a difference below zero wraps around, and
it touches the memory that it is told to touch. This file reads and writes items on such a machine,
where touching memory outside of a buffer is a fault. There never is one: a number is stored into
the part by which the buffer has grown, and a reader compares what it is asked for with what is left
before it moves, so its position stays within the buffer and the difference that says how much is
left does not wrap. The order of the machine does not show in what is written or read.

## Main definitions

* `ByteOrder`, `ByteOrder.toNetwork`: the order of a machine, and turning a number round in it.
* `Memory.load`, `Memory.store`: touching a buffer, with a fault for what is outside of it.
* `Item.writeInMemory`, `Item.patchInMemory`: writing at the end of a buffer and inside of it.
* `Cursor`, `Cursor.perform`, `Cursor.run`: a reader that counts in words, one call on it, and calls
  in a row.

## Main results

* `Item.foldlM_writeInMemory`, `Item.patchInMemory_eq`: writing in memory is `Item.write` and
  `Item.patch`.
* `Cursor.perform_ofReader`, `Cursor.run_ofReader`: reading in memory is reading.
* `Reader.run_inverts_write`: items are read back, and neither side leaves the buffer.
-/

namespace Stun

/-! ### Numbers -/

/-- The order in which a machine keeps the bytes of a number. -/
inductive ByteOrder where
  /-- The least significant byte first. -/
  | little
  /-- The most significant byte first, as in the network. -/
  | big
  deriving Repr, DecidableEq

namespace ByteOrder

/-- The bytes of a number of some width as they stand in memory. -/
def toMemory (order : ByteOrder) (width n : Nat) : Bytes :=
  match order with
  | little => (Bytes.ofNat width n).reverse
  | big => Bytes.ofNat width n

/-- The number whose bytes stand in memory. -/
def ofMemory (order : ByteOrder) (bytes : Bytes) : Nat :=
  match order with
  | little => Bytes.toNat bytes.reverse
  | big => bytes.toNat

/-- A number with its bytes in the opposite order. -/
def swap (width n : Nat) : Nat := Bytes.toNat (Bytes.ofNat width n).reverse

/-- The number that stands in memory as another one stands in the network, and back. -/
def toNetwork (order : ByteOrder) (width n : Nat) : Nat :=
  match order with
  | little => swap width n
  | big => n

/-- What a machine stores for a number is the number in the order of the network. -/
theorem toMemory_toNetwork (order : ByteOrder) (width n : Nat) :
    order.toMemory width (order.toNetwork width n) = Bytes.ofNat width n := by
  cases order with
  | big => rfl
  | little =>
    have hbytes := Bytes.ofNat_toNat (Bytes.ofNat width n).reverse
    rw [List.length_reverse, Bytes.length_ofNat] at hbytes
    rw [toNetwork, swap, toMemory, hbytes, List.reverse_reverse]

/-- What a machine makes of bytes that it loads is their number in the order of the network. -/
theorem toNetwork_ofMemory (order : ByteOrder) {bytes : Bytes} {width : Nat}
    (hlength : bytes.length = width) :
    order.toNetwork width (order.ofMemory bytes) = bytes.toNat := by
  cases order with
  | big => rfl
  | little =>
    have hbytes := Bytes.ofNat_toNat bytes.reverse
    rw [List.length_reverse, hlength] at hbytes
    rw [toNetwork, swap, ofMemory, hbytes, List.reverse_reverse]

end ByteOrder

/-! ### Buffers -/

/-- Memory was touched that is not all inside of a buffer. -/
structure Overrun where
  /-- The offset of the first byte. -/
  offset : Nat
  /-- The number of bytes. -/
  count : Nat
  deriving Repr, DecidableEq

namespace Memory

variable {buffer bytes : Bytes} {offset count : Nat}

/-- Loads `count` bytes from an offset of a buffer. -/
def load (buffer : Bytes) (offset count : Nat) : Except Overrun Bytes :=
  if offset + count ≤ buffer.length then .ok (buffer.slice offset count)
  else .error ⟨offset, count⟩

/-- Stores bytes at an offset of a buffer. -/
def store (buffer : Bytes) (offset : Nat) (bytes : Bytes) : Except Overrun Bytes :=
  if offset + bytes.length ≤ buffer.length then .ok (buffer.patch offset bytes)
  else .error ⟨offset, bytes.length⟩

theorem load_of_le (h : offset + count ≤ buffer.length) :
    load buffer offset count = .ok (buffer.slice offset count) := if_pos h

theorem store_of_le (h : offset + bytes.length ≤ buffer.length) :
    store buffer offset bytes = .ok (buffer.patch offset bytes) := if_pos h

end Memory

/-! ### Writing -/

namespace Item

variable {order : ByteOrder} {packet : Bytes} {offset : Nat}

/-- The bytes that a machine copies into a buffer for an item. -/
def inMemory (order : ByteOrder) : Item → Bytes
  | u8 value => order.toMemory 1 (order.toNetwork 1 value.toNat)
  | u16 value => order.toMemory 2 (order.toNetwork 2 value.toNat)
  | u32 value => order.toMemory 4 (order.toNetwork 4 value.toNat)
  | u64 value => order.toMemory 8 (order.toNetwork 8 value.toNat)
  | bytes value => value
  | padding count value => List.replicate count value

/-- Writes an item at the end of a buffer. For a number the buffer grows first, and the number is
stored into the part by which it has grown. -/
def writeInMemory (order : ByteOrder) (packet : Bytes) (item : Item) : Except Overrun Bytes :=
  match item with
  | bytes value => .ok (packet ++ value)
  | padding count value => .ok (packet ++ List.replicate count value)
  | _ => Memory.store (packet ++ List.replicate item.call.count 0) packet.length
      (item.inMemory order)

/-- Writes an item over what stands at an offset of a buffer. -/
def patchInMemory (order : ByteOrder) (packet : Bytes) (offset : Nat) (item : Item) :
    Except Overrun Bytes := Memory.store packet offset (item.inMemory order)

/-- A machine copies the bytes of an item, whatever its order is. -/
theorem inMemory_eq (order : ByteOrder) (item : Item) : item.inMemory order = item.toBytes := by
  cases item with
  | u8 value =>
    rw [inMemory, ByteOrder.toMemory_toNetwork, toBytes]
    simp [Bytes.ofNat]
  | u16 value | u32 value | u64 value => exact order.toMemory_toNetwork _ _
  | bytes value | padding count value => rfl

/-- What is stored behind a packet that has grown by as much is written at its end. -/
theorem store_replicate (packet : Bytes) (item : Item) :
    Memory.store (packet ++ List.replicate item.call.count 0) packet.length item.toBytes =
      .ok (write packet item) := by
  have hlength := item.length_toBytes
  rw [Memory.store_of_le (by simp [hlength]), Bytes.patch, List.take_left' rfl, hlength,
    List.drop_of_length_le (by simp), List.append_nil, write]

theorem writeInMemory_eq (order : ByteOrder) (packet : Bytes) (item : Item) :
    writeInMemory order packet item = .ok (write packet item) := by
  -- The equation is proved before the cases, where it holds of every number by definition.
  have hstore := store_replicate packet item
  rw [← inMemory_eq order] at hstore
  cases item with
  | bytes value | padding count value => rfl
  | _ => exact hstore

theorem foldlM_writeInMemory (order : ByteOrder) (packet : Bytes) (items : List Item) :
    items.foldlM (writeInMemory order) packet = .ok (items.foldl write packet) := by
  induction items generalizing packet with
  | nil => rfl
  | cons item items ih =>
    rw [List.foldlM_cons, writeInMemory_eq]
    exact ih (write packet item)

theorem patchInMemory_eq {item : Item} (h : offset + item.call.count ≤ packet.length) :
    patchInMemory order packet offset item = .ok (patch packet offset item) := by
  rw [patchInMemory, inMemory_eq, Memory.store_of_le (by rwa [length_toBytes]), patch]

end Item

/-! ### Reading -/

namespace Reader.Call

/-- What a machine makes of the bytes that a call asks for. -/
def answerInMemory (order : ByteOrder) : Call → Bytes → Answer
  | u8, taken => .u8 (UInt8.ofNat (order.toNetwork 1 (order.ofMemory taken)))
  | u16, taken => .u16 (UInt16.ofNat (order.toNetwork 2 (order.ofMemory taken)))
  | u32, taken => .u32 (UInt32.ofNat (order.toNetwork 4 (order.ofMemory taken)))
  | u64, taken => .u64 (UInt64.ofNat (order.toNetwork 8 (order.ofMemory taken)))
  | bytes _, taken => .bytes taken
  | skip _, _ => .skipped

/-- A machine makes the same of bytes, whatever its order is. -/
theorem answerInMemory_eq (order : ByteOrder) {call : Call} {taken : Bytes}
    (h : taken.length = call.count) : call.answerInMemory order taken = call.answer taken := by
  have hnumber := order.toNetwork_ofMemory h
  cases call with
  | u8 => exact congrArg (fun n => Answer.u8 (UInt8.ofNat n)) hnumber
  | u16 => exact congrArg (fun n => Answer.u16 (UInt16.ofNat n)) hnumber
  | u32 => exact congrArg (fun n => Answer.u32 (UInt32.ofNat n)) hnumber
  | u64 => exact congrArg (fun n => Answer.u64 (UInt64.ofNat n)) hnumber
  | bytes count | skip count => rfl

end Reader.Call

/-- A reader that keeps the whole buffer and counts its position in a word. -/
structure Cursor where
  /-- The whole buffer. -/
  buffer : Bytes
  /-- The number of bytes passed. -/
  position : UInt64
  deriving Repr, DecidableEq

namespace Cursor

open Reader (Call Answer)

/-- The cursor in front of a buffer. -/
def ofBytes (buffer : Bytes) : Cursor := ⟨buffer, 0⟩

/-- The number of bytes that are left, which wraps around where the position is behind the end. -/
def remaining (c : Cursor) : UInt64 := UInt64.ofNat c.buffer.length - c.position

/-- What a call makes of the bytes that it loads. Nothing is loaded to pass over bytes. -/
def load (order : ByteOrder) (c : Cursor) : Call → Except Overrun Answer
  | .skip _ => .ok .skipped
  | call => (Memory.load c.buffer c.position.toNat call.count).map (call.answerInMemory order)

/-- What a call answers, if anything, and the cursor behind it. -/
def perform (order : ByteOrder) (c : Cursor) (call : Call) :
    Except Overrun (Option Answer × Cursor) :=
  if c.remaining < UInt64.ofNat call.count then .ok (none, c)
  else (c.load order call).map fun answer =>
    (some answer, { c with position := c.position + UInt64.ofNat call.count })

/-- What calls in a row answer, and the cursor behind all of them. -/
def run (order : ByteOrder) (c : Cursor) :
    List Call → Except Overrun (List (Option Answer) × Cursor)
  | [] => .ok ([], c)
  | call :: calls =>
    match c.perform order call with
    | .error e => .error e
    | .ok (answer, c') =>
      (c'.run order calls).map fun (answers, c'') => (answer :: answers, c'')

/-- The cursor that stands in a buffer where a reader stands. -/
def ofReader (buffer : Bytes) (r : Reader) : Cursor := ⟨buffer, UInt64.ofNat r.position⟩

variable {order : ByteOrder} {buffer : Bytes} {r : Reader} {call : Call} {calls : List Call}

theorem toNat_position_ofReader (h : r.IsOver buffer) (hbuffer : buffer.length < UInt64.size) :
    (ofReader buffer r).position.toNat = r.position :=
  UInt64.toNat_ofNat_of_lt' (Nat.lt_of_le_of_lt h.position_le hbuffer)

/-- The difference that says how much is left does not wrap. -/
theorem toNat_remaining_ofReader (h : r.IsOver buffer) (hbuffer : buffer.length < UInt64.size) :
    (ofReader buffer r).remaining.toNat = r.remaining := by
  have hposition := toNat_position_ofReader h hbuffer
  have hlength : (UInt64.ofNat buffer.length).toNat = buffer.length :=
    UInt64.toNat_ofNat_of_lt' hbuffer
  have hle : (ofReader buffer r).position ≤ UInt64.ofNat buffer.length := by
    rw [UInt64.le_iff_toNat_le, hposition, hlength]
    exact h.position_le
  calc (ofReader buffer r).remaining.toNat
      = (UInt64.ofNat buffer.length).toNat - (ofReader buffer r).position.toNat :=
        UInt64.toNat_sub_of_le _ _ hle
    _ = buffer.length - r.position := by rw [hposition, hlength]
    _ = r.remaining := h.remaining_eq.symm

/-- A call loads what it asks for, without a fault where this is left. -/
theorem load_ofReader (h : r.IsOver buffer) (hbuffer : buffer.length < UInt64.size)
    (hle : call.count ≤ r.remaining) :
    (ofReader buffer r).load order call = .ok (call.answer (r.rest.take call.count)) := by
  have hin : r.position + call.count ≤ buffer.length := by
    have hremaining := h.remaining_eq
    have hposition := h.position_le
    omega
  have hload : (Memory.load buffer (ofReader buffer r).position.toNat call.count).map
      (call.answerInMemory order) = .ok (call.answer (r.rest.take call.count)) := by
    rw [toNat_position_ofReader h hbuffer, Memory.load_of_le hin, Bytes.slice, ← h.2, Except.map,
      Call.answerInMemory_eq order (List.length_take_of_le hle)]
  cases call with
  | skip count => rfl
  | _ => exact hload

/-- One call on a cursor does what it does on a reader. -/
theorem perform_ofReader (h : r.IsOver buffer) (hbuffer : buffer.length < UInt64.size)
    (hcount : call.count < UInt64.size) :
    (ofReader buffer r).perform order call =
      .ok ((call.run r).1, ofReader buffer (call.run r).2) := by
  have htest : (ofReader buffer r).remaining < UInt64.ofNat call.count ↔
      r.remaining < call.count := by
    rw [UInt64.lt_iff_toNat_lt, toNat_remaining_ofReader h hbuffer,
      UInt64.toNat_ofNat_of_lt' hcount]
  rw [perform, Call.run_eq]
  by_cases hle : call.count ≤ r.remaining
  · rw [if_neg (mt htest.mp (Nat.not_lt.mpr hle)), if_pos hle, load_ofReader h hbuffer hle]
    simp [Except.map, ofReader, Reader.advance]
  · rw [if_pos (htest.mpr (Nat.not_le.mp hle)), if_neg hle]

/-- Calls in a row on a cursor do what they do on a reader. -/
theorem run_ofReader (h : r.IsOver buffer) (hbuffer : buffer.length < UInt64.size)
    (hcounts : ∀ call ∈ calls, call.count < UInt64.size) :
    (ofReader buffer r).run order calls =
      .ok ((r.run calls).1, ofReader buffer (r.run calls).2) := by
  induction calls generalizing r with
  | nil => rfl
  | cons call calls ih =>
    obtain ⟨hcount, hcounts⟩ := List.forall_mem_cons.mp hcounts
    rw [run, perform_ofReader h hbuffer hcount]
    simp only [ih (h.run_call call) hcounts]
    rfl

/-- Calls in a row never touch memory outside of a buffer, and the words that count what is passed
and what is left are the numbers that a reader counts with. -/
theorem exists_run (order : ByteOrder) (hbuffer : buffer.length < UInt64.size)
    (hcounts : ∀ call ∈ calls, call.count < UInt64.size) :
    ∃ c : Cursor, (ofBytes buffer).run order calls =
        .ok (((Reader.ofBytes buffer).run calls).1, c) ∧
      c.buffer = buffer ∧ c.position.toNat = ((Reader.ofBytes buffer).run calls).2.position ∧
      c.remaining.toNat = ((Reader.ofBytes buffer).run calls).2.remaining := by
  have hstart := Reader.isOver_ofBytes buffer
  have hend := hstart.run calls
  exact ⟨_, run_ofReader hstart hbuffer hcounts, rfl, toNat_position_ofReader hend hbuffer,
    toNat_remaining_ofReader hend hbuffer⟩

end Cursor

/-! ### Both sides -/

/-- Items that are written behind a packet leave it in front and are read back from there, and then
nothing is left. An item that is written over others changes nothing else and is read back, too.
Whatever calls are made on a reader, it stands inside its buffer, and one more call succeeds exactly
when enough bytes are left, or else leaves it where it is. In memory all of this happens without a
fault, in every order of bytes, and no word wraps. -/
theorem Reader.run_inverts_write :
    (∀ (packet : Bytes) (items : List Item),
      let written := items.foldl Item.write packet
      let reader := (ofBytes written).advance packet.length
      packet <+: written ∧
      (reader.run (items.map Item.call)).1 = (items.map fun item => some item.answer) ∧
      (reader.run (items.map Item.call)).2.position = written.length ∧
      (reader.run (items.map Item.call)).2.isEmpty = true) ∧
    (∀ (packet : Bytes) (offset : Nat) (item : Item), offset + item.call.count ≤ packet.length →
      let patched := Item.patch packet offset item
      patched.length = packet.length ∧
      (∀ i, i < offset ∨ offset + item.call.count ≤ i → patched[i]? = packet[i]?) ∧
      (item.call.run ((ofBytes patched).advance offset)).1 = some item.answer) ∧
    (∀ (buffer : Bytes) (calls : List Call) (call : Call),
      let r := ((ofBytes buffer).run calls).2
      let r' := (call.run r).2
      r.position ≤ buffer.length ∧ r.remaining = buffer.length - r.position ∧
      r.position ≤ r'.position ∧ ((call.run r).1.isSome ↔ call.count ≤ r.remaining) ∧
      (call.count ≤ r.remaining →
        (call.run r).1 = some (call.answer (buffer.slice r.position call.count)) ∧
        r'.position = r.position + call.count) ∧
      ((call.run r).1 = none → r' = r)) ∧
    (∀ (order : ByteOrder) (packet : Bytes),
      (∀ items : List Item,
        items.foldlM (Item.writeInMemory order) packet = .ok (items.foldl Item.write packet)) ∧
      ∀ (offset : Nat) (item : Item), offset + item.call.count ≤ packet.length →
        Item.patchInMemory order packet offset item = .ok (Item.patch packet offset item)) ∧
    ∀ (order : ByteOrder) (buffer : Bytes) (calls : List Call), buffer.length < UInt64.size →
      (∀ call ∈ calls, call.count < UInt64.size) →
      ∃ c : Cursor, (Cursor.ofBytes buffer).run order calls =
          .ok (((ofBytes buffer).run calls).1, c) ∧
        c.buffer = buffer ∧ c.position.toNat = ((ofBytes buffer).run calls).2.position ∧
        c.remaining.toNat = ((ofBytes buffer).run calls).2.remaining := by
  refine ⟨fun packet items => ?_, fun packet offset item h => ?_, fun buffer calls call => ?_,
    fun order packet => ⟨Item.foldlM_writeInMemory order packet,
      fun offset item => Item.patchInMemory_eq⟩,
    fun order buffer calls => Cursor.exists_run order⟩
  · intro written reader
    have hrun : reader.run (items.map Item.call) =
        (items.map fun item => some item.answer, (ofBytes written).advance written.length) :=
      Item.run_foldl_write packet items
    rw [hrun]
    exact ⟨⟨_, (Item.foldl_write packet items).symm⟩, rfl, Nat.zero_add _,
      List.isEmpty_iff.mpr (List.drop_length ..)⟩
  · intro patched
    rw [← Item.length_toBytes] at h ⊢
    exact ⟨Bytes.length_patch h, fun i => Bytes.getElem?_patch h,
      congrArg Prod.fst (Item.run_patch (by rwa [← Item.length_toBytes]))⟩
  · intro r r'
    have hover : r.IsOver buffer := (isOver_ofBytes buffer).run calls
    refine ⟨hover.position_le, hover.remaining_eq, ?_⟩
    obtain ⟨hle, hrun⟩ | ⟨hlt, hrun⟩ := hover.call_cases call
    · have hbehind : r' = r.advance call.count := congrArg Prod.snd hrun
      rw [hbehind, hrun]
      exact ⟨Nat.le_add_right .., iff_of_true rfl hle, fun _ => ⟨rfl, rfl⟩, nofun⟩
    · have hbehind : r' = r := congrArg Prod.snd hrun
      rw [hbehind, hrun]
      exact ⟨Nat.le_refl _, iff_of_false nofun (Nat.not_le.mpr hlt),
        fun hle => absurd hle (Nat.not_le.mpr hlt), fun _ => rfl⟩

/-- The calls read a number, ask for more bytes than there can be, and pass over the last byte. -/
def greedyCalls : List Reader.Call := [.u16, .bytes (UInt64.size - 1), .skip 1]

theorem Reader.run_inverts_write_greedyCalls :
    let packet : Bytes := [0x80, 0x28, 0x00]
    let item : Item := .u16 0x2112
    1 + item.call.count ≤ packet.length ∧
    (item.call.run ((ofBytes (Item.patch packet 1 item)).advance 1)).1 = some item.answer ∧
    packet.length < UInt64.size ∧ (∀ call ∈ greedyCalls, call.count < UInt64.size) ∧
    ∃ c : Cursor, (Cursor.ofBytes packet).run .little greedyCalls =
        .ok ([some (.u16 0x8028), none, some .skipped], c) ∧
      c.buffer = packet ∧ c.position.toNat = 3 ∧ c.remaining.toNat = 0 := by
  intro packet item
  obtain ⟨-, hpatch, -, -, hmemory⟩ := run_inverts_write
  have hin : 1 + item.call.count ≤ packet.length := by decide
  have hlength : packet.length < UInt64.size := by decide
  have hcounts : ∀ call ∈ greedyCalls, call.count < UInt64.size := by decide
  exact ⟨hin, (hpatch packet 1 item hin).2.2, hlength, hcounts,
    hmemory .little packet greedyCalls hlength hcounts⟩

end Stun
