/-!
# Byte strings and network order

A packet is a list of bytes, and every number in it is written most significant byte first. This
file holds the two directions between numbers and byte strings, at any width, and the few cuts of
byte strings that the packet formats share.

## Main definitions

* `Bytes`: byte strings, with `Bytes.ofString` for the UTF-8 bytes of a text.
* `Bytes.ofNat`, `Bytes.toNat`: a number as `width` bytes, and the number that bytes stand for;
  `Bytes.ofUInt16` and `Bytes.toUInt16` and their like fix the width, and `Bytes.ofUInt16List` and
  `Bytes.toUInt16List` take numbers in a row.
* `Bytes.capacity`: how many numbers fit into a width.
* `Bytes.fit`: a byte string cut or filled with zeros to a fixed size.
* `Bytes.slice`, `Bytes.patch`: reading and overwriting inside a byte string.

## Main results

* `Bytes.toNat_ofNat`, `Bytes.ofNat_toNat`: the two directions undo each other.
* `Bytes.toUInt16List_ofUInt16List`, `Bytes.ofUInt16List_toUInt16List`: and so they do for numbers
  in a row.
* `Bytes.toList_fit`, `Bytes.fit_toList`: a byte string of the right size is kept by `Bytes.fit`.
* `Bytes.length_patch`: overwriting inside a byte string keeps its size.
-/

namespace Stun

/-- A byte string. -/
abbrev Bytes := List UInt8

namespace Bytes

/-- The UTF-8 bytes of a text. -/
def ofString (text : String) : Bytes := text.toUTF8.toList

/-! ### Numbers, most significant byte first -/

/-- The number that a byte string stands for, most significant byte first. -/
def toNat (bytes : Bytes) : Nat := bytes.foldl (fun n b => n * 256 + b.toNat) 0

/-- The last `width` base-256 digits of a number, most significant first. -/
def ofNat : Nat → Nat → Bytes
  | 0, _ => []
  | width + 1, n => ofNat width (n / 256) ++ [UInt8.ofNat n]

/-- How many numbers fit into `width` bytes. -/
def capacity : Nat → Nat
  | 0 => 1
  | width + 1 => capacity width * 256

@[simp] theorem toNat_nil : toNat [] = 0 := rfl

@[simp] theorem toNat_append_singleton (bytes : Bytes) (b : UInt8) :
    toNat (bytes ++ [b]) = toNat bytes * 256 + b.toNat := by
  simp [toNat]

@[simp] theorem length_ofNat (width n : Nat) : (ofNat width n).length = width := by
  induction width generalizing n with
  | zero => rfl
  | succ width ih => simp [ofNat, ih]

/-- Writing a number and reading it back loses only the digits that did not fit. -/
theorem toNat_ofNat (width n : Nat) : toNat (ofNat width n) = n % capacity width := by
  induction width generalizing n with
  | zero => simp [ofNat, capacity, Nat.mod_one]
  | succ width ih =>
    rw [ofNat, toNat_append_singleton, ih, capacity, Nat.mul_comm (capacity width), Nat.mod_mul,
      UInt8.toNat_ofNat']
    omega

/-- Every byte string is what writing its number at its own width gives. -/
theorem ofNat_toNat (bytes : Bytes) : ofNat bytes.length (toNat bytes) = bytes := by
  suffices h : ∀ n (bs : Bytes), bs.length = n → ofNat n (toNat bs) = bs from h _ bytes rfl
  intro n
  induction n with
  | zero => intro bs h; simp [List.length_eq_zero_iff.mp h, ofNat]
  | succ n ih =>
    intro bs h
    obtain ⟨front, b, rfl⟩ := List.eq_nil_or_concat bs |>.resolve_left (by rintro rfl; simp at h)
    have hb := b.toNat_lt
    have hfront : front.length = n := by simpa using h
    have hdiv : (toNat front * 256 + b.toNat) / 256 = toNat front := by omega
    have hlast : UInt8.ofNat (toNat front * 256 + b.toNat) = b := by
      apply UInt8.toNat.inj
      rw [UInt8.toNat_ofNat']
      omega
    simp [ofNat, hdiv, hlast, ih front hfront]

theorem capacity_pos (width : Nat) : 0 < capacity width := by
  induction width with
  | zero => decide
  | succ width ih => simp only [capacity]; omega

/-- A byte string stands for one of the numbers that fit into its width. -/
theorem toNat_lt (bytes : Bytes) : toNat bytes < capacity bytes.length := by
  have h := toNat_ofNat bytes.length (toNat bytes)
  rw [ofNat_toNat] at h
  rw [h]
  exact Nat.mod_lt _ (capacity_pos _)

/-- A 16-bit number as two bytes. -/
def ofUInt16 (value : UInt16) : Bytes := ofNat 2 value.toNat

/-- A 32-bit number as four bytes. -/
def ofUInt32 (value : UInt32) : Bytes := ofNat 4 value.toNat

/-- A 64-bit number as eight bytes. -/
def ofUInt64 (value : UInt64) : Bytes := ofNat 8 value.toNat

/-- The 16-bit number that two bytes stand for. -/
def toUInt16 (bytes : Bytes) : UInt16 := UInt16.ofNat (toNat bytes)

/-- The 32-bit number that four bytes stand for. -/
def toUInt32 (bytes : Bytes) : UInt32 := UInt32.ofNat (toNat bytes)

/-- The 64-bit number that eight bytes stand for. -/
def toUInt64 (bytes : Bytes) : UInt64 := UInt64.ofNat (toNat bytes)

/-- Some 16-bit numbers, two bytes each. -/
def ofUInt16List (values : List UInt16) : Bytes := values.flatMap ofUInt16

/-- The 16-bit numbers that two bytes each stand for. An odd byte at the end does not count. -/
def toUInt16List : Bytes → List UInt16
  | high :: low :: rest => toUInt16 [high, low] :: toUInt16List rest
  | _ => []

@[simp] theorem length_ofUInt16 (value : UInt16) : (ofUInt16 value).length = 2 := length_ofNat 2 _

@[simp] theorem length_ofUInt32 (value : UInt32) : (ofUInt32 value).length = 4 := length_ofNat 4 _

@[simp] theorem length_ofUInt64 (value : UInt64) : (ofUInt64 value).length = 8 := length_ofNat 8 _

@[simp] theorem toUInt16_ofUInt16 (value : UInt16) : toUInt16 (ofUInt16 value) = value := by
  have h := value.toNat_lt
  rw [toUInt16, ofUInt16, toNat_ofNat, Nat.mod_eq_of_lt (by simp only [capacity]; omega),
     UInt16.ofNat_toNat]

@[simp] theorem toUInt32_ofUInt32 (value : UInt32) : toUInt32 (ofUInt32 value) = value := by
  have h := value.toNat_lt
  rw [toUInt32, ofUInt32, toNat_ofNat, Nat.mod_eq_of_lt (by simp only [capacity]; omega),
     UInt32.ofNat_toNat]

@[simp] theorem toUInt64_ofUInt64 (value : UInt64) : toUInt64 (ofUInt64 value) = value := by
  have h := value.toNat_lt
  rw [toUInt64, ofUInt64, toNat_ofNat, Nat.mod_eq_of_lt (by simp only [capacity]; omega),
     UInt64.ofNat_toNat]

/-- Two bytes are what writing their number gives. -/
theorem ofUInt16_toUInt16 {bytes : Bytes} (h : bytes.length = 2) :
    ofUInt16 (toUInt16 bytes) = bytes := by
  have hlt := toNat_lt bytes
  rw [h] at hlt
  simp only [capacity] at hlt
  rw [ofUInt16, toUInt16, UInt16.toNat_ofNat', Nat.mod_eq_of_lt (by omega), ← h, ofNat_toNat]

/-- Four bytes are what writing their number gives. -/
theorem ofUInt32_toUInt32 {bytes : Bytes} (h : bytes.length = 4) :
    ofUInt32 (toUInt32 bytes) = bytes := by
  have hlt := toNat_lt bytes
  rw [h] at hlt
  simp only [capacity] at hlt
  rw [ofUInt32, toUInt32, UInt32.toNat_ofNat', Nat.mod_eq_of_lt (by omega), ← h, ofNat_toNat]

/-- Eight bytes are what writing their number gives. -/
theorem ofUInt64_toUInt64 {bytes : Bytes} (h : bytes.length = 8) :
    ofUInt64 (toUInt64 bytes) = bytes := by
  have hlt := toNat_lt bytes
  rw [h] at hlt
  simp only [capacity] at hlt
  rw [ofUInt64, toUInt64, UInt64.toNat_ofNat', Nat.mod_eq_of_lt (by omega), ← h, ofNat_toNat]

@[simp] theorem length_ofUInt16List (values : List UInt16) :
    (ofUInt16List values).length = 2 * values.length := by
  induction values with
  | nil => rfl
  | cons value values ih =>
    rw [ofUInt16List] at ih ⊢
    rw [List.flatMap_cons, List.length_append, length_ofUInt16, ih, List.length_cons]
    omega

theorem toUInt16List_append_ofUInt16 (value : UInt16) (rest : Bytes) :
    toUInt16List (ofUInt16 value ++ rest) = value :: toUInt16List rest := by
  have h : ofUInt16 value = [UInt8.ofNat (value.toNat / 256), UInt8.ofNat value.toNat] := rfl
  rw [h, List.cons_append, List.cons_append, List.nil_append, toUInt16List, ← h,
    toUInt16_ofUInt16]

@[simp] theorem toUInt16List_ofUInt16List (values : List UInt16) :
    toUInt16List (ofUInt16List values) = values := by
  induction values with
  | nil => rfl
  | cons value values ih =>
    have h : ofUInt16List (value :: values) = ofUInt16 value ++ ofUInt16List values := rfl
    rw [h, toUInt16List_append_ofUInt16, ih]

/-- Bytes in pairs are what writing their numbers gives. -/
theorem ofUInt16List_toUInt16List {bytes : Bytes} (h : bytes.length % 2 = 0) :
    ofUInt16List (toUInt16List bytes) = bytes := by
  fun_induction toUInt16List bytes with
  | case1 high low rest ih =>
    have hrest : rest.length % 2 = 0 := by
      simp only [List.length_cons] at h
      omega
    have hpair : ofUInt16 (toUInt16 [high, low]) = [high, low] := ofUInt16_toUInt16 rfl
    rw [ofUInt16List] at ih ⊢
    rw [List.flatMap_cons, ih hrest, hpair]
    rfl
  | case2 bytes hshort =>
    match bytes with
    | [] => rfl
    | [_] => simp at h
    | _ :: _ :: _ => exact absurd rfl (hshort _ _ _)

/-! ### Cuts -/

/-- The `count` bytes from `offset` on, fewer where the byte string ends before. -/
def slice (bytes : Bytes) (offset count : Nat) : Bytes := (bytes.drop offset).take count

/-- Of three byte strings in a row the second is cut out at the length of the first. -/
theorem slice_append {front middle back : Bytes} {offset count : Nat}
    (hfront : front.length = offset) (hmiddle : middle.length = count) :
    (front ++ (middle ++ back)).slice offset count = middle := by
  rw [slice, List.drop_left' hfront, List.take_left' hmiddle]

/-- A byte string with the bytes from `offset` on overwritten. -/
def patch (bytes : Bytes) (offset : Nat) (replacement : Bytes) : Bytes :=
  bytes.take offset ++ replacement ++ bytes.drop (offset + replacement.length)

theorem length_patch {bytes replacement : Bytes} {offset : Nat}
    (h : offset + replacement.length ≤ bytes.length) :
    (bytes.patch offset replacement).length = bytes.length := by
  simp only [patch, List.length_append, List.length_take, List.length_drop]
  omega

/-- The first `size` bytes, filled up with zeros where there are fewer. -/
def fit (size : Nat) (bytes : Bytes) : Vector UInt8 size := Vector.ofFn fun i => bytes.getD i 0

theorem toList_fit {size : Nat} {bytes : Bytes} (h : bytes.length = size) :
    (fit size bytes).toList = bytes := by
  apply List.ext_getElem
  · simp [h]
  · intro i hi hi'
    simp [fit, List.getElem?_eq_getElem hi']

@[simp] theorem fit_toList {size : Nat} (bytes : Vector UInt8 size) :
    fit size bytes.toList = bytes := by
  ext i hi
  simp [fit]

end Bytes

end Stun
