import Stun.Address.Basic
import Stun.Header

/-!
# Transport addresses in packets

An address is written as a zero byte, its family, its port and the bytes that count. Some
attributes lay the magic cookie and the transaction id over port and bytes, so that routers that
rewrite addresses in passing packets leave them alone.

## Main definitions

* `TransportAddress.toValue`, `TransportAddress.ofValue`: an address as a value, and back.
* `portMask`, `addressMask`, `TransportAddress.masked`: the mask, and an address under it.

## Main results

* `TransportAddress.masked_masked`: the mask laid over an address twice gives it back.
-/

namespace Stun

namespace TransportAddress

/-- The number of bytes before those of the address. -/
def headSize : Nat := 4

/-- The value that holds an address. Only the two known families can be written. -/
def toValue (a : TransportAddress) : Except Error Bytes :=
  if a.family = ipv4Family ∨ a.family = ipv6Family then
    .ok ([0, a.family] ++ Bytes.ofUInt16 a.port ++ a.octets)
  else .error (.invalidFamily a.family)

/-- The address in a value. The first byte does not matter, nor do bytes behind the address. A
value without four bytes of address is too short whatever its family. -/
def ofValue (value : Bytes) : Except Error TransportAddress :=
  if value.length < headSize + 4 then .error .valueTooShort
  else
    let family := value.getD 1 0
    let address : TransportAddress :=
      ⟨family, (value.slice 2 2).toUInt16, Bytes.fit 16 (value.drop headSize)⟩
    if family ≠ ipv4Family ∧ family ≠ ipv6Family then .error (.invalidFamily family)
    else if (value.drop headSize).length < address.size then .error .valueTooShort
    else .ok address.canonical

end TransportAddress

/-! ### Addresses under the mask -/

/-- The mask over ports: the upper half of the magic cookie. -/
def portMask : UInt16 := (magicCookie >>> 16).toUInt16

/-- The mask over the bytes of addresses: the magic cookie and the transaction id. -/
def addressMask (id : TransactionId) : Vector UInt8 16 :=
  Bytes.fit 16 (Bytes.ofUInt32 magicCookie ++ id.toList)

namespace TransportAddress

/-- An address under the mask, as far as its bytes count. -/
def masked (id : TransactionId) (a : TransportAddress) : TransportAddress where
  family := a.family
  port := a.port ^^^ portMask
  bytes := Vector.ofFn fun i =>
    if i.val < a.size then a.bytes[i] ^^^ (addressMask id)[i] else a.bytes[i]

@[simp] theorem family_masked (id : TransactionId) (a : TransportAddress) :
    (a.masked id).family = a.family := rfl

@[simp] theorem size_masked (id : TransactionId) (a : TransportAddress) :
    (a.masked id).size = a.size := rfl

theorem getElem_masked (id : TransactionId) (a : TransportAddress) {i : Nat} (h : i < 16) :
    (a.masked id).bytes[i] =
      if i < a.size then a.bytes[i] ^^^ (addressMask id)[i] else a.bytes[i] := by
  simp [masked]

/-- The mask laid over an address twice gives it back. -/
@[simp] theorem masked_masked (id : TransactionId) (a : TransportAddress) :
    (a.masked id).masked id = a := by
  have hport : (a.masked id).port ^^^ portMask = a.port := by
    rw [masked, UInt16.xor_assoc, UInt16.xor_self, UInt16.xor_zero]
  have hbytes : ((a.masked id).masked id).bytes = a.bytes := by
    apply Vector.ext
    intro i hi
    rw [getElem_masked, getElem_masked, size_masked]
    split
    · rw [UInt8.xor_assoc, UInt8.xor_self, UInt8.xor_zero]
    · rfl
  rw [masked, hport]
  exact congrArg _ hbytes

end TransportAddress

end Stun
