import Stun.Bytes.Basic

/-!
# Why an operation fails

One type lists every cause for which a packet cannot be read or written, a key cannot be derived,
or a code cannot be computed. A cause carries the values that explain it. How a cause is reported,
by category, code and text, is a matter of its own.

## Main definitions

* `Error`: the causes.

## Main results

* `Error.map_eq_ok_iff`, `Error.map_eq_error_iff`, `Error.foldlM_concat_eq_ok_iff`: when a result
  that is carried on succeeds and when it fails, and when a run of steps succeeds.
* `Error.foldlM_append_cons_eq_error`, `Error.foldlM_eq_error_iff`: the first step that fails is
  what a run fails with.
-/

namespace Stun

/-- The causes of failure. -/
inductive Error where
  /-- Fewer bytes than a header has. -/
  | headerTooShort
  /-- The header does not carry the magic cookie. -/
  | cookieMismatch
  /-- The message type, its class bits aside, is no known method. -/
  | unknownMethod (value : UInt16)
  /-- The class bits of the message type are no known class. -/
  | unknownClass (value : UInt16)
  /-- An attribute runs past the end of the packet. -/
  | attributeTruncated
  /-- An attribute value is longer than its length field can say. -/
  | valueTooLong (limit length : Nat)
  /-- A text is not UTF-8. -/
  | invalidText
  /-- An attribute value is shorter than its kind needs. -/
  | valueTooShort
  /-- An address is of no known family. -/
  | invalidFamily (value : UInt8)
  /-- A number is written in more bytes than it has. -/
  | wrongSize (limit length : Nat)
  /-- An attribute is of no known kind. -/
  | unknownAttribute (type : UInt16)
  /-- A text is longer than its kind allows. -/
  | textTooLong (limit length : Nat)
  /-- A credential cannot be prepared. -/
  | prepRejected
  /-- A realm without a username gives no long-term key. -/
  | missingUsername
  /-- A hash function or the source of random bytes failed. -/
  | cryptoFailed
  /-- The FINGERPRINT received is not the one computed. -/
  | fingerprintMismatch (received computed : UInt32)
  /-- The MESSAGE-INTEGRITY received is not the one computed. -/
  | integrityMismatch (received computed : Bytes)
  /-- A FINGERPRINT at `position` is not the last of `length`: while reading these are the offset
  and the size of the packet, while writing the index and the number of attributes. -/
  | fingerprintNotLast (length position : Nat)
  /-- An attribute other than FINGERPRINT follows MESSAGE-INTEGRITY. -/
  | attributeAfterIntegrity
  /-- A MESSAGE-INTEGRITY is to be computed and there is no password. -/
  | missingPassword
  /-- The attributes are longer than the length field of the header can say. -/
  | messageTooLarge
  deriving Repr, DecidableEq

/-- A result that is carried on succeeds exactly when the result itself does. -/
theorem Error.map_eq_ok_iff {α β : Type} {f : α → β} {result : Except Error α} {b : β} :
    result.map f = .ok b ↔ ∃ a, result = .ok a ∧ f a = b := by
  cases result with
  | error e => exact ⟨nofun, nofun⟩
  | ok a =>
    constructor
    · intro h
      exact ⟨a, rfl, Except.ok.inj h⟩
    · rintro ⟨_, ⟨⟩, rfl⟩
      rfl

/-- A result that is carried on fails with what the result itself fails with. -/
theorem Error.map_eq_error_iff {α β : Type} {f : α → β} {result : Except Error α} {e : Error} :
    result.map f = .error e ↔ result = .error e := by
  cases result with
  | error e' =>
    constructor <;> intro h
    · exact congrArg _ (Except.error.inj h)
    · exact congrArg _ (Except.error.inj h)
  | ok a => exact ⟨nofun, nofun⟩

/-- A run over some items and one more succeeds exactly when the run over the former does and the
last step behind it. -/
theorem Error.foldlM_concat_eq_ok_iff {α β : Type} {step : β → α → Except Error β} {items : List α}
    {item : α} {b b' : β} :
    (items ++ [item]).foldlM step b = .ok b' ↔
      ∃ c, items.foldlM step b = .ok c ∧ step c item = .ok b' := by
  have hlast (c : β) : [item].foldlM step c = step c item := by
    simp only [List.foldlM_cons, List.foldlM_nil, bind_pure]
  rw [List.foldlM_append]
  cases items.foldlM step b with
  | error e => exact ⟨nofun, nofun⟩
  | ok c =>
    constructor
    · intro h
      exact ⟨c, rfl, (hlast c).symm.trans h⟩
    · rintro ⟨_, ⟨⟩, h⟩
      exact (hlast c).trans h

/-- The first step that fails is what a run fails with. -/
theorem Error.foldlM_append_cons_eq_error {α β : Type} {step : β → α → Except Error β}
    {front : List α} {item : α} {b c : β} {e : Error} (hfront : front.foldlM step b = .ok c)
    (hitem : step c item = .error e) (back : List α) :
    (front ++ item :: back).foldlM step b = .error e := by
  rw [List.foldlM_append, hfront]
  exact congrArg (· >>= fun c => back.foldlM step c) hitem

/-- A run fails with what one of its steps fails with, behind those before it. -/
theorem Error.foldlM_eq_error_iff {α β : Type} {step : β → α → Except Error β} {items : List α}
    {b : β} {e : Error} : items.foldlM step b = .error e ↔
      ∃ front item back c, items = front ++ item :: back ∧ front.foldlM step b = .ok c ∧
        step c item = .error e := by
  constructor
  · intro h
    induction items generalizing b with
    | nil => exact absurd h nofun
    | cons item items ih =>
      rw [List.foldlM_cons] at h
      cases hitem : step b item with
      | error e' =>
        rw [hitem] at h
        exact ⟨[], item, items, b, rfl, rfl, hitem.trans h⟩
      | ok c =>
        rw [hitem] at h
        obtain ⟨front, item', back, c', rfl, hfront, hitem'⟩ := ih h
        refine ⟨item :: front, item', back, c', rfl, ?_, hitem'⟩
        rw [List.foldlM_cons, hitem]
        exact hfront
  · rintro ⟨front, item, back, c, rfl, hfront, hitem⟩
    exact foldlM_append_cons_eq_error hfront hitem back

end Stun
