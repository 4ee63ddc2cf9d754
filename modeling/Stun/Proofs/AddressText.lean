import Mathlib.Data.List.Basic
import Stun.Address.Text
import Stun.Proofs.IpText

/-!
# Addresses are read back from their text

The host text of an IPv4 or IPv6 address is read as the address with zeros for the bytes that do
not count. IPv4 is tried first, and no text of eight groups is read as IPv4, since it has a colon.

In the text with the port the host text ends at the colon for IPv4 and at the closing bracket for
IPv6, and IPv6 alone has brackets. So the text tells the host text and the port, and two addresses
have one text exactly when they are equal in the sense of `==`.

## Main results

* `TransportAddress.parse?_hostText`: the address that the host text is read as.
* `TransportAddress.hostText_and_port_of_text_eq`: the text tells the host text and the port.
* `TransportAddress.text_reads_back`: the form of the texts, reading back, and equality.
-/

namespace Stun.TransportAddress

variable {a b : TransportAddress} {c : UInt8}

/-! ### Host texts -/

theorem ne_ipv4Family_of_eq (h : a.family = ipv6Family) : a.family ≠ ipv4Family := by
  rw [h]
  decide

theorem hostText_of_ipv4 (h : a.family = ipv4Family) : a.hostText = Ipv4Text.print a.octets := by
  rw [hostText, if_pos h, octets, size, if_pos h]

theorem hostText_of_ne_ipv4 (h : a.family ≠ ipv4Family) :
    a.hostText = Ipv6Text.print a.groups := by
  rw [hostText, if_neg h]

theorem length_octets_of_ipv4 (h : a.family = ipv4Family) : a.octets.length = 4 := by
  rw [length_octets, size, if_pos h]

theorem ofUInt16List_groups (a : TransportAddress) :
    Bytes.ofUInt16List a.groups = a.bytes.toList :=
  Bytes.ofUInt16List_toUInt16List (by simp)

theorem length_groups (a : TransportAddress) : a.groups.length = 8 := by
  have h := congrArg List.length a.ofUInt16List_groups
  rw [Bytes.length_ofUInt16List, Vector.length_toList] at h
  omega

/-- All bytes count for a family other than IPv4. -/
theorem canonical_of_ne_ipv4 (h : a.family ≠ ipv4Family) : a.canonical = a := by
  have hoctets : a.octets = a.bytes.toList := by
    rw [octets, size, if_neg h, List.take_of_length_le (by simp)]
  rw [canonical, hoctets, Bytes.fit_toList]

theorem isHostChar_of_mem_hostText (h : c ∈ a.hostText) : isHostChar c = true := by
  by_cases ha : a.family = ipv4Family
  · rw [hostText_of_ipv4 ha] at h
    exact Ipv4Text.isHostChar_of_mem_print h
  · rw [hostText_of_ne_ipv4 ha] at h
    exact Ipv6Text.isHostChar_of_mem_print a.length_groups h

/-- A host text is never refused for its size. -/
theorem length_hostText_lt (a : TransportAddress) : a.hostText.length < hostTextLimit := by
  by_cases ha : a.family = ipv4Family
  · have hle := Ipv4Text.length_print_le a.octets
    rw [length_octets_of_ipv4 ha] at hle
    rw [hostText_of_ipv4 ha]
    exact Nat.lt_of_le_of_lt hle (by decide)
  · rw [hostText_of_ne_ipv4 ha]
    exact Ipv6Text.length_print_lt a.length_groups

/-- Nothing of a host text stands behind a zero byte. -/
theorem takeWhile_hostText (a : TransportAddress) :
    a.hostText.takeWhile (· ≠ 0) = a.hostText := by
  refine List.takeWhile_eq_self_iff.mpr fun c hc => ?_
  have hchar := isHostChar_of_mem_hostText hc
  rw [decide_eq_true_iff]
  rintro rfl
  exact absurd hchar (by decide)

/-- A host text is read as the address with zeros for the bytes that do not count. -/
theorem parse?_hostText (ha : a.family = ipv4Family ∨ a.family = ipv6Family) :
    parse? a.hostText a.port = some a.canonical := by
  rw [parse?, if_neg (Nat.not_le.mpr a.length_hostText_lt)]
  dsimp only
  rw [takeWhile_hostText]
  obtain ha | ha := ha
  · have hlen := length_octets_of_ipv4 ha
    rw [hostText_of_ipv4 ha, Ipv4Text.parse?_print hlen]
    dsimp only
    rw [ofOctets, Bytes.toList_fit hlen, canonical, ha]
  · have hne := ne_ipv4Family_of_eq ha
    have hcolon : Ascii.colon ∈ a.hostText := by
      rw [hostText_of_ne_ipv4 hne]
      exact Ipv6Text.colon_mem_print a.length_groups
    rw [Ipv4Text.parse?_eq_none_of_mem hcolon (by decide) (by decide)]
    dsimp only
    rw [hostText_of_ne_ipv4 hne, Ipv6Text.parse?_print a.length_groups, Option.map_some,
      ofUInt16List_groups, Bytes.fit_toList, canonical_of_ne_ipv4 hne, ← ha]

/-- The bytes that do not count do not show in the text. -/
theorem text_canonical (a : TransportAddress) : a.canonical.text = a.text := by
  by_cases ha : a.family = ipv4Family
  · have ha' : a.canonical.family = ipv4Family := by rw [family_canonical, ha]
    simp only [text, hostText_of_ipv4 ha, hostText_of_ipv4 ha', octets_canonical, family_canonical,
      port_canonical]
  · rw [canonical_of_ne_ipv4 ha]

/-! ### Texts with the port -/

theorem text_of_ipv4 (ha : a.family = ipv4Family) :
    a.text = a.hostText ++ Ascii.colon :: Numeral.ofNat 10 a.port.toNat := by
  rw [text, if_pos ha]

theorem text_of_ne_ipv4 (ha : a.family ≠ ipv4Family) :
    a.text = Ascii.openBracket :: a.hostText ++ [Ascii.closeBracket, Ascii.colon] ++
      Numeral.ofNat 10 a.port.toNat := by
  simp [text, ha]

theorem port_of_numeral_eq (h : Numeral.ofNat 10 a.port.toNat = Numeral.ofNat 10 b.port.toNat) :
    a.port = b.port := by
  have hread := congrArg (Numeral.toNat? 10) h
  rw [Numeral.toNat?_ofNat (by decide) (by decide), Numeral.toNat?_ofNat (by decide) (by decide)]
    at hread
  exact UInt16.toNat_inj.mp (Option.some.inj hread)

theorem not_mem_numeral (hc : Numeral.digit? c = none) (port : UInt16) :
    c ∉ Numeral.ofNat 10 port.toNat :=
  Numeral.not_mem_ofNat (by decide) (by decide) hc

theorem colon_not_mem_hostText (ha : a.family = ipv4Family) : Ascii.colon ∉ a.hostText := by
  intro hmem
  rw [hostText_of_ipv4 ha] at hmem
  obtain h | h := Ipv4Text.cases_of_mem_print hmem
  · exact absurd h (by decide)
  · exact absurd h (by decide)

theorem not_mem_hostText (hc : isHostChar c = false) : c ∉ a.hostText := by
  intro hmem
  rw [isHostChar_of_mem_hostText hmem] at hc
  cases hc

/-- The text of an IPv4 address has no brackets. -/
theorem openBracket_mem_text_iff : Ascii.openBracket ∈ a.text ↔ a.family ≠ ipv4Family := by
  constructor
  · intro hmem ha
    rw [text_of_ipv4 ha] at hmem
    obtain h | h := List.mem_append.mp hmem
    · exact not_mem_hostText (by decide) h
    · obtain h | h := List.mem_cons.mp h
      · exact absurd h (by decide)
      · exact not_mem_numeral (by decide) a.port h
  · intro ha
    rw [text_of_ne_ipv4 ha]
    exact List.mem_cons_self

/-- The text tells the host text and the port. -/
theorem hostText_and_port_of_text_eq (h : a.text = b.text) :
    a.hostText = b.hostText ∧ a.port = b.port := by
  have hfamily : a.family ≠ ipv4Family ↔ b.family ≠ ipv4Family := by
    rw [← openBracket_mem_text_iff, h, openBracket_mem_text_iff]
  by_cases ha : a.family = ipv4Family
  · have hb : b.family = ipv4Family := not_not.mp (mt hfamily.mpr (not_not.mpr ha))
    rw [text_of_ipv4 ha, text_of_ipv4 hb, List.append_cons_inj_of_notMem
      (colon_not_mem_hostText ha) (not_mem_numeral (by decide) a.port)] at h
    exact ⟨h.1, port_of_numeral_eq h.2.2⟩
  · have hport : Ascii.closeBracket ∉ Ascii.colon :: Numeral.ofNat 10 a.port.toNat :=
      List.not_mem_cons_of_ne_of_not_mem (by decide) (not_mem_numeral (by decide) a.port)
    rw [text_of_ne_ipv4 ha, text_of_ne_ipv4 (hfamily.mp ha)] at h
    simp only [List.cons_append, List.append_assoc, List.nil_append, List.cons.injEq,
      true_and] at h
    rw [List.append_cons_inj_of_notMem (not_mem_hostText (by decide)) hport] at h
    exact ⟨h.1, port_of_numeral_eq (List.cons.inj h.2.2).2⟩

/-- An IPv4 address is written as its host text, a colon and the port, an IPv6 address with brackets
around the host text. The host text stays below the size at which it would be refused, and it is
read with the port as an equal address. Two addresses of these families have one text exactly when
they are equal. -/
theorem text_reads_back (a : TransportAddress)
    (ha : a.family = ipv4Family ∨ a.family = ipv6Family) :
    (a.family = ipv4Family →
        a.text = a.hostText ++ [Ascii.colon] ++ Numeral.ofNat 10 a.port.toNat) ∧
      (a.family = ipv6Family →
        a.text = [Ascii.openBracket] ++ a.hostText ++ [Ascii.closeBracket, Ascii.colon] ++
          Numeral.ofNat 10 a.port.toNat) ∧
      a.hostText.length < hostTextLimit ∧
      (∃ b, parse? a.hostText a.port = some b ∧ (b == a) = true) ∧
      ∀ b : TransportAddress, b.family = ipv4Family ∨ b.family = ipv6Family →
        (a.text = b.text ↔ (a == b) = true) := by
  refine ⟨fun h => ?_, fun h => text_of_ne_ipv4 (ne_ipv4Family_of_eq h), a.length_hostText_lt,
    ⟨a.canonical, parse?_hostText ha, beq_iff.mpr a.canonical_canonical⟩, fun b hb => ?_⟩
  · rw [text_of_ipv4 h, List.append_assoc]
    rfl
  · rw [beq_iff]
    constructor
    · intro htext
      obtain ⟨hhost, hport⟩ := hostText_and_port_of_text_eq htext
      have hread := parse?_hostText ha
      rw [hhost, hport, parse?_hostText hb] at hread
      exact (Option.some.inj hread).symm
    · intro hcanonical
      rw [← text_canonical a, hcanonical, text_canonical b]

/-- An IPv6 address in which the last two groups are printed as an IPv4 address. -/
def mappedAddress : TransportAddress := ofGroups #v[0, 0, 0, 0, 0, 0xFFFF, 0x0102, 0x0304] 3478

/-- An address with a dotted end is read back, and its text differs from that of the IPv4 address
with the same end. -/
theorem text_reads_back_mappedAddress :
    (mappedAddress.family = ipv4Family ∨ mappedAddress.family = ipv6Family) ∧
      mappedAddress.text = Bytes.ofString "[::ffff:1.2.3.4]:3478" ∧
      (∃ b, parse? (Bytes.ofString "::ffff:1.2.3.4") 3478 = some b ∧
        (b == mappedAddress) = true) ∧
      mappedAddress.text ≠ (ofOctets #v[1, 2, 3, 4] 3478).text := by
  have hfamily : mappedAddress.family = ipv4Family ∨ mappedAddress.family = ipv6Family := .inr rfl
  have hhost : mappedAddress.hostText = Bytes.ofString "::ffff:1.2.3.4" := by decide +kernel
  obtain ⟨-, htext, -, hread, hiff⟩ := text_reads_back mappedAddress hfamily
  refine ⟨hfamily, ?_, ?_, ?_⟩
  · rw [htext rfl, hhost]
    decide +kernel
  · rwa [hhost] at hread
  · rw [ne_eq, hiff (ofOctets #v[1, 2, 3, 4] 3478) (.inl rfl)]
    decide +kernel

end Stun.TransportAddress
