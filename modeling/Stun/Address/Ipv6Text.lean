import Stun.Address.Ipv4Text

/-!
# IPv6 addresses as text

An IPv6 address is written as eight groups in base sixteen with colons between them. A double
colon stands once for a run of zero groups, and the last two groups may be written as an IPv4
address.

In the text that is printed the double colon takes the place of the longest run of at least two
zero groups, the first one of that length. The last two groups are printed as an IPv4 address when
the six groups before them are this run, or the five groups before a group `ffff` that precedes
them.

## Main definitions

* `Ipv6Text.longestZeroRun`: where the longest run of zero groups starts, and its length.
* `Ipv6Text.print`: the text of eight groups.
* `Ipv6Text.elision?`: the parts of a text before and behind its first double colon.
* `Ipv6Text.group?`, `Ipv6Text.tail?`, `Ipv6Text.parse?`: the number in a field, the groups of
  fields whose last may be an IPv4 address, and the eight groups of a text.
-/

namespace Stun.Ipv6Text

/-! ### Printing -/

/-- How many zero groups follow one another from the group `start` on. -/
def zeroRunAt (groups : List UInt16) (start : Nat) : Nat :=
  ((groups.drop start).takeWhile (· = 0)).length

/-- The start and the length of the longest run of zero groups, the first one of that length. -/
def longestZeroRun (groups : List UInt16) : Nat × Nat :=
  (List.range groups.length).foldl
    (fun best start =>
      if best.2 < zeroRunAt groups start then (start, zeroRunAt groups start) else best)
    (0, 0)

/-- The digits of a group. -/
def field (group : UInt16) : Bytes := Numeral.ofNat 16 group.toNat

/-- Fields with colons between them. -/
def join (fields : List Bytes) : Bytes := [Ascii.colon].intercalate fields

/-- The fields behind the double colon when the last two groups are printed as an IPv4 address. -/
def dottedFields (groups : List UInt16) : List Bytes :=
  (groups.take (groups.length - 2)).map field ++
    [Ipv4Text.print (Bytes.ofUInt16List (groups.drop (groups.length - 2)))]

/-- Whether the last two groups are printed as an IPv4 address, given the run of zero groups that
the double colon stands for. -/
def isDotted (groups : List UInt16) (start length : Nat) : Bool :=
  start = 0 && (length = 6 || (length = 5 && groups[5]? = some 0xFFFF))

/-- The text of eight groups. -/
def print (groups : List UInt16) : Bytes :=
  let (start, length) := longestZeroRun groups
  if length < 2 then join (groups.map field)
  else
    let behind := groups.drop (start + length)
    let fields := if isDotted groups start length then dottedFields behind else behind.map field
    join ((groups.take start).map field) ++ [Ascii.colon, Ascii.colon] ++ join fields

/-- Of two longest runs the first one is elided, and the dotted form follows an elided front. -/
example : print [1, 0, 0, 2, 0, 0, 3, 4] = Bytes.ofString "1::2:0:0:3:4" ∧
    print [0, 0, 0, 0, 0, 0xFFFF, 0x0102, 0x0304] = Bytes.ofString "::ffff:1.2.3.4" := by
  decide +kernel

/-! ### Parsing -/

/-- The parts of a text before and behind its first double colon. -/
def elision? : Bytes → Option (Bytes × Bytes)
  | [] => none
  | b :: rest =>
    if b = Ascii.colon ∧ rest.head? = some Ascii.colon then some ([], rest.tail)
    else (elision? rest).map fun (before, behind) => (b :: before, behind)

/-- The number in a field: one to four digits. -/
def group? (field : Bytes) : Option UInt16 :=
  if field = [] ∨ 4 < field.length then none else (Numeral.toNat? 16 field).map UInt16.ofNat

/-- The groups of some fields, the last of which may be an IPv4 address. -/
def tail? : List Bytes → Option (List UInt16)
  | [] => some []
  | [last] =>
    if Ascii.dot ∈ last then (Ipv4Text.parse? last).map Bytes.toUInt16List
    else (group? last).map fun group => [group]
  | field :: fields => (group? field).bind fun group => (tail? fields).map (group :: ·)

/-- The fields of a part of a text, none for an empty part. -/
def fields (part : Bytes) : List Bytes := if part = [] then [] else part.splitOn Ascii.colon

/-- The eight groups that a text stands for. A double colon stands for one zero group at least. -/
def parse? (text : Bytes) : Option (List UInt16) :=
  match elision? text with
  | none => (tail? (fields text)).bind fun groups => if groups.length = 8 then some groups else none
  | some (before, behind) =>
    ((fields before).mapM group?).bind fun front =>
      (tail? (fields behind)).bind fun back =>
        let written := front.length + back.length
        if written < 8 then some (front ++ List.replicate (8 - written) 0 ++ back) else none

end Stun.Ipv6Text
