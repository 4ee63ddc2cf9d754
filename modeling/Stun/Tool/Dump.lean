import Stun.Address.Text
import Stun.Message.Basic
import Stun.Text.Hex

/-!
# A message as a table

The header of a message line by line, and its attributes as a table of names and values. The columns
of the table line up on a terminal, where the characters of East Asian scripts and pictographs are
drawn twice as wide as others.

## Main definitions

* `Attribute.describe`: the value of an attribute as text.
* `wideRanges`, `columns`: the characters drawn wide, and the columns that a text takes.
* `Message.dump`: the lines and the table of a message.
-/

namespace Stun

/-- The name of an address family in texts. -/
def familyName (family : UInt8) : String :=
  if family = ipv4Family then "ipv4" else if family = ipv6Family then "ipv6" else ""

/-- The name of a method in texts. -/
def methodName (method : Method) : String := if method = .binding then "binding" else ""

/-- Hexadecimal digits behind the mark of their base. -/
def markedHex (bytes : Bytes) : Bytes := Bytes.ofString "0x" ++ Hex.encode bytes

/-- A number in base ten. -/
def decimal (n : Nat) : Bytes := Numeral.ofNat 10 n

namespace TransportAddress

/-- The family and the text of an address. -/
def describe (a : TransportAddress) : Bytes :=
  Bytes.ofString (familyName a.family) ++ Ascii.space :: a.text

end TransportAddress

namespace Attribute

/-- A text in quotation marks. -/
def quoted (text : Bytes) : Bytes := Ascii.quote :: text ++ [Ascii.quote]

/-- The value of an attribute as text. -/
def describe : Attribute → Bytes
  | mappedAddress address => address.describe
  | xorMappedAddress address => address.describe
  | alternateServer address => address.describe
  | username text => quoted text
  | realm text => quoted text
  | nonce text => quoted text
  | software text => quoted text
  | messageIntegrity hmac => Hex.encode hmac
  | fingerprint checksum => markedHex (Bytes.ofUInt32 checksum)
  | errorCode error => decimal error.code.toNat ++ Ascii.space :: error.reason
  | unknownAttributes types =>
    [Ascii.space].intercalate (types.map fun type => markedHex (Bytes.ofUInt16 type))
  | priority value => decimal value.toNat
  | useCandidate => []
  | iceControlled tieBreaker => markedHex (Bytes.ofUInt64 tieBreaker)
  | iceControlling tieBreaker => markedHex (Bytes.ofUInt64 tieBreaker)

end Attribute

/-! ### The width of texts -/

/-- The numbers of the characters that are drawn two columns wide, as ranges from the first number
to the last. -/
def wideRanges : List (Nat × Nat) :=
  [(0x1100, 0x115F), -- leading consonants of Hangul
    (0x2329, 0x232A), -- angle brackets
    -- from the radicals of CJK to Yi, less the half fill space 0x303F
    (0x2E80, 0x303E), (0x3040, 0xA4CF),
    (0xAC00, 0xD7A3), -- syllables of Hangul
    (0xF900, 0xFAFF), -- compatibility ideographs
    (0xFE10, 0xFE19), (0xFE30, 0xFE6F), -- vertical and compatibility forms
    (0xFF00, 0xFF60), (0xFFE0, 0xFFE6), -- fullwidth forms
    (0x1F300, 0x1F64F), (0x1F900, 0x1F9FF), -- pictographs and emoticons
    (0x20000, 0x2FFFD), (0x30000, 0x3FFFD)] -- ideographs beyond the first plane

/-- Whether a character is drawn two columns wide. -/
def isWide (c : Char) : Bool :=
  wideRanges.any fun (first, last) => first ≤ c.toNat && c.toNat ≤ last

/-- The columns that a text takes: two for a wide character and one for any other. -/
def columns (text : Bytes) : Nat :=
  let chars := (Utf8.scan text).1
  chars.length + chars.countP isWide

/-! ### The table -/

namespace Message

/-- A cell of the table, filled up with spaces on the right to `width` columns. -/
def cell (width : Nat) (text : Bytes) : Bytes :=
  text ++ List.replicate (width - columns text) Ascii.space

/-- A row of the table. -/
def row (name value : Bytes) : Bytes :=
  Bytes.ofString "| " ++ cell 20 name ++ Bytes.ofString " | " ++ cell 50 value ++
    Bytes.ofString " |\n"

/-- A line between rows of the table. -/
def rule : Bytes :=
  Bytes.ofString "+" ++ List.replicate 22 0x2D ++ Bytes.ofString "+" ++ List.replicate 52 0x2D ++
    Bytes.ofString "+\n"

/-- A line of the header. -/
def line (label : String) (value : Bytes) : Bytes :=
  Bytes.ofString label ++ value ++ [Ascii.newline]

/-- The lines of the header and the table of the attributes. -/
def dump (m : Message) : Bytes :=
  line "Method: " (Bytes.ofString (methodName m.header.method)) ++
    line "Class: " (Bytes.ofString m.header.messageClass.name) ++
    line "Length: " (decimal m.header.length.toNat) ++
    line "Transaction Id: " (Hex.encode m.header.id.toList) ++
    line "Attributes:" [] ++
    rule ++ row (Bytes.ofString "        Type") (Bytes.ofString "Value") ++ rule ++
    (m.attributes.flatMap fun a => row (Bytes.ofString a.kind.name) a.describe) ++ rule

end Message

end Stun
