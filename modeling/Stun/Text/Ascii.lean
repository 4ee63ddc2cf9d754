import Stun.Bytes.Basic

/-!
# The characters that structure texts

Addresses and credentials are texts in which a few characters separate the parts.

## Main definitions

* `Ascii.dot`, `Ascii.colon`, `Ascii.zero`, `Ascii.openBracket`, `Ascii.closeBracket`,
  `Ascii.quote`, `Ascii.newline`, `Ascii.space`.
* `Ascii.text`: a byte string as a text, one character for every byte.
-/

namespace Stun.Ascii

/-- The full stop. -/
def dot : UInt8 := 0x2E

/-- The colon. -/
def colon : UInt8 := 0x3A

/-- The digit zero. -/
def zero : UInt8 := 0x30

/-- The opening square bracket. -/
def openBracket : UInt8 := 0x5B

/-- The closing square bracket. -/
def closeBracket : UInt8 := 0x5D

/-- The quotation mark. -/
def quote : UInt8 := 0x22

/-- The line feed. -/
def newline : UInt8 := 0x0A

/-- The space. -/
def space : UInt8 := 0x20

/-- A byte string as a text, one character for every byte. -/
def text (bytes : Bytes) : String := String.ofList (bytes.map Char.ofUInt8)

end Stun.Ascii
