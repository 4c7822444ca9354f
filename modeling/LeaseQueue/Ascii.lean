import LeaseQueue.Bytes

/-!
# The octets with a meaning of their own in JSON text
-/

namespace LeaseQueue.Ascii

@[match_pattern] abbrev quote : UInt8 := 0x22
@[match_pattern] abbrev backslash : UInt8 := 0x5C
@[match_pattern] abbrev comma : UInt8 := 0x2C
@[match_pattern] abbrev colon : UInt8 := 0x3A
@[match_pattern] abbrev leftBracket : UInt8 := 0x5B
@[match_pattern] abbrev rightBracket : UInt8 := 0x5D
@[match_pattern] abbrev leftBrace : UInt8 := 0x7B
@[match_pattern] abbrev rightBrace : UInt8 := 0x7D
@[match_pattern] abbrev plus : UInt8 := 0x2B
@[match_pattern] abbrev minus : UInt8 := 0x2D
@[match_pattern] abbrev point : UInt8 := 0x2E
@[match_pattern] abbrev zero : UInt8 := 0x30

/-- Blank, line feed, carriage return and tabulator. -/
def isSpace (b : UInt8) : Bool := b == 0x20 || b == 0x0A || b == 0x0D || b == 0x09

/-- The mark of an exponent, in either case. -/
def isExponentMark (b : UInt8) : Bool := b == 0x65 || b == 0x45

end LeaseQueue.Ascii
