/-!
# Blank characters

A character is blank when the Unicode property `White_Space` holds of it.  The
property is a fixed set of 25 code points: the space and the five controls of
ASCII from the tab to the carriage return, the next-line control and the spaces
outside ASCII.
-/

namespace MessageCatalog.Text

/-- The Unicode property `White_Space`. -/
def isBlank (c : Char) : Bool :=
  (0x09 ≤ c.toNat && c.toNat ≤ 0x0D) || c.toNat == 0x20 || c.toNat == 0x85 || c.toNat == 0xA0 ||
    c.toNat == 0x1680 || (0x2000 ≤ c.toNat && c.toNat ≤ 0x200A) || c.toNat == 0x2028 ||
    c.toNat == 0x2029 || c.toNat == 0x202F || c.toNat == 0x205F || c.toNat == 0x3000

/-- A text is blank when it is empty or holds blank characters only. -/
def allBlank (s : String) : Bool :=
  s.toList.all isBlank

end MessageCatalog.Text
