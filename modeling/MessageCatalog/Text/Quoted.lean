import MessageCatalog.Text.Extender
import MessageCatalog.Text.Unprintable

/-!
# Quoted text in messages

Messages quote names and texts so that every character can be seen: controls,
unprintable characters and combining marks are written as escapes.  Of the two
quotation marks only the one that encloses the quotation is escaped in it.
-/

namespace MessageCatalog.Text

/-- A character by the number of its code point, in lower-case hexadecimal. -/
def codePointEscape (c : Char) : List Char :=
  ['\\', 'u', '\x7b'] ++ Nat.toDigits 16 c.toNat ++ ['\x7d']

/-- A character as it is written between two quotation marks `mark`. -/
def quotedChar (mark c : Char) : List Char :=
  if c = '\x00' then ['\\', '0']
  else if c = '\t' then ['\\', 't']
  else if c = '\r' then ['\\', 'r']
  else if c = '\n' then ['\\', 'n']
  else if c = '\\' || c = mark then ['\\', c]
  else if isExtender c || isUnprintable c then codePointEscape c
  else [c]

/-- A text between two quotation marks `mark`. -/
def quoteWith (mark : Char) (s : List Char) : String :=
  String.ofList (mark :: s.flatMap (quotedChar mark) ++ [mark])

/-- One character in single quotes. -/
def quoteChar (c : Char) : String :=
  quoteWith '\'' [c]

/-- A text in double quotes. -/
def quoteString (s : String) : String :=
  quoteWith '"' s.toList

end MessageCatalog.Text
