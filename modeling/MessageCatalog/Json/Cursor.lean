/-!
# Reading JSON text with positions

A cursor is a place in a JSON text: the characters that are left, and the position
as a line and a column.  Lines count from 1; a column counts the bytes of the line in
front of the place.

A fault names a position.  A character that is wrong where it stands is reported one
byte further on (`Cursor.ahead`), the end of the text at the end.
-/

namespace MessageCatalog.Json

/-- A line and the number of bytes in it up to a place. -/
structure Position where
  line : Nat
  column : Nat
  deriving DecidableEq, Repr

namespace Position

/-- The position after some bytes of one character, where a line feed starts a line. -/
def after (p : Position) (c : Char) (bytes : Nat) : Position :=
  if c = '\n' then ⟨p.line + 1, 0⟩ else ⟨p.line, p.column + bytes⟩

end Position

/-- What can be wrong with a JSON text. -/
inductive FaultKind where
  | endInValue
  | endInString
  | endInList
  | endInObject
  | expectedValue
  | expectedWord
  | expectedColon
  | expectedListCommaOrEnd
  | expectedObjectCommaOrEnd
  | trailingComma
  | trailingCharacters
  | keyNotString
  | controlCharacter
  | invalidEscape
  | endOfHexEscape
  | loneSurrogate
  | invalidNumber
  | numberOutOfRange
  /-- A value of another type than is expected. -/
  | invalidType (found expected : String)
  | duplicateField (name : String)
  deriving DecidableEq, Repr

/-- The wording of a fault. -/
def FaultKind.message : FaultKind → String
  | endInValue => "EOF while parsing a value"
  | endInString => "EOF while parsing a string"
  | endInList => "EOF while parsing a list"
  | endInObject => "EOF while parsing an object"
  | expectedValue => "expected value"
  | expectedWord => "expected ident"
  | expectedColon => "expected `:`"
  | expectedListCommaOrEnd => "expected `,` or `]`"
  | expectedObjectCommaOrEnd => "expected `,` or `\x7d`"
  | trailingComma => "trailing comma"
  | trailingCharacters => "trailing characters"
  | keyNotString => "key must be a string"
  | controlCharacter => "control character (\\u0000-\\u001F) found while parsing a string"
  | invalidEscape => "invalid escape"
  | endOfHexEscape => "unexpected end of hex escape"
  | loneSurrogate => "lone leading surrogate in hex escape"
  | invalidNumber => "invalid number"
  | numberOutOfRange => "number out of range"
  | invalidType found expected => "invalid type: " ++ found ++ ", expected " ++ expected
  | duplicateField name => "duplicate field `" ++ name ++ "`"

/-- What is wrong and where. -/
structure Fault where
  kind : FaultKind
  position : Position
  deriving DecidableEq, Repr

/-- The wording of a fault with its position. -/
def Fault.message (fault : Fault) : String :=
  fault.kind.message ++ " at line " ++ toString fault.position.line ++ " column " ++
    toString fault.position.column

/-- A place in a JSON text. -/
structure Cursor where
  position : Position
  rest : List Char
  deriving DecidableEq, Repr

/-- What a reading step returns: its result and the place after it. -/
abbrev Result (α : Type) := Except Fault (α × Cursor)

namespace Cursor

/-- The start of a text. -/
def ofString (text : String) : Cursor :=
  ⟨⟨1, 0⟩, text.toList⟩

/-- The position that is reported for the next character. -/
def ahead (c : Cursor) : Position :=
  match c.rest with
  | [] => c.position
  | d :: _ => c.position.after d 1

/-- A fault at the place itself. -/
def failHere {α : Type} (c : Cursor) (kind : FaultKind) : Except Fault α :=
  .error ⟨kind, c.position⟩

/-- A fault in the next character. -/
def failAhead {α : Type} (c : Cursor) (kind : FaultKind) : Except Fault α :=
  .error ⟨kind, c.ahead⟩

/-- The place after the next character. -/
def skip (c : Cursor) : Cursor :=
  match c.rest with
  | [] => c
  | d :: rest => ⟨c.position.after d d.utf8Size, rest⟩

/-- A blank of JSON. -/
def isBlank (c : Char) : Bool :=
  c == ' ' || c == '\n' || c == '\t' || c == '\r'

/-- The first place from a position on that is not blank. -/
def skipBlanksFrom (position : Position) : List Char → Cursor
  | [] => ⟨position, []⟩
  | d :: rest =>
    if isBlank d then skipBlanksFrom (position.after d 1) rest else ⟨position, d :: rest⟩

/-- The next place that is not blank. -/
def skipBlanks (c : Cursor) : Cursor :=
  skipBlanksFrom c.position c.rest

/-- The next characters, all of one kind, and the place after them. -/
def takeDigits (c : Cursor) : List Char × Cursor :=
  let digits := c.rest.takeWhile Char.isDigit
  (digits, ⟨⟨c.position.line, c.position.column + digits.length⟩, c.rest.dropWhile Char.isDigit⟩)

/-- The rest of a word of which the first letter was read. -/
def expectWord (c : Cursor) : List Char → Except Fault Cursor
  | [] => .ok c
  | w :: word =>
    match c.rest with
    | [] => c.failHere .endInValue
    | d :: _ => if d = w then c.skip.expectWord word else c.failAhead .expectedWord

end Cursor

end MessageCatalog.Json
