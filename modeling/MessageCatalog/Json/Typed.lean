import MessageCatalog.Json.Skip
import MessageCatalog.Text.Quoted

/-!
# Reading JSON values of a known type

A text or a list of texts is read where the caller knows that one must stand.  A value
of another type is a fault that names what was found and what was expected; a scalar is
read to its end first, and a list or an object is not entered.
-/

namespace MessageCatalog.Json.Cursor

/-- The fault of a value that has not the expected type. -/
def failType {α : Type} (c : Cursor) (expected : String) : Except Fault α :=
  match c.rest with
  | [] => c.failAhead .expectedValue
  | d :: _ =>
    let found (after : Except Fault Cursor) (description : String) : Except Fault α :=
      match after with
      | .ok c => c.failHere (.invalidType description expected)
      | .error fault => .error fault
    if d = 'n' then found (c.skip.expectWord ['u', 'l', 'l']) "null"
    else if d = 't' then found (c.skip.expectWord ['r', 'u', 'e']) "boolean `true`"
    else if d = 'f' then found (c.skip.expectWord ['a', 'l', 's', 'e']) "boolean `false`"
    else if d = '-' || d.isDigit then
      match c.readNumber with
      | .ok (number, c) => found (.ok c) number.describe
      | .error fault => .error fault
    else if d = '"' then
      match c.skip.readString with
      | .ok (text, c) => found (.ok c) ("string " ++ Text.quoteString text)
      | .error fault => .error fault
    else if d = '[' then found (.ok c) "sequence"
    else if d = '\x7b' then found (.ok c) "map"
    else c.failAhead .expectedValue

/-- Reads a text. -/
def readText (c : Cursor) : Result String :=
  let c := c.skipBlanks
  match c.rest with
  | [] => c.failAhead .endInValue
  | d :: _ => if d = '"' then c.skip.readString else c.failType "a string"

/-- Moves to the next item of a list, past the comma in front of it unless it is the first;
nothing at the end of the list. -/
def nextItem? (c : Cursor) (first : Bool) : Except Fault (Option Cursor) :=
  let c := c.skipBlanks
  match c.rest with
  | [] => c.failAhead .endInList
  | d :: _ =>
    if d = ']' then .ok none
    else if first then .ok (some c)
    else if d = ',' then
      let c := c.skip.skipBlanks
      match c.rest with
      | [] => c.failAhead .endInValue
      | e :: _ => if e = ']' then c.failAhead .trailingComma else .ok (some c)
    else c.failAhead .expectedListCommaOrEnd

/-- Leaves a list after its last item. -/
def endList (c : Cursor) : Except Fault Cursor :=
  let c := c.skipBlanks
  match c.rest with
  | [] => c.failAhead .endInList
  | d :: _ =>
    if d = ']' then .ok c.skip
    else if d = ',' then
      let c := c.skip.skipBlanks
      c.failAhead (if c.rest.head? = some ']' then .trailingComma else .trailingCharacters)
    else c.failAhead .trailingCharacters

/-- Leaves an object after its last member. -/
def endObject (c : Cursor) : Except Fault Cursor :=
  let c := c.skipBlanks
  match c.rest with
  | [] => c.failAhead .endInObject
  | d :: _ =>
    if d = '\x7d' then .ok c.skip
    else if d = ',' then c.failAhead .trailingComma
    else c.failAhead .trailingCharacters

/-- Reads the texts of a list after its opening bracket.  Each takes at least one character,
so that `fuel` need not exceed their number. -/
def readItems : Nat → Bool → List String → Cursor → Result (List String)
  | 0, _, itemsRev, c => .ok (itemsRev.reverse, c)
  | fuel + 1, first, itemsRev, c =>
    match c.nextItem? first with
    | .error fault => .error fault
    | .ok none => .ok (itemsRev.reverse, c)
    | .ok (some c) =>
      match c.readText with
      | .error fault => .error fault
      | .ok (text, c) => readItems fuel false (text :: itemsRev) c

/-- Reads a list of texts. -/
def readTexts (c : Cursor) : Except Fault (List String × Cursor) := do
  let c := c.skipBlanks
  match c.rest with
  | [] => c.failAhead .endInValue
  | d :: _ =>
    if d = '[' then
      let (items, c) ← readItems (c.rest.length + 1) true [] c.skip
      return (items, ← c.endList)
    else c.failType "a sequence"

/-- Moves to the key of the next member of an object, past the comma in front of it unless it
is the first; nothing at the end of the object. -/
def nextKey? (c : Cursor) (first : Bool) : Except Fault (Option Cursor) :=
  let c := c.skipBlanks
  match c.rest with
  | [] => c.failAhead .endInObject
  | d :: _ =>
    if d = '\x7d' then .ok none
    else if first then
      if d = '"' then .ok (some c.skip) else c.failAhead .keyNotString
    else if d = ',' then
      let c := c.skip.skipBlanks
      match c.rest with
      | [] => c.failAhead .endInValue
      | e :: _ =>
        if e = '"' then .ok (some c.skip)
        else if e = '\x7d' then c.failAhead .trailingComma
        else c.failAhead .keyNotString
    else c.failAhead .expectedObjectCommaOrEnd

/-- The fault of anything but blanks in the rest of a text. -/
def expectEnd (c : Cursor) : Except Fault Unit :=
  let c := c.skipBlanks
  if c.rest.isEmpty then .ok () else c.failAhead .trailingCharacters

end MessageCatalog.Json.Cursor
