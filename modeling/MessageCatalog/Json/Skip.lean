import MessageCatalog.Json.Number
import MessageCatalog.Json.Quoted

/-!
# Skipping JSON values

A value that nobody asks for is still checked against the grammar.  The brackets that
are open are kept on a stack, so that values may nest to any depth.
-/

namespace MessageCatalog.Json

/-- An open bracket. -/
inductive Bracket where
  | list
  | object
  deriving DecidableEq, Repr

namespace Bracket

/-- The character that closes a bracket. -/
def closer : Bracket → Char
  | list => ']'
  | object => '\x7d'

/-- The fault of a text that ends inside a bracket. -/
def atEnd : Bracket → FaultKind
  | list => .endInList
  | object => .endInObject

/-- The fault of anything but a comma or the closer after a value. -/
def expectedCommaOrEnd : Bracket → FaultKind
  | list => .expectedListCommaOrEnd
  | object => .expectedObjectCommaOrEnd

end Bracket

/-- What is skipped next. -/
inductive SkipPhase where
  /-- A value. -/
  | value
  /-- What follows an opening bracket. -/
  | opened
  /-- What follows a value. -/
  | followed
  deriving DecidableEq

namespace Cursor

/-- Skips blanks and a colon. -/
def skipColon (c : Cursor) : Except Fault Cursor :=
  let c := c.skipBlanks
  match c.rest with
  | [] => c.failAhead .endInObject
  | d :: _ => if d = ':' then .ok c.skip else c.failAhead .expectedColon

/-- Skips the key and the colon in front of the value of a member. -/
def skipKey (c : Cursor) : Except Fault Cursor :=
  let c := c.skipBlanks
  match c.rest with
  | [] => c.failAhead .endInObject
  | d :: _ =>
    if d = '"' then do
      let c ← c.skip.skipString
      c.skipColon
    else c.failAhead .keyNotString

/-- Skips what stands in front of a value inside a bracket. -/
def skipToValue (c : Cursor) : Bracket → Except Fault Cursor
  | .list => .ok c
  | .object => c.skipKey

/-- Skips a value that holds no others; nothing where a bracket opens. -/
def skipScalar? (c : Cursor) (d : Char) : Option (Except Fault Cursor) :=
  if d = '[' || d = '\x7b' then none
  else if d = 'n' then some (c.skip.expectWord ['u', 'l', 'l'])
  else if d = 't' then some (c.skip.expectWord ['r', 'u', 'e'])
  else if d = 'f' then some (c.skip.expectWord ['a', 'l', 's', 'e'])
  else if d = '-' || d.isDigit then some c.skipNumber
  else if d = '"' then some c.skip.skipString
  else some (c.failAhead .expectedValue)

/-- Skips on until the outermost bracket is closed.  Each round but the last takes at least
one character, so that `fuel` need not exceed twice their number. -/
def skipOn : Nat → SkipPhase → List Bracket → Cursor → Except Fault Cursor
  | 0, _, _, c => .ok c
  | _ + 1, .followed, [], c => .ok c
  | _ + 1, .opened, [], c => .ok c
  | fuel + 1, .value, stack, c =>
    let c := c.skipBlanks
    match c.rest with
    | [] => c.failAhead .endInValue
    | d :: _ =>
      match c.skipScalar? d with
      | some (.ok c) => skipOn fuel .followed stack c
      | some (.error fault) => .error fault
      | none => skipOn fuel .opened ((if d = '[' then .list else .object) :: stack) c.skip
  | fuel + 1, phase, bracket :: stack, c =>
    let c := c.skipBlanks
    match c.rest with
    | [] => c.failAhead bracket.atEnd
    | d :: _ =>
      if d = bracket.closer then skipOn fuel .followed stack c.skip
      else if phase = .followed then
        if d = ',' then
          match c.skip.skipToValue bracket with
          | .ok c => skipOn fuel .value (bracket :: stack) c
          | .error fault => .error fault
        else c.failAhead bracket.expectedCommaOrEnd
      else
        match c.skipToValue bracket with
        | .ok c => skipOn fuel .value (bracket :: stack) c
        | .error fault => .error fault

/-- Skips a value. -/
def skipValue (c : Cursor) : Except Fault Cursor :=
  skipOn (2 * c.rest.length + 2) .value [] c

end Cursor

end MessageCatalog.Json
