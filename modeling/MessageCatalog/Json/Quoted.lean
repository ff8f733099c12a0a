import MessageCatalog.Json.Cursor

/-!
# JSON strings

A string is read one character at a time after its opening quote, in one of a few
modes: plain text, after a backslash, inside the four digits of a `\u` escape, and
between the two halves of a surrogate pair.  The digits of such an escape are counted
in bytes, and a fault in one of them is reported behind the fourth.

A string that is only skipped follows the same rules, except that surrogates need not
come in pairs and that a control character is reported where it stands.
-/

namespace MessageCatalog.Json

/-- What a string is read for. -/
inductive StringUse where
  | kept
  | skipped
  deriving DecidableEq

/-- What the next character of a string continues. -/
inductive StringMode where
  | plain
  /-- After a backslash. -/
  | escape
  /-- Inside the digits of an escape: the number of bytes that are left, the value so far
  unless a digit was wrong, and the leading surrogate before the escape. -/
  | hex (left : Nat) (value : Option Nat) (leading : Option Nat)
  /-- After a leading surrogate. -/
  | afterLeading (leading : Nat)
  /-- After a leading surrogate and a backslash. -/
  | escapeAfterLeading (leading : Nat)
  deriving DecidableEq

/-- The value of a hexadecimal digit. -/
def hexValue? (c : Char) : Option Nat :=
  if c.isDigit then some (c.toNat - '0'.toNat)
  else if 'a' ≤ c ∧ c ≤ 'f' then some (c.toNat - 'a'.toNat + 10)
  else if 'A' ≤ c ∧ c ≤ 'F' then some (c.toNat - 'A'.toNat + 10)
  else none

/-- The character that a short escape stands for. -/
def shortEscape? (c : Char) : Option Char :=
  match c with
  | '"' => some '"'
  | '\\' => some '\\'
  | '/' => some '/'
  | 'b' => some '\x08'
  | 'f' => some '\x0c'
  | 'n' => some '\n'
  | 'r' => some '\r'
  | 't' => some '\t'
  | _ => none

def isLeading (unit : Nat) : Bool :=
  0xD800 ≤ unit && unit ≤ 0xDBFF

def isTrailing (unit : Nat) : Bool :=
  0xDC00 ≤ unit && unit ≤ 0xDFFF

/-- The mode after a complete escape, and the character that it adds. -/
def completeEscape (use : StringUse) (unit : Nat) (leading : Option Nat) :
    Except FaultKind (StringMode × Option Char) :=
  match use, leading with
  | .skipped, _ => .ok (.plain, none)
  | .kept, none =>
    if isTrailing unit then .error .loneSurrogate
    else if isLeading unit then .ok (.afterLeading unit, none)
    else .ok (.plain, some (Char.ofNat unit))
  | .kept, some high =>
    if isTrailing unit then
      .ok (.plain, some (Char.ofNat (0x10000 + (high - 0xD800) * 0x400 + (unit - 0xDC00))))
    else .error .loneSurrogate

/-- Reads a string from inside it, where `textRev` holds the characters so far in reverse. -/
def readStringFrom (use : StringUse) (mode : StringMode) (textRev : List Char)
    (position : Position) : List Char → Result String
  | [] => .error ⟨.endInString, position⟩
  | c :: rest =>
    let next := position.after c c.utf8Size
    let byteLater := position.after c 1
    match mode with
    | .plain =>
      if c = '"' then .ok (String.ofList textRev.reverse, ⟨next, rest⟩)
      else if c = '\\' then readStringFrom use .escape textRev next rest
      else if c.toNat < 0x20 then
        .error ⟨.controlCharacter, if use = .kept then next else position⟩
      else readStringFrom use .plain (c :: textRev) next rest
    | .escape =>
      if c = 'u' then readStringFrom use (.hex 4 (some 0) none) textRev next rest
      else
        match shortEscape? c with
        | some d => readStringFrom use .plain (d :: textRev) next rest
        | none => .error ⟨.invalidEscape, byteLater⟩
    | .hex left value leading =>
      let value := value.bind fun v => (hexValue? c).map (v * 16 + ·)
      if c.utf8Size < left then
        readStringFrom use (.hex (left - c.utf8Size) value leading) textRev next rest
      else
        let fourth := position.after c left
        match value with
        | none => .error ⟨.invalidEscape, fourth⟩
        | some unit =>
          match completeEscape use unit leading with
          | .error kind => .error ⟨kind, fourth⟩
          | .ok (mode, added) => readStringFrom use mode (added.toList ++ textRev) next rest
    | .afterLeading leading =>
      if c = '\\' then readStringFrom use (.escapeAfterLeading leading) textRev next rest
      else .error ⟨.endOfHexEscape, byteLater⟩
    | .escapeAfterLeading leading =>
      if c = 'u' then readStringFrom use (.hex 4 (some 0) (some leading)) textRev next rest
      else .error ⟨.endOfHexEscape, byteLater⟩

namespace Cursor

/-- Reads a string after its opening quote. -/
def readString (c : Cursor) : Result String :=
  readStringFrom .kept .plain [] c.position c.rest

/-- Skips a string after its opening quote. -/
def skipString (c : Cursor) : Except Fault Cursor :=
  (readStringFrom .skipped .plain [] c.position c.rest).map Prod.snd

end Cursor

end MessageCatalog.Json
