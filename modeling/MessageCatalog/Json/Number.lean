import MessageCatalog.Decimal.Shortest
import MessageCatalog.Json.Cursor

/-!
# JSON numbers

A number is first cut out of the text by its grammar (`NumberText`) and then given a
value: a natural number or a negative integer of at most 64 bits, or else a
floating-point number.  Digits of a significand that do not fit in 64 bits only raise
the exponent, and the power of ten is applied by one rounded multiplication or division.
-/

namespace MessageCatalog.Json

/-! ### Spelling -/

/-- The exponent of a number as it is written. -/
structure ExponentText where
  negative : Bool
  digits : List Char
  deriving DecidableEq, Repr

/-- A number as it is written. -/
structure NumberText where
  negative : Bool
  whole : List Char
  fraction : Option (List Char)
  exponent : Option ExponentText
  deriving DecidableEq, Repr

namespace Cursor

/-- Reads the digits before the point; `atEnd` is reported where the text ends instead. -/
def readWhole (c : Cursor) (atEnd : FaultKind) : Result (List Char) :=
  match c.rest with
  | [] => c.failHere atEnd
  | d :: _ =>
    if d = '0' then
      match c.skip.rest with
      | [] => .ok ([d], c.skip)
      | e :: _ => if e.isDigit then c.skip.failAhead .invalidNumber else .ok ([d], c.skip)
    else if d.isDigit then .ok c.takeDigits
    else c.failAhead .invalidNumber

/-- Reads a point and the digits after it, if there is one. -/
def readFraction (c : Cursor) (atEnd : FaultKind) : Result (Option (List Char)) :=
  match c.rest with
  | '.' :: _ =>
    match c.skip.takeDigits with
    | ([], after) => after.failAhead (if after.rest.isEmpty then atEnd else .invalidNumber)
    | (digits, after) => .ok (some digits, after)
  | _ => .ok (none, c)

/-- Reads the sign of an exponent, if there is one. -/
def readSign (c : Cursor) : Bool × Cursor :=
  match c.rest with
  | '+' :: _ => (false, c.skip)
  | '-' :: _ => (true, c.skip)
  | _ => (false, c)

/-- Reads an exponent, if there is one. -/
def readExponent (c : Cursor) (atEnd : FaultKind) : Result (Option ExponentText) :=
  match c.rest with
  | [] => .ok (none, c)
  | d :: _ =>
    if d = 'e' || d = 'E' then
      let (negative, signed) := c.skip.readSign
      match signed.takeDigits with
      | ([], after) =>
        match after.rest with
        | [] => after.failHere atEnd
        | _ :: _ => after.failAhead .invalidNumber
      | (digits, after) => .ok (some ⟨negative, digits⟩, after)
    else .ok (none, c)

/-- Cuts a number out of the text; `atEnd` is reported where the text ends too early. -/
def readNumberText (c : Cursor) (atEnd : FaultKind) : Except Fault (NumberText × Cursor) := do
  let (negative, c) :=
    match c.rest with
    | '-' :: _ => (true, c.skip)
    | _ => (false, c)
  let (whole, c) ← c.readWhole atEnd
  let (fraction, c) ← c.readFraction atEnd
  let (exponent, c) ← c.readExponent atEnd
  return (⟨negative, whole, fraction, exponent⟩, c)

end Cursor

/-! ### Value -/

/-- The value of a number. -/
inductive Number where
  | natural (n : Nat)
  /-- The integer `-n`. -/
  | negative (n : Nat)
  | float (f : Float)

/-- The largest significand that is kept exactly. -/
def maxSignificand : Nat := Nat.pow 2 64 - 1

/-- The largest exponent that is kept. -/
def maxExponent : Nat := Nat.pow 2 31 - 1

/-- Appends digits to a number as long as it does not pass a limit.  The digits that are left
over are returned too. -/
def absorb (limit : Nat) (n : Nat) : List Char → Nat × List Char
  | [] => (n, [])
  | d :: digits =>
    let longer := n * 10 + (d.toNat - '0'.toNat)
    if limit < longer then (n, d :: digits) else absorb limit longer digits

def powerOfTen (exponent : Nat) : Float :=
  Float.ofScientific 1 false exponent

/-- The exponent of the largest power of ten that is applied in one step. -/
def maxPower : Nat := 308

/-- Divides by a power of ten, in steps of at most `maxPower` places. -/
def divideByPower (f : Float) (exponent : Nat) : Float :=
  if maxPower < exponent then
    if f == 0 then f else divideByPower (f / powerOfTen maxPower) (exponent - maxPower)
  else f / powerOfTen exponent
termination_by exponent
decreasing_by
  have : 0 < maxPower := by decide
  omega

/-- The float `significand · 10^exponent`, unless it is too large. -/
def scaleFloat? (significand : Nat) (exponent : Int) : Option Float :=
  let f := (UInt64.ofNat significand).toFloat
  match exponent with
  | .ofNat e =>
    if maxPower < e then
      if f == 0 then some f else none
    else
      let scaled := f * powerOfTen e
      if scaled.isInf then none else some scaled
  | .negSucc e => some (divideByPower f (e + 1))

/-- The value of a number.  One that is too large is reported with the number of its
characters that were not needed to see that. -/
def NumberText.value (text : NumberText) : Except Nat Number :=
  let signed (f : Float) : Number := .float (if text.negative then -f else f)
  let (whole, wholeLeft) := absorb maxSignificand 0 text.whole
  match wholeLeft, text.fraction, text.exponent with
  | [], none, none =>
    if !text.negative then .ok (.natural whole)
    else if 0 < whole && whole ≤ Nat.pow 2 63 then .ok (.negative whole)
    else .ok (signed (UInt64.ofNat whole).toFloat)
  | _, fraction, exponent =>
    let fractionDigits := fraction.getD []
    let (significand, fractionLeft) := absorb maxSignificand whole fractionDigits
    let places : Int :=
      (wholeLeft.length : Int) - (fractionDigits.length - fractionLeft.length : Nat)
    let scaled (exponent : Int) : Except Nat Number :=
      match scaleFloat? significand exponent with
      | some f => .ok (signed f)
      | none => .error 0
    match exponent with
    | none => scaled places
    | some ⟨negative, digits⟩ =>
      match absorb maxExponent 0 digits with
      | (e, []) => scaled (if negative then places - e else places + e)
      | (_, _ :: unread) =>
        if significand ≠ 0 && !negative then .error unread.length else .ok (signed 0)

/-- Reads a number and gives it its value. -/
def Cursor.readNumber (c : Cursor) : Except Fault (Number × Cursor) := do
  let (text, after) ← c.readNumberText .endInValue
  match text.value with
  | .ok number => return (number, after)
  | .error unread =>
    .error ⟨.numberOutOfRange, ⟨after.position.line, after.position.column - unread⟩⟩

/-- Skips a number. -/
def Cursor.skipNumber (c : Cursor) : Except Fault Cursor :=
  (c.readNumberText .invalidNumber).map Prod.snd

/-! ### Writing floats -/

/-- How floats are written: positionally if the power of ten of the first digit lies between
two bounds, and with an exponent otherwise. -/
structure FloatFormat where
  leastPositional : Int
  greatestPositional : Int

/-- Floats in messages are positional from `0.00001` up to sixteen digits before the point. -/
def messageFloats : FloatFormat :=
  ⟨-5, 15⟩

/-- A decimal in positional notation, with a digit on either side of the point. -/
def positional (digits : List Char) (power : Int) : List Char :=
  match power with
  | .ofNat p =>
    let whole := digits.take (p + 1)
    let zeros := List.replicate (p + 1 - whole.length) '0'
    let fraction := digits.drop (p + 1)
    whole ++ zeros ++ '.' :: (if fraction.isEmpty then ['0'] else fraction)
  | .negSucc p => '0' :: '.' :: List.replicate p '0' ++ digits

/-- A decimal with an exponent, whose sign is always written. -/
def scientific (digits : List Char) (power : Int) : List Char :=
  let mantissa :=
    match digits with
    | [] => []
    | [d] => [d]
    | d :: others => d :: '.' :: others
  let sign := if power < 0 then '-' else '+'
  mantissa ++ 'e' :: sign :: Nat.toDigits 10 power.natAbs

/-- The shortest text that reads back as a finite float. -/
def floatText (format : FloatFormat) (f : Float) : String :=
  let negative := f.toBits.toNat / Nat.pow 2 63 = 1
  let body :=
    if f == 0 then ['0', '.', '0']
    else
      let d := Decimal.shortest (.ofFloat f)
      let digits := Nat.toDigits 10 d.digits
      let power := d.exponent + (digits.length - 1 : Nat)
      if format.leastPositional ≤ power && power ≤ format.greatestPositional then
        positional digits power
      else scientific digits power
  String.ofList (if negative then '-' :: body else body)

/-- A number as messages about its type name it. -/
def Number.describe : Number → String
  | natural n => "integer `" ++ toString n ++ "`"
  | negative n => "integer `-" ++ toString n ++ "`"
  | float f => "floating point `" ++ floatText messageFloats f ++ "`"

end MessageCatalog.Json
