/-!
# The fewest digits that read back

A finite binary number `m · 2^q` stands for an interval of reals, those that round to
it.  Its ends lie half a unit away, only a quarter below a power of two, and belong to
it when `m` is even.  `shortest` returns the decimal with the fewest digits in that
interval and, of those, the one nearest to the number, an even one at a tie.

On the grid of decimals with `n` digits only the two neighbours of the number have to
be tried: if any point of the grid lies in the interval, one of these two does.
-/

namespace MessageCatalog

/-- The decimal `digits · 10^exponent`. -/
structure Decimal where
  digits : Nat
  exponent : Int
  deriving DecidableEq, Repr

namespace Decimal

/-- A positive binary number `significand · 2^exponent`; `narrowBelow` says that the next
smaller number is only half as far away as the next larger one. -/
structure Binary where
  significand : Nat
  exponent : Int
  narrowBelow : Bool
  deriving DecidableEq, Repr

/-- A fraction of natural numbers. -/
structure Fraction where
  num : Nat
  den : Nat

/-- The fraction `n · base^exponent`. -/
def Fraction.scaled (n base : Nat) (exponent : Int) : Fraction :=
  match exponent with
  | .ofNat e => ⟨n * base.pow e, 1⟩
  | .negSucc e => ⟨n, base.pow (e + 1)⟩

def Fraction.lt (a b : Fraction) : Bool :=
  a.num * b.den < b.num * a.den

/-- The distance between two fractions. -/
def Fraction.distance (a b : Fraction) : Fraction :=
  ⟨(a.num * b.den - b.num * a.den) + (b.num * a.den - a.num * b.den), a.den * b.den⟩

namespace Binary

def value (x : Binary) : Fraction :=
  .scaled x.significand 2 x.exponent

/-- The lower end of the interval, in quarters of the last place. -/
def lower (x : Binary) : Fraction :=
  .scaled (4 * x.significand - if x.narrowBelow then 1 else 2) 2 (x.exponent - 2)

/-- The upper end of the interval. -/
def upper (x : Binary) : Fraction :=
  .scaled (4 * x.significand + 2) 2 (x.exponent - 2)

/-- A fraction rounds to the number. -/
def holds (x : Binary) (a : Fraction) : Bool :=
  if x.significand % 2 = 0 then !a.lt x.lower && !x.upper.lt a
  else x.lower.lt a && a.lt x.upper

end Binary

def value (d : Decimal) : Fraction :=
  .scaled d.digits 10 d.exponent

/-- The number of times that a fraction has to be multiplied by ten to reach one, as far as
`fuel` allows. -/
def tensBelowOne : Nat → Fraction → Nat
  | 0, _ => 0
  | fuel + 1, a => if a.num < a.den then tensBelowOne fuel ⟨a.num * 10, a.den⟩ + 1 else 0

/-- The power of ten of the first digit of a positive fraction; none lies below the
three-hundred-and-fortieth. -/
def leadingPower (a : Fraction) : Int :=
  if a.num < a.den then -(tensBelowOne 340 a : Int)
  else ((Nat.toDigits 10 (a.num / a.den)).length : Int) - 1

/-- The neighbour of a number among the decimals with a given last place that rounds to it.  If
both do, it is the nearer one, and of two that are equally near the even one. -/
def onGrid? (x : Binary) (place : Int) : Option Decimal :=
  let scaled :=
    match place with
    | .ofNat e => x.value.num / (x.value.den * Nat.pow 10 e)
    | .negSucc e => x.value.num * Nat.pow 10 (e + 1) / x.value.den
  let below : Decimal := ⟨scaled, place⟩
  let above : Decimal := ⟨scaled + 1, place⟩
  if x.holds below.value && x.holds above.value then
    let toBelow := below.value.distance x.value
    let toAbove := above.value.distance x.value
    if toBelow.lt toAbove || (!toAbove.lt toBelow && scaled % 2 = 0) then some below
    else some above
  else if x.holds below.value then some below
  else if x.holds above.value then some above
  else none

/-- A decimal without zeros at its end, as far as `fuel` allows. -/
def trimZeros : Nat → Decimal → Decimal
  | 0, d => d
  | fuel + 1, d =>
    if d.digits % 10 = 0 then trimZeros fuel ⟨d.digits / 10, d.exponent + 1⟩ else d

/-- The grids from a place on downwards, `tries` of them at most. -/
def firstOnGrids (x : Binary) (place : Int) : Nat → Decimal
  | 0 => ⟨x.significand, 0⟩
  | tries + 1 =>
    match onGrid? x place with
    | some d => trimZeros 20 d
    | none => firstOnGrids x (place - 1) tries

/-- The shortest decimal that reads back as the number; seventeen digits always do. -/
def shortest (x : Binary) : Decimal :=
  firstOnGrids x (leadingPower x.value) 17

/-- The binary number that the bits of a positive finite float stand for. -/
def Binary.ofFloat (f : Float) : Binary :=
  let bits := f.toBits.toNat
  let biased : Nat := bits / Nat.pow 2 52 % Nat.pow 2 11
  let fraction : Nat := bits % Nat.pow 2 52
  if biased = 0 then ⟨fraction, -1074, false⟩
  else ⟨Nat.pow 2 52 + fraction, (biased : Int) - 1075, fraction = 0 && 1 < biased⟩

end Decimal

end MessageCatalog
