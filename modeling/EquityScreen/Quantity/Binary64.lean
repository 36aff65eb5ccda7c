import EquityScreen.Decimal
import EquityScreen.Quantity

namespace EquityScreen.Binary64

def magnitude (x : Float) : Dyadic := Dyadic.ofBits x.toBits

def isNegative (x : Float) : Bool := x.toBits >>> 63 = 1

def signed (x : Float) (digits : List Char) : String :=
  String.ofList (if isNegative x then '-' :: digits else digits)

/-- Positional text with the fewest digits that read back; a tie between two of them goes up. -/
def text (x : Float) : String :=
  if x.isNaN then "NaN"
  else if x.isInf then signed x ['i', 'n', 'f']
  else if x == 0 then signed x ['0']
  else signed x ((Decimal.shortest .up (magnitude x)).positional false)

/-- Report text: the fewest digits that read back, a tie to the even neighbour, positional for
leading exponents from -5 to 15, always marked as a fraction by a point or an exponent. -/
def reportText (x : Float) : String :=
  if x == 0 then signed x ['0', '.', '0']
  else
    let d := Decimal.shortest .toEven (magnitude x)
    signed x (if -5 ≤ d.leading ∧ d.leading < 16 then d.positional true else d.scientific false 1)

/-- Text of a number in a text column: fifteen significant digits, positional for leading
exponents from -4 to 14, with at least one digit on either side of the point. -/
def columnText (x : Float) : String :=
  if x.isInf then signed x ['I', 'n', 'f']
  else if x == 0 then "0.0"
  else
    let d := Decimal.significant 15 (magnitude x)
    signed x (if -4 ≤ d.leading ∧ d.leading ≤ 14 then d.positional true else d.scientific true 2)

/-- The correctly rounded value of a decimal; none beyond the largest finite value. -/
def ofDecimal (negative : Bool) (digits : Nat) (exponent : Int) : Option Float :=
  let size := exponent + (Nat.toDigits 10 digits).length
  let magnitude : Float :=
    if digits = 0 ∨ size < -400 then 0
    else if 400 < size then 1.0 / 0.0
    else Float.ofScientific digits (exponent < 0) exponent.natAbs
  if magnitude.isInf then none else some (if negative then -magnitude else magnitude)

def compareInt (x : Float) (n : Int) : Option Ordering :=
  if x.isNaN then none
  else if x.isInf then some (if isNegative x then .lt else .gt)
  else
    let d := magnitude x
    let top : Int := if isNegative x then -(d.numerator : Int) else d.numerator
    some (compare top (n * d.denominator))

def whole? (x : Float) : Option Int :=
  if x.isNaN || x.isInf then none
  else
    let d := magnitude x
    if d.numerator % d.denominator = 0 then
      let n : Int := ((d.numerator / d.denominator : Nat) : Int)
      some (if isNegative x then -n else n)
    else none

def ofInt (n : Int) : Float :=
  let magnitude := Float.ofScientific n.natAbs false 0
  if n < 0 then -magnitude else magnitude

def power? (x y : Float) : Option Float :=
  let p := x.pow y
  if p.isFinite then some p else none

instance : Quantity Float where
  ofInt := ofInt
  ofDecimal := ofDecimal
  abs := Float.abs
  power? := power?
  less x y := x < y
  atMost x y := x ≤ y
  same x y := x == y
  compareInt := compareInt
  whole? := whole?
  isFinite := Float.isFinite
  tenth := 0.1
  text := text
  columnText := columnText
  reportText := reportText

end EquityScreen.Binary64
