import EquityScreen.Width

namespace EquityScreen

/-- A finite non-negative value `mantissa * 2 ^ exponent`. The gap to the value below is half the
gap to the value above when `tightBelow` is set, which happens at the powers of two. -/
structure Dyadic where
  mantissa : Nat
  exponent : Int
  tightBelow : Bool
  deriving DecidableEq, Repr

namespace Dyadic

def tenTo (n : Nat) : Nat := Nat.pow 10 n

def ofBits (bits : UInt64) : Dyadic :=
  let exponent := ((bits >>> 52) &&& 0x7FF).toNat
  let fraction := (bits &&& 0xFFFFFFFFFFFFF).toNat
  if exponent = 0 then ⟨fraction, -1074, false⟩
  else ⟨Width.twoTo 52 + fraction, (exponent : Int) - 1075, fraction = 0 && 1 < exponent⟩

def numerator (x : Dyadic) : Nat := x.mantissa * Width.twoTo x.exponent.toNat

def denominator (x : Dyadic) : Nat := Width.twoTo (-x.exponent).toNat

/-- Four times the lower and the upper end of the numbers that round to the value, over its
denominator. -/
def lowerEnd (x : Dyadic) : Nat :=
  (if x.tightBelow then 4 * x.mantissa - 1 else 4 * x.mantissa - 2) * Width.twoTo x.exponent.toNat

def upperEnd (x : Dyadic) : Nat := (4 * x.mantissa + 2) * Width.twoTo x.exponent.toNat

/-- The ends themselves round to the value exactly when its mantissa is even. -/
def endsIncluded (x : Dyadic) : Bool := x.mantissa % 2 = 0

def roundsTo (x : Dyadic) (digits : Nat) (scale : Int) : Bool :=
  let point := 4 * digits * tenTo scale.toNat * x.denominator
  let low := x.lowerEnd * tenTo (-scale).toNat
  let high := x.upperEnd * tenTo (-scale).toNat
  if x.endsIncluded then low ≤ point && point ≤ high else low < point && point < high

/-- The value lies between `10 ^ (magnitude - 1)` and `10 ^ magnitude`. Binary64 values are above
`10 ^ (-324)`. -/
def magnitude (x : Dyadic) : Int :=
  let whole := x.numerator / x.denominator
  if whole = 0 then
    Int.negOfNat
      (((List.range 324).find? fun z => x.denominator ≤ x.numerator * tenTo (z + 1)).getD 324)
  else ((Nat.toDigits 10 whole).length : Int)

/-- The value over the grid `10 ^ scale`: its floor, and how the remainder compares with a half. -/
def onGrid (x : Dyadic) (scale : Int) : Nat × Ordering :=
  let top := x.numerator * tenTo (-scale).toNat
  let unit := x.denominator * tenTo scale.toNat
  (top / unit, compare (2 * (top % unit)) unit)

end Dyadic

end EquityScreen
