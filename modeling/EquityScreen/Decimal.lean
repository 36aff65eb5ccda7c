import EquityScreen.Decimal.Dyadic

namespace EquityScreen

/-- The number `digits * 10 ^ exponent`. -/
structure Decimal where
  digits : Nat
  exponent : Int
  deriving DecidableEq, Repr

inductive Tie where
  | toEven
  | up
  deriving DecidableEq, Repr

namespace Decimal

def strip : (fuel : Nat) → Decimal → Decimal
  | 0, d => d
  | fuel + 1, d =>
    if d.digits ≠ 0 ∧ d.digits % 10 = 0 then strip fuel ⟨d.digits / 10, d.exponent + 1⟩ else d

def roundUp (tie : Tie) (floor : Nat) : Ordering → Bool
  | .lt => false
  | .gt => true
  | .eq => match tie with
    | .up => true
    | .toEven => floor % 2 = 1

/-- The nearest numeral on the grid `10 ^ scale` that rounds to the value, if there is one. -/
def onGrid? (tie : Tie) (x : Dyadic) (scale : Int) : Option Decimal :=
  let (floor, half) := x.onGrid scale
  match x.roundsTo floor scale, x.roundsTo (floor + 1) scale with
  | true, true => some ⟨if roundUp tie floor half then floor + 1 else floor, scale⟩
  | true, false => some ⟨floor, scale⟩
  | false, true => some ⟨floor + 1, scale⟩
  | false, false => none

def ofDyadic (x : Dyadic) : Decimal :=
  ⟨x.numerator * Nat.pow 5 (-x.exponent).toNat, if x.exponent < 0 then x.exponent else 0⟩

/-- The numeral with the fewest digits that rounds to the value, the nearest of those. Seventeen
digits always suffice for 64 bits. -/
def shortest (tie : Tie) (x : Dyadic) : Decimal :=
  let magnitude := x.magnitude
  let found := (List.range 17).findSome? fun n : Nat => onGrid? tie x (magnitude - (n + 1))
  (found.getD (ofDyadic x)).strip 20

/-- The value rounded to `count` significant digits, a half upwards, without trailing zeros. -/
def significant (count : Nat) (x : Dyadic) : Decimal :=
  let scale := x.magnitude - count
  let (floor, half) := x.onGrid scale
  strip (count + 1) ⟨if roundUp .up floor half then floor + 1 else floor, scale⟩

def leading (d : Decimal) : Int := d.exponent + (Nat.toDigits 10 d.digits).length - 1

def zeros (n : Nat) : List Char := List.replicate n '0'

/-- Positional layout; a whole number ends in `.0` when `pointZero` is set. -/
def positional (pointZero : Bool) (d : Decimal) : List Char :=
  let digits := Nat.toDigits 10 d.digits
  match d.exponent with
  | .ofNat e => digits ++ zeros e ++ (if pointZero then ['.', '0'] else [])
  | .negSucc e =>
    let places := e + 1
    if places < digits.length then
      digits.take (digits.length - places) ++ '.' :: digits.drop (digits.length - places)
    else '0' :: '.' :: zeros (places - digits.length) ++ digits

/-- Layout with an exponent after `e`: one digit before the point, a signed exponent of at least
`width` digits, and `.0` after a lone digit when `pointZero` is set. -/
def scientific (pointZero : Bool) (width : Nat) (d : Decimal) : List Char :=
  let mantissa := match Nat.toDigits 10 d.digits with
    | [] => []
    | [c] => if pointZero then [c, '.', '0'] else [c]
    | c :: rest => c :: '.' :: rest
  let exponent := Nat.toDigits 10 d.leading.natAbs
  mantissa ++ 'e' :: (if d.leading < 0 then '-' else '+') ::
    (zeros (width - exponent.length) ++ exponent)

end Decimal

end EquityScreen
