import EquityScreen.Quantity
import Mathlib.Algebra.Order.Field.Basic
import Mathlib.Algebra.Order.Field.Rat

namespace EquityScreen.Rational

def text (x : ℚ) : String :=
  if x.den = 1 then toString x.num else toString x.num ++ "/" ++ toString x.den

def whole? (x : ℚ) : Option Int := if x.den = 1 then some x.num else none

instance : Quantity ℚ where
  ofInt n := n
  ofDecimal negative digits exponent :=
    let magnitude : ℚ := digits * 10 ^ exponent
    some (if negative then -magnitude else magnitude)
  abs x := |x|
  power? x y := (whole? y).bind fun n => if x = 0 ∧ n < 0 then none else some (x ^ n)
  less x y := x < y
  atMost x y := x ≤ y
  same x y := x = y
  compareInt x n := some (compare x n)
  whole? := whole?
  isFinite _ := true
  tenth := 1 / 10
  text := text
  columnText := text
  reportText := text

@[simp]
theorem less_iff (x y : ℚ) : Quantity.less x y = true ↔ x < y := decide_eq_true_iff

@[simp]
theorem atMost_iff (x y : ℚ) : Quantity.atMost x y = true ↔ x ≤ y := decide_eq_true_iff

@[simp]
theorem same_iff (x y : ℚ) : Quantity.same x y = true ↔ x = y := decide_eq_true_iff

@[simp]
theorem ofInt_eq (n : Int) : (Quantity.ofInt n : ℚ) = n := rfl

end EquityScreen.Rational
