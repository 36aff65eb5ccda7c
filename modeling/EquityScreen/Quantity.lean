/-!
Numbers that filters compare and metrics divide. The operations are all that the rest of the
library asks of a number, so that it can run on binary floating point and be reasoned about over
any ordered field.
-/

namespace EquityScreen

class Quantity (α : Type) extends Add α, Sub α, Mul α, Div α where
  ofInt : Int → α
  /-- The number `digits * 10 ^ exponent`, negated on request; none when it is out of range. -/
  ofDecimal : (negative : Bool) → (digits : Nat) → (exponent : Int) → Option α
  abs : α → α
  /-- A power, unless it is undefined or not finite. -/
  power? : α → α → Option α
  less : α → α → Bool
  atMost : α → α → Bool
  same : α → α → Bool
  /-- How a number stands to an integer, by exact value; none when it is no number. -/
  compareInt : α → Int → Option Ordering
  whole? : α → Option Int
  isFinite : α → Bool
  /-- One tenth, the share by which a stable series may deviate. -/
  tenth : α
  /-- The shortest positional text that identifies the number. -/
  text : α → String
  /-- The text a number gets when it is stored in a text column. -/
  columnText : α → String
  /-- The text a finite number gets in a report. -/
  reportText : α → String

namespace Quantity

variable {α : Type} [Quantity α]

def zero : α := ofInt 0

def one : α := ofInt 1

def sum (xs : List α) : α := xs.foldl (· + ·) zero

/-- The exact order of two numbers; anything unordered counts as greater. -/
def order (x y : α) : Ordering :=
  if less x y then .lt else if same x y then .eq else .gt

end Quantity

end EquityScreen
