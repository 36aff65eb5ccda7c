import EquityScreen.Quantity
import EquityScreen.Width

namespace EquityScreen

inductive Literal (α : Type) where
  | int (n : Int)
  | real (x : α)
  | text (s : String)
  | bool (b : Bool)
  | null
  deriving DecidableEq, Repr

namespace Literal

variable {α : Type} [Quantity α]

def number? : Literal α → Option α
  | .int n => some (Quantity.ofInt n)
  | .real x => some x
  | _ => none

def isNumeric : Literal α → Bool
  | .int _ | .real _ => true
  | _ => false

/-- A count of periods: a whole number from 1 to `2 ^ 32 - 1`, written as an integer or not. -/
def count? : Literal α → Option Nat
  | .int n => ofWhole n
  | .real x => (Quantity.whole? x).bind ofWhole
  | _ => none
where
  ofWhole (n : Int) : Option Nat := if 0 < n && Width.isUnsigned 32 n then some n.toNat else none

/-- Text in quotes is written as it is, without escapes. -/
def display : Literal α → String
  | .int n => toString n
  | .real x => Quantity.text x
  | .text s => "\"" ++ s ++ "\""
  | .bool b => if b then "true" else "false"
  | .null => "null"

end Literal

structure Span (α : Type) where
  min : Option α
  max : Option α
  inclusive : Bool
  deriving DecidableEq, Repr

namespace Span

variable {α : Type} [Quantity α]

def contains (s : Span α) (x : α) : Bool :=
  let above := match s.min with
    | some low => if s.inclusive then Quantity.atMost low x else Quantity.less low x
    | none => true
  let below := match s.max with
    | some high => if s.inclusive then Quantity.atMost x high else Quantity.less x high
    | none => true
  above && below

end Span

end EquityScreen
