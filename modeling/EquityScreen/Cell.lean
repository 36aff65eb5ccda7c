import EquityScreen.Quantity

namespace EquityScreen

inductive Cell (α : Type) where
  | null
  | flag (b : Bool)
  | int (n : Int)
  | real (x : α)
  | text (s : String)
  deriving DecidableEq, Repr

namespace Cell

variable {α : Type} [Quantity α]

def isNull : Cell α → Bool
  | .null => true
  | _ => false

def number? : Cell α → Option α
  | .int n => some (Quantity.ofInt n)
  | .real x => some x
  | _ => none

def text? : Cell α → Option String
  | .text s => some s
  | _ => none

/-- Integers and other numbers are compared by exact value; a flag counts as 0 or 1. -/
def order : Cell α → Cell α → Ordering
  | .null, .null => .eq
  | .null, _ => .lt
  | _, .null => .gt
  | .text s, .text t => compare s t
  | .text _, _ => .gt
  | _, .text _ => .lt
  | .real x, .real y => Quantity.order x y
  | .real x, .int n => (Quantity.compareInt x n).getD .gt
  | .real x, .flag b => (Quantity.compareInt x b.toInt).getD .gt
  | .int n, .real y => ((Quantity.compareInt y n).getD .lt).swap
  | .int n, .int m => compare n m
  | .int n, .flag b => compare n b.toInt
  | .flag b, .real y => ((Quantity.compareInt y b.toInt).getD .lt).swap
  | .flag b, .int n => compare b.toInt n
  | .flag b, .flag c => compare b.toInt c.toInt

/-- Nothing compares with an absent value, not even another. -/
def compare? (a b : Cell α) : Option Ordering :=
  if a.isNull || b.isNull then none else some (order a b)

def equals (a b : Cell α) : Bool := compare? a b = some .eq

end Cell

abbrev Row (α : Type) := List (String × Cell α)

namespace Row

variable {α : Type}

def get? (r : Row α) (column : String) : Option (Cell α) :=
  (r.find? fun e => e.1 = column).map (·.2)

def get (r : Row α) (column : String) : Cell α := (get? r column).getD .null

def set (r : Row α) (column : String) (v : Cell α) : Row α :=
  if r.any (·.1 = column) then r.map fun e => if e.1 = column then (column, v) else e
  else r ++ [(column, v)]

def project (r : Row α) (columns : List String) : Row α := columns.map fun c => (c, get r c)

end Row

end EquityScreen
