import EquityScreen.Database
import EquityScreen.Width

namespace EquityScreen

inductive Binding (α : Type) where
  | null
  | flag (b : Bool)
  | int (n : Int)
  | count (n : Nat)
  | real (x : α)
  | text (s : String)
  | bytes (b : ByteArray)

namespace Binding

variable {α : Type} [Quantity α]

/-- Flags are read back as integers and counts as the nearest integer of 64 bits. Numbers that are
not finite, and bytes, are read back as nothing. -/
def cell : Binding α → Cell α
  | .null | .bytes _ => .null
  | .flag b => .int b.toInt
  | .int n => .int n
  | .count n => .int (if n ≤ Width.largestSigned 64 then n else Width.largestSigned 64)
  | .real x => if Quantity.isFinite x then .real x else .null
  | .text s => .text s

def row (values : List (Binding α)) : Row α :=
  values.zipIdx.map fun (v, i) => ("v" ++ toString (i + 1), v.cell)

end Binding

namespace Database

variable {α : Type} [Quantity α]

def argument : Cell α → Except DatabaseError (Option α)
  | .null => .ok none
  | .flag b => .ok (some (Quantity.ofInt b.toInt))
  | .int n => .ok (some (Quantity.ofInt n))
  | .real x => .ok (some x)
  | .text _ => .error .notNumber

/-- A power is absent when an argument is, or when it is undefined or not finite. -/
def power (base exponent : Cell α) : Except DatabaseError (Cell α) := do
  let b ← argument base
  let e ← argument exponent
  match b, e with
  | some b, some e => return ((Quantity.power? b e).map .real).getD .null
  | _, _ => return .null

end Database

end EquityScreen
