import EquityScreen.Literal
import EquityScreen.Vocabulary

namespace EquityScreen

structure Range (α : Type) where
  min : Option (Literal α)
  max : Option (Literal α)
  inclusive : Option Bool
  exclusive : Option Bool
  deriving DecidableEq, Repr

namespace Range

variable {α : Type}

/-- Bounds are included unless the client asked otherwise. -/
def isInclusive (r : Range α) : Bool :=
  if r.exclusive = some true then false else r.inclusive.getD true

def lower? [Quantity α] (r : Range α) : Option α := r.min.bind Literal.number?

def upper? [Quantity α] (r : Range α) : Option α := r.max.bind Literal.number?

end Range

structure Window (α : Type) where
  unit : Option String
  length : Option (Literal α)
  aggregation : Option String
  deriving DecidableEq, Repr

structure WindowSpec where
  unit : WindowUnit
  length : Nat
  aggregation : Option Aggregation
  deriving DecidableEq, Repr

structure Condition (α : Type) where
  field : Option String
  operator : Option String
  value : Option (Literal α)
  range : Option (Range α)
  window : Option (Window α)
  trend : Option String
  onMissing : Option String
  deriving DecidableEq, Repr

namespace Condition

variable {α : Type}

def fieldName (c : Condition α) : String := c.field.getD ""

def shapes (c : Condition α) : Nat :=
  c.operator.isSome.toNat + c.range.isSome.toNat + c.trend.isSome.toNat

/-- The columns of the candidate itself decide a condition without window and trend. -/
def isDirect (c : Condition α) : Bool := c.window.isNone && c.trend.isNone

end Condition

inductive Connective where
  | and
  | or
  deriving DecidableEq, Repr

namespace Connective

def word : Connective → String
  | .and => "and"
  | .or => "or"

def upper : Connective → String
  | .and => "AND"
  | .or => "OR"

end Connective

inductive Filter (α : Type) where
  | group (c : Connective) (children : List (Filter α))
  | not (child : Filter α)
  | leaf (condition : Condition α)

namespace Filter

variable {α : Type}

mutual

def conditions : Filter α → List (Condition α)
  | .group _ children => conditionsOfAll children
  | .not child => child.conditions
  | .leaf c => [c]

def conditionsOfAll : List (Filter α) → List (Condition α)
  | [] => []
  | f :: rest => f.conditions ++ conditionsOfAll rest

end

end Filter

inductive Direction where
  | ascending
  | descending
  deriving DecidableEq, Repr

structure SortKey where
  field : String
  direction : Direction
  deriving DecidableEq, Repr

structure Query (α : Type) where
  filter : Filter α
  sort : List SortKey
  limit : Option Nat

end EquityScreen
