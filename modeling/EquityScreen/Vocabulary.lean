import EquityScreen.Quantity
import EquityScreen.Text.Blank

namespace EquityScreen

inductive Vocabulary where
  | operator
  | trend
  | windowUnit
  | aggregation
  | missingPolicy
  deriving DecidableEq, Repr

def Vocabulary.label : Vocabulary → String
  | .operator => "operator"
  | .trend => "trend"
  | .windowUnit => "window unit"
  | .aggregation => "aggregation"
  | .missingPolicy => "on_missing policy"

structure Unsupported where
  vocabulary : Vocabulary
  word : String
  deriving DecidableEq, Repr

def Unsupported.message (u : Unsupported) : String :=
  "unsupported " ++ u.vocabulary.label ++ " '" ++ u.word ++ "'"

inductive Operator where
  | lt
  | gt
  | le
  | ge
  | eq
  | ne
  deriving DecidableEq, Repr

namespace Operator

def sql : Operator → String
  | .lt => "<"
  | .gt => ">"
  | .le => "<="
  | .ge => ">="
  | .eq => "="
  | .ne => "!="

def ofWord (word : String) : Except Unsupported Operator :=
  if word = "<" then .ok .lt
  else if word = ">" then .ok .gt
  else if word = "<=" then .ok .le
  else if word = ">=" then .ok .ge
  else if word = "=" ∨ word = "==" then .ok .eq
  else if word = "!=" ∨ word = "<>" then .ok .ne
  else .error ⟨.operator, word⟩

/-- Operators alone may be surrounded by white space. -/
def read (s : String) : Except Unsupported Operator := ofWord (Text.trim s)

def evaluate {α : Type} [Quantity α] (op : Operator) (left right : α) : Bool :=
  match op with
  | .lt => Quantity.less left right
  | .gt => Quantity.less right left
  | .le => Quantity.atMost left right
  | .ge => Quantity.atMost right left
  | .eq => Quantity.same left right
  | .ne => !Quantity.same left right

def holds : Operator → Ordering → Bool
  | .lt, o => o = .lt
  | .gt, o => o = .gt
  | .le, o => o ≠ .gt
  | .ge, o => o ≠ .lt
  | .eq, o => o = .eq
  | .ne, o => o ≠ .eq

end Operator

inductive Trend where
  | increasing
  | decreasing
  | stable
  deriving DecidableEq, Repr

namespace Trend

def word : Trend → String
  | .increasing => "increasing"
  | .decreasing => "decreasing"
  | .stable => "stable"

def read (s : String) : Except Unsupported Trend :=
  if s = "increasing" then .ok .increasing
  else if s = "decreasing" then .ok .decreasing
  else if s = "stable" then .ok .stable
  else .error ⟨.trend, s⟩

end Trend

inductive WindowUnit where
  | quarters
  | years
  deriving DecidableEq, Repr

namespace WindowUnit

def word : WindowUnit → String
  | .quarters => "quarters"
  | .years => "years"

def read (s : String) : Except Unsupported WindowUnit :=
  if s = "quarters" ∨ s = "quarter" then .ok .quarters
  else if s = "years" ∨ s = "year" then .ok .years
  else .error ⟨.windowUnit, s⟩

end WindowUnit

inductive Aggregation where
  | avg
  | sum
  | latest
  | cagr
  deriving DecidableEq, Repr

namespace Aggregation

def word : Aggregation → String
  | .avg => "avg"
  | .sum => "sum"
  | .latest => "latest"
  | .cagr => "cagr"

def read (s : String) : Except Unsupported Aggregation :=
  if s = "avg" then .ok .avg
  else if s = "sum" then .ok .sum
  else if s = "latest" then .ok .latest
  else if s = "cagr" then .ok .cagr
  else .error ⟨.aggregation, s⟩

end Aggregation

/-- How a condition treats a missing value. A condition that names no policy excludes the
candidate; that policy has no spelling that is read. -/
inductive MissingPolicy where
  | exclude
  | fail
  | ignore
  | fallback
  deriving DecidableEq, Repr

namespace MissingPolicy

def word : MissingPolicy → String
  | .exclude => "exclude"
  | .fail => "fail"
  | .ignore => "ignore"
  | .fallback => "fallback"

def read (s : String) : Except Unsupported MissingPolicy :=
  if s = "fail" then .ok .fail
  else if s = "ignore" then .ok .ignore
  else if s = "fallback" then .ok .fallback
  else .error ⟨.missingPolicy, s⟩

end MissingPolicy

end EquityScreen
