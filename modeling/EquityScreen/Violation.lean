import EquityScreen.Filter

namespace EquityScreen

structure Bound (α : Type) where
  value : α
  inclusive : Bool
  deriving DecidableEq, Repr

inductive Violation (α : Type) where
  | shortGroup (c : Connective)
  | missingField
  | noShape (field : String)
  | manyShapes (field : String)
  | unsupportedShape (field : String) (word : Unsupported)
  | missingValue (field : String)
  | conflict (field : String) (upper lower : Bound α)
  | unsupportedMetric (field : String)
  | incompleteWindow (field : String)
  | unsupportedAggregation (field : String) (word : Unsupported)
  | noHistory (field : String)
  | rangeOverWindow (field : String)
  | notNumber (field : String)
  | rangeOnText (field : String)
  | derivedNotConjunctive (field : String)
  | trendOnDerived (field : String)
  | thresholdNotNumber (field : String)
  | windowRequired (field : String)
  | windowTooShort (field : String)
  | trendWithoutWindow (field : String)
  | unsupportedUnit (field word : String)
  | lengthNotCount (field : String)
  | windowTooLong (field : String) (max : Nat)
  | trendTooShort (field : String)
  | invalidPolicy (field : String)
  | unboundedRange (field : String)
  | conflictingFlags (field : String)
  | boundsNotNumbers (field : String)
  | invertedRange (field : String)
  | limitOutOfRange (max : Nat)
  | sortOnDerived (field : String)
  | sortOnUnknown (field : String)

inductive ViolationCode where
  | malformed
  | conflict
  | unsupportedMetric
  | window
  | missingInput
  | missingPolicy
  | periodMissing
  | temporalUnit
  | temporalWindow
  | range
  deriving DecidableEq, Repr

def ViolationCode.word : ViolationCode → String
  | .malformed => "INVALID_STRUCTURE"
  | .conflict => "LOGICAL_CONFLICT"
  | .unsupportedMetric => "UNSUPPORTED_METRIC"
  | .window => "INVALID_WINDOW"
  | .missingInput => "DERIVED_METRIC_MISSING_INPUT"
  | .missingPolicy => "INVALID_NULL_POLICY"
  | .periodMissing => "TEMPORAL_PERIOD_MISSING"
  | .temporalUnit => "INVALID_TEMPORAL_UNIT"
  | .temporalWindow => "INVALID_TEMPORAL_WINDOW"
  | .range => "INVALID_RANGE"

namespace Violation

variable {α : Type}

def code : Violation α → ViolationCode
  | shortGroup _ | missingField | noShape _ | manyShapes _ | unsupportedShape _ _
  | missingValue _ | notNumber _ | rangeOnText _ | derivedNotConjunctive _ | trendOnDerived _
  | thresholdNotNumber _ | limitOutOfRange _ => .malformed
  | conflict _ _ _ => .conflict
  | unsupportedMetric _ | sortOnDerived _ | sortOnUnknown _ => .unsupportedMetric
  | incompleteWindow _ | unsupportedAggregation _ _ | noHistory _ | rangeOverWindow _ => .window
  | windowRequired _ | windowTooShort _ => .missingInput
  | invalidPolicy _ => .missingPolicy
  | trendWithoutWindow _ => .periodMissing
  | unsupportedUnit _ _ => .temporalUnit
  | lengthNotCount _ | windowTooLong _ _ | trendTooShort _ => .temporalWindow
  | unboundedRange _ | conflictingFlags _ | boundsNotNumbers _ | invertedRange _ => .range

/-- The field that a violation is about; an empty name is no field. -/
def field? (v : Violation α) : Option String :=
  match about v with
  | some f => if f.isEmpty then none else some f
  | none => none
where
  about : Violation α → Option String
    | shortGroup _ | missingField | limitOutOfRange _ => none
    | noShape f | manyShapes f | unsupportedShape f _ | missingValue f | conflict f _ _
    | unsupportedMetric f | incompleteWindow f | unsupportedAggregation f _ | noHistory f
    | rangeOverWindow f | notNumber f | rangeOnText f | derivedNotConjunctive f
    | trendOnDerived f | thresholdNotNumber f | windowRequired f | windowTooShort f
    | trendWithoutWindow f | unsupportedUnit f _ | lengthNotCount f | windowTooLong f _
    | trendTooShort f | invalidPolicy f | unboundedRange f | conflictingFlags f
    | boundsNotNumbers f | invertedRange f | sortOnDerived f | sortOnUnknown f => some f

def upperText [Quantity α] (b : Bound α) : String :=
  (if b.inclusive then "<= " else "< ") ++ Quantity.text b.value

def lowerText [Quantity α] (b : Bound α) : String :=
  (if b.inclusive then ">= " else "> ") ++ Quantity.text b.value

def reason [Quantity α] : Violation α → String
  | shortGroup c => c.upper ++ " must contain at least two conditions"
  | missingField => "Condition missing field"
  | noShape f => "Condition for '" ++ f ++ "' has no operator, range, or trend"
  | manyShapes f =>
    "Condition for '" ++ f ++ "' must use exactly one of operator, range, or trend"
  | unsupportedShape _ word => word.message
  | missingValue f => "Operator condition for '" ++ f ++ "' missing value"
  | conflict f upper lower =>
    "Unsatisfiable condition: " ++ f ++ " " ++ upperText upper ++ " conflicts with " ++
      f ++ " " ++ lowerText lower
  | unsupportedMetric f => "Metric '" ++ f ++ "' is not supported"
  | incompleteWindow _ => "Window must define type and length"
  | unsupportedAggregation _ word => word.message
  | noHistory f => "'" ++ f ++ "' has no period history to window over"
  | rangeOverWindow _ => "windowed conditions must use an operator, not a range"
  | notNumber f => "'" ++ f ++ "' must be compared against a number"
  | rangeOnText f => "range requires a numeric field, '" ++ f ++ "' is text"
  | derivedNotConjunctive f =>
    "derived metric '" ++ f ++ "' can only be combined with AND, not under OR or NOT"
  | trendOnDerived f => "trend conditions are not supported on derived metric '" ++ f ++ "'"
  | thresholdNotNumber f => "derived metric '" ++ f ++ "' must be compared against a number"
  | windowRequired f => "Derived metric '" ++ f ++ "' requires a time window"
  | windowTooShort f => "Derived metric '" ++ f ++ "' needs a window of at least 2 periods"
  | trendWithoutWindow f => "Trend condition for '" ++ f ++ "' requires a time window"
  | unsupportedUnit f word => "Unsupported time unit '" ++ word ++ "' for '" ++ f ++ "'"
  | lengthNotCount f => "Time window for '" ++ f ++ "' must be a positive integer"
  | windowTooLong f max =>
    "Time window for '" ++ f ++ "' exceeds " ++ toString max ++ " periods"
  | trendTooShort f => "Trend for '" ++ f ++ "' needs at least 2 periods"
  | invalidPolicy f =>
    "Invalid on_missing policy for '" ++ f ++ "'. Allowed: fail, ignore, fallback"
  | unboundedRange f => "Range for '" ++ f ++ "' must define at least min or max"
  | conflictingFlags f => "Range for '" ++ f ++ "' has conflicting inclusive/exclusive flags"
  | boundsNotNumbers f => "Range values for '" ++ f ++ "' must be numeric"
  | invertedRange f => "Range for '" ++ f ++ "' has min greater than max"
  | limitOutOfRange max => "limit must be within 1..=" ++ toString max
  | sortOnDerived f => "cannot sort on derived metric '" ++ f ++ "'"
  | sortOnUnknown f => "cannot sort on unknown field '" ++ f ++ "'"

def message [Quantity α] (v : Violation α) : String := v.code.word ++ ": " ++ v.reason

end Violation

end EquityScreen
