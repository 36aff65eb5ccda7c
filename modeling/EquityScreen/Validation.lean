import EquityScreen.Bounds
import EquityScreen.Catalog
import EquityScreen.Metric
import EquityScreen.Settings

/-!
Validation of queries in seven passes over the filter. Each pass collects the violations of the
whole tree, and the first pass that finds any ends the validation:

1. structure: sizes of groups, presence of fields, exactly one shape per condition
2. conflicts: bounds that a conjunction cannot meet
3. metric support: known fields, complete windows
4. derived inputs: what derived metrics require
5. temporal rules: units and lengths of windows, trends
6. policies for missing values
7. ranges
-/

namespace EquityScreen.Validation

variable {α : Type}

abbrev Report (α : Type) := List (Violation α)

def when (b : Bool) (v : Violation α) : Report α := if b then [v] else []

def unsupported {β : Type} (report : Unsupported → Violation α) :
    Option (Except Unsupported β) → Report α
  | some (.error u) => [report u]
  | _ => []

/-- Exactly one of operator, range and trend, and a value beside an operator. -/
def checkShape (c : Condition α) : Report α :=
  let f := c.fieldName
  if f.isEmpty then [.missingField]
  else
    when (c.shapes = 0) (.noShape f) ++
    when (1 < c.shapes) (.manyShapes f) ++
    unsupported (.unsupportedShape f) (c.operator.map Operator.read) ++
    when (c.operator.isSome && isMissing c.value) (.missingValue f) ++
    unsupported (.unsupportedShape f) (c.trend.map Trend.read)
where
  isMissing : Option (Literal α) → Bool
    | none | some .null => true
    | _ => false

mutual

def structureOf : Filter α → Report α
  | .group c children => when (children.length < 2) (.shortGroup c) ++ structureOfAll children
  | .not child => structureOf child
  | .leaf c => checkShape c

def structureOfAll : List (Filter α) → Report α
  | [] => []
  | f :: rest => structureOf f ++ structureOfAll rest

end

mutual

/-- The bounds after a subtree and the conflicts in it. Alternatives and negations never share
bounds with what surrounds them. -/
def conflictsOf [Quantity α] (t : BoundTable α) : Filter α → BoundTable α × Report α
  | .group .and children => conflictsOfAll t children
  | .group .or children => (t, conflictsOfEach children)
  | .not child => (t, (conflictsOf [] child).2)
  | .leaf c => t.apply c

def conflictsOfAll [Quantity α] (t : BoundTable α) :
    List (Filter α) → BoundTable α × Report α
  | [] => (t, [])
  | f :: rest =>
    let (t, first) := conflictsOf t f
    let (t, others) := conflictsOfAll t rest
    (t, first ++ others)

def conflictsOfEach [Quantity α] : List (Filter α) → Report α
  | [] => []
  | f :: rest => (conflictsOf [] f).2 ++ conflictsOfEach rest

end

def checkWindowShape (f : String) (w : Window α) : Report α :=
  when (w.unit.isNone || w.length.isNone) (.incompleteWindow f) ++
  unsupported (.unsupportedAggregation f) (w.aggregation.map Aggregation.read)

def checkField (f : String) (d : Field) (c : Condition α) : Report α :=
  when (!c.isDirect && !d.isPeriodic) (.noHistory f) ++
  when (c.range.isSome && c.window.isSome) (.rangeOverWindow f) ++
  match d.kind with
  | .numeric => when (c.value.any fun v => !v.isNumeric) (.notNumber f)
  | .text => when c.range.isSome (.rangeOnText f)

def checkSupport (c : Condition α) : Report α :=
  let f := c.fieldName
  let window := (c.window.map (checkWindowShape f)).getD []
  match field? f with
  | some d => window ++ checkField f d c
  | none => if isDerived f then window else [.unsupportedMetric f]

def periods? [Quantity α] (c : Condition α) : Option Nat :=
  (c.window.bind (·.length)).bind Literal.count?

def checkDerived [Quantity α] (conjunctive : Bool) (c : Condition α) : Report α :=
  let f := c.fieldName
  match metric? f with
  | none => []
  | some m =>
    when (!conjunctive) (.derivedNotConjunctive f) ++
    when c.trend.isSome (.trendOnDerived f) ++
    when (c.value.any fun v => !v.isNumeric) (.thresholdNotNumber f) ++
    when (c.window.isNone && m.needsWindow) (.windowRequired f) ++
    when ((periods? c).any (· < 2)) (.windowTooShort f)

mutual

def derivedOf [Quantity α] (conjunctive : Bool) : Filter α → Report α
  | .group .and children => derivedOfAll conjunctive children
  | .group .or children => derivedOfAll false children
  | .not child => derivedOf false child
  | .leaf c => checkDerived conjunctive c

def derivedOfAll [Quantity α] (conjunctive : Bool) : List (Filter α) → Report α
  | [] => []
  | f :: rest => derivedOf conjunctive f ++ derivedOfAll conjunctive rest

end

def checkLength [Quantity α] (maxLength : Nat) (c : Condition α) : Report α :=
  let f := c.fieldName
  match periods? c with
  | none => [.lengthNotCount f]
  | some n =>
    if maxLength < n then [.windowTooLong f maxLength]
    else when (n < 2 && c.trend.isSome) (.trendTooShort f)

def checkTemporal [Quantity α] (maxLength : Nat) (c : Condition α) : Report α :=
  let f := c.fieldName
  match c.window with
  | none => when c.trend.isSome (.trendWithoutWindow f)
  | some w =>
    let unit := w.unit.getD ""
    when (!(WindowUnit.read unit).isOk) (.unsupportedUnit f unit) ++ checkLength maxLength c

def checkPolicy (c : Condition α) : Report α :=
  when (c.onMissing.any fun p => !(MissingPolicy.read p).isOk) (.invalidPolicy c.fieldName)

def checkRange [Quantity α] (c : Condition α) : Report α :=
  let f := c.fieldName
  match c.range with
  | none => []
  | some r =>
    if r.min.isNone && r.max.isNone then [.unboundedRange f]
    else
      when (r.inclusive.isSome && r.inclusive = r.exclusive) (.conflictingFlags f) ++
      if r.min.any (!·.isNumeric) || r.max.any (!·.isNumeric) then [.boundsNotNumbers f]
      else when (Bounds.isInverted r.lower? r.upper?) (.invertedRange f)

def passes [Quantity α] (maxLength : Nat) : List (Filter α → Report α) :=
  [structureOf,
   fun f => (conflictsOf [] f).2,
   fun f => f.conditions.flatMap checkSupport,
   derivedOf true,
   fun f => f.conditions.flatMap (checkTemporal maxLength),
   fun f => f.conditions.flatMap checkPolicy,
   fun f => f.conditions.flatMap checkRange]

/-- The report of the first pass that finds something, in tree order. -/
def violations [Quantity α] (maxLength : Nat) (f : Filter α) : Report α :=
  (((passes maxLength).map (· f)).find? (!·.isEmpty)).getD []

def validate [Quantity α] (maxLength : Nat) (f : Filter α) : Except (Violation α) Unit :=
  match violations maxLength f with
  | [] => .ok ()
  | v :: _ => .error v

def checkLimit (maxLimit : Nat) : Option Nat → Except (Violation α) Unit
  | some n => if n = 0 ∨ maxLimit < n then .error (.limitOutOfRange maxLimit) else .ok ()
  | none => .ok ()

def checkSortKey (key : SortKey) : Except (Violation α) Unit :=
  if isDerived key.field then .error (.sortOnDerived key.field)
  else if (field? key.field).isNone then .error (.sortOnUnknown key.field)
  else .ok ()

/-- The filter first, then the limit, then the sort keys. -/
def validateQuery [Quantity α] (s : Settings) (q : Query α) : Except (Violation α) Unit := do
  validate s.maxWindowLength q.filter
  checkLimit s.maxLimit q.limit
  q.sort.forM checkSortKey

end EquityScreen.Validation
