import EquityScreen.Placeholder
import EquityScreen.Statement
import EquityScreen.Validation

namespace EquityScreen

inductive ConditionFault where
  | unsupported (word : Unsupported)
  | rangeWithWindow
  | trendWithoutWindow
  | trendOnDerived
  | thresholdNotNumber
  | noHistory
  | trendTooShort
  | windowThresholdNotNumber
  | windowWithoutUnit
  | windowLength (max : Nat)
  | missingOperator
  | missingValue
  | boundsNotNumbers
  | unboundedRange
  deriving DecidableEq, Repr

def ConditionFault.message : ConditionFault → String
  | unsupported word => word.message
  | rangeWithWindow => "range cannot carry a window"
  | trendWithoutWindow => "trend requires a window"
  | trendOnDerived => "derived metrics cannot carry a trend"
  | thresholdNotNumber => "threshold must be numeric"
  | noHistory => "field has no period history"
  | trendTooShort => "trend needs at least 2 periods"
  | windowThresholdNotNumber => "windowed threshold must be numeric"
  | windowWithoutUnit => "window has no type"
  | windowLength max => "window length must be within 1..=" ++ toString max
  | missingOperator => "missing operator"
  | missingValue => "missing value"
  | boundsNotNumbers => "range bounds must be numeric"
  | unboundedRange => "range must set min or max"

inductive CompileError (α : Type) where
  | validation (v : Violation α)
  | unknownField (field : String)
  | invalidCondition (field : String) (fault : ConditionFault)
  | nonConjunctive (field : String)
  | parameterMismatch (placeholders params : Nat)

def CompileError.message {α : Type} [Quantity α] : CompileError α → String
  | validation v => v.message
  | unknownField field => "unknown field '" ++ field ++ "'"
  | invalidCondition field fault => "invalid condition on '" ++ field ++ "': " ++ fault.message
  | nonConjunctive field => "derived metric '" ++ field ++ "' can only be combined with AND"
  | parameterMismatch placeholders params =>
    "query has " ++ toString placeholders ++ " placeholders but " ++ toString params ++
      " parameters"

/-- A condition whose words are read. It has a predicate exactly when it is not derived. -/
structure CompiledCondition (α : Type) where
  field : String
  predicate : Option Predicate
  params : List (Literal α)
  operator : Option Operator
  value : Option (Literal α)
  window : Option WindowSpec
  range : Option (Span α)
  trend : Option Trend
  onMissing : MissingPolicy

namespace CompiledCondition

variable {α : Type}

def isDerived (c : CompiledCondition α) : Bool := c.predicate.isNone

def readsHistory (c : CompiledCondition α) : Bool := c.predicate.any Predicate.readsHistory

end CompiledCondition

/-- A subtree in compiled form: its predicate unless all its conditions are derived, the parameters
in the order of their placeholders, and the derived conditions. -/
structure Fragment (α : Type) where
  predicate : Option Predicate
  params : List (Literal α)
  derived : List (CompiledCondition α)

namespace Fragment

variable {α : Type}

def joined (c : Connective) : List Predicate → Option Predicate
  | [] => none
  | [p] => some p
  | ps => some (.group c ps)

def join (c : Connective) (fs : List (Fragment α)) : Fragment α :=
  ⟨joined c (fs.filterMap (·.predicate)), fs.flatMap (·.params), fs.flatMap (·.derived)⟩

end Fragment

namespace Compilation

variable {α : Type} [Quantity α]

def invalid {β : Type} (field : String) (fault : ConditionFault) : Except (CompileError α) β :=
  .error (.invalidCondition field fault)

def readWord {β : Type} (field : String) (word : Except Unsupported β) :
    Except (CompileError α) β :=
  word.mapError fun u => .invalidCondition field (.unsupported u)

def readComparison (field : String) (c : Condition α) :
    Except (CompileError α) (Operator × Literal α) := do
  let op ← match c.operator with
    | some word => readWord field (Operator.read word)
    | none => invalid field .missingOperator
  match c.value with
  | none | some .null => invalid field .missingValue
  | some v => return (op, v)

def readBound (field : String) : Option (Literal α) → Except (CompileError α) (Option α)
  | none => .ok none
  | some l => match l.number? with
    | some x => .ok (some x)
    | none => invalid field .boundsNotNumbers

def readRange (field : String) (r : Range α) : Except (CompileError α) (Span α) := do
  let min ← readBound field r.min
  let max ← readBound field r.max
  if min.isNone && max.isNone then invalid field .unboundedRange
  else return ⟨min, max, r.isInclusive⟩

/-- The length is written into the text of the query, so it is bounded here as well. -/
def readWindow (maxLength : Nat) (field : String) (w : Window α) :
    Except (CompileError α) WindowSpec := do
  let unit ← match w.unit with
    | some word => readWord field (WindowUnit.read word)
    | none => invalid field .windowWithoutUnit
  let length ← match w.length.bind Literal.count? with
    | some n => if n ≤ maxLength then .ok n else invalid field (.windowLength maxLength)
    | none => invalid field (.windowLength maxLength)
  let aggregation ← match w.aggregation with
    | some word => (readWord field (Aggregation.read word)).map some
    | none => .ok none
  return ⟨unit, length, aggregation⟩

/-- With the fallback policy a periodic column is read together with its newest annual value. -/
def operandOf (f : Field) (policy : MissingPolicy) : Operand :=
  if policy = .fallback && f.isPeriodic then .orAnnual f else .column f

def withPolicy (f : Field) (policy : MissingPolicy) (p : Predicate) : Predicate :=
  match policy with
  | .fail => .present f p
  | .ignore => .missingOr f p
  | .exclude | .fallback => p

def base (f : Field) (policy : MissingPolicy) (p : Predicate) (params : List (Literal α)) :
    CompiledCondition α :=
  ⟨f.name, some p, params, none, none, none, none, none, policy⟩

def compileComparison (f : Field) (c : Condition α) (n : Nat) (policy : MissingPolicy) :
    Except (CompileError α) (CompiledCondition α) := do
  let (op, v) ← readComparison f.name c
  let p := withPolicy f policy (.compare (operandOf f policy) op n)
  return { base f policy p [v] with operator := some op, value := some v }

def spanPredicate (x : Operand) (n : Nat) (s : Span α) : Predicate × List (Literal α) :=
  match s.min, s.max with
  | some low, some high =>
    (if s.inclusive then .between x n (n + 1) else .inside x n (n + 1), [.real low, .real high])
  | some low, none => (.compare x (if s.inclusive then .ge else .gt) n, [.real low])
  | none, some high => (.compare x (if s.inclusive then .le else .lt) n, [.real high])
  | none, none => (.group .and [], [])

def compileRange (f : Field) (r : Range α) (n : Nat) (policy : MissingPolicy) :
    Except (CompileError α) (CompiledCondition α) := do
  let s ← readRange f.name r
  let (p, params) := spanPredicate (operandOf f policy) n s
  return { base f policy (withPolicy f policy p) params with range := some s }

def compileTrend (maxLength : Nat) (f : Field) (word : String) (w : Window α)
    (policy : MissingPolicy) : Except (CompileError α) (CompiledCondition α) := do
  let t ← readWord f.name (Trend.read word)
  let spec ← readWindow maxLength f.name w
  if !f.isPeriodic then invalid f.name .noHistory
  else if spec.length < 2 then invalid f.name .trendTooShort
  else
    let p := .trend t ⟨spec.unit, f.column, spec.length⟩
    return { base f policy p [] with trend := some t, window := some spec }

def compileWindow (maxLength : Nat) (f : Field) (c : Condition α) (w : Window α) (n : Nat)
    (policy : MissingPolicy) : Except (CompileError α) (CompiledCondition α) := do
  let spec ← readWindow maxLength f.name w
  if !f.isPeriodic then invalid f.name .noHistory
  else
    let (op, v) ← readComparison f.name c
    if !v.isNumeric then invalid f.name .windowThresholdNotNumber
    else
      let x := .aggregate (spec.aggregation.getD .avg) ⟨spec.unit, f.column, spec.length⟩
      return { base f policy (.compare x op n) [v] with
        operator := some op, value := some v, window := some spec }

def compileDerived (maxLength : Nat) (c : Condition α) (policy : MissingPolicy) :
    Except (CompileError α) (CompiledCondition α) := do
  let f := c.fieldName
  if c.trend.isSome then invalid f .trendOnDerived
  else
    let window ← match c.window with
      | some w => (readWindow maxLength f w).map some
      | none => .ok none
    match c.range with
    | some r =>
      let s ← readRange f r
      return ⟨f, none, [], none, none, window, some s, none, policy⟩
    | none =>
      let (op, v) ← readComparison f c
      if !v.isNumeric then invalid f .thresholdNotNumber
      else return ⟨f, none, [], some op, some v, window, none, none, policy⟩

/-- Compiles a condition whose first placeholder is number `n`. -/
def compileCondition (maxLength n : Nat) (c : Condition α) :
    Except (CompileError α) (CompiledCondition α) := do
  let name := c.fieldName
  let policy ← match c.onMissing with
    | some word => readWord name (MissingPolicy.read word)
    | none => .ok .exclude
  if isDerived name then compileDerived maxLength c policy
  else match field? name with
    | none => .error (.unknownField name)
    | some f => match c.range, c.trend, c.window with
      | some _, _, some _ => invalid name .rangeWithWindow
      | some r, _, none => compileRange f r n policy
      | none, some word, some w => compileTrend maxLength f word w policy
      | none, some _, none => invalid name .trendWithoutWindow
      | none, none, some w => compileWindow maxLength f c w n policy
      | none, none, none => compileComparison f c n policy

def compileLeaf (maxLength n : Nat) (conjunctive : Bool) (c : Condition α) :
    Except (CompileError α) (Fragment α) := do
  let compiled ← compileCondition maxLength n c
  match compiled.predicate with
  | some p => return ⟨some p, compiled.params, []⟩
  | none =>
    if conjunctive then return ⟨none, [], [compiled]⟩
    else .error (.nonConjunctive compiled.field)

mutual

def compileNode (maxLength n : Nat) (conjunctive : Bool) :
    Filter α → Except (CompileError α) (Fragment α)
  | .group .and children => (compileAll maxLength n conjunctive children).map (.join .and)
  | .group .or children => (compileAll maxLength n false children).map (.join .or)
  | .not child => do
    let inner ← compileNode maxLength n false child
    return { inner with predicate := inner.predicate.map .not }
  | .leaf c => compileLeaf maxLength n conjunctive c

/-- Compiles siblings; each starts to number where the one before it stopped. -/
def compileAll (maxLength n : Nat) (conjunctive : Bool) :
    List (Filter α) → Except (CompileError α) (List (Fragment α))
  | [] => .ok []
  | f :: rest => do
    let first ← compileNode maxLength n conjunctive f
    let others ← compileAll maxLength (n + first.params.length) conjunctive rest
    return first :: others

end

def compileGroup (maxLength n : Nat) (c : Connective) (children : List (Filter α)) :
    Except (CompileError α) (Fragment α) :=
  (compileAll maxLength n (c = .and) children).map (.join c)

/-- The fields that a selection reads from the candidate itself, in order of first mention. -/
def referenced (q : Query α) : List Field :=
  let names := (q.filter.conditions.filter Condition.isDirect).map Condition.fieldName ++
    q.sort.map (·.field)
  (names.filterMap field?).eraseDups

def joinsOf (fields : List Field) : List Source :=
  [Source.fundamentals, .ownership].filter fun s => fields.any fun f => f.source = s

def orderOf : List SortKey → Except (CompileError α) (List OrderKey)
  | [] => .ok []
  | key :: rest => match field? key.field with
    | some f => (orderOf rest).map (⟨f.source, f.column, key.direction⟩ :: ·)
    | none => .error (.unknownField key.field)

def orderOrTicker : List OrderKey → List OrderKey
  | [] => [⟨.company, tickerColumn, .ascending⟩]
  | keys => keys

end Compilation

structure CompiledQuery (α : Type) where
  selection : Selection
  params : List (Literal α)
  derived : List (CompiledCondition α)
  /-- The largest number of results. The selection carries it only when no condition is derived,
  since derived conditions still remove candidates. -/
  limit : Nat

namespace CompiledQuery

variable {α : Type}

def statement (q : CompiledQuery α) : Statement α := .candidates q.selection q.params

def text (names : TableNames) (q : CompiledQuery α) : String := q.selection.text names

end CompiledQuery

namespace Compilation

variable {α : Type} [Quantity α]

def checkPlaceholders (text : String) (params : Nat) : Except (CompileError α) Unit :=
  let seen := Placeholder.distinct text
  if Placeholder.areUpTo params seen then .ok ()
  else .error (.parameterMismatch seen.length params)

def compile (s : Settings) (q : Query α) : Except (CompileError α) (CompiledQuery α) := do
  (Validation.validateQuery s q).mapError .validation
  let f ← compileNode s.maxWindowLength 1 true q.filter
  let fields := referenced q
  let order ← orderOf q.sort
  let limit := q.limit.getD s.defaultLimit
  let selection : Selection :=
    { shown := fields.filter fun d => !baseColumns.contains d.name
      joins := joinsOf fields
      condition := f.predicate
      order := orderOrTicker order
      limit := if f.derived.isEmpty then some limit else none }
  checkPlaceholders (selection.text s.tables) f.params.length
  return ⟨selection, f.params, f.derived, limit⟩

end Compilation

end EquityScreen
