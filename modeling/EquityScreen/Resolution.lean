import EquityScreen.Compilation
import EquityScreen.Metric
import EquityScreen.Period
import EquityScreen.Store

/-!
Resolution of derived conditions. For each candidate and each condition the inputs of the metric
are fetched, the metric is computed and compared. A candidate has to pass every condition, and the
first one that it fails ends its examination. A metric without a value counts against the candidate
unless the condition ignores missing values; a failing store fails the whole resolution.
-/

namespace EquityScreen

inductive ResolveError where
  | store (e : StoreError)
  | unknownMetric (name : String)
  | missingTicker
  deriving DecidableEq, Repr

def ResolveError.message : ResolveError → String
  | store e => e.message
  | unknownMetric name => "unknown derived metric '" ++ name ++ "'"
  | missingTicker => "candidate row has no ticker column"

namespace Resolution

variable {α : Type}

/-- The columns that a metric reads, each once. The growth of earnings is computed from the
earnings themselves, so these are read with it. -/
def columnsOf (m : MetricName) : List String :=
  let columns := m.inputs.map Input.column
  (if m.inputs.contains "eps_growth" then columns ++ ["eps"] else columns).eraseDups

def periodOf (unit : WindowUnit) (r : Row α) : Option Period :=
  (Row.get? r (periodColumn unit.table)).bind (Period.ofCell? unit)

/-- Sets the cash flow of the first row of a period, or adds a row for the period. -/
def putCashFlow (unit : WindowUnit) (p : Period) (v : Cell α) : List (Row α) → List (Row α)
  | [] => [[(periodColumn unit.table, p.cell), (Statement.cashFlowColumn, v)]]
  | r :: rest =>
    if periodOf unit r = some p then Row.set r Statement.cashFlowColumn v :: rest
    else r :: putCashFlow unit p v rest

def mergeOne (unit : WindowUnit) (rows : List (Row α)) (statement : Row α) : List (Row α) :=
  match (Row.get? statement (periodColumn .cashFlows)).bind (Period.ofCell? unit) with
  | some p => putCashFlow unit p (Row.get statement Statement.cashFlowColumn) rows
  | none => rows

/-- Takes statements of cash flow into facts by period, and keeps the newest rows. -/
def mergeCashFlows (unit : WindowUnit) (length : Nat) (rows statements : List (Row α)) :
    List (Row α) :=
  let merged := statements.foldl (mergeOne unit) rows
  (merged.mergeSort fun a b =>
    (Period.orderOption (periodOf unit b) (periodOf unit a)).isLE).take length

variable [Quantity α]

/-- The numbers in a column, newest first when the rows are. -/
def numbers (rows : List (Row α)) (column : String) : List α :=
  rows.filterMap fun r => (Row.get r column).number?

/-- The growth of the newest earnings in percent; none is seen after earnings that are not
positive. -/
def earningsGrowth (latest previous : α) : Calculation α α :=
  if Quantity.atMost previous Quantity.zero then return Quantity.zero
  else do
    let growth ← .quotient (latest - previous) previous
    return growth * Quantity.ofInt 100

/-- The inputs of a metric from rows that run from the newest to the oldest. Two earnings or more
determine their growth, whatever is stored for it. -/
def inputs (m : MetricName) (rows : List (Row α)) : Calculation α (Inputs α) :=
  let stored : Inputs α :=
    { series := fun name => (numbers rows (Input.column name)).reverse
      scalar := fun name => (numbers rows (Input.column name)).head? }
  match m.inputs.contains "eps_growth", numbers rows "eps" with
  | true, latest :: previous :: _ => do
    let growth ← earningsGrowth latest previous
    return { stored with
      scalar := fun name => if name = "eps_growth" then some growth else stored.scalar name }
  | _, _ => return stored

def reshape (m : MetricName) (rows : List (Row α)) : Inputs α := (inputs m rows).run (· / ·)

def lacksCashFlow (columns : List String) (rows : List (Row α)) : Bool :=
  columns.contains Statement.cashFlowColumn &&
    rows.all fun r => (Row.get r Statement.cashFlowColumn).isNull

def fetch (store : Store α) (ticker : String) (m : MetricName) (unit : WindowUnit) (length : Nat) :
    Traced α ResolveError (List (Row α)) := do
  let columns := columnsOf m
  let rows ← (Traced.ask store (.facts unit columns ticker length)).mapError .store
  if lacksCashFlow columns rows then
    let statements ← (Traced.ask store (.cashFlows ticker length)).mapError .store
    return mergeCashFlows unit length rows statements
  else return rows

def spanOf (historyLength : Nat) (window : Option WindowSpec) : WindowUnit × Nat :=
  match window with
  | some w => (w.unit, w.length)
  | none => (.quarters, historyLength)

/-- Computes the metric of a condition for a company. The inner error only says that the metric
has no value. -/
def compute (store : Store α) (historyLength : Nat) (ticker : String) (c : CompiledCondition α) :
    Traced α ResolveError (Except MetricError α) :=
  match metric? c.field with
  | none => Traced.ofResult (.error (.unknownMetric c.field))
  | some m => do
    let (unit, length) := spanOf historyLength c.window
    let rows ← fetch store ticker m unit length
    return if rows.isEmpty then .error ⟨m, .noFacts ticker⟩ else Metric.compute m (reshape m rows)

/-- A range decides alone; without one an operator and a number do. -/
def satisfies (c : CompiledCondition α) (x : α) : Bool :=
  match c.range, c.operator, c.value.bind Literal.number? with
  | some s, _, _ => s.contains x
  | none, some op, some threshold => op.evaluate x threshold
  | none, _, _ => false

def accepts (c : CompiledCondition α) : Except MetricError α → Bool
  | .ok x => satisfies c x
  | .error _ => c.onMissing = .ignore

def passesAll (store : Store α) (historyLength : Nat) (ticker : String) :
    List (CompiledCondition α) → Traced α ResolveError Bool
  | [] => pure true
  | c :: rest => do
    let value ← compute store historyLength ticker c
    if accepts c value then passesAll store historyLength ticker rest else return false

def passes (store : Store α) (historyLength : Nat) (conditions : List (CompiledCondition α))
    (candidate : Row α) : Traced α ResolveError Bool :=
  match (Row.get candidate tickerColumn).text? with
  | some ticker => passesAll store historyLength ticker conditions
  | none => Traced.ofResult (.error .missingTicker)

def keepPassing (store : Store α) (historyLength : Nat) (conditions : List (CompiledCondition α)) :
    List (Row α) → Traced α ResolveError (List (Row α))
  | [] => pure []
  | r :: rest => do
    let keep ← passes store historyLength conditions r
    let kept ← keepPassing store historyLength conditions rest
    return if keep then r :: kept else kept

def resolve (store : Store α) (historyLength : Nat) (conditions : List (CompiledCondition α))
    (candidates : List (Row α)) : Traced α ResolveError (List (Row α)) :=
  if conditions.isEmpty then pure candidates
  else keepPassing store historyLength conditions candidates

end Resolution

end EquityScreen
