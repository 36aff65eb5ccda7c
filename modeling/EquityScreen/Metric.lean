import EquityScreen.Calculation
import EquityScreen.Quantity

namespace EquityScreen

inductive MetricName where
  | peg
  | debtToCashFlow
  | epsGrowth
  | revenueGrowth
  | cashFlowMargin
  | earningsConsistency
  deriving DecidableEq, Repr

namespace MetricName

def all : List MetricName :=
  [.peg, .debtToCashFlow, .epsGrowth, .revenueGrowth, .cashFlowMargin, .earningsConsistency]

def word : MetricName → String
  | .peg => "peg_ratio"
  | .debtToCashFlow => "debt_to_fcf"
  | .epsGrowth => "eps_cagr"
  | .revenueGrowth => "revenue_cagr"
  | .cashFlowMargin => "fcf_margin"
  | .earningsConsistency => "earnings_consistency_score"

/-- The inputs of a metric, in the order in which they are fetched. -/
def inputs : MetricName → List String
  | .peg => ["pe_ratio", "eps_growth", "eps_history"]
  | .debtToCashFlow => ["total_debt", "free_cash_flow"]
  | .epsGrowth => ["eps_history"]
  | .revenueGrowth => ["revenue_history"]
  | .cashFlowMargin => ["free_cash_flow", "revenue"]
  | .earningsConsistency => ["eps_history"]

/-- Metrics over a series alone need an explicit window. -/
def needsWindow : MetricName → Bool
  | .epsGrowth | .revenueGrowth | .earningsConsistency => true
  | .peg | .debtToCashFlow | .cashFlowMargin => false

end MetricName

def metric? (name : String) : Option MetricName := MetricName.all.find? fun m => m.word = name

def isDerived (name : String) : Bool := (metric? name).isSome

namespace Input

def endings : List String := ["_history", "_series"]

def without? (ending name : String) : Option String :=
  let (e, n) := (ending.toList, name.toList)
  if e.isSuffixOf n then some (String.ofList (n.take (n.length - e.length))) else none

/-- Names that end in `_history` or `_series` stand for the series of a column, all others for its
newest value. -/
def isSeries (name : String) : Bool := endings.any fun e => (without? e name).isSome

def column (name : String) : String := (endings.findSome? fun e => without? e name).getD name

end Input

/-- The inputs of a metric for one company. A series runs from the oldest value to the newest. -/
structure Inputs (α : Type) where
  scalar : String → Option α
  series : String → List α

inductive MetricFault where
  | noFacts (ticker : String)
  | missing (input : String)
  | notPositive (input : String)
  | tooFew (label : String)
  | startNotPositive (label : String)
  | undefinedGrowth (label : String)
  deriving DecidableEq, Repr

structure MetricError where
  metric : MetricName
  fault : MetricFault
  deriving DecidableEq, Repr

namespace MetricError

def code (e : MetricError) : String :=
  match e.fault with
  | .noFacts _ => "NO_DATA"
  | _ => match e.metric with
    | .peg => "PEG_RATIO_INVALID"
    | .debtToCashFlow => "DEBT_TO_FCF_INVALID"
    | .epsGrowth => "EPS_CAGR_INVALID"
    | .revenueGrowth => "REVENUE_CAGR_INVALID"
    | .cashFlowMargin => "FCF_MARGIN_INVALID"
    | .earningsConsistency => "EARNINGS_CONSISTENCY_SCORE_INVALID"

def reason (e : MetricError) : String :=
  match e.fault with
  | .noFacts ticker => "no fundamentals for " ++ ticker
  | .missing input => input ++ " is missing"
  | .notPositive input => input ++ " must be positive"
  | .tooFew label => "at least 2 " ++ label ++ " values required"
  | .startNotPositive label => "starting " ++ label ++ " must be positive"
  | .undefinedGrowth label => label ++ " growth is undefined"

def message (e : MetricError) : String := e.code ++ ": " ++ e.reason

end MetricError

namespace Metric

open Calculation

variable {α : Type} [Quantity α]

def positive (x : α) : Bool := Quantity.less Quantity.zero x

/-- The price-earnings ratio over the growth of the earnings per share. -/
def peg (i : Inputs α) : Calculation α (Except MetricFault α) :=
  match i.scalar "pe_ratio", i.scalar "eps_growth" with
  | none, _ => return .error (.missing "pe_ratio")
  | some _, none => return .error (.missing "eps_growth")
  | some pe, some growth =>
    if Quantity.atMost growth Quantity.zero then return .error (.notPositive "eps_growth")
    else do
      let ratio ← quotient pe growth
      return .ok ratio

def debtToCashFlow (i : Inputs α) : Calculation α (Except MetricFault α) :=
  match i.scalar "total_debt", i.scalar "free_cash_flow" with
  | none, _ => return .error (.missing "total_debt")
  | some debt, some flow =>
    if positive flow then do
      let ratio ← quotient debt flow
      return .ok ratio
    else return .error (.notPositive "free_cash_flow")
  | some _, none => return .error (.missing "free_cash_flow")

/-- The free cash flow as a percentage of the revenue. -/
def cashFlowMargin (i : Inputs α) : Calculation α (Except MetricFault α) :=
  match i.scalar "free_cash_flow", i.scalar "revenue" with
  | none, _ => return .error (.missing "free_cash_flow")
  | some flow, some revenue =>
    if positive revenue then do
      let share ← quotient flow revenue
      return .ok (share * Quantity.ofInt 100)
    else return .error (.notPositive "revenue")
  | some _, none => return .error (.missing "revenue")

/-- The compound growth per period from the first value of a series to its last. -/
def compoundGrowth (label : String) (xs : List α) : Calculation α (Except MetricFault α) :=
  match xs with
  | first :: second :: rest =>
    let last := rest.getLastD second
    if Quantity.atMost first Quantity.zero then return .error (.startNotPositive label)
    else do
      let periods : α := Quantity.ofInt (rest.length + 1)
      let ratio ← quotient last first
      let exponent ← quotient Quantity.one periods
      return match Quantity.power? ratio exponent with
        | some p => .ok (p - Quantity.one)
        | none => .error (.undefinedGrowth label)
  | _ => return .error (.tooFew label)

def consistency (xs : List α) : Calculation α (Except MetricFault α) :=
  if xs.length < 2 then return .error (.tooFew "eps")
  else do
    let share ← quotient (Quantity.ofInt ((xs.filter positive).length : Nat))
      (Quantity.ofInt (xs.length : Nat))
    return .ok share

def calculation (m : MetricName) (i : Inputs α) : Calculation α (Except MetricFault α) :=
  match m with
  | .peg => peg i
  | .debtToCashFlow => debtToCashFlow i
  | .epsGrowth => compoundGrowth "eps" (i.series "eps_history")
  | .revenueGrowth => compoundGrowth "revenue" (i.series "revenue_history")
  | .cashFlowMargin => cashFlowMargin i
  | .earningsConsistency => consistency (i.series "eps_history")

def compute (m : MetricName) (i : Inputs α) : Except MetricError α :=
  ((calculation m i).run (· / ·)).mapError fun fault => ⟨m, fault⟩

end Metric

end EquityScreen
