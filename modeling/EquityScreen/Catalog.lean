namespace EquityScreen

inductive Table where
  | companies
  | quarterly
  | annual
  | ownership
  | cashFlows
  deriving DecidableEq, Repr

namespace Table

def all : List Table := [.companies, .quarterly, .annual, .ownership, .cashFlows]

def key : Table → String
  | .companies => "companies"
  | .quarterly => "fundamentals_quarterly"
  | .annual => "fundamentals_annual"
  | .ownership => "ownership"
  | .cashFlows => "cashflow_statements"

end Table

/-- The physical names of tables, by key; a key that is not mapped names its table itself. -/
abbrev TableNames := List (String × String)

namespace TableNames

def physical (names : TableNames) (t : Table) : String :=
  ((names.find? fun n => n.1 = t.key).map (·.2)).getD t.key

end TableNames

inductive Source where
  | company
  | fundamentals
  | ownership
  deriving DecidableEq, Repr

namespace Source

def letter : Source → String
  | .company => "c"
  | .fundamentals => "f"
  | .ownership => "o"

def table : Source → Table
  | .company => .companies
  | .fundamentals => .quarterly
  | .ownership => .ownership

end Source

inductive FieldKind where
  | numeric
  | text
  deriving DecidableEq, Repr

structure Field where
  name : String
  source : Source
  column : String
  kind : FieldKind
  deriving DecidableEq, Repr

namespace Field

/-- Periodic fields are kept per quarter and per year, so that they may carry a window or a
trend. -/
def isPeriodic (f : Field) : Bool := f.source = .fundamentals

def qualified (f : Field) : String := f.source.letter ++ "." ++ f.column

def fundamental (column : String) : Field := ⟨column, .fundamentals, column, .numeric⟩

def fundamentalAs (name column : String) : Field := ⟨name, .fundamentals, column, .numeric⟩

end Field

/-- All fields. Two pairs of names share a column: `price_to_book` is `pb_ratio`, and `debt` is
`total_debt`. -/
def catalog : List Field :=
  [⟨"market_cap", .company, "market_cap", .numeric⟩,
   ⟨"sector", .company, "sector", .text⟩,
   ⟨"industry", .company, "industry", .text⟩,
   ⟨"exchange", .company, "exchange", .text⟩,
   .fundamental "revenue",
   .fundamental "net_income",
   .fundamental "net_profit",
   .fundamental "ebitda",
   .fundamental "eps",
   .fundamental "eps_growth",
   .fundamental "pe_ratio",
   .fundamental "pb_ratio",
   .fundamentalAs "price_to_book" "pb_ratio",
   .fundamental "roe",
   .fundamental "roa",
   .fundamental "operating_margin",
   .fundamental "total_debt",
   .fundamentalAs "debt" "total_debt",
   .fundamental "debt_to_equity",
   .fundamental "free_cash_flow",
   .fundamental "revenue_growth",
   .fundamental "revenue_growth_yoy",
   .fundamental "earnings_growth_yoy",
   ⟨"promoter_holding", .ownership, "promoter_holding", .numeric⟩]

def field? (name : String) : Option Field := catalog.find? fun f => f.name = name

def baseColumns : List String := ["ticker", "name", "sector", "exchange", "market_cap"]

def tickerColumn : String := "ticker"

def periodColumn : Table → String
  | .annual => "fiscal_year"
  | .cashFlows => "period_end"
  | _ => "fiscal_period"

end EquityScreen
