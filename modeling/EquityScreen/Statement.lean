import EquityScreen.Cell
import EquityScreen.Literal
import EquityScreen.Predicate

namespace EquityScreen

/-- An identifier in double quotes; a quote inside it is doubled. -/
def quoted (name : String) : String :=
  "\"" ++ String.ofList (name.toList.flatMap fun c => if c = '"' then ['"', '"'] else [c]) ++ "\""

/-- A table by its physical name; what stands before the first point is a schema. -/
def quotedTable (name : String) : String :=
  let cs := name.toList
  let schema := cs.takeWhile (· ≠ '.')
  match cs.dropWhile (· ≠ '.') with
  | [] => quoted name
  | _ :: table => quoted (String.ofList schema) ++ "." ++ quoted (String.ofList table)

structure OrderKey where
  source : Source
  column : String
  direction : Direction
  deriving DecidableEq, Repr

/-- The selection of candidates: companies, joined with their newest quarter and their ownership
where these are read. -/
structure Selection where
  /-- Columns shown under the names of their fields, after the base columns. -/
  shown : List Field
  joins : List Source
  condition : Option Predicate
  order : List OrderKey
  limit : Option Nat

namespace Selection

def columnText (s : Source) (column : String) : String :=
  quoted s.letter ++ "." ++ quoted column

def shownText (f : Field) : String :=
  columnText f.source f.column ++ " AS " ++ quoted f.name

/-- A row joins its company; a quarter does so only if it is the newest. -/
def joinText (names : TableNames) (s : Source) : String :=
  let same := s.letter ++ ".ticker = c.ticker"
  let on := match s with
    | .fundamentals =>
      same ++ " AND " ++ s.letter ++ ".fiscal_period = (SELECT MAX(q.fiscal_period) FROM " ++
        names.physical .quarterly ++ " q WHERE q.ticker = c.ticker)"
    | _ => same
  " LEFT JOIN " ++ quotedTable (names.physical s.table) ++ " AS " ++ quoted s.letter ++ " ON " ++ on

def orderText (k : OrderKey) : String :=
  columnText k.source k.column ++ (match k.direction with
    | .ascending => " ASC"
    | .descending => " DESC")

def text (names : TableNames) (s : Selection) : String :=
  "SELECT " ++
  String.intercalate ", " (baseColumns.map (columnText .company) ++ s.shown.map shownText) ++
  " FROM " ++ quotedTable (names.physical .companies) ++ " AS " ++ quoted Source.company.letter ++
  String.join (s.joins.map (joinText names)) ++
  (match s.condition with
    | some p => " WHERE " ++ p.text names
    | none => "") ++
  " ORDER BY " ++ String.intercalate ", " (s.order.map orderText) ++
  (match s.limit with
    | some n => " LIMIT " ++ toString n
    | none => "")

end Selection

inductive Parameter (α : Type) where
  | literal (l : Literal α)
  | count (n : Nat)
  deriving DecidableEq, Repr

namespace Parameter

def cell {α : Type} : Parameter α → Cell α
  | .literal (.int n) => .int n
  | .literal (.real x) => .real x
  | .literal (.text s) => .text s
  | .literal (.bool b) => .flag b
  | .literal .null => .null
  | .count n => .int n

end Parameter

inductive Statement (α : Type) where
  | candidates (s : Selection) (params : List (Literal α))
  | facts (unit : WindowUnit) (columns : List String) (ticker : String) (length : Nat)
  | cashFlows (ticker : String) (length : Nat)

namespace Statement

variable {α : Type}

def cashFlowColumn : String := "free_cash_flow"

def newestText (table : String) (columns : List String) (period only : String) : String :=
  "SELECT " ++ String.intercalate ", " ((period :: columns).map quoted) ++ " FROM " ++
    quotedTable table ++ " WHERE " ++ quoted tickerColumn ++ " = $1" ++ only ++
    " ORDER BY " ++ quoted period ++ " DESC LIMIT $2"

def text (names : TableNames) : Statement α → String
  | .candidates s _ => s.text names
  | .facts unit columns _ _ =>
    newestText (names.physical unit.table) columns (periodColumn unit.table) ""
  | .cashFlows _ _ =>
    newestText (names.physical .cashFlows) [cashFlowColumn] (periodColumn .cashFlows)
      (" AND " ++ quoted cashFlowColumn ++ " IS NOT NULL")

def params : Statement α → List (Parameter α)
  | .candidates _ params => params.map .literal
  | .facts _ _ ticker length | .cashFlows ticker length =>
    [.literal (.text ticker), .count length]

end Statement

end EquityScreen
