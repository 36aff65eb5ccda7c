import EquityScreen.Catalog
import EquityScreen.Filter

namespace EquityScreen

/-- The newest values of a periodic column, without gaps, for the company at hand. -/
structure Trailing where
  unit : WindowUnit
  column : String
  length : Nat
  deriving DecidableEq, Repr

def WindowUnit.table : WindowUnit → Table
  | .quarters => .quarterly
  | .years => .annual

namespace Trailing

def period (w : Trailing) : String := periodColumn w.unit.table

def text (names : TableNames) (w : Trailing) : String :=
  "SELECT h." ++ w.column ++ " AS v, h." ++ w.period ++ " AS p FROM " ++
    names.physical w.unit.table ++ " h WHERE h.ticker = c.ticker AND h." ++ w.column ++
    " IS NOT NULL ORDER BY h." ++ w.period ++ " DESC LIMIT " ++ toString w.length

end Trailing

inductive Operand where
  | column (f : Field)
  /-- The column or, where it is empty, the newest annual value. -/
  | orAnnual (f : Field)
  | aggregate (a : Aggregation) (w : Trailing)
  deriving DecidableEq, Repr

namespace Operand

def aggregateText (names : TableNames) (w : Trailing) : Aggregation → String
  | .avg => "(SELECT AVG(v) FROM (" ++ w.text names ++ ") w)"
  | .sum => "(SELECT SUM(v) FROM (" ++ w.text names ++ ") w)"
  | .latest => "(SELECT v FROM (" ++ w.text names ++ ") w ORDER BY p DESC LIMIT 1)"
  | .cagr =>
    "(SELECT CASE WHEN n > 1 AND first_v > 0 AND last_v >= 0 " ++
    "THEN POWER(last_v * 1.0 / NULLIF(first_v, 0), 1.0 / (n - 1)) - 1 END " ++
    "FROM (SELECT FIRST_VALUE(v) OVER (ORDER BY p) AS first_v, " ++
    "FIRST_VALUE(v) OVER (ORDER BY p DESC) AS last_v, " ++
    "COUNT(*) OVER () AS n FROM (" ++ w.text names ++ ") w) t LIMIT 1)"

def text (names : TableNames) : Operand → String
  | .column f => f.qualified
  | .orAnnual f =>
    "COALESCE(" ++ f.qualified ++ ", (SELECT a." ++ f.column ++ " FROM " ++
      names.physical .annual ++ " a WHERE a.ticker = c.ticker AND a." ++ f.column ++
      " IS NOT NULL ORDER BY a.fiscal_year DESC LIMIT 1))"
  | .aggregate a w => aggregateText names w a

def readsHistory : Operand → Bool
  | .column _ => false
  | .orAnnual _ | .aggregate _ _ => true

end Operand

inductive Predicate where
  | compare (x : Operand) (op : Operator) (n : Nat)
  /-- Both bounds are included. -/
  | between (x : Operand) (low high : Nat)
  /-- Neither bound is included. -/
  | inside (x : Operand) (low high : Nat)
  | present (f : Field) (p : Predicate)
  | missingOr (f : Field) (p : Predicate)
  | trend (t : Trend) (w : Trailing)
  | group (c : Connective) (ps : List Predicate)
  | not (p : Predicate)

namespace Predicate

def placeholder (n : Nat) : String := "$" ++ toString n

def comparison (left op right : String) : String := left ++ " " ++ op ++ " " ++ right

/-- A trend holds when the window is full and no value of it breaks the trend. -/
def trendText (names : TableNames) (t : Trend) (w : Trailing) : String :=
  let steps (broken : String) :=
    "EXISTS (SELECT COUNT(*) FROM (SELECT v, LAG(v) OVER (ORDER BY p) AS prev_v FROM (" ++
    w.text names ++ ") w) t HAVING COUNT(*) >= " ++ toString w.length ++
    " AND SUM(CASE WHEN prev_v IS NOT NULL AND " ++ broken ++ " THEN 1 ELSE 0 END) = 0)"
  match t with
  | .increasing => steps "v <= prev_v"
  | .decreasing => steps "v >= prev_v"
  | .stable =>
    "EXISTS (SELECT COUNT(*) FROM (SELECT v, AVG(v) OVER () AS avg_v FROM (" ++
    w.text names ++ ") w) t HAVING COUNT(*) >= " ++ toString w.length ++
    " AND SUM(CASE WHEN ABS(v - avg_v) > 0.1 * ABS(avg_v) THEN 1 ELSE 0 END) = 0)"

mutual

def text (names : TableNames) : Predicate → String
  | .compare x op n => comparison (x.text names) op.sql (placeholder n)
  | .between x low high =>
    x.text names ++ " BETWEEN " ++ placeholder low ++ " AND " ++ placeholder high
  | .inside x low high =>
    "(" ++ comparison (x.text names) ">" (placeholder low) ++ " AND " ++
      comparison (x.text names) "<" (placeholder high) ++ ")"
  | .present f p => "(" ++ f.qualified ++ " IS NOT NULL AND " ++ text names p ++ ")"
  | .missingOr f p => "(" ++ f.qualified ++ " IS NULL OR " ++ text names p ++ ")"
  | .trend t w => trendText names t w
  | .group c ps => "(" ++ String.intercalate (" " ++ c.upper ++ " ") (texts names ps) ++ ")"
  | .not p => "NOT (" ++ text names p ++ ")"

def texts (names : TableNames) : List Predicate → List String
  | [] => []
  | p :: rest => text names p :: texts names rest

end

mutual

def readsHistory : Predicate → Bool
  | .compare x _ _ | .between x _ _ | .inside x _ _ => x.readsHistory
  | .present _ p | .missingOr _ p | .not p => p.readsHistory
  | .trend _ _ => true
  | .group _ ps => anyReadsHistory ps

def anyReadsHistory : List Predicate → Bool
  | [] => false
  | p :: rest => p.readsHistory || anyReadsHistory rest

end

end Predicate

end EquityScreen
