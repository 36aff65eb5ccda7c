import EquityScreen.Database
import EquityScreen.Predicate.Meaning
import EquityScreen.Store

/-!
How a database answers the statements of a screen. A statement is refused when a table or a column
that its text names does not exist, whether or not a row would reach it.
-/

namespace EquityScreen

structure ColumnUse where
  table : Table
  column : String
  deriving DecidableEq, Repr

namespace ColumnUse

def trailing (w : Trailing) : List ColumnUse :=
  [tickerColumn, w.period, w.column].map (⟨w.unit.table, ·⟩)

def field (f : Field) : ColumnUse := ⟨f.source.table, f.column⟩

def operand : Operand → List ColumnUse
  | .column f => [field f]
  | .orAnnual f => field f :: trailing ⟨.years, f.column, 1⟩
  | .aggregate _ w => trailing w

mutual

def predicate : Predicate → List ColumnUse
  | .compare x _ _ | .between x _ _ | .inside x _ _ => operand x
  | .present f p | .missingOr f p => field f :: predicate p
  | .trend _ w => trailing w
  | .group _ ps => predicates ps
  | .not p => predicate p

def predicates : List Predicate → List ColumnUse
  | [] => []
  | p :: rest => predicate p ++ predicates rest

end

def join (s : Source) : List ColumnUse :=
  (if s = .fundamentals then [tickerColumn, periodColumn .quarterly] else [tickerColumn]).map
    (⟨s.table, ·⟩)

def selection (s : Selection) : List ColumnUse :=
  (tickerColumn :: baseColumns).map (⟨.companies, ·⟩) ++ s.shown.map field ++
    s.joins.flatMap join ++ (s.condition.map predicate).getD [] ++
    s.order.map fun k => ⟨k.source.table, k.column⟩

def statement {α : Type} : Statement α → List ColumnUse
  | .candidates s _ => selection s
  | .facts unit columns _ _ =>
    (tickerColumn :: periodColumn unit.table :: columns).map (⟨unit.table, ·⟩)
  | .cashFlows _ _ =>
    [tickerColumn, periodColumn .cashFlows, Statement.cashFlowColumn].map (⟨.cashFlows, ·⟩)

end ColumnUse

namespace Database

variable {α : Type} [Quantity α]

def resolves (names : TableNames) (db : Database α) (u : ColumnUse) : Bool :=
  match db.relation? (names.physical u.table) with
  | some r => (r.column? u.column).isSome
  | none => false

def history (names : TableNames) (db : Database α) : History α := fun unit =>
  db.rows (names.physical unit.table)

def outer (matching : List (Row α)) : List (Row α) :=
  if matching.isEmpty then [[]] else matching

def sameTicker (company r : Row α) : Bool :=
  (Row.get r tickerColumn).equals (Row.get company tickerColumn)

/-- The greatest cell of a column; of no rows it is absent. -/
def greatest (column : String) (rows : List (Row α)) : Cell α :=
  rows.foldl (fun m r =>
    let v := Row.get r column
    if (Cell.order m v).isLE then v else m) .null

def newestQuarters (quarters : List (Row α)) (company : Row α) : List (Row α) :=
  let own := quarters.filter (sameTicker company)
  let newest := greatest (periodColumn .quarterly) own
  own.filter fun q => (Row.get q (periodColumn .quarterly)).equals newest

def joinedRows (names : TableNames) (db : Database α) (s : Source) (company : Row α) :
    List (Row α) :=
  let rows := db.rows (names.physical s.table)
  match s with
  | .fundamentals => newestQuarters rows company
  | _ => rows.filter (sameTicker company)

/-- All candidates before the condition: every company with the rows that join it. -/
def candidates (names : TableNames) (db : Database α) (s : Selection) : List (Candidate α) :=
  let side (source : Source) (company : Row α) : List (Row α) :=
    if s.joins.contains source then outer (db.joinedRows names source company) else [[]]
  (db.rows (names.physical .companies)).flatMap fun company =>
    (side .fundamentals company).flatMap fun quarter =>
      (side .ownership company).map fun owners => ⟨company, quarter, owners⟩

def bound (params : List (Literal α)) (n : Nat) : Cell α :=
  ((params[n - 1]?).map fun l => (Parameter.literal l).cell).getD .null

def selects (names : TableNames) (db : Database α) (s : Selection) (params : List (Literal α))
    (c : Candidate α) : Bool :=
  match s.condition with
  | some p => p.truth (db.history names) (bound params) c = .yes
  | none => true

/-- Candidates are ordered by the first key that tells them apart; absent cells come first in
ascending order and last in descending order. -/
def precedes (keys : List OrderKey) (a b : Candidate α) : Bool :=
  match keys with
  | [] => true
  | k :: rest =>
    let o := Cell.order (a.get k.source k.column) (b.get k.source k.column)
    match (match k.direction with
      | .ascending => o
      | .descending => o.swap) with
    | .lt => true
    | .gt => false
    | .eq => precedes rest a b

def takeLimit {β : Type} (limit : Option Nat) (xs : List β) : List β :=
  match limit with
  | some n => xs.take n
  | none => xs

def shownRow (s : Selection) (c : Candidate α) : Row α :=
  baseColumns.map (fun column => (column, c.get .company column)) ++
    s.shown.map fun f => (f.name, c.get f.source f.column)

def select (names : TableNames) (db : Database α) (s : Selection) (params : List (Literal α)) :
    List (Row α) :=
  let selected := (db.candidates names s).filter (db.selects names s params)
  ((takeLimit s.limit (selected.mergeSort (precedes s.order))).map (shownRow s))

def newestOf (names : TableNames) (db : Database α) (t : Table) (columns : List String)
    (ticker : String) (length : Nat) (keep : Row α → Bool) : List (Row α) :=
  let own := (db.rows (names.physical t)).filter fun r =>
    (Row.get r tickerColumn).equals (.text ticker) && keep r
  ((newestFirst (periodColumn t) own).take length).map fun r =>
    Row.project r (periodColumn t :: columns)

def answer (names : TableNames) (db : Database α) : Statement α → List (Row α)
  | .candidates s params => db.select names s params
  | .facts unit columns ticker length =>
    db.newestOf names unit.table columns ticker length fun _ => true
  | .cashFlows ticker length =>
    db.newestOf names .cashFlows [Statement.cashFlowColumn] ticker length fun r =>
      !(Row.get r Statement.cashFlowColumn).isNull

def store (names : TableNames) (db : Database α) : Store α := fun s =>
  match (ColumnUse.statement s).find? fun u => !db.resolves names u with
  | some u => .error (.refused (DatabaseError.noColumn (names.physical u.table) u.column).message)
  | none => .ok (db.answer names s)

end Database

end EquityScreen
