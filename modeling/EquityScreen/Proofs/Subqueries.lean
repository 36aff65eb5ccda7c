import EquityScreen.Database.Scalar
import EquityScreen.Predicate.Meaning

/-!
The subqueries inside predicates, clause by clause: their text and what it says. A subquery takes
the newest facts of the company at hand, may put columns beside them that are computed from all of
these rows, and ends in a test of all rows or in one value.
-/

namespace EquityScreen

namespace Cell

variable {α : Type} [Quantity α]

def int? : Cell α → Option Int
  | .int n => some n
  | _ => none

def total : List (Cell α) → Cell α
  | [] => .null
  | vs => match vs.mapM int? with
    | some ns => .int (ns.foldl (· + ·) 0)
    | none => .real (Quantity.sum (vs.map magnitude))

def average : List (Cell α) → Cell α
  | [] => .null
  | vs => .real (Aggregation.mean (vs.map magnitude))

def absolute : Cell α → Cell α
  | .null => .null
  | .int n => .int n.natAbs
  | v => .real (Quantity.abs v.magnitude)

end Cell

namespace Subquery

variable {α : Type} [Quantity α]

inductive Arithmetic where
  | minus
  | times
  | over
  deriving DecidableEq, Repr

namespace Arithmetic

def symbol : Arithmetic → String
  | .minus => "-"
  | .times => "*"
  | .over => "/"

/-- Operations of a higher level bind tighter; those of one level go from left to right. -/
def level : Arithmetic → Nat
  | .minus => 0
  | .times | .over => 1

/-- Integers give an integer, and nothing is divided by zero. -/
def apply (op : Arithmetic) : Cell α → Cell α → Cell α
  | .null, _ | _, .null => .null
  | .int m, .int n => match op with
    | .minus => .int (m - n)
    | .times => .int (m * n)
    | .over => if n = 0 then .null else .int (m.tdiv n)
  | v, w => match op with
    | .minus => .real (v.magnitude - w.magnitude)
    | .times => .real (v.magnitude * w.magnitude)
    | .over =>
      if Quantity.same w.magnitude (Quantity.zero : α) then .null
      else .real (v.magnitude / w.magnitude)

end Arithmetic

inductive Term where
  | column (name : String)
  | columnOf (letter name : String)
  | int (n : Nat)
  | decimal (whole tenths : Nat)
  | arithmetic (op : Arithmetic) (x y : Term)
  | abs (x : Term)
  | power (x y : Term)
  | nullIf (x y : Term)
  deriving DecidableEq, Repr

/-- The columns that a term can see, by letter and name. -/
abbrev Scope (α : Type) := Option String → String → Cell α

namespace Term

def level : Term → Nat
  | .arithmetic op _ _ => op.level
  | _ => 2

def enclosed (b : Bool) (text : String) : String := if b then "(" ++ text ++ ")" else text

def text : Term → String
  | .column name => name
  | .columnOf letter name => letter ++ "." ++ name
  | .int n => toString n
  | .decimal whole tenths => toString whole ++ "." ++ toString tenths
  | .arithmetic op x y =>
    enclosed (x.level < op.level) x.text ++ " " ++ op.symbol ++ " " ++
      enclosed (y.level ≤ op.level) y.text
  | .abs x => "ABS(" ++ x.text ++ ")"
  | .power x y => "POWER(" ++ x.text ++ ", " ++ y.text ++ ")"
  | .nullIf x y => "NULLIF(" ++ x.text ++ ", " ++ y.text ++ ")"

def value (scope : Scope α) : Term → Cell α
  | .column name => scope none name
  | .columnOf letter name => scope (some letter) name
  | .int n => .int n
  | .decimal whole tenths =>
    .real (Quantity.ofInt whole + Quantity.ofInt tenths * Quantity.tenth)
  | .arithmetic op x y => op.apply (x.value scope) (y.value scope)
  | .abs x => (x.value scope).absolute
  -- a text, which the power function refuses, would end the query
  | .power x y => (Database.power (x.value scope) (y.value scope)).toOption.getD .null
  | .nullIf x y =>
    if (x.value scope).equals (y.value scope) then .null else x.value scope

end Term

inductive Test where
  | compare (x : Term) (op : Operator) (y : Term)
  | present (x : Term)
  | and (a b : Test)
  deriving DecidableEq, Repr

namespace Test

def text : Test → String
  | .compare x op y => Predicate.comparison x.text op.sql y.text
  | .present x => x.text ++ " IS NOT NULL"
  | .and a b => a.text ++ " AND " ++ b.text

def truth (scope : Scope α) : Test → Truth
  | .compare x op y => Predicate.compareCells op (x.value scope) (y.value scope)
  | .present x => Truth.ofBool !(x.value scope).isNull
  | .and a b => (a.truth scope).and (b.truth scope)

end Test

inductive Item where
  | term (x : Term)
  | choice (test : Test) (yes : Term) (no : Option Term)
  deriving DecidableEq, Repr

namespace Item

def text : Item → String
  | .term x => x.text
  | .choice test yes no =>
    "CASE WHEN " ++ test.text ++ " THEN " ++ yes.text ++ (match no with
      | some x => " ELSE " ++ x.text
      | none => "") ++ " END"

def value (scope : Scope α) : Item → Cell α
  | .term x => x.value scope
  | .choice test yes no =>
    if test.truth scope = .yes then yes.value scope
    else (no.map (Term.value scope)).getD .null

end Item

/-- The columns of a row that a subquery yields; they go by no letter. -/
def inRow (r : Row α) : Scope α := fun _ name => Row.get r name

/-- The columns of a fact `h` and of the company `c` at hand. -/
def inFact (company r : Row α) : Scope α := fun letter name =>
  if letter = some "c" then Row.get company name else Row.get r name

def inLettered (fact : String) (company r : Row α) : Scope α := fun letter name =>
  if letter = some fact then Row.get r name
  else if letter = some "c" then Row.get company name else .null

/-- The rows that pass a test, from the greatest value of a term down. -/
def ranked (scope : Row α → Scope α) (test : Test) (order : Term) (rows : List (Row α)) :
    List (Row α) :=
  let key (r : Row α) := order.value (scope r)
  (rows.filter fun r => test.truth (scope r) = .yes).mergeSort fun a b =>
    (Cell.order (key b) (key a)).isLE

def sortedBy (column : String) (d : Direction) (rows : List (Row α)) : List (Row α) :=
  match d with
  | .ascending => rows.mergeSort fun a b => (Cell.order (Row.get a column) (Row.get b column)).isLE
  | .descending => newestFirst column rows

/-- The facts of the company at hand that have a value in a column. -/
def ownFacts (letter column : String) : Test :=
  .and (.compare (.columnOf letter tickerColumn) .eq (.columnOf "c" tickerColumn))
    (.present (.columnOf letter column))

def list (texts : List String) : String := String.intercalate ", " texts

theorem list_pair (s t : String) : list [s, t] = s ++ (", " ++ t) := by
  simp [list, String.intercalate_cons_cons, String.append_assoc]

def named (text name : String) : String := text ++ " AS " ++ name

/-- The facts that pass a test, newest first and at most so many. -/
structure Facts where
  columns : List (Term × String)
  unit : WindowUnit
  test : Test
  order : Term
  limit : Nat
  deriving DecidableEq, Repr

namespace Facts

def text (names : TableNames) (s : Facts) : String :=
  "SELECT " ++ list (s.columns.map fun c => named c.1.text c.2) ++ " FROM " ++
    names.physical s.unit.table ++ " h WHERE " ++ s.test.text ++ " ORDER BY " ++ s.order.text ++
    " DESC LIMIT " ++ toString s.limit

def rows (h : History α) (company : Row α) (s : Facts) : List (Row α) :=
  ((ranked (inFact company) s.test s.order (h s.unit)).take s.limit).map fun r =>
    s.columns.map fun (x, name) => (name, x.value (inFact company r))

end Facts

inductive Frame where
  /-- The cell of the row before, in ascending order of a column. -/
  | lag (column order : String)
  /-- The cell of the first row in an order. -/
  | first (column order : String) (d : Direction)
  | mean (column : String)
  | count
  deriving DecidableEq, Repr

namespace Frame

def direction : Direction → String
  | .ascending => ""
  | .descending => " DESC"

def text : Frame → String
  | .lag column order => "LAG(" ++ column ++ ") OVER (ORDER BY " ++ order ++ ")"
  | .first column order d =>
    "FIRST_VALUE(" ++ column ++ ") OVER (ORDER BY " ++ order ++ direction d ++ ")"
  | .mean column => "AVG(" ++ column ++ ") OVER ()"
  | .count => "COUNT(*) OVER ()"

theorem text_lag (column order : String) :
    (lag column order).text = "LAG(" ++ column ++ ") OVER (ORDER BY " ++ order ++ ")" := rfl

theorem text_first (column order : String) (d : Direction) : (first column order d).text =
    "FIRST_VALUE(" ++ column ++ ") OVER (ORDER BY " ++ order ++ direction d ++ ")" := rfl

theorem text_mean (column : String) : (mean column).text = "AVG(" ++ column ++ ") OVER ()" := rfl

theorem text_count : count.text = "COUNT(*) OVER ()" := rfl

def headCell (column : String) (rows : List (Row α)) : Cell α :=
  (rows.head?.map fun r => Row.get r column).getD .null

def cells (column : String) (rows : List (Row α)) : List (Cell α) :=
  (rows.map fun r => Row.get r column).filter fun v => !v.isNull

def value (rows : List (Row α)) (r : Row α) : Frame → Cell α
  | .lag column order =>
    let before := rows.filter fun s => Cell.order (Row.get s order) (Row.get r order) = .lt
    headCell column (sortedBy order .descending before)
  | .first column order d => headCell column (sortedBy order d rows)
  | .mean column => Cell.average (cells column rows)
  | .count => .int rows.length

end Frame

structure Extended where
  columns : List String
  frames : List (Frame × String)
  source : Facts
  deriving DecidableEq, Repr

namespace Extended

def heading (s : Extended) : String :=
  list (s.columns ++ s.frames.map fun (f, name) => named f.text name)

def text (names : TableNames) (s : Extended) : String :=
  "SELECT " ++ s.heading ++ " FROM (" ++ s.source.text names ++ ") w"

def rows (h : History α) (company : Row α) (s : Extended) : List (Row α) :=
  let rows := s.source.rows h company
  rows.map fun r => (s.columns.map fun name => (name, Row.get r name)) ++
    s.frames.map fun (f, name) => (name, f.value rows r)

end Extended

inductive Measure where
  | count
  | sum (x : Item)
  | mean (x : Item)
  deriving DecidableEq, Repr

namespace Measure

def text : Measure → String
  | .count => "COUNT(*)"
  | .sum x => "SUM(" ++ x.text ++ ")"
  | .mean x => "AVG(" ++ x.text ++ ")"

def cells (x : Item) (rows : List (Row α)) : List (Cell α) :=
  (rows.map fun r => x.value (inRow r)).filter fun v => !v.isNull

def value (rows : List (Row α)) : Measure → Cell α
  | .count => .int rows.length
  | .sum x => Cell.total (cells x rows)
  | .mean x => Cell.average (cells x rows)

end Measure

end Subquery

open Subquery

/-- A subquery that tests the group of all rows. Without a grouping there is one group, even of no
rows, and it is left out unless each of its measures compares as demanded. -/
structure ExistsQuery where
  source : Extended
  having : List (Measure × Operator × Nat)
  deriving DecidableEq, Repr

namespace ExistsQuery

variable {α : Type} [Quantity α]

def demand (d : Measure × Operator × Nat) : String :=
  Predicate.comparison d.1.text d.2.1.sql (toString d.2.2)

def text (names : TableNames) (q : ExistsQuery) : String :=
  "EXISTS (SELECT COUNT(*) FROM (" ++ q.source.text names ++ ") t HAVING " ++
    String.intercalate " AND " (q.having.map demand) ++ ")"

def isMet (rows : List (Row α)) (d : Measure × Operator × Nat) : Truth :=
  Predicate.compareCells d.2.1 (d.1.value rows) (.int d.2.2)

def groups (h : History α) (company : Row α) (q : ExistsQuery) : List (List (Row α)) :=
  [q.source.rows h company].filter fun rows =>
    (q.having.map (isMet rows)).foldr Truth.and .yes = .yes

/-- The existence of a group is never unknown. -/
def truth (h : History α) (company : Row α) (q : ExistsQuery) : Truth :=
  Truth.ofBool !(q.groups h company).isEmpty

end ExistsQuery

/-- A subquery that yields one value, or nothing where it has no row. -/
inductive ValueQuery where
  | measure (m : Measure) (source : Facts)
  | newest (x : Item) (source : Facts) (order : String)
  | any (x : Item) (source : Extended)
  /-- A term of the newest fact that passes a test, where facts go by a letter. -/
  | fact (x : Term) (unit : WindowUnit) (letter : String) (test : Test) (order : Term)
  deriving DecidableEq, Repr

namespace ValueQuery

variable {α : Type} [Quantity α]

def text (names : TableNames) : ValueQuery → String
  | .measure m source => "(SELECT " ++ m.text ++ " FROM (" ++ source.text names ++ ") w)"
  | .newest x source order =>
    "(SELECT " ++ x.text ++ " FROM (" ++ source.text names ++ ") w ORDER BY " ++ order ++
      " DESC LIMIT 1)"
  | .any x source => "(SELECT " ++ x.text ++ " FROM (" ++ source.text names ++ ") t LIMIT 1)"
  | .fact x unit letter test order =>
    "(SELECT " ++ x.text ++ " FROM " ++ names.physical unit.table ++ " " ++ letter ++ " WHERE " ++
      test.text ++ " ORDER BY " ++ order.text ++ " DESC LIMIT 1)"

def headItem (x : Item) (rows : List (Row α)) : Cell α :=
  (rows.head?.map fun r => x.value (inRow r)).getD .null

def value (h : History α) (company : Row α) : ValueQuery → Cell α
  | .measure m source => m.value (source.rows h company)
  | .newest x source order =>
    headItem x (sortedBy order .descending (source.rows h company))
  | .any x source => headItem x (source.rows h company)
  | .fact x unit letter test order =>
    let scope := inLettered letter company
    ((ranked scope test order (h unit)).head?.map fun r => x.value (scope r)).getD .null

end ValueQuery

namespace Trailing

def facts (w : Trailing) : Facts where
  columns := [(.columnOf "h" w.column, "v"), (.columnOf "h" w.period, "p")]
  unit := w.unit
  test := ownFacts "h" w.column
  order := .columnOf "h" w.period
  limit := w.length

theorem text_facts (names : TableNames) (w : Trailing) :
    w.facts.text names = w.text names := by
  have hvalue : "SELECT h." = "SELECT " ++ ("h" ++ ".") := by simp
  have hperiod : " AS v, h." = " AS " ++ ("v" ++ (", " ++ ("h" ++ "."))) := by simp
  have htable : " AS p FROM " = " AS " ++ ("p" ++ " FROM ") := by simp
  have htest : " h WHERE h.ticker = c.ticker AND h." = " h WHERE " ++ ("h" ++ ("." ++
      (tickerColumn ++ (" " ++ ("=" ++ (" " ++ ("c" ++ ("." ++ (tickerColumn ++
        (" AND " ++ ("h" ++ "."))))))))))) := by
    simp [tickerColumn]
  have horder : " IS NOT NULL ORDER BY h." =
      " IS NOT NULL" ++ (" ORDER BY " ++ ("h" ++ ".")) := by simp
  unfold Trailing.text Facts.text
  rw [hvalue, hperiod, htable, htest, horder]
  simp only [facts, ownFacts, List.map_cons, List.map_nil, list_pair, named, Term.text, Test.text,
    Predicate.comparison, Operator.sql, String.append_assoc]

end Trailing

namespace Trend

/-- One for each row that fails a test is zero in sum. -/
def noneIs (test : Test) : Measure × Operator × Nat :=
  (.sum (.choice test (.int 1) (some (.int 0))), .eq, 0)

def frame : Trend → Frame × String
  | .increasing | .decreasing => (.lag "v" "p", "prev_v")
  | .stable => (.mean "v", "avg_v")

def breaking : Trend → Test
  | .increasing =>
    .and (.present (.column "prev_v")) (.compare (.column "v") .le (.column "prev_v"))
  | .decreasing =>
    .and (.present (.column "prev_v")) (.compare (.column "v") .ge (.column "prev_v"))
  | .stable =>
    .compare (.abs (.arithmetic .minus (.column "v") (.column "avg_v"))) .gt
      (.arithmetic .times (.decimal 0 1) (.abs (.column "avg_v")))

def query (t : Trend) (w : Trailing) : ExistsQuery where
  source := ⟨["v"], [t.frame], w.facts⟩
  having := [(.count, .ge, w.length), noneIs t.breaking]

theorem heading_query (t : Trend) (w : Trailing) : (t.query w).source.heading = match t with
    | .increasing | .decreasing => "v, LAG(v) OVER (ORDER BY p) AS prev_v"
    | .stable => "v, AVG(v) OVER () AS avg_v" := by
  unfold Extended.heading
  cases t <;> simp [query, frame, list_pair, named, Frame.text_lag, Frame.text_mean]

theorem demand_breaking (t : Trend) : ExistsQuery.demand (noneIs t.breaking) = match t with
    | .increasing => "SUM(CASE WHEN prev_v IS NOT NULL AND v <= prev_v THEN 1 ELSE 0 END) = 0"
    | .decreasing => "SUM(CASE WHEN prev_v IS NOT NULL AND v >= prev_v THEN 1 ELSE 0 END) = 0"
    | .stable => "SUM(CASE WHEN ABS(v - avg_v) > 0.1 * ABS(avg_v) THEN 1 ELSE 0 END) = 0" := by
  cases t <;> rfl

theorem query_text (names : TableNames) (t : Trend) (w : Trailing) :
    (t.query w).text names =
      "EXISTS (SELECT COUNT(*) FROM (SELECT " ++ (t.query w).source.heading ++ " FROM (" ++
        w.text names ++ ") w) t HAVING COUNT(*) >= " ++ toString w.length ++ " AND " ++
        ExistsQuery.demand (noneIs t.breaking) ++ ")" := by
  have hopening : "EXISTS (SELECT COUNT(*) FROM (SELECT " =
      "EXISTS (SELECT COUNT(*) FROM (" ++ "SELECT " := by simp
  have hcount : ") w) t HAVING COUNT(*) >= " =
      ") w" ++ (") t HAVING " ++ (Measure.count.text ++ (" " ++ (Operator.ge.sql ++ " ")))) := by
    simp [Measure.text, Operator.sql]
  have hdemands : (t.query w).having.map ExistsQuery.demand =
      [ExistsQuery.demand (.count, .ge, w.length), ExistsQuery.demand (noneIs t.breaking)] := rfl
  have hsource : (t.query w).source.source = w.facts := rfl
  rw [hopening, hcount]
  unfold ExistsQuery.text Extended.text
  rw [hdemands, hsource, Trailing.text_facts]
  simp only [ExistsQuery.demand.eq_def (Measure.count, _), Predicate.comparison,
    String.append_assoc, String.intercalate_cons_cons, String.intercalate_singleton]

theorem text_query (names : TableNames) (t : Trend) (w : Trailing) :
    (t.query w).text names = Predicate.trendText names t w := by
  rw [query_text, heading_query, demand_breaking]
  unfold Predicate.trendText
  cases t <;> simp only [String.reduceAppend, String.append_assoc]

end Trend

namespace Aggregation

/-- Growth is computed from several values that start above zero and do not end below it. -/
def growthTest : Test :=
  .and (.and (.compare (.column "n") .gt (.int 1)) (.compare (.column "first_v") .gt (.int 0)))
    (.compare (.column "last_v") .ge (.int 0))

/-- The last value as a multiple of the first. -/
def growthRatio : Term :=
  .arithmetic .over (.arithmetic .times (.column "last_v") (.decimal 1 0))
    (.nullIf (.column "first_v") (.int 0))

def growthShare : Term :=
  .arithmetic .over (.decimal 1 0) (.arithmetic .minus (.column "n") (.int 1))

def growthItem : Item :=
  .choice growthTest (.arithmetic .minus (.power growthRatio growthShare) (.int 1)) none

def growthFrames : List (Frame × String) :=
  [(.first "v" "p" .ascending, "first_v"), (.first "v" "p" .descending, "last_v"), (.count, "n")]

def query (a : Aggregation) (w : Trailing) : ValueQuery :=
  match a with
  | .avg => .measure (.mean (.term (.column "v"))) w.facts
  | .sum => .measure (.sum (.term (.column "v"))) w.facts
  | .latest => .newest (.term (.column "v")) w.facts "p"
  | .cagr => .any growthItem ⟨[], growthFrames, w.facts⟩

theorem text_growthItem : growthItem.text =
    "CASE WHEN n > 1 AND first_v > 0 AND last_v >= 0 " ++
      "THEN POWER(last_v * 1.0 / NULLIF(first_v, 0), 1.0 / (n - 1)) - 1 END" := by
  rfl

theorem heading_growth (source : Facts) : Extended.heading ⟨[], growthFrames, source⟩ =
    "FIRST_VALUE(v) OVER (ORDER BY p) AS first_v, " ++
      "FIRST_VALUE(v) OVER (ORDER BY p DESC) AS last_v, COUNT(*) OVER () AS n" := by
  simp [Extended.heading, list, growthFrames, named, Frame.text_first, Frame.text_count,
    Frame.direction, String.intercalate_cons_cons]

theorem text_query (names : TableNames) (a : Aggregation) (w : Trailing) :
    (a.query w).text names = Operand.aggregateText names w a := by
  unfold query ValueQuery.text Operand.aggregateText Extended.text
  cases a with
  | avg | sum | latest =>
    dsimp only
    rw [Trailing.text_facts]
    simp only [Measure.text, Item.text, Term.text, String.append_assoc, String.reduceAppend]
  | cagr =>
    dsimp only
    rw [Trailing.text_facts, text_growthItem, heading_growth]
    simp only [String.append_assoc, String.reduceAppend]
    rw [← String.append_assoc]
    simp only [String.reduceAppend]

end Aggregation

end EquityScreen
