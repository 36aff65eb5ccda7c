import EquityScreen.Proofs.ProperPredicate
import EquityScreen.Proofs.Subqueries

namespace EquityScreen

open Subquery

namespace Truth

@[simp]
theorem ofBool_eq_yes {b : Bool} : ofBool b = .yes ↔ b = true := by cases b <;> decide

@[simp]
theorem ofBool_eq_no {b : Bool} : ofBool b = .no ↔ b = false := by cases b <;> decide

theorem and_eq_yes {a b : Truth} : a.and b = .yes ↔ a = .yes ∧ b = .yes := by
  cases a <;> cases b <;> decide

end Truth

variable {α : Type} [Quantity α]

theorem Predicate.compareCells_eq {a b : Cell α} :
    compareCells .eq a b = .yes ↔ a.equals b = true := by
  unfold compareCells Cell.equals
  cases Cell.compare? a b <;> simp [Operator.holds]

theorem Subquery.truth_ownFacts {scope : Scope α} {letter column : String} :
    (ownFacts letter column).truth scope = .yes ↔
      (scope (some letter) tickerColumn).equals (scope (some "c") tickerColumn) = true ∧
        (!(scope (some letter) column).isNull) = true := by
  simp only [ownFacts, Test.truth, Term.value, Truth.and_eq_yes, Predicate.compareCells_eq,
    Truth.ofBool_eq_yes]

def Source.ofLetter? (letter : String) : Option Source :=
  [company, fundamentals, ownership].find? fun s => s.letter = letter

theorem Source.ofLetter?_letter (s : Source) : ofLetter? s.letter = some s := by
  cases s <;> rfl

/-- What a condition compares, clause by clause. -/
inductive Comparand where
  | column (letter name : String)
  | coalesce (letter name : String) (q : ValueQuery)
  | aggregate (a : Aggregation) (w : Trailing)
  deriving DecidableEq

namespace Comparand

def text (names : TableNames) : Comparand → String
  | .column letter name => (Term.columnOf letter name).text
  | .coalesce letter name q =>
    "COALESCE(" ++ (Term.columnOf letter name).text ++ ", " ++ q.text names ++ ")"
  | .aggregate a w => (a.query w).text names

def cell (c : Candidate α) (letter name : String) : Cell α :=
  ((Source.ofLetter? letter).map fun s => c.get s name).getD .null

def value (h : History α) (c : Candidate α) : Comparand → Cell α
  | .column letter name => cell c letter name
  | .coalesce letter name q =>
    if (cell c letter name).isNull then q.value h c.company else cell c letter name
  | .aggregate a w => a.value (w.values h c)

def affinity? (letter name : String) : Option Affinity := do
  let s ← Source.ofLetter? letter
  let column ← (Schema.columns s.table).find? fun c => c.name = name
  return column.affinity

def adapt : Comparand → Cell α → Cell α
  | .column letter name, v => ((affinity? letter name).map (·.adapt v)).getD v
  | _, v => v

def compareWith (h : History α) (bound : Nat → Cell α) (c : Candidate α) (x : Comparand)
    (op : Operator) (n : Nat) : Truth :=
  Predicate.compareCells op (x.value h c) (x.adapt (bound n))

omit [Quantity α] in
theorem cell_letter (c : Candidate α) (s : Source) (name : String) :
    cell c s.letter name = c.get s name := by
  rw [cell, Source.ofLetter?_letter]
  rfl

end Comparand

namespace Operand

/-- The newest annual value of a column that is not empty, for the company at hand. -/
def annualQuery (column : String) : ValueQuery :=
  .fact (.columnOf "a" column) .years "a" (ownFacts "a" column)
    (.columnOf "a" (periodColumn .annual))

def query : Operand → Comparand
  | .column f => .column f.source.letter f.column
  | .orAnnual f => .coalesce f.source.letter f.column (annualQuery f.column)
  | .aggregate a w => .aggregate a w

theorem text_annualQuery (names : TableNames) (column : String) :
    (annualQuery column).text names =
      "(SELECT a." ++ column ++ " FROM " ++ names.physical .annual ++
        " a WHERE a.ticker = c.ticker AND a." ++ column ++
        " IS NOT NULL ORDER BY a.fiscal_year DESC LIMIT 1)" := by
  have hselect : "(SELECT a." = "(SELECT " ++ ("a" ++ ".") := by simp
  have htest : " a WHERE a.ticker = c.ticker AND a." = " " ++ ("a" ++ (" WHERE " ++ ("a" ++ ("." ++
      (tickerColumn ++ (" " ++ ("=" ++ (" " ++ ("c" ++ ("." ++ (tickerColumn ++
        (" AND " ++ ("a" ++ "."))))))))))))) := by
    simp [tickerColumn]
  have horder : " IS NOT NULL ORDER BY a.fiscal_year DESC LIMIT 1)" = " IS NOT NULL" ++
      (" ORDER BY " ++ ("a" ++ ("." ++ (periodColumn .annual ++ " DESC LIMIT 1)")))) := by
    simp [periodColumn]
  unfold annualQuery ownFacts ValueQuery.text
  dsimp only
  rw [hselect, htest, horder]
  simp only [Term.text, Test.text, Predicate.comparison, Operator.sql, WindowUnit.table,
    String.append_assoc]

theorem text_query (names : TableNames) (x : Operand) : x.query.text names = x.text names := by
  cases x with
  | column f => rfl
  | orAnnual f =>
    have hopen : ", (SELECT a." = ", " ++ "(SELECT a." := by simp
    have hclose : " IS NOT NULL ORDER BY a.fiscal_year DESC LIMIT 1))" =
        " IS NOT NULL ORDER BY a.fiscal_year DESC LIMIT 1)" ++ ")" := by simp
    unfold query Comparand.text text
    dsimp only
    rw [text_annualQuery, hopen, hclose]
    simp only [Term.text, Field.qualified, String.append_assoc]
  | aggregate a w => exact a.text_query names w

theorem value_annualQuery (h : History α) (c : Candidate α) (column : String) :
    (annualQuery column).value h c.company =
      (Trailing.values ⟨.years, column, 1⟩ h c).head?.getD .null := by
  let valued := (h .years).filter fun r =>
    (Row.get r tickerColumn).equals c.ticker && !(Row.get r column).isNull
  have hvalued : (h .years).filter
      (fun r => (ownFacts "a" column).truth (inLettered "a" c.company r) = .yes) = valued :=
    List.filter_congr fun r _ => by
      rw [Bool.eq_iff_iff, decide_eq_true_iff, truth_ownFacts, Bool.and_eq_true]
      rfl
  have hquery : (annualQuery column).value h c.company =
      ((newestFirst (periodColumn .annual) valued).head?.map fun r =>
        Row.get r column).getD .null := by
    rw [← hvalued]
    rfl
  have hwindow : Trailing.values ⟨.years, column, 1⟩ h c =
      (((newestFirst (periodColumn .annual) valued).take 1).map fun r =>
        Row.get r column).reverse := rfl
  rw [hquery, hwindow]
  cases newestFirst (periodColumn .annual) valued <;> rfl

theorem value_query (h : History α) (c : Candidate α) (x : Operand) :
    x.query.value h c = x.value h c := by
  cases x with
  | column f => exact Comparand.cell_letter c f.source f.column
  | orAnnual f => rw [query, Comparand.value, value, Comparand.cell_letter, value_annualQuery]
  | aggregate a w => rfl

theorem affinity?_column : ∀ f ∈ catalog, Comparand.affinity? f.source.letter f.column =
    some (match f.kind with
      | .text => .text
      | .numeric => .real) := by
  decide +kernel

theorem adapt_query {maxLength : Nat} {x : Operand} (hx : x ∈ upTo maxLength) (v : Cell α) :
    x.query.adapt v = x.adapt v := by
  cases x with
  | column f =>
    rw [query, Comparand.adapt, affinity?_column f (column_mem_upTo.mp hx), adapt]
    cases f.kind <;> rfl
  | orAnnual | aggregate => rfl

theorem compareWith_query {maxLength : Nat} {x : Operand} (hx : x ∈ upTo maxLength)
    (h : History α) (bound : Nat → Cell α) (c : Candidate α) (op : Operator) (n : Nat) :
    x.query.compareWith h bound c op n = Predicate.compareWith h bound c x op n := by
  rw [Comparand.compareWith, value_query, adapt_query hx, Predicate.compareWith]

end Operand

end EquityScreen
