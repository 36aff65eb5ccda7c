import EquityScreen.Database.Answer
import EquityScreen.Proofs.PredicateReading

namespace EquityScreen

open Subquery

/-- The rows that are joined so far, by the letters of their tables. -/
abbrev Joined (α : Type) := String → Row α

namespace Joined

variable {α : Type}

def put (j : Joined α) (letter : String) (r : Row α) : Joined α :=
  fun l => if l = letter then r else j l

def scope (j : Joined α) : Scope α := fun letter name =>
  (letter.map fun l => Row.get (j l) name).getD .null

def candidate (j : Joined α) : Candidate α :=
  ⟨j Source.company.letter, j Source.fundamentals.letter, j Source.ownership.letter⟩

theorem row_candidate (j : Joined α) (s : Source) : j.candidate.row s = j s.letter := by
  cases s <;> rfl

end Joined

/-- The greatest cell of a column among the rows of a table that pass a test. -/
structure MaxQuery where
  table : Table
  letter : String
  column : String
  test : Test

namespace MaxQuery

variable {α : Type} [Quantity α]

def text (names : TableNames) (q : MaxQuery) : String :=
  "(SELECT MAX(" ++ (Term.columnOf q.letter q.column).text ++ ") FROM " ++
    names.physical q.table ++ " " ++ q.letter ++ " WHERE " ++ q.test.text ++ ")"

def value (names : TableNames) (db : Database α) (j : Joined α) (q : MaxQuery) : Cell α :=
  Database.greatest q.column ((db.rows (names.physical q.table)).filter fun r =>
    q.test.truth (j.put q.letter r).scope = .yes)

end MaxQuery

inductive Link where
  | same (x y : Term)
  | greatest (x : Term) (q : MaxQuery)

namespace Link

variable {α : Type} [Quantity α]

def text (names : TableNames) : Link → String
  | .same x y => Predicate.comparison x.text "=" y.text
  | .greatest x q => Predicate.comparison x.text "=" (q.text names)

def truth (names : TableNames) (db : Database α) (j : Joined α) : Link → Truth
  | .same x y => Predicate.compareCells .eq (x.value j.scope) (y.value j.scope)
  | .greatest x q => Predicate.compareCells .eq (x.value j.scope) (q.value names db j)

end Link

structure JoinClause where
  table : Table
  letter : String
  links : List Link

namespace JoinClause

variable {α : Type} [Quantity α]

def text (names : TableNames) (c : JoinClause) : String :=
  " LEFT JOIN " ++ quotedTable (names.physical c.table) ++ " AS " ++ quoted c.letter ++ " ON " ++
    String.intercalate " AND " (c.links.map (Link.text names))

def truth (names : TableNames) (db : Database α) (c : JoinClause) (j : Joined α) : Truth :=
  (c.links.map (Link.truth names db j)).foldr Truth.and .yes

/-- Every row of the left side stays, with an empty row beside it if no row joins it. -/
def extend (names : TableNames) (db : Database α) (js : List (Joined α)) (c : JoinClause) :
    List (Joined α) :=
  js.flatMap fun j =>
    let matching := (db.rows (names.physical c.table)).filter fun r =>
      c.truth names db (j.put c.letter r) = .yes
    (if matching.isEmpty then [[]] else matching).map (j.put c.letter)

end JoinClause

structure ColumnRef where
  letter : String
  name : String

namespace ColumnRef

variable {α : Type} [Quantity α]

def text (x : ColumnRef) : String := quoted x.letter ++ "." ++ quoted x.name

def cell (j : Joined α) (x : ColumnRef) : Cell α := Row.get (j x.letter) x.name

def outputText : ColumnRef × Option String → String
  | (x, none) => x.text
  | (x, some name) => x.text ++ " AS " ++ quoted name

def output (j : Joined α) : ColumnRef × Option String → String × Cell α
  | (x, name) => (name.getD x.name, x.cell j)

def keyText : ColumnRef × Direction → String
  | (x, .ascending) => x.text ++ " ASC"
  | (x, .descending) => x.text ++ " DESC"

def keyOrder (a b : Joined α) : ColumnRef × Direction → Ordering
  | (x, .ascending) => Cell.order (x.cell a) (x.cell b)
  | (x, .descending) => (Cell.order (x.cell a) (x.cell b)).swap

/-- The first key that tells two rows apart decides. -/
def precedes (keys : List (ColumnRef × Direction)) (a b : Joined α) : Bool :=
  (keys.foldr (fun k later => (keyOrder a b k).then later) .eq).isLE

end ColumnRef

/-- A query for rows, clause by clause. Its condition is a text. -/
structure SelectQuery where
  columns : List (ColumnRef × Option String)
  table : Table
  letter : String
  joins : List JoinClause
  condition : Option String
  order : List (ColumnRef × Direction)
  limit : Option Nat

namespace SelectQuery

variable {α : Type} [Quantity α]

def text (names : TableNames) (q : SelectQuery) : String :=
  "SELECT " ++ list (q.columns.map ColumnRef.outputText) ++
  " FROM " ++ quotedTable (names.physical q.table) ++ " AS " ++ quoted q.letter ++
  String.join (q.joins.map (JoinClause.text names)) ++
  (match q.condition with
    | some p => " WHERE " ++ p
    | none => "") ++
  " ORDER BY " ++ list (q.order.map ColumnRef.keyText) ++
  (match q.limit with
    | some n => " LIMIT " ++ toString n
    | none => "")

def joined (names : TableNames) (db : Database α) (q : SelectQuery) : List (Joined α) :=
  q.joins.foldl (JoinClause.extend names db)
    ((db.rows (names.physical q.table)).map (Joined.put (fun _ => []) q.letter))

/-- A row is selected if the condition reads as one that is true of it. -/
def selects (names : TableNames) (maxLength : Nat) (db : Database α) (params : List (Literal α))
    (q : SelectQuery) (j : Joined α) : Bool :=
  match q.condition with
  | some p => (Sql.read (Sql.scopeOf names maxLength) p).map
      (Sql.Expr.truth (db.history names) (Database.bound params) j.candidate) = some .yes
  | none => true

def rows (names : TableNames) (maxLength : Nat) (db : Database α) (params : List (Literal α))
    (q : SelectQuery) : List (Row α) :=
  let selected := (q.joined names db).filter (q.selects names maxLength db params)
  (Database.takeLimit q.limit (selected.mergeSort (ColumnRef.precedes q.order))).map fun j =>
    q.columns.map (ColumnRef.output j)

end SelectQuery

namespace Source

def keyed (letter : String) : Test :=
  .compare (.columnOf letter tickerColumn) .eq (.columnOf company.letter tickerColumn)

def newestQuarter : MaxQuery where
  table := .quarterly
  letter := "q"
  column := periodColumn .quarterly
  test := keyed "q"

def links (s : Source) : List Link :=
  let same := .same (.columnOf s.letter tickerColumn) (.columnOf company.letter tickerColumn)
  match s with
  | .fundamentals =>
    [same, .greatest (.columnOf s.letter (periodColumn .quarterly)) newestQuarter]
  | _ => [same]

def joinClause (s : Source) : JoinClause := ⟨s.table, s.letter, s.links⟩

theorem text_newestQuarter (names : TableNames) : newestQuarter.text names =
    "(SELECT MAX(q.fiscal_period) FROM " ++ names.physical .quarterly ++
      " q WHERE q.ticker = c.ticker)" := by
  have hopen : newestQuarter.text names = "(SELECT MAX(" ++ "q.fiscal_period" ++ ") FROM " ++
      names.physical .quarterly ++ " " ++ "q" ++ " WHERE " ++ "q.ticker = c.ticker" ++ ")" := rfl
  rw [hopen]
  simp [String.append_assoc]

theorem text_joinClause (names : TableNames) (s : Source) :
    s.joinClause.text names = Selection.joinText names s := by
  unfold JoinClause.text Selection.joinText joinClause
  cases s with
  | fundamentals =>
    have hlinks : String.intercalate " AND " (links .fundamentals |>.map (Link.text names)) =
        "f.ticker = c.ticker" ++ " AND " ++ ("f.fiscal_period" ++ " " ++ "=" ++ " " ++
          newestQuarter.text names) := rfl
    have hon : letter .fundamentals ++ ".ticker = c.ticker" ++ " AND " ++
        letter .fundamentals ++ ".fiscal_period = (SELECT MAX(q.fiscal_period) FROM " =
        "f.ticker = c.ticker" ++ " AND " ++ ("f.fiscal_period" ++ " " ++ "=" ++ " " ++
          "(SELECT MAX(q.fiscal_period) FROM ") := by
      simp [letter]
    dsimp only
    rw [hlinks, text_newestQuarter, hon]
    simp only [String.append_assoc]
  | company | ownership => rfl

end Source

namespace Selection

variable {α : Type} [Quantity α]

def query (names : TableNames) (s : Selection) : SelectQuery where
  columns := baseColumns.map (fun column => (⟨Source.company.letter, column⟩, none)) ++
    s.shown.map fun f => (⟨f.source.letter, f.column⟩, some f.name)
  table := Source.company.table
  letter := Source.company.letter
  joins := s.joins.map Source.joinClause
  condition := s.condition.map (Predicate.text names)
  order := s.order.map fun k => (⟨k.source.letter, k.column⟩, k.direction)
  limit := s.limit

theorem text_query (names : TableNames) (s : Selection) :
    (s.query names).text names = s.text names := by
  have hcolumns : (s.query names).columns.map ColumnRef.outputText =
      baseColumns.map (columnText .company) ++ s.shown.map shownText := by
    simp only [query, List.map_append, List.map_map]
    rfl
  have hjoins : (s.query names).joins.map (JoinClause.text names) =
      s.joins.map (joinText names) := by
    simp only [query, List.map_map]
    exact List.map_congr_left fun source _ => source.text_joinClause names
  have horder : (s.query names).order.map ColumnRef.keyText = s.order.map orderText := by
    simp only [query, List.map_map]
    exact List.map_congr_left fun k _ => by
      obtain ⟨source, column, d⟩ := k
      cases d <;> rfl
  unfold SelectQuery.text text
  rw [hcolumns, hjoins, horder]
  obtain ⟨shown, joins, condition, order, limit⟩ := s
  cases condition <;> rfl

end Selection

section Meaning

variable {α : Type} [Quantity α] {names : TableNames} {db : Database α}

theorem Source.truth_keyed {letter : String} {j : Joined α} :
    (keyed letter).truth j.scope = .yes ↔
      Database.sameTicker (j company.letter) (j letter) = true :=
  Predicate.compareCells_eq

theorem Source.value_newestQuarter (j : Joined α) : newestQuarter.value names db j =
    Database.greatest (periodColumn .quarterly)
      ((db.rows (names.physical .quarterly)).filter (Database.sameTicker (j company.letter))) := by
  have hown : (db.rows (names.physical .quarterly)).filter (fun r =>
      (keyed "q").truth (j.put "q" r).scope = .yes) =
      (db.rows (names.physical .quarterly)).filter (Database.sameTicker (j company.letter)) :=
    List.filter_congr fun r _ => by
      rw [Bool.eq_iff_iff, decide_eq_true_iff, truth_keyed]
      rfl
  exact congrArg _ hown

/-- The clause joins the rows that the store joins. -/
theorem Source.matching_joinClause {s : Source} (hs : s ≠ .company) (j : Joined α) :
    (db.rows (names.physical s.table)).filter (fun r =>
      s.joinClause.truth names db (j.put s.letter r) = .yes) =
    db.joinedRows names s (j company.letter) := by
  have hsame (r : Row α) (hs : s ≠ .company) :
      (Link.same (.columnOf s.letter tickerColumn) (.columnOf company.letter tickerColumn)).truth
        names db (j.put s.letter r) = .yes ↔
      Database.sameTicker (j company.letter) r = true := by
    cases s with
    | company => exact absurd rfl hs
    | fundamentals | ownership => exact Predicate.compareCells_eq
  cases s with
  | company => exact absurd rfl hs
  | ownership =>
    refine List.filter_congr fun r _ => ?_
    rw [Bool.eq_iff_iff, decide_eq_true_iff, ← hsame r hs]
    exact Truth.and_eq_yes.trans (and_iff_left rfl)
  | fundamentals =>
    -- the subquery looks at the company alone, so the row that is joined does not change it
    let newest := newestQuarter.value names db j
    have hnewest (r : Row α) :
        (Link.greatest (.columnOf fundamentals.letter (periodColumn .quarterly))
          newestQuarter).truth names db (j.put fundamentals.letter r) = .yes ↔
        (Row.get r (periodColumn .quarterly)).equals newest = true := Predicate.compareCells_eq
    have hjoined : db.joinedRows names .fundamentals (j company.letter) =
        ((db.rows (names.physical .quarterly)).filter
          (Database.sameTicker (j company.letter))).filter fun q =>
            (Row.get q (periodColumn .quarterly)).equals newest := by
      unfold newest
      rw [value_newestQuarter]
      rfl
    rw [hjoined, List.filter_filter]
    refine List.filter_congr fun r _ => ?_
    rw [Bool.eq_iff_iff, decide_eq_true_iff, Bool.and_eq_true, ← hnewest, ← hsame r hs, and_comm]
    exact Truth.and_eq_yes.trans (and_congr_right' (Truth.and_eq_yes.trans (and_iff_left rfl)))

theorem Source.extend_joinClause {s : Source} (hs : s ≠ .company) (js : List (Joined α)) :
    s.joinClause.extend names db js = js.flatMap fun j =>
      (Database.outer (db.joinedRows names s (j company.letter))).map (j.put s.letter) := by
  refine List.flatMap_congr fun j _ => ?_
  rw [← matching_joinClause hs]
  rfl

def alone (company : Row α) : Joined α := Joined.put (fun _ => []) Source.company.letter company

theorem candidates_of_joins {s : Selection} {fields : List Field}
    (hs : s.joins = Compilation.joinsOf fields) :
    ((s.query names).joined names db).map Joined.candidate = db.candidates names s := by
  have hjoins : s.joins = [] ∨ s.joins = [.fundamentals] ∨ s.joins = [.ownership] ∨
      s.joins = [.fundamentals, .ownership] := by
    rw [hs, Compilation.joinsOf, List.filter_cons, List.filter_cons, List.filter_nil]
    split_ifs <;> simp
  have hjoined : (s.query names).joined names db =
      (s.joins.map Source.joinClause).foldl (JoinClause.extend names db)
        ((db.rows (names.physical .companies)).map alone) := rfl
  have hquarters := @Source.extend_joinClause α _ names db .fundamentals (by decide)
  have howners := @Source.extend_joinClause α _ names db .ownership (by decide)
  rw [hjoined, Database.candidates]
  -- quarters come before owners, so that there are four lists of joins to look at
  obtain h | h | h | h := hjoins
  all_goals
    simp only [h, List.map_cons, List.map_nil, List.foldl_cons, List.foldl_nil, hquarters, howners,
      List.map_flatMap, List.flatMap_map, List.map_map, List.flatMap_assoc]
  · exact List.map_eq_flatMap
  · exact List.flatMap_congr fun company _ => List.map_eq_flatMap
  · refine List.flatMap_congr fun company _ => ?_
    exact (List.append_nil _).symm
  · rfl

theorem precedes_query (keys : List OrderKey) (a b : Joined α) :
    ColumnRef.precedes (keys.map fun k => (⟨k.source.letter, k.column⟩, k.direction)) a b =
      Database.precedes keys a.candidate b.candidate := by
  induction keys with
  | nil => rfl
  | cons k rest ih =>
    obtain ⟨source, column, d⟩ := k
    have hcell (j : Joined α) : (⟨source.letter, column⟩ : ColumnRef).cell j =
        j.candidate.get source column := by
      rw [Candidate.get, Joined.row_candidate]
      rfl
    rw [Database.precedes, ← ih]
    unfold ColumnRef.precedes
    rw [List.map_cons, List.foldr_cons]
    cases d with
    | ascending =>
      rw [ColumnRef.keyOrder, hcell, hcell]
      cases Cell.order (a.candidate.get source column) (b.candidate.get source column) <;> rfl
    | descending =>
      rw [ColumnRef.keyOrder, hcell, hcell]
      cases Cell.order (a.candidate.get source column) (b.candidate.get source column) <;> rfl

omit [Quantity α] in
theorem output_query (names : TableNames) (s : Selection) (j : Joined α) :
    (s.query names).columns.map (ColumnRef.output j) = Database.shownRow s j.candidate := by
  have hbase (column : String) :
      ColumnRef.output j (⟨Source.company.letter, column⟩, none) =
        (column, j.candidate.get .company column) := rfl
  have hfield (f : Field) : ColumnRef.output j (⟨f.source.letter, f.column⟩, some f.name) =
      (f.name, j.candidate.get f.source f.column) := by
    rw [Candidate.get, Joined.row_candidate]
    rfl
  simp only [Selection.query, Database.shownRow, List.map_append, List.map_map, Function.comp_def,
    hbase, hfield]

theorem selects_query (hn : names.IsPlain) {maxLength : Nat} {s : Selection}
    (hs : ∀ p ∈ s.condition, p.IsProper maxLength) (params : List (Literal α)) (j : Joined α) :
    (s.query names).selects names maxLength db params j =
      db.selects names s params j.candidate := by
  unfold SelectQuery.selects Database.selects Selection.query
  cases hp : s.condition with
  | none => rfl
  | some p =>
    obtain ⟨e, he, htruth⟩ := Predicate.read_text (α := α) hn (hs p hp)
    simp [he, htruth]

/-- The clauses of a selection yield the rows that the store answers with. -/
theorem rows_query (hn : names.IsPlain) {maxLength : Nat} {s : Selection} {fields : List Field}
    (hjoins : s.joins = Compilation.joinsOf fields)
    (hcondition : ∀ p ∈ s.condition, p.IsProper maxLength) (params : List (Literal α)) :
    (s.query names).rows names maxLength db params = db.select names s params := by
  have hselected : (((s.query names).joined names db).filter
        ((s.query names).selects names maxLength db params)).map Joined.candidate =
      (db.candidates names s).filter (db.selects names s params) := by
    rw [← candidates_of_joins hjoins, List.filter_map]
    exact congrArg _ (List.filter_congr fun j _ => selects_query hn hcondition params j)
  have hlimit (js : List (Joined α)) : (Database.takeLimit s.limit js).map Joined.candidate =
      Database.takeLimit s.limit (js.map Joined.candidate) := by
    unfold Database.takeLimit
    cases s.limit with
    | none => rfl
    | some n => exact List.map_take
  have houtput : (fun j : Joined α => (s.query names).columns.map (ColumnRef.output j)) =
      Database.shownRow s ∘ Joined.candidate := funext (output_query names s)
  unfold SelectQuery.rows Database.select
  dsimp only
  rw [houtput, ← List.map_map, ← hselected]
  refine congrArg _ ((hlimit _).trans (congrArg _ ?_))
  exact List.map_mergeSort fun a _ b _ => precedes_query s.order a b

end Meaning

end EquityScreen
