import EquityScreen.Catalog
import EquityScreen.Cell.Affinity
import EquityScreen.Database.Name

namespace EquityScreen

structure Column where
  name : String
  affinity : Affinity
  required : Bool
  /-- The place of the column in the primary key, from 1, or 0 outside of it. -/
  key : Nat
  deriving DecidableEq, Repr

namespace Schema

def cell (name : String) (a : Affinity) : Column := ⟨name, a, false, 0⟩

def insertSorted (s : String) : List String → List String
  | [] => [s]
  | t :: rest =>
    if s < t then s :: t :: rest else if s = t then t :: rest else t :: insertSorted s rest

/-- The columns that are kept per period, in alphabetical order, each once. -/
def periodicColumns : List String :=
  ((catalog.filter Field.isPeriodic).map (·.column)).foldr insertSorted []

def facts (period : Column) : List Column :=
  ⟨tickerColumn, .text, true, 1⟩ :: period :: periodicColumns.map fun c => cell c .real

def columns : Table → List Column
  | .companies =>
    [⟨tickerColumn, .text, false, 1⟩, ⟨"name", .text, true, 0⟩, cell "sector" .text,
     cell "industry" .text, cell "exchange" .text, cell "market_cap" .real]
  | .quarterly => facts ⟨periodColumn .quarterly, .text, true, 2⟩
  | .annual => facts ⟨periodColumn .annual, .integer, true, 2⟩
  | .ownership => [⟨tickerColumn, .text, false, 1⟩, cell "promoter_holding" .real]
  | .cashFlows =>
    [⟨tickerColumn, .text, true, 1⟩, ⟨periodColumn .cashFlows, .text, true, 2⟩,
     cell "free_cash_flow" .real]

end Schema

structure Relation (α : Type) where
  name : String
  columns : List Column
  rows : List (Row α)

abbrev Database (α : Type) := List (Relation α)

inductive DatabaseError where
  | badName (table : String)
  | noTable (table : String)
  | noColumn (table column : String)
  | required (column : String)
  | repeatedKey
  | notNumber
  | foreignFile
  deriving DecidableEq, Repr

def DatabaseError.message : DatabaseError → String
  | badName table => "malformed table name: " ++ table
  | noTable table => "no such table: " ++ table
  | noColumn table column => "table " ++ table ++ " has no column named " ++ column
  | required column => "NOT NULL constraint failed: " ++ column
  | repeatedKey => "UNIQUE constraint failed"
  | notNumber => "argument is not a number"
  | foreignFile => "file is not a database"

namespace Relation

variable {α : Type} [Quantity α]

def column? (r : Relation α) (name : String) : Option Column :=
  r.columns.find? fun c => Database.sameName c.name name

def givenCell (given : Row α) (c : Column) : Cell α :=
  ((given.find? fun g => Database.sameName g.1 c.name).map (·.2)).getD .null

/-- A given row as the relation holds it: a cell for every column, adapted to it. -/
def shape (r : Relation α) (given : Row α) : Row α :=
  r.columns.map fun c => (c.name, c.affinity.apply (givenCell given c))

def keyColumns (r : Relation α) : List String :=
  (r.columns.filter fun c => c.key ≠ 0).map (·.name)

/-- Two rows have one key when they agree in all its columns; an absent cell agrees with none. -/
def sameKey (r : Relation α) (a b : Row α) : Bool :=
  r.keyColumns.all fun c => (Row.get a c).equals (Row.get b c)

def insert (r : Relation α) (given : Row α) : Except DatabaseError (Relation α) :=
  match given.find? fun g => (r.column? g.1).isNone with
  | some g => .error (.noColumn r.name g.1)
  | none =>
    let row := r.shape given
    match r.columns.find? fun c => c.required && (Row.get row c.name).isNull with
    | some c => .error (.required c.name)
    | none =>
      if r.rows.any (r.sameKey row) then .error .repeatedKey
      else .ok { r with rows := r.rows ++ [row] }

end Relation

namespace Database

variable {α : Type}

def relation? (db : Database α) (name : String) : Option (Relation α) :=
  db.find? fun r => sameName r.name name

def rows (db : Database α) (name : String) : List (Row α) :=
  ((db.relation? name).map (·.rows)).getD []

def create (db : Database α) (name : String) (columns : List Column) :
    Except DatabaseError (Database α) :=
  if !isFreeName name then .error (.badName name)
  else if (db.relation? name).isSome then .ok db
  else .ok (db ++ [⟨name, columns, []⟩])

def createAll (names : TableNames) (db : Database α) :
    List Table → Database α × Except DatabaseError Unit
  | [] => (db, .ok ())
  | t :: rest => match db.create (names.physical t) (Schema.columns t) with
    | .ok db => createAll names db rest
    | .error e => (db, .error e)

def createSchema (names : TableNames) (db : Database α) : Database α × Except DatabaseError Unit :=
  createAll names db Table.all

def update (db : Database α) (name : String)
    (f : Relation α → Except DatabaseError (Relation α)) : Except DatabaseError (Database α) :=
  match db.relation? name with
  | none => .error (.noTable name)
  | some r => (f r).map fun new => db.map fun old => if sameName old.name name then new else old

def insert [Quantity α] (db : Database α) (name : String) (row : Row α) :
    Except DatabaseError (Database α) :=
  db.update name fun r => r.insert row

def clear (db : Database α) (name : String) : Except DatabaseError (Database α) :=
  db.update name fun r => .ok { r with rows := [] }

def drop (db : Database α) (name : String) : Except DatabaseError (Database α) :=
  match db.relation? name with
  | none => .error (.noTable name)
  | some _ => .ok (db.filter fun r => !sameName r.name name)

end Database

end EquityScreen
