import EquityScreen.Store

namespace EquityScreen

structure CannedAnswer (α : Type) where
  table : String
  ticker : Option String
  rows : Except StoreError (List (Row α))

namespace CannedAnswer

variable {α : Type}

def contains (needle : List Char) : List Char → Bool
  | [] => needle.isEmpty
  | c :: rest => needle.isPrefixOf (c :: rest) || contains needle rest

def isFirstParameter (ticker : String) (s : Statement α) : Bool :=
  match s.params with
  | .literal (.text first) :: _ => first = ticker
  | _ => false

def answers (names : TableNames) (s : Statement α) (a : CannedAnswer α) : Bool :=
  contains ("FROM \"" ++ a.table ++ "\"").toList (s.text names).toList &&
  match a.ticker with
  | some t => isFirstParameter t s
  | none => true

/-- The rows of all entries that answer, in order; the first failure among them fails the
statement. -/
def store (names : TableNames) (entries : List (CannedAnswer α)) : Store α := fun s =>
  ((entries.filter (answers names s)).mapM CannedAnswer.rows).map List.flatten

end CannedAnswer

end EquityScreen
