import EquityScreen.Database.Answer
import EquityScreen.FileEntry

namespace EquityScreen

inductive DatabaseFile (α : Type) where
  | database (db : Database α)
  | foreign

namespace DatabaseFile

variable {α : Type}

/-- Paths that name no file but a database of their own. -/
def isPrivate (path : String) : Bool := path = "" || path = ":memory:"

def parent? (path : String) : Option String :=
  match path.toList.reverse.dropWhile (· ≠ '/') with
  | [] => none
  | ['/'] => some "/"
  | _ :: directory => some (String.ofList directory.reverse)

/-- Opens a file, unless it is a directory or would have to be created outside of one. -/
def open? {m : Type → Type} [Monad m] (entry : String → m FileEntry) (path : String) :
    m (Option (DatabaseFile α)) := do
  if isPrivate path then return some (database [])
  match ← entry path with
  | .directory => return none
  | .file bytes => return some (if bytes.isEmpty then database [] else foreign)
  | .absent =>
    match parent? path with
    | none => return some (database [])
    | some directory =>
      match ← entry directory with
      | .directory => return some (database [])
      | _ => return none

def createSchema (names : TableNames) : DatabaseFile α → Except DatabaseError (DatabaseFile α)
  | database db =>
    let (db, result) := db.createSchema names
    result.map fun _ => database db
  | foreign => .error .foreignFile

def store [Quantity α] (names : TableNames) : DatabaseFile α → Store α
  | database db => db.store names
  | foreign => fun _ => .error (.refused DatabaseError.foreignFile.message)

end DatabaseFile

end EquityScreen
