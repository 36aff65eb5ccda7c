import EquityScreen.Catalog
import EquityScreen.Text.Parts

namespace EquityScreen

structure Settings where
  database : Option String
  defaultLimit : Nat
  maxLimit : Nat
  /-- Window lengths are written into queries, so they are bounded. -/
  maxWindowLength : Nat
  /-- How many periods a derived metric without a window reads. -/
  historyLength : Nat
  workers : Nat
  tables : TableNames
  deriving DecidableEq, Repr

namespace Settings

def default : Settings := ⟨none, 100, 1000, 40, 10, 1, []⟩

def isIdentifier : List Char → Bool
  | [] => false
  | c :: rest => (isLetter c || c = '_') && rest.all fun c => isLetter c || isNumeral c || c = '_'
where
  isLetter (c : Char) : Bool := ('a' ≤ c && c ≤ 'z') || ('A' ≤ c && c ≤ 'Z')
  isNumeral (c : Char) : Bool := '0' ≤ c && c ≤ '9'

/-- A physical table name is an identifier, with at most one schema in front. -/
def isTableName (name : String) : Bool :=
  let parts := Text.parts '.' name.toList
  parts.length ≤ 2 && parts.all isIdentifier

end Settings

inductive SettingsError where
  | missing (path : String)
  | unreadable (path : String)
  | malformed (path : String)
  | defaultLimit (max : Nat)
  | maxWindowLength
  | historyLength (max : Nat)
  | workers
  | tableName (key physical : String)
  deriving DecidableEq, Repr

namespace SettingsError

def reason : SettingsError → String
  | missing path => "config file not found: " ++ path
  | unreadable path => "cannot read " ++ path
  | malformed path => "cannot parse " ++ path
  | defaultLimit max => "default_limit must be within 1..=" ++ toString max
  | maxWindowLength => "max_window_length must be positive"
  | historyLength max => "history_length must be within 1..=" ++ toString max
  | workers => "resolver_workers must be at least 1"
  | tableName key physical =>
    "table '" ++ key ++ "' maps to invalid identifier '" ++ physical ++ "'"

def message (e : SettingsError) : String := "configuration error: " ++ e.reason

end SettingsError

namespace Settings

def validate (s : Settings) : Except SettingsError Unit :=
  if s.defaultLimit = 0 ∨ s.maxLimit < s.defaultLimit then .error (.defaultLimit s.maxLimit)
  else if s.maxWindowLength = 0 then .error .maxWindowLength
  else if s.historyLength = 0 ∨ s.maxWindowLength < s.historyLength then
    .error (.historyLength s.maxWindowLength)
  else if s.workers = 0 then .error .workers
  else match s.tables.find? fun t => !isTableName t.2 with
    | some t => .error (.tableName t.1 t.2)
    | none => .ok ()

end Settings

end EquityScreen
