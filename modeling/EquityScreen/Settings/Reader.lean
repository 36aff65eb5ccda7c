import EquityScreen.FileEntry
import EquityScreen.Json.Reader
import EquityScreen.Settings
import EquityScreen.Width

namespace EquityScreen.Settings

variable {α : Type}

def readCount (bits : Nat) : Json α → Option Nat
  | .int n => if Width.isUnsigned bits n then some n.toNat else none
  | _ => none

def readDatabase : Json α → Option (Option String)
  | .null => some none
  | .text s => some (some s)
  | _ => none

def readNames : List (String × Json α) → Option TableNames
  | [] => some []
  | (key, .text name) :: rest => (readNames rest).map ((key, name) :: ·)
  | _ => none

/-- A table that is mapped twice keeps its last name. -/
def readTables : Json α → Option TableNames
  | .object ms => (readNames ms).bind fun _ => readNames (Json.settle ms)
  | _ => none

def entries : List (String × (Json α → Settings → Option Settings)) :=
  [("database", fun v s => (readDatabase v).map fun d => { s with database := d }),
   ("default_limit", fun v s => (readCount 64 v).map fun n => { s with defaultLimit := n }),
   ("max_limit", fun v s => (readCount 64 v).map fun n => { s with maxLimit := n }),
   ("max_window_length", fun v s =>
     (readCount 32 v).map fun n => { s with maxWindowLength := n }),
   ("history_length", fun v s => (readCount 32 v).map fun n => { s with historyLength := n }),
   ("resolver_workers", fun v s => (readCount 64 v).map fun n => { s with workers := n }),
   ("tables", fun v s => (readTables v).map fun t => { s with tables := t })]

def readMembers : List (String × Json α) → Settings → Option Settings
  | [], s => some s
  | (key, v) :: rest, s =>
    match entries.find? fun e => e.1 = key with
    | some e => (e.2 v s).bind (readMembers rest)
    | none => readMembers rest s

def readItems : List (Json α) → List (String × (Json α → Settings → Option Settings)) →
    Settings → Option Settings
  | [], _, s => some s
  | _ :: _, [], _ => none
  | v :: rest, e :: es, s => (e.2 v s).bind (readItems rest es)

/-- A known key that stands twice is refused. -/
def ofJson : Json α → Option Settings
  | .object ms =>
    if Json.repeatsKey (ms.filter fun m => (entries (α := α)).any (·.1 = m.1)) then none
    else readMembers ms default
  | .array items => readItems items entries default
  | _ => none

def ofFile [Quantity α] (path : String) (entry : FileEntry) : Except SettingsError Settings :=
  match entry with
  | .absent => .error (.missing path)
  | .directory => .error (.unreadable path)
  | .file bytes =>
    match String.fromUTF8? bytes with
    | none => .error (.unreadable path)
    | some text =>
      match (Json.read? text : Option (Json α)).bind ofJson with
      | none => .error (.malformed path)
      | some s => s.validate.map fun _ => s

end EquityScreen.Settings
