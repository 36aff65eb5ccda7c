import EquityScreen.CommandLine.Help
import EquityScreen.Database.File
import EquityScreen.Json.Printer
import EquityScreen.Report
import EquityScreen.Settings.Reader
import EquityScreen.Text.Parts

namespace EquityScreen.CommandLine

structure Environment (m : Type → Type) where
  arguments : List String
  settingsPath : Option String
  input : m String
  entry : String → m FileEntry

structure Outcome where
  status : Nat
  output : String
  errors : String
  deriving DecidableEq, Repr

namespace Outcome

def quiet : Outcome := ⟨0, "", ""⟩

def printed (output : String) : Outcome := ⟨0, output, ""⟩

def append (a b : Outcome) : Outcome := ⟨b.status, a.output ++ b.output, a.errors ++ b.errors⟩

end Outcome

inductive ReadFault where
  | absent
  | directory
  | notText
  deriving DecidableEq, Repr

def ReadFault.message : ReadFault → String
  | absent => "No such file or directory (os error 2)"
  | directory => "Is a directory (os error 21)"
  | notText => "stream did not contain valid UTF-8"

inductive Fatal where
  /-- Settings that are not valid; the path is that by which they were asked for. -/
  | settings (path : Option String) (e : SettingsError)
  | request (path : String) (fault : ReadFault)
  | noDatabase
  | database (path : String)
  | schema (e : DatabaseError)
  deriving DecidableEq, Repr

namespace Fatal

/-- The class of errors that a database counts one of its errors to. -/
def classOf : DatabaseError → String
  | .foreignFile => "Error code 26: File opened that is not a database file"
  | _ => "Error code 1: SQL logic error"

def chain : Fatal → String × List String
  | settings none e => (e.message, [])
  | settings (some path) e => ("loading " ++ path, [e.message])
  | request path fault => ("reading " ++ path, [fault.message])
  | noDatabase => ("no database given: pass --db or set `database` in the configuration", [])
  | database path =>
    let reason := "unable to open database file: " ++ path
    ("opening " ++ path,
      [(StoreError.refused reason).message, reason,
       "Error code 14: Unable to open the database file"])
  | schema e => ((StoreError.refused e.message).message, [e.message, classOf e])

/-- Several causes are numbered, a single one is not. -/
def causesText : List String → String
  | [] => ""
  | [cause] => "\nCaused by:\n    " ++ cause ++ "\n"
  | causes =>
    "\nCaused by:\n" ++
      String.join (causes.zipIdx.map fun (cause, i) =>
        "    " ++ toString i ++ ": " ++ cause ++ "\n")

def text (f : Fatal) : String := "Error: " ++ f.chain.1 ++ "\n" ++ causesText f.chain.2

end Fatal

def localSettings : String := "screener.json"

section

variable {m : Type → Type} [Monad m] (α : Type) [Quantity α]

def readSettings (e : Environment m) (path : String) (asked : Option String) :
    ExceptT Fatal m Settings := do
  match Settings.ofFile (α := α) path (← e.entry path) with
  | .ok s => return s
  | .error fault => throw (.settings asked fault)

/-- Settings come from the path in the arguments, else from that in the environment, else from the
directory, and else are the default ones. -/
def loadSettings (e : Environment m) (given : Option String) : ExceptT Fatal m Settings := do
  match given.or e.settingsPath with
  | some path => readSettings α e path (some path)
  | none =>
    if (← e.entry localSettings).isPresent then readSettings α e localSettings none
    else return Settings.default

def readRequest (e : Environment m) (path : String) : ExceptT Fatal m String := do
  if path = "-" then return (← e.input)
  match ← e.entry path with
  | .absent => throw (.request path .absent)
  | .directory => throw (.request path .directory)
  | .file bytes => match String.fromUTF8? bytes with
    | some text => return text
    | none => throw (.request path .notText)

/-- The database of the arguments counts before that of the settings. -/
def openDatabase (e : Environment m) (s : Settings) (given : Option String) :
    ExceptT Fatal m (DatabaseFile α) := do
  match given.or s.database with
  | none => throw .noDatabase
  | some path =>
    match ← (DatabaseFile.open? e.entry path : m (Option (DatabaseFile α))) with
    | some file => return file
    | none => throw (.database path)

end

variable {α : Type} [Quantity α]

abbrev Reply (α : Type) := Except ErrorBody (Json α)

def Outcome.ofReply : Reply α → Outcome
  | .ok v => printed (v.pretty ++ "\n")
  | .error e => ⟨0, "", (Report.ofError e : Json α).pretty ++ "\n"⟩

def compileReply (s : Settings) (text : String) : Reply α :=
  match Screen.compileText s text with
  | .ok q => .ok (Report.ofCompiled s.tables q)
  | .error e => .error (ScreenError.body e)

def runReply (s : Settings) (store : Store α) (text : String) : Reply α :=
  match (Screen.runText s store text).result with
  | .ok rows => .ok (Report.ofRows rows)
  | .error e => .error e.body

def isQuit (line : String) : Bool := line = ":q" || line = ":quit" || line = "exit"

/-- Answers the lines of a session up to one that quits. Empty lines are passed over. -/
def answerLines (reply : String → Reply α) : List String → Outcome
  | [] => .quiet
  | line :: rest =>
    let line := Text.trim line
    if line.isEmpty then answerLines reply rest
    else if isQuit line then .quiet
    else (Outcome.ofReply (reply line)).append (answerLines reply rest)

def linesOf (text : String) : List String :=
  (Text.parts '\n' text.toList).map String.ofList

def banner (mode : String) : String :=
  "--- Stock Screener (" ++ mode ++ ") ---\n每行输入一个 JSON 请求, :q 退出\n"

def session (mode : String) (reply : String → Reply α) (text : String) : Outcome :=
  (Outcome.printed (banner mode)).append (answerLines reply (linesOf text))

section

variable {m : Type → Type} [Monad m] (α : Type) [Quantity α]

def execute (e : Environment m) (s : Settings) : Command → ExceptT Fatal m Outcome
  | .compile path => do
    let text ← readRequest e path
    return .ofReply (compileReply s text : Reply α)
  | .run database createSchema path => do
    let text ← readRequest e path
    let file ← openDatabase α e s database
    let file ←
      if createSchema then
        match file.createSchema s.tables with
        | .ok file => pure file
        | .error fault => throw (.schema fault)
      else pure file
    return .ofReply (runReply s (file.store s.tables) text)
  | .repl database => do
    if (database.or s.database).isSome then
      let file ← openDatabase α e s database
      return session "run" (runReply s (file.store s.tables)) (← e.input)
    else return session "compile only" (compileReply s : String → Reply α) (← e.input)

def invoke (e : Environment m) (i : Invocation) : ExceptT Fatal m Outcome := do
  let s ← loadSettings α e i.settings
  execute α e s i.command

/-- Arguments that make no sense end with status 2, fatal errors with status 1, and all else with
status 0. -/
def run (e : Environment m) : m Outcome := do
  match Reading.ofArguments e.arguments with
  | .misuse => return ⟨2, "", Topic.program.usage⟩
  | .version => return .printed versionText
  | .help t => return .printed t.text
  | .invocation i =>
    match ← (invoke α e i).run with
    | .ok outcome => return outcome
    | .error fault => return ⟨1, "", fault.text⟩

end

end EquityScreen.CommandLine
