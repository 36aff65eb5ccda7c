import EquityScreen.CommandLine.Arguments

namespace EquityScreen.CommandLine

def versionText : String := "screener 0.1.0\n"

/-- A line of a table whose second column starts after `width` characters. -/
def tableLine (width : Nat) (entry : String × String) : String :=
  "  " ++ entry.1 ++ String.ofList (List.replicate (width - entry.1.length) ' ') ++ "  " ++
    entry.2 ++ "\n"

def table (heading : String) (entries : List (String × String)) : String :=
  let width := entries.foldl (fun w e => max w e.1.length) 0
  "\n" ++ heading ++ ":\n" ++ String.join (entries.map (tableLine width))

namespace Verb

def about : Verb → String
  | .compile => "Compile a request and print the SQL, parameters and derived conditions"
  | .run => "Run a request against a SQLite database"
  | .repl => "Interactive mode, one JSON request per line"

end Verb

namespace Switch

def spelling : Switch → String
  | .settings => "-c, --config <CONFIG>"
  | .database => "    --db <DB>"
  | .createSchema => "    --init-schema"
  | .help => "-h, --help"
  | .version => "-V, --version"

def about (verb : Option Verb) : Switch → String
  | .settings => "Configuration file (defaults to $SCREENER_CONFIG, then ./screener.json)"
  | .database =>
    if verb = some .repl then "Database path; without one requests are only compiled"
    else "Database path (overrides the configuration)"
  | .createSchema => "Create the reference schema before running"
  | .help => "Print help"
  | .version => "Print version"

def lines (verb : Option Verb) : List (String × String) :=
  (known verb).map fun s => (s.spelling, s.about verb)

end Switch

namespace Topic

def helpAbout : String := "Print this message or the help of the given subcommand(s)"

def about : Topic → String
  | .program => "Compile and run stock screening filters"
  | .verb v => v.about
  | .help => helpAbout

def usage : Topic → String
  | .program => "Usage: screener [OPTIONS] <COMMAND>\n"
  | .verb v =>
    "Usage: screener " ++ v.word ++ " [OPTIONS]" ++ (if v.takesRequest then " <INPUT>" else "") ++
      "\n"
  | .help => "Usage: screener help [COMMAND]...\n"

def tables : Topic → String
  | .program =>
    table "Commands" (Verb.all.map (fun v => (v.word, v.about)) ++ [("help", helpAbout)]) ++
      table "Options" (Switch.lines none)
  | .verb v =>
    (if v.takesRequest then table "Arguments" [("<INPUT>", "Request file, or `-` for stdin")]
      else "") ++
      table "Options" (Switch.lines (some v))
  | .help => table "Arguments" [("[COMMAND]...", "Print help for the subcommand(s)")]

def text (t : Topic) : String := t.about ++ "\n\n" ++ t.usage ++ t.tables

end Topic

end EquityScreen.CommandLine
