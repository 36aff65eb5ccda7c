namespace EquityScreen.CommandLine

inductive Verb where
  | compile
  | run
  | repl
  deriving DecidableEq, Repr

namespace Verb

def all : List Verb := [.compile, .run, .repl]

def word : Verb → String
  | .compile => "compile"
  | .run => "run"
  | .repl => "repl"

def ofWord? (s : String) : Option Verb := all.find? fun v => v.word = s

def takesRequest : Verb → Bool
  | .compile | .run => true
  | .repl => false

end Verb

inductive Switch where
  | settings
  | database
  | createSchema
  | help
  | version
  deriving DecidableEq, Repr

namespace Switch

def long : Switch → String
  | .settings => "config"
  | .database => "db"
  | .createSchema => "init-schema"
  | .help => "help"
  | .version => "version"

def letter? : Switch → Option Char
  | .settings => some 'c'
  | .help => some 'h'
  | .version => some 'V'
  | .database | .createSchema => none

def takesValue : Switch → Bool
  | .settings | .database => true
  | .createSchema | .help | .version => false

def known : Option Verb → List Switch
  | none => [.settings, .help, .version]
  | some .compile => [.settings, .help]
  | some .run => [.settings, .database, .createSchema, .help]
  | some .repl => [.settings, .database, .help]

end Switch

inductive Lexeme where
  | value (s : String)
  /-- Two dashes: no switches follow. -/
  | stop
  | switch (s : Switch) (attached : Option String)
  | unknown
  deriving DecidableEq, Repr

namespace Lexeme

def ofLong (verb : Option Verb) (cs : List Char) : Lexeme :=
  let name := String.ofList (cs.takeWhile (· ≠ '='))
  let attached := match cs.dropWhile (· ≠ '=') with
    | [] => none
    | _ :: path => some (String.ofList path)
  match (Switch.known verb).find? fun s => s.long = name with
  | some s => .switch s attached
  | none => .unknown

def ofLetter (verb : Option Verb) (c : Char) (cs : List Char) : Lexeme :=
  match (Switch.known verb).find? fun s => s.letter? = some c with
  | none => .unknown
  | some s =>
    .switch s (if !s.takesValue then none
      else match cs with
        | [] => none
        | '=' :: path => some (String.ofList path)
        | path => some (String.ofList path))

/-- A single dash is a value. -/
def ofArgument (verb : Option Verb) (a : String) : Lexeme :=
  match a.toList with
  | ['-', '-'] => .stop
  | '-' :: '-' :: cs => ofLong verb cs
  | '-' :: c :: cs => ofLetter verb c cs
  | _ => .value a

end Lexeme

def isValue (a : String) : Bool :=
  match a.toList with
  | '-' :: _ :: _ => false
  | _ => true

structure Given where
  settings : Option String
  database : Option String
  createSchema : Bool
  request : Option String
  deriving DecidableEq, Repr

namespace Given

def nothing : Given := ⟨none, none, false, none⟩

def path? (old : Option String) (value : String) : Option String :=
  if value.isEmpty || old.isSome then none else some value

def setValue (g : Given) (s : Switch) (value : String) : Option Given :=
  match s with
  | .settings => (path? g.settings value).map fun p => { g with settings := some p }
  | .database => (path? g.database value).map fun p => { g with database := some p }
  | _ => none

def setFlag (g : Given) : Option Given :=
  if g.createSchema then none else some { g with createSchema := true }

def setRequest (verb : Verb) (g : Given) (path : String) : Option Given :=
  if verb.takesRequest && g.request.isNone then some { g with request := some path } else none

end Given

inductive Command where
  | compile (request : String)
  | run (database : Option String) (createSchema : Bool) (request : String)
  | repl (database : Option String)
  deriving DecidableEq, Repr

structure Invocation where
  settings : Option String
  command : Command
  deriving DecidableEq, Repr

inductive Topic where
  | program
  | verb (v : Verb)
  | help
  deriving DecidableEq, Repr

inductive Reading where
  | invocation (i : Invocation)
  | help (t : Topic)
  | version
  | misuse
  deriving DecidableEq, Repr

namespace Reading

/-- Settings that are given after the verb count before those in front of it. -/
def finish (verb : Verb) (outer : Option String) (g : Given) : Reading :=
  let settings := g.settings.or outer
  match verb, g.request with
  | .compile, some request => .invocation ⟨settings, .compile request⟩
  | .run, some request => .invocation ⟨settings, .run g.database g.createSchema request⟩
  | .repl, _ => .invocation ⟨settings, .repl g.database⟩
  | _, none => .misuse

def finishValues (verb : Verb) (outer : Option String) : Given → List String → Reading
  | g, [] => finish verb outer g
  | g, a :: rest => match g.setRequest verb a with
    | some g => finishValues verb outer g rest
    | none => .misuse

def helpOn : List String → Reading
  | [] => .help .program
  | [word] =>
    if word = "help" then .help .help
    else match Verb.ofWord? word with
      | some v => .help (.verb v)
      | none => .misuse
  | _ => .misuse

def readFrom (verb : Option Verb) (outer : Option String) (g : Given) : List String → Reading
  | [] => match verb with
    | some v => finish v outer g
    | none => .misuse
  | a :: rest => match Lexeme.ofArgument verb a with
    | .unknown => .misuse
    | .stop => match verb with
      | some v => finishValues v outer g rest
      | none => .misuse
    | .value s => match verb with
      | some v => match g.setRequest v s with
        | some g => readFrom verb outer g rest
        | none => .misuse
      | none =>
        if s = "help" then helpOn rest
        else match Verb.ofWord? s with
          | some v => readFrom (some v) g.settings Given.nothing rest
          | none => .misuse
    | .switch .help none => .help ((verb.map .verb).getD .program)
    | .switch .version none => .version
    | .switch .createSchema none => match g.setFlag with
      | some g => readFrom verb outer g rest
      | none => .misuse
    | .switch s (some value) => match g.setValue s value with
      | some g => readFrom verb outer g rest
      | none => .misuse
    | .switch s none => match rest with
      | [] => .misuse
      | value :: rest =>
        if isValue value then
          match g.setValue s value with
          | some g => readFrom verb outer g rest
          | none => .misuse
        else .misuse

def ofArguments (arguments : List String) : Reading := readFrom none none Given.nothing arguments

end Reading

end EquityScreen.CommandLine
