import EquityScreen.Request
import EquityScreen.Resolution

namespace EquityScreen

inductive RunError where
  | selection (e : StoreError)
  | resolution (e : ResolveError)
  deriving DecidableEq, Repr

namespace RunError

def stage : RunError → String
  | selection _ => "base query failed"
  | resolution _ => "derived metric resolution failed"

def cause : RunError → String
  | selection e => e.message
  | resolution e => e.message

def message (e : RunError) : String := e.stage ++ ": " ++ e.cause

def isRefusal : RunError → Bool
  | selection (.refused _) | resolution (.store (.refused _)) => true
  | _ => false

end RunError

inductive ScreenError (α : Type) where
  | payload (e : PayloadError)
  | compile (e : CompileError α)
  | run (e : RunError)

structure ErrorBody where
  code : String
  message : String
  field : Option String
  deriving DecidableEq, Repr

namespace ScreenError

variable {α : Type} [Quantity α]

def message : ScreenError α → String
  | payload e => e.fault.message
  | compile e => e.message
  | run e => e.message

def body : ScreenError α → ErrorBody
  | payload e => ⟨ViolationCode.malformed.word, e.fault.message, some e.path.text⟩
  | compile (.validation v) => ⟨v.code.word, v.reason, v.field?⟩
  | compile (.unknownField f) =>
    ⟨ViolationCode.unsupportedMetric.word, (CompileError.unknownField f : CompileError α).message,
      some f⟩
  | compile (.invalidCondition f fault) =>
    ⟨ViolationCode.malformed.word, (CompileError.invalidCondition f fault : CompileError α).message,
      some f⟩
  | compile (.nonConjunctive f) =>
    ⟨ViolationCode.malformed.word, (CompileError.nonConjunctive f : CompileError α).message, some f⟩
  | compile (.parameterMismatch _ _) => ⟨"COMPILATION_ERROR", "query could not be compiled", none⟩
  | run _ => ⟨"EXECUTION_ERROR", "query execution failed", none⟩

end ScreenError

namespace Screen

variable {α : Type} [Quantity α]

/-- Selects candidates and resolves what is derived. The limit is applied last. -/
def runCompiled (store : Store α) (historyLength : Nat) (q : CompiledQuery α) :
    Traced α RunError (List (Row α)) := do
  let candidates ← (Traced.ask store q.statement).mapError .selection
  if q.derived.isEmpty then return candidates
  else
    let passed ←
      (Resolution.resolve store historyLength q.derived candidates).mapError .resolution
    return passed.take q.limit

def run (s : Settings) (store : Store α) (q : Query α) :
    Traced α (ScreenError α) (List (Row α)) :=
  match Compilation.compile s q with
  | .ok compiled => (runCompiled store s.historyLength compiled).mapError .run
  | .error e => Traced.ofResult (.error (.compile e))

def runRequest (s : Settings) (store : Store α) (request : Except PayloadError (Query α)) :
    Traced α (ScreenError α) (List (Row α)) :=
  match request with
  | .ok q => run s store q
  | .error e => Traced.ofResult (.error (.payload e))

def runText (s : Settings) (store : Store α) (text : String) :
    Traced α (ScreenError α) (List (Row α)) :=
  runRequest s store (Request.read text)

def runJson (s : Settings) (store : Store α) (payload : Json α) :
    Traced α (ScreenError α) (List (Row α)) :=
  runRequest s store (Request.readPayload payload)

def compileText (s : Settings) (text : String) : Except (ScreenError α) (CompiledQuery α) :=
  match Request.read text with
  | .ok q => (Compilation.compile s q).mapError .compile
  | .error e => .error (.payload e)

end Screen

end EquityScreen
