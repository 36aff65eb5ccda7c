import EquityScreen.Screen

namespace EquityScreen

/-- The places of candidates in the order in which their examination ends. One worker goes from the
first to the last, and so is a lone candidate examined. -/
structure Schedule (workers count : Nat) where
  places : List Nat
  complete : places.Perm (List.range count)
  inOrder : workers ≤ 1 ∨ count ≤ 1 → places = List.range count

structure Examination where
  verdicts : List (Option Bool)
  failure : Option ResolveError
  deriving DecidableEq, Repr

namespace Examination

variable {α : Type}

def start (count : Nat) : Examination := ⟨List.replicate count none, none⟩

/-- Notes what the examination of the candidate at a place has come to. What comes after a failure
does not count. -/
def note (e : Examination) (place : Nat) (verdict : Except ResolveError Bool) : Examination :=
  match e.failure, verdict with
  | some _, _ => e
  | none, .ok b => { e with verdicts := e.verdicts.set place (some b) }
  | none, .error x => { e with failure := some x }

def outcome (e : Examination) (candidates : List (Row α)) : Except ResolveError (List (Row α)) :=
  match e.failure with
  | some x => .error x
  | none => .ok ((candidates.zip e.verdicts).filterMap fun (r, v) =>
      if v = some true then some r else none)

end Examination

namespace Resolution

variable {α : Type} [Quantity α]

def examine (store : Store α) (historyLength : Nat) (conditions : List (CompiledCondition α))
    (candidates : List (Row α)) (e : Examination) (place : Nat) : Examination :=
  match candidates[place]? with
  | some r => e.note place (passes store historyLength conditions r).result
  | none => e

/-- The candidates that pass every condition, in order, whichever are examined first. -/
def resolveBy (store : Store α) (historyLength : Nat) (conditions : List (CompiledCondition α))
    (candidates : List (Row α)) {workers : Nat} (schedule : Schedule workers candidates.length) :
    Except ResolveError (List (Row α)) :=
  if conditions.isEmpty then .ok candidates
  else (schedule.places.foldl (examine store historyLength conditions candidates)
    (Examination.start candidates.length)).outcome candidates

end Resolution

structure PoolError where
  reason : String
  deriving DecidableEq, Repr

inductive PooledError where
  | pool (e : PoolError)
  | run (e : RunError)
  deriving DecidableEq, Repr

def PooledError.message : PooledError → String
  | pool e => "derived metric resolution failed: cannot start resolver pool: " ++ e.reason
  | run e => e.message

namespace Screen

variable {α : Type} [Quantity α]

/-- The run of a compiled query by several workers. The schedule is settled once the candidates are
known. -/
def runCompiledBy (store : Store α) (historyLength : Nat) (q : CompiledQuery α) {workers : Nat}
    (schedule : (candidates : List (Row α)) → Schedule workers candidates.length) :
    Except RunError (List (Row α)) :=
  match store q.statement with
  | .error e => .error (.selection e)
  | .ok candidates =>
    if q.derived.isEmpty then .ok candidates
    else ((Resolution.resolveBy store historyLength q.derived candidates
      (schedule candidates)).map (·.take q.limit)).mapError .resolution

/-- The run that starts its workers itself. It does so only if there are several, and several
candidates for them. -/
def runPooled (start : Nat → Except PoolError Unit) (store : Store α) (historyLength : Nat)
    (q : CompiledQuery α) {workers : Nat}
    (schedule : (candidates : List (Row α)) → Schedule workers candidates.length) :
    Except PooledError (List (Row α)) :=
  match store q.statement with
  | .error e => .error (.run (.selection e))
  | .ok candidates =>
    if q.derived.isEmpty then .ok candidates
    else do
      if 1 < workers && 1 < candidates.length then (start workers).mapError .pool else pure ()
      let passed ← (Resolution.resolveBy store historyLength q.derived candidates
        (schedule candidates)).mapError fun e => .run (.resolution e)
      return passed.take q.limit

end Screen

end EquityScreen
