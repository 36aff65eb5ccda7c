import EquityScreen.Proofs.OperandQueries
import EquityScreen.Proofs.PlaceholderText
import EquityScreen.Proofs.SqlTokens

/-!
Conditions as a store reads them from the text of a query: `or` binds loosest, then `and`, then
`not`, and tests bind tightest. What a test is about is a column, a call or a subquery; these are
taken as wholes and looked up in a scope.
-/

namespace EquityScreen.Sql

inductive Expr where
  | compare (x : Comparand) (op : Operator) (n : Nat)
  | between (x : Comparand) (low high : Nat)
  | isNull (x : Comparand)
  | isNotNull (x : Comparand)
  | trend (t : Trend) (w : Trailing)
  | not (e : Expr)
  | join (c : Connective) (a b : Expr)

/-- What the operands and the subqueries of a text stand for. -/
structure Scope where
  comparand? : List String → Option Comparand
  trend? : List String → Option (Trend × Trailing)

/-- Reads up to the parenthesis that closes the innermost one, with so many others open inside. -/
def closing : Nat → List String → Option (List String × List String)
  | _, [] => none
  | depth, t :: ts =>
    if t = "(" then (closing (depth + 1) ts).map fun r => (t :: r.1, r.2)
    else if t = ")" then match depth with
      | 0 => some ([t], ts)
      | depth + 1 => (closing depth ts).map fun r => (t :: r.1, r.2)
    else (closing depth ts).map fun r => (t :: r.1, r.2)

def readBlock : List String → Option (List String × List String)
  | [] => none
  | t :: ts =>
    if t = "(" then (closing 0 ts).map fun r => (t :: r.1, r.2)
    else match ts with
      | "(" :: ts => (closing 0 ts).map fun r => (t :: "(" :: r.1, r.2)
      | _ => some ([t], ts)

def placeholder? (t : String) : Option Nat :=
  match Placeholder.ofText t with
  | [n] => if t = Predicate.placeholder n then some n else none
  | _ => none

def readTest (x : Comparand) : List String → Option (Expr × List String)
  | "IS" :: "NULL" :: ts => some (.isNull x, ts)
  | "IS" :: "NOT" :: "NULL" :: ts => some (.isNotNull x, ts)
  | "BETWEEN" :: low :: "AND" :: high :: ts => do
    let low ← placeholder? low
    let high ← placeholder? high
    return (.between x low high, ts)
  | op :: n :: ts => do
    let op ← (Operator.ofWord op).toOption
    let n ← placeholder? n
    return (.compare x op n, ts)
  | _ => none

variable (scope : Scope)

mutual

def readJoined (c : Connective) : Nat → List String → Option (Expr × List String)
  | 0, _ => none
  | fuel + 1, ts => (readMember c fuel ts).bind fun r => readMore c fuel r.1 r.2

def readMore (c : Connective) : Nat → Expr → List String → Option (Expr × List String)
  | 0, _, _ => none
  | fuel + 1, e, ts =>
    if ts.head? = some c.upper then
      (readMember c fuel ts.tail).bind fun r => readMore c fuel (.join c e r.1) r.2
    else some (e, ts)

/-- What `or` joins is joined by `and`, and what `and` joins may be negated. -/
def readMember (c : Connective) : Nat → List String → Option (Expr × List String)
  | 0, _ => none
  | fuel + 1, ts => match c with
    | .or => readJoined .and fuel ts
    | .and => readNegated fuel ts

def readNegated : Nat → List String → Option (Expr × List String)
  | 0, _ => none
  | fuel + 1, ts =>
    if ts.head? = some "NOT" then (readNegated fuel ts.tail).map fun r => (.not r.1, r.2)
    else readBasic fuel ts

/-- A test, or a condition in parentheses. A parenthesis before `SELECT` opens a subquery. -/
def readBasic : Nat → List String → Option (Expr × List String)
  | 0, _ => none
  | fuel + 1, ts =>
    if ts.head? = some "(" ∧ ts.tail.head? ≠ some "SELECT" then
      (readJoined .or fuel ts.tail).bind fun r =>
        if r.2.head? = some ")" then some (r.1, r.2.tail) else none
    else (readBlock ts).bind fun r =>
      if ts.head? = some "EXISTS" then (scope.trend? r.1).map fun t => (.trend t.1 t.2, r.2)
      else (scope.comparand? r.1).bind fun x => readTest x r.2

end

def read (text : String) : Option Expr :=
  let ts := tokens text
  (readJoined scope .or (8 * ts.length + 8) ts).bind fun r => if r.2 = [] then some r.1 else none

namespace Expr

variable {α : Type} [Quantity α]

def truth (h : History α) (bound : Nat → Cell α) (c : Candidate α) : Expr → Truth
  | .compare x op n => x.compareWith h bound c op n
  | .between x low high =>
    (x.compareWith h bound c .ge low).and (x.compareWith h bound c .le high)
  | .isNull x => Truth.ofBool (x.value h c).isNull
  | .isNotNull x => (Truth.ofBool (x.value h c).isNull).not
  | .trend t w => Truth.ofBool (t.holds w.length (w.values h c))
  | .not e => (e.truth h bound c).not
  | .join .and a b => (a.truth h bound c).and (b.truth h bound c)
  | .join .or a b => (a.truth h bound c).or (b.truth h bound c)

end Expr

end EquityScreen.Sql
