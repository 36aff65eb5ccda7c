import EquityScreen.Predicate.Meaning
import EquityScreen.Proofs.ConditionReading
import EquityScreen.Statement

namespace EquityScreen

variable {α : Type} [Quantity α]

namespace Field

def newestAnnual? (f : Field) (h : History α) (c : Candidate α) : Option (Cell α) :=
  (Trailing.values ⟨.years, f.column, 1⟩ h c).head?

def compares (f : Field) (op : Operator) (l : Literal α) (v : Cell α) : Truth :=
  Predicate.compareCells op v ((Operand.column f).adapt (Parameter.literal l).cell)

/-- The comparison of a value of the field with the bounds of a span; an absent bound is met. -/
def within (f : Field) (s : Span α) (v : Cell α) : Truth :=
  let above := s.min.map fun low => f.compares (if s.inclusive then .ge else .gt) (.real low) v
  let below := s.max.map fun high => f.compares (if s.inclusive then .le else .lt) (.real high) v
  (above.getD .yes).and (below.getD .yes)

/-- The truth of a test of the field. The policy decides only where the candidate's own value is
missing, and the fallback finds another value only for fields with annual facts. -/
def tested (f : Field) (policy : MissingPolicy) (h : History α) (c : Candidate α)
    (test : Cell α → Truth) : Truth :=
  match c.get f.source f.column, policy with
  | .null, .exclude => .unknown
  | .null, .fail => .no
  | .null, .ignore => .yes
  | .null, .fallback => match f.isPeriodic, f.newestAnnual? h c with
    | true, some v => test v
    | _, _ => .unknown
  | v, _ => test v

end Field

/-- The truth of a condition; one on a derived metric is not decided by the selection. -/
def Condition.truth? (h : History α) (c : Candidate α) (d : Condition α) : Option Truth := do
  if isDerived d.fieldName then return .yes
  let f ← field? d.fieldName
  match d.range, d.trend, d.window with
  | some r, _, _ =>
    let policy ← d.policy?
    let s ← r.span?
    return f.tested policy h c (f.within s)
  | none, some word, some w =>
    let t ← (Trend.read word).toOption
    let spec ← w.spec?
    let vs := Trailing.values ⟨spec.unit, f.column, spec.length⟩ h c
    return Truth.ofBool (t.holds spec.length vs)
  | none, some _, none => none
  | none, none, some w =>
    let spec ← w.spec?
    let (op, v) ← d.comparison?
    let vs := Trailing.values ⟨spec.unit, f.column, spec.length⟩ h c
    return Predicate.compareCells op ((spec.aggregation.getD .avg).value vs)
      (Parameter.literal v).cell
  | none, none, none =>
    let policy ← d.policy?
    let (op, v) ← d.comparison?
    return f.tested policy h c (f.compares op v)

namespace Filter

mutual

def truth? (h : History α) (c : Candidate α) : Filter α → Option Truth
  | .group .and children => truthOfAll? h c children
  | .group .or children => truthOfAny? h c children
  | .not child => (truth? h c child).map .not
  | .leaf d => d.truth? h c

def truthOfAll? (h : History α) (c : Candidate α) : List (Filter α) → Option Truth
  | [] => some .yes
  | f :: rest => do return (← truth? h c f).and (← truthOfAll? h c rest)

def truthOfAny? (h : History α) (c : Candidate α) : List (Filter α) → Option Truth
  | [] => some .no
  | f :: rest => do return (← truth? h c f).or (← truthOfAny? h c rest)

end

end Filter

end EquityScreen
