import EquityScreen.Violation

namespace EquityScreen

structure Bounds (α : Type) where
  lower : Option (Bound α)
  upper : Option (Bound α)
  deriving DecidableEq, Repr

namespace Bounds

variable {α : Type} [Quantity α]

def unbounded : Bounds α := ⟨none, none⟩

/-- A strict bound is tighter than a loose one at the same value. -/
def raise (b : Bounds α) (new : Bound α) : Bounds α :=
  match b.lower with
  | some old =>
    if Quantity.less new.value old.value || (Quantity.same old.value new.value && !old.inclusive)
    then b else { b with lower := some new }
  | none => { b with lower := some new }

def reduce (b : Bounds α) (new : Bound α) : Bounds α :=
  match b.upper with
  | some old =>
    if Quantity.less old.value new.value || (Quantity.same old.value new.value && !old.inclusive)
    then b else { b with upper := some new }
  | none => { b with upper := some new }

def isEmpty (b : Bounds α) : Bool :=
  match b.lower, b.upper with
  | some low, some high =>
    Quantity.less high.value low.value ||
      (Quantity.same low.value high.value && !(low.inclusive && high.inclusive))
  | _, _ => false

def compare (b : Bounds α) (op : Operator) (x : α) : Bounds α :=
  match op with
  | .lt => b.reduce ⟨x, false⟩
  | .le => b.reduce ⟨x, true⟩
  | .gt => b.raise ⟨x, false⟩
  | .ge => b.raise ⟨x, true⟩
  | .eq => (b.raise ⟨x, true⟩).reduce ⟨x, true⟩
  | .ne => b

def isInverted (min max : Option α) : Bool :=
  match min, max with
  | some low, some high => Quantity.less high low
  | _, _ => false

/-- What a range leaves of the numbers. An inverted range is reported elsewhere and leaves all. -/
def within (b : Bounds α) (r : Range α) : Bounds α :=
  if isInverted r.lower? r.upper? then b
  else
    let b := match r.lower? with
      | some low => b.raise ⟨low, r.isInclusive⟩
      | none => b
    match r.upper? with
    | some high => b.reduce ⟨high, r.isInclusive⟩
    | none => b

/-- What a condition leaves of the numbers. A window bounds an aggregate and not the field, and a
word or a literal that cannot be read bounds nothing. -/
def restrict (b : Bounds α) (c : Condition α) : Bounds α :=
  if c.window.isSome then b
  else match c.operator, c.value, c.range with
    | some word, some v, _ => match Operator.read word, v.number? with
      | .ok op, some x => b.compare op x
      | _, _ => b
    | _, _, some r => b.within r
    | _, _, none => b

end Bounds

abbrev BoundTable (α : Type) := List (String × Bounds α)

namespace BoundTable

variable {α : Type} [Quantity α]

def get (t : BoundTable α) (field : String) : Bounds α :=
  ((t.find? fun e => e.1 = field).map (·.2)).getD Bounds.unbounded

def apply (t : BoundTable α) (c : Condition α) : BoundTable α × List (Violation α) :=
  let field := c.fieldName
  let before := t.get field
  let after := before.restrict c
  let report := match after.upper, after.lower with
    | some upper, some lower =>
      if after.isEmpty && !before.isEmpty then [.conflict field upper lower] else []
    | _, _ => []
  ((field, after) :: t, report)

end BoundTable

end EquityScreen
