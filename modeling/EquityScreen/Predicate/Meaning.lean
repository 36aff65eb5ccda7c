import EquityScreen.Cell.Affinity
import EquityScreen.Predicate
import EquityScreen.Truth

namespace EquityScreen

/-- The rows that a screen joins for a company. A row that is not there is empty. -/
structure Candidate (α : Type) where
  company : Row α
  fundamentals : Row α
  ownership : Row α

namespace Candidate

variable {α : Type}

def row (c : Candidate α) : Source → Row α
  | .company => c.company
  | .fundamentals => c.fundamentals
  | .ownership => c.ownership

def get (c : Candidate α) (s : Source) (column : String) : Cell α := Row.get (c.row s) column

def ticker (c : Candidate α) : Cell α := c.get .company tickerColumn

end Candidate

abbrev History (α : Type) := WindowUnit → List (Row α)

variable {α : Type} [Quantity α]

/-- Rows in descending order of a column; rows with equal cells keep their order. -/
def newestFirst (column : String) (rows : List (Row α)) : List (Row α) :=
  rows.mergeSort fun a b => (Cell.order (Row.get b column) (Row.get a column)).isLE

namespace Trailing

/-- The values of the window, oldest first. -/
def values (w : Trailing) (h : History α) (c : Candidate α) : List (Cell α) :=
  let rows := (h w.unit).filter fun r =>
    (Row.get r tickerColumn).equals c.ticker && !(Row.get r w.column).isNull
  (((newestFirst w.period rows).take w.length).map fun r => Row.get r w.column).reverse

end Trailing

namespace Aggregation

def mean (xs : List α) : α := Quantity.sum xs / Quantity.ofInt (xs.length : Nat)

def growth (first last : Cell α) (count : Nat) : Cell α :=
  let zero : Cell α := .int 0
  if 1 < count && (Cell.order first zero == .gt) && (Cell.order last zero != .lt) then
    match Quantity.power? (last.magnitude / first.magnitude : α)
        (Quantity.one / Quantity.ofInt ((count - 1 : Nat) : Int)) with
    | some p => .real (p - Quantity.one)
    | none => .null
  else .null

/-- An aggregate of no values is absent. -/
def value (a : Aggregation) (vs : List (Cell α)) : Cell α :=
  match vs with
  | [] => .null
  | first :: rest =>
    let last := rest.getLastD first
    match a with
    | .avg => .real (mean (vs.map Cell.magnitude))
    | .sum => .real (Quantity.sum (vs.map Cell.magnitude))
    | .latest => last
    | .cagr => growth first last vs.length

end Aggregation

namespace Operand

def value (h : History α) (c : Candidate α) : Operand → Cell α
  | .column f => c.get f.source f.column
  | .orAnnual f =>
    let own := c.get f.source f.column
    if own.isNull then
      (Trailing.values ⟨.years, f.column, 1⟩ h c).head?.getD .null
    else own
  | .aggregate a w => a.value (w.values h c)

/-- A bare column lends its affinity to what it is compared with. -/
def adapt : Operand → Cell α → Cell α
  | .column f, v => match f.kind with
    | .text => Affinity.text.adapt v
    | .numeric => Affinity.real.adapt v
  | _, v => v

end Operand

namespace Trend

def breaks (t : Trend) (previous v : Cell α) : Bool :=
  match t with
  | .increasing => Cell.order v previous != .gt
  | .decreasing => Cell.order v previous != .lt
  | .stable => false

/-- Does a value deviate from the mean by more than a tenth of it? -/
def deviates (mean : α) (v : Cell α) : Bool :=
  Quantity.less (Quantity.tenth * Quantity.abs mean) (Quantity.abs (v.magnitude - mean))

def holds (t : Trend) (length : Nat) (vs : List (Cell α)) : Bool :=
  !vs.isEmpty && length ≤ vs.length &&
  match t with
  | .stable => vs.all fun v => !deviates (Aggregation.mean (vs.map Cell.magnitude)) v
  | t => (vs.zip vs.tail).all fun (previous, v) => !t.breaks previous v

end Trend

namespace Predicate

def compareCells (op : Operator) (left right : Cell α) : Truth :=
  match Cell.compare? left right with
  | some o => Truth.ofBool (op.holds o)
  | none => .unknown

def compareWith (h : History α) (bound : Nat → Cell α) (c : Candidate α)
    (x : Operand) (op : Operator) (n : Nat) : Truth :=
  compareCells op (x.value h c) (x.adapt (bound n))

def isMissing (c : Candidate α) (f : Field) : Truth :=
  Truth.ofBool (c.get f.source f.column).isNull

mutual

def truth (h : History α) (bound : Nat → Cell α) (c : Candidate α) : Predicate → Truth
  | .compare x op n => compareWith h bound c x op n
  | .between x low high =>
    (compareWith h bound c x .ge low).and (compareWith h bound c x .le high)
  | .inside x low high =>
    (compareWith h bound c x .gt low).and (compareWith h bound c x .lt high)
  | .present f p => (isMissing c f).not.and (truth h bound c p)
  | .missingOr f p => (isMissing c f).or (truth h bound c p)
  | .trend t w => Truth.ofBool (t.holds w.length (w.values h c))
  | .group .and ps => truthOfAll h bound c ps
  | .group .or ps => truthOfAny h bound c ps
  | .not p => (truth h bound c p).not

def truthOfAll (h : History α) (bound : Nat → Cell α) (c : Candidate α) :
    List Predicate → Truth
  | [] => .yes
  | p :: rest => (truth h bound c p).and (truthOfAll h bound c rest)

def truthOfAny (h : History α) (bound : Nat → Cell α) (c : Candidate α) :
    List Predicate → Truth
  | [] => .no
  | p :: rest => (truth h bound c p).or (truthOfAny h bound c rest)

end

end Predicate

end EquityScreen
