import EquityScreen.Cell
import EquityScreen.Text.Blank
import EquityScreen.Width

namespace EquityScreen

structure Numeral where
  negative : Bool
  digits : Nat
  exponent : Int
  isInteger : Bool
  deriving DecidableEq, Repr

namespace Numeral

def sign : List Char → Bool × List Char
  | '-' :: rest => (true, rest)
  | '+' :: rest => (false, rest)
  | cs => (false, cs)

/-- An exponent counts only with a digit. -/
def readExponent (cs : List Char) : Int × List Char :=
  match cs with
  | c :: rest =>
    if c = 'e' ∨ c = 'E' then
      let (negative, rest) := sign rest
      let digits := rest.takeWhile Text.isDigit
      if digits.isEmpty then (0, cs)
      else
        let n : Int := Text.digitsValue digits
        (if negative then -n else n, rest.dropWhile Text.isDigit)
    else (0, cs)
  | [] => (0, cs)

def read? (cs : List Char) : Option (Numeral × List Char) :=
  let (negative, cs) := sign (cs.dropWhile Text.isAsciiBlank)
  let whole := cs.takeWhile Text.isDigit
  let cs := cs.dropWhile Text.isDigit
  let (places, pointed, cs) := match cs with
    | '.' :: rest => (rest.takeWhile Text.isDigit, true, rest.dropWhile Text.isDigit)
    | cs => ([], false, cs)
  if whole.isEmpty && places.isEmpty then none
  else
    let (exponent, rest) := readExponent cs
    some (⟨negative, Text.digitsValue (whole ++ places), exponent - places.length,
      !pointed && rest.length = cs.length⟩, rest)

def ofText? (s : String) : Option Numeral :=
  (read? s.toList).bind fun (n, rest) => if rest.all Text.isAsciiBlank then some n else none

def toInt (n : Numeral) : Int := if n.negative then -(n.digits : Int) else n.digits

def value? {α : Type} [Quantity α] (n : Numeral) : Option α :=
  Quantity.ofDecimal n.negative n.digits n.exponent

end Numeral

inductive Affinity where
  | text
  | integer
  | real
  deriving DecidableEq, Repr

namespace Affinity

variable {α : Type} [Quantity α]

def word : Affinity → String
  | .text => "TEXT"
  | .integer => "INTEGER"
  | .real => "REAL"

/-- A whole number becomes an integer where integers reach. -/
def settleWhole (x : α) : Cell α :=
  match Quantity.whole? x with
  | some n => if Width.isSigned 64 n then .int n else .real x
  | none => .real x

def toText : Cell α → Cell α
  | .int n => .text (toString n)
  | .real x => .text (Quantity.columnText x)
  | c => c

def toReal : Cell α → Cell α
  | .int n => .real (Quantity.ofInt n)
  | .text s => match (Numeral.ofText? s).bind Numeral.value? with
    | some x => .real x
    | none => .text s
  | c => c

def readNumber? (s : String) : Option (Cell α) :=
  (Numeral.ofText? s).bind fun n =>
    if n.isInteger && Width.isSigned 64 n.toInt then some (.int n.toInt)
    else (n.value? : Option α).map .real

def toInteger : Cell α → Cell α
  | .real x => settleWhole x
  | .text s => match readNumber? s with
    | some (.real x) => settleWhole x
    | some c => c
    | none => .text s
  | c => c

def unflag : Cell α → Cell α
  | .flag b => .int b.toInt
  | c => c

def apply (a : Affinity) (c : Cell α) : Cell α :=
  match a with
  | .text => toText (unflag c)
  | .integer => toInteger (unflag c)
  | .real => toReal (unflag c)

/-- A value as it is compared with a column. Numbers stay as they are, since integers and other
numbers are compared exactly. -/
def adapt (a : Affinity) (c : Cell α) : Cell α :=
  match a, unflag c with
  | .text, c => toText c
  | _, .text s => (readNumber? s).getD (.text s)
  | _, c => c

end Affinity

/-- The number that an aggregate takes a cell for: text counts by the numeral it starts with. -/
def Cell.magnitude {α : Type} [Quantity α] (c : Cell α) : α :=
  match c with
  | .flag b => Quantity.ofInt b.toInt
  | .text s => ((Numeral.read? s.toList).bind fun r => r.1.value?).getD Quantity.zero
  | c => c.number?.getD Quantity.zero

end EquityScreen
