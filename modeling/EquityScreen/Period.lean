import EquityScreen.Cell
import EquityScreen.Json
import EquityScreen.Text.Blank
import EquityScreen.Vocabulary
import EquityScreen.Width

namespace EquityScreen

structure Date where
  year : Int
  month : Nat
  day : Nat
  deriving DecidableEq, Repr

namespace Date

def isLeap (year : Int) : Bool := year % 4 = 0 && (year % 100 ≠ 0 || year % 400 = 0)

def daysIn (year : Int) (month : Nat) : Nat :=
  if month = 2 then (if isLeap year then 29 else 28)
  else if month = 4 ∨ month = 6 ∨ month = 9 ∨ month = 11 then 30
  else 31

def isValid (d : Date) : Bool :=
  1 ≤ d.month && d.month ≤ 12 && 1 ≤ d.day && d.day ≤ daysIn d.year d.month

def order (a b : Date) : Ordering :=
  (compare a.year b.year).then ((compare a.month b.month).then (compare a.day b.day))

def readDigits (width : Nat) (cs : List Char) : Option (Nat × List Char) :=
  let digits := (cs.take width).takeWhile Text.isDigit
  if digits.isEmpty then none else some (Text.digitsValue digits, cs.drop digits.length)

/-- Four digits at most, or a sign and any number of them. -/
def readYear (cs : List Char) : Option (Int × List Char) :=
  match cs.dropWhile Text.isBlank with
  | '-' :: rest => (readDigits rest.length rest).map fun (n, rest) => (-(n : Int), rest)
  | '+' :: rest => (readDigits rest.length rest).map fun (n, rest) => ((n : Int), rest)
  | rest => (readDigits 4 rest).map fun (n, rest) => ((n : Int), rest)

def readPart : List Char → Option (Nat × List Char)
  | '-' :: rest => readDigits 2 (rest.dropWhile Text.isBlank)
  | _ => none

/-- Year, month and day with dashes between them; blanks may precede each number. -/
def readAll (cs : List Char) : Option Date := do
  let (year, cs) ← readYear cs
  let (month, cs) ← readPart cs
  let (day, cs) ← readPart cs
  let d : Date := ⟨year, month, day⟩
  if cs.isEmpty && d.isValid then some d else none

/-- The date in the first ten bytes of a text; a time of day may follow. -/
def read? (s : String) : Option Date := (Text.takeBytes 10 s.toList).bind readAll

def padded (width n : Nat) : List Char :=
  let digits := Nat.toDigits 10 n
  List.replicate (width - digits.length) '0' ++ digits

def yearText (year : Int) : List Char :=
  if 0 ≤ year ∧ year ≤ 9999 then padded 4 year.toNat
  else (if year < 0 then '-' else '+') :: padded 4 year.natAbs

def text (d : Date) : String :=
  String.ofList (yearText d.year ++ '-' :: padded 2 d.month ++ '-' :: padded 2 d.day)

end Date

def Cell.ofJson? {α : Type} : Json α → Option (Cell α)
  | .null => some .null
  | .bool b => some (.flag b)
  | .int n => some (.int n)
  | .real x => some (.real x)
  | .text s => some (.text s)
  | .array _ | .object _ => none

inductive Period where
  | year (y : Int)
  | date (d : Date)
  deriving DecidableEq, Repr

namespace Period

def isYear (n : Int) : Bool := Width.isSigned 32 n

def readInt? (cs : List Char) : Option Int :=
  let (negative, digits) := match cs with
    | '-' :: rest => (true, rest)
    | '+' :: rest => (false, rest)
    | cs => (false, cs)
  if digits.isEmpty || !digits.all Text.isDigit then none
  else
    let n : Int := Text.digitsValue digits
    some (if negative then -n else n)

def readYear? (s : String) : Option Int :=
  match (readInt? s.toList).filter isYear with
  | some n => some n
  | none => (Date.read? s).map (·.year)

def ofCell? {α : Type} (unit : WindowUnit) (c : Cell α) : Option Period :=
  match unit, c with
  | .years, .int n => if isYear n then some (.year n) else none
  | .years, .text s => (readYear? s).map .year
  | .quarters, .text s => (Date.read? s).map .date
  | _, _ => none

def cell {α : Type} : Period → Cell α
  | .year y => .int y
  | .date d => .text d.text

/-- The period that a JSON value stands for. Lists and objects, which no cell holds, stand for
none. -/
def ofJson? {α : Type} (unit : WindowUnit) (v : Json α) : Option Period :=
  (Cell.ofJson? v).bind (ofCell? unit)

def json {α : Type} : Period → Json α
  | .year y => .int y
  | .date d => .text d.text

def order : Period → Period → Ordering
  | .year a, .year b => compare a b
  | .year _, .date _ => .lt
  | .date _, .year _ => .gt
  | .date a, .date b => a.order b

/-- Rows without a period come before all others. -/
def orderOption : Option Period → Option Period → Ordering
  | none, none => .eq
  | none, some _ => .lt
  | some _, none => .gt
  | some a, some b => order a b

end Period

end EquityScreen
