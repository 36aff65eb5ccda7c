import EquityScreen.Json
import EquityScreen.Quantity
import EquityScreen.Text.Blank
import EquityScreen.Width

namespace EquityScreen.Json

variable {α : Type}

def isSpace (c : Char) : Bool := c = ' ' || c = '\t' || c = '\n' || c = '\r'

def skipSpace (cs : List Char) : List Char := cs.dropWhile isSpace

def hexDigit? (c : Char) : Option Nat :=
  if '0' ≤ c ∧ c ≤ '9' then some (c.toNat - '0'.toNat)
  else if 'a' ≤ c ∧ c ≤ 'f' then some (c.toNat - 'a'.toNat + 10)
  else if 'A' ≤ c ∧ c ≤ 'F' then some (c.toNat - 'A'.toNat + 10)
  else none

/-- Four hexadecimal digits, a unit of 16 bits. -/
def readUnit : List Char → Option (Nat × List Char)
  | a :: b :: c :: d :: rest => do
    let a ← hexDigit? a
    let b ← hexDigit? b
    let c ← hexDigit? c
    let d ← hexDigit? d
    return (((a * 16 + b) * 16 + c) * 16 + d, rest)
  | _ => none

/-- The character after `\u`: one unit, or a pair of surrogates. A surrogate alone is refused. -/
def readEscapedUnit (cs : List Char) : Option (Char × List Char) := do
  let (first, rest) ← readUnit cs
  if 0xD800 ≤ first ∧ first < 0xDC00 then
    match rest with
    | '\\' :: 'u' :: rest => do
      let (second, rest) ← readUnit rest
      if 0xDC00 ≤ second ∧ second < 0xE000 then
        return (Char.ofNat (0x10000 + (first - 0xD800) * 0x400 + (second - 0xDC00)), rest)
      else none
    | _ => none
  else if 0xDC00 ≤ first ∧ first < 0xE000 then none
  else return (Char.ofNat first, rest)

def unescape? : Char → Option Char
  | '"' => some '"'
  | '\\' => some '\\'
  | '/' => some '/'
  | 'b' => some '\x08'
  | 'f' => some '\x0c'
  | 'n' => some '\n'
  | 'r' => some '\r'
  | 't' => some '\t'
  | _ => none

/-- The rest of a string after its opening quote. The fuel bounds the characters left; the ones
read so far are kept in reverse. -/
def readText : (fuel : Nat) → (read : List Char) → List Char → Option (String × List Char)
  | 0, _, _ => none
  | _ + 1, _, [] => none
  | fuel + 1, read, c :: rest =>
    if c = '"' then some (String.ofList read.reverse, rest)
    else if c = '\\' then
      match rest with
      | 'u' :: rest => do
        let (c, rest) ← readEscapedUnit rest
        readText fuel (c :: read) rest
      | e :: rest => do
        let c ← unescape? e
        readText fuel (c :: read) rest
      | [] => none
    else if c.toNat < 0x20 then none
    else readText fuel (c :: read) rest

/-- The digits of an integer part: `0` alone, or digits that do not start with it. -/
def readWhole : List Char → Option (List Char × List Char)
  | '0' :: rest => if (rest.head?.map Text.isDigit).getD false then none else some (['0'], rest)
  | cs =>
    let digits := cs.takeWhile Text.isDigit
    if digits.isEmpty then none else some (digits, cs.dropWhile Text.isDigit)

def readDigits (cs : List Char) : Option (List Char × List Char) :=
  let digits := cs.takeWhile Text.isDigit
  if digits.isEmpty then none else some (digits, cs.dropWhile Text.isDigit)

def readFraction : List Char → Option (Option (List Char) × List Char)
  | '.' :: rest => (readDigits rest).map fun (digits, rest) => (some digits, rest)
  | cs => some (none, cs)

def readExponent : List Char → Option (Option Int × List Char)
  | c :: rest =>
    if c = 'e' ∨ c = 'E' then
      match rest with
      | '-' :: rest => (readDigits rest).map fun (ds, rest) =>
          (some (-(Text.digitsValue ds : Int)), rest)
      | '+' :: rest => (readDigits rest).map fun (ds, rest) =>
          (some (Text.digitsValue ds : Int), rest)
      | rest => (readDigits rest).map fun (ds, rest) => (some (Text.digitsValue ds : Int), rest)
    else some (none, c :: rest)
  | [] => some (none, [])

/-- Integers of 64 bits, signed or not, stay integers; negative zero does not. -/
def isInteger (negative : Bool) (magnitude : Nat) : Bool :=
  if negative then 0 < magnitude && Width.isSigned 64 (-(magnitude : Int))
  else Width.isUnsigned 64 (magnitude : Int)

def readNumber [Quantity α] (cs : List Char) : Option (Json α × List Char) := do
  let (negative, cs) := match cs with
    | '-' :: rest => (true, rest)
    | cs => (false, cs)
  let (whole, cs) ← readWhole cs
  let (fraction, cs) ← readFraction cs
  let (exponent, cs) ← readExponent cs
  let magnitude := Text.digitsValue whole
  if fraction.isNone && exponent.isNone && isInteger negative magnitude then
    return (.int (if negative then -(magnitude : Int) else magnitude), cs)
  else
    let places := fraction.getD []
    let x ← Quantity.ofDecimal negative (Text.digitsValue (whole ++ places))
      (exponent.getD 0 - places.length)
    return (.real x, cs)

def readWord (word : List Char) (value : Json α) (cs : List Char) : Option (Json α × List Char) :=
  if word.isPrefixOf cs then some (value, cs.drop word.length) else none

def readItems (item : List Char → Option (Json α × List Char)) :
    (fuel : Nat) → List Char → Option (List (Json α) × List Char)
  | 0, _ => none
  | fuel + 1, cs => do
    let (v, cs) ← item cs
    match skipSpace cs with
    | ',' :: rest => do
      let (vs, rest) ← readItems item fuel rest
      return (v :: vs, rest)
    | ']' :: rest => return ([v], rest)
    | _ => none

def readMembers (item : List Char → Option (Json α × List Char)) :
    (fuel : Nat) → List Char → Option (List (String × Json α) × List Char)
  | 0, _ => none
  | fuel + 1, cs => do
    match skipSpace cs with
    | '"' :: rest => do
      let (key, rest) ← readText (rest.length + 1) [] rest
      match skipSpace rest with
      | ':' :: rest => do
        let (v, rest) ← item rest
        match skipSpace rest with
        | ',' :: rest => do
          let (ms, rest) ← readMembers item fuel rest
          return ((key, v) :: ms, rest)
        | '}' :: rest => return ([(key, v)], rest)
        | _ => none
      | _ => none
    | _ => none

def readValue [Quantity α] : (depth : Nat) → List Char → Option (Json α × List Char)
  | 0, cs => readScalar (skipSpace cs)
  | depth + 1, cs =>
    match skipSpace cs with
    | '[' :: rest => match skipSpace rest with
      | ']' :: rest => some (.array [], rest)
      | rest => (readItems (readValue depth) (rest.length + 1) rest).map fun (vs, rest) =>
          (.array vs, rest)
    | '{' :: rest => match skipSpace rest with
      | '}' :: rest => some (.object [], rest)
      | rest => (readMembers (readValue depth) (rest.length + 1) rest).map fun (ms, rest) =>
          (.object ms, rest)
    | cs => readScalar cs
where
  readScalar (cs : List Char) : Option (Json α × List Char) :=
    match cs with
    | 'n' :: _ => readWord ['n', 'u', 'l', 'l'] .null cs
    | 't' :: _ => readWord ['t', 'r', 'u', 'e'] (.bool true) cs
    | 'f' :: _ => readWord ['f', 'a', 'l', 's', 'e'] (.bool false) cs
    | '"' :: rest => (readText (rest.length + 1) [] rest).map fun (s, rest) => (.text s, rest)
    | cs => readNumber cs

def readNested? [Quantity α] (depth : Nat) (s : String) : Option (Json α) := do
  let (v, rest) ← readValue depth s.toList
  if (skipSpace rest).isEmpty then some v else none

def read? [Quantity α] (s : String) : Option (Json α) := readNested? 127 s

end EquityScreen.Json
