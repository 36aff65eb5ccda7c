import EquityScreen.Json
import EquityScreen.Quantity

namespace EquityScreen.Json

def hexDigit (n : Nat) : Char := (Nat.toDigits 16 n).headD '0'

def escape (c : Char) : List Char :=
  if c = '"' then ['\\', '"']
  else if c = '\\' then ['\\', '\\']
  else if c = '\n' then ['\\', 'n']
  else if c = '\t' then ['\\', 't']
  else if c = '\r' then ['\\', 'r']
  else if c.toNat = 0x08 then ['\\', 'b']
  else if c.toNat = 0x0C then ['\\', 'f']
  else if c.toNat < 0x20 then
    ['\\', 'u', '0', '0', hexDigit (c.toNat / 16), hexDigit (c.toNat % 16)]
  else [c]

def quoted (s : String) : String :=
  "\"" ++ String.ofList (s.toList.flatMap escape) ++ "\""

def newLine (depth : Nat) : String :=
  "\n" ++ String.ofList (List.replicate (2 * depth) ' ')

def enclosed (opening closing : String) (depth : Nat) : List String → String
  | [] => opening ++ closing
  | lines =>
    opening ++ String.intercalate "," (lines.map (newLine (depth + 1) ++ ·)) ++ newLine depth ++
      closing

variable {α : Type} [Quantity α]

mutual

/-- A value that starts on a line of the given depth. A number that is not finite is null. -/
def prettyAt (depth : Nat) : Json α → String
  | .null => "null"
  | .bool b => if b then "true" else "false"
  | .int n => toString n
  | .real x => if Quantity.isFinite x then Quantity.reportText x else "null"
  | .text s => quoted s
  | .array items => enclosed "[" "]" depth (prettyItems (depth + 1) items)
  | .object members => enclosed "\x7b" "\x7d" depth (prettyMembers (depth + 1) members)

def prettyItems (depth : Nat) : List (Json α) → List String
  | [] => []
  | v :: rest => prettyAt depth v :: prettyItems depth rest

def prettyMembers (depth : Nat) : List (String × Json α) → List String
  | [] => []
  | (key, v) :: rest => (quoted key ++ ": " ++ prettyAt depth v) :: prettyMembers depth rest

end

def pretty (v : Json α) : String := prettyAt 0 v

end EquityScreen.Json
