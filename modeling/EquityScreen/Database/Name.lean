import EquityScreen.Text.Blank

namespace EquityScreen.Database

def sameName (a b : String) : Bool := Text.foldAscii a = Text.foldAscii b

def reservedWords : List String :=
  ["add", "all", "alter", "and", "as", "autoincrement", "between", "case", "check", "collate",
   "commit", "constraint", "create", "default", "deferrable", "delete", "distinct", "drop", "else",
   "escape", "except", "exists", "foreign", "from", "group", "having", "in", "index", "insert",
   "intersect", "into", "is", "isnull", "join", "limit", "not", "nothing", "notnull", "null", "on",
   "or", "order", "primary", "references", "returning", "select", "set", "table", "then", "to",
   "transaction", "union", "unique", "update", "using", "values", "when", "where"]

def isNameStart (c : Char) : Bool :=
  ('a' ≤ c && c ≤ 'z') || ('A' ≤ c && c ≤ 'Z') || c = '_' || 0x80 ≤ c.toNat

def isNameChar (c : Char) : Bool := isNameStart c || Text.isDigit c || c = '$'

/-- A word of letters, digits, underscores and dollar signs that starts with a letter or an
underscore, where all that is beyond ASCII counts as a letter. -/
def isWord : List Char → Bool
  | [] => false
  | c :: rest => isNameStart c && rest.all isNameChar

def isFreeName (name : String) : Bool :=
  isWord name.toList && !reservedWords.contains (Text.foldAscii name)

end EquityScreen.Database
