import EquityScreen.Filter
import EquityScreen.Json.Reader
import EquityScreen.Width

namespace EquityScreen

inductive Step where
  | key (k : String)
  | index (i : Nat)
  deriving DecidableEq, Repr

abbrev Path := List Step

namespace Path

def textFrom (written : String) : Path → String
  | [] => written
  | .key k :: rest => textFrom (if written.isEmpty then k else written ++ "." ++ k) rest
  | .index i :: rest => textFrom (written ++ "[" ++ toString i ++ "]") rest

/-- Keys are joined by points, indices stand in brackets, and `$` is the root. -/
def text (p : Path) : String :=
  let written := textFrom "" p
  if written.isEmpty then "$" else written

end Path

inductive PayloadFault where
  | notJson
  | payloadNotObject
  | nodeNotObject
  | mixedKeys (keys : List String)
  | fieldBesideGroup (key : String)
  | notArray (key : String)
  | windowAndPeriod
  | rangeNotObject
  | windowNotObject
  | sortNotList
  | sortKeyNotObject
  | sortKeyWithoutField
  | unknownDirection (word : String)
  | limitNotCount
  | notScalar
  | notText (key : String)
  | notFlag (key : String)
  deriving DecidableEq, Repr

def PayloadFault.message : PayloadFault → String
  | notJson => "invalid JSON"
  | payloadNotObject => "payload must be an object"
  | nodeNotObject => "filter node must be an object"
  | mixedKeys keys => "node mixes logical keys: " ++ String.intercalate ", " keys
  | fieldBesideGroup key => "'" ++ key ++ "' node cannot also carry a field"
  | notArray key => "'" ++ key ++ "' must be an array"
  | windowAndPeriod => "condition cannot carry both window and period"
  | rangeNotObject => "range must be an object"
  | windowNotObject => "window must be an object"
  | sortNotList => "sort must be an object or an array"
  | sortKeyNotObject => "sort key must be an object"
  | sortKeyWithoutField => "sort key missing field"
  | unknownDirection word => "unknown sort direction '" ++ word ++ "'"
  | limitNotCount => "limit must be a non-negative integer"
  | notScalar => "value must be a scalar"
  | notText key => "'" ++ key ++ "' must be a string"
  | notFlag key => "'" ++ key ++ "' must be a boolean"

structure PayloadError where
  fault : PayloadFault
  path : Path
  deriving DecidableEq, Repr

namespace Request

variable {α : Type} [Quantity α]

abbrev Members (α : Type) := List (String × Json α)

def fail {β : Type} (fault : PayloadFault) (path : Path) : Except PayloadError β :=
  .error ⟨fault, path⟩

/-- Integers of 64 signed bits stay integers, larger ones become numbers. -/
def readLiteral (path : Path) : Json α → Except PayloadError (Literal α)
  | .null => .ok .null
  | .bool b => .ok (.bool b)
  | .int n => .ok (if Width.isSigned 64 n then .int n else .real (Quantity.ofInt n))
  | .real x => .ok (.real x)
  | .text s => .ok (.text s)
  | .array _ | .object _ => fail .notScalar path

def readOnly {β : Type} (kind : Json α → Option β) (fault : PayloadFault) (path : Path)
    (v : Json α) : Except PayloadError β :=
  match kind v with
  | some b => .ok b
  | none => fail fault path

/-- A member that need not be there, nor be more than null. -/
def optional {β : Type} (read : Path → Json α → Except PayloadError β) (ms : Members α)
    (path : Path) (key : String) : Except PayloadError (Option β) :=
  match Json.lookup key ms with
  | none | some .null => .ok none
  | some v => (read (path ++ [.key key]) v).map some

def optionalLiteral (ms : Members α) (path : Path) (key : String) :
    Except PayloadError (Option (Literal α)) := optional readLiteral ms path key

def optionalText (ms : Members α) (path : Path) (key : String) :
    Except PayloadError (Option String) :=
  optional (readOnly Json.text? (.notText key)) ms path key

def optionalFlag (ms : Members α) (path : Path) (key : String) :
    Except PayloadError (Option Bool) :=
  optional (readOnly Json.flag? (.notFlag key)) ms path key

def readRange (path : Path) : Json α → Except PayloadError (Range α)
  | .object ms => do
    let min ← optionalLiteral ms path "min"
    let max ← optionalLiteral ms path "max"
    let inclusive ← optionalFlag ms path "inclusive"
    let exclusive ← optionalFlag ms path "exclusive"
    return ⟨min, max, inclusive, exclusive⟩
  | _ => fail .rangeNotObject path

def readWindow (unitKey lengthKey : String) (path : Path) :
    Json α → Except PayloadError (Window α)
  | .object ms => do
    let unit ← optionalText ms path unitKey
    let length ← optionalLiteral ms path lengthKey
    let aggregation ← optionalText ms path "aggregation"
    return ⟨unit, length, aggregation⟩
  | _ => fail .windowNotObject path

/-- A span of periods is a `window` of `type` and `length` or a `period` of `unit` and `last`. -/
def readSpan (ms : Members α) (path : Path) : Except PayloadError (Option (Window α)) :=
  match Json.lookup "window" ms, Json.lookup "period" ms with
  | some _, some _ => fail .windowAndPeriod path
  | some w, none => (readWindow "type" "length" (path ++ [.key "window"]) w).map some
  | none, some p => (readWindow "unit" "last" (path ++ [.key "period"]) p).map some
  | none, none => .ok none

def readCondition (ms : Members α) (path : Path) : Except PayloadError (Condition α) := do
  let window ← readSpan ms path
  let field ← optionalText ms path "field"
  let operator ← optionalText ms path "operator"
  let value ← match Json.lookup "value" ms with
    | some v => (readLiteral (path ++ [.key "value"]) v).map some
    | none => .ok none
  let range ← match Json.lookup "range" ms with
    | some r => (readRange (path ++ [.key "range"]) r).map some
    | none => .ok none
  let trend ← optionalText ms path "trend"
  let onMissing ← optionalText ms path "on_missing"
  return ⟨field, operator, value, range, window, trend, onMissing⟩

def logicalKeys (ms : Members α) : List String :=
  ["and", "or", "not"].filter fun key => Json.has key ms

mutual

def readNode (path : Path) : Json α → Except PayloadError (Filter α)
  | .object ms =>
    match logicalKeys ms with
    | [] => (readCondition ms path).map .leaf
    | [key] =>
      if Json.has "field" ms then fail (.fieldBesideGroup key) path
      else if key = "not" then readChild ms path
      else readGroup (if key = "and" then .and else .or) ms path
    | keys => fail (.mixedKeys keys) path
  | _ => fail .nodeNotObject path
termination_by v => (sizeOf v, 0)

def readChild (ms : Members α) (path : Path) : Except PayloadError (Filter α) :=
  match h : Json.lookup "not" ms with
  | some v =>
    have := Json.sizeOf_lt_of_lookup h
    (readNode (path ++ [.key "not"]) v).map .not
  | none => fail .nodeNotObject path
termination_by (sizeOf ms, 1)

def readGroup (c : Connective) (ms : Members α) (path : Path) : Except PayloadError (Filter α) :=
  match h : Json.lookup c.word ms with
  | some (.array items) =>
    have : sizeOf items < sizeOf ms := by
      have := Json.sizeOf_lt_of_lookup h
      simp only [Json.array.sizeOf_spec] at this
      omega
    (readNodes (path ++ [.key c.word]) 0 items).map (.group c)
  | _ => fail (.notArray c.word) (path ++ [.key c.word])
termination_by (sizeOf ms, 1)

def readNodes (path : Path) (i : Nat) : List (Json α) → Except PayloadError (List (Filter α))
  | [] => .ok []
  | v :: rest => do
    let f ← readNode (path ++ [.index i]) v
    let fs ← readNodes path (i + 1) rest
    return f :: fs
termination_by vs => (sizeOf vs, 0)

end

def readDirection (path : Path) : Option String → Except PayloadError Direction
  | none => .ok .ascending
  | some word =>
    if word = "asc" then .ok .ascending
    else if word = "desc" then .ok .descending
    else fail (.unknownDirection word) path

def readSortKey (path : Path) : Json α → Except PayloadError SortKey
  | .object ms => do
    match ← optionalText ms path "field" with
    | some field =>
      let direction ← readDirection path (← optionalText ms path "direction")
      return ⟨field, direction⟩
    | none => fail .sortKeyWithoutField path
  | _ => fail .sortKeyNotObject path

def readSortKeys (path : Path) (i : Nat) : List (Json α) → Except PayloadError (List SortKey)
  | [] => .ok []
  | v :: rest => do
    let key ← readSortKey (path ++ [.index i]) v
    let keys ← readSortKeys path (i + 1) rest
    return key :: keys

def readSort (path : Path) : Json α → Except PayloadError (List SortKey)
  | .array items => readSortKeys path 0 items
  | .object ms => readSortKeys path 0 [.object ms]
  | _ => fail .sortNotList path

def readLimit (path : Path) : Json α → Except PayloadError (Option Nat)
  | .null => .ok none
  | .int n => if Width.isUnsigned 64 n then .ok (some n.toNat) else fail .limitNotCount path
  | _ => fail .limitNotCount path

def readPayload : Json α → Except PayloadError (Query α)
  | .object ms =>
    match Json.lookup "filter" ms with
    | none => do
      let filter ← readNode [] (.object ms)
      return ⟨filter, [], none⟩
    | some v => do
      let filter ← readNode [.key "filter"] v
      let sort ← match Json.lookup "sort" ms with
        | some s => readSort [.key "sort"] s
        | none => .ok []
      let limit ← match Json.lookup "limit" ms with
        | some l => readLimit [.key "limit"] l
        | none => .ok none
      return ⟨filter, sort, limit⟩
  | _ => fail .payloadNotObject []

def read (text : String) : Except PayloadError (Query α) :=
  match Json.read? text with
  | some v => readPayload v
  | none => fail .notJson []

end Request

end EquityScreen
