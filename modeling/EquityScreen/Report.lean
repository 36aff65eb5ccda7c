import EquityScreen.Json
import EquityScreen.Screen

namespace EquityScreen.Report

variable {α : Type}

def ofLiteral : Literal α → Json α
  | .int n => .int n
  | .real x => .real x
  | .text s => .text s
  | .bool b => .bool b
  | .null => .null

def ofCell : Cell α → Json α
  | .null => .null
  | .flag b => .bool b
  | .int n => .int n
  | .real x => .real x
  | .text s => .text s

def optional (v : Option (Json α)) : Json α := v.getD .null

def member (key : String) (v : Option (Json α)) : List (String × Json α) :=
  (v.map fun v => (key, v)).toList

def ofSpan (s : Span α) : Json α :=
  .object
    [("min", optional (s.min.map .real)), ("max", optional (s.max.map .real)),
     ("inclusive", .bool s.inclusive)]

def ofWindow (w : WindowSpec) : Json α :=
  .object
    [("type", .text w.unit.word), ("length", .int w.length),
     ("aggregation", optional (w.aggregation.map fun a => .text a.word))]

def ofCondition (c : CompiledCondition α) : Json α :=
  .object
    (("field", .text c.field) ::
      member "operator" (c.operator.map fun o => .text o.sql) ++
      member "value" (c.value.map ofLiteral) ++
      member "range" (c.range.map ofSpan) ++
      member "window" (c.window.map ofWindow) ++
      member "trend" (c.trend.map fun t => .text t.word) ++
      [("on_missing", .text c.onMissing.word)])

def ofCompiled (names : TableNames) (q : CompiledQuery α) : Json α :=
  .object
    [("sql", .text (q.text names)), ("params", .array (q.params.map ofLiteral)),
     ("limit", .int q.limit), ("derived_metrics", .array (q.derived.map ofCondition))]

def ofRow (r : Row α) : Json α := .object (r.map fun (column, v) => (column, ofCell v))

def ofRows (rows : List (Row α)) : Json α := .object [("results", .array (rows.map ofRow))]

def ofError (e : ErrorBody) : Json α :=
  .object
    [("error", .object
      ([("code", .text e.code), ("message", .text e.message)] ++
        member "field" (e.field.map .text)))]

end EquityScreen.Report
