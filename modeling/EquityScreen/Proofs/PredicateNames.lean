import EquityScreen.Proofs.PredicateReading
import EquityScreen.Proofs.SchemaColumns
import EquityScreen.Proofs.SqlNames

namespace EquityScreen

open Sql

/-- The columns that the reference schema creates under a physical name. A name that an earlier
table has already is not created again. -/
def createdColumns (names : TableNames) (table : String) : List String :=
  ((Table.all.find? fun t => Database.sameName (names.physical t) table).map fun t =>
    (Schema.columns t).map (·.name)).getD []

namespace TableNames

/-- The physical names denote as many tables as there are. -/
def AreDistinct (names : TableNames) : Prop :=
  ∀ t t', Database.sameName (names.physical t) (names.physical t') = true → t = t'

variable {names : TableNames}

theorem createdColumns_physical (hd : names.AreDistinct) (t : Table) :
    createdColumns names (names.physical t) = (Schema.columns t).map (·.name) := by
  unfold createdColumns
  cases hf : Table.all.find? fun t' =>
      Database.sameName (names.physical t') (names.physical t) with
  | none =>
    have hall : t ∈ Table.all := by cases t <;> decide
    simpa [Database.sameName] using List.find?_eq_none.mp hf t hall
  | some t' =>
    obtain rfl := hd t' t (by simpa using List.find?_some hf)
    rfl

theorem IsPlain.unquoted_physical (hn : names.IsPlain) (t : Table) :
    unquoted (names.physical t) = names.physical t := by
  have hquote : Settings.isNameChar '"' = false := by decide
  have hkeep : (names.physical t).toList.filter (· ≠ '"') = (names.physical t).toList := by
    refine List.filter_eq_self.mpr fun c hc => decide_eq_true ?_
    rintro rfl
    rw [hn.nameChars t _ hc] at hquote
    cases hquote
  rw [unquoted, hkeep, String.ofList_toList]

end TableNames

/-- A column of the schema is mentioned by an alias before it. -/
theorem mention?_of_mem_columns {name column : String} {t : Table} (hname : isAlias name = true)
    (hc : column ∈ (Schema.columns t).map (·.name)) :
    mention? (name ++ "." ++ column) = some (name, column) :=
  mention?_dotted hname (isPlain_of_mem_columns t column hc)

theorem Source.isAlias_letter (s : Source) : isAlias s.letter = true := by
  cases s <;> decide

theorem isInert_toString (n : Nat) : IsInert (toString n) :=
  isInert_of_digits fun c hc =>
    .inr (Placeholder.isDigit_of_mem_toDigits (n := n) (by simpa using hc))

theorem isInert_placeholder (n : Nat) : IsInert (Predicate.placeholder n) := by
  refine isInert_of_digits fun c hc => ?_
  rw [Predicate.placeholder, String.toList_append, List.mem_append] at hc
  refine hc.imp (fun hc => ?_) fun hc =>
    Placeholder.isDigit_of_mem_toDigits (n := n) (by simpa using hc)
  simpa using hc

variable {names : TableNames} {maxLength : Nat}

namespace Trailing

def named (names : TableNames) (w : Trailing) : Level :=
  ⟨[("h", names.physical w.unit.table)],
    [("h", w.column), ("h", w.period), ("h", "ticker"), ("c", "ticker"), ("h", w.column),
      ("h", w.period)]⟩

theorem yields_tokens (hn : names.IsPlain) {w : Trailing} (hw : w ∈ Trailing.upTo maxLength)
    (created : String → List String) : Yields created (w.tokens names) (w.named names) := by
  have hpoint : "h." = "h" ++ "." := rfl
  have hcolumn : Yields created ["h." ++ w.column] ⟨[], [("h", w.column)]⟩ := by
    rw [hpoint]
    exact yields_mention (mention?_of_mem_columns (by decide)
      (mem_columns_of_periodic w.unit w.column (Trailing.mem_upTo.mp hw).1))
  have hperiod : Yields created ["h." ++ w.period] ⟨[], [("h", w.period)]⟩ := by
    rw [hpoint]
    exact yields_mention (mention?_of_mem_columns (by decide) (period_mem_columns w.unit))
  have htable : Yields created ["FROM", names.physical w.unit.table, "h"] _ :=
    yields_table (.inl rfl) (hn.isWord w.unit.table).unbracketed.1 (by decide)
  have hticker : Yields created ["h.ticker"] ⟨[], [("h", "ticker")]⟩ := yields_mention (by decide)
  have houter : Yields created ["c.ticker"] ⟨[], [("c", "ticker")]⟩ := yields_mention (by decide)
  have hlength : Yields created [toString w.length] .empty :=
    yields_inert _ (by simpa using isInert_toString w.length)
      (depth_of_unbracketed (by simpa using (isWord_toString w.length).unbracketed) 0)
  rw [hn.unquoted_physical] at htable
  have hwords (ws : List String) (hw : ∀ w ∈ ws, IsInert w) (hd : depth 0 ws = some 0) :
      Yields created ws .empty := yields_inert ws hw hd
  exact (hwords ["SELECT"] (by decide) rfl).append <| hcolumn.append <|
    (hwords ["AS", "v", ","] (by decide) rfl).append <| hperiod.append <|
    (hwords ["AS", "p"] (by decide) rfl).append <| htable.append <|
    (hwords ["WHERE"] (by decide) rfl).append <| hticker.append <|
    (hwords ["="] (by decide) rfl).append <| houter.append <|
    (hwords ["AND"] (by decide) rfl).append <| hcolumn.append <|
    (hwords ["IS", "NOT", "NULL", "ORDER", "BY"] (by decide) rfl).append <| hperiod.append <|
    (hwords ["DESC", "LIMIT"] (by decide) rfl).append hlength

theorem close?_named (hd : names.AreDistinct) {w : Trailing} (hw : w ∈ Trailing.upTo maxLength) :
    (w.named names).close? (createdColumns names) = some [("c", "ticker")] := by
  have hcreated := TableNames.createdColumns_physical hd w.unit.table
  have hcolumn := mem_columns_of_periodic w.unit w.column (Trailing.mem_upTo.mp hw).1
  have hperiod := period_mem_columns w.unit
  have hticker := ticker_mem_columns w.unit.table
  rw [← hcreated] at hcolumn hperiod hticker
  simp [Level.close?, Level.agrees, named, hcolumn, show w.period ∈ _ from hperiod,
    show "ticker" ∈ _ from hticker]

end Trailing

def IsFrom (sources : List Source) (m : String × String) : Prop :=
  ∃ s ∈ sources, m.1 = s.letter ∧ m.2 ∈ (Schema.columns s.table).map (·.name)

/-- Words that name some tables and mention columns of given sources alone. -/
def Speaks (names : TableNames) (sources : List Source) (ws : List String)
    (tables : List (String × String)) : Prop :=
  ∃ ms, Yields (createdColumns names) ws ⟨tables, ms⟩ ∧ ∀ m ∈ ms, IsFrom sources m

namespace Speaks

variable {sources : List Source} {ws us : List String} {ts ts' : List (String × String)}

theorem append (h : Speaks names sources ws ts) (h' : Speaks names sources us ts') :
    Speaks names sources (ws ++ us) (ts ++ ts') := by
  obtain ⟨ms, hy, hm⟩ := h
  obtain ⟨ms', hy', hm'⟩ := h'
  exact ⟨ms ++ ms', hy.append hy', List.forall_mem_append.mpr ⟨hm, hm'⟩⟩

theorem inert (ws : List String) (hw : ∀ w ∈ ws, IsInert w) (hd : depth 0 ws = some 0) :
    Speaks names sources ws [] :=
  ⟨[], yields_inert ws hw hd, by simp⟩

theorem mention {w name column : String} (hw : mention? w = some (name, column))
    (hf : IsFrom sources (name, column)) : Speaks names sources [w] [] :=
  ⟨[(name, column)], yields_mention hw, by simpa using hf⟩

theorem parens (h : Speaks names sources ws []) : Speaks names sources ("(" :: ws ++ [")"]) [] := by
  obtain ⟨ms, hy, hm⟩ := h
  exact ⟨ms, hy.parens (Level.close?_mentions ms), hm⟩

theorem fromParens (h : Speaks names sources ws []) :
    Speaks names sources ("FROM" :: "(" :: ws ++ [")"]) [] := by
  obtain ⟨ms, hy, hm⟩ := h
  exact ⟨ms, hy.fromParens (Level.close?_mentions ms), hm⟩

end Speaks

variable {sources : List Source} (hn : names.IsPlain) (hd : names.AreDistinct)
  (hc : Source.company ∈ sources)

include hc in
theorem isFrom_ticker : IsFrom sources ("c", "ticker") :=
  ⟨.company, hc, rfl, ticker_mem_columns .companies⟩

include hn hd hc

theorem Trailing.speaks_fromParens {w : Trailing} (hw : w ∈ Trailing.upTo maxLength) :
    Speaks names sources ("FROM" :: "(" :: w.tokens names ++ [")"]) [] :=
  ⟨_, (yields_tokens hn hw _).fromParens (close?_named hd hw), by
    simpa using isFrom_ticker hc⟩

theorem Operand.speaks_aggregate (a : Aggregation) {w : Trailing}
    (hw : w ∈ Trailing.upTo maxLength) :
    Speaks names sources ((Operand.aggregate a w).tokens names) [] := by
  have hfrom := Trailing.speaks_fromParens hn hd hc hw
  cases a with
  | avg =>
    exact ((Speaks.inert ["SELECT", "AVG", "(", "v", ")"] (by decide) rfl).append <|
      hfrom.append (.inert ["w"] (by decide) rfl)).parens
  | sum =>
    exact ((Speaks.inert ["SELECT", "SUM", "(", "v", ")"] (by decide) rfl).append <|
      hfrom.append (.inert ["w"] (by decide) rfl)).parens
  | latest =>
    exact ((Speaks.inert ["SELECT", "v"] (by decide) rfl).append <|
      hfrom.append (.inert ["w", "ORDER", "BY", "p", "DESC", "LIMIT", "1"] (by decide) rfl)).parens
  | cagr =>
    have hinner := ((Speaks.inert ["SELECT", "FIRST_VALUE", "(", "v", ")", "OVER", "(", "ORDER",
      "BY", "p", ")", "AS", "first_v", ",", "FIRST_VALUE", "(", "v", ")", "OVER", "(", "ORDER",
      "BY", "p", "DESC", ")", "AS", "last_v", ",", "COUNT", "(", "*", ")", "OVER", "(", ")", "AS",
      "n"] (by decide) rfl).append (hfrom.append (.inert ["w"] (by decide) rfl))).fromParens
    exact ((Speaks.inert ["SELECT", "CASE", "WHEN", "n", ">", "1", "AND", "first_v", ">", "0",
      "AND", "last_v", ">=", "0", "THEN", "POWER", "(", "last_v", "*", "1.0", "/", "NULLIF", "(",
      "first_v", ",", "0", ")", ",", "1.0", "/", "(", "n", "-", "1", ")", ")", "-", "1", "END"]
      (by decide) rfl).append <|
      hinner.append (.inert ["t", "LIMIT", "1"] (by decide) rfl)).parens

omit hn hd hc in
theorem Operand.speaks_column {f : Field} (hf : f ∈ catalog) (hs : f.source ∈ sources) :
    Speaks names sources [f.qualified] [] :=
  .mention (mention?_of_mem_columns f.source.isAlias_letter (column_mem_columns f hf))
    ⟨f.source, hs, rfl, column_mem_columns f hf⟩

theorem Operand.speaks_orAnnual {f : Field} (hf : f ∈ catalog) (hp : f.isPeriodic = true)
    (hs : f.source ∈ sources) : Speaks names sources ((Operand.orAnnual f).tokens names) [] := by
  have hwords (ws : List String) (hw : ∀ w ∈ ws, IsInert w) (hd : depth 0 ws = some 0) :
      Yields (createdColumns names) ws .empty := yields_inert ws hw hd
  have hpoint : "a." = "a" ++ "." := rfl
  have hcolumn : Yields (createdColumns names) ["a." ++ f.column] ⟨[], [("a", f.column)]⟩ := by
    rw [hpoint]
    exact yields_mention (mention?_of_mem_columns (by decide) (column_mem_columns f hf))
  have htable : Yields (createdColumns names) ["FROM", names.physical .annual, "a"] _ :=
    yields_table (.inl rfl) (hn.isWord .annual).unbracketed.1 (by decide)
  have hticker : Yields (createdColumns names) ["a.ticker"] ⟨[], [("a", "ticker")]⟩ :=
    yields_mention (by decide)
  have houter : Yields (createdColumns names) ["c.ticker"] ⟨[], [("c", "ticker")]⟩ :=
    yields_mention (by decide)
  have hyear : Yields (createdColumns names) ["a.fiscal_year"] ⟨[], [("a", "fiscal_year")]⟩ :=
    yields_mention (by decide)
  rw [hn.unquoted_physical] at htable
  have hinner := (hwords ["SELECT"] (by decide) rfl).append <| hcolumn.append <| htable.append <|
    (hwords ["WHERE"] (by decide) rfl).append <| hticker.append <|
    (hwords ["="] (by decide) rfl).append <| houter.append <|
    (hwords ["AND"] (by decide) rfl).append <| hcolumn.append <|
    (hwords ["IS", "NOT", "NULL", "ORDER", "BY"] (by decide) rfl).append <| hyear.append <|
    hwords ["DESC", "LIMIT", "1"] (by decide) rfl
  have hclose : Level.close? (createdColumns names) ⟨[("a", names.physical .annual)],
      [("a", f.column), ("a", "ticker"), ("c", "ticker"), ("a", f.column), ("a", "fiscal_year")]⟩ =
      some [("c", "ticker")] := by
    have hcreated := TableNames.createdColumns_physical hd .annual
    have hfield := mem_columns_of_periodic .years f.column (mem_periodicColumns hf hp)
    have hyear := period_mem_columns .years
    have hticker := ticker_mem_columns .annual
    rw [WindowUnit.table, ← hcreated] at hfield hyear
    rw [← hcreated] at hticker
    simp [Level.close?, Level.agrees, hfield, show "fiscal_year" ∈ _ from hyear,
      show "ticker" ∈ _ from hticker]
  have hquery : Speaks names sources _ [] :=
    ⟨_, hinner.parens hclose, by simpa using isFrom_ticker hc⟩
  exact (Speaks.inert ["COALESCE"] (by decide) rfl).append
    ((speaks_column hf hs).append ((Speaks.inert [","] (by decide) rfl).append hquery)).parens

theorem Trend.speaks_test {w : Trailing} (hw : w ∈ Trailing.upTo maxLength)
    (values test : List String) (hv : ∀ w ∈ values, IsInert w) (hvd : depth 0 values = some 0)
    (ht : ∀ w ∈ test, IsInert w) (htd : depth 0 test = some 0) :
    Speaks names sources (["EXISTS"] ++ ("(" :: (["SELECT", "COUNT", "(", "*", ")"] ++
      (("FROM" :: "(" :: (values ++ (("FROM" :: "(" :: w.tokens names ++ [")"]) ++ ["w"])) ++
        [")"]) ++ (["t", "HAVING", "COUNT", "(", "*", ")", ">="] ++ ([toString w.length] ++ test))))
      ++ [")"])) [] := by
  have hvalues := ((Speaks.inert values hv hvd).append
    ((Trailing.speaks_fromParens hn hd hc hw).append (.inert ["w"] (by decide) rfl))).fromParens
  have hlength : Speaks names sources [toString w.length] [] :=
    .inert _ (by simpa using isInert_toString w.length)
      (depth_of_unbracketed (by simpa using (isWord_toString w.length).unbracketed) 0)
  exact (Speaks.inert ["EXISTS"] (by decide) rfl).append
    ((Speaks.inert ["SELECT", "COUNT", "(", "*", ")"] (by decide) rfl).append <|
      hvalues.append <|
      (Speaks.inert ["t", "HAVING", "COUNT", "(", "*", ")", ">="] (by decide) rfl).append <|
      hlength.append (.inert test ht htd)).parens

theorem Trend.speaks_tokens (t : Trend) {w : Trailing} (hw : w ∈ Trailing.upTo maxLength) :
    Speaks names sources (t.tokens names w) [] := by
  have hsteps := speaks_test hn hd hc hw ["SELECT", "v", ",", "LAG", "(", "v", ")", "OVER", "(",
    "ORDER", "BY", "p", ")", "AS", "prev_v"]
  have hmean := speaks_test hn hd hc hw ["SELECT", "v", ",", "AVG", "(", "v", ")", "OVER", "(", ")",
    "AS", "avg_v"]
  cases t with
  | increasing =>
    have h := hsteps (Trend.ending .increasing).dropLast (by decide) rfl (by decide) rfl
    simpa [tokens, opening, ending] using h
  | decreasing =>
    have h := hsteps (Trend.ending .decreasing).dropLast (by decide) rfl (by decide) rfl
    simpa [tokens, opening, ending] using h
  | stable =>
    have h := hmean (Trend.ending .stable).dropLast (by decide) rfl (by decide) rfl
    simpa [tokens, opening, ending] using h

omit hn hd hc

namespace Predicate

theorem speaks_operator (op : Operator) : Speaks names sources [op.sql] [] := by
  cases op <;> exact .inert _ (by decide) rfl

theorem speaks_placeholder (n : Nat) : Speaks names sources [placeholder n] [] :=
  .inert _ (by simpa using isInert_placeholder n)
    (depth_of_unbracketed (by simpa using (isWord_placeholder n).unbracketed) 0)

theorem speaks_compare {x : Operand} (hx : Speaks names sources (x.tokens names) [])
    (op : Operator) (n : Nat) : Speaks names sources ((compare x op n).tokens names) [] :=
  hx.append ((speaks_operator op).append (speaks_placeholder n))

theorem speaks_between {x : Operand} (hx : Speaks names sources (x.tokens names) [])
    (low high : Nat) : Speaks names sources ((between x low high).tokens names) [] :=
  hx.append <| (Speaks.inert ["BETWEEN"] (by decide) rfl).append <|
    (speaks_placeholder low).append <| (Speaks.inert ["AND"] (by decide) rfl).append <|
    speaks_placeholder high

theorem speaks_more (c : Connective) {tss : List (List String)}
    (h : ∀ ts ∈ tss, Speaks names sources ts []) : Speaks names sources (more c tss) [] := by
  induction tss with
  | nil => exact .inert [] (by simp) rfl
  | cons ts tss ih =>
    obtain ⟨hts, hrest⟩ := List.forall_mem_cons.mp h
    have hc : Speaks names sources [c.upper] [] := by cases c <;> exact .inert _ (by decide) rfl
    exact (hc.append hts).append (ih hrest)

theorem speaks_joined (c : Connective) {tss : List (List String)}
    (h : ∀ ts ∈ tss, Speaks names sources ts []) : Speaks names sources (joined c tss) [] := by
  cases tss with
  | nil => exact .inert [] (by simp) rfl
  | cons ts tss =>
    obtain ⟨hts, hrest⟩ := List.forall_mem_cons.mp h
    exact hts.append (speaks_more c hrest)

theorem speaks_inside {x : Operand} (hx : Speaks names sources (x.tokens names) [])
    (low high : Nat) : Speaks names sources ((inside x low high).tokens names) [] := by
  have habove := hx.append ((speaks_operator .gt).append (speaks_placeholder low))
  have hbelow := hx.append ((speaks_operator .lt).append (speaks_placeholder high))
  exact (habove.append (speaks_more .and (List.forall_mem_singleton.mpr hbelow))).parens

theorem speaks_present {f : Field} (hf : f ∈ catalog) (hs : f.source ∈ sources) {p : Predicate}
    (hp : Speaks names sources (p.tokens names) []) :
    Speaks names sources ((present f p).tokens names) [] := by
  have htest : Speaks names sources [f.qualified, "IS", "NOT", "NULL"] [] :=
    (Operand.speaks_column hf hs).append (.inert ["IS", "NOT", "NULL"] (by decide) rfl)
  exact (htest.append (speaks_more .and (by simpa using hp))).parens

theorem speaks_missingOr {f : Field} (hf : f ∈ catalog) (hs : f.source ∈ sources) {p : Predicate}
    (hp : Speaks names sources (p.tokens names) []) :
    Speaks names sources ((missingOr f p).tokens names) [] := by
  have htest : Speaks names sources [f.qualified, "IS", "NULL"] [] :=
    (Operand.speaks_column hf hs).append (.inert ["IS", "NULL"] (by decide) rfl)
  exact (htest.append (speaks_more .or (by simpa using hp))).parens

theorem speaks_not {p : Predicate} (hp : Speaks names sources (p.tokens names) []) :
    Speaks names sources ((Predicate.not p).tokens names) [] :=
  (Speaks.inert ["NOT"] (by decide) rfl).append hp.parens

theorem speaks_group (c : Connective) {ps : List Predicate}
    (h : ∀ p ∈ ps, Speaks names sources (p.tokens names) []) :
    Speaks names sources ((group c ps).tokens names) [] := by
  rw [tokens, tokensOfAll_eq_map]
  exact (speaks_joined c (by simpa using h)).parens

theorem speaks_of_joined (c : Connective) {ps : List Predicate}
    (h : ∀ p ∈ ps, Speaks names sources (p.tokens names) []) :
    ∀ p ∈ Fragment.joined c ps, Speaks names sources (p.tokens names) [] := by
  match ps with
  | [] => simp [Fragment.joined]
  | [p] => simpa [Fragment.joined] using h
  | p :: q :: rest =>
    intro r hr
    obtain rfl := Option.mem_some_iff.mp hr
    exact speaks_group c h

end Predicate

namespace Compilation

variable {α : Type} [Quantity α]

theorem speaks_withPolicy {f : Field} (hf : f ∈ catalog) (hs : f.source ∈ sources)
    (policy : MissingPolicy) {p : Predicate} (hp : Speaks names sources (p.tokens names) []) :
    Speaks names sources ((withPolicy f policy p).tokens names) [] := by
  cases policy with
  | exclude | fallback => exact hp
  | fail => exact Predicate.speaks_present hf hs hp
  | ignore => exact Predicate.speaks_missingOr hf hs hp

omit [Quantity α] in
theorem speaks_spanPredicate {x : Operand} (hx : Speaks names sources (x.tokens names) []) (n : Nat)
    {s : Span α} (hs : (s.min.isSome || s.max.isSome) = true) :
    Speaks names sources ((spanPredicate x n s).1.tokens names) [] := by
  obtain ⟨_ | low, _ | high, inclusive⟩ := s
  · simp at hs
  · exact Predicate.speaks_compare hx _ n
  · exact Predicate.speaks_compare hx _ n
  · cases inclusive with
    | true => exact Predicate.speaks_between hx n (n + 1)
    | false => exact Predicate.speaks_inside hx n (n + 1)

include hn hd hc

theorem speaks_operandOf {f : Field} (hf : f ∈ catalog) (hs : f.source ∈ sources)
    (policy : MissingPolicy) :
    Speaks names sources ((operandOf f policy).tokens names) [] := by
  unfold operandOf
  split
  · next h =>
    have hp : f.isPeriodic = true := by simp_all
    exact Operand.speaks_orAnnual hn hd hc hf hp hs
  · exact Operand.speaks_column hf hs

omit [Quantity α] hn hd hc in
def HasSource (sources : List Source) (c : Condition α) : Prop :=
  (c.range.isSome = true → c.trend = none) ∧
    (c.isDirect = true → ∀ f, field? c.fieldName = some f → f.source ∈ sources)

theorem Compiles.speaks {n : Nat} {c : Condition α} {d : CompiledCondition α} {p : Predicate}
    (h : Compiles maxLength n c d) (hp : d.predicate = some p) (hs : HasSource sources c) :
    Speaks names sources (p.tokens names) [] := by
  obtain ⟨hrange, hsource⟩ := hs
  cases h with
  | @comparison f policy op v on hr ht hw hv =>
    cases hp
    have hf := field?_mem on.field
    have hs := hsource (by simp [Condition.isDirect, hw, ht]) f on.field
    exact speaks_withPolicy hf hs policy
      (Predicate.speaks_compare (speaks_operandOf hn hd hc hf hs policy) op n)
  | @range f policy r s on hr hw hread =>
    cases hp
    have hf := field?_mem on.field
    have ht := hrange (by simp [hr])
    have hs := hsource (by simp [Condition.isDirect, hw, ht]) f on.field
    exact speaks_withPolicy hf hs policy
      (speaks_spanPredicate (speaks_operandOf hn hd hc hf hs policy) n (span?_eq_some hread).2)
  | trend on _ _ _ _ hread hl hper =>
    cases hp
    exact Trend.speaks_tokens hn hd hc _ (Trailing.mem_upTo.mpr
      ⟨mem_periodicColumns (field?_mem on.field) hper, spec?_length_pos hread, hl⟩)
  | window on _ _ _ hread hl hper =>
    cases hp
    exact Predicate.speaks_compare (Operand.speaks_aggregate hn hd hc _ (Trailing.mem_upTo.mpr
      ⟨mem_periodicColumns (field?_mem on.field) hper, spec?_length_pos hread, hl⟩)) _ n
  | derivedRange | derivedComparison => cases hp

theorem compileNode_speaks {n : Nat} {conjunctive : Bool} {f : Filter α} {g : Fragment α}
    (h : compileNode maxLength n conjunctive f = .ok g)
    (hs : ∀ c ∈ f.conditions, HasSource sources c) :
    ∀ p ∈ g.predicate, Speaks names sources (p.tokens names) [] := by
  revert hs
  refine compileNode_induction
    (P := fun _ _ f g => (∀ c ∈ f.conditions, HasSource sources c) →
      ∀ p ∈ g.predicate, Speaks names sources (p.tokens names) [])
    ?base ?derived ?not ?group h
  case base =>
    intro n _ c d p hd' hp hs q hq
    cases hq
    exact hd'.speaks hn hd hc hp (hs c (by simp))
  case derived => simp
  case not =>
    intro n _ child inner ih hs p hp
    obtain ⟨q, hq, rfl⟩ := Option.map_eq_some_iff.mp hp
    exact Predicate.speaks_not (ih hs q hq)
  case group =>
    intro n _ c children gs hgs hs
    rw [Filter.conditions_group] at hs
    have hall : ∀ g ∈ gs, ∀ p ∈ g.predicate, Speaks names sources (p.tokens names) [] := by
      induction hgs with
      | nil => simp
      | cons hr _ ih =>
        rw [List.flatMap_cons, List.forall_mem_append] at hs
        exact List.forall_mem_cons.mpr ⟨hr hs.1, ih hs.2⟩
    have hps : ∀ p ∈ gs.filterMap (·.predicate), Speaks names sources (p.tokens names) [] := by
      intro p hp
      obtain ⟨g, hg, hp⟩ := List.mem_filterMap.mp hp
      exact hall g hg p hp
    exact Predicate.speaks_of_joined c hps

end Compilation

end EquityScreen
