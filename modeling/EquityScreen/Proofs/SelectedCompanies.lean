import EquityScreen.Proofs.AnsweredQueries
import EquityScreen.Proofs.CandidateTruth
import EquityScreen.Proofs.SelectQuery
import EquityScreen.Proofs.WellFormedTree

namespace EquityScreen

open Compilation Validation

variable {α : Type}

def CompiledQuery.unlimited (q : CompiledQuery α) : CompiledQuery α :=
  { q with selection := { q.selection with limit := none } }

def CompiledQuery.clauses (names : TableNames) (q : CompiledQuery α) : SelectQuery :=
  q.unlimited.selection.query names

variable [Quantity α]

/-- A column that tells a table from all others. -/
def Table.mark : Table → String
  | .companies => "name"
  | .quarterly => periodColumn .quarterly
  | .annual => periodColumn .annual
  | .ownership => "promoter_holding"
  | .cashFlows => periodColumn .cashFlows

/-- No periodic fact is named like a mark. -/
theorem Table.sameName_mark : ∀ column ∈ periodicColumns, ∀ t ∈ all,
    Database.sameName column t.mark = false := by
  decide +kernel

theorem Table.eq_of_mark (t t' : Table)
    (h : ((Schema.columns t').find? fun c => Database.sameName c.name t.mark).isSome = true) :
    t' = t := by
  have hfacts (period : Column)
      (h : ((Schema.facts period).find? fun c => Database.sameName c.name t.mark).isSome = true) :
      Database.sameName tickerColumn t.mark = true ∨
        Database.sameName period.name t.mark = true := by
    obtain ⟨c, hc, hsame⟩ := List.find?_isSome.mp h
    obtain hname | hname | hname := Schema.mem_facts.mp (List.mem_map_of_mem hc)
    · exact .inl (hname ▸ hsame)
    · exact .inr (hname ▸ hsame)
    · rw [sameName_mark c.name hname t (by cases t <;> decide)] at hsame
      cases hsame
  cases t' with
  | companies | ownership | cashFlows =>
    revert h
    cases t <;> decide +kernel
  | quarterly | annual =>
    have hown := hfacts _ h
    revert hown
    cases t <;> decide +kernel

theorem column_of_ownership : ∀ f ∈ catalog, f.source = .ownership →
    f.column = Table.ownership.mark ∧ f.name ∉ baseColumns := by
  decide

namespace Compilation

omit [Quantity α] in
theorem exists_of_mem_joinsOf {fields : List Field} {s : Source} (h : s ∈ joinsOf fields) :
    ∃ f ∈ fields, f.source = s := by
  obtain ⟨f, hf, hs⟩ := List.any_eq_true.mp (List.mem_filter.mp h).2
  exact ⟨f, hf, of_decide_eq_true hs⟩

omit [Quantity α] in
theorem mark_mem_selection (s : Settings) (q : Query α) (g : Fragment α) (order : List OrderKey) :
    ∀ source ∈ Source.company :: joinsOf (referenced q),
      ⟨source.table, source.table.mark⟩ ∈ ColumnUse.selection (selectionOf s q g order) := by
  intro source hsource
  simp only [ColumnUse.selection, List.mem_append, or_assoc]
  cases source with
  | company => exact .inl (by decide)
  | fundamentals =>
    have hjoined : Source.fundamentals ∈ joinsOf (referenced q) :=
      (List.mem_cons.mp hsource).resolve_left (by decide)
    exact .inr (.inr (.inl (List.mem_flatMap.mpr ⟨_, hjoined, by decide⟩)))
  | ownership =>
    have hjoined : Source.ownership ∈ joinsOf (referenced q) :=
      (List.mem_cons.mp hsource).resolve_left (by decide)
    obtain ⟨f, hf, hs⟩ := exists_of_mem_joinsOf hjoined
    obtain ⟨hcolumn, hname⟩ := column_of_ownership f (field_mem_of_referenced hf) hs
    have hshown : f ∈ (selectionOf s q g order).shown :=
      List.mem_filter.mpr ⟨hf, by simpa using hname⟩
    refine .inr (.inl (List.mem_map.mpr ⟨f, hshown, ?_⟩))
    rw [ColumnUse.field, hs, hcolumn, Source.table]

end Compilation

namespace Database

variable {names : TableNames} {db : Database α} {s : Settings} {query : Query α} {g : Fragment α}
  {order : List OrderKey} {rows : List (Row α)}

theorem IsSound.provides (hdb : db.IsSound)
    (h : db.store names (queryOf s query g order).unlimited.statement = .ok rows) :
    ∀ source ∈ Source.company :: joinsOf (referenced query), db.Provides names source.table :=
  fun source hs => hdb.provides_of_resolves source.table.eq_of_mark
    ((store_eq_ok.mp h).1 _ (mark_mem_selection s query g order source hs))

theorem selects_iff (hf : IsWellFormed s.maxWindowLength true query.filter)
    (hg : compileNode s.maxWindowLength 1 true query.filter = .ok g) (c : Candidate α) :
    db.selects names (queryOf s query g order).unlimited.selection g.params c = true ↔
      query.filter.truth? (db.history names) c = some .yes := by
  rw [(hf.means hg).truth (db.history names) c _ (binds_bound g.params), Option.some_inj,
    Fragment.truth]
  have hcondition : (queryOf s query g order).unlimited.selection.condition = g.predicate := rfl
  rw [selects, hcondition]
  cases g.predicate with
  | none => simp
  | some p => simp

/-- The companies that satisfy a filter, as far as the selection decides it. -/
def satisfying (names : TableNames) (db : Database α) (f : Filter α) : List (Row α) :=
  (db.rows (names.physical .companies)).filter fun company =>
    f.truth? (db.history names) (db.fullCandidate names company) = some .yes

theorem mem_satisfying {f : Filter α} {company : Row α} : company ∈ db.satisfying names f ↔
    company ∈ db.rows (names.physical .companies) ∧
      f.truth? (db.history names) (db.fullCandidate names company) = some .yes := by
  rw [satisfying, List.mem_filter, decide_eq_true_iff]

/-- A well-formed filter says the same of a company whether all is joined for it or what the query
reads. -/
theorem truth?_candidateOf (hf : IsWellFormed s.maxWindowLength true query.filter)
    (company : Row α) :
    query.filter.truth? (db.history names)
        (db.candidateOf names (joinsOf (referenced query)) company) =
      query.filter.truth? (db.history names) (db.fullCandidate names company) := by
  refine Filter.truth?_congr fun d hd => ?_
  cases hderived : isDerived d.fieldName with
  | true => simp [Condition.truth?, hderived]
  | false =>
    obtain ⟨e, he⟩ := (hf.accepted d hd).compiles_base hderived 1
    exact he.truth?_congr (hasSource_of_accepted hf.accepted d hd) rfl
      fun source hsource => candidateOf_row hsource company

theorem shownRow_candidateOf (company : Row α) :
    shownRow (queryOf s query g order).selection
        (db.candidateOf names (joinsOf (referenced query)) company) =
      shownRow (queryOf s query g order).selection (db.fullCandidate names company) := by
  have hshown : ∀ f ∈ (queryOf s query g order).selection.shown,
      (db.candidateOf names (joinsOf (referenced query)) company).get f.source f.column =
        (db.fullCandidate names company).get f.source f.column := by
    intro f hf
    have hsource := source_mem_joinsOf (List.mem_filter.mp hf).1
    rw [Candidate.get, Candidate.get, candidateOf_row hsource]
  unfold shownRow
  refine congrArg₂ _ rfl (List.map_congr_left fun f hf => ?_)
  rw [hshown f hf]

theorem rows_perm_satisfying (hdb : db.IsSound)
    (hf : IsWellFormed s.maxWindowLength true query.filter)
    (hg : compileNode s.maxWindowLength 1 true query.filter = .ok g)
    (h : db.store names (queryOf s query g order).unlimited.statement = .ok rows) :
    rows.Perm ((db.satisfying names query.filter).map fun company =>
      shownRow (queryOf s query g order).selection (db.fullCandidate names company)) := by
  let selection := (queryOf s query g order).unlimited.selection
  let candidate := db.candidateOf names (joinsOf (referenced query))
  have hcandidates : db.candidates names selection =
      (db.rows (names.physical .companies)).map candidate :=
    hdb.candidates_eq (hdb.provides h)
  have hselects : (db.rows (names.physical .companies)).filter
      (db.selects names selection g.params ∘ candidate) = db.satisfying names query.filter := by
    refine List.filter_congr fun company _ => ?_
    rw [Function.comp_apply, Bool.eq_iff_iff, selects_iff hf hg, truth?_candidateOf hf,
      decide_eq_true_iff]
  obtain ⟨-, rfl⟩ := store_eq_ok.mp h
  refine (select_perm rfl g.params).trans ?_
  rw [hcandidates, List.filter_map, List.map_map, hselects]
  exact .of_eq (List.map_congr_left fun company _ => shownRow_candidateOf company)

/-- The store answers a query without its limit with what the clauses of its text yield. -/
theorem rows_clauses (hs : s.validate = .ok ())
    (hg : compileNode s.maxWindowLength 1 true query.filter = .ok g)
    (h : db.store s.tables (queryOf s query g order).unlimited.statement = .ok rows) :
    ((queryOf s query g order).clauses s.tables).rows s.tables s.maxWindowLength db g.params =
      rows := by
  obtain ⟨-, rfl⟩ := store_eq_ok.mp h
  exact rows_query (Settings.isPlain_of_validate hs) rfl (compileNode_isProper hg) g.params

/-- Joins neither repeat companies nor lose them. The text of an accepted query, its limit aside, is
that of its clauses, and the store answers it with what they yield, under settings with plain names
of tables. On a sound database with the reference schema this is exactly one row for each company
that satisfies the filter and no other row. Another query of the same filter, whatever it sorts by,
selects the same companies as often, and its rows differ in their order and in the columns beside
the base columns alone. -/
theorem rows_of_joins (s : Settings) (db : Database α) (hdb : db.IsSound)
    (hs : db.HasSchema s.tables) (query : Query α) (q : CompiledQuery α)
    (hq : compile s query = .ok q) :
    (q.clauses s.tables).text s.tables = q.unlimited.text s.tables ∧
      ∃ rows, db.store s.tables q.unlimited.statement = .ok rows ∧
        (s.validate = .ok () →
          (q.clauses s.tables).rows s.tables s.maxWindowLength db q.params = rows) ∧
        rows.Perm ((db.satisfying s.tables query.filter).map fun company =>
          shownRow q.selection (db.fullCandidate s.tables company)) ∧
        ∀ query' q', compile s query' = .ok q' → query'.filter = query.filter →
          ∃ rows', db.store s.tables q'.unlimited.statement = .ok rows' ∧
            (s.validate = .ok () →
              (q'.clauses s.tables).rows s.tables s.maxWindowLength db q'.params = rows') ∧
            (rows'.map (Row.project · baseColumns)).Perm
              (rows.map (Row.project · baseColumns)) := by
  have hanswered (query : Query α) (q : CompiledQuery α) (hq : compile s query = .ok q) :
      ∃ rows, db.store s.tables q.unlimited.statement = .ok rows ∧
        (s.validate = .ok () →
          (q.clauses s.tables).rows s.tables s.maxWindowLength db q.params = rows) ∧
        rows.Perm ((db.satisfying s.tables query.filter).map fun company =>
          shownRow q.selection (db.fullCandidate s.tables company)) := by
    obtain ⟨hv, g, order, hg, ho, -, rfl⟩ := (compile_eq_ok ..).mp hq
    obtain ⟨⟨⟩, hvalid, -⟩ := bind_eq_ok.mp hv
    obtain ⟨rows, hrows⟩ :
        ∃ rows, db.store s.tables (queryOf s query g order).unlimited.statement = .ok rows :=
      hs.answers (ColumnUse.selection_isCreated hg ho)
    exact ⟨rows, hrows, fun hs => rows_clauses hs hg hrows,
      rows_perm_satisfying hdb (.of_validate hvalid) hg hrows⟩
  have hbase {query : Query α} {q : CompiledQuery α} {rows : List (Row α)}
      (hperm : rows.Perm ((db.satisfying s.tables query.filter).map fun company =>
        shownRow q.selection (db.fullCandidate s.tables company))) :
      (rows.map (Row.project · baseColumns)).Perm
        ((db.satisfying s.tables query.filter).map (Row.project · baseColumns)) := by
    have hmap := hperm.map (Row.project · baseColumns)
    rw [List.map_map] at hmap
    exact hmap
  obtain ⟨rows, hrows, hclauses, hperm⟩ := hanswered query q hq
  refine ⟨Selection.text_query .., rows, hrows, hclauses, hperm, fun query' q' hq' hfilter => ?_⟩
  obtain ⟨rows', hrows', hclauses', hperm'⟩ := hanswered query' q' hq'
  refine ⟨rows', hrows', hclauses', (hbase hperm').trans ?_⟩
  rw [hfilter]
  exact (hbase hperm).symm

/-- A company with two quarters and an owner, one without any facts, and one without a ticker. -/
def unevenCompanies : Database ℚ :=
  filled [] fun
    | .companies =>
      [[(tickerColumn, .text "A"), ("name", .text "A"), ("sector", .text "Retail")],
       [(tickerColumn, .text "B"), ("name", .text "B"), ("sector", .text "Retail")],
       [("name", .text "C"), ("sector", .text "Energy")]]
    | .quarterly =>
      [[(tickerColumn, .text "A"), ("fiscal_period", .text "2024-03-31"), ("roe", .int 20)],
       [(tickerColumn, .text "A"), ("fiscal_period", .text "2023-12-31"), ("roe", .int 10)]]
    | .ownership => [[(tickerColumn, .text "A"), ("promoter_holding", .int 60)]]
    | _ => []

def energyOrReturns (sort : List SortKey) : Query ℚ :=
  { filter := .group .or
      [.leaf ⟨"sector", "=", some (.text "Energy"), none, none, none, none⟩,
       .leaf ⟨"roe", ">", some (.int 15), none, none, none, none⟩]
    sort := sort
    limit := some 1 }

theorem rows_of_joins_unevenCompanies :
    ∃ q rows, compile Settings.default (energyOrReturns [⟨"promoter_holding", .descending⟩]) =
        .ok q ∧
      (q.clauses []).text [] = q.unlimited.text [] ∧
      unevenCompanies.store [] q.unlimited.statement = .ok rows ∧
      (q.clauses []).rows [] Settings.default.maxWindowLength unevenCompanies q.params = rows ∧
      (rows.map fun row => Row.get row tickerColumn).Perm [.text "A", .null] := by
  have hs : Settings.default.validate = .ok () := by decide
  have ha : (energyOrReturns [⟨"promoter_holding", .descending⟩]).IsAddressable := by
    have htwo : ((energyOrReturns [⟨"promoter_holding", .descending⟩]).filter.conditions.flatMap
        Condition.bindings).length = 2 := rfl
    unfold Query.IsAddressable
    rw [htwo]
    decide
  have hq : compile Settings.default (energyOrReturns [⟨"promoter_holding", .descending⟩]) =
      .ok _ := compile_eq_queryOf hs ha rfl rfl rfl
  have hsound : unevenCompanies.IsSound := isSound_filled (by decide +kernel)
  obtain ⟨htext, rows, hrows, hclauses, hperm, -⟩ := rows_of_joins Settings.default
    unevenCompanies hsound (hasSchema_filled areDistinct_default _) _ _ hq
  refine ⟨_, rows, hq, htext, hrows, hclauses hs,
    (hperm.map fun row => Row.get row tickerColumn).trans (.of_eq ?_)⟩
  decide +kernel

end Database

end EquityScreen
