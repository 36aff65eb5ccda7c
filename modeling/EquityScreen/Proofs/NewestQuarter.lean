import EquityScreen.Proofs.RowOrder
import Mathlib.Data.List.Induction
import Mathlib.Order.Bounds.Basic

namespace EquityScreen

open Compilation

variable {α : Type} [Quantity α]

/-- A condition on a stored field as it stands now: it has neither a window nor a trend, and no
other value takes the place of a missing one. -/
structure Condition.IsCurrent (c : Condition α) : Prop where
  stored : isDerived c.fieldName = false
  noWindow : c.window = none
  noTrend : c.trend = none
  noFallback : c.policy? ≠ some .fallback

namespace Predicate

theorem anyReadsHistory_eq (ps : List Predicate) : anyReadsHistory ps = ps.any readsHistory := by
  induction ps with
  | nil => rfl
  | cons p rest ih => rw [anyReadsHistory, ih, List.any_cons]

theorem readsHistory_group {k : Connective} {ps : List Predicate} :
    (group k ps).readsHistory = false ↔ ∀ p ∈ ps, p.readsHistory = false := by
  rw [readsHistory, anyReadsHistory_eq]
  simp

theorem readsHistory_iff_leaves (p : Predicate) :
    p.readsHistory = false ↔ ∀ q ∈ p.leaves, q.readsHistory = false := by
  induction p using Predicate.induction with
  | compare | between | inside | present | missingOr | trend => simp [leaves]
  | not p ih => rw [readsHistory, leaves, ih]
  | group k ps ih =>
    rw [readsHistory_group, leaves_group, List.forall_mem_flatMap]
    exact forall₂_congr ih

theorem truth_own {p : Predicate} (hp : p.readsHistory = false) (h h' : History α)
    (bound : Nat → Cell α) (c : Candidate α) : p.truth h bound c = p.truth h' bound c := by
  have hoperand {x : Operand} (hx : x.readsHistory = false) : x.value h c = x.value h' c := by
    cases x with
    | column f => rfl
    | orAnnual | aggregate => cases hx
  induction p using Predicate.induction with
  | compare x op n | between x low high | inside x low high =>
    rw [readsHistory] at hp
    simp only [truth, compareWith, hoperand hp]
  | present f p ih | missingOr f p ih =>
    rw [readsHistory] at hp
    rw [truth, truth, ih hp]
  | trend => cases hp
  | not p ih =>
    rw [readsHistory] at hp
    rw [truth, truth, ih hp]
  | group k ps ih =>
    exact truth_group_congr k (List.forall₂_same.mpr fun p hmem =>
      ih p hmem (readsHistory_group.mp hp p hmem))

theorem exists_source_of_use {p : Predicate} (hp : p.readsHistory = false) :
    ∀ u ∈ ColumnUse.predicate p, ∃ source : Source, source.table = u.table := by
  have hoperand {x : Operand} (hx : x.readsHistory = false) :
      ∀ u ∈ ColumnUse.operand x, ∃ source : Source, source.table = u.table := by
    cases x with
    | column f =>
      rw [ColumnUse.operand, List.forall_mem_singleton]
      exact ⟨f.source, rfl⟩
    | orAnnual | aggregate => cases hx
  induction p using Predicate.induction with
  | compare x op n | between x low high | inside x low high =>
    rw [readsHistory] at hp
    rw [ColumnUse.predicate]
    exact hoperand hp
  | present f p ih | missingOr f p ih =>
    rw [readsHistory] at hp
    rw [ColumnUse.predicate, List.forall_mem_cons]
    exact ⟨⟨f.source, rfl⟩, ih hp⟩
  | trend => cases hp
  | not p ih =>
    rw [readsHistory] at hp
    rw [ColumnUse.predicate]
    exact ih hp
  | group k ps ih =>
    rw [ColumnUse.predicate, ColumnUse.predicates_eq_flatMap, List.forall_mem_flatMap]
    exact fun p hmem => ih p hmem (readsHistory_group.mp hp p hmem)

end Predicate

namespace Compilation

variable {maxLength n : Nat}

theorem readsHistory_withPolicy (f : Field) (policy : MissingPolicy) (p : Predicate) :
    (withPolicy f policy p).readsHistory = p.readsHistory := by
  cases policy <;> rfl

theorem readsHistory_operandOf (f : Field) {policy : MissingPolicy} (h : policy ≠ .fallback) :
    (operandOf f policy).readsHistory = false := by
  simp [operandOf, h, Operand.readsHistory]

omit [Quantity α] in
theorem readsHistory_spanPredicate {x : Operand} (hx : x.readsHistory = false) (n : Nat)
    (s : Span α) : (spanPredicate x n s).1.readsHistory = false := by
  obtain ⟨_ | low, _ | high, inclusive⟩ := s
  · rfl
  all_goals cases inclusive <;> exact hx

theorem Compiles.readsHistory_eq {c : Condition α} {d : CompiledCondition α} {p : Predicate}
    (h : Compiles maxLength n c d) (hc : c.IsCurrent) (hp : d.predicate = some p) :
    p.readsHistory = false := by
  have hpolicy {f : Field} {policy : MissingPolicy} (on : c.IsOn f policy) :
      (operandOf f policy).readsHistory = false :=
    readsHistory_operandOf f fun hf => hc.noFallback (hf ▸ on.policy)
  cases h with
  | comparison on =>
    cases hp
    exact (readsHistory_withPolicy ..).trans (hpolicy on)
  | range on =>
    cases hp
    exact (readsHistory_withPolicy ..).trans (readsHistory_spanPredicate (hpolicy on) n _)
  | trend _ _ _ hw | window _ _ _ hw => cases hc.noWindow.symm.trans hw
  | derivedRange | derivedComparison => cases hp

/-- Conditions as they stand now are decided by the selection, on the candidate alone. -/
theorem current_of_compileNode {conjunctive : Bool} {f : Filter α} {g : Fragment α}
    (h : compileNode maxLength n conjunctive f = .ok g) (hf : ∀ c ∈ f.conditions, c.IsCurrent) :
    g.derived = [] ∧ ∀ p ∈ g.predicate, p.readsHistory = false := by
  have haccounts := compileNode_accounts h
  constructor
  · refine List.eq_nil_iff_forall_not_mem.mpr fun d hd => ?_
    obtain ⟨c, hc, hderived, -⟩ := haccounts.exists_of_derived d hd
    rw [(hf c hc).stored] at hderived
    cases hderived
  · intro p hp
    refine p.readsHistory_iff_leaves.mpr fun q hq => ?_
    have hleaf : q ∈ g.predicate.toList.flatMap Predicate.leaves :=
      List.mem_flatMap.mpr ⟨p, Option.mem_toList.mpr hp, hq⟩
    obtain ⟨c, hc, k, d, hcompiles, hq⟩ := haccounts.exists_of_leaf q hleaf
    exact hcompiles.readsHistory_eq (hf c hc) hq

end Compilation

namespace Database

variable {names : TableNames} {db db' : Database α} {ticker : String} {company : Row α}

theorem isGreatest_greatest {column : String} {rows : List (Row α)} (hne : rows ≠ [])
    (htext : ∀ row ∈ rows, ∃ s, Row.get row column = .text s) :
    ∃ m, greatest column rows = .text m ∧
      IsGreatest {s | ∃ row ∈ rows, Row.get row column = .text s} m := by
  induction rows using List.reverseRecOn with
  | nil => exact absurd rfl hne
  | append_singleton rows row ih =>
    obtain ⟨hrows, hrow⟩ := List.forall_mem_append.mp htext
    obtain ⟨s, hs⟩ := hrow row (List.mem_singleton.mpr rfl)
    have hstep : greatest column (rows ++ [row]) =
        if (Cell.order (greatest column rows) (.text s)).isLE then .text s
          else greatest column rows := by
      simp only [greatest, List.foldl_append, List.foldl_cons, List.foldl_nil, hs]
      rfl
    have hset : {t | ∃ r ∈ rows ++ [row], Row.get r column = .text t} =
        {t | ∃ r ∈ rows, Row.get r column = .text t} ∪ {s} := by
      ext t
      simp [or_and_right, exists_or, hs, eq_comm, or_comm]
    rw [hstep, hset]
    by_cases hempty : rows = []
    · subst hempty
      exact ⟨s, rfl, by simp⟩
    · obtain ⟨m, hm, hgreatest⟩ := ih hempty hrows
      rw [hm, greater_text]
      exact ⟨max m s, rfl, hgreatest.union isGreatest_singleton⟩

/-- A row is of the newest quarter of a company. -/
structure IsNewestQuarter (names : TableNames) (db : Database α) (ticker : String) (row : Row α) :
    Prop where
  mem : row ∈ db.rows (names.physical .quarterly)
  own : Row.get row tickerColumn = .text ticker
  newest : ∀ other ∈ db.rows (names.physical .quarterly),
    Row.get other tickerColumn = .text ticker →
      (Cell.order (Row.get other (periodColumn .quarterly))
        (Row.get row (periodColumn .quarterly))).isLE = true

theorem isNewestQuarter_iff_eq {t : String} {r : Row α}
    (hr : r ∈ db.rows (names.physical .quarterly))
    (hall : ∀ other ∈ db.rows (names.physical .quarterly),
      Row.get other tickerColumn = .text t ∧
      (Cell.order (Row.get other (periodColumn .quarterly))
        (Row.get r (periodColumn .quarterly))).isLE = true ∧
      ((Cell.order (Row.get r (periodColumn .quarterly))
        (Row.get other (periodColumn .quarterly))).isLE = true → other = r)) {row : Row α} :
    db.IsNewestQuarter names ticker row ↔ ticker = t ∧ row = r := by
  constructor
  · rintro ⟨hmem, hown, hnewest⟩
    obtain ⟨hticker, -, heq⟩ := hall row hmem
    obtain rfl : ticker = t := Cell.text.inj (hown.symm.trans hticker)
    exact ⟨rfl, heq (hnewest r hr (hall r hr).1)⟩
  · rintro ⟨rfl, rfl⟩
    exact ⟨hr, (hall row hr).1, fun other hmem _ => (hall other hmem).2.1⟩

theorem IsSound.mem_joinedRows (hdb : db.IsSound) (hp : db.Provides names .quarterly)
    (hc : Row.get company tickerColumn = .text ticker) {row : Row α} :
    row ∈ db.joinedRows names .fundamentals company ↔ db.IsNewestQuarter names ticker row := by
  have hown {r : Row α} : r ∈ db.own names .quarterly ticker (fun _ => true) ↔
      r ∈ db.rows (names.physical .quarterly) ∧ Row.get r tickerColumn = .text ticker := by
    simp [mem_own]
  have htext : ∀ r ∈ db.own names .quarterly ticker (fun _ => true),
      ∃ s, Row.get r (periodColumn .quarterly) = .text s :=
    fun r hr => hdb.text_period hp (.inl rfl) hr
  have hjoined : db.joinedRows names .fundamentals company =
      (db.own names .quarterly ticker fun _ => true).filter fun r =>
        (Row.get r (periodColumn .quarterly)).equals
          (greatest (periodColumn .quarterly) (db.own names .quarterly ticker fun _ => true)) := by
    simp only [joinedRows, newestQuarters, own_eq_filter hc, Source.table]
  rw [hjoined, List.mem_filter]
  constructor
  · rintro ⟨hmem, hequals⟩
    obtain ⟨hrow, hticker⟩ := hown.mp hmem
    obtain ⟨m, hm, hgreatest⟩ := isGreatest_greatest (List.ne_nil_of_mem hmem) htext
    rw [hm, Cell.equals_text] at hequals
    refine ⟨hrow, hticker, fun other hother ht => ?_⟩
    have hmem' := hown.mpr ⟨hother, ht⟩
    obtain ⟨s, hs⟩ := htext other hmem'
    rw [hs, hequals, isLE_order_text]
    exact hgreatest.2 ⟨other, hmem', hs⟩
  · rintro ⟨hrow, hticker, hnewest⟩
    have hmem := hown.mpr ⟨hrow, hticker⟩
    obtain ⟨m, hm, ⟨other, hother, hs⟩, hupper⟩ :=
      isGreatest_greatest (List.ne_nil_of_mem hmem) htext
    obtain ⟨t, ht⟩ := htext row hmem
    have hle := hnewest other (hown.mp hother).1 (hown.mp hother).2
    rw [hs, ht, isLE_order_text] at hle
    rw [hm, Cell.equals_text, ht, hle.antisymm (hupper ⟨row, hmem, ht⟩)]
    exact ⟨hmem, rfl⟩

/-- Two sound databases with the same companies and owners and, for each ticker, the same newest
quarter. Older quarters, years and statements of cash flow may differ. -/
structure SameNewest (names : TableNames) (db db' : Database α) : Prop where
  sound : db.IsSound
  sound' : db'.IsSound
  columns : ∀ s : Source, (db.relation? (names.physical s.table)).map (·.columns) =
    (db'.relation? (names.physical s.table)).map (·.columns)
  companies : db.rows (names.physical .companies) = db'.rows (names.physical .companies)
  owners : ∀ row, row ∈ db.rows (names.physical .ownership) ↔
    row ∈ db'.rows (names.physical .ownership)
  newest : ∀ ticker row, db.IsNewestQuarter names ticker row ↔
    db'.IsNewestQuarter names ticker row

namespace SameNewest

variable (h : SameNewest names db db')

include h

theorem resolves_eq {u : ColumnUse} {source : Source} (hu : source.table = u.table) :
    db.resolves names u = db'.resolves names u := by
  have hcolumns := h.columns source
  rw [hu] at hcolumns
  unfold resolves
  generalize db.relation? (names.physical u.table) = r at hcolumns ⊢
  generalize db'.relation? (names.physical u.table) = r' at hcolumns ⊢
  cases r <;> cases r' <;> simp_all [Relation.column?]

theorem joinedRow_eq {s : Source} (hp : db.Provides names s.table)
    (hp' : db'.Provides names s.table) (hc : HasTicker company) :
    db.joinedRow names s company = db'.joinedRow names s company := by
  have hmem (row : Row α) :
      row ∈ db.joinedRows names s company ↔ row ∈ db'.joinedRows names s company := by
    obtain hnull | ⟨ticker, ht⟩ := hc
    · rw [joinedRows_of_null hnull, joinedRows_of_null hnull]
    · cases s with
      | company => simp only [joinedRows, Source.table, h.companies]
      | ownership => simp only [joinedRows, List.mem_filter, Source.table, h.owners]
      | fundamentals => rw [h.sound.mem_joinedRows hp ht, h.sound'.mem_joinedRows hp' ht, h.newest]
  rw [joinedRow, joinedRow, eq_of_length_le_one (h.sound.length_joinedRows hp hc)
    (h.sound'.length_joinedRows hp' hc) hmem]

theorem candidates_eq {s : Selection}
    (hp : ∀ source ∈ Source.company :: s.joins, db.Provides names source.table)
    (hp' : ∀ source ∈ Source.company :: s.joins, db'.Provides names source.table) :
    db.candidates names s = db'.candidates names s := by
  rw [h.sound.candidates_eq hp, h.sound'.candidates_eq hp', ← h.companies]
  refine List.map_congr_left fun company hmem => candidateOf_congr fun source hs => ?_
  exact h.joinedRow_eq (hp source (List.mem_cons_of_mem _ hs))
    (hp' source (List.mem_cons_of_mem _ hs)) (h.sound.hasTicker (hp _ List.mem_cons_self) hmem)

theorem select_eq {s : Selection} (hs : ∀ p ∈ s.condition, p.readsHistory = false)
    (hp : ∀ source ∈ Source.company :: s.joins, db.Provides names source.table)
    (hp' : ∀ source ∈ Source.company :: s.joins, db'.Provides names source.table)
    (params : List (Literal α)) : db.select names s params = db'.select names s params := by
  have hselects : db.selects names s params = db'.selects names s params := by
    funext c
    unfold selects
    cases hcondition : s.condition with
    | none => rfl
    | some p => simp only [Predicate.truth_own (hs p hcondition) (db.history names)
        (db'.history names)]
  rw [select, select, h.candidates_eq hp hp', hselects]

end SameNewest

end Database

namespace Screen

open Resolution Database

variable {s : Settings} {query : Query α} {q : CompiledQuery α} {db db' : Database α}

omit [Quantity α] in
theorem exists_source_of_selection {g : Selection}
    (hg : ∀ p ∈ g.condition, p.readsHistory = false) :
    ∀ u ∈ ColumnUse.selection g, ∃ source : Source, source.table = u.table := by
  intro u hu
  simp only [ColumnUse.selection, List.mem_append, or_assoc] at hu
  obtain hu | hu | hu | hu | hu := hu
  · obtain ⟨_, -, rfl⟩ := List.mem_map.mp hu
    exact ⟨.company, rfl⟩
  · obtain ⟨f, -, rfl⟩ := List.mem_map.mp hu
    exact ⟨f.source, rfl⟩
  · obtain ⟨source, -, hu⟩ := List.mem_flatMap.mp hu
    obtain ⟨_, -, rfl⟩ := List.mem_map.mp hu
    exact ⟨source, rfl⟩
  · cases hp : g.condition with
    | none => simp [hp] at hu
    | some p => exact Predicate.exists_source_of_use (hg p hp) u (by simpa [hp] using hu)
  · obtain ⟨k, -, rfl⟩ := List.mem_map.mp hu
    exact ⟨k.source, rfl⟩

theorem statement_eq_of_newest (h : SameNewest s.tables db db') (hq : compile s query = .ok q)
    (hcurrent : ∀ c ∈ query.filter.conditions, c.IsCurrent) :
    q.derived = [] ∧ db.store s.tables q.statement = db'.store s.tables q.statement := by
  obtain ⟨-, g, order, hg, -, -, rfl⟩ := (compile_eq_ok ..).mp hq
  obtain ⟨hderived, hpredicate⟩ := current_of_compileNode hg hcurrent
  refine ⟨hderived, ?_⟩
  refine store_congr (fun u hu => ?_) fun ⟨rows, hrows⟩ ⟨rows', hrows'⟩ => ?_
  · obtain ⟨source, hsource⟩ := exists_source_of_selection hpredicate u hu
    exact h.resolves_eq hsource
  · have hselect := h.select_eq (s := selectionOf s query g order) hpredicate
      (provides_of_statement h.sound hrows) (provides_of_statement h.sound' hrows') g.params
    rw [hrows, hrows', (store_eq_ok.mp hrows).2, (store_eq_ok.mp hrows').2]
    exact congrArg Except.ok hselect

/-- Only the newest quarter matters to conditions that look at the candidate as it stands. Take two
sound databases with the same companies and owners and, for each ticker, the same newest quarter;
older quarters, years and statements of cash flow may be whatever they are. Then a query whose
conditions have no window, no trend, no derived metric and no fallback ends on both with the same
rows or the same error, after the same statements; so do all runs by workers. -/
theorem run_eq_of_newestQuarter (s : Settings) (query : Query α)
    (hcurrent : ∀ c ∈ query.filter.conditions, c.IsCurrent) (db db' : Database α)
    (h : SameNewest s.tables db db') :
    run s (db.store s.tables) query = run s (db'.store s.tables) query ∧
    ∀ q, compile s query = .ok q → ∀ (start : Nat → Except PoolError Unit) (workers : Nat)
      (schedule : (candidates : List (Row α)) → Schedule workers candidates.length),
      runPooled start (db.store s.tables) s.historyLength q schedule =
        runPooled start (db'.store s.tables) s.historyLength q schedule := by
  constructor
  · unfold run
    cases hq : compile s query with
    | error e => rfl
    | ok q =>
      obtain ⟨hderived, hstatement⟩ := statement_eq_of_newest h hq hcurrent
      simp only [runCompiled, Traced.ask, hstatement, hderived, List.isEmpty_nil, if_true]
  · intro q hq start workers schedule
    obtain ⟨hderived, hstatement⟩ := statement_eq_of_newest h hq hcurrent
    simp only [runPooled, hstatement, hderived, List.isEmpty_nil, if_true]

def oneQuarter : Table → List (Row ℚ)
  | .companies => [[(tickerColumn, .text "A"), ("name", .text "A")]]
  | .quarterly =>
    [[(tickerColumn, .text "A"), (periodColumn .quarterly, .text "2024-03-31"), ("roe", .int 20)]]
  | .annual | .ownership | .cashFlows => []

def newestReturn : Row ℚ :=
  Relation.shape ⟨"", Schema.columns .quarterly, []⟩ ((oneQuarter .quarterly).headD [])

/-- The company with a past, in which its returns were others. -/
def longHistory : Table → List (Row ℚ)
  | .quarterly =>
    [(tickerColumn, .text "A"), (periodColumn .quarterly, .text "2023-12-31"), ("roe", .int 90)] ::
      oneQuarter .quarterly
  | .annual => [[(tickerColumn, .text "A"), (periodColumn .annual, .int 2023), ("roe", .int 70)]]
  | .cashFlows =>
    [[(tickerColumn, .text "A"), (periodColumn .cashFlows, .text "2023-12-31"),
      ("free_cash_flow", .int 22)]]
  | t => oneQuarter t

def modestReturns : Query ℚ :=
  { filter := .leaf ⟨"roe", "<=", some (.int 50), none, none, none, "fail"⟩
    sort := [⟨"roe", .descending⟩]
    limit := none }

theorem run_eq_of_newestQuarter_longHistory :
    let names := Settings.default.tables
    let db := filled names oneQuarter
    let db' := filled names longHistory
    SameNewest names db db' ∧
    (∀ t ∈ [Table.quarterly, .annual, .cashFlows],
      db.rows (names.physical t) ≠ db'.rows (names.physical t)) ∧
    run Settings.default (db.store names) modestReturns =
      run Settings.default (db'.store names) modestReturns ∧
    ∃ q rows, compile Settings.default modestReturns = .ok q ∧
      runPooled (fun _ => .ok ()) (db.store names) Settings.default.historyLength q
        (fun candidates => backwards candidates.length) = .ok rows ∧
      runPooled (fun _ => .ok ()) (db'.store names) Settings.default.historyLength q
        (fun candidates => backwards candidates.length) = .ok rows := by
  intro names db db'
  have hnames : names.AreDistinct := areDistinct_default
  have hcolumns (given : Table → List (Row ℚ)) (t : Table) :
      ((filled names given).relation? (names.physical t)).map (·.columns) =
        some (Schema.columns t) := by
    obtain ⟨r, hr, hcolumns⟩ := hasSchema_filled hnames given t
    rw [hr, Option.map_some, hcolumns]
  have hnewest (ticker : String) (row : Row ℚ) : db.IsNewestQuarter names ticker row ↔
      db'.IsNewestQuarter names ticker row := by
    rw [isNewestQuarter_iff_eq (t := "A") (r := newestReturn) (by decide +kernel)
        (by decide +kernel),
      isNewestQuarter_iff_eq (t := "A") (r := newestReturn) (by decide +kernel) (by decide +kernel)]
  have howners : db.rows (names.physical .ownership) = db'.rows (names.physical .ownership) := by
    decide +kernel
  have h : SameNewest names db db' :=
    { sound := isSound_filled (by decide +kernel)
      sound' := isSound_filled (by decide +kernel)
      columns := fun s => (hcolumns _ _).trans (hcolumns _ _).symm
      companies := by decide +kernel
      owners := fun row => by rw [howners]
      newest := hnewest }
  have hcurrent : ∀ c ∈ modestReturns.filter.conditions, c.IsCurrent :=
    List.forall_mem_singleton.mpr ⟨rfl, rfl, rfl, by decide⟩
  have hs : Settings.default.validate = .ok () := by decide
  have ha : modestReturns.IsAddressable := by
    unfold Query.IsAddressable
    decide +kernel
  obtain ⟨q, hq⟩ : ∃ q, compile Settings.default modestReturns = .ok q :=
    ⟨_, compile_eq_queryOf hs ha rfl rfl rfl⟩
  obtain ⟨rows, hrows⟩ := (hasSchema_filled hnames oneQuarter).answers_compiled hq
  have hderived : q.derived = [] := (statement_eq_of_newest h hq hcurrent).1
  have hpooled : runPooled (fun _ => .ok ()) (db.store names) Settings.default.historyLength q
      (fun candidates => backwards candidates.length) = .ok rows := by
    simp only [runPooled, db, names, hrows, hderived, List.isEmpty_nil, if_true]
  obtain ⟨hrun, hsame⟩ := run_eq_of_newestQuarter Settings.default modestReturns hcurrent db db' h
  exact ⟨h, by decide +kernel, hrun, q, rows, hq, hpooled,
    (hsame q hq (fun _ => .ok ()) 2 fun candidates => backwards candidates.length) ▸ hpooled⟩

end Screen

end EquityScreen
