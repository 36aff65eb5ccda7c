import EquityScreen.Proofs.CompanyLocality
import EquityScreen.Proofs.ResolvableConditions
import Mathlib.Data.List.Find

namespace EquityScreen

open Compilation

variable {α : Type} [Quantity α]

structure Relation.Reorders (r r' : Relation α) : Prop where
  columns : r.columns = r'.columns
  rows : r.rows.Perm r'.rows

namespace Resolution

variable {store store' : Store α} {ticker : String}

def AnswerAlike (ticker : String) (store store' : Store α) : Prop :=
  ∀ st : Statement α, st.IsAbout ticker → store st = store' st

omit [Quantity α] in
theorem AnswerAlike.fetch_eq (h : AnswerAlike ticker store store') (m : MetricName)
    (unit : WindowUnit) (length : Nat) :
    fetch store ticker m unit length = fetch store' ticker m unit length := by
  have hfacts := h (.facts unit (columnsOf m) ticker length) rfl
  have hflows := h (.cashFlows ticker length) rfl
  simp only [fetch, Traced.ask, hfacts, hflows]

theorem AnswerAlike.compute_eq (h : AnswerAlike ticker store store') (historyLength : Nat)
    (c : CompiledCondition α) :
    compute store historyLength ticker c = compute store' historyLength ticker c := by
  simp only [compute, h.fetch_eq]

theorem AnswerAlike.passesAll_eq (h : AnswerAlike ticker store store') (historyLength : Nat)
    (cs : List (CompiledCondition α)) :
    passesAll store historyLength ticker cs = passesAll store' historyLength ticker cs := by
  induction cs with
  | nil => rfl
  | cons c rest ih => simp only [passesAll, h.compute_eq, ih]

variable (h : ∀ ticker, AnswerAlike ticker store store')

include h

theorem passes_eq (historyLength : Nat) (cs : List (CompiledCondition α)) (r : Row α) :
    passes store historyLength cs r = passes store' historyLength cs r := by
  unfold passes
  split
  · exact (h _).passesAll_eq historyLength cs
  · rfl

theorem resolve_eq (historyLength : Nat) (cs : List (CompiledCondition α))
    (candidates : List (Row α)) :
    resolve store historyLength cs candidates = resolve store' historyLength cs candidates := by
  have hkeep : keepPassing store historyLength cs candidates =
      keepPassing store' historyLength cs candidates := by
    induction candidates with
    | nil => rfl
    | cons r rest ih => simp only [keepPassing, passes_eq h, ih]
  rw [resolve, resolve, hkeep]

theorem resolveBy_congr (historyLength : Nat) (cs : List (CompiledCondition α))
    {candidates : List (Row α)} {workers : Nat} (schedule : Schedule workers candidates.length) :
    resolveBy store historyLength cs candidates schedule =
      resolveBy store' historyLength cs candidates schedule := by
  have hexamine : examine store historyLength cs candidates =
      examine store' historyLength cs candidates := by
    funext e place
    simp only [examine, passes_eq h]
  rw [resolveBy, resolveBy, hexamine]

end Resolution

namespace Database

variable {names : TableNames} {db db' : Database α}

/-- Databases that lack the same of what a statement names answer it alike if they do so once they
answer at all. -/
theorem store_congr {st : Statement α}
    (hu : ∀ u ∈ ColumnUse.statement st, db.resolves names u = db'.resolves names u)
    (hst : (∃ rows, db.store names st = .ok rows) → (∃ rows, db'.store names st = .ok rows) →
      db.store names st = db'.store names st) : db.store names st = db'.store names st := by
  have hmissing : (ColumnUse.statement st).find? (fun u => !db.resolves names u) =
      (ColumnUse.statement st).find? fun u => !db'.resolves names u :=
    List.find?_congr fun u hmem => congrArg _ (hu u hmem)
  cases hfind : (ColumnUse.statement st).find? fun u => !db.resolves names u with
  | some u =>
    unfold store
    rw [← hmissing, hfind]
  | none =>
    refine hst ⟨db.answer names st, ?_⟩ ⟨db'.answer names st, ?_⟩
    · unfold store
      rw [hfind]
    · unfold store
      rw [← hmissing, hfind]

/-- Databases that hold the same in every table, in whatever order its rows were inserted. -/
def Reorders (names : TableNames) (db db' : Database α) : Prop :=
  ∀ t, Option.Rel Relation.Reorders (db.relation? (names.physical t))
    (db'.relation? (names.physical t))

namespace Reorders

omit [Quantity α] in
theorem rows_perm (h : Reorders names db db') (t : Table) :
    (db.rows (names.physical t)).Perm (db'.rows (names.physical t)) := by
  have hrel := h t
  unfold rows
  generalize db.relation? (names.physical t) = r at hrel ⊢
  generalize db'.relation? (names.physical t) = r' at hrel ⊢
  cases hrel with
  | none => exact .refl _
  | some hr => exact hr.rows

omit [Quantity α] in
theorem resolves_eq (h : Reorders names db db') (u : ColumnUse) :
    db.resolves names u = db'.resolves names u := by
  have hrel := h u.table
  unfold resolves
  generalize db.relation? (names.physical u.table) = r at hrel ⊢
  generalize db'.relation? (names.physical u.table) = r' at hrel ⊢
  cases hrel with
  | none => rfl
  | some hr => simp only [Relation.column?, hr.columns]

theorem store_eq (h : Reorders names db db') {st : Statement α}
    (hst : (∃ rows, db.store names st = .ok rows) → (∃ rows, db'.store names st = .ok rows) →
      db.store names st = db'.store names st) : db.store names st = db'.store names st :=
  store_congr (fun u _ => h.resolves_eq u) hst

theorem agreeOn (h : Reorders names db db') (hdb : db.IsSound) (hdb' : db'.IsSound)
    (hyears : ∀ row ∈ db.rows (names.physical .annual),
      (Row.get row (periodColumn .annual)).IsDefinite) (ticker : String) :
    AgreeOn names ticker db db' where
  sound := hdb
  sound' := hdb'
  rows t _ _ := (h.rows_perm t).mem_iff
  years row hrow _ := hyears row hrow

end Reorders

theorem reorders_filled (hd : names.AreDistinct) {given given' : Table → List (Row α)}
    (h : ∀ t, (given t).Perm (given' t)) :
    Reorders names (filled names given) (filled names given') := by
  intro t
  have hfound (given : Table → List (Row α)) : (filled names given).relation? (names.physical t) =
      some ⟨names.physical t, Schema.columns t,
        (given t).map (Relation.shape ⟨names.physical t, Schema.columns t, []⟩)⟩ :=
    relation?_physical hd
      (fun t => (given t).map (Relation.shape ⟨names.physical t, Schema.columns t, []⟩)) t
  rw [hfound, hfound]
  exact .some ⟨rfl, (h t).map _⟩

def byTicker : List OrderKey := [⟨.company, tickerColumn, .ascending⟩]

def tickerText (c : Candidate α) : String := c.ticker.text?.getD ""

theorem precedes_byTicker {a b : Candidate α} {s t : String} (ha : a.ticker = .text s)
    (hb : b.ticker = .text t) :
    precedes byTicker a b = decide (tickerText a ≤ tickerText b) := by
  have hleft : a.get .company tickerColumn = .text s := ha
  have hright : b.get .company tickerColumn = .text t := hb
  have hle : precedes byTicker a b = (compare s t).isLE := by
    simp only [precedes, byTicker, hleft, hright, Cell.order]
    cases compare s t <;> rfl
  rw [hle, isLE_compare, tickerText, tickerText, ha, hb]
  rfl

omit [Quantity α] in
theorem mem_of_mem_takeLimit {β : Type} {limit : Option Nat} {xs : List β} {x : β}
    (h : x ∈ takeLimit limit xs) : x ∈ xs := by
  unfold takeLimit at h
  split at h
  · exact List.mem_of_mem_take h
  · exact h

section Candidates

variable {s : Selection} {c : Candidate α}
  (htickers : ∀ company ∈ db.rows (names.physical .companies),
    Row.get company tickerColumn ≠ .null)

theorem IsSound.exists_of_mem_candidates (hdb : db.IsSound)
    (hp : ∀ source ∈ Source.company :: s.joins, db.Provides names source.table)
    (hc : c ∈ db.candidates names s) : ∃ company ∈ db.rows (names.physical .companies),
      db.candidateOf names s.joins company = c := by
  rw [hdb.candidates_eq hp] at hc
  exact List.mem_map.mp hc

include htickers in
theorem IsSound.ticker_of_mem_candidates (hdb : db.IsSound)
    (hp : ∀ source ∈ Source.company :: s.joins, db.Provides names source.table)
    (hc : c ∈ db.candidates names s) : ∃ ticker, c.ticker = .text ticker := by
  obtain ⟨company, hmem, rfl⟩ := hdb.exists_of_mem_candidates hp hc
  exact (hdb.hasTicker (hp _ List.mem_cons_self) hmem).resolve_left (htickers company hmem)

theorem IsSound.candidate_unique (hdb : db.IsSound)
    (hp : ∀ source ∈ Source.company :: s.joins, db.Provides names source.table)
    {a b : Candidate α} (ha : a ∈ db.candidates names s) (hb : b ∈ db.candidates names s)
    {ticker : String} (hta : a.ticker = .text ticker) (htb : b.ticker = .text ticker) : a = b := by
  obtain ⟨company, hmem, rfl⟩ := hdb.exists_of_mem_candidates hp ha
  obtain ⟨company', hmem', rfl⟩ := hdb.exists_of_mem_candidates hp hb
  rw [hdb.company_unique (hp _ List.mem_cons_self) hmem hmem' hta htb]

include htickers in
theorem Reorders.candidates_perm (h : Reorders names db db')
    (hagree : ∀ ticker, AgreeOn names ticker db db')
    (hp : ∀ source ∈ Source.company :: s.joins, db.Provides names source.table)
    (hp' : ∀ source ∈ Source.company :: s.joins, db'.Provides names source.table) :
    (db.candidates names s).Perm (db'.candidates names s) := by
  have hsound := (hagree "").sound
  have hsame : ∀ company ∈ db'.rows (names.physical .companies),
      db'.candidateOf names s.joins company = db.candidateOf names s.joins company := by
    intro company hc
    have hmem := (h.rows_perm .companies).mem_iff.mpr hc
    obtain ⟨ticker, ht⟩ :=
      (hsound.hasTicker (hp _ List.mem_cons_self) hmem).resolve_left (htickers company hmem)
    exact ((hagree ticker).candidateOf_eq (fun source hs => ⟨hp source (List.mem_cons_of_mem _ hs),
      hp' source (List.mem_cons_of_mem _ hs)⟩) ht).symm
  rw [hsound.candidates_eq hp, (hagree "").sound'.candidates_eq hp', List.map_congr_left hsame]
  exact (h.rows_perm .companies).map _

include htickers in
/-- Companies that are selected come out in one order, since a ticker names one company. -/
theorem Reorders.select_eq [Quantity.IsExact α] (h : Reorders names db db')
    (hagree : ∀ ticker, AgreeOn names ticker db db') (hs : s.order = byTicker)
    (hp : ∀ source ∈ Source.company :: s.joins, db.Provides names source.table)
    (hp' : ∀ source ∈ Source.company :: s.joins, db'.Provides names source.table)
    {params : List (Literal α)} {rows rows' : List (Row α)}
    (hrows : db.store names (.candidates s params) = .ok rows)
    (hrows' : db'.store names (.candidates s params) = .ok rows') :
    db.select names s params = db'.select names s params := by
  have hsound := (hagree "").sound
  have hcandidates := h.candidates_perm htickers hagree hp hp'
  have hselects : ∀ c ∈ db'.candidates names s,
      db'.selects names s params c = db.selects names s params c := by
    intro c hc
    obtain ⟨ticker, ht⟩ :=
      hsound.ticker_of_mem_candidates htickers hp (hcandidates.mem_iff.mpr hc)
    exact ((hagree ticker).selects_eq hrows hrows' ht).symm
  have hperm : ((db.candidates names s).filter (db.selects names s params)).Perm
      ((db'.candidates names s).filter (db'.selects names s params)) := by
    rw [List.filter_congr hselects]
    exact hcandidates.filter _
  have hticker {c : Candidate α}
      (hc : c ∈ (db.candidates names s).filter (db.selects names s params)) :
      ∃ ticker, c.ticker = .text ticker :=
    hsound.ticker_of_mem_candidates htickers hp (List.mem_of_mem_filter hc)
  have hcompares : KeySort.Compares tickerText (precedes byTicker)
      ((db.candidates names s).filter (db.selects names s params)) := by
    intro a ha b hb
    obtain ⟨_, hta⟩ := hticker ha
    obtain ⟨_, htb⟩ := hticker hb
    exact precedes_byTicker hta htb
  rw [select, select, hs, KeySort.mergeSort_eq_of_perm hperm hcompares fun a ha b hb hkey => ?_]
  obtain ⟨t, hta⟩ := hticker ha
  obtain ⟨u, htb⟩ := hticker hb
  rw [tickerText, tickerText, hta, htb] at hkey
  obtain rfl : t = u := hkey
  exact hsound.candidate_unique hp (List.mem_of_mem_filter ha) (List.mem_of_mem_filter hb) hta htb

end Candidates

end Database

namespace Screen

open Resolution Database

variable {store store' : Store α} {historyLength : Nat} {q : CompiledQuery α}

theorem runCompiled_congr (hq : store q.statement = store' q.statement)
    (h : ∀ ticker, AnswerAlike ticker store store') :
    runCompiled store historyLength q = runCompiled store' historyLength q := by
  simp only [runCompiled, Traced.ask, hq, resolve_eq h]

theorem runCompiledBy_congr (hq : store q.statement = store' q.statement)
    (h : ∀ ticker, AnswerAlike ticker store store') {workers : Nat}
    (schedule : (candidates : List (Row α)) → Schedule workers candidates.length) :
    runCompiledBy store historyLength q schedule =
      runCompiledBy store' historyLength q schedule := by
  simp only [runCompiledBy, hq, resolveBy_congr h]

variable {s : Settings} {query : Query α} {db db' : Database α}

theorem provides_of_statement (hdb : db.IsSound) {g : Fragment α} {order : List OrderKey}
    {rows : List (Row α)} (h : db.store s.tables (queryOf s query g order).statement = .ok rows) :
    ∀ source ∈ Source.company :: joinsOf (referenced query),
      db.Provides s.tables source.table :=
  fun source hs => hdb.provides_of_mem h (mark_mem_selection s query g order source hs)

theorem statement_eq_of_reorders [Quantity.IsExact α] (hq : compile s query = .ok q)
    (hsort : query.sort = []) (h : Reorders s.tables db db')
    (hagree : ∀ ticker, AgreeOn s.tables ticker db db')
    (htickers : ∀ company ∈ db.rows (s.tables.physical .companies),
      Row.get company tickerColumn ≠ .null) :
    db.store s.tables q.statement = db'.store s.tables q.statement := by
  obtain ⟨-, g, order, -, ho, -, rfl⟩ := (compile_eq_ok ..).mp hq
  rw [hsort] at ho
  cases ho
  refine h.store_eq fun ⟨rows, hrows⟩ ⟨rows', hrows'⟩ => ?_
  have hselect := h.select_eq htickers hagree rfl
    (provides_of_statement (hagree "").sound hrows)
    (provides_of_statement (hagree "").sound' hrows') hrows hrows'
  rw [hrows, hrows', (store_eq_ok.mp hrows).2, (store_eq_ok.mp hrows').2]
  exact congrArg Except.ok hselect

theorem answerAlike_of_reorders [Quantity.IsExact α] (h : Reorders s.tables db db')
    (hagree : ∀ ticker, AgreeOn s.tables ticker db db') (ticker : String) :
    AnswerAlike ticker (db.store s.tables) (db'.store s.tables) :=
  fun st hst => h.store_eq ((hagree ticker).sameAnswers st hst)

theorem ticker_of_mem_statement (hdb : db.IsSound) (hq : compile s query = .ok q)
    (htickers : ∀ company ∈ db.rows (s.tables.physical .companies),
      Row.get company tickerColumn ≠ .null) {rows : List (Row α)}
    (hrows : db.store s.tables q.statement = .ok rows) :
    ∀ r ∈ rows, ∃ ticker, Row.get r tickerColumn = .text ticker := by
  obtain ⟨-, g, order, -, -, -, rfl⟩ := (compile_eq_ok ..).mp hq
  have hp := provides_of_statement hdb hrows
  obtain ⟨-, rfl⟩ := store_eq_ok.mp hrows
  intro r hr
  obtain ⟨c, hc, rfl⟩ := List.mem_map.mp hr
  have hsorted := mem_of_mem_takeLimit hc
  exact hdb.ticker_of_mem_candidates htickers hp
    (List.mem_of_mem_filter (List.mem_mergeSort.mp hsorted))

theorem isJudged_of_hasSchema (hs : db.HasSchema s.tables) {r : Row α}
    (hr : ∃ ticker, Row.get r tickerColumn = .text ticker) (historyLength : Nat) :
    IsJudged (db.store s.tables) historyLength q.derived r where
  named := hr
  answered st hst := by
    obtain ⟨ticker, ht⟩ := hr
    rw [passes, ht] at hst
    obtain ⟨t, hof⟩ := passesAll_asksOnly ticker q.derived st hst
    exact hs.answers (ColumnUse.statement_isCreated hof)

theorem exists_rows (hdb : db.IsSound) (hs : db.HasSchema s.tables) (hq : compile s query = .ok q)
    (htickers : ∀ company ∈ db.rows (s.tables.physical .companies),
      Row.get company tickerColumn ≠ .null) (historyLength : Nat) :
    ∃ rows, ∀ (workers : Nat)
      (schedule : (candidates : List (Row α)) → Schedule workers candidates.length),
      runCompiledBy (db.store s.tables) historyLength q schedule = .ok rows := by
  obtain ⟨candidates, hc⟩ := hs.answers_compiled hq
  by_cases hd : q.derived = []
  · exact ⟨candidates, fun workers schedule => by simp [runCompiledBy, hc, hd]⟩
  · refine ⟨(candidates.filter fun r =>
      Qualifies (db.store s.tables) historyLength q.derived r).take q.limit,
      fun workers schedule => ?_⟩
    have hends : Ends (db.store s.tables) historyLength q
        (runCompiledBy (db.store s.tables) historyLength q schedule) :=
      ends_runCompiledBy (metric_of_compile hq) hd schedule
    generalize runCompiledBy (db.store s.tables) historyLength q schedule = result at hends
    cases hends with
    | unselected hf => cases hc.symm.trans hf
    | obstructed hc' hr hj =>
      cases hc.symm.trans hc'
      have hticker := ticker_of_mem_statement hdb hq htickers hc _ hr
      exact absurd (isJudged_of_hasSchema hs hticker historyLength) hj
    | judged hc' hj =>
      cases hc.symm.trans hc'
      rfl

/-- The order in which rows were inserted has no part in what a query without sort keys finds. Take
two sound databases that hold the same in every table; all companies have tickers, and no year is a
number that differs from itself. Then a run puts the same statements on both and ends in the same
way. With the reference schema an accepted query has rows, and these are the rows of every run by
workers on either database, whatever their schedule. -/
theorem run_eq_of_reorders [Quantity.IsExact α] (s : Settings) (query : Query α)
    (hsort : query.sort = []) (db db' : Database α) (hdb : db.IsSound) (hdb' : db'.IsSound)
    (h : Reorders s.tables db db')
    (htickers : ∀ company ∈ db.rows (s.tables.physical .companies),
      Row.get company tickerColumn ≠ .null)
    (hyears : ∀ row ∈ db.rows (s.tables.physical .annual),
      (Row.get row (periodColumn .annual)).IsDefinite) :
    run s (db.store s.tables) query = run s (db'.store s.tables) query ∧
    ∀ q, compile s query = .ok q → db.HasSchema s.tables → ∃ rows,
      (run s (db.store s.tables) query).result = .ok rows ∧
      ∀ (start : Nat → Except PoolError Unit) (workers : Nat)
        (schedule : (candidates : List (Row α)) → Schedule workers candidates.length),
        start workers = .ok () →
        runPooled start (db.store s.tables) s.historyLength q schedule = .ok rows ∧
        runPooled start (db'.store s.tables) s.historyLength q schedule = .ok rows := by
  have hagree := h.agreeOn hdb hdb' hyears
  have halike := answerAlike_of_reorders h hagree
  constructor
  · unfold run
    cases hq : compile s query with
    | error e => rfl
    | ok q =>
      have hstatement := statement_eq_of_reorders hq hsort h hagree htickers
      simp only [runCompiled_congr hstatement halike]
  · intro q hq hs
    have hstatement := statement_eq_of_reorders hq hsort h hagree htickers
    obtain ⟨rows, hrows⟩ := exists_rows hdb hs hq htickers s.historyLength
    refine ⟨rows, ?_, fun start workers schedule hstart => ?_⟩
    · have hrun : (runCompiled (db.store s.tables) s.historyLength q).result = .ok rows :=
        runCompiled_eq.trans (hrows 1 _)
      simp only [run, hq, Traced.mapError, hrun]
      rfl
    · rw [runPooled_eq hstart, runPooled_eq hstart, ← runCompiledBy_congr hstatement halike, hrows]
      exact ⟨rfl, rfl⟩

theorem run_eq_of_reorders_bothCompanies :
    let names := Settings.default.tables
    let db := filled names bothCompanies
    let db' := filled names fun t => (bothCompanies t).reverse
    Reorders names db db' ∧ db.rows "companies" ≠ db'.rows "companies" ∧
    run Settings.default (db.store names) profitableQuery =
      run Settings.default (db'.store names) profitableQuery ∧
    ∃ q rows, compile Settings.default profitableQuery = .ok q ∧
      (run Settings.default (db.store names) profitableQuery).result = .ok rows ∧
      runPooled (fun _ => .ok ()) (db'.store names) Settings.default.historyLength q
        (fun candidates => backwards candidates.length) = .ok rows := by
  intro names db db'
  have hs : Settings.default.validate = .ok () := by decide
  have ha : profitableQuery.IsAddressable := by
    unfold Query.IsAddressable
    decide +kernel
  obtain ⟨q, hq⟩ : ∃ q, compile Settings.default profitableQuery = .ok q :=
    ⟨_, compile_eq_queryOf hs ha rfl rfl rfl⟩
  have hnames : names.AreDistinct := areDistinct_default
  have hreorders : Reorders names db db' :=
    reorders_filled hnames fun t => (List.reverse_perm _).symm
  obtain ⟨hrun, hrows⟩ := run_eq_of_reorders Settings.default profitableQuery rfl db db'
    (isSound_filled (by decide +kernel)) (isSound_filled (by decide +kernel)) hreorders
    (by decide +kernel) (by decide +kernel)
  obtain ⟨rows, hresult, hpooled⟩ := hrows q hq (hasSchema_filled hnames bothCompanies)
  exact ⟨hreorders, by decide +kernel, hrun, q, rows, hq, hresult,
    (hpooled (fun _ => .ok ()) 2 (fun candidates => backwards candidates.length) rfl).2⟩

end Screen

end EquityScreen
