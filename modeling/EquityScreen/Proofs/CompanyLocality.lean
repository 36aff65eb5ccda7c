import EquityScreen.Proofs.MatchedCompanies
import EquityScreen.Proofs.OwnRows

namespace EquityScreen

open Compilation

variable {α : Type} [Quantity α]

/-- A predicate reads of the facts of all periods only its windows. -/
theorem Predicate.truth_congr {h h' : History α} {c : Candidate α} (bound : Nat → Cell α)
    {p : Predicate} (hw : ∀ w : Trailing, (∀ u ∈ ColumnUse.trailing w, u ∈ ColumnUse.predicate p) →
      w.values h c = w.values h' c) : p.truth h bound c = p.truth h' bound c := by
  have hoperand (x : Operand) (hx : ∀ w : Trailing,
      (∀ u ∈ ColumnUse.trailing w, u ∈ ColumnUse.operand x) → w.values h c = w.values h' c) :
      x.value h c = x.value h' c := by
    cases x with
    | column f => rfl
    | orAnnual f => simp only [Operand.value, hx _ fun u hu => List.mem_cons_of_mem _ hu]
    | aggregate a w => simp only [Operand.value, hx w fun u hu => hu]
  induction p using Predicate.induction with
  | compare x op n => simp only [truth, compareWith, hoperand x hw]
  | between x low high => simp only [truth, compareWith, hoperand x hw]
  | inside x low high => simp only [truth, compareWith, hoperand x hw]
  | present f p ih =>
    rw [truth, truth, ih fun w hu => hw w fun u hmem => List.mem_cons_of_mem _ (hu u hmem)]
  | missingOr f p ih =>
    rw [truth, truth, ih fun w hu => hw w fun u hmem => List.mem_cons_of_mem _ (hu u hmem)]
  | trend t w => rw [truth, truth, hw w fun u hu => hu]
  | not p ih => rw [truth, truth, ih hw]
  | group k ps ih =>
    refine truth_group_congr k (List.forall₂_same.mpr fun p hp => ih p hp fun w hu => hw w ?_)
    intro u hmem
    rw [ColumnUse.predicate, ColumnUse.predicates_eq_flatMap]
    exact List.mem_flatMap.mpr ⟨p, hp, hu u hmem⟩

/-- A query about the facts or cash flows of a company. -/
def Statement.IsAbout (ticker : String) : Statement α → Prop
  | .candidates _ _ => False
  | .facts _ _ t _ | .cashFlows t _ => t = ticker

namespace Traced

/-- Two computations with answers of their own that are one computation where no query fails. -/
def Coincide {β ε : Type} (store store' : Store α) (x x' : Traced α ε β) : Prop :=
  (∀ st ∈ x.asked, ∃ rows, store st = .ok rows) →
    (∀ st ∈ x'.asked, ∃ rows, store' st = .ok rows) → x = x'

namespace Coincide

variable {β γ ε ε' : Type} {store store' : Store α} {x x' : Traced α ε β}

omit [Quantity α]

theorem refl (x : Traced α ε β) : Coincide store store' x x := fun _ _ => rfl

theorem ask {st : Statement α}
    (h : (∃ rows, store st = .ok rows) → (∃ rows, store' st = .ok rows) → store st = store' st) :
    Coincide store store' (Traced.ask store st) (Traced.ask store' st) := by
  intro hall hall'
  have hsame := h (hall st (List.mem_singleton.mpr rfl)) (hall' st (List.mem_singleton.mpr rfl))
  rw [Traced.ask, Traced.ask, hsame]

theorem mapError (h : Coincide store store' x x') (f : ε → ε') :
    Coincide store store' (x.mapError f) (x'.mapError f) := by
  intro hall hall'
  rw [h hall hall']

theorem bind (h : Coincide store store' x x') {f f' : β → Traced α ε γ}
    (hf : ∀ b, Coincide store store' (f b) (f' b)) :
    Coincide store store' (x >>= f) (x' >>= f') := by
  change Coincide store store' (Traced.bind x f) (Traced.bind x' f')
  intro hall hall'
  have hasked (x : Traced α ε β) (f : β → Traced α ε γ) :
      ∀ st ∈ x.asked, st ∈ (Traced.bind x f).asked := by
    intro st hst
    unfold Traced.bind
    cases x.result with
    | ok b => exact List.mem_append_left _ hst
    | error e => exact hst
  obtain rfl := h (fun st hst => hall st (hasked x f st hst))
    fun st hst => hall' st (hasked x' f' st hst)
  unfold Traced.bind at hall hall' ⊢
  cases hr : x.result with
  | error e => rfl
  | ok b =>
    rw [hr] at hall hall'
    have hb : f b = f' b := hf b (fun st hst => hall st (List.mem_append_right _ hst))
      fun st hst => hall' st (List.mem_append_right _ hst)
    simp only [hb]

end Coincide

end Traced

namespace Resolution

open Traced

variable {store store' : Store α} {ticker : String}

/-- Stores that answer alike what is asked about a company. -/
def SameAnswers (ticker : String) (store store' : Store α) : Prop :=
  ∀ st : Statement α, st.IsAbout ticker → (∃ rows, store st = .ok rows) →
    (∃ rows, store' st = .ok rows) → store st = store' st

variable (h : SameAnswers ticker store store')

include h

omit [Quantity α] in
theorem fetch_coincide (m : MetricName) (unit : WindowUnit) (length : Nat) :
    Coincide store store' (fetch store ticker m unit length)
      (fetch store' ticker m unit length) := by
  unfold fetch
  have hfacts := Coincide.ask (h (.facts unit (columnsOf m) ticker length) rfl)
  have hflows := Coincide.ask (h (.cashFlows ticker length) rfl)
  refine (hfacts.mapError _).bind fun rows => ?_
  split
  · exact (hflows.mapError _).bind fun _ => .refl _
  · exact .refl _

theorem compute_coincide (historyLength : Nat) (c : CompiledCondition α) :
    Coincide store store' (compute store historyLength ticker c)
      (compute store' historyLength ticker c) := by
  unfold compute
  split
  · exact .refl _
  · exact (fetch_coincide h _ _ _).bind fun _ => .refl _

theorem passesAll_coincide (historyLength : Nat) (cs : List (CompiledCondition α)) :
    Coincide store store' (passesAll store historyLength ticker cs)
      (passesAll store' historyLength ticker cs) := by
  induction cs with
  | nil => exact .refl _
  | cons c rest ih =>
    refine (compute_coincide h historyLength c).bind fun value => ?_
    split
    · exact ih
    · exact .refl _

end Resolution

namespace Database

variable {names : TableNames} {db db' : Database α} {ticker : String}

theorem IsSound.provides_of_mem (hdb : db.IsSound) {st : Statement α} {rows : List (Row α)}
    (h : db.store names st = .ok rows) {t : Table} (ht : ⟨t, t.mark⟩ ∈ ColumnUse.statement st) :
    db.Provides names t :=
  hdb.provides_of_resolves t.eq_of_mark ((store_eq_ok.mp h).1 _ ht)

theorem AgreeOn.sameAnswers [Quantity.IsExact α] (h : AgreeOn names ticker db db') :
    Resolution.SameAnswers ticker (db.store names) (db'.store names) := by
  rintro st hst ⟨rows, hrows⟩ ⟨rows', hrows'⟩
  have hanswer : db.answer names st = db'.answer names st := by
    cases st with
    | candidates s params => exact hst.elim
    | facts unit columns t length =>
      obtain rfl : t = ticker := hst
      have hmark : ⟨unit.table, unit.table.mark⟩ ∈
          ColumnUse.statement (.facts unit columns t length : Statement α) := by
        cases unit <;> simp [ColumnUse.statement, Table.mark, WindowUnit.table]
      have hdated : unit.table.isDated = true := by cases unit <;> rfl
      exact h.newestOf_eq (h.sound.provides_of_mem hrows hmark)
        (h.sound'.provides_of_mem hrows' hmark) hdated _ _ _
    | cashFlows t length =>
      obtain rfl : t = ticker := hst
      have hmark : ⟨.cashFlows, Table.cashFlows.mark⟩ ∈
          ColumnUse.statement (.cashFlows t length : Statement α) := by
        simp [ColumnUse.statement, Table.mark]
      exact h.newestOf_eq (h.sound.provides_of_mem hrows hmark)
        (h.sound'.provides_of_mem hrows' hmark) rfl _ _ _
  rw [hrows, hrows', (store_eq_ok.mp hrows).2, (store_eq_ok.mp hrows').2, hanswer]

theorem AgreeOn.selects_eq [Quantity.IsExact α] (h : AgreeOn names ticker db db') {s : Selection}
    {params : List (Literal α)} {rows rows' : List (Row α)}
    (hrows : db.store names (.candidates s params) = .ok rows)
    (hrows' : db'.store names (.candidates s params) = .ok rows') {c : Candidate α}
    (hc : c.ticker = .text ticker) :
    db.selects names s params c = db'.selects names s params c := by
  unfold selects
  cases hs : s.condition with
  | none => rfl
  | some p =>
    have htruth : p.truth (db.history names) (bound params) c =
        p.truth (db'.history names) (bound params) c := by
      refine Predicate.truth_congr _ fun w hw => ?_
      have hmark : ⟨w.unit.table, w.unit.table.mark⟩ ∈
          ColumnUse.statement (.candidates s params : Statement α) := by
        have hperiod : ⟨w.unit.table, w.period⟩ ∈ ColumnUse.predicate p :=
          hw _ (by simp [ColumnUse.trailing])
        have hname : w.unit.table.mark = w.period := by
          rw [Trailing.period]
          cases w.unit <;> rfl
        simp [ColumnUse.statement, ColumnUse.selection, hs, hname, hperiod]
      exact h.values_eq w (h.sound.provides_of_mem hrows hmark)
        (h.sound'.provides_of_mem hrows' hmark) hc
    simp only [htruth]

theorem IsSound.mem_select (hdb : db.IsSound) {s : Selection} (hl : s.limit = none)
    (hp : ∀ source ∈ Source.company :: s.joins, db.Provides names source.table)
    {params : List (Literal α)} {row : Row α} : row ∈ db.select names s params ↔
      ∃ company ∈ db.rows (names.physical .companies),
        db.selects names s params (db.candidateOf names s.joins company) = true ∧
          shownRow s (db.candidateOf names s.joins company) = row := by
  rw [(select_perm hl params).mem_iff, hdb.candidates_eq hp, List.filter_map, List.map_map,
    List.mem_map]
  simp only [List.mem_filter, Function.comp_apply, and_assoc]

theorem AgreeOn.mem_of_mem [Quantity.IsExact α] (h : AgreeOn names ticker db db') {s : Selection}
    (hl : s.limit = none)
    (hp : ∀ source ∈ Source.company :: s.joins, db.Provides names source.table)
    (hp' : ∀ source ∈ Source.company :: s.joins, db'.Provides names source.table)
    {params : List (Literal α)} {rows rows' : List (Row α)}
    (hrows : db.store names (.candidates s params) = .ok rows)
    (hrows' : db'.store names (.candidates s params) = .ok rows') {row : Row α} (hrow : row ∈ rows)
    (ht : Row.get row tickerColumn = .text ticker) : row ∈ rows' := by
  obtain ⟨-, rfl⟩ := store_eq_ok.mp hrows
  obtain ⟨company, hcompany, hselects, rfl⟩ := (h.sound.mem_select hl hp).mp hrow
  have hc : Row.get company tickerColumn = .text ticker := ht
  have hcandidate : db.candidateOf names s.joins company = db'.candidateOf names s.joins company :=
    h.candidateOf_eq (fun source hs => ⟨hp source (List.mem_cons_of_mem _ hs),
      hp' source (List.mem_cons_of_mem _ hs)⟩) hc
  have hselects' : db'.selects names s params (db'.candidateOf names s.joins company) = true := by
    rw [← hcandidate, ← hselects]
    exact (h.selects_eq hrows hrows' (c := db.candidateOf names s.joins company) hc).symm
  rw [(store_eq_ok.mp hrows').2, hcandidate]
  exact (h.sound'.mem_select hl hp').mpr
    ⟨company, (h.rows _ company hc).mp hcompany, hselects', rfl⟩

end Database

namespace Screen

open Resolution Database

/-- No query fails by which it is decided whether a company is matched. -/
structure IsDecided (store : Store α) (historyLength : Nat) (q : CompiledQuery α)
    (ticker : String) : Prop where
  selection : ∃ rows, store q.unlimited.statement = .ok rows
  resolution : ∀ st ∈ (passesAll store historyLength ticker q.derived).asked,
    ∃ rows, store st = .ok rows

variable {s : Settings} {db db' : Database α} {query : Query α} {q : CompiledQuery α}
  {ticker : String}

theorem isDecided_of_hasSchema (h : db.HasSchema s.tables) (hq : compile s query = .ok q)
    (ticker : String) : IsDecided (db.store s.tables) s.historyLength q ticker where
  selection := by
    obtain ⟨-, g, order, hg, ho, -, rfl⟩ := (compile_eq_ok ..).mp hq
    exact h.answers (ColumnUse.selection_isCreated hg ho)
  resolution st hst := by
    obtain ⟨t, ht⟩ := passesAll_asksOnly ticker q.derived st hst
    exact h.answers (ColumnUse.statement_isCreated ht)

theorem MatchedBy.of_agreeOn [Quantity.IsExact α] (hq : compile s query = .ok q)
    (h : AgreeOn s.tables ticker db db')
    (hd : IsDecided (db.store s.tables) s.historyLength q ticker)
    (hd' : IsDecided (db'.store s.tables) s.historyLength q ticker)
    (hm : MatchedBy (db.store s.tables) s.historyLength q ticker) :
    MatchedBy (db'.store s.tables) s.historyLength q ticker := by
  obtain ⟨-, g, order, -, -, -, rfl⟩ := (compile_eq_ok ..).mp hq
  obtain ⟨rows, hrows, row, hrow, ht, hpasses⟩ := hm
  obtain ⟨rows', hrows'⟩ := hd'.selection
  have hpassed : passesAll (db.store s.tables) s.historyLength ticker _ =
      passesAll (db'.store s.tables) s.historyLength ticker _ :=
    passesAll_coincide h.sameAnswers s.historyLength _ hd.resolution hd'.resolution
  refine ⟨rows', hrows', row, h.mem_of_mem rfl (h.sound.provides hrows) (h.sound'.provides hrows')
    hrows hrows' hrow ht, ht, ?_⟩
  rw [passes, ht] at hpasses ⊢
  exact (congrArg Traced.result hpassed).symm.trans hpasses

/-- Whether a company is matched depends on its own rows alone. Take two sound databases with the
same rows of the company in every table, on which no query fails; no year of the company is a number
that differs from itself. Then an accepted query, its limit aside, matches the company on one of
them exactly when it does on the other: the rows of other companies have no part in it. -/
theorem matchedBy_iff_of_sameRows [Quantity.IsExact α] (s : Settings) (query : Query α)
    (q : CompiledQuery α) (hq : compile s query = .ok q) (ticker : String) (db db' : Database α)
    (hdb : db.IsSound) (hdb' : db'.IsSound)
    (hrows : ∀ t row, Row.get row tickerColumn = .text ticker →
      (row ∈ db.rows (s.tables.physical t) ↔ row ∈ db'.rows (s.tables.physical t)))
    (hyears : ∀ row ∈ db.rows (s.tables.physical .annual), Row.get row tickerColumn = .text ticker →
      (Row.get row (periodColumn .annual)).IsDefinite)
    (hd : IsDecided (db.store s.tables) s.historyLength q ticker)
    (hd' : IsDecided (db'.store s.tables) s.historyLength q ticker) :
    MatchedBy (db.store s.tables) s.historyLength q ticker ↔
      MatchedBy (db'.store s.tables) s.historyLength q ticker := by
  have h : AgreeOn s.tables ticker db db' := ⟨hdb, hdb', hrows, hyears⟩
  exact ⟨.of_agreeOn hq h hd hd', .of_agreeOn hq h.symm hd' hd⟩

def oneCompany : Table → List (Row ℚ)
  | .companies => [[(tickerColumn, .text "A"), ("name", .text "A")]]
  | .quarterly =>
    [[(tickerColumn, .text "A"), (periodColumn .quarterly, .text "2024-03-31"), ("roe", .int 20),
      ("revenue", .int 110)]]
  | .annual =>
    [[(tickerColumn, .text "A"), (periodColumn .annual, .int 2023), ("pe_ratio", .int 12)]]
  | .ownership => []
  | .cashFlows =>
    [[(tickerColumn, .text "A"), (periodColumn .cashFlows, .text "2024-03-31"),
      ("free_cash_flow", .int 22)]]

def otherCompany : Table → List (Row ℚ)
  | .companies => [[(tickerColumn, .text "B"), ("name", .text "B")]]
  | .quarterly =>
    [[(tickerColumn, .text "B"), (periodColumn .quarterly, .text "2024-06-30"), ("roe", .int 1),
      ("revenue", .int 1)]]
  | .annual =>
    [[(tickerColumn, .text "B"), (periodColumn .annual, .int 2024), ("pe_ratio", .int 90)]]
  | .ownership => [[(tickerColumn, .text "B"), ("promoter_holding", .int 50)]]
  | .cashFlows =>
    [[(tickerColumn, .text "B"), (periodColumn .cashFlows, .text "2024-06-30"),
      ("free_cash_flow", .int 0)]]

def bothCompanies : Table → List (Row ℚ) := fun t => otherCompany t ++ oneCompany t

def profitableQuery : Query ℚ :=
  { filter := .group .and
      [.leaf ⟨"roe", ">", some (.int 15), none, none, none, none⟩,
       .leaf ⟨"revenue", ">", some (.int 95), none, some ⟨"quarters", some (.int 2), "avg"⟩, none,
         none⟩,
       .leaf ⟨"pe_ratio", "<", some (.int 15), none, none, none, "fallback"⟩,
       .leaf ⟨"fcf_margin", ">", some (.int 10), none, none, none, none⟩]
    sort := []
    limit := some 1 }

theorem matchedBy_iff_of_sameRows_bothCompanies :
    let names := Settings.default.tables
    let length := Settings.default.historyLength
    ∃ q, compile Settings.default profitableQuery = .ok q ∧
      MatchedBy (store names (filled names oneCompany)) length q "A" ∧
      MatchedBy (store names (filled names bothCompanies)) length q "A" := by
  intro names length
  have hs : Settings.default.validate = .ok () := by decide
  have ha : profitableQuery.IsAddressable := by
    unfold Query.IsAddressable
    decide +kernel
  obtain ⟨q, hq⟩ : ∃ q, compile Settings.default profitableQuery = .ok q :=
    ⟨_, compile_eq_queryOf hs ha rfl rfl rfl⟩
  have hnames : names.AreDistinct := areDistinct_default
  have hone : IsSound (filled names oneCompany) := isSound_filled (by decide +kernel)
  have hboth : IsSound (filled names bothCompanies) := isSound_filled (by decide +kernel)
  have hd := isDecided_of_hasSchema (hasSchema_filled hnames oneCompany) hq "A"
  have hd' := isDecided_of_hasSchema (hasSchema_filled hnames bothCompanies) hq "A"
  have hrows (t : Table) (row : Row ℚ) (ht : Row.get row tickerColumn = .text "A") :
      row ∈ rows (filled names oneCompany) (names.physical t) ↔
        row ∈ rows (filled names bothCompanies) (names.physical t) := by
    have hother : ∀ row ∈ (otherCompany t).map
        (Relation.shape ⟨names.physical t, Schema.columns t, []⟩),
        Row.get row tickerColumn ≠ .text "A" := by
      cases t <;> decide +kernel
    rw [rows_filled hnames, rows_filled hnames, bothCompanies, List.map_append, List.mem_append]
    exact ⟨.inr, fun h => h.resolve_left fun hmem => hother row hmem ht⟩
  have hmatched : MatchedBy (store names (filled names oneCompany)) length q "A" := by
    refine (matchedBy_iff_fits hone hq hd.selection).mpr
      ⟨(rows (filled names oneCompany) "companies").head (by decide +kernel), List.head_mem _,
        by decide +kernel, by decide +kernel, ?_⟩
    rintro c (_ | ⟨_, _ | ⟨_, _ | ⟨_, _ | ⟨_, ⟨⟩⟩⟩⟩⟩) hderived d hc
    · exact absurd hderived (by decide)
    · exact absurd hderived (by decide)
    · exact absurd hderived (by decide)
    · cases hc
      exact .inl ⟨20, by decide +kernel, by decide +kernel⟩
  exact ⟨q, hq, hmatched, (matchedBy_iff_of_sameRows Settings.default profitableQuery q hq "A" _ _
    hone hboth hrows (by decide +kernel) hd hd').mp hmatched⟩

end Screen

end EquityScreen
