import EquityScreen.Proofs.SelectedCompanies
import EquityScreen.Proofs.TighterBounds

namespace EquityScreen

open Compilation Validation Resolution

variable {α : Type} [Quantity α]

namespace Screen

/-- Limit aside, a query selects a company and the company passes every derived condition. -/
def MatchedBy (store : Store α) (historyLength : Nat) (q : CompiledQuery α) (ticker : String) :
    Prop :=
  ∃ rows, store q.unlimited.statement = .ok rows ∧ ∃ row ∈ rows,
    Row.get row tickerColumn = .text ticker ∧
      (passes store historyLength q.derived row).result = .ok true

/-- What a filter alone compiles to, without sort keys and a limit of its own. -/
def filterQuery? (s : Settings) (f : Filter α) : Except (CompileError α) (CompiledQuery α) :=
  (compileNode s.maxWindowLength 1 true f).map fun g => queryOf s ⟨f, [], none⟩ g []

/-- A filter matches a company. -/
def Matches (s : Settings) (store : Store α) (f : Filter α) (ticker : String) : Prop :=
  ∃ q, filterQuery? s f = .ok q ∧ MatchedBy store s.historyLength q ticker

def IsAnswered (s : Settings) (store : Store α) (f : Filter α) : Prop :=
  ∀ q, filterQuery? s f = .ok q → ∃ rows, store q.unlimited.statement = .ok rows

end Screen

namespace Resolution

theorem passes_eq_true {store : Store α} {historyLength : Nat} {cs : List (CompiledCondition α)}
    {row : Row α} {ticker : String} (h : Row.get row tickerColumn = .text ticker) :
    (passes store historyLength cs row).result = .ok true ↔
      ∀ c ∈ cs, Meets store historyLength ticker c := by
  rw [passes, h]
  exact passesAll_eq_true

end Resolution

/-- What a filter asks of a company: it is true of all that can be joined for the company, and the
company meets its derived conditions. -/
structure Filter.Fits (s : Settings) (db : Database α) (f : Filter α) (company : Row α)
    (ticker : String) : Prop where
  truth : f.truth? (db.history s.tables) (db.fullCandidate s.tables company) = some .yes
  derived : ∀ c ∈ f.conditions, isDerived c.fieldName = true →
    ∀ d, compileCondition s.maxWindowLength 1 c = .ok d →
      Meets (db.store s.tables) s.historyLength ticker d

namespace Screen

open Database

variable {s : Settings} {db : Database α} {query : Query α} {g : Fragment α}
  {order : List OrderKey} {rows : List (Row α)} {ticker : String}

theorem matchedBy_iff (hdb : db.IsSound)
    (hf : IsWellFormed s.maxWindowLength true query.filter)
    (hg : compileNode s.maxWindowLength 1 true query.filter = .ok g)
    (h : db.store s.tables (queryOf s query g order).unlimited.statement = .ok rows) :
    MatchedBy (db.store s.tables) s.historyLength (queryOf s query g order) ticker ↔
      ∃ company ∈ db.rows (s.tables.physical .companies),
        Row.get company tickerColumn = .text ticker ∧ query.filter.Fits s db company ticker := by
  have hrows {row : Row α} : row ∈ rows ↔
      ∃ company ∈ db.satisfying s.tables query.filter,
        shownRow (queryOf s query g order).selection (db.fullCandidate s.tables company) = row :=
    (rows_perm_satisfying hdb hf hg h).mem_iff.trans List.mem_map
  have hderived := forall_derived_iff hg
    (Meets (db.store s.tables) s.historyLength ticker)
  constructor
  · rintro ⟨rows', hrows', row, hrow, ht, hpasses⟩
    rw [h] at hrows'
    cases hrows'
    obtain ⟨company, hcompany, rfl⟩ := hrows.mp hrow
    obtain ⟨hmem, htruth⟩ := mem_satisfying.mp hcompany
    exact ⟨company, hmem, ht, htruth, hderived.mp ((passes_eq_true ht).mp hpasses)⟩
  · rintro ⟨company, hmem, ht, htruth, hmeets⟩
    exact ⟨rows, h, _, hrows.mpr ⟨company, mem_satisfying.mpr ⟨hmem, htruth⟩, rfl⟩, ht,
      (passes_eq_true ht).mpr (hderived.mpr hmeets)⟩

theorem filterQuery?_eq_ok {f : Filter α} {q : CompiledQuery α} :
    filterQuery? s f = .ok q ↔ ∃ g, compileNode s.maxWindowLength 1 true f = .ok g ∧
      q = queryOf s ⟨f, [], none⟩ g [] := by
  rw [filterQuery?, map_eq_ok]
  simp [eq_comm]

theorem isAnswered_of_hasSchema (h : db.HasSchema s.tables) (f : Filter α) :
    IsAnswered s (db.store s.tables) f := by
  intro q hq
  obtain ⟨g, hg, rfl⟩ := filterQuery?_eq_ok.mp hq
  exact h.answers (ColumnUse.selection_isCreated (q := ⟨f, [], none⟩) hg rfl)

theorem matches_iff (hdb : db.IsSound) {f : Filter α}
    (hf : IsWellFormed s.maxWindowLength true f) (ha : IsAnswered s (db.store s.tables) f) :
    Matches s (db.store s.tables) f ticker ↔
      ∃ company ∈ db.rows (s.tables.physical .companies),
        Row.get company tickerColumn = .text ticker ∧ f.Fits s db company ticker := by
  obtain ⟨g, hg⟩ := hf.compiles 1
  have hq : filterQuery? s f = .ok (queryOf s ⟨f, [], none⟩ g []) :=
    filterQuery?_eq_ok.mpr ⟨g, hg, rfl⟩
  obtain ⟨rows, hrows⟩ := ha _ hq
  have hfit : MatchedBy (db.store s.tables) s.historyLength (queryOf s ⟨f, [], none⟩ g []) ticker ↔
      _ := matchedBy_iff hdb hf hg hrows
  rw [← hfit]
  constructor
  · rintro ⟨q, hq', hm⟩
    rw [hq] at hq'
    cases hq'
    exact hm
  · exact fun hm => ⟨_, hq, hm⟩

theorem IsAnswered.provides (hdb : db.IsSound) {f : Filter α}
    (hf : IsWellFormed s.maxWindowLength true f) (ha : IsAnswered s (db.store s.tables) f) :
    db.Provides s.tables .companies := by
  obtain ⟨g, hg⟩ := hf.compiles 1
  obtain ⟨rows, hrows⟩ := ha _ (filterQuery?_eq_ok.mpr ⟨g, hg, rfl⟩)
  exact hdb.provides hrows .company List.mem_cons_self

end Screen

namespace Filter

variable {s : Settings} {db : Database α} {company : Row α} {ticker : String}

theorem fits_and {children : List (Filter α)} :
    (group .and children).Fits s db company ticker ↔
      ∀ f ∈ children, f.Fits s db company ticker := by
  constructor
  · intro h f hf
    refine ⟨truth?_and_eq_yes.mp h.truth f hf, fun c hc => h.derived c ?_⟩
    rw [conditions_group]
    exact List.mem_flatMap.mpr ⟨f, hf, hc⟩
  · intro h
    refine ⟨truth?_and_eq_yes.mpr fun f hf => (h f hf).truth, fun c hc => ?_⟩
    rw [conditions_group] at hc
    obtain ⟨f, hf, hc⟩ := List.mem_flatMap.mp hc
    exact (h f hf).derived c hc

theorem fits_iff_truth {f : Filter α} (hf : IsWellFormed s.maxWindowLength false f) :
    f.Fits s db company ticker ↔
      f.truth? (db.history s.tables) (db.fullCandidate s.tables company) = some .yes := by
  refine ⟨fun h => h.truth, fun h => ⟨h, fun c hc hd => ?_⟩⟩
  rw [isDerived_of_derivedOf hf.derived c hc] at hd
  cases hd

theorem exists_truth? {f : Filter α} {maxLength : Nat} {conjunctive : Bool}
    (hf : IsWellFormed maxLength conjunctive f) (h : History α) (c : Candidate α) :
    ∃ t, f.truth? h c = some t := by
  obtain ⟨g, hg⟩ := hf.compiles 1
  exact ⟨_, (hf.means hg).truth h c _ (Database.binds_bound g.params)⟩

theorem fits_or {children : List (Filter α)} {conjunctive : Bool}
    (hf : IsWellFormed s.maxWindowLength conjunctive (.group .or children)) :
    (group .or children).Fits s db company ticker ↔
      ∃ f ∈ children, f.Fits s db company ticker := by
  have hchild (f : Filter α) (hmem : f ∈ children) : IsWellFormed s.maxWindowLength false f :=
    hf.of_or.child hmem
  rw [fits_iff_truth hf.of_or, truth?_or_eq_yes fun f hmem => exists_truth? (hchild f hmem) _ _]
  exact exists_congr fun f => and_congr_right fun hmem => (fits_iff_truth (hchild f hmem)).symm

theorem fits_not {f : Filter α} (hf : IsWellFormed s.maxWindowLength false f) :
    (Filter.not f).Fits s db company ticker ↔
      f.truth? (db.history s.tables) (db.fullCandidate s.tables company) = some .no := by
  rw [fits_iff_truth hf.negation, truth?_not_eq_yes]

theorem fits_not_not {f : Filter α} (hf : IsWellFormed s.maxWindowLength false f) :
    (Filter.not (.not f)).Fits s db company ticker ↔ f.Fits s db company ticker := by
  rw [fits_iff_truth hf.negation.negation, fits_iff_truth hf, truth?_not_not]

end Filter

namespace Screen

open Database

variable {s : Settings} {db : Database α} {F G : Filter α} {ticker : String}

/-- Companies are told apart by their tickers, so that what fits two filters is one company. -/
theorem matches_and (hdb : db.IsSound)
    (h : validate s.maxWindowLength (.group .and [F, G]) = .ok ())
    (hF : IsAnswered s (db.store s.tables) F) (hG : IsAnswered s (db.store s.tables) G)
    (hFG : IsAnswered s (db.store s.tables) (.group .and [F, G])) :
    Matches s (db.store s.tables) (.group .and [F, G]) ticker ↔
      Matches s (db.store s.tables) F ticker ∧ Matches s (db.store s.tables) G ticker := by
  have hboth := IsWellFormed.of_validate h
  have hf : IsWellFormed s.maxWindowLength true F := hboth.child (by simp)
  have hg : IsWellFormed s.maxWindowLength true G := hboth.child (by simp)
  rw [matches_iff hdb hboth hFG, matches_iff hdb hf hF, matches_iff hdb hg hG]
  constructor
  · rintro ⟨company, hmem, ht, hfits⟩
    rw [Filter.fits_and] at hfits
    exact ⟨⟨company, hmem, ht, hfits F (by simp)⟩, ⟨company, hmem, ht, hfits G (by simp)⟩⟩
  · rintro ⟨⟨company, hmem, ht, hfits⟩, ⟨company', hmem', ht', hfits'⟩⟩
    obtain rfl := hdb.company_unique (hF.provides hdb hf) hmem hmem' ht ht'
    refine ⟨company, hmem, ht, Filter.fits_and.mpr ?_⟩
    rw [List.forall_mem_cons, List.forall_mem_singleton]
    exact ⟨hfits, hfits'⟩

theorem matches_or (hdb : db.IsSound) (h : validate s.maxWindowLength (.group .or [F, G]) = .ok ())
    (hF : IsAnswered s (db.store s.tables) F) (hG : IsAnswered s (db.store s.tables) G)
    (hFG : IsAnswered s (db.store s.tables) (.group .or [F, G])) :
    Matches s (db.store s.tables) (.group .or [F, G]) ticker ↔
      Matches s (db.store s.tables) F ticker ∨ Matches s (db.store s.tables) G ticker := by
  have heither := IsWellFormed.of_validate h
  have hf := IsWellFormed.of_validate (validate_of_or h (f := F) (by simp))
  have hg := IsWellFormed.of_validate (validate_of_or h (f := G) (by simp))
  rw [matches_iff hdb heither hFG, matches_iff hdb hf hF, matches_iff hdb hg hG]
  simp only [Filter.fits_or heither, List.exists_mem_cons_iff, List.not_mem_nil, false_and,
    exists_false, or_false, and_or_left, exists_or]

theorem not_matches_not (hdb : db.IsSound) (h : validate s.maxWindowLength (.not F) = .ok ())
    (hF : IsAnswered s (db.store s.tables) F) (hnot : IsAnswered s (db.store s.tables) (.not F)) :
    ¬ (Matches s (db.store s.tables) F ticker ∧ Matches s (db.store s.tables) (.not F) ticker) := by
  have hnegated := IsWellFormed.of_validate h
  have hf : IsWellFormed s.maxWindowLength true F := hnegated.negated.relax
  rw [matches_iff hdb hf hF, matches_iff hdb hnegated hnot]
  rintro ⟨⟨company, hmem, ht, hfits⟩, ⟨company', hmem', ht', hfits'⟩⟩
  obtain rfl := hdb.company_unique (hF.provides hdb hf) hmem hmem' ht ht'
  have hyes := hfits.truth
  rw [(Filter.fits_not hnegated.negated).mp hfits'] at hyes
  cases hyes

theorem matches_not_not (hdb : db.IsSound) (h : validate s.maxWindowLength (.not F) = .ok ())
    (hF : IsAnswered s (db.store s.tables) F)
    (hnot : IsAnswered s (db.store s.tables) (.not (.not F))) :
    Matches s (db.store s.tables) (.not (.not F)) ticker ↔
      Matches s (db.store s.tables) F ticker := by
  have hf := (IsWellFormed.of_validate h).negated
  rw [matches_iff hdb hf.negation.negation hnot, matches_iff hdb hf.relax hF]
  simp only [Filter.fits_not_not hf]

theorem matchedBy_iff_fits (hdb : db.IsSound) {query : Query α} {q : CompiledQuery α}
    (hq : compile s query = .ok q)
    (ha : ∃ rows, db.store s.tables q.unlimited.statement = .ok rows) :
    MatchedBy (db.store s.tables) s.historyLength q ticker ↔
      ∃ company ∈ db.rows (s.tables.physical .companies),
        Row.get company tickerColumn = .text ticker ∧ query.filter.Fits s db company ticker := by
  obtain ⟨hv, g, order, hg, -, -, rfl⟩ := (compile_eq_ok ..).mp hq
  obtain ⟨⟨⟩, hvalid, -⟩ := bind_eq_ok.mp hv
  obtain ⟨rows, hrows⟩ := ha
  exact matchedBy_iff hdb (.of_validate hvalid) hg hrows

theorem matchedBy_iff_matches (hdb : db.IsSound) {query : Query α} {q : CompiledQuery α}
    (hq : compile s query = .ok q)
    (ha : ∃ rows, db.store s.tables q.unlimited.statement = .ok rows)
    (hf : IsAnswered s (db.store s.tables) query.filter) :
    MatchedBy (db.store s.tables) s.historyLength q ticker ↔
      Matches s (db.store s.tables) query.filter ticker := by
  obtain ⟨hv, -⟩ := (compile_eq_ok ..).mp hq
  obtain ⟨⟨⟩, hvalid, -⟩ := bind_eq_ok.mp hv
  rw [matchedBy_iff_fits hdb hq ha, matches_iff hdb (.of_validate hvalid) hf]

/-- Screening is a Boolean algebra of filters as far as three truth values allow, although a filter
is decided in part by the selection and in part by the resolution of derived conditions. On a
database whose queries do not fail an accepted conjunction matches the companies that both of its
members match, accepted alternatives match those that either matches, nothing is matched by a filter
and its accepted negation, and a double negation matches what its filter does. What an accepted
query matches does not depend on what else it joins or sorts by. -/
theorem matches_connectives (s : Settings) (db : Database α) (hdb : db.IsSound) (F G : Filter α) :
    (validate s.maxWindowLength (.group .and [F, G]) = .ok () →
      (Quantity.IsOrdered α → validate s.maxWindowLength F = .ok () ∧
        validate s.maxWindowLength G = .ok ()) ∧
      ((∀ f ∈ [F, G, .group .and [F, G]], IsAnswered s (db.store s.tables) f) →
        ∀ ticker, Matches s (db.store s.tables) (.group .and [F, G]) ticker ↔
          Matches s (db.store s.tables) F ticker ∧ Matches s (db.store s.tables) G ticker)) ∧
    (validate s.maxWindowLength (.group .or [F, G]) = .ok () →
      (validate s.maxWindowLength F = .ok () ∧ validate s.maxWindowLength G = .ok ()) ∧
      ((∀ f ∈ [F, G, .group .or [F, G]], IsAnswered s (db.store s.tables) f) →
        ∀ ticker, Matches s (db.store s.tables) (.group .or [F, G]) ticker ↔
          Matches s (db.store s.tables) F ticker ∨ Matches s (db.store s.tables) G ticker)) ∧
    (validate s.maxWindowLength (.not F) = .ok () →
      (validate s.maxWindowLength F = .ok () ∧
        validate s.maxWindowLength (.not (.not F)) = .ok ()) ∧
      ((∀ f ∈ [F, .not F, .not (.not F)], IsAnswered s (db.store s.tables) f) → ∀ ticker,
        ¬ (Matches s (db.store s.tables) F ticker ∧ Matches s (db.store s.tables) (.not F) ticker) ∧
        (Matches s (db.store s.tables) (.not (.not F)) ticker ↔
          Matches s (db.store s.tables) F ticker))) ∧
    (∀ (query : Query α) (q : CompiledQuery α), compile s query = .ok q → query.filter = F →
      (∃ rows, db.store s.tables q.unlimited.statement = .ok rows) →
      IsAnswered s (db.store s.tables) F → ∀ ticker,
        MatchedBy (db.store s.tables) s.historyLength q ticker ↔
          Matches s (db.store s.tables) F ticker) := by
  refine ⟨fun h => ⟨fun _ => ?andValid, fun ha ticker => ?and⟩,
    fun h => ⟨?orValid, fun ha ticker => ?or⟩, fun h => ⟨validate_of_not h, fun ha ticker => ?not⟩,
    ?query⟩
  case andValid =>
    have hall := validate_of_and h
    exact ⟨hall F (by simp), hall G (by simp)⟩
  case and =>
    exact matches_and hdb h (ha F (by simp)) (ha G (by simp)) (ha _ (by simp))
  case orValid => exact ⟨validate_of_or h (by simp), validate_of_or h (by simp)⟩
  case or => exact matches_or hdb h (ha F (by simp)) (ha G (by simp)) (ha _ (by simp))
  case not =>
    exact ⟨not_matches_not hdb h (ha F (by simp)) (ha _ (by simp)),
      matches_not_not hdb h (ha F (by simp)) (ha _ (by simp))⟩
  case query =>
    rintro query q hq rfl hanswered hf ticker
    exact matchedBy_iff_matches hdb hq hanswered hf

def companyRow (ticker sector : String) : Row ℚ :=
  [(tickerColumn, .text ticker), ("name", .text ticker), ("sector", .text sector),
   ("industry", .null), ("exchange", .null), ("market_cap", .null)]

def companiesAlone : Database ℚ :=
  Table.all.map fun t => ⟨Settings.default.tables.physical t, Schema.columns t,
    if t = .companies then [companyRow "A" "Energy", companyRow "B" "Retail"] else []⟩

theorem isSound_companiesAlone : companiesAlone.IsSound := by
  refine List.forall_mem_map.mpr fun t _ => ?_
  cases t with
  | quarterly | annual | ownership | cashFlows => exact .empty _ _
  | companies =>
    exact
      { columns := ⟨.companies, rfl⟩
        shaped := List.forall_mem_cons.mpr ⟨⟨companyRow "A" "Energy", by decide +kernel⟩,
          List.forall_mem_singleton.mpr ⟨companyRow "B" "Retail", by decide +kernel⟩⟩
        complete := by decide +kernel
        keys := by decide +kernel }

def inEnergy : Filter ℚ :=
  .leaf ⟨"sector", "=", some (.text "Energy"), none, none, none, none⟩

/-- A filter that is resolved for each candidate, and met where earnings are unknown. -/
def cheapGrowth : Filter ℚ :=
  .leaf ⟨"peg_ratio", "<", some (.int 1), none, none, none, "ignore"⟩

theorem matches_connectives_companiesAlone :
    let store := companiesAlone.store Settings.default.tables
    Matches Settings.default store (.group .and [inEnergy, cheapGrowth]) "A" ∧
      ¬ Matches Settings.default store (.group .and [inEnergy, cheapGrowth]) "B" := by
  intro store
  have hsound := isSound_companiesAlone
  have hrows : companiesAlone.rows (Settings.default.tables.physical .companies) =
      [companyRow "A" "Energy", companyRow "B" "Retail"] := by
    decide +kernel
  have hanswered : ∀ f, IsAnswered Settings.default store f :=
    isAnswered_of_hasSchema (hasSchema_map areDistinct_default _)
  obtain ⟨hand, -⟩ :=
    matches_connectives Settings.default companiesAlone hsound inEnergy cheapGrowth
  have hboth := (hand rfl).2 fun f _ => hanswered f
  have hf (ticker : String) : Matches Settings.default store inEnergy ticker ↔ _ :=
    matches_iff hsound (IsWellFormed.of_validate rfl) (hanswered _)
  have hg (ticker : String) : Matches Settings.default store cheapGrowth ticker ↔ _ :=
    matches_iff hsound (IsWellFormed.of_validate rfl) (hanswered _)
  rw [hboth, hboth, hf, hf, hg, hrows]
  refine ⟨⟨⟨_, .head _, rfl, ?sector⟩, ⟨_, .head _, rfl, ?growth⟩⟩, ?other⟩
  case sector =>
    refine ⟨by decide +kernel, ?_⟩
    rintro c (_ | ⟨_, ⟨⟩⟩) ⟨⟩
  case growth =>
    refine ⟨by decide +kernel, ?_⟩
    rintro c (_ | ⟨_, ⟨⟩⟩) - d ⟨⟩
    exact .inr ⟨⟨.peg, .noFacts "A"⟩, by decide +kernel, rfl⟩
  case other =>
    rintro ⟨⟨company, hmem, ht, hfits⟩, -⟩
    obtain rfl | hmem := List.mem_cons.mp hmem
    · exact absurd ht (by decide)
    · obtain rfl := List.mem_singleton.mp hmem
      exact absurd hfits.truth (by decide +kernel)

end Screen

end EquityScreen
