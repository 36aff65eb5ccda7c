import EquityScreen.Proofs.FactNames
import EquityScreen.Proofs.OutputNames
import EquityScreen.Proofs.ValidatedQuery

namespace EquityScreen

open Sql

namespace Compilation

variable {α : Type}

theorem mem_referenced_of_condition {q : Query α} {c : Condition α} (hc : c ∈ q.filter.conditions)
    (hdirect : c.isDirect = true) {f : Field} (hf : field? c.fieldName = some f) :
    f ∈ referenced q := by
  rw [referenced, List.mem_eraseDups, List.mem_filterMap]
  refine ⟨c.fieldName, List.mem_append_left _ (List.mem_map.mpr ⟨c, ?_, rfl⟩), hf⟩
  exact List.mem_filter.mpr ⟨hc, hdirect⟩

theorem mem_referenced_of_sortKey {q : Query α} {k : SortKey} (hk : k ∈ q.sort) {f : Field}
    (hf : field? k.field = some f) : f ∈ referenced q := by
  rw [referenced, List.mem_eraseDups, List.mem_filterMap]
  exact ⟨k.field, List.mem_append_right _ (List.mem_map.mpr ⟨k, hk, rfl⟩), hf⟩

theorem joinsOf_sublist (fields : List Field) :
    (joinsOf fields).Sublist [.fundamentals, .ownership] := List.filter_sublist

theorem source_mem_joinsOf {fields : List Field} {f : Field} (hf : f ∈ fields) :
    f.source ∈ Source.company :: joinsOf fields := by
  have hany (s : Source) (hs : f.source = s) : fields.any (fun f => f.source = s) = true :=
    List.any_eq_true.mpr ⟨f, hf, decide_eq_true hs⟩
  cases hs : f.source with
  | company => exact List.mem_cons_self
  | fundamentals => simp [joinsOf, hany _ hs]
  | ownership => simp [joinsOf, hany _ hs]

theorem exists_of_orderOf {keys : List SortKey} {order : List OrderKey}
    (h : orderOf (α := α) keys = .ok order) : ∀ k ∈ order, ∃ key ∈ keys, ∃ f,
      field? key.field = some f ∧ k.source = f.source ∧ k.column = f.column := by
  induction keys generalizing order with
  | nil =>
    cases h
    simp
  | cons key rest ih =>
    unfold orderOf at h
    cases hf : field? key.field with
    | none => simp [hf] at h
    | some f =>
      simp only [hf, map_eq_ok] at h
      obtain ⟨others, ho, rfl⟩ := h
      refine List.forall_mem_cons.mpr ⟨⟨key, by simp, f, hf, rfl, rfl⟩, fun k hk => ?_⟩
      obtain ⟨key', hkey, hrest⟩ := ih ho k hk
      exact ⟨key', List.mem_cons_of_mem _ hkey, hrest⟩

theorem nodup_eraseDups (fs : List Field) : fs.eraseDups.Nodup := by
  cases fs with
  | nil => simp
  | cons f rest =>
    rw [List.eraseDups_cons, List.nodup_cons]
    exact ⟨by simp [List.mem_eraseDups], nodup_eraseDups (rest.filter fun g => !g == f)⟩
termination_by fs.length
decreasing_by exact Nat.lt_succ_of_le (List.length_filter_le ..)

theorem name_injective : ∀ f ∈ catalog, ∀ g ∈ catalog, f.name = g.name → f = g := by
  decide +kernel

/-- A selection shows no field twice, and none under the name of a base column. -/
theorem nodup_outputs (s : Settings) (q : Query α) (g : Fragment α) (order : List OrderKey) :
    (baseColumns ++ (selectionOf s q g order).shown.map (·.name)).Nodup := by
  have hbase : baseColumns.Nodup := by decide
  have hcatalog : ∀ f ∈ (selectionOf s q g order).shown, f ∈ catalog := fun f hf =>
    field_mem_of_referenced (List.mem_filter.mp hf).1
  have hshown : ((selectionOf s q g order).shown.map (·.name)).Nodup :=
    ((nodup_eraseDups _).filter _).map_on fun f hf g hg =>
      name_injective f (hcatalog f hf) g (hcatalog g hg)
  refine hbase.append hshown fun name hb hs => ?_
  obtain ⟨f, hf, rfl⟩ := List.mem_map.mp hs
  have hnot := (List.mem_filter.mp hf).2
  rw [List.contains_iff_mem.mpr hb] at hnot
  cases hnot

variable [Quantity α]

theorem hasSource_of_accepted {maxLength : Nat} {q : Query α}
    (h : ∀ c ∈ q.filter.conditions, Validation.Accepted maxLength c) :
    ∀ c ∈ q.filter.conditions, HasSource (.company :: joinsOf (referenced q)) c := by
  refine fun c hc => ⟨fun hr => ?_, fun hdirect f hf =>
    source_mem_joinsOf (mem_referenced_of_condition hc hdirect hf)⟩
  obtain ⟨_, _, -, -, ht⟩ | ⟨_, -, ht⟩ | ⟨_, _, hnone, -⟩ :=
    Validation.shape_of_checkShape (h c hc).shape
  · exact ht
  · exact ht
  · simp [hnone] at hr

theorem isWithin_selectionOf {s : Settings} (hs : s.validate = .ok ())
    (hd : s.tables.AreDistinct) {q : Query α} (hv : Validation.validateQuery s q = .ok ())
    {g : Fragment α} {order : List OrderKey}
    (hg : compileNode s.maxWindowLength 1 true q.filter = .ok g)
    (ho : orderOf (α := α) q.sort = .ok order) :
    (selectionOf s q g order).IsWithin s.tables (.company :: joinsOf (referenced q)) := by
  have hn := Settings.isPlain_of_validate hs
  have hc : Source.company ∈ Source.company :: joinsOf (referenced q) := List.mem_cons_self
  constructor
  case shown =>
    intro f hf
    have hf := (List.mem_filter.mp hf).1
    exact ⟨field_mem_of_referenced hf, source_mem_joinsOf hf⟩
  case joins => exact fun j hj => List.mem_cons_of_mem _ hj
  case condition =>
    intro p hp
    have hvalid : Validation.validate s.maxWindowLength q.filter = .ok () := by
      obtain ⟨⟨⟩, hvalid, -⟩ := bind_eq_ok.mp hv
      exact hvalid
    have haccepted := (Validation.accepted_of_violations (Validation.validate_eq_ok.mp hvalid)).1
    rw [Predicate.tokens_text hn (compileNode_isProper hg p hp)]
    exact compileNode_speaks hn hd hc hg (hasSource_of_accepted haccepted) p hp
  case order =>
    intro k hk
    change k ∈ orderOrTicker order at hk
    cases order with
    | nil =>
      obtain rfl := List.mem_singleton.mp hk
      exact Selection.speaks_base hc (by decide)
    | cons first rest =>
      obtain ⟨key, hkey, f, hf, hsource, hcolumn⟩ := exists_of_orderOf ho k hk
      rw [hsource, hcolumn]
      exact Selection.speaks_columnText (field?_mem hf)
        (source_mem_joinsOf (mem_referenced_of_sortKey hkey hf))

/-- Every name in the queries of an accepted request resolves. In the text of its selection each
mentioned column is one that the schema creates in the table that its alias stands for, where the
aliases are those of the company, of quarters and ownership if they are joined, each at most once,
and the ones that a subquery gives to its own table. The columns that it yields have different
names. Each query by which derived conditions are resolved reads a single table of the schema and
columns of that table. -/
theorem names_resolve (s : Settings) (query : Query α) (q : CompiledQuery α)
    (hs : s.validate = .ok ()) (hd : s.tables.AreDistinct) (hq : compile s query = .ok q) :
    resolve? (createdColumns s.tables) (q.text s.tables) =
      some (Selection.tablesOf s.tables (.company :: q.selection.joins)) ∧
    q.selection.joins.Sublist [.fundamentals, .ownership] ∧
    (outputNames (q.text s.tables)).Nodup ∧
    (∀ c : Candidate α, (Database.shownRow q.selection c).map (·.1) =
      outputNames (q.text s.tables)) ∧
    ∀ (store : Store α) (historyLength : Nat) (candidates : List (Row α)),
      ∀ st ∈ (Resolution.resolve store historyLength q.derived candidates).asked, ∃ t : Table,
        flatTable? (createdColumns s.tables) (st.text s.tables) = some (s.tables.physical t) := by
  have hn := Settings.isPlain_of_validate hs
  obtain ⟨hv, g, order, hg, ho, -, rfl⟩ := (compile_eq_ok ..).mp hq
  have hjoins : (joinsOf (referenced query)).Sublist [.fundamentals, .ownership] :=
    joinsOf_sublist _
  have hnodup : (Source.company :: joinsOf (referenced query)).Nodup :=
    (hjoins.cons_cons Source.company).nodup (by decide)
  have hwithin := isWithin_selectionOf hs hd hv hg ho
  have hresolve := Selection.resolve?_text (s := selectionOf s query g order) hd hn hnodup hwithin
  have hnames : outputNames ((selectionOf s query g order).text s.tables) =
      baseColumns ++ (selectionOf s query g order).shown.map (·.name) :=
    Selection.outputNames_text fun f hf => (hwithin.shown f hf).1
  refine ⟨hresolve, hjoins, ?_, fun c => ?_, ?_⟩
  · exact hnames ▸ nodup_outputs s query g order
  · exact (Selection.names_shownRow _ c).trans hnames.symm
  · intro store historyLength candidates st hst
    obtain ⟨t, ht⟩ := Resolution.resolve_asksOnly g.derived candidates st hst
    exact ⟨t, Statement.flatTable?_text hd hn ht⟩

theorem areDistinct_default : Settings.default.tables.AreDistinct := by
  have hall (t : Table) : t ∈ Table.all := by cases t <;> decide
  have hkeys : ∀ t ∈ Table.all, ∀ t' ∈ Table.all, Database.sameName
      (Settings.default.tables.physical t) (Settings.default.tables.physical t') = true →
        t = t' := by
    decide +kernel
  exact fun t t' => hkeys t (hall t) t' (hall t')

def joinedQuery : Query Float :=
  { filter := .group .and
      [.leaf ⟨"eps", ">", some (.int 1), none, none, none, "fallback"⟩,
       .group .or
        [.leaf ⟨"promoter_holding", ">", some (.int 50), none, none, none, none⟩,
         .leaf ⟨"revenue", none, none, none, some ⟨some "quarters", some (.int 4), none⟩,
          some "increasing", none⟩]]
    sort := []
    limit := none }

theorem names_resolve_joinedQuery : ∃ q, compile Settings.default joinedQuery = .ok q ∧
    resolve? (createdColumns []) (q.text []) = some [("c", "companies"),
      ("f", "fundamentals_quarterly"), ("o", "ownership")] := by
  have hs : Settings.default.validate = .ok () := by decide
  have ha : joinedQuery.IsAddressable := by
    have htwo : (joinedQuery.filter.conditions.flatMap Condition.bindings).length = 2 := rfl
    unfold Query.IsAddressable
    rw [htwo]
    decide
  have hq : compile Settings.default joinedQuery = .ok _ :=
    compile_eq_queryOf hs ha rfl rfl rfl
  exact ⟨_, hq, (names_resolve Settings.default joinedQuery _ hs areDistinct_default hq).1⟩

end Compilation

end EquityScreen
