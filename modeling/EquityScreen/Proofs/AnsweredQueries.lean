import EquityScreen.Proofs.JoinedRows
import EquityScreen.Proofs.ResolvedNames

namespace EquityScreen

open Compilation

namespace ColumnUse

def IsCreated (u : ColumnUse) : Prop := u.column ∈ (Schema.columns u.table).map (·.name)

variable {maxLength : Nat}

theorem field_isCreated {f : Field} (hf : f ∈ catalog) : (field f).IsCreated :=
  column_mem_columns f hf

theorem trailing_isCreated {w : Trailing} (hc : w.column ∈ periodicColumns) :
    ∀ u ∈ trailing w, u.IsCreated := by
  simp only [trailing, List.forall_mem_map, List.forall_mem_cons, List.not_mem_nil,
    false_implies, implies_true, and_true]
  exact ⟨ticker_mem_columns _, period_mem_columns w.unit, mem_columns_of_periodic w.unit _ hc⟩

theorem operand_isCreated {x : Operand} (hx : x ∈ Operand.upTo maxLength) :
    ∀ u ∈ operand x, u.IsCreated := by
  cases x with
  | column f =>
    exact List.forall_mem_singleton.mpr (field_isCreated (Operand.column_mem_upTo.mp hx))
  | orAnnual f =>
    obtain ⟨hf, hp⟩ := Operand.orAnnual_mem_upTo.mp hx
    exact List.forall_mem_cons.mpr
      ⟨field_isCreated hf, trailing_isCreated (mem_periodicColumns hf hp)⟩
  | aggregate a w =>
    exact trailing_isCreated (Trailing.mem_upTo.mp (Operand.aggregate_mem_upTo.mp hx)).1

theorem predicates_eq_flatMap (ps : List Predicate) : predicates ps = ps.flatMap predicate := by
  induction ps with
  | nil => rfl
  | cons p rest ih => rw [predicates, ih, List.flatMap_cons]

theorem predicate_isCreated {p : Predicate} (hp : p.IsProper maxLength) :
    ∀ u ∈ predicate p, u.IsCreated := by
  induction p using Predicate.induction with
  | compare x op n => exact operand_isCreated hp
  | between x low high => exact operand_isCreated hp
  | inside x low high => exact operand_isCreated hp
  | present f p ih => exact List.forall_mem_cons.mpr ⟨field_isCreated hp.1, ih hp.2⟩
  | missingOr f p ih => exact List.forall_mem_cons.mpr ⟨field_isCreated hp.1, ih hp.2⟩
  | trend t w => exact trailing_isCreated (Trailing.mem_upTo.mp hp).1
  | group c ps ih =>
    intro u hu
    rw [predicate, predicates_eq_flatMap] at hu
    obtain ⟨p, hmem, hu⟩ := List.mem_flatMap.mp hu
    exact ih p hmem ((Predicate.isProper_group.mp hp).2 p hmem) u hu
  | not p ih => exact ih hp

variable {α : Type}

theorem selection_isCreated [Quantity α] {s : Settings} {q : Query α} {g : Fragment α}
    {order : List OrderKey}
    (hg : compileNode s.maxWindowLength 1 true q.filter = .ok g)
    (ho : orderOf (α := α) q.sort = .ok order) :
    ∀ u ∈ selection (selectionOf s q g order), u.IsCreated := by
  simp only [selection, List.forall_mem_append, List.forall_mem_map]
  refine ⟨⟨⟨⟨?base, ?shown⟩, ?joins⟩, ?condition⟩, ?order⟩
  case base =>
    exact List.forall_mem_cons.mpr ⟨ticker_mem_columns .companies, Selection.base_mem_columns⟩
  case shown =>
    exact fun f hf => field_isCreated (field_mem_of_referenced (List.mem_filter.mp hf).1)
  case joins =>
    intro u hu
    obtain ⟨source, -, hu⟩ := List.mem_flatMap.mp hu
    cases source with
    | company | ownership =>
      obtain rfl := List.mem_singleton.mp hu
      exact ticker_mem_columns _
    | fundamentals =>
      obtain ⟨column, hcolumn, rfl⟩ := List.mem_map.mp hu
      obtain rfl | hcolumn := List.mem_cons.mp hcolumn
      · exact ticker_mem_columns _
      · obtain rfl := List.mem_singleton.mp hcolumn
        exact period_mem_columns .quarters
  case condition =>
    change ∀ u ∈ (g.predicate.map predicate).getD [], u.IsCreated
    cases hp : g.predicate with
    | none => simp
    | some p => exact predicate_isCreated (compileNode_isProper hg p hp)
  case order =>
    change ∀ k ∈ orderOrTicker order, _
    cases order with
    | nil => exact List.forall_mem_singleton.mpr (ticker_mem_columns .companies)
    | cons first rest =>
      intro k hk
      obtain ⟨key, -, f, hf, hsource, hcolumn⟩ := exists_of_orderOf ho k hk
      rw [hsource, hcolumn]
      exact field_isCreated (field?_mem hf)

theorem statement_isCreated {t : Table} {st : Statement α} (h : st.IsOf t) :
    ∀ u ∈ statement st, u.IsCreated := by
  cases st with
  | candidates s params => exact h.elim
  | facts unit columns ticker length =>
    simp only [statement, List.forall_mem_map, List.forall_mem_cons]
    exact ⟨ticker_mem_columns _, period_mem_columns unit, h.2⟩
  | cashFlows ticker length =>
    have hall : ∀ column ∈ [tickerColumn, periodColumn .cashFlows, Statement.cashFlowColumn],
        column ∈ (Schema.columns .cashFlows).map (·.name) := by decide
    exact List.forall_mem_map.mpr hall

end ColumnUse

namespace Database

variable {α : Type} {names : TableNames} {db db' : Database α}

/-- Every table is there under its physical name, with the columns of the schema. -/
def HasSchema (names : TableNames) (db : Database α) : Prop :=
  ∀ t : Table, ∃ r, db.relation? (names.physical t) = some r ∧ r.columns = Schema.columns t

namespace HasSchema

theorem resolves (h : db.HasSchema names) {u : ColumnUse} (hu : u.IsCreated) :
    db.resolves names u = true := by
  obtain ⟨r, hr, hcolumns⟩ := h u.table
  obtain ⟨c, hc, hname⟩ := List.mem_map.mp hu
  have hsame : sameName c.name u.column = true := by simp [sameName, hname]
  simp only [Database.resolves, hr, Relation.column?, hcolumns, List.find?_isSome]
  exact ⟨c, hc, hsame⟩

variable [Quantity α]

theorem answers (h : db.HasSchema names) {st : Statement α}
    (hu : ∀ u ∈ ColumnUse.statement st, u.IsCreated) : ∃ rows, db.store names st = .ok rows :=
  ⟨_, store_eq_ok.mpr ⟨fun u hmem => h.resolves (hu u hmem), rfl⟩⟩

/-- The query of an accepted request is answered. -/
theorem answers_compiled (h : db.HasSchema names) {s : Settings} {query : Query α}
    {q : CompiledQuery α} (hq : compile s query = .ok q) :
    ∃ rows, db.store names q.statement = .ok rows := by
  obtain ⟨-, g, order, hg, ho, -, rfl⟩ := (compile_eq_ok ..).mp hq
  exact h.answers (ColumnUse.selection_isCreated hg ho)

theorem answers_asked (h : db.HasSchema names) (historyLength : Nat)
    (cs : List (CompiledCondition α)) (candidates : List (Row α)) :
    ∀ st ∈ (Resolution.resolve (db.store names) historyLength cs candidates).asked,
      ∃ rows, db.store names st = .ok rows := by
  intro st hst
  obtain ⟨t, ht⟩ := Resolution.resolve_asksOnly cs candidates st hst
  exact h.answers (ColumnUse.statement_isCreated ht)

end HasSchema

theorem createAll_eq (hfree : ∀ t, isFreeName (names.physical t) = true)
    (hd : names.AreDistinct) {ts : List Table} (hts : ts.Nodup)
    (hnew : ∀ t ∈ ts, db.relation? (names.physical t) = none) :
    createAll names db ts =
      (db ++ ts.map fun t => ⟨names.physical t, Schema.columns t, []⟩, .ok ()) := by
  induction ts generalizing db with
  | nil => simp [createAll]
  | cons t rest ih =>
    obtain ⟨ht, hrest⟩ := List.nodup_cons.mp hts
    obtain ⟨hfirst, hothers⟩ := List.forall_mem_cons.mp hnew
    have hcreate : db.create (names.physical t) (Schema.columns t) =
        .ok (db ++ [⟨names.physical t, Schema.columns t, []⟩]) := by
      simp [Database.create, hfree, hfirst]
    have hstill : ∀ t' ∈ rest, Database.relation?
        (db ++ [⟨names.physical t, Schema.columns t, []⟩]) (names.physical t') = none := by
      intro t' ht'
      have hother : sameName (names.physical t) (names.physical t') = false := by
        by_contra hsame
        obtain rfl := hd t t' (by simpa using hsame)
        exact ht ht'
      have hnone := hothers t' ht'
      rw [Database.relation?] at hnone ⊢
      simp [List.find?_append, hnone, hother]
    simp [createAll, hcreate, ih hrest hstill]

theorem relation?_physical (hd : names.AreDistinct) (rows : Table → List (Row α)) (t : Table) :
    Database.relation? (Table.all.map fun t => ⟨names.physical t, Schema.columns t, rows t⟩)
      (names.physical t) = some ⟨names.physical t, Schema.columns t, rows t⟩ := by
  have hall : t ∈ Table.all := by cases t <;> decide
  cases hf : Table.all.find? fun t' => sameName (names.physical t') (names.physical t) with
  | none =>
    have hself := List.find?_eq_none.mp hf t hall
    simp [sameName] at hself
  | some t' =>
    obtain rfl := hd t' t (by simpa using List.find?_some hf)
    rw [Database.relation?, List.find?_map]
    exact congrArg (Option.map _) hf

theorem hasSchema_map (hd : names.AreDistinct) (rows : Table → List (Row α)) :
    HasSchema names (Table.all.map fun t => ⟨names.physical t, Schema.columns t, rows t⟩) :=
  fun t => ⟨_, relation?_physical hd rows t, rfl⟩

theorem hasSchema_createSchema (hfree : ∀ t, isFreeName (names.physical t) = true)
    (hd : names.AreDistinct) :
    HasSchema names (Database.createSchema names ([] : Database α)).1 := by
  have hnone : ∀ t ∈ Table.all, Database.relation? ([] : Database α) (names.physical t) = none :=
    fun _ _ => rfl
  rw [Database.createSchema, createAll_eq hfree hd (by decide) hnone]
  exact hasSchema_map hd fun _ => []

theorem relation?_map {g : Relation α → Relation α}
    (hg : ∀ r, Text.foldAscii (g r).name = Text.foldAscii r.name) (name : String) :
    Database.relation? (db.map g) name = (db.relation? name).map g := by
  have hsame : (fun r : Relation α => sameName r.name name) ∘ g =
      fun r => sameName r.name name := by
    funext r
    simp [sameName, hg r]
  rw [Database.relation?, List.find?_map, hsame]
  rfl

theorem HasSchema.update (h : db.HasSchema names) {name : String}
    {f : Relation α → Except DatabaseError (Relation α)}
    (hf : ∀ r r', f r = .ok r' → r'.name = r.name ∧ r'.columns = r.columns)
    (hu : db.update name f = .ok db') : db'.HasSchema names := by
  unfold Database.update at hu
  split at hu
  · cases hu
  · next r hr =>
    obtain ⟨new, hnew, rfl⟩ := map_eq_ok.mp hu
    obtain ⟨hname, hcolumns⟩ := hf r new hnew
    have hfound : Text.foldAscii r.name = Text.foldAscii name := by
      simpa [sameName] using List.find?_some hr
    intro t
    obtain ⟨old, hold, ht⟩ := h t
    refine ⟨_, (relation?_map (fun old => ?kept) _).trans (congrArg _ hold), ?columns⟩
    case kept =>
      split
      · next hsame => rw [hname, hfound, of_decide_eq_true hsame]
      · rfl
    case columns =>
      dsimp only
      split
      · next hsame =>
        -- both names are the name of `old`, so that `old` is the relation that was changed
        have hphysical : Text.foldAscii old.name = Text.foldAscii (names.physical t) := by
          simpa [sameName] using List.find?_some hold
        have hboth : db.relation? (names.physical t) = db.relation? name := by
          simp only [Database.relation?, sameName, ← hphysical, of_decide_eq_true hsame]
        rw [hboth, hr] at hold
        rw [hcolumns, Option.some.inj hold, ht]
      · exact ht

theorem HasSchema.insert [Quantity α] (h : db.HasSchema names) {name : String} {row : Row α}
    (hi : db.insert name row = .ok db') : db'.HasSchema names := by
  refine h.update (fun r r' hr => ?_) hi
  unfold Relation.insert at hr
  split at hr
  · cases hr
  · dsimp only at hr
    split at hr
    · cases hr
    · split at hr
      · cases hr
      · obtain rfl := Except.ok.inj hr
        exact ⟨rfl, rfl⟩

theorem HasSchema.clear (h : db.HasSchema names) {name : String}
    (hc : db.clear name = .ok db') : db'.HasSchema names := by
  refine h.update (fun r r' hr => ?_) hc
  obtain rfl := Except.ok.inj hr
  exact ⟨rfl, rfl⟩

def filled [Quantity α] (names : TableNames) (given : Table → List (Row α)) : Database α :=
  Table.all.map fun t =>
    let r : Relation α := ⟨names.physical t, Schema.columns t, []⟩
    { r with rows := (given t).map r.shape }

theorem rows_filled [Quantity α] (hd : names.AreDistinct) (given : Table → List (Row α))
    (t : Table) : (filled names given).rows (names.physical t) =
      (given t).map (Relation.shape ⟨names.physical t, Schema.columns t, []⟩) := by
  have hfound := relation?_physical hd
    (fun t => (given t).map (Relation.shape ⟨names.physical t, Schema.columns t, []⟩)) t
  exact rows_eq hfound

theorem hasSchema_filled [Quantity α] (hd : names.AreDistinct) (given : Table → List (Row α)) :
    HasSchema names (filled names given) :=
  hasSchema_map hd _

theorem isSound_filled [Quantity α] {given : Table → List (Row α)}
    (h : ∀ r ∈ filled names given,
      (∀ row ∈ r.rows, ∀ c ∈ r.columns, c.required = true → (Row.get row c.name).isNull = false) ∧
        r.rows.Pairwise fun a b => r.sameKey b a = false) : (filled names given).IsSound := by
  intro r hr
  obtain ⟨hcomplete, hkeys⟩ := h r hr
  obtain ⟨t, -, rfl⟩ := List.mem_map.mp hr
  refine ⟨⟨t, rfl⟩, fun row hrow => ?_, hcomplete, hkeys⟩
  obtain ⟨given, -, rfl⟩ := List.mem_map.mp hrow
  exact ⟨given, rfl⟩

end Database

end EquityScreen
