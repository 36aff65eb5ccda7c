import EquityScreen.Proofs.SelectionPlaceholders
import EquityScreen.Proofs.ValidatedTree

namespace EquityScreen

open Compilation Validation Placeholder

variable {α : Type} [Quantity α]

/-- The parameters of a query are a list in memory, whose length fits into a machine word. -/
def Query.IsAddressable (q : Query α) : Prop :=
  (q.filter.conditions.flatMap Condition.bindings).length ≤ maxNumber

namespace Compilation

omit [Quantity α] in
theorem field_mem_of_referenced {q : Query α} {f : Field} (h : f ∈ referenced q) : f ∈ catalog := by
  rw [referenced, List.mem_eraseDups, List.mem_filterMap] at h
  obtain ⟨name, -, hf⟩ := h
  exact field?_mem hf

omit [Quantity α] in
theorem column_of_orderOf {keys : List SortKey} {order : List OrderKey}
    (h : orderOf (α := α) keys = .ok order) : ∀ k ∈ order, ∃ f ∈ catalog, k.column = f.column := by
  induction keys generalizing order with
  | nil =>
    cases h
    simp
  | cons key rest ih =>
    unfold orderOf at h
    cases hf : field? key.field with
    | none => simp [hf] at h
    | some f =>
      simp only [hf, map_eq_ok] at h
      obtain ⟨others, ho, rfl⟩ := h
      exact List.forall_mem_cons.mpr ⟨⟨f, field?_mem hf, rfl⟩, ih ho⟩

theorem checkPlaceholders_selectionOf {s : Settings} (hs : s.validate = .ok ()) {q : Query α}
    (hq : q.IsAddressable) {g : Fragment α} {order : List OrderKey}
    (hg : compileNode s.maxWindowLength 1 true q.filter = .ok g)
    (ho : orderOf (α := α) q.sort = .ok order) :
    checkPlaceholders (α := α) ((selectionOf s q g order).text s.tables) g.params.length =
      .ok () := by
  have ha := compileNode_accounts hg
  have hn := Settings.isPlain_of_validate hs
  have hshown : ∀ f ∈ (selectionOf s q g order).shown, f ∈ catalog := fun f hf =>
    field_mem_of_referenced (List.mem_filter.mp hf).1
  have horder : ∀ k ∈ (selectionOf s q g order).order, IsSilent k.column := by
    intro k hk
    change k ∈ orderOrTicker order at hk
    cases order with
    | nil =>
      obtain rfl := List.mem_singleton.mp hk
      decide
    | cons first rest =>
      obtain ⟨f, hf, hc⟩ := column_of_orderOf ho k hk
      exact hc ▸ isSilent_column f hf
  refine checkPlaceholders_eq_ok (ha.params ▸ hq) ?_
  rw [Selection.ofText_text hn hshown horder]
  exact ofText_fragment hn hg

omit [Quantity α] in
theorem checkSortKey_eq_ok {key : SortKey} (h : checkSortKey (α := α) key = .ok ()) :
    ∃ f, field? key.field = some f := by
  unfold checkSortKey at h
  split at h
  · cases h
  · split at h
    · cases h
    · next hf => exact Option.ne_none_iff_exists'.mp (by simpa using hf)

omit [Quantity α] in
theorem orderOf_total {keys : List SortKey} (h : keys.forM (checkSortKey (α := α)) = .ok ()) :
    ∃ order, orderOf (α := α) keys = .ok order := by
  induction keys with
  | nil => exact ⟨[], rfl⟩
  | cons key rest ih =>
    change checkSortKey key >>= (fun _ => rest.forM checkSortKey) = .ok () at h
    obtain ⟨⟨⟩, hkey, hrest⟩ := bind_eq_ok.mp h
    obtain ⟨f, hf⟩ := checkSortKey_eq_ok hkey
    obtain ⟨order, ho⟩ := ih hrest
    exact ⟨_, by rw [orderOf, hf]; exact map_eq_ok.mpr ⟨order, ho, rfl⟩⟩

theorem compile_total {s : Settings} (hs : s.validate = .ok ()) {q : Query α}
    (hq : q.IsAddressable) (h : validateQuery s q = .ok ()) : ∃ c, compile s q = .ok c := by
  obtain ⟨⟨⟩, hfilter, ⟨⟩, -, hsort⟩ : ∃ _, validate s.maxWindowLength q.filter = .ok () ∧
      ∃ _, checkLimit s.maxLimit q.limit = .ok () ∧
        q.sort.forM (checkSortKey (α := α)) = .ok () := by
    simpa only [validateQuery, bind_eq_ok] using h
  obtain ⟨g, hg⟩ := compileNode_total_of_validate hfilter 1
  obtain ⟨order, ho⟩ := orderOf_total hsort
  exact ⟨_, (compile_eq_ok ..).mpr ⟨h, g, order, hg, ho,
    checkPlaceholders_selectionOf hs hq hg ho, rfl⟩⟩

theorem compile_eq_queryOf {s : Settings} (hs : s.validate = .ok ()) {q : Query α}
    (hq : q.IsAddressable) (h : validateQuery s q = .ok ()) {g : Fragment α}
    {order : List OrderKey} (hg : compileNode s.maxWindowLength 1 true q.filter = .ok g)
    (ho : orderOf (α := α) q.sort = .ok order) : compile s q = .ok (queryOf s q g order) :=
  (compile_eq_ok ..).mpr ⟨h, g, order, hg, ho, checkPlaceholders_selectionOf hs hq hg ho, rfl⟩

/-- Queries compile exactly if they are valid, and report the same violation if they are not. -/
theorem compile_agrees_with_validation (s : Settings) (q : Query α) (hs : s.validate = .ok ())
    (hq : q.IsAddressable) :
    ((∃ c, compile s q = .ok c) ↔ validateQuery s q = .ok ()) ∧
    ∀ e, compile s q = .error e → ∃ v, e = .validation v ∧ validateQuery s q = .error v := by
  refine ⟨⟨fun ⟨c, hc⟩ => ((compile_eq_ok ..).mp hc).1, compile_total hs hq⟩, fun e he => ?_⟩
  cases hv : validateQuery s q with
  | ok u =>
    obtain ⟨c, hc⟩ := compile_total hs hq hv
    rw [hc] at he
    cases he
  | error v =>
    refine ⟨v, ?_, rfl⟩
    unfold compile at he
    rw [hv] at he
    exact (Except.error.inj he).symm

def sampleQuery : Query Float :=
  { filter := .group .and
      [.leaf ⟨"peg_ratio", "<", some (.int 1), none, none, none, none⟩,
       .not (.leaf ⟨"sector", " == ", some (.text "Energy"), none, none, none, "ignore"⟩)]
    sort := [⟨"market_cap", .descending⟩]
    limit := some 5 }

theorem compile_agrees_with_validation_sampleQuery :
    ∃ c, compile Settings.default sampleQuery = .ok c := by
  have hs : Settings.default.validate = .ok () := by decide
  have hq : sampleQuery.IsAddressable := by
    have hone : (sampleQuery.filter.conditions.flatMap Condition.bindings).length = 1 := rfl
    unfold Query.IsAddressable
    rw [hone]
    decide
  have hv : validateQuery Settings.default sampleQuery = .ok () := rfl
  exact (compile_agrees_with_validation Settings.default sampleQuery hs hq).1.mpr hv

end Compilation

end EquityScreen
