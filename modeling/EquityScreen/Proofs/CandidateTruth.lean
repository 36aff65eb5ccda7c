import EquityScreen.Proofs.FilterTruth
import EquityScreen.Proofs.PredicateNames

namespace EquityScreen

variable {α : Type} [Quantity α] {h : History α} {c c' : Candidate α} {sources : List Source}

theorem Trailing.values_congr (hc : c.company = c'.company) (w : Trailing) :
    w.values h c = w.values h c' := by
  simp only [values, Candidate.ticker, Candidate.get, Candidate.row, hc]

theorem Field.tested_congr {f : Field} (hc : c.company = c'.company)
    (hf : c.row f.source = c'.row f.source) (policy : MissingPolicy) (test : Cell α → Truth) :
    f.tested policy h c test = f.tested policy h c' test := by
  simp only [tested, newestAnnual?, Candidate.get, hf, Trailing.values_congr hc]

open Compilation in
/-- A condition that compiles reads the row of its source alone, besides the company. -/
theorem Compilation.Compiles.truth?_congr {maxLength n : Nat} {d : Condition α}
    {e : CompiledCondition α} (hd : Compiles maxLength n d e) (hs : HasSource sources d)
    (hc : c.company = c'.company) (hrow : ∀ s ∈ sources, c.row s = c'.row s) :
    d.truth? h c = d.truth? h c' := by
  obtain ⟨hrange, hsource⟩ := hs
  unfold Condition.truth?
  cases hd with
  | @comparison f policy op v on hr ht hw hv =>
    have hf := hrow f.source (hsource (by simp [Condition.isDirect, hw, ht]) f on.field)
    simp [on.notDerived, on.field, on.policy, hr, ht, hw, hv, Field.tested_congr hc hf]
  | @range f policy r s on hr hw hread =>
    have ht := hrange (by simp [hr])
    have hf := hrow f.source (hsource (by simp [Condition.isDirect, hw, ht]) f on.field)
    simp [on.notDerived, on.field, on.policy, hr, hread, Field.tested_congr hc hf]
  | trend on hr ht hw htr hread =>
    simp [on.notDerived, on.field, hr, ht, hw, htr, hread, Trailing.values_congr hc]
  | window on hr ht hw hread _ _ hv =>
    simp [on.notDerived, on.field, hr, ht, hw, hread, hv, Trailing.values_congr hc]
  | derivedRange metric | derivedComparison metric => simp [metric.derived]

theorem Filter.truth?_congr {f : Filter α}
    (hf : ∀ d ∈ f.conditions, d.truth? h c = d.truth? h c') : f.truth? h c = f.truth? h c' := by
  induction f using Filter.induction with
  | leaf d => simpa [truth?] using hf
  | not child ih => rw [truth?, truth?, ih hf]
  | group k children ih =>
    rw [conditions_group] at hf
    have hall : ∀ f ∈ children, f.truth? h c = f.truth? h c' := fun f hmem =>
      ih f hmem fun d hd => hf d (List.mem_flatMap.mpr ⟨f, hmem, hd⟩)
    clear ih hf
    cases k with
    | and =>
      rw [truth?, truth?]
      induction children with
      | nil => rfl
      | cons f rest ih =>
        obtain ⟨hf, hrest⟩ := List.forall_mem_cons.mp hall
        rw [truthOfAll?, truthOfAll?, hf, ih hrest]
    | or =>
      rw [truth?, truth?]
      induction children with
      | nil => rfl
      | cons f rest ih =>
        obtain ⟨hf, hrest⟩ := List.forall_mem_cons.mp hall
        rw [truthOfAny?, truthOfAny?, hf, ih hrest]

namespace Truth

theorem or_eq_yes {a b : Truth} : a.or b = .yes ↔ a = .yes ∨ b = .yes := by
  cases a <;> cases b <;> decide

theorem not_eq_yes {a : Truth} : a.not = .yes ↔ a = .no := by
  cases a <;> decide

@[simp]
theorem not_not (a : Truth) : a.not.not = a := by
  cases a <;> rfl

end Truth

namespace Filter

theorem truth?_and_eq_yes {children : List (Filter α)} :
    (group .and children).truth? h c = some .yes ↔
      ∀ f ∈ children, f.truth? h c = some .yes := by
  rw [truth?]
  induction children with
  | nil => simp [truthOfAll?]
  | cons f rest ih =>
    rw [truthOfAll?, List.forall_mem_cons, ← ih]
    cases f.truth? h c <;> cases truthOfAll? h c rest <;> simp [Truth.and_eq_yes]

theorem truth?_or_eq_yes {children : List (Filter α)}
    (ht : ∀ f ∈ children, ∃ t, f.truth? h c = some t) :
    (group .or children).truth? h c = some .yes ↔
      ∃ f ∈ children, f.truth? h c = some .yes := by
  have hany (fs : List (Filter α)) (hfs : ∀ f ∈ fs, ∃ t, f.truth? h c = some t) :
      ∃ t, truthOfAny? h c fs = some t ∧
        (t = .yes ↔ ∃ f ∈ fs, f.truth? h c = some .yes) := by
    induction fs with
    | nil => exact ⟨.no, rfl, by simp⟩
    | cons f rest ih =>
      obtain ⟨⟨t, hf⟩, hrest⟩ := List.forall_mem_cons.mp hfs
      obtain ⟨u, hu, hyes⟩ := ih hrest
      refine ⟨t.or u, by simp [truthOfAny?, hf, hu], ?_⟩
      simp [Truth.or_eq_yes, hyes, hf]
  obtain ⟨t, hchildren, hyes⟩ := hany children ht
  rw [truth?, hchildren, Option.some_inj, hyes]

theorem truth?_not_eq_yes {f : Filter α} :
    (Filter.not f).truth? h c = some .yes ↔ f.truth? h c = some .no := by
  simp [truth?, Truth.not_eq_yes]

theorem truth?_not_not (f : Filter α) :
    (Filter.not (.not f)).truth? h c = f.truth? h c := by
  simp [truth?, Function.comp_def]

end Filter

end EquityScreen
