import EquityScreen.Proofs.ValidationPasses

namespace EquityScreen.Validation

open Compilation

variable {α : Type} [Quantity α] {maxLength : Nat} {c : Condition α}

theorem kind_of_isPeriodic : ∀ f ∈ catalog, f.isPeriodic = true → f.kind = .numeric := by decide

omit [Quantity α] in
theorem isNumeric_of_comparison? {op : Operator} {v : Literal α}
    (hv : c.comparison? = some (op, v)) (h : ∀ v ∈ c.value, v.isNumeric = true) :
    v.isNumeric = true :=
  h v (Condition.value_eq_some hv)

theorem Accepted.compiles_derived (h : Accepted maxLength c) {conjunctive : Bool}
    (hc : checkDerived conjunctive c = []) (hd : isDerived c.fieldName = true) (n : Nat) :
    ∃ d, Compiles maxLength n c d := by
  obtain ⟨-, htrend, hnumeric⟩ := facts_of_checkDerived hc hd
  obtain ⟨policy, hpolicy⟩ := policy?_of_checkPolicy h.policy
  obtain ⟨window, hwindow⟩ : ∃ window, c.HasWindow maxLength window := by
    cases hw : c.window with
    | none => exact ⟨none, .inl ⟨hw, rfl⟩⟩
    | some w =>
      obtain ⟨spec, hs, hl, -⟩ := spec?_of_checks h.support h.temporal hw
      exact ⟨some spec, .inr ⟨w, spec, hw, hs, hl, rfl⟩⟩
  have metric : c.IsDerivedOver maxLength window policy := ⟨hd, hpolicy, htrend, hwindow⟩
  rcases shape_of_checkShape h.shape with
    ⟨op, v, hv, hr, -⟩ | ⟨r, hr, -⟩ | ⟨word, t, -, ht, -⟩
  · exact ⟨_, .derivedComparison metric hr hv (isNumeric_of_comparison? hv hnumeric)⟩
  · obtain ⟨s, hs⟩ := span?_of_checkRange h.range hr
    exact ⟨_, .derivedRange metric hr hs⟩
  · rw [htrend] at ht
    cases ht

theorem Accepted.compiles_base (h : Accepted maxLength c) (hd : isDerived c.fieldName = false)
    (n : Nat) : ∃ d, Compiles maxLength n c d := by
  obtain ⟨policy, hpolicy⟩ := policy?_of_checkPolicy h.policy
  obtain ⟨f, hf, hfield⟩ | ⟨-, hderived⟩ := field_of_checkSupport h.support
  · obtain ⟨hperiodic, hrange, hnumeric⟩ := facts_of_checkField hfield
    have on : c.IsOn f policy := ⟨hd, hf, hpolicy⟩
    rcases shape_of_checkShape h.shape with
      ⟨op, v, hv, hr, ht⟩ | ⟨r, hr, -⟩ | ⟨word, t, hr, ht, hread⟩
    · cases hw : c.window with
      | none => exact ⟨_, .comparison on hr ht hw hv⟩
      | some w =>
        obtain ⟨spec, hs, hl, -⟩ := spec?_of_checks h.support h.temporal hw
        have hp : f.isPeriodic = true := hperiodic (by simp [Condition.isDirect, hw])
        have hn := isNumeric_of_comparison? hv
          (hnumeric (kind_of_isPeriodic f (field?_mem hf) hp))
        exact ⟨_, .window on hr ht hw hs hl hp hv hn⟩
    · obtain ⟨s, hs⟩ := span?_of_checkRange h.range hr
      exact ⟨_, .range on hr (hrange (by simp [hr])) hs⟩
    · cases hw : c.window with
      | none =>
        have hmissing := h.temporal
        simp [checkTemporal, hw, ht] at hmissing
      | some w =>
        obtain ⟨spec, hs, hl, hseveral⟩ := spec?_of_checks h.support h.temporal hw
        have hp : f.isPeriodic = true := hperiodic (by simp [Condition.isDirect, hw])
        exact ⟨_, .trend on hr ht hw hread hs hl hp (hseveral (by simp [ht]))⟩
  · rw [hd] at hderived
    cases hderived

theorem Accepted.compiles (h : Accepted maxLength c) {conjunctive : Bool}
    (hc : checkDerived conjunctive c = []) (n : Nat) : ∃ d, Compiles maxLength n c d := by
  cases hd : isDerived c.fieldName with
  | true => exact h.compiles_derived hc hd n
  | false => exact h.compiles_base hd n

theorem compileAll_total {conjunctive : Bool} {fs : List (Filter α)}
    (h : ∀ f ∈ fs, ∀ n, ∃ g, compileNode maxLength n conjunctive f = .ok g) (n : Nat) :
    ∃ gs, compileAll maxLength n conjunctive fs = .ok gs := by
  induction fs generalizing n with
  | nil => exact ⟨[], rfl⟩
  | cons f fs ih =>
    obtain ⟨g, hg⟩ := h f (by simp) n
    obtain ⟨gs, hgs⟩ := ih (fun f hf => h f (by simp [hf])) (n + g.params.length)
    refine ⟨g :: gs, (compileAll_eq_ok ..).mpr (.cons hg ?_)⟩
    exact (compileAll_eq_ok ..).mp hgs

theorem compileNode_total {conjunctive : Bool} {f : Filter α}
    (h : ∀ c ∈ f.conditions, Accepted maxLength c) (hd : derivedOf conjunctive f = []) (n : Nat) :
    ∃ g, compileNode maxLength n conjunctive f = .ok g := by
  induction f using Filter.induction generalizing n conjunctive with
  | leaf c =>
    rw [derivedOf] at hd
    obtain ⟨d, hc⟩ := (h c (by simp)).compiles hd n
    cases hp : d.predicate with
    | some p => exact ⟨_, (compileNode_leaf ..).mpr ⟨d, hc, .inl ⟨p, hp, rfl⟩⟩⟩
    | none =>
      have hderived : isDerived c.fieldName = true := by rw [hc.isDerived_eq, hp]; rfl
      have hconjunctive := (facts_of_checkDerived hd hderived).1
      exact ⟨_, (compileNode_leaf ..).mpr ⟨d, hc, .inr ⟨hp, hconjunctive, rfl⟩⟩⟩
  | not child ih =>
    rw [derivedOf] at hd
    obtain ⟨inner, hi⟩ := ih h hd n
    exact ⟨_, (compileNode_not ..).mpr ⟨inner, hi, rfl⟩⟩
  | group c children ih =>
    rw [derivedOf_group, List.flatMap_eq_nil_iff] at hd
    have hall : ∀ f ∈ children, ∀ n, ∃ g,
        compileNode maxLength n (conjunctive && c = .and) f = .ok g := by
      intro f hf n
      refine ih f hf (fun d hd => h d ?_) (hd f hf) n
      exact Filter.conditions_group c children ▸ List.mem_flatMap.mpr ⟨f, hf, hd⟩
    obtain ⟨gs, hgs⟩ := compileAll_total hall n
    exact ⟨_, (compileNode_group ..).mpr ⟨gs, hgs, rfl⟩⟩

theorem compileNode_total_of_validate {f : Filter α} (h : validate maxLength f = .ok ()) (n : Nat) :
    ∃ g, compileNode maxLength n true f = .ok g := by
  obtain ⟨haccepted, hderived⟩ := accepted_of_violations (validate_eq_ok.mp h)
  exact compileNode_total haccepted hderived n

end EquityScreen.Validation
