import EquityScreen.Proofs.CompiledMeaning
import EquityScreen.Proofs.ConflictScopes
import EquityScreen.Proofs.ParameterOrder

namespace EquityScreen.Validation

open Compilation

variable {α : Type} [Quantity α] {maxLength : Nat} {conjunctive : Bool}

/-- A tree whose structure, conditions and uses of derived metrics are not reported. -/
structure IsWellFormed (maxLength : Nat) (conjunctive : Bool) (f : Filter α) : Prop where
  structured : structureOf f = []
  accepted : ∀ c ∈ f.conditions, Accepted maxLength c
  derived : derivedOf conjunctive f = []

theorem isDerived_of_derivedOf {f : Filter α} (h : derivedOf false f = []) :
    ∀ c ∈ f.conditions, isDerived c.fieldName = false := by
  induction f using Filter.induction with
  | leaf c =>
    refine List.forall_mem_singleton.mpr ?_
    by_contra hd
    rw [Bool.not_eq_false] at hd
    cases (facts_of_checkDerived (by simpa [derivedOf] using h) hd).1
  | not child ih => exact ih (by simpa [derivedOf] using h)
  | group c children ih =>
    rw [derivedOf_group, Bool.false_and, List.flatMap_eq_nil_iff] at h
    rw [Filter.conditions_group]
    intro d hd
    obtain ⟨f, hf, hd⟩ := List.mem_flatMap.mp hd
    exact ih f hf (h f hf) d hd

theorem derivedOf_eq_nil {f : Filter α} (h : ∀ c ∈ f.conditions, isDerived c.fieldName = false)
    (conjunctive : Bool) : derivedOf conjunctive f = [] := by
  induction f using Filter.induction generalizing conjunctive with
  | leaf c =>
    have hnone : metric? c.fieldName = none := by simpa [isDerived] using h
    simp [derivedOf, checkDerived, hnone]
  | not child ih => exact ih h false
  | group c children ih =>
    rw [derivedOf_group, List.flatMap_eq_nil_iff]
    rw [Filter.conditions_group] at h
    exact fun f hf => ih f hf (fun d hd => h d (List.mem_flatMap.mpr ⟨f, hf, hd⟩)) _

namespace IsWellFormed

variable {f : Filter α}

theorem of_validate (h : validate maxLength f = .ok ()) : IsWellFormed maxLength true f := by
  have hviolations := validate_eq_ok.mp h
  obtain ⟨haccepted, hderived⟩ := accepted_of_violations hviolations
  exact ⟨structureOf_of_violations hviolations, haccepted, hderived⟩

theorem relax (h : IsWellFormed maxLength false f) : IsWellFormed maxLength conjunctive f :=
  ⟨h.structured, h.accepted, derivedOf_eq_nil (isDerived_of_derivedOf h.derived) conjunctive⟩

theorem child {c : Connective} {children : List (Filter α)}
    (h : IsWellFormed maxLength conjunctive (.group c children)) (hf : f ∈ children) :
    IsWellFormed maxLength (conjunctive && c = .and) f := by
  have hstructured := h.structured
  have hderived := h.derived
  rw [structureOf, structureOfAll_eq_flatMap, List.append_eq_nil_iff,
    List.flatMap_eq_nil_iff] at hstructured
  rw [derivedOf_group, List.flatMap_eq_nil_iff] at hderived
  refine ⟨hstructured.2 f hf, fun d hd => h.accepted d ?_, hderived f hf⟩
  rw [Filter.conditions_group]
  exact List.mem_flatMap.mpr ⟨f, hf, hd⟩

theorem of_or {children : List (Filter α)}
    (h : IsWellFormed maxLength conjunctive (.group .or children)) :
    IsWellFormed maxLength false (.group .or children) :=
  ⟨h.structured, h.accepted, by simpa [derivedOf] using h.derived⟩

theorem negated (h : IsWellFormed maxLength conjunctive (.not f)) :
    IsWellFormed maxLength false f :=
  ⟨by simpa [structureOf] using h.structured, h.accepted, by simpa [derivedOf] using h.derived⟩

theorem negation (h : IsWellFormed maxLength false f) :
    IsWellFormed maxLength conjunctive (.not f) :=
  ⟨by simpa [structureOf] using h.structured, h.accepted, by simpa [derivedOf] using h.derived⟩

theorem compiles (h : IsWellFormed maxLength conjunctive f) (n : Nat) :
    ∃ g, compileNode maxLength n conjunctive f = .ok g :=
  compileNode_total h.accepted h.derived n

theorem means (h : IsWellFormed maxLength conjunctive f) {n : Nat} {g : Fragment α}
    (hg : compileNode maxLength n conjunctive f = .ok g) : Means n conjunctive f g :=
  compileNode_means h.structured (fun c hc => (h.accepted c hc).support) hg

end IsWellFormed

/-- A tree is valid if it is well-formed and free from conflicts. -/
theorem validate_iff {f : Filter α} : validate maxLength f = .ok () ↔
    IsWellFormed maxLength true f ∧ (conflictsOf [] f).2 = [] := by
  constructor
  · intro h
    have hviolations := violations_eq_nil.mp (validate_eq_ok.mp h)
    exact ⟨.of_validate h, hviolations (fun f => (conflictsOf [] f).2) (by simp [passes])⟩
  · rintro ⟨⟨hstructured, haccepted, hderived⟩, hconflicts⟩
    refine validate_eq_ok.mpr (violations_eq_nil.mpr ?_)
    simp only [passes, List.forall_mem_cons, List.flatMap_eq_nil_iff]
    exact ⟨hstructured, hconflicts, fun c hc => (haccepted c hc).support, hderived,
      fun c hc => (haccepted c hc).temporal, fun c hc => (haccepted c hc).policy,
      fun c hc => (haccepted c hc).range, by simp⟩

theorem validate_of_or {f : Filter α} {children : List (Filter α)}
    (h : validate maxLength (.group .or children) = .ok ()) (hf : f ∈ children) :
    validate maxLength f = .ok () := by
  obtain ⟨hformed, hconflicts⟩ := validate_iff.mp h
  have hfree : children.flatMap (fun f => (conflictsOf [] f).2) = [] := by
    rwa [conflictsOf, conflictsOfEach_eq_flatMap] at hconflicts
  have hchild : IsWellFormed maxLength false f := hformed.of_or.child hf
  exact validate_iff.mpr ⟨hchild.relax, List.flatMap_eq_nil_iff.mp hfree f hf⟩

theorem validate_of_not {f : Filter α} (h : validate maxLength (.not f) = .ok ()) :
    validate maxLength f = .ok () ∧ validate maxLength (.not (.not f)) = .ok () := by
  obtain ⟨hformed, hconflicts⟩ := validate_iff.mp h
  have hf := hformed.negated
  exact ⟨validate_iff.mpr ⟨hf.relax, hconflicts⟩,
    validate_iff.mpr ⟨hf.negation.negation, hconflicts⟩⟩

/-- What is put off until candidates are known is the compiled form of every derived condition. -/
theorem forall_derived_iff {n : Nat} {f : Filter α} {g : Fragment α}
    (hg : compileNode maxLength n conjunctive f = .ok g) (P : CompiledCondition α → Prop) :
    (∀ d ∈ g.derived, P d) ↔ ∀ c ∈ f.conditions, isDerived c.fieldName = true →
      ∀ d, compileCondition maxLength 1 c = .ok d → P d := by
  have hforall₂ := (compileNode_accounts hg).derived
  have hfilter : (∀ c ∈ f.conditions, isDerived c.fieldName = true →
      ∀ d, compileCondition maxLength 1 c = .ok d → P d) ↔
      ∀ c ∈ f.conditions.filter (fun c => isDerived c.fieldName),
        ∀ d, compileCondition maxLength 1 c = .ok d → P d := by
    simp [List.mem_filter]
  rw [hfilter]
  generalize f.conditions.filter (fun c => isDerived c.fieldName) = cs at hforall₂
  generalize g.derived = ds at hforall₂
  induction hforall₂ with
  | nil => simp
  | cons hcd _ ih =>
    rw [List.forall_mem_cons, List.forall_mem_cons]
    refine and_congr ?_ ih
    simp [hcd 1]

end EquityScreen.Validation
