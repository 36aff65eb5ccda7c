import EquityScreen.Proofs.CrossedBounds

namespace EquityScreen

open Quantity

variable {α : Type}

namespace Filter

inductive IsSubtree : Filter α → Filter α → Prop
  | refl (f : Filter α) : IsSubtree f f
  | group {f g : Filter α} (c : Connective) {children : List (Filter α)} (hg : g ∈ children)
      (h : IsSubtree f g) : IsSubtree f (.group c children)
  | not {f g : Filter α} (h : IsSubtree f g) : IsSubtree f (.not g)

/-- Trees that differ in the order of siblings, at any nodes. -/
inductive Permuted : Filter α → Filter α → Prop
  | refl (f : Filter α) : Permuted f f
  | trans {f g h : Filter α} (hfg : Permuted f g) (hgh : Permuted g h) : Permuted f h
  | children (c : Connective) {fs gs : List (Filter α)} (h : fs.Perm gs) :
      Permuted (.group c fs) (.group c gs)
  | child (c : Connective) (before after : List (Filter α)) {f g : Filter α} (h : Permuted f g) :
      Permuted (.group c (before ++ f :: after)) (.group c (before ++ g :: after))
  | not {f g : Filter α} (h : Permuted f g) : Permuted (.not f) (.not g)

theorem Permuted.rearranged {f g : Filter α} (h : Permuted f g) : Rearranged f g := by
  induction h with
  | refl f => exact .refl f
  | trans _ _ ih ih' => exact ih.trans ih'
  | children c h => exact .permute c h
  | child c before after _ ih => exact ih.child c before after
  | not _ ih => exact ih.not

def IsBase (f : Filter α) : Prop := ∀ c ∈ f.conditions, isDerived c.fieldName = false

theorem isBase_group {c : Connective} {children : List (Filter α)} :
    (group c children).IsBase ↔ ∀ f ∈ children, f.IsBase := by
  unfold IsBase
  rw [conditions_group]
  simp only [List.mem_flatMap, forall_exists_index, and_imp]
  exact ⟨fun h f hf c hc => h c f hf hc, fun h c f hf hc => h f hf c hc⟩

theorem Permuted.isBase_iff {f g : Filter α} (h : Permuted f g) : f.IsBase ↔ g.IsBase :=
  forall_congr' fun _ => imp_congr_left h.rearranged.alike.conditions.mem_iff

end Filter

namespace Validation

variable [Quantity α] {maxLength : Nat} {children : List (Filter α)} {f g : Filter α}

theorem derivedOf_false_eq_nil : derivedOf false f = [] ↔ f.IsBase :=
  ⟨isDerived_of_derivedOf, fun h => derivedOf_eq_nil h false⟩

theorem isWellFormed_group {conjunctive : Bool} {c : Connective} :
    IsWellFormed maxLength conjunctive (.group c children) ↔ 2 ≤ children.length ∧
      ∀ f ∈ children, IsWellFormed maxLength (conjunctive && c = .and) f := by
  constructor
  · intro h
    have hstructured := h.structured
    rw [structureOf, List.append_eq_nil_iff, when_eq_nil, decide_eq_false_iff_not] at hstructured
    exact ⟨Nat.le_of_not_lt hstructured.1, fun f hf => h.child hf⟩
  · rintro ⟨hlength, hchildren⟩
    refine ⟨?_, fun d hd => ?_, ?_⟩
    · rw [structureOf, structureOfAll_eq_flatMap, List.append_eq_nil_iff, when_eq_nil,
        decide_eq_false_iff_not, List.flatMap_eq_nil_iff]
      exact ⟨hlength.not_gt, fun f hf => (hchildren f hf).structured⟩
    · rw [Filter.conditions_group, List.mem_flatMap] at hd
      obtain ⟨f, hf, hd⟩ := hd
      exact (hchildren f hf).accepted d hd
    · rw [derivedOf_group, List.flatMap_eq_nil_iff]
      exact fun f hf => (hchildren f hf).derived

/-- Apart from a conjunction, a tree is well-formed if it is so by itself and has no derived
metric. -/
theorem isWellFormed_false :
    IsWellFormed maxLength false f ↔ IsWellFormed maxLength true f ∧ f.IsBase :=
  ⟨fun h => ⟨h.relax, derivedOf_false_eq_nil.mp h.derived⟩, fun ⟨h, hbase⟩ =>
    ⟨h.structured, h.accepted, derivedOf_false_eq_nil.mpr hbase⟩⟩

theorem isWellFormed_not {conjunctive : Bool} :
    IsWellFormed maxLength conjunctive (.not f) ↔ IsWellFormed maxLength false f :=
  ⟨fun h => h.negated, fun h => h.negation⟩

theorem isWellFormed_leaf {conjunctive : Bool} {c : Condition α} :
    IsWellFormed maxLength conjunctive (.leaf c) ↔
      Accepted maxLength c ∧ checkDerived conjunctive c = [] := by
  constructor
  · exact fun h => ⟨h.accepted c (by simp), h.derived⟩
  · rintro ⟨hc, hderived⟩
    exact ⟨hc.shape, by simpa using hc, hderived⟩

theorem validate_or_iff : validate maxLength (.group .or children) = .ok () ↔
    2 ≤ children.length ∧ (∀ f ∈ children, validate maxLength f = .ok ()) ∧
      ∀ f ∈ children, f.IsBase := by
  have hconflicts : (conflictsOf [] (.group .or children)).2 = [] ↔
      ∀ f ∈ children, (conflictsOf [] f).2 = [] := by
    rw [conflictsOf, conflictsOfEach_eq_flatMap, List.flatMap_eq_nil_iff]
  simp only [validate_iff, isWellFormed_group, Bool.and_false, reduceCtorEq, decide_false,
    isWellFormed_false, hconflicts]
  constructor
  · rintro ⟨⟨hlength, hformed⟩, hfree⟩
    exact ⟨hlength, fun f hf => ⟨(hformed f hf).1, hfree f hf⟩, fun f hf => (hformed f hf).2⟩
  · rintro ⟨hlength, hvalid, hbase⟩
    exact ⟨⟨hlength, fun f hf => ⟨(hvalid f hf).1, hbase f hf⟩⟩, fun f hf => (hvalid f hf).2⟩

theorem validate_not_iff :
    validate maxLength (.not f) = .ok () ↔ validate maxLength f = .ok () ∧ f.IsBase := by
  have hconflicts : (conflictsOf [] (.not f)).2 = (conflictsOf [] f).2 := rfl
  rw [validate_iff, validate_iff, isWellFormed_not, isWellFormed_false, hconflicts,
    and_right_comm]

variable [LinearOrder α] [IsLinear α]

theorem conflictsOf_and_eq_nil : (conflictsOf [] (.group .and children)).2 = [] ↔
    (∀ f ∈ children, (conflictsOf [] f).2 = []) ∧
      ∀ name, ¬ Conflicting (Filter.group .and children).members name := by
  simp only [conflictsOf_eq_nil, conflictsAmong_eq_nil, Filter.innerScopes_and, List.flatMap_assoc,
    List.flatMap_eq_nil_iff]
  constructor
  · rintro ⟨hfree, hinner⟩
    refine ⟨fun f hf => ⟨fun name h => hfree name (h.mono fun c hc => ?_), hinner f hf⟩, hfree⟩
    rw [Filter.members_and]
    exact List.mem_flatMap.mpr ⟨f, hf, hc⟩
  · rintro ⟨hchildren, hfree⟩
    exact ⟨hfree, fun f hf => (hchildren f hf).2⟩

theorem validate_and_iff : validate maxLength (.group .and children) = .ok () ↔
    2 ≤ children.length ∧ (∀ f ∈ children, validate maxLength f = .ok ()) ∧
      ∀ name, ¬ Conflicting (Filter.group .and children).members name := by
  simp only [validate_iff, isWellFormed_group, conflictsOf_and_eq_nil, Bool.true_and, decide_true]
  constructor
  · rintro ⟨⟨hlength, hformed⟩, hchildren, hfree⟩
    exact ⟨hlength, fun f hf => ⟨hformed f hf, hchildren f hf⟩, hfree⟩
  · rintro ⟨hlength, hvalid, hfree⟩
    exact ⟨⟨hlength, fun f hf => (hvalid f hf).1⟩, fun f hf => (hvalid f hf).2, hfree⟩

theorem validate_of_group {c : Connective} (h : validate maxLength (.group c children) = .ok ()) :
    ∀ f ∈ children, validate maxLength f = .ok () := by
  cases c with
  | and => exact (validate_and_iff.mp h).2.1
  | or => exact (validate_or_iff.mp h).2.1

theorem validate_of_isSubtree (hg : g.IsSubtree f) (h : validate maxLength f = .ok ()) :
    validate maxLength g = .ok () := by
  induction hg with
  | refl => exact h
  | group c hmem _ ih => exact ih (validate_of_group h _ hmem)
  | not _ ih => exact ih (validate_not_iff.mp h).1

theorem validate_group_congr {c : Connective} {fs gs : List (Filter α)}
    (hlength : fs.length = gs.length)
    (hvalid : (∀ f ∈ fs, validate maxLength f = .ok ()) ↔ ∀ g ∈ gs, validate maxLength g = .ok ())
    (hperm : (Filter.group c fs).Permuted (.group c gs)) :
    validate maxLength (.group c fs) = .ok () ↔ validate maxLength (.group c gs) = .ok () := by
  cases c with
  | or =>
    rw [validate_or_iff, validate_or_iff, hlength, hvalid, ← Filter.isBase_group (c := .or),
      ← Filter.isBase_group (c := .or), hperm.isBase_iff]
  | and =>
    have hmembers := hperm.rearranged.alike.members
    have hconflicting (name : String) : Conflicting (Filter.group .and fs).members name ↔
        Conflicting (Filter.group .and gs).members name :=
      ⟨fun h => h.mono fun c => hmembers.mem_iff.mp, fun h => h.mono fun c => hmembers.mem_iff.mpr⟩
    simp only [validate_and_iff, hlength, hvalid, hconflicting]

theorem validate_of_permuted (h : f.Permuted g) :
    validate maxLength f = .ok () ↔ validate maxLength g = .ok () := by
  induction h with
  | refl => rfl
  | trans _ _ ih ih' => exact ih.trans ih'
  | children c h =>
    exact validate_group_congr h.length_eq (forall_congr' fun f => imp_congr_left h.mem_iff)
      (.children c h)
  | child c before after h ih =>
    refine validate_group_congr (by simp) ?_ (.child c before after h)
    simp only [List.forall_mem_append, List.forall_mem_cons, ih]
  | not h ih => rw [validate_not_iff, validate_not_iff, ih, h.isBase_iff]

/-- Validation is compositional. Alternatives are valid if they are several, each is valid by itself
and none speaks of a derived metric; a negation, if what it negates is valid and speaks of none; a
conjunction, if its members are several, each is valid by itself, and the conditions that
conjunctions alone connect with it leave some numbers to every field, or in other words no lower
bound of one crosses an upper bound of another. So every subtree of a valid tree is valid, and the
order of siblings at any nodes does not matter. -/
theorem validate_compositional (maxLength : Nat) :
    (∀ children : List (Filter α), validate maxLength (.group .or children) = .ok () ↔
      2 ≤ children.length ∧ (∀ f ∈ children, validate maxLength f = .ok ()) ∧
        ∀ f ∈ children, ∀ c ∈ f.conditions, isDerived c.fieldName = false) ∧
    (∀ f : Filter α, validate maxLength (.not f) = .ok () ↔
      validate maxLength f = .ok () ∧ ∀ c ∈ f.conditions, isDerived c.fieldName = false) ∧
    (∀ children : List (Filter α), validate maxLength (.group .and children) = .ok () ↔
      2 ≤ children.length ∧ (∀ f ∈ children, validate maxLength f = .ok ()) ∧
        ∀ name, (jointBounds (Filter.group .and children).members name).isEmpty = false) ∧
    (∀ (cs : List (Condition α)) name,
      (jointBounds cs name).isEmpty = true ↔ Conflicting cs name) ∧
    (∀ f g : Filter α, g.IsSubtree f → validate maxLength f = .ok () →
      validate maxLength g = .ok ()) ∧
    ∀ f g : Filter α, f.Permuted g →
      (validate maxLength f = .ok () ↔ validate maxLength g = .ok ()) := by
  refine ⟨fun _ => validate_or_iff, fun _ => validate_not_iff, fun _ => ?_,
    fun _ _ => conflicting_iff_jointBounds.symm, fun _ _ => validate_of_isSubtree,
    fun _ _ => validate_of_permuted⟩
  simp only [validate_and_iff, conflicting_iff_jointBounds, Bool.not_eq_true]

/-- Members of a conjunction that are valid each, with bounds that cross between its levels. -/
theorem validate_compositional_nestedConflict :
    ∃ children, nestedConflict = .group .and children ∧
      (∀ f ∈ children, validate 8 f = .ok ()) ∧ validate 8 nestedConflict ≠ .ok () ∧
      validate 8 (.group .and children.reverse) ≠ .ok () := by
  obtain ⟨-, -, hand, -, -, hpermuted⟩ := validate_compositional (α := ℚ) 8
  have hinvalid : validate 8 nestedConflict ≠ .ok () := by
    intro h
    have hfree := ((hand _).mp h).2.2 "roe"
    have hempty : (jointBounds nestedConflict.members "roe").isEmpty = true := by decide +kernel
    exact Bool.false_ne_true (hfree.symm.trans hempty)
  refine ⟨_, rfl, ?_, hinvalid, fun h => hinvalid ?_⟩
  · simp only [List.forall_mem_cons]
    exact ⟨rfl, rfl, rfl, nofun⟩
  · exact (hpermuted _ _ (.children .and (List.reverse_perm _))).mp h

end Validation

end EquityScreen
