import EquityScreen.Proofs.CompositionalValidation

namespace EquityScreen

variable {α : Type}

/-- The name of the column that a field stands for. What is no field stands for itself. -/
def columnName (name : String) : String := ((field? name).map (·.column)).getD name

/-- Two names differ from those of their columns. -/
theorem columnName_eq (name : String) : columnName name =
    if name = "debt" then "total_debt"
    else if name = "price_to_book" then "pb_ratio"
    else name := by
  have hcatalog : ∀ f ∈ catalog, f.column =
      if f.name = "debt" then "total_debt" else if f.name = "price_to_book" then "pb_ratio"
        else f.name := by
    decide
  unfold columnName
  cases hf : field? name with
  | some f =>
    obtain rfl : f.name = name := by simpa using List.find?_some hf
    exact hcatalog f (field?_mem hf)
  | none =>
    have hdebt : name ≠ "debt" := by
      rintro rfl
      cases hf
    have hprice : name ≠ "price_to_book" := by
      rintro rfl
      cases hf
    rw [if_neg hdebt, if_neg hprice, Option.map_none, Option.getD_none]

def Field.canonical (f : Field) : Field := { f with name := f.column }

theorem field?_columnName (name : String) :
    field? (columnName name) = (field? name).map Field.canonical := by
  have hcatalog : ∀ f ∈ catalog, field? f.column = some f.canonical := by decide
  unfold columnName
  cases hf : field? name with
  | some f => exact hcatalog f (field?_mem hf)
  | none => exact hf

theorem metric?_columnName (name : String) : metric? (columnName name) = metric? name := by
  rw [columnName_eq]
  split_ifs with hdebt hprice
  · rw [hdebt]
    rfl
  · rw [hprice]
    rfl
  · rfl

theorem isDerived_columnName (name : String) : isDerived (columnName name) = isDerived name := by
  rw [isDerived, isDerived, metric?_columnName]

theorem isEmpty_columnName (name : String) : (columnName name).isEmpty = name.isEmpty := by
  rw [columnName_eq]
  split_ifs with hdebt hprice
  · rw [hdebt]
    rfl
  · rw [hprice]
    rfl
  · rfl

namespace Condition

def canonical (c : Condition α) : Condition α := { c with field := c.field.map columnName }

@[simp]
theorem fieldName_canonical (c : Condition α) : c.canonical.fieldName = columnName c.fieldName := by
  unfold fieldName canonical
  cases c.field <;> rfl

end Condition

namespace Filter

mutual

def map (F : Condition α → Condition α) : Filter α → Filter α
  | .group c children => .group c (mapAll F children)
  | .not child => .not (child.map F)
  | .leaf c => .leaf (F c)

def mapAll (F : Condition α → Condition α) : List (Filter α) → List (Filter α)
  | [] => []
  | f :: rest => f.map F :: mapAll F rest

end

variable {F : Condition α → Condition α}

theorem map_group (c : Connective) (children : List (Filter α)) :
    (group c children).map F = .group c (children.map (map F)) := by
  have hall (fs : List (Filter α)) : mapAll F fs = fs.map (map F) := by
    induction fs with
    | nil => rfl
    | cons f rest ih => rw [mapAll, ih, List.map_cons]
  rw [map, hall]

theorem members_map (f : Filter α) : (f.map F).members = f.members.map F := by
  induction f using Filter.induction with
  | leaf c => rfl
  | not child ih => rfl
  | group c children ih =>
    cases c with
    | or => rfl
    | and =>
      rw [map_group, members_and, members_and, List.flatMap_map, List.map_flatMap]
      exact List.flatMap_congr ih

theorem innerScopes_map (f : Filter α) : (f.map F).innerScopes = f.innerScopes.map (map F) := by
  induction f using Filter.induction with
  | leaf c => rfl
  | not child ih =>
    rw [map, innerScopes_not, innerScopes_not, scopes, scopes, ih, List.map_cons]
  | group c children ih =>
    have henclosed : ∀ f ∈ children, enclosed c (f.map F) = (enclosed c f).map (map F) := by
      intro f hf
      cases c with
      | and => exact ih f hf
      | or => exact (congrArg (f.map F :: ·) (ih f hf)).trans List.map_cons.symm
    rw [map_group, innerScopes_group, innerScopes_group, List.flatMap_map, List.map_flatMap]
    exact List.flatMap_congr henclosed

def canonical (f : Filter α) : Filter α := f.map Condition.canonical

end Filter

namespace Validation

variable [Quantity α] {maxLength : Nat} {conjunctive : Bool} {f g : Filter α}

omit [Quantity α] in
theorem checkShape_canonical (c : Condition α) :
    checkShape c.canonical = [] ↔ checkShape c = [] := by
  have hshapes : c.canonical.shapes = c.shapes := rfl
  simp only [checkShape, Condition.fieldName_canonical, isEmpty_columnName, hshapes]
  split
  · simp
  · simp only [List.append_eq_nil_iff, when_eq_nil, unsupported_eq_nil, Condition.canonical]

omit [Quantity α] in
theorem checkSupport_canonical (c : Condition α) :
    checkSupport c.canonical = [] ↔ checkSupport c = [] := by
  have hwindow : ((c.canonical.window.map (checkWindowShape (columnName c.fieldName))).getD [] :
      Report α) = [] ↔ (c.window.map (checkWindowShape c.fieldName)).getD [] = [] := by
    rw [Condition.canonical]
    cases c.window with
    | none => rfl
    | some w => simp only [Option.map_some, Option.getD_some, checkWindowShape,
        List.append_eq_nil_iff, when_eq_nil, unsupported_eq_nil]
  have hfield (d : Field) : checkField (columnName c.fieldName) d.canonical c.canonical = [] ↔
      checkField c.fieldName d c = [] := by
    have hkind : d.canonical.kind = d.kind := rfl
    have hperiodic : d.canonical.isPeriodic = d.isPeriodic := rfl
    have hdirect : c.canonical.isDirect = c.isDirect := rfl
    simp only [checkField, hkind, hperiodic, hdirect]
    cases d.kind <;> simp only [List.append_eq_nil_iff, when_eq_nil, Condition.canonical]
  simp only [checkSupport, Condition.fieldName_canonical, field?_columnName, isDerived_columnName]
  cases field? c.fieldName with
  | some d => simp only [Option.map_some, List.append_eq_nil_iff, hwindow, hfield]
  | none =>
    simp only [Option.map_none]
    split
    · exact hwindow
    · simp

theorem checkTemporal_canonical (c : Condition α) :
    checkTemporal maxLength c.canonical = [] ↔ checkTemporal maxLength c = [] := by
  have hperiods : periods? c.canonical = periods? c := rfl
  have hlength : checkLength maxLength c.canonical = [] ↔ checkLength maxLength c = [] := by
    simp only [checkLength, hperiods]
    cases periods? c with
    | none => simp
    | some n =>
      dsimp only
      split
      · simp
      · simp only [when_eq_nil, Condition.canonical]
  have hwindow : c.canonical.window = c.window := rfl
  have htrend : c.canonical.trend = c.trend := rfl
  simp only [checkTemporal, hwindow, htrend]
  cases c.window with
  | none => simp only [when_eq_nil]
  | some w => simp only [List.append_eq_nil_iff, when_eq_nil, hlength]

omit [Quantity α] in
theorem checkPolicy_canonical (c : Condition α) :
    checkPolicy c.canonical = [] ↔ checkPolicy c = [] := by
  simp only [checkPolicy, when_eq_nil, Condition.canonical]

theorem checkRange_canonical (c : Condition α) :
    checkRange c.canonical = [] ↔ checkRange c = [] := by
  have hrange : c.canonical.range = c.range := rfl
  simp only [checkRange, hrange]
  cases c.range with
  | none => rfl
  | some r =>
    dsimp only
    split
    · simp
    · simp only [List.append_eq_nil_iff, when_eq_nil]
      refine and_congr Iff.rfl ?_
      split
      · simp
      · simp only [when_eq_nil]

theorem accepted_canonical (c : Condition α) :
    Accepted maxLength c.canonical ↔ Accepted maxLength c := by
  have hboth (c : Condition α) : Accepted maxLength c ↔ checkShape c = [] ∧ checkSupport c = [] ∧
      checkTemporal maxLength c = [] ∧ checkPolicy c = [] ∧ checkRange c = [] :=
    ⟨fun h => ⟨h.shape, h.support, h.temporal, h.policy, h.range⟩,
      fun ⟨hs, hu, ht, hp, hr⟩ => ⟨hs, hu, ht, hp, hr⟩⟩
  simp only [hboth, checkShape_canonical, checkSupport_canonical, checkTemporal_canonical,
    checkPolicy_canonical, checkRange_canonical]

theorem checkDerived_canonical (c : Condition α) :
    checkDerived conjunctive c.canonical = [] ↔ checkDerived conjunctive c = [] := by
  have hperiods : periods? c.canonical = periods? c := rfl
  simp only [checkDerived, Condition.fieldName_canonical, metric?_columnName, hperiods]
  cases metric? c.fieldName with
  | none => rfl
  | some m => simp only [List.append_eq_nil_iff, when_eq_nil, Condition.canonical]

theorem isWellFormed_canonical :
    IsWellFormed maxLength conjunctive f.canonical ↔ IsWellFormed maxLength conjunctive f := by
  unfold Filter.canonical
  induction f using Filter.induction generalizing conjunctive with
  | leaf c => rw [Filter.map, isWellFormed_leaf, isWellFormed_leaf, accepted_canonical,
      checkDerived_canonical]
  | not child ih => rw [Filter.map, isWellFormed_not, isWellFormed_not, ih]
  | group c children ih =>
    rw [Filter.map_group, isWellFormed_group, isWellFormed_group, List.length_map,
      List.forall_mem_map]
    exact and_congr_right fun _ => forall₂_congr fun f hf => ih f hf

/-- No two conditions on a field itself, rather than on a window of it, name one column in two
ways. -/
def AreUnmixed (cs : List (Condition α)) : Prop :=
  ∀ c ∈ cs, ∀ d ∈ cs, c.window = none → d.window = none →
    columnName c.fieldName = columnName d.fieldName → c.fieldName = d.fieldName

theorem report_apply_eq_nil_iff (t : BoundTable α) (c : Condition α) : (t.apply c).2 = [] ↔
    (((t.get c.fieldName).restrict c).isEmpty = true → (t.get c.fieldName).isEmpty = true) := by
  obtain ⟨hnil, hstays⟩ | ⟨upper, lower, hone, hafter, hbefore⟩ := report_apply t c
  · exact iff_of_true hnil hstays
  · simp [hone, hafter, hbefore]

/-- Tables with the same bounds for the fields of some conditions, each under its own name for
them. -/
def Aligned (cs : List (Condition α)) (t t' : BoundTable α) : Prop :=
  ∀ c ∈ cs, c.window = none → t.get c.fieldName = t'.get (columnName c.fieldName)

variable {c : Condition α} {cs : List (Condition α)} {t t' : BoundTable α}

theorem Aligned.apply (hcs : AreUnmixed (c :: cs)) (h : Aligned (c :: cs) t t') :
    Aligned cs (t.apply c).1 (t'.apply c.canonical).1 := by
  intro d hd hw
  have hbefore := h d (List.mem_cons_of_mem c hd) hw
  rw [get_apply, get_apply, Condition.fieldName_canonical]
  have hrestrict (b : Bounds α) : b.restrict c.canonical = b.restrict c := rfl
  by_cases hwindow : c.window = none
  · have hself := h c List.mem_cons_self hwindow
    have hname : c.fieldName = d.fieldName ↔ columnName c.fieldName = columnName d.fieldName :=
      ⟨congrArg columnName, hcs c List.mem_cons_self d (List.mem_cons_of_mem c hd) hwindow hw⟩
    simp only [hname, hrestrict, hself, hbefore]
  · simp only [hrestrict, Bounds.restrict_of_window hwindow]
    split_ifs with hname hcolumn hcolumn
    · rw [hname, hbefore]
    · exact absurd (congrArg columnName hname) hcolumn
    · rw [hcolumn, hbefore]
    · exact hbefore

theorem Aligned.report_eq_nil (h : Aligned (c :: cs) t t') :
    (t.apply c).2 = [] ↔ (t'.apply c.canonical).2 = [] := by
  have hrestrict (b : Bounds α) : b.restrict c.canonical = b.restrict c := rfl
  rw [report_apply_eq_nil_iff, report_apply_eq_nil_iff, Condition.fieldName_canonical, hrestrict]
  by_cases hwindow : c.window = none
  · rw [h c List.mem_cons_self hwindow]
  · simp only [Bounds.restrict_of_window hwindow, imp_self]

theorem conflictsAmong_canonical (hcs : AreUnmixed cs) (h : Aligned cs t t') :
    (conflictsAmong t cs).2 = [] ↔ (conflictsAmong t' (cs.map .canonical)).2 = [] := by
  induction cs generalizing t t' with
  | nil => rfl
  | cons c cs ih =>
    have hrest : AreUnmixed cs := fun d hd e he =>
      hcs d (List.mem_cons_of_mem c hd) e (List.mem_cons_of_mem c he)
    rw [List.map_cons, conflictsAmong_cons, conflictsAmong_cons, List.append_eq_nil_iff,
      List.append_eq_nil_iff, h.report_eq_nil, ih hrest (h.apply hcs)]

theorem conflictsWithin_canonical (hf : AreUnmixed f.members) :
    conflictsWithin f = [] ↔ conflictsWithin f.canonical = [] := by
  rw [conflictsWithin, conflictsWithin, Filter.canonical, Filter.members_map]
  exact conflictsAmong_canonical hf fun _ _ _ => rfl

theorem validate_canonical (hf : ∀ S ∈ f.scopes, AreUnmixed S.members) :
    validate maxLength f.canonical = .ok () ↔ validate maxLength f = .ok () := by
  have hscopes : (f.innerScopes.flatMap conflictsWithin = [] ↔
      f.canonical.innerScopes.flatMap conflictsWithin = []) := by
    rw [Filter.canonical, Filter.innerScopes_map, List.flatMap_map, List.flatMap_eq_nil_iff,
      List.flatMap_eq_nil_iff]
    exact forall₂_congr fun S hS => conflictsWithin_canonical (hf S (List.mem_cons_of_mem f hS))
  have hroot := conflictsWithin_canonical (hf f List.mem_cons_self)
  rw [conflictsWithin, conflictsWithin] at hroot
  rw [validate_iff, validate_iff, isWellFormed_canonical, conflictsOf_eq_nil, conflictsOf_eq_nil,
    hroot, hscopes]

theorem Conflicting.canonical {name : String} (h : Conflicting cs name) :
    Conflicting (cs.map .canonical) (columnName name) := by
  obtain ⟨c, hc, d, hd, rfl, hname, low, hlow, high, hhigh, hcross⟩ := h
  exact ⟨c.canonical, List.mem_map_of_mem hc, d.canonical, List.mem_map_of_mem hd,
    c.fieldName_canonical, hname ▸ d.fieldName_canonical, low, hlow, high, hhigh, hcross⟩

/-- Aliases hide conflicts but bring none about: a tree that is valid under the names of columns is
so in every spelling. -/
theorem validate_of_canonical [LinearOrder α] [Quantity.IsLinear α]
    (h : validate maxLength f.canonical = .ok ()) : validate maxLength f = .ok () := by
  have hfree {cs : List (Condition α)} (hcs : (conflictsAmong [] (cs.map .canonical)).2 = []) :
      (conflictsAmong [] cs).2 = [] :=
    conflictsAmong_eq_nil.mpr fun name hname => conflictsAmong_eq_nil.mp hcs _ hname.canonical
  obtain ⟨hformed, hconflicts⟩ := validate_iff.mp h
  obtain ⟨hmembers, hscopes⟩ := conflictsOf_eq_nil.mp hconflicts
  rw [Filter.canonical, Filter.members_map] at hmembers
  rw [Filter.canonical, Filter.innerScopes_map, List.flatMap_map,
    List.flatMap_eq_nil_iff] at hscopes
  refine validate_iff.mpr ⟨isWellFormed_canonical.mp hformed, conflictsOf_eq_nil.mpr
    ⟨hfree hmembers, List.flatMap_eq_nil_iff.mpr fun S hS => hfree ?_⟩⟩
  rw [← Filter.members_map]
  exact hscopes S hS

end Validation

end EquityScreen
