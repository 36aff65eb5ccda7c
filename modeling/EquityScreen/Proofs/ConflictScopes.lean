import EquityScreen.Proofs.BoundTracking
import Mathlib.Data.Multiset.Defs

namespace EquityScreen

variable {α : Type}

namespace Filter

mutual

/-- The conditions that conjunctions alone connect with the root. -/
def members : Filter α → List (Condition α)
  | .group .and children => membersOfAll children
  | .group .or _ | .not _ => []
  | .leaf c => [c]

def membersOfAll : List (Filter α) → List (Condition α)
  | [] => []
  | f :: rest => f.members ++ membersOfAll rest

end

mutual

def innerScopes : Filter α → List (Filter α)
  | .group .and children => innerScopesOfAll children
  | .group .or children => scopesOfAll children
  | .not child => child :: child.innerScopes
  | .leaf _ => []

def innerScopesOfAll : List (Filter α) → List (Filter α)
  | [] => []
  | f :: rest => f.innerScopes ++ innerScopesOfAll rest

def scopesOfAll : List (Filter α) → List (Filter α)
  | [] => []
  | f :: rest => f :: f.innerScopes ++ scopesOfAll rest

end

/-- The scopes of a tree by their roots: the tree itself, the alternatives and the negated
subtrees. -/
def scopes (f : Filter α) : List (Filter α) := f :: f.innerScopes

theorem members_and (children : List (Filter α)) :
    (group .and children).members = children.flatMap members := by
  have h (fs : List (Filter α)) : membersOfAll fs = fs.flatMap members := by
    induction fs with
    | nil => rfl
    | cons f rest ih => simp [membersOfAll, ih]
  exact h children

theorem innerScopes_and (children : List (Filter α)) :
    (group .and children).innerScopes = children.flatMap innerScopes := by
  have h (fs : List (Filter α)) : innerScopesOfAll fs = fs.flatMap innerScopes := by
    induction fs with
    | nil => rfl
    | cons f rest ih => simp [innerScopesOfAll, ih]
  exact h children

theorem innerScopes_or (children : List (Filter α)) :
    (group .or children).innerScopes = children.flatMap scopes := by
  have h (fs : List (Filter α)) : scopesOfAll fs = fs.flatMap scopes := by
    induction fs with
    | nil => rfl
    | cons f rest ih => simp [scopesOfAll, scopes, ih]
  exact h children

def shared (c : Connective) (f : Filter α) : List (Condition α) :=
  match c with
  | .and => f.members
  | .or => []

def enclosed (c : Connective) (f : Filter α) : List (Filter α) :=
  match c with
  | .and => f.innerScopes
  | .or => f.scopes

theorem members_group (c : Connective) (children : List (Filter α)) :
    (group c children).members = children.flatMap (shared c) := by
  cases c with
  | and => exact members_and children
  | or => exact (List.flatMap_eq_nil_iff.mpr fun _ _ => rfl).symm

theorem innerScopes_group (c : Connective) (children : List (Filter α)) :
    (group c children).innerScopes = children.flatMap (enclosed c) := by
  cases c with
  | and => exact innerScopes_and children
  | or => exact innerScopes_or children

theorem innerScopes_not (child : Filter α) : (Filter.not child).innerScopes = child.scopes := rfl

end Filter

namespace Validation

section

variable [Quantity α]

theorem conflictsOfEach_eq_flatMap (fs : List (Filter α)) :
    conflictsOfEach fs = fs.flatMap fun f => (conflictsOf [] f).2 := by
  induction fs with
  | nil => rfl
  | cons f rest ih => simp [conflictsOfEach, ih]

def conflictsAmong (t : BoundTable α) (cs : List (Condition α)) : BoundTable α × Report α :=
  conflictsOfAll t (cs.map .leaf)

theorem conflictsAmong_cons (t : BoundTable α) (c : Condition α) (cs : List (Condition α)) :
    conflictsAmong t (c :: cs) =
      ((conflictsAmong (t.apply c).1 cs).1,
        (t.apply c).2 ++ (conflictsAmong (t.apply c).1 cs).2) := rfl

theorem conflictsAmong_append (t : BoundTable α) (cs ds : List (Condition α)) :
    conflictsAmong t (cs ++ ds) =
      ((conflictsAmong (conflictsAmong t cs).1 ds).1,
        (conflictsAmong t cs).2 ++ (conflictsAmong (conflictsAmong t cs).1 ds).2) := by
  induction cs generalizing t with
  | nil => rfl
  | cons c cs ih => simp [conflictsAmong_cons, ih]

def conflictsWithin (scope : Filter α) : Report α := (conflictsAmong [] scope.members).2

/-- The bounds after a tree are those after its members, and its conflicts are those among its
members and those in the scopes inside. -/
theorem conflictsOf_scopes (t : BoundTable α) (f : Filter α) :
    (conflictsOf t f).1 = (conflictsAmong t f.members).1 ∧
      (conflictsOf t f).2.Perm
        ((conflictsAmong t f.members).2 ++ f.innerScopes.flatMap conflictsWithin) := by
  induction f using Filter.induction generalizing t with
  | leaf c =>
    refine ⟨rfl, ?_⟩
    simp [conflictsOf, Filter.members, Filter.innerScopes, conflictsAmong, conflictsOfAll]
  | not child ih =>
    refine ⟨rfl, ?_⟩
    simpa [Filter.members, Filter.innerScopes, conflictsAmong, conflictsOf, conflictsOfAll,
      conflictsWithin] using (ih []).2
  | group c children ih =>
    cases c with
    | or =>
      refine ⟨rfl, ?_⟩
      rw [Filter.innerScopes_or, conflictsOf, conflictsOfEach_eq_flatMap, List.flatMap_assoc]
      exact List.Perm.flatMap_left _ fun f hf => (ih f hf []).2
    | and =>
      rw [Filter.members_and, Filter.innerScopes_and]
      change (conflictsOfAll t children).1 = _ ∧ (conflictsOfAll t children).2.Perm _
      induction children generalizing t with
      | nil => exact ⟨rfl, .refl _⟩
      | cons f rest ihr =>
        obtain ⟨htable, hreport⟩ := ih f (by simp) t
        obtain ⟨htables, hreports⟩ := ihr (fun g hg => ih g (by simp [hg])) (conflictsOf t f).1
        rw [htable] at htables hreports
        simp only [conflictsOfAll, List.flatMap_cons, conflictsAmong_append, htable,
          List.flatMap_append]
        refine ⟨htables, (hreport.append hreports).trans ?_⟩
        rw [List.append_assoc, List.append_assoc]
        exact List.Perm.append_left _ (List.perm_append_comm_assoc ..)

theorem get_apply (t : BoundTable α) (c : Condition α) (name : String) :
    (t.apply c).1.get name =
      if c.fieldName = name then (t.get c.fieldName).restrict c else t.get name := by
  by_cases h : c.fieldName = name
  · simp [BoundTable.apply, BoundTable.get, h]
  · simp [BoundTable.apply, BoundTable.get, h]

theorem report_apply (t : BoundTable α) (c : Condition α) :
    ((t.apply c).2 = [] ∧
      (((t.get c.fieldName).restrict c).isEmpty = true → (t.get c.fieldName).isEmpty = true)) ∨
    ∃ upper lower, (t.apply c).2 = [.conflict c.fieldName upper lower] ∧
      ((t.get c.fieldName).restrict c).isEmpty = true ∧ (t.get c.fieldName).isEmpty = false := by
  simp only [BoundTable.apply]
  generalize t.get c.fieldName = before
  generalize before.restrict c = after
  obtain ⟨_ | lower, _ | upper⟩ := after
  · simp [Bounds.isEmpty]
  · simp [Bounds.isEmpty]
  · simp [Bounds.isEmpty]
  · cases Bounds.isEmpty ⟨some lower, some upper⟩ <;> cases before.isEmpty <;> simp

end

def isConflictOn (name : String) (v : Violation α) : Bool :=
  v.code = .conflict && v.field? = some name

section

variable {t : BoundTable ℚ} {done : List (Condition ℚ)} {report : Report ℚ}

/-- Can a number in a field be admitted by all conditions on that field? -/
def IsSatisfiable (cs : List (Condition ℚ)) (name : String) : Prop :=
  ∃ x, ∀ c ∈ cs, c.fieldName = name → c.Admits x

/-- What holds of the bounds and of the report once some conditions are taken in: the bounds of a
field allow what the conditions on it admit, and a field is reported once if its bounds are empty
and is not reported otherwise. -/
structure Tracks (done : List (Condition ℚ)) (t : BoundTable ℚ) (report : Report ℚ) : Prop where
  allows : ∀ name x, (t.get name).Allows x ↔ ∀ c ∈ done, c.fieldName = name → c.Admits x
  conflicts : ∀ v ∈ report, v.code = .conflict
  counted : ∀ name, report.countP (isConflictOn name) = (t.get name).isEmpty.toNat

theorem tracks_nil : Tracks [] [] [] where
  allows _ x := iff_of_true (Bounds.allows_unbounded x) (by simp)
  conflicts := by simp
  counted _ := by simp [BoundTable.get, Bounds.isEmpty, Bounds.unbounded]

theorem isConflictOn_conflict {field name : String} (hf : field.isEmpty = false)
    (upper lower : Bound α) :
    isConflictOn name (.conflict field upper lower) = decide (field = name) := by
  simp [isConflictOn, Violation.code, Violation.field?, Violation.field?.about, hf]

theorem fieldName_of_checkShape {c : Condition α} (h : checkShape c = []) :
    c.fieldName.isEmpty = false := by
  cases hf : c.fieldName.isEmpty with
  | false => rfl
  | true =>
    simp only [checkShape, hf, if_true] at h
    cases h

theorem isEmpty_restrict {b : Bounds ℚ} {c : Condition ℚ} (hc : checkShape c = [])
    (h : b.isEmpty = true) : (b.restrict c).isEmpty = true := by
  rw [Bounds.isEmpty_iff] at h ⊢
  rintro ⟨x, hx⟩
  exact h ⟨x, ((Bounds.allows_restrict (Condition.operator_or_range hc)).mp hx).1⟩

theorem Tracks.apply (h : Tracks done t report) {c : Condition ℚ} (hc : checkShape c = []) :
    Tracks (done ++ [c]) (t.apply c).1 (report ++ (t.apply c).2) := by
  refine ⟨fun name x => ?allows, ?conflicts, fun name => ?counted⟩
  case allows =>
    rw [get_apply, List.forall_mem_append, List.forall_mem_singleton, ← h.allows name x]
    split
    · next hname =>
      subst hname
      rw [Bounds.allows_restrict (Condition.operator_or_range hc)]
      simp
    · next hname => simp [hname]
  case conflicts =>
    rw [List.forall_mem_append]
    refine ⟨h.conflicts, ?_⟩
    obtain ⟨hnone, -⟩ | ⟨upper, lower, hone, -⟩ := report_apply t c
    · simp [hnone]
    · simp [hone, Violation.code]
  case counted =>
    rw [List.countP_append, h.counted, get_apply]
    obtain ⟨hnone, hstays⟩ | ⟨upper, lower, hone, hafter, hbefore⟩ := report_apply t c
    · rw [hnone, List.countP_nil]
      split
      · next hname =>
        subst hname
        have hmono := isEmpty_restrict hc (b := t.get c.fieldName)
        cases hb : (t.get c.fieldName).isEmpty <;> simp_all
      · rfl
    · rw [hone, List.countP_singleton, isConflictOn_conflict (fieldName_of_checkShape hc)]
      by_cases hname : c.fieldName = name
      · subst hname
        simp [hafter, hbefore]
      · simp [hname]

theorem tracks_conflictsAmong (h : Tracks done t report) {cs : List (Condition ℚ)}
    (hcs : ∀ c ∈ cs, checkShape c = []) :
    Tracks (done ++ cs) (conflictsAmong t cs).1 (report ++ (conflictsAmong t cs).2) := by
  induction cs generalizing done t report with
  | nil => simpa [conflictsAmong, conflictsOfAll] using h
  | cons c cs ih =>
    obtain ⟨hc, hrest⟩ := List.forall_mem_cons.mp hcs
    simpa [conflictsAmong_cons] using ih (h.apply hc) hrest

theorem countP_conflictsWithin {scope : Filter ℚ} (hc : ∀ c ∈ scope.members, checkShape c = [])
    (name : String) :
    (¬ IsSatisfiable scope.members name →
      (conflictsWithin scope).countP (isConflictOn name) = 1) ∧
    (IsSatisfiable scope.members name →
      (conflictsWithin scope).countP (isConflictOn name) = 0) := by
  have htracks := tracks_conflictsAmong tracks_nil hc
  rw [List.nil_append, List.nil_append] at htracks
  have hempty : ((conflictsAmong [] scope.members).1.get name).isEmpty = true ↔
      ¬ IsSatisfiable scope.members name := by
    rw [Bounds.isEmpty_iff, IsSatisfiable]
    exact not_congr (exists_congr (htracks.allows name))
  rw [conflictsWithin, htracks.counted]
  refine ⟨fun h => by rw [hempty.mpr h]; rfl, fun h => ?_⟩
  have hfalse : ((conflictsAmong [] scope.members).1.get name).isEmpty = false := by
    rw [← Bool.not_eq_true, hempty]
    exact not_not_intro h
  rw [hfalse]
  rfl

end

end Validation

namespace Filter

theorem mem_conditions_of_mem_members {f : Filter α} : ∀ c ∈ f.members, c ∈ f.conditions := by
  induction f using Filter.induction with
  | leaf c => exact fun _ h => h
  | not child ih => simp [members]
  | group c children ih =>
    intro d hd
    rw [members_group, List.mem_flatMap] at hd
    obtain ⟨f, hf, hd⟩ := hd
    refine conditions_group c children ▸ List.mem_flatMap.mpr ⟨f, hf, ih f hf d ?_⟩
    cases c with
    | and => exact hd
    | or => cases hd

theorem mem_conditions_of_mem_scopes {f : Filter α} :
    ∀ S ∈ f.scopes, ∀ c ∈ S.conditions, c ∈ f.conditions := by
  induction f using Filter.induction with
  | leaf c => simp [scopes, innerScopes]
  | not child ih =>
    rw [scopes, innerScopes_not, List.forall_mem_cons]
    exact ⟨fun _ h => h, ih⟩
  | group c children ih =>
    rw [scopes, List.forall_mem_cons]
    refine ⟨fun _ h => h, fun S hS d hd => ?_⟩
    rw [innerScopes_group, List.mem_flatMap] at hS
    obtain ⟨f, hf, hS⟩ := hS
    have hS : S ∈ f.scopes := by
      cases c with
      | and => exact List.mem_cons_of_mem _ hS
      | or => exact hS
    exact conditions_group c children ▸ List.mem_flatMap.mpr ⟨f, hf, ih f hf S hS d hd⟩

/-- Trees that differ in the order of siblings and in how conjunctions are nested. -/
inductive Rearranged : Filter α → Filter α → Prop
  | refl (f : Filter α) : Rearranged f f
  | symm {f g : Filter α} (h : Rearranged f g) : Rearranged g f
  | trans {f g h : Filter α} (hfg : Rearranged f g) (hgh : Rearranged g h) : Rearranged f h
  | permute (c : Connective) {fs gs : List (Filter α)} (h : fs.Perm gs) :
      Rearranged (.group c fs) (.group c gs)
  | nest (before inner after : List (Filter α)) :
      Rearranged (.group .and (before ++ .group .and inner :: after))
        (.group .and (before ++ inner ++ after))
  | child (c : Connective) (before after : List (Filter α)) {f g : Filter α}
      (h : Rearranged f g) : Rearranged (.group c (before ++ f :: after))
        (.group c (before ++ g :: after))
  | not {f g : Filter α} (h : Rearranged f g) : Rearranged (.not f) (.not g)

def memberSet (scope : Filter α) : Multiset (Condition α) := scope.members

structure Alike (f g : Filter α) : Prop where
  conditions : f.conditions.Perm g.conditions
  members : f.members.Perm g.members
  inner : (f.innerScopes.map memberSet).Perm (g.innerScopes.map memberSet)

namespace Alike

variable {f g : Filter α}

theorem symm (h : Alike f g) : Alike g f := ⟨h.conditions.symm, h.members.symm, h.inner.symm⟩

theorem trans {h : Filter α} (hfg : Alike f g) (hgh : Alike g h) : Alike f h :=
  ⟨hfg.conditions.trans hgh.conditions, hfg.members.trans hgh.members, hfg.inner.trans hgh.inner⟩

theorem scopes (h : Alike f g) : (f.scopes.map memberSet).Perm (g.scopes.map memberSet) := by
  have hroot : f.memberSet = g.memberSet := Multiset.coe_eq_coe.mpr h.members
  rw [Filter.scopes, Filter.scopes, List.map_cons, List.map_cons, hroot]
  exact h.inner.cons _

theorem shared (h : Alike f g) (c : Connective) : (f.shared c).Perm (g.shared c) := by
  cases c with
  | and => exact h.members
  | or => exact .refl _

theorem enclosed (h : Alike f g) (c : Connective) :
    ((f.enclosed c).map memberSet).Perm ((g.enclosed c).map memberSet) := by
  cases c with
  | and => exact h.inner
  | or => exact h.scopes

theorem permute (c : Connective) {fs gs : List (Filter α)} (h : fs.Perm gs) :
    Alike (.group c fs) (.group c gs) where
  conditions := by
    rw [conditions_group, conditions_group]
    exact h.flatMap_right _
  members := by
    rw [members_group, members_group]
    exact h.flatMap_right _
  inner := by
    rw [innerScopes_group, innerScopes_group]
    exact (h.flatMap_right _).map _

theorem nest (before inner after : List (Filter α)) :
    Alike (.group .and (before ++ .group .and inner :: after))
      (.group .and (before ++ inner ++ after)) where
  conditions := by simp
  members := by simp [members_and]
  inner := by simp [innerScopes_and]

theorem child (h : Alike f g) (c : Connective) (before after : List (Filter α)) :
    Alike (.group c (before ++ f :: after)) (.group c (before ++ g :: after)) where
  conditions := by
    simp only [conditions_group, List.flatMap_append, List.flatMap_cons]
    exact (h.conditions.append_right _).append_left _
  members := by
    simp only [members_group, List.flatMap_append, List.flatMap_cons]
    exact ((h.shared c).append_right _).append_left _
  inner := by
    simp only [innerScopes_group, List.flatMap_append, List.flatMap_cons, List.map_append]
    exact ((h.enclosed c).append_right _).append_left _

end Alike

theorem Rearranged.alike {f g : Filter α} (h : Rearranged f g) : Alike f g := by
  induction h with
  | refl f => exact ⟨.refl _, .refl _, .refl _⟩
  | symm _ ih => exact ih.symm
  | trans _ _ ih ih' => exact ih.trans ih'
  | permute c h => exact .permute c h
  | nest before inner after => exact .nest before inner after
  | child c before after _ ih => exact ih.child c before after
  | not _ ih => exact ⟨ih.conditions, .refl _, ih.scopes⟩

end Filter

namespace Validation

def finding (scope : Filter ℚ) : Multiset (Condition ℚ) × Set String :=
  (scope.memberSet, {name | ∃ v ∈ conflictsWithin scope, isConflictOn name v = true})

def findingOf (members : Multiset (Condition ℚ)) : Multiset (Condition ℚ) × Set String :=
  (members, {name | ¬ ∃ x, ∀ c ∈ members, c.fieldName = name → c.Admits x})

theorem finding_eq {scope : Filter ℚ} (hc : ∀ c ∈ scope.members, checkShape c = []) :
    finding scope = findingOf scope.memberSet := by
  refine Prod.ext rfl (Set.ext fun name => ?_)
  obtain ⟨hone, hnone⟩ := countP_conflictsWithin hc name
  change (∃ v ∈ conflictsWithin scope, isConflictOn name v = true) ↔
    ¬ IsSatisfiable scope.members name
  rw [← List.countP_pos_iff]
  by_cases h : IsSatisfiable scope.members name
  · simp [hnone h, h]
  · simp [hone h, h]

/-- The conflict pass is exact. In a tree of well-formed conditions it reports, scope by scope, each
field once whose conditions among the members of the scope admit no common number, and nothing
else. Neither the order of conditions nor the nesting of conjunctions has a part in it. -/
theorem conflictsOf_exact (f : Filter ℚ) (hf : structureOf f = []) :
    (conflictsOf [] f).2.Perm (f.scopes.flatMap conflictsWithin) ∧
    (∀ S ∈ f.scopes, (∀ v ∈ conflictsWithin S, v.code = .conflict) ∧
      ∀ name,
        (¬ (∃ x : ℚ, ∀ c ∈ S.members, c.fieldName = name → c.Admits x) →
          (conflictsWithin S).countP (isConflictOn name) = 1) ∧
        ((∃ x : ℚ, ∀ c ∈ S.members, c.fieldName = name → c.Admits x) →
          (conflictsWithin S).countP (isConflictOn name) = 0)) ∧
    ∀ g, f.Rearranged g → (f.scopes.map finding).Perm (g.scopes.map finding) := by
  have hshape := checkShape_of_structureOf hf
  have hmembers {g : Filter ℚ} (hg : f.Alike g) {S : Filter ℚ} (hS : S ∈ g.scopes) :
      ∀ c ∈ S.members, checkShape c = [] := fun c hc =>
    hshape c (hg.conditions.mem_iff.mpr (Filter.mem_conditions_of_mem_scopes S hS c
      (Filter.mem_conditions_of_mem_members c hc)))
  have hself : f.Alike f := ⟨.refl _, .refl _, .refl _⟩
  refine ⟨(conflictsOf_scopes [] f).2, fun S hS => ⟨?_, fun name => ?_⟩, fun g hg => ?_⟩
  · exact (tracks_conflictsAmong tracks_nil (hmembers hself hS)).conflicts
  · exact countP_conflictsWithin (hmembers hself hS) name
  · have hfindings {g : Filter ℚ} (hg : f.Alike g) :
        g.scopes.map finding = (g.scopes.map Filter.memberSet).map findingOf := by
      rw [List.map_map]
      exact List.map_congr_left fun S hS => finding_eq (hmembers hg hS)
    rw [hfindings hself, hfindings hg.alike]
    exact hg.alike.scopes.map _

def nestedConflict : Filter ℚ :=
  .group .and
    [.leaf ⟨"roe", none, none, some ⟨some (.int 5), some (.int 15), none, none⟩, none, none, none⟩,
     .group .and
      [.leaf ⟨"eps", ">", some (.int 1), none, none, none, none⟩,
       .leaf ⟨"roe", ">=", some (.int 20), none, none, none, none⟩],
     .not (.leaf ⟨"roe", "<", some (.int 5), none, none, none, none⟩)]

theorem conflictsOf_exact_nestedConflict :
    (conflictsWithin nestedConflict).countP (isConflictOn "roe") = 1 ∧
      (conflictsWithin nestedConflict).countP (isConflictOn "eps") = 0 := by
  have hs : structureOf nestedConflict = [] := rfl
  obtain ⟨-, hscopes, -⟩ := conflictsOf_exact nestedConflict hs
  obtain ⟨-, hfields⟩ := hscopes nestedConflict List.mem_cons_self
  refine ⟨(hfields "roe").1 ?roe, (hfields "eps").2 ⟨2, ?eps⟩⟩
  case roe =>
    rintro ⟨x, hx⟩
    obtain ⟨-, hbelow⟩ := (hx _ (.head _) rfl).range rfl _ rfl (by
      rintro low ⟨⟩ high ⟨⟩
      decide)
    have habove : (20 : ℚ) ≤ x := (hx _ (.tail _ (.tail _ (.head _))) rfl).comparison rfl ">=" rfl
      .ge rfl _ rfl 20 rfl
    have hbelow : x ≤ (15 : ℚ) := hbelow 15 rfl
    exact absurd (habove.trans hbelow) (by decide)
  case eps =>
    intro c hc hname
    simp only [nestedConflict, Filter.members, Filter.membersOfAll, List.cons_append,
      List.nil_append, List.append_nil, List.mem_cons, List.not_mem_nil, or_false] at hc
    obtain rfl | rfl | rfl := hc
    · exact absurd hname (by decide)
    · refine ⟨fun _ word hw op hop l hl v hv => ?_, fun _ _ hr => nomatch hr⟩
      cases hw
      cases hl
      cases hv
      cases hop
      exact (by decide : (1 : ℚ) < 2)
    · exact absurd hname (by decide)

end Validation

end EquityScreen
