import EquityScreen.Proofs.CompositionalValidation
import EquityScreen.Proofs.ConflictMeaning

namespace EquityScreen

open Quantity

variable {α : Type}

namespace Range

def comparisons (r : Range α) : List (Operator × Literal α) :=
  (r.min.map fun low => (if r.isInclusive then .ge else .gt, low)).toList ++
    (r.max.map fun high => (if r.isInclusive then .le else .lt, high)).toList

theorem forall_comparisons {r : Range α} {P : Literal α → Prop} :
    (∀ p ∈ r.comparisons, P p.2) ↔ (∀ low ∈ r.min, P low) ∧ ∀ high ∈ r.max, P high := by
  unfold comparisons
  cases r.min <;> cases r.max <;> simp

end Range

namespace Condition

def comparing (c : Condition α) (p : Operator × Literal α) : Condition α :=
  { c with operator := some p.1.sql, value := some p.2, range := none }

def unfolded (c : Condition α) (r : Range α) : List (Condition α) := r.comparisons.map c.comparing

end Condition

namespace Filter

def conjunction : List (Condition α) → Filter α
  | [c] => .leaf c
  | cs => .group .and (cs.map .leaf)

/-- A tree, and the tree that has comparisons in place of one of its ranges. The bounds of the range
are precise: the store compares with the numbers that are written. -/
inductive Unfolds [Quantity α] : Filter α → Filter α → Prop
  | range {c : Condition α} {r : Range α} (hr : c.range = some r)
      (hp : ∀ p ∈ r.comparisons, p.2.IsPrecise) : Unfolds (.leaf c) (conjunction (c.unfolded r))
  | child (k : Connective) (before after : List (Filter α)) {f g : Filter α} (h : Unfolds f g) :
      Unfolds (.group k (before ++ f :: after)) (.group k (before ++ g :: after))
  | not {f g : Filter α} (h : Unfolds f g) : Unfolds (.not f) (.not g)

theorem conditions_conjunction (cs : List (Condition α)) : (conjunction cs).conditions = cs := by
  unfold conjunction
  split
  · rfl
  · simp [List.flatMap_map]

theorem members_conjunction (cs : List (Condition α)) : (conjunction cs).members = cs := by
  unfold conjunction
  split
  · rfl
  · rw [members_and]
    simp [members, List.flatMap_map]

theorem innerScopes_conjunction (cs : List (Condition α)) :
    (conjunction cs).innerScopes = [] := by
  unfold conjunction
  split
  · rfl
  · rw [innerScopes_and]
    simp [innerScopes, List.flatMap_map]

theorem Unfolds.conditions [Quantity α] {f g : Filter α} (h : f.Unfolds g) :
    ∃ before c r after, c.range = some r ∧ f.conditions = before ++ c :: after ∧
      g.conditions = before ++ c.unfolded r ++ after := by
  induction h with
  | range hr => exact ⟨[], _, _, [], hr, rfl, by simp [conditions_conjunction]⟩
  | not _ ih => exact ih
  | child k before after _ ih =>
    obtain ⟨front, c, r, back, hr, hf, hg⟩ := ih
    refine ⟨before.flatMap Filter.conditions ++ front, c, r,
      back ++ after.flatMap Filter.conditions, hr, ?_, ?_⟩
    · simp [hf]
    · simp [hg]

end Filter

theorem Operator.read_sql (op : Operator) : Operator.read op.sql = .ok op := by
  cases op <;> rfl

namespace Validation

variable [Quantity α] {maxLength : Nat} {conjunctive : Bool} {c : Condition α} {r : Range α}
  {f g : Filter α}

/-- What is known of a range that is not reported. -/
structure IsOrderly (c : Condition α) (r : Range α) : Prop where
  operator : c.operator = none
  trend : c.trend = none
  bounded : r.comparisons ≠ []
  numeric : ∀ p ∈ r.comparisons, p.2.isNumeric = true
  ordered : Bounds.isInverted r.lower? r.upper? = false

theorem Accepted.isOrderly (h : Accepted maxLength c) (hr : c.range = some r) : IsOrderly c r := by
  have hshape := Condition.operator_or_range h.shape
  have htrend : c.trend = none := by
    rcases shape_of_checkShape h.shape with ⟨_, _, _, hnone, _⟩ | ⟨_, _, ht⟩ | ⟨_, _, hnone, _, _⟩
    · simp [hr] at hnone
    · exact ht
    · simp [hr] at hnone
  have hrange := h.range
  simp only [checkRange, hr] at hrange
  split at hrange
  · cases hrange
  · next hbounded =>
    rw [List.append_eq_nil_iff] at hrange
    have hrange := hrange.2
    split at hrange
    · cases hrange
    · next hnumeric =>
      rw [when_eq_nil] at hrange
      refine ⟨by simpa [hr] using hshape, htrend, ?_, ?_, hrange⟩
      · rcases hmin : r.min <;> rcases hmax : r.max <;> simp_all [Range.comparisons]
      · rcases hmin : r.min <;> rcases hmax : r.max <;> simp_all [Range.comparisons]

omit [Quantity α] in
theorem isMissing_eq_false {l : Literal α} (h : l.isNumeric = true) :
    checkShape.isMissing (some l) = false := by
  cases l <;> first | rfl | cases h

omit [Quantity α] in
theorem checkField_comparing {d : Field} {p : Operator × Literal α} (hp : p.2.isNumeric = true)
    (h : checkField c.fieldName d c = []) : checkField c.fieldName d (c.comparing p) = [] := by
  have hdirect : (c.comparing p).isDirect = c.isDirect := rfl
  simp only [checkField, hdirect, List.append_eq_nil_iff, when_eq_nil] at h ⊢
  refine ⟨⟨h.1.1, by simp [Condition.comparing]⟩, ?_⟩
  cases d.kind with
  | numeric => simp [Condition.comparing, hp]
  | text => simp [Condition.comparing]

theorem Accepted.comparing (h : Accepted maxLength c) (hr : c.range = some r)
    {p : Operator × Literal α} (hp : p ∈ r.comparisons) : Accepted maxLength (c.comparing p) := by
  have horderly := h.isOrderly hr
  have hnumeric := horderly.numeric p hp
  refine ⟨?shape, ?support, h.temporal, h.policy, rfl⟩
  case shape =>
    have hname : (c.comparing p).fieldName = c.fieldName := rfl
    have hshapes : (c.comparing p).shapes = 1 := by
      simp [Condition.shapes, Condition.comparing, horderly.trend]
    simp only [checkShape, hname, hshapes, fieldName_of_checkShape h.shape, Bool.false_eq_true,
      if_false, List.append_eq_nil_iff, when_eq_nil, unsupported_eq_nil]
    simp [Condition.comparing, Operator.read_sql, isMissing_eq_false hnumeric, horderly.trend]
  case support =>
    have hname : (c.comparing p).fieldName = c.fieldName := rfl
    have hwindow : (c.comparing p).window = c.window := rfl
    have hsupport := h.support
    simp only [checkSupport, hname, hwindow] at hsupport ⊢
    cases hf : field? c.fieldName with
    | none => simpa only [hf] using hsupport
    | some d =>
      simp only [hf, List.append_eq_nil_iff] at hsupport ⊢
      exact ⟨hsupport.1, checkField_comparing hnumeric hsupport.2⟩

theorem checkDerived_comparing {p : Operator × Literal α} (hp : p.2.isNumeric = true)
    (h : checkDerived conjunctive c = []) : checkDerived conjunctive (c.comparing p) = [] := by
  have hname : (c.comparing p).fieldName = c.fieldName := rfl
  have hperiods : periods? (c.comparing p) = periods? c := rfl
  simp only [checkDerived, hname, hperiods] at h ⊢
  cases hm : metric? c.fieldName with
  | none => rfl
  | some m =>
    simp only [hm, List.append_eq_nil_iff, when_eq_nil] at h ⊢
    obtain ⟨⟨⟨⟨hconjunctive, htrend⟩, -⟩, hwindow⟩, hshort⟩ := h
    exact ⟨⟨⟨⟨hconjunctive, htrend⟩, by simp [Condition.comparing, hp]⟩, hwindow⟩, hshort⟩

theorem isWellFormed_conjunction {cs : List (Condition α)} (hne : cs ≠ [])
    (h : ∀ d ∈ cs, IsWellFormed maxLength conjunctive (.leaf d)) :
    IsWellFormed maxLength conjunctive (.conjunction cs) := by
  match cs with
  | [d] => exact h d (by simp)
  | d :: e :: rest =>
    refine isWellFormed_group.mpr ⟨by simp, fun f hf => ?_⟩
    obtain ⟨d, hd, rfl⟩ := List.mem_map.mp hf
    simpa using h d hd

theorem IsWellFormed.unfolds (hf : IsWellFormed maxLength conjunctive f) (h : f.Unfolds g) :
    IsWellFormed maxLength conjunctive g := by
  induction h generalizing conjunctive with
  | not _ ih => exact isWellFormed_not.mpr (ih (isWellFormed_not.mp hf))
  | child k before after _ ih =>
    rw [isWellFormed_group, List.forall_mem_append, List.forall_mem_cons] at hf ⊢
    obtain ⟨hlength, hbefore, hchild, hafter⟩ := hf
    exact ⟨by simpa using hlength, hbefore, ih hchild, hafter⟩
  | @range c r hr hp =>
    have hc := hf.accepted c (by simp)
    have hderived : checkDerived conjunctive c = [] := hf.derived
    have horderly := hc.isOrderly hr
    have hleaf : ∀ d ∈ c.unfolded r, IsWellFormed maxLength conjunctive (.leaf d) := by
      intro d hd
      obtain ⟨p, hp, rfl⟩ := List.mem_map.mp hd
      have hd := hc.comparing hr hp
      exact ⟨hd.shape, by simpa using hd, checkDerived_comparing (horderly.numeric p hp) hderived⟩
    exact isWellFormed_conjunction (by simpa [Condition.unfolded] using horderly.bounded) hleaf

/-- Conditions that leave the same numbers to every field, one after the other. -/
def LeaveAlike (cs ds : List (Condition α)) : Prop :=
  ∀ name (b : Bounds α), (cs.filter (·.fieldName = name)).foldl Bounds.restrict b =
    (ds.filter (·.fieldName = name)).foldl Bounds.restrict b

theorem LeaveAlike.refl (cs : List (Condition α)) : LeaveAlike cs cs := fun _ _ => rfl

theorem LeaveAlike.append {cs ds cs' ds' : List (Condition α)} (h : LeaveAlike cs ds)
    (h' : LeaveAlike cs' ds') : LeaveAlike (cs ++ cs') (ds ++ ds') := by
  intro name b
  simp only [List.filter_append, List.foldl_append, h name b, h' name]

theorem exists_number? {l : Literal α} (h : l.isNumeric = true) : ∃ x, l.number? = some x := by
  cases l with
  | int | real => exact ⟨_, rfl⟩
  | text | bool | null => cases h

theorem restrict_comparing (hw : c.window = none) (op : Operator) {l : Literal α} {x : α}
    (hx : l.number? = some x) (b : Bounds α) :
    b.restrict (c.comparing (op, l)) = b.compare op x := by
  simp [Bounds.restrict, Condition.comparing, hw, Operator.read_sql, hx]

/-- The comparisons with the bounds of a range leave what the range leaves. -/
theorem foldl_restrict_unfolded (h : IsOrderly c r) (hr : c.range = some r) (b : Bounds α) :
    (c.unfolded r).foldl Bounds.restrict b = b.restrict c := by
  by_cases hw : c.window = none
  · have hrange : b.restrict c = b.within r := by
      cases hv : c.value <;> simp [Bounds.restrict, hw, h.operator, hr, hv]
    rw [hrange, Bounds.within, h.ordered]
    obtain ⟨hlow, hhigh⟩ := Range.forall_comparisons (P := (·.isNumeric = true)) |>.mp h.numeric
    rw [Condition.unfolded, Range.lower?, Range.upper?, Range.comparisons]
    rcases hmin : r.min with _ | low <;> rcases hmax : r.max with _ | high
    · rfl
    · obtain ⟨y, hy⟩ := exists_number? (hhigh high hmax)
      cases r.isInclusive <;> simp [restrict_comparing hw, hy, Bounds.compare]
    · obtain ⟨x, hx⟩ := exists_number? (hlow low hmin)
      cases r.isInclusive <;> simp [restrict_comparing hw, hx, Bounds.compare]
    · obtain ⟨x, hx⟩ := exists_number? (hlow low hmin)
      obtain ⟨y, hy⟩ := exists_number? (hhigh high hmax)
      cases r.isInclusive <;> simp [restrict_comparing hw, hx, hy, Bounds.compare]
  · rw [Bounds.restrict_of_window hw, Condition.unfolded, List.foldl_map]
    exact List.foldl_fixed' (fun p => Bounds.restrict_of_window (c := c.comparing p) hw b) _

theorem leaveAlike_unfolded (h : IsOrderly c r) (hr : c.range = some r) :
    LeaveAlike [c] (c.unfolded r) := by
  intro name b
  have hnames : ∀ d ∈ c.unfolded r, d.fieldName = c.fieldName := by
    intro d hd
    obtain ⟨p, -, rfl⟩ := List.mem_map.mp hd
    rfl
  by_cases hname : c.fieldName = name
  · have hall : (c.unfolded r).filter (·.fieldName = name) = c.unfolded r :=
      List.filter_eq_self.mpr fun d hd => by simpa [hnames d hd] using hname
    rw [hall, foldl_restrict_unfolded h hr]
    simp [hname]
  · have hnone : (c.unfolded r).filter (·.fieldName = name) = [] :=
      List.filter_eq_nil_iff.mpr fun d hd => by simpa [hnames d hd] using hname
    rw [hnone]
    simp [hname]

theorem leaveAlike_unfolds (hf : ∀ c ∈ f.conditions, Accepted maxLength c) (h : f.Unfolds g) :
    LeaveAlike f.members g.members ∧
      List.Forall₂ (fun S T => LeaveAlike S.members T.members) f.innerScopes g.innerScopes := by
  induction h with
  | @range c r hr hp =>
    rw [Filter.members_conjunction, Filter.innerScopes_conjunction]
    exact ⟨leaveAlike_unfolded ((hf c (by simp)).isOrderly hr) hr, .nil⟩
  | not _ ih =>
    obtain ⟨hmembers, hscopes⟩ := ih hf
    exact ⟨.refl _, .cons hmembers hscopes⟩
  | @child k before after f g _ ih =>
    rw [Filter.conditions_group] at hf
    obtain ⟨hmembers, hscopes⟩ := ih fun c hc => hf c (by simp [hc])
    have hsame (fs : List (Filter α)) :
        List.Forall₂ (fun S T => LeaveAlike S.members T.members) fs fs :=
      List.forall₂_same.mpr fun S _ => .refl S.members
    simp only [Filter.members_group, Filter.innerScopes_group, List.flatMap_append,
      List.flatMap_cons]
    refine ⟨.append (.refl _) (.append ?_ (.refl _)),
      List.rel_append (hsame _) (List.rel_append ?_ (hsame _))⟩
    · cases k with
      | and => exact hmembers
      | or => exact .refl _
    · cases k with
      | and => exact hscopes
      | or => exact .cons hmembers hscopes

theorem LeaveAlike.get_conflictsAmong {cs ds : List (Condition α)} (h : LeaveAlike cs ds)
    (name : String) : (conflictsAmong [] cs).1.get name = (conflictsAmong [] ds).1.get name := by
  rw [Validation.get_conflictsAmong, Validation.get_conflictsAmong, h name]

theorem IsWellFormed.checkShape_of_scopes (hf : IsWellFormed maxLength conjunctive f) :
    ∀ S ∈ f.scopes, ∀ c ∈ S.members, checkShape c = [] := fun S hS c hc =>
  (hf.accepted c (Filter.mem_conditions_of_mem_scopes S hS c
    (Filter.mem_conditions_of_mem_members c hc))).shape

variable [LinearOrder α] [IsLinear α]

theorem countP_conflictsAmong {cs : List (Condition α)}
    (hcs : ∀ c ∈ cs, checkShape c = []) (t : BoundTable α) (name : String) :
    (conflictsAmong t cs).2.countP (isConflictOn name) + (t.get name).isEmpty.toNat =
      ((conflictsAmong t cs).1.get name).isEmpty.toNat := by
  induction cs generalizing t with
  | nil => exact Nat.zero_add _
  | cons c cs ih =>
    obtain ⟨hc, hcs⟩ := List.forall_mem_cons.mp hcs
    rw [conflictsAmong_cons, ← ih hcs, List.countP_append, get_apply]
    have hstays : (t.get c.fieldName).isEmpty = true →
        ((t.get c.fieldName).restrict c).isEmpty = true := by
      rw [Bounds.restrict_eq_meet]
      exact (Bounds.meet_isTighter_left _ _).isEmpty
    obtain ⟨hnone, hlater⟩ | ⟨upper, lower, hone, hafter, hbefore⟩ := report_apply t c
    · rw [hnone, List.countP_nil, Nat.zero_add]
      split
      · next hname =>
        subst hname
        rw [Bool.eq_iff_iff.mpr ⟨hstays, hlater⟩]
      · rfl
    · rw [hone, List.countP_singleton, isConflictOn_conflict (fieldName_of_checkShape hc)]
      by_cases hname : c.fieldName = name
      · subst hname
        simp [hafter, hbefore, Nat.add_comm]
      · simp [hname]

theorem LeaveAlike.conflictsAmong_eq_nil {cs ds : List (Condition α)} (h : LeaveAlike cs ds) :
    (conflictsAmong [] cs).2 = [] ↔ (conflictsAmong [] ds).2 = [] := by
  simp only [Validation.conflictsAmong_eq_nil, ← isEmpty_iff_conflicting, h.get_conflictsAmong]

theorem conflictsWithin_unfolds (hf : IsWellFormed maxLength conjunctive f) (h : f.Unfolds g) :
    List.Forall₂ (fun S T => ∀ name, (conflictsWithin S).countP (isConflictOn name) =
      (conflictsWithin T).countP (isConflictOn name)) f.scopes g.scopes := by
  obtain ⟨hmembers, hscopes⟩ := leaveAlike_unfolds hf.accepted h
  have hboth : List.Forall₂ (fun S T => LeaveAlike S.members T.members) f.scopes g.scopes :=
    .cons hmembers hscopes
  rw [List.forall₂_iff_zip] at hboth ⊢
  refine ⟨hboth.1, fun {S T} hmem name => ?_⟩
  obtain ⟨hS, hT⟩ := List.of_mem_zip hmem
  have hcount := countP_conflictsAmong (hf.checkShape_of_scopes S hS) [] name
  rw [(hboth.2 hmem).get_conflictsAmong,
    ← countP_conflictsAmong ((hf.unfolds h).checkShape_of_scopes T hT)] at hcount
  exact Nat.add_right_cancel hcount

theorem validate_unfolds (hf : IsWellFormed maxLength true f) (h : f.Unfolds g) :
    validate maxLength f = .ok () ↔ validate maxLength g = .ok () := by
  obtain ⟨hmembers, hscopes⟩ := leaveAlike_unfolds hf.accepted h
  rw [validate_iff, validate_iff, iff_true_intro hf, iff_true_intro (hf.unfolds h), true_and,
    true_and, conflictsOf_eq_nil, conflictsOf_eq_nil, hmembers.conflictsAmong_eq_nil]
  refine and_congr_right fun _ => ?_
  generalize f.innerScopes = Ss, g.innerScopes = Ts at hscopes
  induction hscopes with
  | nil => rfl
  | cons hST _ ih =>
    rw [List.flatMap_cons, List.flatMap_cons, List.append_eq_nil_iff, List.append_eq_nil_iff, ih]
    exact and_congr_left fun _ => hST.conflictsAmong_eq_nil

end Validation

end EquityScreen
