import EquityScreen.Proofs.ConflictScopes
import EquityScreen.Proofs.WellFormedTree

namespace EquityScreen

/-- The order of numbers is transitive, and numbers that are the same stand alike in it. Binary
floating point has these laws although not all of its values are comparable. -/
class Quantity.IsOrdered (α : Type) [Quantity α] : Prop where
  less_trans : ∀ x y z : α, less x y = true → less y z = true → less x z = true
  less_of_same_of_less : ∀ x y z : α, same x y = true → less y z = true → less x z = true
  less_of_less_of_same : ∀ x y z : α, less x y = true → same y z = true → less x z = true
  same_symm : ∀ x y : α, same x y = true → same y x = true
  same_trans : ∀ x y z : α, same x y = true → same y z = true → same x z = true

instance : Quantity.IsOrdered ℚ where
  less_trans _ _ _ h h' := decide_eq_true ((of_decide_eq_true h).trans (of_decide_eq_true h'))
  less_of_same_of_less _ _ _ h h' := of_decide_eq_true h ▸ h'
  less_of_less_of_same _ _ _ h h' := of_decide_eq_true h' ▸ h
  same_symm _ _ h := decide_eq_true (of_decide_eq_true h).symm
  same_trans _ _ _ h h' := decide_eq_true ((of_decide_eq_true h).trans (of_decide_eq_true h'))

variable {α : Type} [Quantity α]

namespace Quantity

/-- A direction in which bounds get tighter: upwards for lower bounds, downwards for upper ones. -/
structure IsDirection (lt : α → α → Bool) : Prop where
  trans : ∀ x y z, lt x y = true → lt y z = true → lt x z = true
  of_same_of_lt : ∀ x y z, same x y = true → lt y z = true → lt x z = true
  of_lt_of_same : ∀ x y z, lt x y = true → same y z = true → lt x z = true
  symm : ∀ x y : α, same x y = true → same y x = true
  same_trans : ∀ x y z : α, same x y = true → same y z = true → same x z = true

theorem isDirection_less [IsOrdered α] : IsDirection (less : α → α → Bool) :=
  ⟨IsOrdered.less_trans, IsOrdered.less_of_same_of_less, IsOrdered.less_of_less_of_same,
    IsOrdered.same_symm, IsOrdered.same_trans⟩

theorem isDirection_greater [IsOrdered α] : IsDirection fun x y : α => less y x where
  trans x y z h h' := IsOrdered.less_trans z y x h' h
  of_same_of_lt x y z h h' := IsOrdered.less_of_less_of_same z y x h' (IsOrdered.same_symm x y h)
  of_lt_of_same x y z h h' := IsOrdered.less_of_same_of_less z y x (IsOrdered.same_symm y z h') h
  symm := IsOrdered.same_symm
  same_trans := IsOrdered.same_trans

end Quantity

open Quantity

namespace Bound

variable {lt : α → α → Bool} {a b : Bound α}

def tighten (lt : α → α → Bool) (old new : Bound α) : Bound α :=
  if lt new.value old.value || (same old.value new.value && !old.inclusive) then old else new

/-- A bound is at least as tight as another one. -/
inductive IsTighter (lt : α → α → Bool) (a b : Bound α) : Prop
  | rfl (h : a = b)
  | beyond (h : lt b.value a.value = true)
  | beside (h : same b.value a.value = true) (hi : a.inclusive = true → b.inclusive = true)

theorem tighten_isTighter_new (hl : IsDirection lt) (a new : Bound α) :
    (a.tighten lt new).IsTighter lt new := by
  unfold tighten
  split
  · next h =>
    obtain h | ⟨h, hi⟩ : lt new.value a.value = true ∨
        same a.value new.value = true ∧ a.inclusive = false := by simpa using h
    · exact .beyond h
    · exact .beside (hl.symm _ _ h) (by simp [hi])
  · exact .rfl rfl

theorem IsTighter.tighten (hl : IsDirection lt) (h : a.IsTighter lt b) (new : Bound α) :
    (a.tighten lt new).IsTighter lt (b.tighten lt new) := by
  by_cases hb : (lt new.value b.value || (same b.value new.value && !b.inclusive)) = true
  · have hkept : b.tighten lt new = b := if_pos hb
    rw [hkept]
    by_cases ha : (lt new.value a.value || (same a.value new.value && !a.inclusive)) = true
    · rwa [Bound.tighten, if_pos ha]
    · -- What the looser bound withstands the tighter one withstands as well.
      refine absurd ?_ ha
      obtain hb | ⟨hb, hi⟩ : lt new.value b.value = true ∨
          same b.value new.value = true ∧ b.inclusive = false := by simpa using hb
      · cases h with
        | rfl h => simp [h, hb]
        | beyond h => simp [hl.trans _ _ _ hb h]
        | beside h => simp [hl.of_lt_of_same _ _ _ hb h]
      · cases h with
        | rfl h => simp [h, hb, hi]
        | beyond h => simp [hl.of_same_of_lt _ _ _ (hl.symm _ _ hb) h]
        | beside h hinclusive =>
          have hsame := hl.same_trans _ _ _ (hl.symm _ _ h) hb
          have hstrict : a.inclusive = false := by simpa [hi] using hinclusive
          simp [hsame, hstrict]
  · have hreplaced : b.tighten lt new = new := if_neg hb
    rw [hreplaced]
    exact tighten_isTighter_new hl a new

end Bound

namespace Bounds

structure IsTighter (a b : Bounds α) : Prop where
  lower : ∀ y ∈ b.lower, ∃ x ∈ a.lower, x.IsTighter less y
  upper : ∀ y ∈ b.upper, ∃ x ∈ a.upper, x.IsTighter (fun x y => less y x) y

variable {a b : Bounds α}

theorem isTighter_unbounded (a : Bounds α) : a.IsTighter unbounded := ⟨nofun, nofun⟩

theorem raise_eq (b : Bounds α) (new : Bound α) :
    b.raise new = ⟨some ((b.lower.map (·.tighten less new)).getD new), b.upper⟩ := by
  obtain ⟨_ | old, upper⟩ := b
  · rfl
  · simp only [raise, Bound.tighten, Option.map_some, Option.getD_some]
    split <;> rfl

theorem reduce_eq (b : Bounds α) (new : Bound α) : b.reduce new =
    ⟨b.lower, some ((b.upper.map (·.tighten (fun x y => less y x) new)).getD new)⟩ := by
  obtain ⟨lower, _ | old⟩ := b
  · rfl
  · simp only [reduce, Bound.tighten, Option.map_some, Option.getD_some]
    split <;> rfl

theorem tighten_option {lt : α → α → Bool} (hl : IsDirection lt) {x y : Option (Bound α)}
    (h : ∀ b ∈ y, ∃ a ∈ x, a.IsTighter lt b) (new : Bound α) :
    ((x.map (·.tighten lt new)).getD new).IsTighter lt ((y.map (·.tighten lt new)).getD new) := by
  cases y with
  | none =>
    cases x with
    | none => exact .rfl rfl
    | some a => exact Bound.tighten_isTighter_new hl a new
  | some b =>
    obtain ⟨a, ha, hab⟩ := h b rfl
    obtain rfl : x = some a := ha
    exact hab.tighten hl new

variable [IsOrdered α]

theorem IsTighter.raise (h : a.IsTighter b) (new : Bound α) :
    (a.raise new).IsTighter (b.raise new) := by
  rw [raise_eq, raise_eq]
  exact ⟨by simpa using tighten_option isDirection_less h.lower new, h.upper⟩

theorem IsTighter.reduce (h : a.IsTighter b) (new : Bound α) :
    (a.reduce new).IsTighter (b.reduce new) := by
  rw [reduce_eq, reduce_eq]
  exact ⟨h.lower, by simpa using tighten_option isDirection_greater h.upper new⟩

theorem IsTighter.compare (h : a.IsTighter b) (op : Operator) (x : α) :
    (a.compare op x).IsTighter (b.compare op x) := by
  cases op with
  | lt | le => exact h.reduce _
  | gt | ge => exact h.raise _
  | eq => exact (h.raise _).reduce _
  | ne => exact h

theorem IsTighter.within (h : a.IsTighter b) (r : Range α) :
    (a.within r).IsTighter (b.within r) := by
  unfold Bounds.within
  split
  · exact h
  · cases r.lower? <;> cases r.upper?
    · exact h
    · exact h.reduce _
    · exact h.raise _
    · exact (h.raise _).reduce _

theorem IsTighter.restrict (h : a.IsTighter b) (c : Condition α) :
    (a.restrict c).IsTighter (b.restrict c) := by
  unfold Bounds.restrict
  split
  · exact h
  · split
    · split
      · exact h.compare _ _
      · exact h
    · exact h.within _
    · exact h

def Cross (low high : Bound α) : Prop :=
  less high.value low.value = true ∨
    (same low.value high.value = true ∧ (low.inclusive && high.inclusive) = false)

omit [IsOrdered α] in
theorem isEmpty_iff_cross {low high : Bound α} :
    isEmpty ⟨some low, some high⟩ = true ↔ Cross low high := by
  simp [isEmpty, Cross, imp_iff_not_or]

theorem Cross.lower {low low' high : Bound α} (hc : Cross low high)
    (ht : low'.IsTighter less low) : Cross low' high := by
  cases ht with
  | rfl h => exact h ▸ hc
  | beyond h =>
    obtain hless | ⟨hsame, -⟩ := hc
    · exact .inl (IsOrdered.less_trans _ _ _ hless h)
    · exact .inl (IsOrdered.less_of_same_of_less _ _ _ (IsOrdered.same_symm _ _ hsame) h)
  | beside h hi =>
    obtain hless | ⟨hsame, hboth⟩ := hc
    · exact .inl (IsOrdered.less_of_less_of_same _ _ _ hless h)
    · refine .inr ⟨IsOrdered.same_trans _ _ _ (IsOrdered.same_symm _ _ h) hsame, ?_⟩
      cases hl : low'.inclusive <;> simp_all

theorem Cross.upper {low high high' : Bound α} (hc : Cross low high)
    (ht : high'.IsTighter (fun x y => less y x) high) : Cross low high' := by
  cases ht with
  | rfl h => exact h ▸ hc
  | beyond h =>
    obtain hless | ⟨hsame, -⟩ := hc
    · exact .inl (IsOrdered.less_trans _ _ _ h hless)
    · exact .inl (IsOrdered.less_of_less_of_same _ _ _ h (IsOrdered.same_symm _ _ hsame))
  | beside h hi =>
    obtain hless | ⟨hsame, hboth⟩ := hc
    · exact .inl (IsOrdered.less_of_same_of_less _ _ _ (IsOrdered.same_symm _ _ h) hless)
    · refine .inr ⟨IsOrdered.same_trans _ _ _ hsame h, ?_⟩
      cases hh : high'.inclusive <;> simp_all

theorem IsTighter.isEmpty (h : a.IsTighter b) (hb : b.isEmpty = true) : a.isEmpty = true := by
  obtain ⟨lower, upper⟩ := a
  obtain ⟨_ | low, _ | high⟩ := b
  · cases hb
  · cases hb
  · cases hb
  · obtain ⟨low', hlow', hlow⟩ := h.lower low rfl
    obtain ⟨high', hhigh', hhigh⟩ := h.upper high rfl
    obtain rfl : lower = some low' := hlow'
    obtain rfl : upper = some high' := hhigh'
    exact isEmpty_iff_cross.mpr (((isEmpty_iff_cross.mp hb).lower hlow).upper hhigh)

end Bounds

namespace Validation

def IsOpen (t : BoundTable α) : Prop := ∀ field, (t.get field).isEmpty = false

def IsTighter (t u : BoundTable α) : Prop := ∀ field, (t.get field).IsTighter (u.get field)

theorem report_apply_eq_nil {t : BoundTable α} (ht : IsOpen t) {c : Condition α} :
    (t.apply c).2 = [] ↔ ((t.get c.fieldName).restrict c).isEmpty = false := by
  obtain ⟨hnil, hstays⟩ | ⟨upper, lower, hone, hafter, -⟩ := report_apply t c
  · rw [ht c.fieldName] at hstays
    simpa [hnil] using hstays
  · simp [hone, hafter]

theorem IsOpen.apply {t : BoundTable α} (ht : IsOpen t) {c : Condition α}
    (h : (t.apply c).2 = []) : IsOpen (t.apply c).1 := by
  intro field
  rw [get_apply]
  split
  · exact (report_apply_eq_nil ht).mp h
  · exact ht field

variable [IsOrdered α]

theorem IsTighter.apply {t u : BoundTable α} (h : IsTighter t u) (c : Condition α) :
    IsTighter (t.apply c).1 (u.apply c).1 := by
  intro field
  rw [get_apply, get_apply]
  split
  · exact (h c.fieldName).restrict c
  · exact h field

theorem IsTighter.isOpen {t u : BoundTable α} (h : IsTighter t u) (ht : IsOpen t) : IsOpen u := by
  intro field
  by_contra hu
  rw [Bool.not_eq_false] at hu
  have hempty := (h field).isEmpty hu
  rw [ht field] at hempty
  cases hempty

/-- Conditions that bring about no conflict beside tighter bounds bring about none beside looser
ones. -/
theorem conflictsAmong_loosened {t u : BoundTable α} (h : IsTighter t u) (ht : IsOpen t)
    {cs : List (Condition α)} (hcs : (conflictsAmong t cs).2 = []) :
    (conflictsAmong u cs).2 = [] := by
  induction cs generalizing t u with
  | nil => rfl
  | cons c cs ih =>
    simp only [conflictsAmong_cons, List.append_eq_nil_iff] at hcs ⊢
    have hafter := ht.apply hcs.1
    have hlooser := h.apply c
    refine ⟨(report_apply_eq_nil (h.isOpen ht)).mpr ?_, ih hlooser hafter hcs.2⟩
    have hopen := hlooser.isOpen hafter c.fieldName
    rwa [get_apply, if_pos rfl] at hopen

omit [IsOrdered α] in
theorem isOpen_conflictsAmong {t : BoundTable α} (ht : IsOpen t) {cs : List (Condition α)}
    (hcs : (conflictsAmong t cs).2 = []) : IsOpen (conflictsAmong t cs).1 := by
  induction cs generalizing t with
  | nil => exact ht
  | cons c cs ih =>
    simp only [conflictsAmong_cons, List.append_eq_nil_iff] at hcs ⊢
    exact ih (ht.apply hcs.1) hcs.2

omit [IsOrdered α] in
theorem conflictsOf_eq_nil {t : BoundTable α} {f : Filter α} : (conflictsOf t f).2 = [] ↔
    (conflictsAmong t f.members).2 = [] ∧ f.innerScopes.flatMap conflictsWithin = [] := by
  have hperm := (conflictsOf_scopes t f).2
  rw [← List.append_eq_nil_iff]
  constructor
  · intro h
    rw [h] at hperm
    exact hperm.nil_eq.symm
  · intro h
    rw [h] at hperm
    exact hperm.eq_nil

/-- A member of a conjunction that is free from conflicts is so by itself. -/
theorem conflictsOf_of_conflictsOfAll {t : BoundTable α} (ht : IsOpen t) {fs : List (Filter α)}
    (h : (conflictsOfAll t fs).2 = []) : ∀ f ∈ fs, (conflictsOf [] f).2 = [] := by
  induction fs generalizing t with
  | nil => simp
  | cons f rest ih =>
    obtain ⟨hfirst, hothers⟩ := List.append_eq_nil_iff.mp h
    have hmembers := conflictsOf_eq_nil.mp hfirst
    have hopen : IsOpen (conflictsOf t f).1 := by
      rw [(conflictsOf_scopes t f).1]
      exact isOpen_conflictsAmong ht hmembers.1
    refine List.forall_mem_cons.mpr ⟨conflictsOf_eq_nil.mpr ⟨?_, hmembers.2⟩, ih hopen hothers⟩
    exact conflictsAmong_loosened (fun field => Bounds.isTighter_unbounded _) ht hmembers.1

/-- The members of a valid conjunction are valid. -/
theorem validate_of_and {maxLength : Nat} {children : List (Filter α)}
    (h : validate maxLength (.group .and children) = .ok ()) :
    ∀ f ∈ children, validate maxLength f = .ok () := by
  obtain ⟨hformed, hconflicts⟩ := validate_iff.mp h
  intro f hf
  refine validate_iff.mpr ⟨hformed.child hf, ?_⟩
  have hopen : IsOpen ([] : BoundTable α) := fun _ => rfl
  exact conflictsOf_of_conflictsOfAll hopen (by simpa [conflictsOf] using hconflicts) f hf

end Validation

end EquityScreen
