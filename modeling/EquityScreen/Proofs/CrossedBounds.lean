import EquityScreen.Proofs.TighterBounds

namespace EquityScreen

open Quantity

variable {α : Type} [Quantity α]

/-- Numbers compare as the elements of a linear order. -/
class Quantity.IsLinear (α : Type) [Quantity α] [LinearOrder α] : Prop where
  less_iff : ∀ x y : α, less x y = true ↔ x < y
  same_iff : ∀ x y : α, same x y = true ↔ x = y

instance : Quantity.IsLinear ℚ := ⟨Rational.less_iff, Rational.same_iff⟩

instance [LinearOrder α] [IsLinear α] : IsOrdered α where
  less_trans x y z := by
    simp only [IsLinear.less_iff]
    exact lt_trans
  less_of_same_of_less x y z := by
    simp only [IsLinear.less_iff, IsLinear.same_iff]
    exact lt_of_eq_of_lt
  less_of_less_of_same x y z := by
    simp only [IsLinear.less_iff, IsLinear.same_iff]
    exact lt_of_lt_of_eq
  same_symm x y := by
    simp only [IsLinear.same_iff]
    exact Eq.symm
  same_trans x y z := by
    simp only [IsLinear.same_iff]
    exact Eq.trans

def Condition.bounds (c : Condition α) : Bounds α := Bounds.unbounded.restrict c

theorem Bounds.restrict_of_window {c : Condition α} (h : c.window ≠ none) (b : Bounds α) :
    b.restrict c = b := by
  rw [restrict, if_pos (Option.isSome_iff_ne_none.mpr h)]

namespace Bound

variable {lt : α → α → Bool} {a b c : Bound α}

def tightest (lt : α → α → Bool) : Option (Bound α) → Option (Bound α) → Option (Bound α)
  | old, none => old
  | none, some new => some new
  | some old, some new => some (old.tighten lt new)

theorem mem_tightest {old new : Option (Bound α)} (h : b ∈ tightest lt old new) :
    b ∈ old ∨ b ∈ new := by
  match old, new with
  | _, none => exact .inl h
  | none, some _ => exact .inr h
  | some old, some new =>
    obtain rfl := Option.mem_some.mp h
    unfold tighten
    split
    · exact .inl rfl
    · exact .inr rfl

theorem IsTighter.trans (hl : IsDirection lt) (hab : a.IsTighter lt b) (hbc : b.IsTighter lt c) :
    a.IsTighter lt c := by
  cases hab with
  | rfl h => exact h ▸ hbc
  | beyond h =>
    cases hbc with
    | rfl h' => exact .beyond (h' ▸ h)
    | beyond h' => exact .beyond (hl.trans _ _ _ h' h)
    | beside h' => exact .beyond (hl.of_same_of_lt _ _ _ h' h)
  | beside h hi =>
    cases hbc with
    | rfl h' => exact .beside (h' ▸ h) (h' ▸ hi)
    | beyond h' => exact .beyond (hl.of_lt_of_same _ _ _ h' h)
    | beside h' hi' => exact .beside (hl.same_trans _ _ _ h' h) (hi' ∘ hi)

theorem tighten_isTighter_old (hl : IsDirection lt)
    (htotal : ∀ x y, lt x y = true ∨ same x y = true ∨ lt y x = true) (a new : Bound α) :
    (a.tighten lt new).IsTighter lt a := by
  unfold tighten
  split
  · exact .rfl rfl
  · next h =>
    simp only [Bool.or_eq_true, Bool.and_eq_true, Bool.not_eq_true', not_or, not_and,
      Bool.not_eq_false, Bool.not_eq_true] at h
    obtain hlt | hsame | hlt := htotal new.value a.value
    · rw [h.1] at hlt
      cases hlt
    · exact .beside (hl.symm _ _ hsame) fun _ => h.2 (hl.symm _ _ hsame)
    · exact .beyond hlt

end Bound

namespace Bounds

def meet (b other : Bounds α) : Bounds α :=
  ⟨Bound.tightest less b.lower other.lower,
    Bound.tightest (fun x y => less y x) b.upper other.upper⟩

theorem raise_eq_meet (b : Bounds α) (new : Bound α) : b.raise new = b.meet ⟨some new, none⟩ := by
  obtain ⟨_ | old, upper⟩ := b <;> rw [raise_eq] <;> rfl

theorem reduce_eq_meet (b : Bounds α) (new : Bound α) :
    b.reduce new = b.meet ⟨none, some new⟩ := by
  obtain ⟨lower, _ | old⟩ := b <;> rw [reduce_eq] <;> rfl

theorem compare_eq_meet (b : Bounds α) (op : Operator) (x : α) :
    b.compare op x = b.meet (unbounded.compare op x) := by
  cases op with
  | lt | le => exact b.reduce_eq_meet _
  | gt | ge => exact b.raise_eq_meet _
  | ne => rfl
  | eq =>
    rw [compare, reduce_eq_meet, raise_eq_meet]
    rfl

theorem within_eq_meet (b : Bounds α) (r : Range α) :
    b.within r = b.meet (unbounded.within r) := by
  unfold within
  split
  · rfl
  · cases r.lower? <;> cases r.upper?
    · rfl
    · exact b.reduce_eq_meet _
    · exact b.raise_eq_meet _
    · dsimp only
      rw [reduce_eq_meet, raise_eq_meet]
      rfl

theorem restrict_eq_meet (b : Bounds α) (c : Condition α) : b.restrict c = b.meet c.bounds := by
  unfold Condition.bounds restrict
  split
  · rfl
  · split
    · split
      · exact b.compare_eq_meet _ _
      · rfl
    · exact b.within_eq_meet _
    · rfl

variable {a b c : Bounds α}

theorem IsTighter.trans [IsOrdered α] (hab : a.IsTighter b) (hbc : b.IsTighter c) :
    a.IsTighter c where
  lower z hz := by
    obtain ⟨y, hy, hyz⟩ := hbc.lower z hz
    obtain ⟨x, hx, hxy⟩ := hab.lower y hy
    exact ⟨x, hx, hxy.trans isDirection_less hyz⟩
  upper z hz := by
    obtain ⟨y, hy, hyz⟩ := hbc.upper z hz
    obtain ⟨x, hx, hxy⟩ := hab.upper y hy
    exact ⟨x, hx, hxy.trans isDirection_greater hyz⟩

theorem tightest_isTighter {lt : α → α → Bool} (hl : IsDirection lt)
    (htotal : ∀ x y, lt x y = true ∨ same x y = true ∨ lt y x = true) {old new : Option (Bound α)} :
    (∀ y ∈ old, ∃ x ∈ Bound.tightest lt old new, x.IsTighter lt y) ∧
      ∀ y ∈ new, ∃ x ∈ Bound.tightest lt old new, x.IsTighter lt y := by
  match old, new with
  | old, none => exact ⟨fun y hy => ⟨y, by cases old <;> exact hy, .rfl rfl⟩, nofun⟩
  | none, some new => exact ⟨nofun, fun y hy => ⟨y, hy, .rfl rfl⟩⟩
  | some old, some new =>
    refine ⟨fun y hy => ?_, fun y hy => ?_⟩
    · obtain rfl := Option.mem_some.mp hy
      exact ⟨_, rfl, Bound.tighten_isTighter_old hl htotal old new⟩
    · obtain rfl := Option.mem_some.mp hy
      exact ⟨_, rfl, Bound.tighten_isTighter_new hl old new⟩

variable [LinearOrder α] [IsLinear α]

theorem less_total (x y : α) : less x y = true ∨ same x y = true ∨ less y x = true := by
  simp only [IsLinear.less_iff, IsLinear.same_iff]
  exact lt_trichotomy x y

theorem greater_total (x y : α) : less y x = true ∨ same x y = true ∨ less x y = true := by
  simp only [IsLinear.less_iff, IsLinear.same_iff]
  exact (lt_trichotomy x y).elim (.inr ∘ .inr) (Or.elim · (.inr ∘ .inl) .inl)

theorem meet_isTighter_left (b other : Bounds α) : (b.meet other).IsTighter b :=
  ⟨(tightest_isTighter isDirection_less less_total).1,
    (tightest_isTighter isDirection_greater greater_total).1⟩

theorem meet_isTighter_right (b other : Bounds α) : (b.meet other).IsTighter other :=
  ⟨(tightest_isTighter isDirection_less less_total).2,
    (tightest_isTighter isDirection_greater greater_total).2⟩

end Bounds

namespace Validation

/-- Two conditions on a field leave no number to it: the lower bound of one is beyond the upper
bound of the other. -/
def Conflicting (cs : List (Condition α)) (name : String) : Prop :=
  ∃ c ∈ cs, ∃ d ∈ cs, c.fieldName = name ∧ d.fieldName = name ∧
    ∃ low ∈ c.bounds.lower, ∃ high ∈ d.bounds.upper, Bounds.Cross low high

/-- What the conditions on a field together leave of the numbers. -/
def jointBounds (cs : List (Condition α)) (name : String) : Bounds α :=
  (cs.filter (·.fieldName = name)).foldl Bounds.restrict Bounds.unbounded

/-- Every bound in a table is one of the conditions taken in so far. -/
structure Stems (done : List (Condition α)) (t : BoundTable α) : Prop where
  lower : ∀ name, ∀ low ∈ (t.get name).lower, ∃ c ∈ done, c.fieldName = name ∧ low ∈ c.bounds.lower
  upper : ∀ name, ∀ high ∈ (t.get name).upper,
    ∃ c ∈ done, c.fieldName = name ∧ high ∈ c.bounds.upper

variable {done cs : List (Condition α)} {t : BoundTable α} {c : Condition α} {name : String}

theorem stems_nil : Stems (α := α) [] [] := ⟨nofun, nofun⟩

theorem Stems.apply (h : Stems done t) (c : Condition α) : Stems (done ++ [c]) (t.apply c).1 := by
  have hkept {P : Condition α → Prop} (hd : ∃ d ∈ done, P d) : ∃ d ∈ done ++ [c], P d :=
    let ⟨d, hd, hp⟩ := hd
    ⟨d, List.mem_append_left _ hd, hp⟩
  constructor
  · intro name low hlow
    rw [get_apply] at hlow
    split at hlow
    · next hname =>
      rw [Bounds.restrict_eq_meet] at hlow
      obtain hold | hnew := Bound.mem_tightest hlow
      · exact hkept (hname ▸ h.lower _ low hold)
      · exact ⟨c, by simp, hname, hnew⟩
    · exact hkept (h.lower name low hlow)
  · intro name high hhigh
    rw [get_apply] at hhigh
    split at hhigh
    · next hname =>
      rw [Bounds.restrict_eq_meet] at hhigh
      obtain hold | hnew := Bound.mem_tightest hhigh
      · exact hkept (hname ▸ h.upper _ high hold)
      · exact ⟨c, by simp, hname, hnew⟩
    · exact hkept (h.upper name high hhigh)

theorem Stems.conflicting (h : Stems done t) (hempty : (t.get name).isEmpty = true) :
    Conflicting done name := by
  have hlower := h.lower name
  have hupper := h.upper name
  generalize t.get name = bounds at hempty hlower hupper
  match bounds with
  | ⟨some low, some high⟩ =>
    obtain ⟨c, hc, hcname, hlow⟩ := hlower low rfl
    obtain ⟨d, hd, hdname, hhigh⟩ := hupper high rfl
    exact ⟨c, hc, d, hd, hcname, hdname, low, hlow, high, hhigh,
      Bounds.isEmpty_iff_cross.mp hempty⟩

theorem Conflicting.mono {ds : List (Condition α)} (h : Conflicting cs name)
    (hsub : ∀ c ∈ cs, c ∈ ds) : Conflicting ds name :=
  let ⟨c, hc, d, hd, hcross⟩ := h
  ⟨c, hsub c hc, d, hsub d hd, hcross⟩

theorem Stems.conflictsAmong (h : Stems done t) (cs : List (Condition α)) :
    Stems (done ++ cs) (conflictsAmong t cs).1 := by
  induction cs generalizing done t with
  | nil => rwa [List.append_nil]
  | cons c cs ih => simpa [conflictsAmong_cons] using ih (h.apply c)

theorem exists_isEmpty_of_report {v : Violation α} (hv : v ∈ (conflictsAmong t cs).2) :
    ∃ name upper lower front, v = .conflict name upper lower ∧ front <+: cs ∧
      ((conflictsAmong t front).1.get name).isEmpty = true := by
  induction cs generalizing t with
  | nil => cases hv
  | cons c cs ih =>
    rw [conflictsAmong_cons, List.mem_append] at hv
    obtain hv | hv := hv
    · obtain ⟨hnil, -⟩ | ⟨upper, lower, hone, hafter, -⟩ := report_apply t c
      · rw [hnil] at hv
        cases hv
      · rw [hone, List.mem_singleton] at hv
        refine ⟨_, upper, lower, [c], hv, by simp, ?_⟩
        have happly : (conflictsAmong t [c]).1 = (t.apply c).1 := rfl
        rwa [happly, get_apply, if_pos rfl]
    · obtain ⟨name, upper, lower, front, rfl, hfront, hempty⟩ := ih hv
      exact ⟨name, upper, lower, c :: front, rfl, List.prefix_cons_inj c |>.mpr hfront, hempty⟩

/-- A conflict is reported on a field only if two conditions on it conflict. -/
theorem conflicting_of_report {v : Violation α} (hv : v ∈ (conflictsAmong [] cs).2) :
    ∃ name upper lower, v = .conflict name upper lower ∧ Conflicting cs name := by
  obtain ⟨name, upper, lower, front, rfl, hfront, hempty⟩ := exists_isEmpty_of_report hv
  exact ⟨name, upper, lower, rfl,
    ((stems_nil.conflictsAmong front).conflicting hempty).mono hfront.subset⟩

theorem get_conflictsAmong (t : BoundTable α) (cs : List (Condition α)) (name : String) :
    (conflictsAmong t cs).1.get name =
      (cs.filter (·.fieldName = name)).foldl Bounds.restrict (t.get name) := by
  induction cs generalizing t with
  | nil => rfl
  | cons c cs ih =>
    rw [conflictsAmong_cons, ih, get_apply]
    by_cases hname : c.fieldName = name
    · simp [hname]
    · simp [hname]

theorem IsTighter.refl (t : BoundTable α) : IsTighter t t := fun _ =>
  ⟨fun y hy => ⟨y, hy, .rfl rfl⟩, fun y hy => ⟨y, hy, .rfl rfl⟩⟩

section

variable [LinearOrder α] [IsLinear α]

theorem isTighter_apply (t : BoundTable α) (c : Condition α) : IsTighter (t.apply c).1 t := by
  intro field
  rw [get_apply]
  split
  · next hfield =>
    rw [← hfield, Bounds.restrict_eq_meet]
    exact Bounds.meet_isTighter_left _ _
  · exact IsTighter.refl t field

theorem isTighter_conflictsAmong (t : BoundTable α) (cs : List (Condition α)) :
    IsTighter (conflictsAmong t cs).1 t := by
  induction cs generalizing t with
  | nil => exact .refl t
  | cons c cs ih => exact fun field => (ih (t.apply c).1 field).trans (isTighter_apply t c field)

theorem isTighter_bounds (hc : c ∈ cs) :
    ((conflictsAmong t cs).1.get c.fieldName).IsTighter c.bounds := by
  induction cs generalizing t with
  | nil => cases hc
  | cons d cs ih =>
    rw [conflictsAmong_cons]
    obtain rfl | hc := List.mem_cons.mp hc
    · have hfirst : ((t.apply c).1.get c.fieldName).IsTighter c.bounds := by
        rw [get_apply, if_pos rfl, Bounds.restrict_eq_meet]
        exact Bounds.meet_isTighter_right _ _
      exact (isTighter_conflictsAmong _ cs c.fieldName).trans hfirst
    · exact ih hc

theorem isEmpty_iff_conflicting :
    ((conflictsAmong [] cs).1.get name).isEmpty = true ↔ Conflicting cs name := by
  constructor
  · exact (stems_nil.conflictsAmong cs).conflicting
  · rintro ⟨c, hc, d, hd, rfl, hname, low, hlow, high, hhigh, hcross⟩
    refine Bounds.IsTighter.isEmpty (b := ⟨some low, some high⟩) ⟨fun y hy => ?_, fun y hy => ?_⟩
      (Bounds.isEmpty_iff_cross.mpr hcross)
    · obtain rfl := Option.mem_some.mp hy
      exact (isTighter_bounds hc).lower _ hlow
    · obtain rfl := Option.mem_some.mp hy
      exact hname ▸ (isTighter_bounds hd).upper _ hhigh

/-- In a linear order the conditions of a conjunction are free from conflicts exactly if no two of
them conflict. -/
theorem conflictsAmong_eq_nil :
    (conflictsAmong [] cs).2 = [] ↔ ∀ name, ¬ Conflicting cs name := by
  constructor
  · intro hnil name hconflicting
    have hopen := isOpen_conflictsAmong (fun _ => rfl) hnil name
    rw [isEmpty_iff_conflicting.mpr hconflicting] at hopen
    cases hopen
  · intro hfree
    by_contra hreport
    obtain ⟨v, hv⟩ := List.exists_mem_of_ne_nil _ hreport
    obtain ⟨name, -, -, -, hconflicting⟩ := conflicting_of_report hv
    exact hfree name hconflicting

/-- Two conditions on a field conflict exactly if all of them together leave it no number. -/
theorem conflicting_iff_jointBounds :
    Conflicting cs name ↔ (jointBounds cs name).isEmpty = true := by
  rw [← isEmpty_iff_conflicting, get_conflictsAmong]
  rfl

end

end Validation

end EquityScreen
