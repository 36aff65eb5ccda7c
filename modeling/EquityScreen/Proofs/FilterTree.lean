import EquityScreen.Filter

namespace EquityScreen.Filter

variable {α : Type}

mutual

theorem induction {P : Filter α → Prop} (leaf : ∀ c, P (.leaf c))
    (not : ∀ child, P child → P (.not child))
    (group : ∀ c children, (∀ f ∈ children, P f) → P (.group c children)) : ∀ f, P f
  | .leaf c => leaf c
  | .not child => not child (induction leaf not group child)
  | .group c children => group c children (inductionAll leaf not group children)

theorem inductionAll {P : Filter α → Prop} (leaf : ∀ c, P (.leaf c))
    (not : ∀ child, P child → P (.not child))
    (group : ∀ c children, (∀ f ∈ children, P f) → P (.group c children)) :
    ∀ fs : List (Filter α), ∀ f ∈ fs, P f
  | [] => fun _ h => nomatch h
  | f :: rest => List.forall_mem_cons.mpr
      ⟨induction leaf not group f, inductionAll leaf not group rest⟩

end

@[simp]
theorem conditions_leaf (c : Condition α) : (leaf c).conditions = [c] := rfl

@[simp]
theorem conditions_not (child : Filter α) : (Filter.not child).conditions = child.conditions := rfl

theorem conditionsOfAll_eq_flatMap (fs : List (Filter α)) :
    conditionsOfAll fs = fs.flatMap conditions := by
  induction fs with
  | nil => rfl
  | cons f rest ih => simp [conditionsOfAll, ih]

@[simp]
theorem conditions_group (c : Connective) (children : List (Filter α)) :
    (group c children).conditions = children.flatMap conditions :=
  conditionsOfAll_eq_flatMap children

end EquityScreen.Filter
