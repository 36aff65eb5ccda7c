import EquityScreen.Proofs.CompiledSelection
import EquityScreen.Proofs.ParameterOrder

namespace EquityScreen

variable {α : Type}

def Range.outline (r : Range α) : Range α :=
  { r with min := r.min.map fun _ => .null, max := r.max.map fun _ => .null }

/-- A condition without the contents of the literals that it compares with. -/
def Condition.outline (c : Condition α) : Condition α :=
  { c with value := c.value.map fun _ => .null, range := c.range.map Range.outline }

namespace Condition

variable {c c' : Condition α}

structure Agrees (c c' : Condition α) : Prop where
  fieldName : c.fieldName = c'.fieldName
  operator : c.operator = c'.operator
  range : c.range.map Range.outline = c'.range.map Range.outline
  window : c.window = c'.window
  trend : c.trend = c'.trend
  policy : c.policy? = c'.policy?

theorem agrees_of_outline (h : c.outline = c'.outline) : c.Agrees c' := by
  obtain ⟨field, operator, value, range, window, trend, onMissing⟩ := c
  obtain ⟨field', operator', value', range', window', trend', onMissing'⟩ := c'
  simp only [outline, mk.injEq] at h
  obtain ⟨rfl, rfl, -, hr, rfl, rfl, rfl⟩ := h
  exact ⟨rfl, rfl, hr, rfl, rfl, rfl⟩

theorem IsOn.unique {f f' : Field} {policy policy' : MissingPolicy} (h : c.Agrees c')
    (on : c.IsOn f policy) (on' : c'.IsOn f' policy') : f = f' ∧ policy = policy' := by
  have hf := on.field
  have hp := on.policy
  rw [h.fieldName, on'.field] at hf
  rw [h.policy, on'.policy] at hp
  cases hf
  cases hp
  exact ⟨rfl, rfl⟩

theorem operator_eq_some {op : Operator} {v : Literal α} (h : c.comparison? = some (op, v)) :
    c.operator.map Operator.read = some (.ok op) := by
  unfold comparison? at h
  split at h <;> simp_all

theorem comparison?_unique {op op' : Operator} {v v' : Literal α} (h : c.Agrees c')
    (hv : c.comparison? = some (op, v)) (hv' : c'.comparison? = some (op', v')) : op = op' := by
  have ho := operator_eq_some hv
  rw [h.operator, operator_eq_some hv'] at ho
  cases ho
  rfl

end Condition

namespace Filter

mutual

def outline : Filter α → Filter α
  | .group c children => .group c (outlineAll children)
  | .not child => .not child.outline
  | .leaf c => .leaf c.outline

def outlineAll : List (Filter α) → List (Filter α)
  | [] => []
  | f :: rest => f.outline :: outlineAll rest

end

theorem outlineAll_eq_map (fs : List (Filter α)) : outlineAll fs = fs.map outline := by
  induction fs with
  | nil => rfl
  | cons f rest ih => simp [outlineAll, ih]

theorem conditions_outline (f : Filter α) : f.outline.conditions = f.conditions.map .outline := by
  induction f using Filter.induction with
  | leaf c => rfl
  | not child ih => exact ih
  | group c children ih =>
    rw [outline, outlineAll_eq_map, conditions_group, conditions_group, List.flatMap_map,
      List.map_flatMap]
    exact List.flatMap_congr ih

end Filter

structure Fragment.Alike (g g' : Fragment α) : Prop where
  predicate : g.predicate = g'.predicate
  params : g.params.length = g'.params.length
  derived : g.derived.length = g'.derived.length

theorem Fragment.join_alike (c : Connective) {gs gs' : List (Fragment α)}
    (h : List.Forall₂ Fragment.Alike gs gs') :
    (Fragment.join c gs).Alike (Fragment.join c gs') := by
  have hp : gs.filterMap (·.predicate) = gs'.filterMap (·.predicate) := by
    induction h with
    | nil => rfl
    | cons ha _ ih => rw [List.filterMap_cons, List.filterMap_cons, ha.predicate, ih]
  refine ⟨congrArg (Fragment.joined c) hp, ?_, ?_⟩
  · clear hp
    rw [Fragment.join, Fragment.join]
    induction h with
    | nil => rfl
    | cons ha _ ih => simp only [List.flatMap_cons, List.length_append, ha.params, ih]
  · clear hp
    rw [Fragment.join, Fragment.join]
    induction h with
    | nil => rfl
    | cons ha _ ih => simp only [List.flatMap_cons, List.length_append, ha.derived, ih]

namespace Compilation

theorem spanPredicate_congr (x : Operand) (n : Nat) {s s' : Span α}
    (hmin : s.min.isSome = s'.min.isSome) (hmax : s.max.isSome = s'.max.isSome)
    (hi : s.inclusive = s'.inclusive) :
    (spanPredicate x n s).1 = (spanPredicate x n s').1 ∧
      (spanPredicate x n s).2.length = (spanPredicate x n s').2.length := by
  obtain ⟨min, max, inclusive⟩ := s
  obtain ⟨min', max', inclusive'⟩ := s'
  cases hi
  cases min <;> cases min' <;> cases hmin <;> cases max <;> cases max' <;> cases hmax <;>
    exact ⟨rfl, rfl⟩

variable [Quantity α] {maxLength n : Nat}

theorem span?_isSome_bounds {r : Range α} {s : Span α} (h : r.span? = some s) :
    s.min.isSome = r.min.isSome ∧ s.max.isSome = r.max.isSome ∧ s.inclusive = r.isInclusive := by
  unfold Range.span? at h
  split at h
  · next hb =>
    cases h
    simp only [Bool.and_eq_true] at hb
    exact ⟨isSome_bind_number? hb.1.2, isSome_bind_number? hb.2, rfl⟩
  · cases h

theorem spanPredicate_outline (x : Operand) (n : Nat) {r r' : Range α} {s s' : Span α}
    (ho : r.outline = r'.outline) (hs : r.span? = some s) (hs' : r'.span? = some s') :
    (spanPredicate x n s).1 = (spanPredicate x n s').1 ∧
      (spanPredicate x n s).2.length = (spanPredicate x n s').2.length := by
  obtain ⟨hmin, hmax, hi⟩ := span?_isSome_bounds hs
  obtain ⟨hmin', hmax', hi'⟩ := span?_isSome_bounds hs'
  obtain ⟨min, max, inclusive, exclusive⟩ := r
  obtain ⟨min', max', inclusive', exclusive'⟩ := r'
  simp only [Range.outline, Range.mk.injEq] at ho
  obtain ⟨ho, ho', rfl, rfl⟩ := ho
  have hl : min.isSome = min'.isSome := by simpa using congrArg Option.isSome ho
  have hh : max.isSome = max'.isSome := by simpa using congrArg Option.isSome ho'
  exact spanPredicate_congr x n (hmin.trans (hl.trans hmin'.symm))
    (hmax.trans (hh.trans hmax'.symm)) (hi.trans hi'.symm)

theorem Compiles.outline {c c' : Condition α} {d d' : CompiledCondition α}
    (ho : c.outline = c'.outline) (h : Compiles maxLength n c d)
    (h' : Compiles maxLength n c' d') :
    d.predicate = d'.predicate ∧ d.params.length = d'.params.length := by
  have ha := Condition.agrees_of_outline ho
  have hrange := ha.range
  have htrend := ha.trend
  have hwindow := ha.window
  have hd : d.predicate.isNone = d'.predicate.isNone := by
    rw [← h.isDerived_eq, ← h'.isDerived_eq, ha.fieldName]
  cases h with
  | comparison on hr ht hw hv =>
    cases h' with
    | comparison on' _ _ _ hv' =>
      obtain ⟨rfl, rfl⟩ := on.unique ha on'
      obtain rfl := Condition.comparison?_unique ha hv hv'
      exact ⟨rfl, rfl⟩
    | _ => simp_all [base]
  | range on hr hw hs =>
    cases h' with
    | range on' hr' _ hs' =>
      obtain ⟨rfl, rfl⟩ := on.unique ha on'
      rw [hr, hr'] at hrange
      obtain ⟨hp, hl⟩ := spanPredicate_outline (operandOf _ _) n (Option.some.inj hrange) hs hs'
      exact ⟨by simp [base, hp], hl⟩
    | _ => simp_all [base]
  | trend on hr ht hw htr hs hl hp h2 =>
    cases h' with
    | trend on' _ ht' hw' htr' hs' =>
      obtain ⟨rfl, rfl⟩ := on.unique ha on'
      simp_all [base]
    | _ => simp_all [base]
  | window on hr ht hw hs hl hp hv hn =>
    cases h' with
    | window on' _ _ hw' hs' _ _ hv' =>
      obtain ⟨rfl, rfl⟩ := on.unique ha on'
      obtain rfl := Condition.comparison?_unique ha hv hv'
      simp_all [base]
    | _ => simp_all [base]
  | derivedRange metric hr hs =>
    cases h' with
    | derivedRange | derivedComparison => exact ⟨rfl, rfl⟩
    | _ => cases hd
  | derivedComparison metric hr hv hn =>
    cases h' with
    | derivedRange | derivedComparison => exact ⟨rfl, rfl⟩
    | _ => cases hd

theorem Chained.alike {conjunctive : Bool} {fs fs' : List (Filter α)} {gs gs' : List (Fragment α)}
    (ih : ∀ f ∈ fs, ∀ n f' g g', f.outline = f'.outline →
      compileNode maxLength n conjunctive f = .ok g →
      compileNode maxLength n conjunctive f' = .ok g' → g.Alike g')
    (ho : fs.map Filter.outline = fs'.map Filter.outline)
    (h : Chained (fun n f g => compileNode maxLength n conjunctive f = .ok g) n fs gs)
    (h' : Chained (fun n f g => compileNode maxLength n conjunctive f = .ok g) n fs' gs') :
    List.Forall₂ Fragment.Alike gs gs' := by
  induction h generalizing fs' gs' with
  | nil n =>
    obtain rfl : fs' = [] := by simpa using ho.symm
    cases h'
    exact .nil
  | cons hg _ ihs =>
    cases h' with
    | nil => cases ho
    | cons hg' h' =>
      obtain ⟨hf, hfs⟩ := List.cons_eq_cons.mp ho
      have ha := ih _ (by simp) _ _ _ _ hf hg hg'
      rw [← ha.params] at h'
      exact .cons ha (ihs (fun f hf => ih f (by simp [hf])) hfs h')

theorem compileNode_alike {conjunctive : Bool} {f f' : Filter α} {g g' : Fragment α}
    (ho : f.outline = f'.outline) (h : compileNode maxLength n conjunctive f = .ok g)
    (h' : compileNode maxLength n conjunctive f' = .ok g') : g.Alike g' := by
  induction f using Filter.induction generalizing n conjunctive f' g g' with
  | leaf c =>
    cases f' with
    | leaf c' =>
      obtain ⟨d, hd, hg⟩ := (compileNode_leaf ..).mp h
      obtain ⟨d', hd', hg'⟩ := (compileNode_leaf ..).mp h'
      obtain ⟨hp, hl⟩ := hd.outline (Filter.leaf.inj ho) hd'
      rcases hg with ⟨p, hp₁, rfl⟩ | ⟨hp₁, -, rfl⟩ <;>
        rcases hg' with ⟨p', hp₂, rfl⟩ | ⟨hp₂, -, rfl⟩
      · exact ⟨hp₁.symm.trans (hp.trans hp₂), hl, rfl⟩
      · rw [hp₁, hp₂] at hp
        cases hp
      · rw [hp₁, hp₂] at hp
        cases hp
      · exact ⟨rfl, rfl, rfl⟩
    | _ => cases ho
  | not child ih =>
    cases f' with
    | not child' =>
      obtain ⟨inner, hi, rfl⟩ := (compileNode_not ..).mp h
      obtain ⟨inner', hi', rfl⟩ := (compileNode_not ..).mp h'
      have ha := ih (Filter.not.inj ho) hi hi'
      exact ⟨congrArg (Option.map Predicate.not) ha.predicate, ha.params, ha.derived⟩
    | _ => cases ho
  | group c children ih =>
    cases f' with
    | group c' children' =>
      obtain ⟨gs, hgs, rfl⟩ := (compileNode_group ..).mp h
      obtain ⟨gs', hgs', rfl⟩ := (compileNode_group ..).mp h'
      obtain ⟨rfl, hc⟩ := Filter.group.inj ho
      rw [Filter.outlineAll_eq_map, Filter.outlineAll_eq_map] at hc
      exact Fragment.join_alike c (Chained.alike (fun f hf n f' g g' => ih f hf) hc
        ((compileAll_eq_ok ..).mp hgs) ((compileAll_eq_ok ..).mp hgs'))
    | _ => cases ho

omit [Quantity α] in
theorem referenced_outline {f f' : Filter α} (ho : f.outline = f'.outline) (sort : List SortKey)
    (limit : Option Nat) : referenced ⟨f, sort, limit⟩ = referenced ⟨f', sort, limit⟩ := by
  have hn (f : Filter α) : (f.conditions.filter Condition.isDirect).map Condition.fieldName =
      (f.outline.conditions.filter Condition.isDirect).map Condition.fieldName := by
    rw [Filter.conditions_outline, List.filter_map, List.map_map]
    rfl
  unfold referenced
  rw [hn f, hn f', ho]

/-- What a query says to the store depends on its literals only through their number: trees that
agree apart from the contents of their literals have one predicate, and queries over such trees
have one text. -/
theorem text_eq_of_outline (f f' : Filter α) (ho : f.outline = f'.outline) :
    (∀ maxLength n conjunctive g g', compileNode maxLength n conjunctive f = .ok g →
      compileNode maxLength n conjunctive f' = .ok g' →
      g.predicate = g'.predicate ∧ (∀ names, g.text names = g'.text names) ∧
        g.params.length = g'.params.length) ∧
    ∀ s sort limit c c', compile s ⟨f, sort, limit⟩ = .ok c →
      compile s ⟨f', sort, limit⟩ = .ok c' → c.text s.tables = c'.text s.tables := by
  constructor
  · intro maxLength n conjunctive g g' h h'
    have ha := compileNode_alike ho h h'
    refine ⟨ha.predicate, fun names => ?_, ha.params⟩
    rw [Fragment.text, Fragment.text, ha.predicate]
  · intro s sort limit c c' h h'
    obtain ⟨-, g, order, hg, hsort, -, rfl⟩ := (compile_eq_ok ..).mp h
    obtain ⟨-, g', order', hg', hsort', -, rfl⟩ := (compile_eq_ok ..).mp h'
    have ha := compileNode_alike ho hg hg'
    have hempty : g.derived.isEmpty = g'.derived.isEmpty := by
      rw [Bool.eq_iff_iff, List.isEmpty_iff_length_eq_zero, List.isEmpty_iff_length_eq_zero,
        ha.derived]
    obtain rfl : order = order' := Except.ok.inj (hsort.symm.trans hsort')
    change (selectionOf ..).text s.tables = (selectionOf ..).text s.tables
    unfold selectionOf
    rw [referenced_outline ho, ha.predicate, hempty]

/-- The sample tree with other literals, one of which looks like a part of a query. -/
def hostileTree : Filter Float :=
  .group .and
    [.leaf ⟨"peg_ratio", "<", some (.int (-7)), none, none, none, none⟩,
     .not (.group .or
      [.leaf ⟨"sector", "=", some (.text "x' OR 1 = 1; DROP TABLE c --"), none, none, none,
        "ignore"⟩,
       .leaf ⟨"pe_ratio", none, none, some ⟨some (.int 0), some (.int 9), none, none⟩, none, none,
        "fallback"⟩])]

theorem text_eq_of_outline_hostileTree :
    ∃ g g', compileNode 40 1 true sampleTree = .ok g ∧ compileNode 40 1 true hostileTree = .ok g' ∧
      ∀ names, g.text names = g'.text names := by
  have ho : sampleTree.outline = hostileTree.outline := rfl
  have h : compileNode 40 1 true sampleTree = .ok _ := rfl
  have h' : compileNode 40 1 true hostileTree = .ok _ := rfl
  obtain ⟨-, htext, -⟩ := (text_eq_of_outline sampleTree hostileTree ho).1 40 1 true _ _ h h'
  exact ⟨_, _, h, h', htext⟩

end Compilation

end EquityScreen
