import EquityScreen.Proofs.PredicatePlaceholders
import EquityScreen.Quantity.Binary64
import Mathlib.Data.List.Forall2

namespace EquityScreen

variable {α : Type}

/-- The literals that a condition binds to placeholders. A derived condition and a trend bind none,
a range binds those of its bounds that are present. -/
def Condition.bindings [Quantity α] (c : Condition α) : List (Literal α) :=
  if isDerived c.fieldName then []
  else match c.range, c.trend with
    | some r, _ => (r.lower?.toList ++ r.upper?.toList).map .real
    | none, some _ => []
    | none, none => c.value.toList

namespace Predicate

mutual

def leaves : Predicate → List Predicate
  | .group _ ps => leavesOfAll ps
  | .not p => p.leaves
  | p => [p]

def leavesOfAll : List Predicate → List Predicate
  | [] => []
  | p :: rest => p.leaves ++ leavesOfAll rest

end

theorem leavesOfAll_eq_flatMap (ps : List Predicate) : leavesOfAll ps = ps.flatMap leaves := by
  induction ps with
  | nil => rfl
  | cons p rest ih => simp [leavesOfAll, ih]

theorem leaves_group (c : Connective) (ps : List Predicate) :
    (group c ps).leaves = ps.flatMap leaves := leavesOfAll_eq_flatMap ps

theorem placeholders_group (c : Connective) (ps : List Predicate) :
    (group c ps).placeholders = ps.flatMap placeholders := placeholdersOfAll_eq_flatMap ps

end Predicate

namespace Fragment

/-- What groups collect from their members is collected from joined fragments as well. -/
theorem flatMap_joined {β : Type} (F : Predicate → List β)
    (hF : ∀ c ps, F (.group c ps) = ps.flatMap F) (c : Connective) (gs : List (Fragment α)) :
    (join c gs).predicate.toList.flatMap F = gs.flatMap fun g => g.predicate.toList.flatMap F := by
  have hj (ps : List Predicate) : (joined c ps).toList.flatMap F = ps.flatMap F := by
    match ps with
    | [] => rfl
    | [p] => rfl
    | p :: q :: rest => simp [joined, hF]
  rw [join, hj]
  induction gs with
  | nil => rfl
  | cons g gs ih => cases hp : g.predicate <;> simp [hp, ih]

theorem joined_eq_none {c : Connective} {ps : List Predicate} : joined c ps = none ↔ ps = [] := by
  match ps with
  | [] | [_] | _ :: _ :: _ => simp [joined]

theorem join_predicate_eq_none {c : Connective} {gs : List (Fragment α)} :
    (join c gs).predicate = none ↔ ∀ g ∈ gs, g.predicate = none := by
  rw [join, joined_eq_none, List.filterMap_eq_nil_iff]

end Fragment

theorem Condition.value_eq_some {c : Condition α} {op : Operator} {v : Literal α}
    (h : c.comparison? = some (op, v)) : c.value = some v := by
  unfold comparison? at h
  split at h <;> simp_all

namespace Compilation

open Predicate

theorem spanPredicate_placeholders (x : Operand) (n : Nat) (s : Span α) :
    (spanPredicate x n s).1.placeholders = List.range' n (spanPredicate x n s).2.length := by
  obtain ⟨_ | low, _ | high, inclusive⟩ := s <;> cases inclusive <;> rfl

theorem spanPredicate_params (x : Operand) (n : Nat) (s : Span α) :
    (spanPredicate x n s).2 = (s.min.toList ++ s.max.toList).map .real := by
  obtain ⟨_ | low, _ | high, inclusive⟩ := s <;> rfl

theorem withPolicy_placeholders (f : Field) (policy : MissingPolicy) (p : Predicate) :
    (withPolicy f policy p).placeholders = p.placeholders := by
  cases policy <;> rfl

theorem withPolicy_leaves (f : Field) (policy : MissingPolicy) {p : Predicate}
    (h : p.leaves = [p]) : (withPolicy f policy p).leaves = [withPolicy f policy p] := by
  cases policy <;> first | exact h | rfl

theorem spanPredicate_leaves (x : Operand) (n : Nat) {s : Span α}
    (hs : (s.min.isSome || s.max.isSome) = true) :
    (spanPredicate x n s).1.leaves = [(spanPredicate x n s).1] := by
  obtain ⟨_ | low, _ | high, inclusive⟩ := s
  · simp at hs
  all_goals cases inclusive <;> rfl

variable [Quantity α] {maxLength n : Nat}

namespace Compiles

variable {c : Condition α} {d : CompiledCondition α} {p : Predicate}

theorem isDerived_eq (h : Compiles maxLength n c d) :
    isDerived c.fieldName = d.predicate.isNone := by
  cases h with
  | comparison on | range on | trend on | window on => exact on.notDerived
  | derivedRange metric | derivedComparison metric => exact metric.derived

theorem params_eq (h : Compiles maxLength n c d) : d.params = c.bindings := by
  unfold Condition.bindings
  cases h with
  | comparison on hr ht _ hv => simp [on.notDerived, hr, ht, base, Condition.value_eq_some hv]
  | range on hr _ hs =>
    obtain ⟨rfl, -⟩ := span?_eq_some hs
    simp [on.notDerived, hr, base, spanPredicate_params]
  | trend on hr ht => simp [on.notDerived, hr, ht, base]
  | window on hr ht _ _ _ _ hv => simp [on.notDerived, hr, ht, base, Condition.value_eq_some hv]
  | derivedRange metric | derivedComparison metric => simp [metric.derived]

theorem placeholders_eq (h : Compiles maxLength n c d) (hp : d.predicate = some p) :
    p.placeholders = List.range' n d.params.length := by
  cases h with
  | comparison =>
    cases hp
    exact withPolicy_placeholders _ _ _
  | range =>
    cases hp
    exact (withPolicy_placeholders _ _ _).trans (spanPredicate_placeholders _ n _)
  | trend | window =>
    cases hp
    rfl
  | derivedRange | derivedComparison => cases hp

theorem leaves_eq (h : Compiles maxLength n c d) (hp : d.predicate = some p) : p.leaves = [p] := by
  cases h with
  | comparison =>
    cases hp
    exact withPolicy_leaves _ _ rfl
  | range _ _ _ hs =>
    cases hp
    exact withPolicy_leaves _ _ (spanPredicate_leaves _ n (span?_eq_some hs).2)
  | trend | window =>
    cases hp
    rfl
  | derivedRange | derivedComparison => cases hp

theorem renumber (h : Compiles maxLength n c d) (hp : d.predicate = none) (k : Nat) :
    Compiles maxLength k c d := by
  cases h with
  | comparison | range | trend | window => cases hp
  | derivedRange metric hr hs => exact .derivedRange metric hr hs
  | derivedComparison metric hr hv hn => exact .derivedComparison metric hr hv hn

end Compiles

/-- The base conditions of a list, each with the number of its first placeholder. -/
def numbered (n : Nat) : List (Condition α) → List (Nat × Condition α)
  | [] => []
  | c :: rest =>
    if isDerived c.fieldName then numbered n rest
    else (n, c) :: numbered (n + c.bindings.length) rest

theorem numbered_append (n : Nat) (cs ds : List (Condition α)) :
    numbered n (cs ++ ds) =
      numbered n cs ++ numbered (n + (cs.flatMap Condition.bindings).length) ds := by
  induction cs generalizing n with
  | nil => rfl
  | cons c cs ih =>
    by_cases hc : isDerived c.fieldName
    · simp [numbered, hc, ih, Condition.bindings]
    · simp [numbered, hc, ih, Nat.add_assoc]

theorem mem_of_mem_numbered {n : Nat} {cs : List (Condition α)} :
    ∀ e ∈ numbered n cs, e.2 ∈ cs := by
  induction cs generalizing n with
  | nil => simp [numbered]
  | cons c cs ih =>
    unfold numbered
    split
    · exact fun e he => List.mem_cons_of_mem c (ih e he)
    · exact List.forall_mem_cons.mpr
        ⟨List.mem_cons_self, fun e he => List.mem_cons_of_mem c (ih e he)⟩

theorem bindings_of_mem_numbered {n : Nat} {cs : List (Condition α)} :
    ∀ e ∈ numbered n cs, n ≤ e.1 ∧
      ((cs.flatMap Condition.bindings).drop (e.1 - n)).take e.2.bindings.length = e.2.bindings := by
  induction cs generalizing n with
  | nil => simp [numbered]
  | cons c cs ih =>
    intro e he
    by_cases hc : isDerived c.fieldName
    · have hb : c.bindings = [] := by simp [Condition.bindings, hc]
      simpa [hb] using ih e (by simpa [numbered, hc] using he)
    · obtain rfl | he : e = (n, c) ∨ e ∈ numbered (n + c.bindings.length) cs := by
        simpa [numbered, hc] using he
      · simp
      · obtain ⟨hn, hb⟩ := ih e he
        refine ⟨by omega, ?_⟩
        have hd : e.1 - n = c.bindings.length + (e.1 - (n + c.bindings.length)) := by omega
        rw [hd, List.flatMap_cons, List.drop_append, List.drop_eq_nil_of_le (by omega),
          List.nil_append]
        simpa using hb

/-- The accounts of a fragment: which conditions it holds and how it numbers them. -/
structure Accounts (maxLength n : Nat) (f : Filter α) (g : Fragment α) : Prop where
  params : g.params = f.conditions.flatMap Condition.bindings
  placeholders : g.predicate.toList.flatMap Predicate.placeholders = List.range' n g.params.length
  leaves : List.Forall₂
    (fun c p => (∃ d, compileCondition maxLength c.1 c.2 = .ok d ∧ d.predicate = some p) ∧
      p.placeholders = List.range' c.1 c.2.bindings.length)
    (numbered n f.conditions) (g.predicate.toList.flatMap Predicate.leaves)
  derived : List.Forall₂ (fun c d => ∀ k, compileCondition maxLength k c = .ok d)
    (f.conditions.filter fun c => isDerived c.fieldName) g.derived
  predicate : g.predicate = none ↔ ∀ c ∈ f.conditions, isDerived c.fieldName = true

theorem accounts_base {c : Condition α} {d : CompiledCondition α} {p : Predicate}
    (h : Compiles maxLength n c d) (hp : d.predicate = some p) :
    Accounts maxLength n (.leaf c) ⟨some p, d.params, []⟩ := by
  have hd : isDerived c.fieldName = false := by simpa [hp] using h.isDerived_eq
  have hc : compileCondition maxLength n c = .ok d := (compileCondition_eq_ok_iff ..).mpr h
  exact
    { params := by simp [h.params_eq]
      placeholders := by simp [h.placeholders_eq hp]
      leaves := by
        have hb := h.placeholders_eq hp
        rw [h.params_eq] at hb
        simpa [numbered, hd, h.leaves_eq hp] using ⟨⟨d, hc, hp⟩, hb⟩
      derived := by simp [hd]
      predicate := by simp [hd] }

theorem accounts_derived {c : Condition α} {d : CompiledCondition α}
    (h : Compiles maxLength n c d) (hp : d.predicate = none) :
    Accounts maxLength n (.leaf c) ⟨none, [], [d]⟩ := by
  have hd : isDerived c.fieldName = true := by simpa [hp] using h.isDerived_eq
  have hc (k : Nat) : compileCondition maxLength k c = .ok d :=
    (compileCondition_eq_ok_iff ..).mpr (h.renumber hp k)
  exact
    { params := by simp [Condition.bindings, hd]
      placeholders := by simp
      leaves := by simp [numbered, hd]
      derived := by simpa [hd] using hc
      predicate := by simp [hd] }

theorem accounts_not {child : Filter α} {inner : Fragment α}
    (h : Accounts maxLength n child inner) :
    Accounts maxLength n (.not child) { inner with predicate := inner.predicate.map .not } := by
  have hmap {β : Type} (F : Predicate → List β) (hF : ∀ p, F (.not p) = F p) :
      (inner.predicate.map .not).toList.flatMap F = inner.predicate.toList.flatMap F := by
    cases inner.predicate <;> simp [hF]
  exact
    { params := h.params
      placeholders := (hmap _ fun _ => rfl).trans h.placeholders
      leaves := by
        rw [Filter.conditions_not, hmap _ fun _ => rfl]
        exact h.leaves
      derived := h.derived
      predicate := by simpa using h.predicate }

theorem accounts_group (c : Connective) {children : List (Filter α)} {gs : List (Fragment α)}
    (h : Chained (Accounts maxLength) n children gs) :
    Accounts maxLength n (.group c children) (Fragment.join c gs) := by
  refine ⟨?params, ?placeholders, ?leaves, ?derived, ?predicate⟩
  case params =>
    rw [Filter.conditions_group]
    change gs.flatMap (·.params) = _
    induction h with
    | nil => rfl
    | cons hf _ ih =>
      rw [List.flatMap_cons, List.flatMap_cons, List.flatMap_append, hf.params, ih]
  case placeholders =>
    rw [Fragment.flatMap_joined _ placeholders_group, Fragment.join]
    induction h with
    | nil => rfl
    | cons hf _ ih =>
      rw [List.flatMap_cons, List.flatMap_cons, hf.placeholders, ih, List.length_append,
        List.range'_append_1]
  case leaves =>
    rw [Fragment.flatMap_joined _ leaves_group, Filter.conditions_group]
    induction h with
    | nil => exact .nil
    | cons hf _ ih =>
      rw [List.flatMap_cons, List.flatMap_cons, numbered_append, ← hf.params]
      exact List.rel_append hf.leaves ih
  case derived =>
    rw [Filter.conditions_group, Fragment.join]
    induction h with
    | nil => exact .nil
    | cons hf _ ih =>
      rw [List.flatMap_cons, List.flatMap_cons, List.filter_append]
      exact List.rel_append hf.derived ih
  case predicate =>
    rw [Fragment.join_predicate_eq_none, Filter.conditions_group]
    induction h with
    | nil => simp
    | cons hf _ ih =>
      rw [List.forall_mem_cons, hf.predicate, ih, List.flatMap_cons, List.forall_mem_append]

theorem compileNode_accounts {conjunctive : Bool} {f : Filter α} {g : Fragment α}
    (h : compileNode maxLength n conjunctive f = .ok g) : Accounts maxLength n f g := by
  refine compileNode_induction (P := fun n _ f g => Accounts maxLength n f g)
    ?base ?derived ?not ?group h
  case base => exact fun n _ c d p hd hp => accounts_base hd hp
  case derived => exact fun n c d hd hp => accounts_derived hd hp
  case not => exact fun n _ child inner ih => accounts_not ih
  case group => exact fun n _ c children gs hgs => accounts_group c hgs

theorem exists_of_forall₂ {β γ : Type} {R : β → γ → Prop} {xs : List β} {ys : List γ}
    (h : List.Forall₂ R xs ys) : ∀ y ∈ ys, ∃ x ∈ xs, R x y := by
  induction h with
  | nil => simp
  | @cons x y xs ys hr _ ih =>
    exact List.forall_mem_cons.mpr ⟨⟨x, List.mem_cons_self, hr⟩,
      fun y hy => (ih y hy).imp fun _ hx => ⟨List.mem_cons_of_mem x hx.1, hx.2⟩⟩

namespace Accounts

variable {f : Filter α} {g : Fragment α}

/-- Whatever is put off until candidates are known is a derived condition of the tree. -/
theorem exists_of_derived (h : Accounts maxLength n f g) : ∀ d ∈ g.derived, ∃ c ∈ f.conditions,
    isDerived c.fieldName = true ∧ ∀ k, Compiles maxLength k c d := by
  intro d hd
  obtain ⟨c, hc, hcompiled⟩ := exists_of_forall₂ h.derived d hd
  obtain ⟨hmem, hderived⟩ := List.mem_filter.mp hc
  exact ⟨c, hmem, hderived, fun k => (compileCondition_eq_ok_iff ..).mp (hcompiled k)⟩

theorem exists_of_leaf (h : Accounts maxLength n f g) :
    ∀ p ∈ g.predicate.toList.flatMap Predicate.leaves, ∃ c ∈ f.conditions, ∃ k d,
      Compiles maxLength k c d ∧ d.predicate = some p := by
  intro p hp
  obtain ⟨⟨k, c⟩, hc, ⟨d, hd, hpredicate⟩, -⟩ := exists_of_forall₂ h.leaves p hp
  exact ⟨c, mem_of_mem_numbered _ hc, k, d, (compileCondition_eq_ok_iff ..).mp hd, hpredicate⟩

end Accounts

end Compilation

def Fragment.text (names : TableNames) (g : Fragment α) : String :=
  (g.predicate.map (Predicate.text names)).getD ""

namespace Compilation

variable [Quantity α]

theorem ofText_fragment {names : TableNames} (hn : names.IsPlain) {maxLength n : Nat}
    {conjunctive : Bool} {f : Filter α} {g : Fragment α}
    (h : compileNode maxLength n conjunctive f = .ok g) :
    Placeholder.ofText (g.text names) = List.range' n g.params.length := by
  rw [← (compileNode_accounts h).placeholders, Fragment.text]
  cases hp : g.predicate with
  | none => rfl
  | some p =>
    have hproper := compileNode_isProper h p (by rw [hp]; rfl)
    simpa using Predicate.ofText_text hn hproper

/-- A compiled tree numbers its placeholders from left to right, binds the literals of its base
conditions in the same order, each to the placeholders of its own predicate, and keeps every
condition once: base conditions as predicates, the others as derived. -/
theorem compileNode_parameters (s : Settings) (hs : s.validate = .ok ()) (n : Nat)
    (conjunctive : Bool) (f : Filter α) (g : Fragment α)
    (h : compileNode s.maxWindowLength n conjunctive f = .ok g) :
    Placeholder.ofText (g.text s.tables) = List.range' n g.params.length ∧
    g.params = f.conditions.flatMap Condition.bindings ∧
    List.Forall₂
      (fun c p => (∃ d, compileCondition s.maxWindowLength c.1 c.2 = .ok d ∧
        d.predicate = some p) ∧ p.placeholders = List.range' c.1 c.2.bindings.length)
      (numbered n f.conditions) (g.predicate.toList.flatMap Predicate.leaves) ∧
    (∀ c ∈ numbered n f.conditions,
      n ≤ c.1 ∧ (g.params.drop (c.1 - n)).take c.2.bindings.length = c.2.bindings) ∧
    List.Forall₂ (fun c d => ∀ k, compileCondition s.maxWindowLength k c = .ok d)
      (f.conditions.filter fun c => isDerived c.fieldName) g.derived ∧
    (g.predicate = none ↔ ∀ c ∈ f.conditions, isDerived c.fieldName = true) := by
  have ha := compileNode_accounts h
  refine ⟨ofText_fragment (Settings.isPlain_of_validate hs) h, ha.params, ha.leaves, ?_, ha.derived,
    ha.predicate⟩
  rw [ha.params]
  exact bindings_of_mem_numbered

def sampleTree : Filter Float :=
  .group .and
    [.leaf ⟨"peg_ratio", "<", some (.int 1), none, none, none, none⟩,
     .not (.group .or
      [.leaf ⟨"sector", "=", some (.text "Energy"), none, none, none, "ignore"⟩,
       .leaf ⟨"pe_ratio", none, none, some ⟨some (.int 5), some (.int 20), none, none⟩, none, none,
        "fallback"⟩])]

theorem compileNode_parameters_sampleTree :
    ∃ g, compileNode Settings.default.maxWindowLength 3 true sampleTree = .ok g ∧
      g.params = [.text "Energy", .real (Quantity.ofInt 5), .real (Quantity.ofInt 20)] ∧
      g.derived.length = 1 ∧
      Placeholder.ofText (g.text Settings.default.tables) = [3, 4, 5] := by
  have hs : Settings.default.validate = .ok () := by decide
  have hg : compileNode Settings.default.maxWindowLength 3 true sampleTree = .ok _ := rfl
  obtain ⟨htext, -⟩ := compileNode_parameters Settings.default hs 3 true sampleTree _ hg
  exact ⟨_, hg, rfl, rfl, htext⟩

end Compilation

end EquityScreen
