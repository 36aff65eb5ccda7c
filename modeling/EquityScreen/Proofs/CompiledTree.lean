import EquityScreen.Proofs.CompiledForm
import EquityScreen.Proofs.FilterTree

namespace EquityScreen.Compilation

variable {α : Type}

/-- Siblings in a relation to their fragments, each at the number where the one before it ends. -/
inductive Chained (R : Nat → Filter α → Fragment α → Prop) :
    Nat → List (Filter α) → List (Fragment α) → Prop
  | nil (n : Nat) : Chained R n [] []
  | cons {n : Nat} {f : Filter α} {g : Fragment α} {fs : List (Filter α)} {gs : List (Fragment α)} :
      R n f g → Chained R (n + g.params.length) fs gs → Chained R n (f :: fs) (g :: gs)

theorem Chained.mono {R S : Nat → Filter α → Fragment α → Prop} {n : Nat} {fs : List (Filter α)}
    {gs : List (Fragment α)} (h : Chained R n fs gs) (hRS : ∀ n, ∀ f ∈ fs, ∀ g, R n f g → S n f g) :
    Chained S n fs gs := by
  induction h with
  | nil n => exact .nil n
  | cons hr _ ih =>
    exact .cons (hRS _ _ (by simp) _ hr) (ih fun n f hf => hRS n f (by simp [hf]))

variable [Quantity α]

theorem compileAll_eq_ok (maxLength n : Nat) (conjunctive : Bool) (fs : List (Filter α))
    (gs : List (Fragment α)) :
    compileAll maxLength n conjunctive fs = .ok gs ↔
      Chained (fun n f g => compileNode maxLength n conjunctive f = .ok g) n fs gs := by
  induction fs generalizing n gs with
  | nil =>
    simp only [compileAll, Except.ok.injEq]
    constructor
    · rintro rfl
      exact .nil n
    · rintro ⟨⟩
      rfl
  | cons f fs ih =>
    simp only [compileAll, bind_eq_ok, pure, Except.pure, Except.ok.injEq, ih]
    constructor
    · rintro ⟨g, hg, gs, hgs, rfl⟩
      exact .cons hg hgs
    · rintro (_ | ⟨hg, hgs⟩)
      exact ⟨_, hg, _, hgs, rfl⟩

theorem compileNode_group (maxLength n : Nat) (conjunctive : Bool) (c : Connective)
    (children : List (Filter α)) (g : Fragment α) :
    compileNode maxLength n conjunctive (.group c children) = .ok g ↔
      ∃ gs, compileAll maxLength n (conjunctive && c = .and) children = .ok gs ∧
        g = Fragment.join c gs := by
  cases c <;> simp [compileNode, map_eq_ok, @eq_comm _ g]

theorem compileNode_not (maxLength n : Nat) (conjunctive : Bool) (child : Filter α)
    (g : Fragment α) :
    compileNode maxLength n conjunctive (.not child) = .ok g ↔
      ∃ inner, compileNode maxLength n false child = .ok inner ∧
        g = { inner with predicate := inner.predicate.map .not } := by
  simp [compileNode, bind_eq_ok, pure, Except.pure, @eq_comm _ g]

theorem compileNode_leaf (maxLength n : Nat) (conjunctive : Bool) (c : Condition α)
    (g : Fragment α) :
    compileNode maxLength n conjunctive (.leaf c) = .ok g ↔
      ∃ d, Compiles maxLength n c d ∧
        ((∃ p, d.predicate = some p ∧ g = ⟨some p, d.params, []⟩) ∨
          (d.predicate = none ∧ conjunctive = true ∧ g = ⟨none, [], [d]⟩)) := by
  simp only [compileNode, compileLeaf, bind_eq_ok, compileCondition_eq_ok_iff]
  refine exists_congr fun d => and_congr_right fun _ => ?_
  cases d.predicate with
  | some p => simp [pure, Except.pure, @eq_comm _ g]
  | none => cases conjunctive <;> simp [pure, Except.pure, @eq_comm _ g]

/-- Induction over the compilation of a tree, from the number of its first placeholder and whether
derived conditions may stand in it. -/
theorem compileNode_induction {maxLength : Nat}
    {P : Nat → Bool → Filter α → Fragment α → Prop}
    (base : ∀ n conjunctive c d p, Compiles maxLength n c d → d.predicate = some p →
      P n conjunctive (.leaf c) ⟨some p, d.params, []⟩)
    (derived : ∀ n c d, Compiles maxLength n c d → d.predicate = none →
      P n true (.leaf c) ⟨none, [], [d]⟩)
    (not : ∀ n conjunctive child inner, P n false child inner →
      P n conjunctive (.not child) { inner with predicate := inner.predicate.map .not })
    (group : ∀ n conjunctive c children gs,
      Chained (fun n f g => P n (conjunctive && c = .and) f g) n children gs →
      P n conjunctive (.group c children) (Fragment.join c gs))
    {n : Nat} {conjunctive : Bool} {f : Filter α} {g : Fragment α}
    (h : compileNode maxLength n conjunctive f = .ok g) : P n conjunctive f g := by
  induction f using Filter.induction generalizing n conjunctive g with
  | leaf c =>
    obtain ⟨d, hd, ⟨p, hp, rfl⟩ | ⟨hp, rfl, rfl⟩⟩ := (compileNode_leaf ..).mp h
    · exact base n conjunctive c d p hd hp
    · exact derived n c d hd hp
  | not child ih =>
    obtain ⟨inner, hi, rfl⟩ := (compileNode_not ..).mp h
    exact not n conjunctive child inner (ih hi)
  | group c children ih =>
    obtain ⟨gs, hgs, rfl⟩ := (compileNode_group ..).mp h
    have hc := (compileAll_eq_ok ..).mp hgs
    exact group n conjunctive c children gs (hc.mono fun n f hf g hg => ih f hf hg)

end EquityScreen.Compilation
