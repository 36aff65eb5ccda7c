import EquityScreen.Proofs.ConditionMeaning
import EquityScreen.Quantity.Binary64

namespace EquityScreen

variable {α : Type} [Quantity α]

theorem Predicate.truth_group_congr {h h' : History α} {bound bound' : Nat → Cell α}
    {c : Candidate α} (k : Connective) {ps qs : List Predicate}
    (hpq : List.Forall₂ (fun p q => p.truth h bound c = q.truth h' bound' c) ps qs) :
    (Predicate.group k ps).truth h bound c = (Predicate.group k qs).truth h' bound' c := by
  cases k with
  | and =>
    rw [truth, truth]
    induction hpq with
    | nil => rfl
    | cons hp _ ih => rw [truthOfAll, truthOfAll, hp, ih]
  | or =>
    rw [truth, truth]
    induction hpq with
    | nil => rfl
    | cons hp _ ih => rw [truthOfAny, truthOfAny, hp, ih]

namespace Fragment

/-- A fragment whose conditions are all derived selects every candidate. -/
def truth (h : History α) (bound : Nat → Cell α) (c : Candidate α) (g : Fragment α) : Truth :=
  (g.predicate.map (Predicate.truth h bound c)).getD .yes

variable {h : History α} {bound : Nat → Cell α} {c : Candidate α}

theorem truth_joined_and (ps : List Predicate) :
    ((joined .and ps).map (Predicate.truth h bound c)).getD .yes =
      Predicate.truthOfAll h bound c ps := by
  match ps with
  | [] => rfl
  | [p] => exact (Truth.and_yes _).symm
  | _ :: _ :: _ => rfl

/-- Alternatives that are all derived would hold of nothing, but leave no predicate. -/
theorem truth_joined_or {ps : List Predicate} (hps : ps ≠ []) :
    ((joined .or ps).map (Predicate.truth h bound c)).getD .yes =
      Predicate.truthOfAny h bound c ps := by
  match ps with
  | [p] => exact (Truth.or_no _).symm
  | _ :: _ :: _ => rfl

end Fragment

namespace Compilation

open Validation

variable {maxLength n : Nat} {conjunctive : Bool} {f : Filter α} {g : Fragment α}

/-- A fragment says what its tree says. Under alternatives and negations it has a predicate. -/
structure Means (n : Nat) (conjunctive : Bool) (f : Filter α) (g : Fragment α) : Prop where
  predicate : conjunctive = false → g.predicate ≠ none
  truth : ∀ h c bound, Binds bound n g.params → f.truth? h c = some (g.truth h bound c)

theorem means_base {c : Condition α} {d : CompiledCondition α} {p : Predicate}
    (hc : checkSupport c = []) (hd : Compiles maxLength n c d) (hp : d.predicate = some p) :
    Means n conjunctive (.leaf c) ⟨some p, d.params, []⟩ :=
  ⟨fun _ => nofun, fun _ _ _ hb => hd.truth?_eq hc hp hb⟩

theorem means_derived {c : Condition α} {d : CompiledCondition α} (hd : Compiles maxLength n c d)
    (hp : d.predicate = none) : Means n true (.leaf c) ⟨none, [], [d]⟩ :=
  ⟨nofun, fun _ _ _ _ => hd.truth?_derived hp⟩

theorem means_not {child : Filter α} {inner : Fragment α} (hi : Means n false child inner) :
    Means n conjunctive (.not child) { inner with predicate := inner.predicate.map .not } := by
  obtain ⟨p, hp⟩ := Option.ne_none_iff_exists'.mp (hi.predicate rfl)
  refine ⟨fun _ => by simp [hp], fun h c bound hb => ?_⟩
  rw [Filter.truth?, hi.truth h c bound hb]
  simp [Fragment.truth, hp, Predicate.truth]

theorem truthOfAll?_eq {children : List (Filter α)} {gs : List (Fragment α)}
    (hgs : Chained (fun n => Means n conjunctive) n children gs) {h : History α} {c : Candidate α}
    {bound : Nat → Cell α} (hb : Binds bound n (gs.flatMap (·.params))) :
    Filter.truthOfAll? h c children =
      some (Predicate.truthOfAll h bound c (gs.filterMap (·.predicate))) := by
  induction hgs with
  | nil => rfl
  | @cons n f g fs gs hf _ ih =>
    rw [List.flatMap_cons] at hb
    rw [Filter.truthOfAll?, hf.truth h c bound hb.left, ih hb.right]
    cases hp : g.predicate with
    | none => simp [Fragment.truth, hp, Truth.yes_and]
    | some p => simp [Fragment.truth, hp, Predicate.truthOfAll]

theorem truthOfAny?_eq {children : List (Filter α)} {gs : List (Fragment α)}
    (hgs : Chained (fun n => Means n false) n children gs) {h : History α} {c : Candidate α}
    {bound : Nat → Cell α} (hb : Binds bound n (gs.flatMap (·.params))) :
    Filter.truthOfAny? h c children =
      some (Predicate.truthOfAny h bound c (gs.filterMap (·.predicate))) := by
  induction hgs with
  | nil => rfl
  | @cons n f g fs gs hf _ ih =>
    rw [List.flatMap_cons] at hb
    rw [Filter.truthOfAny?, hf.truth h c bound hb.left, ih hb.right]
    obtain ⟨p, hp⟩ := Option.ne_none_iff_exists'.mp (hf.predicate rfl)
    simp [Fragment.truth, hp, Predicate.truthOfAny]

theorem join_predicate_ne_none {k : Connective} {children : List (Filter α)}
    {gs : List (Fragment α)} (hne : children ≠ [])
    (hgs : Chained (fun n => Means n false) n children gs) :
    (Fragment.join k gs).predicate ≠ none := by
  rw [ne_eq, Fragment.join_predicate_eq_none]
  intro hnone
  cases hgs with
  | nil => exact hne rfl
  | @cons _ _ g _ _ hf => exact hf.predicate rfl (hnone g (by simp))

theorem means_group {k : Connective} {children : List (Filter α)} {gs : List (Fragment α)}
    (hne : children ≠ [])
    (hgs : Chained (fun n => Means n (conjunctive && k = .and)) n children gs) :
    Means n conjunctive (.group k children) (Fragment.join k gs) := by
  refine ⟨fun hc => ?_, fun h c bound hb => ?_⟩
  · rw [hc, Bool.false_and] at hgs
    exact join_predicate_ne_none hne hgs
  · cases k with
    | and =>
      rw [Filter.truth?, truthOfAll?_eq hgs hb]
      exact congrArg some (Fragment.truth_joined_and _).symm
    | or =>
      have hgs : Chained (fun n => Means n false) n children gs := by simpa using hgs
      have hps : gs.filterMap (·.predicate) ≠ [] := fun hnil =>
        join_predicate_ne_none hne hgs (Fragment.joined_eq_none (c := .or) |>.mpr hnil)
      rw [Filter.truth?, truthOfAny?_eq hgs hb]
      exact congrArg some (Fragment.truth_joined_or hps).symm

theorem compileNode_means (hstructure : structureOf f = [])
    (hsupport : ∀ c ∈ f.conditions, checkSupport c = [])
    (hg : compileNode maxLength n conjunctive f = .ok g) : Means n conjunctive f g := by
  revert hstructure hsupport
  refine compileNode_induction (P := fun n conjunctive f g => structureOf f = [] →
    (∀ c ∈ f.conditions, checkSupport c = []) → Means n conjunctive f g)
    ?base ?derived ?not ?group hg
  case base => exact fun n _ c d p hd hp _ hc => means_base (hc c (by simp)) hd hp
  case derived => exact fun n c d hd hp _ _ => means_derived hd hp
  case not =>
    intro n _ child inner ih hs hc
    rw [structureOf] at hs
    exact means_not (ih hs hc)
  case group =>
    intro n conjunctive k children gs hgs hs hc
    rw [structureOf, structureOfAll_eq_flatMap, List.append_eq_nil_iff, when_eq_nil,
      List.flatMap_eq_nil_iff] at hs
    obtain ⟨hshort, hs⟩ := hs
    refine means_group (fun hnil => by simp [hnil] at hshort) (hgs.mono fun n f hf g ih => ?_)
    refine ih (hs f hf) fun d hd => hc d ?_
    exact Filter.conditions_group k children ▸ List.mem_flatMap.mpr ⟨f, hf, hd⟩

end Compilation

/-- The truth of a fragment as a store reads it from the text, which is empty if all conditions are
derived. -/
def Fragment.textTruth? (names : TableNames) (maxLength : Nat) (h : History α)
    (bound : Nat → Cell α) (c : Candidate α) (g : Fragment α) : Option Truth :=
  match g.predicate with
  | none => some .yes
  | some p => (Sql.read (Sql.scopeOf names maxLength) (p.text names)).map (Sql.Expr.truth h bound c)

namespace Compilation

open Validation

theorem textTruth?_eq {names : TableNames} (hn : names.IsPlain) {maxLength n : Nat}
    {conjunctive : Bool} {f : Filter α} {g : Fragment α}
    (hg : compileNode maxLength n conjunctive f = .ok g) (h : History α) (bound : Nat → Cell α)
    (c : Candidate α) : g.textTruth? names maxLength h bound c = some (g.truth h bound c) := by
  unfold Fragment.textTruth? Fragment.truth
  cases hp : g.predicate with
  | none => rfl
  | some p =>
    have hproper := compileNode_isProper hg p (by simp [hp])
    obtain ⟨e, he, htruth⟩ := Predicate.read_text (α := α) hn hproper
    simp [he, htruth]

/-- A valid tree compiles, and what a store reads from the text of its predicate is true, false or
unknown of a candidate exactly as the tree is. -/
theorem compileNode_truth (s : Settings) (hs : s.validate = .ok ()) (f : Filter α)
    (hf : validate s.maxWindowLength f = .ok ()) (n : Nat) :
    (∃ g, compileNode s.maxWindowLength n true f = .ok g) ∧
    ∀ conjunctive g, compileNode s.maxWindowLength n conjunctive f = .ok g →
      ∀ (h : History α) (c : Candidate α) (bound : Nat → Cell α), Binds bound n g.params →
        ∃ t, f.truth? h c = some t ∧ g.truth h bound c = t ∧
          g.textTruth? s.tables s.maxWindowLength h bound c = some t := by
  have hviolations := validate_eq_ok.mp hf
  have hsupport : ∀ d ∈ f.conditions, checkSupport d = [] := fun d hd =>
    ((accepted_of_violations hviolations).1 d hd).support
  refine ⟨compileNode_total_of_validate hf n, fun conjunctive g hg h c bound hb => ?_⟩
  have hmeans := compileNode_means (structureOf_of_violations hviolations) hsupport hg
  refine ⟨g.truth h bound c, hmeans.truth h c bound hb, rfl, ?_⟩
  exact textTruth?_eq (Settings.isPlain_of_validate hs) hg h bound c

def partialTree : Filter Float :=
  .group .and
    [.leaf ⟨"peg_ratio", "<", some (.int 1), none, none, none, none⟩,
     .not (.group .or
      [.leaf ⟨"pe_ratio", ">", some (.int 20), none, none, none, "fallback"⟩,
       .leaf ⟨"sector", "=", some (.text "Energy"), none, none, none, none⟩])]

def partialCandidate : Candidate Float := ⟨[("ticker", .text "ACME")], [], []⟩

def partialHistory : History Float
  | .quarters => []
  | .years => [[("ticker", .text "ACME"), ("fiscal_year", .int 2023), ("pe_ratio", .int 15)]]

theorem compileNode_truth_partialTree :
    ∃ g, compileNode Settings.default.maxWindowLength 1 true partialTree = .ok g ∧
      g.textTruth? Settings.default.tables Settings.default.maxWindowLength partialHistory
        (fun n => if n = 1 then .int 20 else .text "Energy") partialCandidate = some .unknown := by
  have hs : Settings.default.validate = .ok () := by decide
  have hf : validate Settings.default.maxWindowLength partialTree = .ok () := rfl
  have hg : compileNode Settings.default.maxWindowLength 1 true partialTree = .ok _ := rfl
  have hb : Binds (α := Float) (fun n => if n = 1 then .int 20 else .text "Energy") 1
      [.int 20, .text "Energy"] := by
    intro i l hl
    match i with
    | 0 | 1 =>
      cases hl
      rfl
    | i + 2 => cases hl
  obtain ⟨t, ht, -, htext⟩ := (compileNode_truth Settings.default hs partialTree hf 1).2 true _ hg
    partialHistory partialCandidate _ hb
  have hunknown : partialTree.truth? partialHistory partialCandidate = some .unknown := by
    decide +kernel
  exact ⟨_, hg, by rw [htext, ← ht, hunknown]⟩

end Compilation

end EquityScreen
