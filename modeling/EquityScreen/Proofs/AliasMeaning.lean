import EquityScreen.Proofs.FieldAliases

namespace EquityScreen

open Compilation Validation

variable {α : Type}

def Operand.canonical : Operand → Operand
  | .column f => .column f.canonical
  | .orAnnual f => .orAnnual f.canonical
  | .aggregate a w => .aggregate a w

namespace Predicate

mutual

def canonical : Predicate → Predicate
  | .compare x op n => .compare x.canonical op n
  | .between x low high => .between x.canonical low high
  | .inside x low high => .inside x.canonical low high
  | .present f p => .present f.canonical p.canonical
  | .missingOr f p => .missingOr f.canonical p.canonical
  | .trend t w => .trend t w
  | .group c ps => .group c (canonicalAll ps)
  | .not p => .not p.canonical

def canonicalAll : List Predicate → List Predicate
  | [] => []
  | p :: rest => p.canonical :: canonicalAll rest

end

theorem canonical_group (k : Connective) (ps : List Predicate) :
    (group k ps).canonical = .group k (ps.map canonical) := by
  have hall (ps : List Predicate) : canonicalAll ps = ps.map canonical := by
    induction ps with
    | nil => rfl
    | cons p rest ih => rw [canonicalAll, ih, List.map_cons]
  rw [canonical, hall]

/-- The text of a predicate names columns alone. -/
theorem text_canonical (names : TableNames) (p : Predicate) :
    p.canonical.text names = p.text names := by
  have hoperand (x : Operand) : x.canonical.text names = x.text names := by cases x <;> rfl
  induction p using Predicate.induction with
  | compare x | between x | inside x => simp only [canonical, text, hoperand]
  | present f p ih | missingOr f p ih =>
    have hqualified : f.canonical.qualified = f.qualified := rfl
    simp only [canonical, text, hqualified, ih]
  | trend t w => rfl
  | not p ih => rw [canonical, text, text, ih]
  | group k ps ih =>
    have htexts : (ps.map canonical).map (text names) = ps.map (text names) := by
      rw [List.map_map]
      exact List.map_congr_left ih
    rw [canonical_group, text, text, texts_eq_map, texts_eq_map, htexts]

theorem truth_canonical [Quantity α] (h : History α) (bound : Nat → Cell α) (c : Candidate α)
    (p : Predicate) : p.canonical.truth h bound c = p.truth h bound c := by
  have hoperand (x : Operand) (op : Operator) (n : Nat) :
      compareWith h bound c x.canonical op n = compareWith h bound c x op n := by
    cases x <;> rfl
  induction p using Predicate.induction with
  | compare x | between x | inside x => simp only [canonical, truth, hoperand]
  | present f p ih | missingOr f p ih =>
    have hmissing : isMissing c f.canonical = isMissing c f := rfl
    simp only [canonical, truth, hmissing, ih]
  | trend t w => rfl
  | not p ih => rw [canonical, truth, truth, ih]
  | group k ps ih =>
    rw [canonical_group]
    exact truth_group_congr k (List.forall₂_map_left_iff.mpr (List.forall₂_same.mpr ih))

end Predicate

namespace Fragment

def canonical (g : Fragment α) : Fragment α :=
  { g with predicate := g.predicate.map Predicate.canonical }

theorem join_canonical (k : Connective) (gs : List (Fragment α)) :
    (join k gs).canonical = join k (gs.map canonical) := by
  have hpredicates : (gs.map canonical).filterMap (·.predicate) =
      (gs.filterMap (·.predicate)).map Predicate.canonical := by
    rw [List.filterMap_map, List.map_filterMap]
    rfl
  have hjoined (ps : List Predicate) :
      (joined k ps).map Predicate.canonical = joined k (ps.map Predicate.canonical) := by
    match ps with
    | [] | [_] => rfl
    | p :: q :: rest => exact congrArg some (Predicate.canonical_group k _)
  rw [canonical, join, join, hpredicates, ← hjoined, List.flatMap_map, List.flatMap_map]
  rfl

theorem text_canonical (names : TableNames) (g : Fragment α) :
    g.canonical.text names = g.text names := by
  unfold text canonical
  cases g.predicate with
  | none => rfl
  | some p => exact p.text_canonical names

theorem truth_canonical [Quantity α] (h : History α) (bound : Nat → Cell α) (c : Candidate α)
    (g : Fragment α) : g.canonical.truth h bound c = g.truth h bound c := by
  unfold truth canonical
  cases g.predicate with
  | none => rfl
  | some p => exact p.truth_canonical h bound c

end Fragment

namespace Compilation

variable [Quantity α] {maxLength n : Nat}

theorem canonical_withPolicy (f : Field) (policy : MissingPolicy) (p : Predicate) :
    (withPolicy f policy p).canonical = withPolicy f.canonical policy p.canonical := by
  cases policy <;> rfl

theorem canonical_operandOf (f : Field) (policy : MissingPolicy) :
    (operandOf f policy).canonical = operandOf f.canonical policy := by
  have hperiodic : f.canonical.isPeriodic = f.isPeriodic := rfl
  unfold operandOf
  rw [hperiodic]
  split <;> rfl

omit [Quantity α] in
theorem canonical_spanPredicate (x : Operand) (n : Nat) (s : Span α) :
    spanPredicate x.canonical n s =
      ((spanPredicate x n s).1.canonical, (spanPredicate x n s).2) := by
  obtain ⟨_ | low, _ | high, inclusive⟩ := s <;> cases inclusive <;> rfl

variable {c : Condition α} {d : CompiledCondition α} {p : Predicate}

omit [Quantity α] in
theorem IsOn.canonical {f : Field} {policy : MissingPolicy} (on : c.IsOn f policy) :
    c.canonical.IsOn f.canonical policy where
  notDerived := by rw [Condition.fieldName_canonical, isDerived_columnName, on.notDerived]
  field := by rw [Condition.fieldName_canonical, field?_columnName, on.field, Option.map_some]
  policy := on.policy

theorem Compiles.canonical (h : Compiles maxLength n c d) (hp : d.predicate = some p) :
    ∃ d', Compiles maxLength n c.canonical d' ∧ d'.predicate = some p.canonical ∧
      d'.params = d.params := by
  cases h with
  | comparison on hr ht hw hv =>
    cases hp
    exact ⟨_, .comparison (IsOn.canonical on) hr ht hw hv,
      by rw [canonical_withPolicy, ← canonical_operandOf]; rfl, rfl⟩
  | @range f policy r s on hr hw hs =>
    cases hp
    refine ⟨_, .range (IsOn.canonical on) hr hw hs, ?_, ?_⟩
    · rw [canonical_withPolicy, ← canonical_operandOf, canonical_spanPredicate]
      rfl
    · rw [← canonical_operandOf, canonical_spanPredicate]
      rfl
  | trend on hr ht hw htr hs hl hp h2 =>
    cases hp
    exact ⟨_, .trend (IsOn.canonical on) hr ht hw htr hs hl hp h2, rfl, rfl⟩
  | window on hr ht hw hs hl hp hv hn =>
    cases hp
    exact ⟨_, .window (IsOn.canonical on) hr ht hw hs hl hp hv hn, rfl, rfl⟩
  | derivedRange | derivedComparison => cases hp

omit [Quantity α] in
theorem canonical_of_isDerived (h : isDerived c.fieldName = true) : c.canonical = c := by
  have hname (name : String) (hname : isDerived name = true) : columnName name = name := by
    rw [columnName_eq]
    split_ifs with hdebt hprice
    · rw [hdebt] at hname
      cases hname
    · rw [hprice] at hname
      cases hname
    · rfl
  unfold Condition.canonical
  cases hfield : c.field with
  | none => rw [Option.map_none, ← hfield]
  | some name =>
    rw [Condition.fieldName, hfield] at h
    rw [Option.map_some, hname name h, ← hfield]

theorem compileNode_canonical {conjunctive : Bool} {f : Filter α} {g : Fragment α}
    (h : compileNode maxLength n conjunctive f = .ok g) :
    compileNode maxLength n conjunctive f.canonical = .ok g.canonical := by
  unfold Filter.canonical
  refine compileNode_induction (P := fun n conjunctive f g =>
    compileNode maxLength n conjunctive (f.map .canonical) = .ok g.canonical)
    ?base ?derived ?not ?group h
  case base =>
    intro n conjunctive c d p hd hp
    obtain ⟨d', hd', hp', hparams⟩ := hd.canonical hp
    exact (compileNode_leaf ..).mpr ⟨d', hd', .inl ⟨_, hp', by rw [hparams]; rfl⟩⟩
  case derived =>
    intro n c d hd hp
    have hderived : isDerived c.fieldName = true := by rw [hd.isDerived_eq, hp, Option.isNone_none]
    rw [Filter.map, canonical_of_isDerived hderived]
    exact (compileNode_leaf ..).mpr ⟨d, hd, .inr ⟨hp, rfl, rfl⟩⟩
  case not =>
    intro n conjunctive child inner ih
    refine (compileNode_not ..).mpr ⟨_, ih, ?_⟩
    unfold Fragment.canonical
    cases inner.predicate <;> rfl
  case group =>
    intro n conjunctive k children gs hgs
    have hchained : Chained (fun n f g => compileNode maxLength n (conjunctive && k = .and) f =
        .ok g) n (children.map (Filter.map .canonical)) (gs.map Fragment.canonical) := by
      induction hgs with
      | nil n => exact .nil n
      | cons hg _ ih => exact .cons hg ih
    rw [Filter.map_group]
    exact (compileNode_group ..).mpr
      ⟨_, (compileAll_eq_ok ..).mpr hchained, Fragment.join_canonical k gs⟩

end Compilation

namespace Validation

/-- The names of a field are interchangeable as far as no scope mixes them. Take two trees that are
the same once all fields are under the names of their columns. All passes of validation but that for
conflicts accept one of them if they accept the other, and so does that for conflicts unless a scope
of one of the trees bounds a column under two names. Whatever the former accept compiles, wherever
its placeholders start, to predicates of one text that bind the same literals, have the same derived
conditions beside them, and are true, false or unknown of the same candidates. -/
theorem validate_respelled [Quantity α] (maxLength : Nat) (f g : Filter α)
    (hfg : f.canonical = g.canonical) :
    (IsWellFormed maxLength true f ↔ IsWellFormed maxLength true g) ∧
    ((∀ S ∈ f.scopes, AreUnmixed S.members) → (∀ S ∈ g.scopes, AreUnmixed S.members) →
      (validate maxLength f = .ok () ↔ validate maxLength g = .ok ())) ∧
    (IsWellFormed maxLength true f → ∀ n, ∃ p q, compileNode maxLength n true f = .ok p ∧
      compileNode maxLength n true g = .ok q ∧ p.params = q.params ∧ p.derived = q.derived ∧
      (∀ names, p.text names = q.text names) ∧
      ∀ (h : History α) bound k, p.truth h bound k = q.truth h bound k) := by
  have hform : IsWellFormed maxLength true f ↔ IsWellFormed maxLength true g := by
    rw [← isWellFormed_canonical, hfg, isWellFormed_canonical]
  refine ⟨hform, fun hf hg => ?_, fun hf n => ?_⟩
  · rw [← validate_canonical hf, hfg, validate_canonical hg]
  · obtain ⟨p, hp⟩ := hf.compiles n
    obtain ⟨q, hq⟩ := (hform.mp hf).compiles n
    have hsame : p.canonical = q.canonical := by
      have hcanonical := compileNode_canonical hp
      rw [hfg, compileNode_canonical hq] at hcanonical
      exact (Except.ok.inj hcanonical).symm
    have hparams : p.params = q.params := (congrArg Fragment.params hsame :)
    have hderived : p.derived = q.derived := (congrArg Fragment.derived hsame :)
    refine ⟨p, q, hp, hq, hparams, hderived, fun names => ?_, fun h bound k => ?_⟩
    · rw [← p.text_canonical, hsame, q.text_canonical]
    · rw [← p.truth_canonical, hsame, q.truth_canonical]

def debtAndPrice (debt price : String) : Filter ℚ :=
  .group .and
    [.leaf ⟨some debt, ">", some (.int 5), none, none, none, none⟩,
     .leaf ⟨some debt, "<", some (.int 10), none, none, none, none⟩,
     .not (.leaf ⟨some price, ">", some (.int 3), none, none, none, "ignore"⟩)]

theorem validate_respelled_debtAndPrice :
    validate 8 (debtAndPrice "debt" "pb_ratio") = .ok () ∧
    validate 8 (debtAndPrice "total_debt" "price_to_book") = .ok () ∧
    ∃ p q, compileNode 8 1 true (debtAndPrice "debt" "pb_ratio") = .ok p ∧
      compileNode 8 1 true (debtAndPrice "total_debt" "price_to_book") = .ok q ∧
      ∀ (h : History ℚ) bound k, p.truth h bound k = q.truth h bound k := by
  have hvalid : validate 8 (debtAndPrice "debt" "pb_ratio") = .ok () := rfl
  have hunmixed (debt price : String) :
      ∀ S ∈ (debtAndPrice debt price).scopes, AreUnmixed S.members := by
    have hscopes : (debtAndPrice debt price).scopes = [debtAndPrice debt price,
        .leaf ⟨some price, ">", some (.int 3), none, none, none, "ignore"⟩] := rfl
    rw [hscopes, List.forall_mem_cons, List.forall_mem_singleton]
    constructor <;> simp [AreUnmixed, debtAndPrice, Filter.members_and, Filter.members,
      Condition.fieldName]
  obtain ⟨-, hvalidate, hcompile⟩ := validate_respelled 8 (debtAndPrice "debt" "pb_ratio")
    (debtAndPrice "total_debt" "price_to_book") rfl
  obtain ⟨p, q, hp, hq, -, -, -, htruth⟩ := hcompile (.of_validate hvalid) 1
  exact ⟨hvalid, (hvalidate (hunmixed _ _) (hunmixed _ _)).mp hvalid, p, q, hp, hq, htruth⟩

def crossedDebt (name name' : String) : Filter ℚ :=
  .group .and
    [.leaf ⟨some name, ">", some (.int 10), none, none, none, none⟩,
     .leaf ⟨some name', "<", some (.int 5), none, none, none, none⟩]

/-- A conflict goes unnoticed if the column has two names in it. -/
theorem crossedDebt_accepted :
    (crossedDebt "debt" "total_debt").canonical =
      (crossedDebt "total_debt" "total_debt").canonical ∧
    validate 8 (crossedDebt "debt" "total_debt") = .ok () ∧
    validate 8 (crossedDebt "total_debt" "total_debt") =
      .error (.conflict "total_debt" ⟨5, false⟩ ⟨10, false⟩) := by
  refine ⟨rfl, rfl, rfl⟩

end Validation

end EquityScreen
