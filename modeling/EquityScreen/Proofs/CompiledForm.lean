import EquityScreen.Proofs.ConditionReading

namespace EquityScreen

variable {α : Type}

namespace Condition

structure IsOn (c : Condition α) (f : Field) (policy : MissingPolicy) : Prop where
  notDerived : isDerived c.fieldName = false
  field : field? c.fieldName = some f
  policy : c.policy? = some policy

def HasWindow [Quantity α] (maxLength : Nat) (c : Condition α) (window : Option WindowSpec) :
    Prop :=
  (c.window = none ∧ window = none) ∨
    ∃ w spec, c.window = some w ∧ w.spec? = some spec ∧ spec.length ≤ maxLength ∧
      window = some spec

/-- A condition on a derived metric, with the window that it names. -/
structure IsDerivedOver [Quantity α] (maxLength : Nat) (c : Condition α)
    (window : Option WindowSpec) (policy : MissingPolicy) : Prop where
  derived : isDerived c.fieldName = true
  policy : c.policy? = some policy
  noTrend : c.trend = none
  window : c.HasWindow maxLength window

end Condition

namespace Compilation

variable [Quantity α]

/-- The compiled form of a condition whose first placeholder is number `n`. -/
inductive Compiles (maxLength n : Nat) (c : Condition α) : CompiledCondition α → Prop
  | comparison {f : Field} {policy : MissingPolicy} {op : Operator} {v : Literal α}
      (on : c.IsOn f policy) (range : c.range = none) (trend : c.trend = none)
      (window : c.window = none) (read : c.comparison? = some (op, v)) :
      Compiles maxLength n c { base f policy
        (withPolicy f policy (.compare (operandOf f policy) op n)) [v] with
        operator := some op, value := some v }
  | range {f : Field} {policy : MissingPolicy} {r : Range α} {s : Span α}
      (on : c.IsOn f policy) (range : c.range = some r) (window : c.window = none)
      (read : r.span? = some s) :
      Compiles maxLength n c { base f policy
        (withPolicy f policy (spanPredicate (operandOf f policy) n s).1)
        (spanPredicate (operandOf f policy) n s).2 with range := some s }
  | trend {f : Field} {policy : MissingPolicy} {word : String} {t : Trend} {w : Window α}
      {spec : WindowSpec} (on : c.IsOn f policy) (range : c.range = none)
      (trend : c.trend = some word) (window : c.window = some w)
      (readTrend : Trend.read word = .ok t) (readWindow : w.spec? = some spec)
      (bounded : spec.length ≤ maxLength)
      (periodic : f.isPeriodic = true) (several : 2 ≤ spec.length) :
      Compiles maxLength n c { base f policy (.trend t ⟨spec.unit, f.column, spec.length⟩) [] with
        trend := some t, window := some spec }
  | window {f : Field} {policy : MissingPolicy} {w : Window α} {spec : WindowSpec} {op : Operator}
      {v : Literal α} (on : c.IsOn f policy) (range : c.range = none) (trend : c.trend = none)
      (window : c.window = some w) (readWindow : w.spec? = some spec)
      (bounded : spec.length ≤ maxLength) (periodic : f.isPeriodic = true)
      (read : c.comparison? = some (op, v)) (numeric : v.isNumeric = true) :
      Compiles maxLength n c { base f policy
        (.compare (.aggregate (spec.aggregation.getD .avg) ⟨spec.unit, f.column, spec.length⟩) op n)
        [v] with operator := some op, value := some v, window := some spec }
  | derivedRange {policy : MissingPolicy} {window : Option WindowSpec} {r : Range α} {s : Span α}
      (metric : c.IsDerivedOver maxLength window policy) (range : c.range = some r)
      (read : r.span? = some s) :
      Compiles maxLength n c
        ⟨c.fieldName, none, [], none, none, window, some s, none, policy⟩
  | derivedComparison {policy : MissingPolicy} {window : Option WindowSpec} {op : Operator}
      {v : Literal α} (metric : c.IsDerivedOver maxLength window policy) (range : c.range = none)
      (read : c.comparison? = some (op, v)) (numeric : v.isNumeric = true) :
      Compiles maxLength n c
        ⟨c.fieldName, none, [], some op, some v, window, none, none, policy⟩

omit [Quantity α] in
theorem compileComparison_eq_ok (f : Field) (c : Condition α) (n : Nat) (policy : MissingPolicy)
    (d : CompiledCondition α) :
    compileComparison f c n policy = .ok d ↔ ∃ op v, c.comparison? = some (op, v) ∧
      d = { base f policy (withPolicy f policy (.compare (operandOf f policy) op n)) [v] with
        operator := some op, value := some v } := by
  simp only [compileComparison, bind_eq_ok, readComparison_eq_ok, Prod.exists, pure, Except.pure,
    Except.ok.injEq, @eq_comm _ d]

theorem compileRange_eq_ok (f : Field) (r : Range α) (n : Nat) (policy : MissingPolicy)
    (d : CompiledCondition α) :
    compileRange f r n policy = .ok d ↔ ∃ s, r.span? = some s ∧
      d = { base f policy (withPolicy f policy (spanPredicate (operandOf f policy) n s).1)
        (spanPredicate (operandOf f policy) n s).2 with range := some s } := by
  simp only [compileRange, bind_eq_ok, readRange_eq_ok, pure, Except.pure, Except.ok.injEq,
    @eq_comm _ d]

theorem compileTrend_eq_ok (maxLength : Nat) (f : Field) (word : String) (w : Window α)
    (policy : MissingPolicy) (d : CompiledCondition α) :
    compileTrend maxLength f word w policy = .ok d ↔ ∃ t spec, Trend.read word = .ok t ∧
      w.spec? = some spec ∧ spec.length ≤ maxLength ∧ f.isPeriodic = true ∧ 2 ≤ spec.length ∧
      d = { base f policy (.trend t ⟨spec.unit, f.column, spec.length⟩) [] with
        trend := some t, window := some spec } := by
  simp only [compileTrend, bind_eq_ok, readWord_eq_ok, readWindow_eq_ok]
  constructor
  · rintro ⟨t, ht, spec, ⟨hs, hl⟩, h⟩
    cases hp : f.isPeriodic
    · simp [hp, invalid] at h
    · by_cases h2 : spec.length < 2
      · simp [hp, h2, invalid] at h
      · simp only [hp, h2, Bool.not_true, Bool.false_eq_true, if_false, pure, Except.pure,
          Except.ok.injEq] at h
        exact ⟨t, spec, ht, hs, hl, rfl, Nat.le_of_not_lt h2, h.symm⟩
  · rintro ⟨t, spec, ht, hs, hl, hp, h2, rfl⟩
    refine ⟨t, ht, spec, ⟨hs, hl⟩, ?_⟩
    simp [hp, Nat.not_lt.mpr h2, pure, Except.pure]

theorem compileWindow_eq_ok (maxLength : Nat) (f : Field) (c : Condition α) (w : Window α)
    (n : Nat) (policy : MissingPolicy) (d : CompiledCondition α) :
    compileWindow maxLength f c w n policy = .ok d ↔ ∃ spec op v, w.spec? = some spec ∧
      spec.length ≤ maxLength ∧ f.isPeriodic = true ∧ c.comparison? = some (op, v) ∧
      v.isNumeric = true ∧
      d = { base f policy (.compare (.aggregate (spec.aggregation.getD .avg)
        ⟨spec.unit, f.column, spec.length⟩) op n) [v] with
        operator := some op, value := some v, window := some spec } := by
  simp only [compileWindow, bind_eq_ok, readWindow_eq_ok]
  constructor
  · rintro ⟨spec, ⟨hs, hl⟩, h⟩
    cases hp : f.isPeriodic
    · simp [hp, invalid] at h
    · simp only [hp, Bool.not_true, Bool.false_eq_true, if_false, bind_eq_ok,
        readComparison_eq_ok] at h
      obtain ⟨⟨op, v⟩, hv, h⟩ := h
      cases hn : v.isNumeric
      · simp [hn, invalid] at h
      · simp only [hn, Bool.not_true, Bool.false_eq_true, if_false, pure, Except.pure,
          Except.ok.injEq] at h
        exact ⟨spec, op, v, hs, hl, rfl, hv, hn, h.symm⟩
  · rintro ⟨spec, op, v, hs, hl, hp, hv, hn, rfl⟩
    refine ⟨spec, ⟨hs, hl⟩, ?_⟩
    simp only [hp, Bool.not_true, Bool.false_eq_true, if_false, bind_eq_ok, readComparison_eq_ok]
    exact ⟨(op, v), hv, by simp [hn, pure, Except.pure]⟩

def compileThreshold (c : Condition α) (policy : MissingPolicy) (window : Option WindowSpec) :
    Except (CompileError α) (CompiledCondition α) :=
  match c.range with
  | some r => do
    let s ← readRange c.fieldName r
    return ⟨c.fieldName, none, [], none, none, window, some s, none, policy⟩
  | none => do
    let (op, v) ← readComparison c.fieldName c
    if !v.isNumeric then invalid c.fieldName .thresholdNotNumber
    else return ⟨c.fieldName, none, [], some op, some v, window, none, none, policy⟩

theorem compileThreshold_eq_ok (c : Condition α) (policy : MissingPolicy)
    (window : Option WindowSpec) (d : CompiledCondition α) :
    compileThreshold c policy window = .ok d ↔
      (∃ r s, c.range = some r ∧ r.span? = some s ∧
        d = ⟨c.fieldName, none, [], none, none, window, some s, none, policy⟩) ∨
      (∃ op v, c.range = none ∧ c.comparison? = some (op, v) ∧ v.isNumeric = true ∧
        d = ⟨c.fieldName, none, [], some op, some v, window, none, none, policy⟩) := by
  unfold compileThreshold
  cases c.range with
  | some r => simp [bind_eq_ok, readRange_eq_ok, pure, Except.pure, @eq_comm _ d]
  | none =>
    simp only [bind_eq_ok, readComparison_eq_ok, Prod.exists]
    constructor
    · rintro ⟨op, v, hv, h⟩
      cases hn : v.isNumeric
      · simp [hn, invalid] at h
      · simp only [hn, Bool.not_true, Bool.false_eq_true, if_false, pure, Except.pure,
          Except.ok.injEq] at h
        exact .inr ⟨op, v, trivial, hv, hn, h.symm⟩
    · rintro (⟨r, s, hr, -⟩ | ⟨op, v, -, hv, hn, rfl⟩)
      · cases hr
      · exact ⟨op, v, hv, by simp [hn, pure, Except.pure]⟩

theorem compileDerived_eq_ok (maxLength : Nat) (c : Condition α) (policy : MissingPolicy)
    (d : CompiledCondition α) :
    compileDerived maxLength c policy = .ok d ↔ c.trend = none ∧
      ∃ window, c.HasWindow maxLength window ∧ compileThreshold c policy window = .ok d := by
  unfold compileDerived Condition.HasWindow
  cases c.trend with
  | some word => simp [invalid]
  | none =>
    cases c.window with
    | none =>
      simp only [reduceCtorEq, false_and, exists_false, or_false, true_and, exists_eq_left]
      exact Iff.rfl
    | some w =>
      have h (window : Option WindowSpec) :
          (readWindow maxLength c.fieldName w).map some = .ok window ↔
            ∃ w' spec, some w = some w' ∧ w'.spec? = some spec ∧ spec.length ≤ maxLength ∧
              window = some spec := by
        simp [map_eq_ok, readWindow_eq_ok, and_assoc, @eq_comm _ window]
      simp only [← h, reduceCtorEq, false_and, false_or, true_and]
      exact bind_eq_ok

def compileUnder (maxLength n : Nat) (c : Condition α) (policy : MissingPolicy) :
    Except (CompileError α) (CompiledCondition α) :=
  if isDerived c.fieldName then compileDerived maxLength c policy
  else match field? c.fieldName with
    | none => .error (.unknownField c.fieldName)
    | some f => match c.range, c.trend, c.window with
      | some _, _, some _ => invalid c.fieldName .rangeWithWindow
      | some r, _, none => compileRange f r n policy
      | none, some word, some w => compileTrend maxLength f word w policy
      | none, some _, none => invalid c.fieldName .trendWithoutWindow
      | none, none, some w => compileWindow maxLength f c w n policy
      | none, none, none => compileComparison f c n policy

theorem compileCondition_eq_ok (maxLength n : Nat) (c : Condition α) (d : CompiledCondition α) :
    compileCondition maxLength n c = .ok d ↔
      ∃ policy, c.policy? = some policy ∧ compileUnder maxLength n c policy = .ok d := by
  unfold compileCondition Condition.policy?
  cases c.onMissing with
  | none =>
    simp only [Option.some.injEq, exists_eq_left']
    exact Iff.rfl
  | some word =>
    cases hr : MissingPolicy.read word with
    | error e => simp [hr, Except.toOption, bind, Except.bind]
    | ok policy =>
      simp only [hr, Except.toOption, Option.some.injEq, exists_eq_left']
      exact Iff.rfl

theorem compiles_of_compileUnder {maxLength n : Nat} {c : Condition α} {d : CompiledCondition α}
    {policy : MissingPolicy} (hp : c.policy? = some policy)
    (h : compileUnder maxLength n c policy = .ok d) : Compiles maxLength n c d := by
  unfold compileUnder at h
  split at h
  · next hd =>
    obtain ⟨ht, window, hw, h⟩ := (compileDerived_eq_ok maxLength c policy d).mp h
    have metric : c.IsDerivedOver maxLength window policy := ⟨hd, hp, ht, hw⟩
    rcases (compileThreshold_eq_ok c policy window d).mp h with
      ⟨r, s, hr, hs, rfl⟩ | ⟨op, v, hr, hv, hn, rfl⟩
    · exact .derivedRange metric hr hs
    · exact .derivedComparison metric hr hv hn
  · next hd =>
    cases hf : field? c.fieldName with
    | none => simp [hf] at h
    | some f =>
      have on : c.IsOn f policy := ⟨by simpa using hd, hf, hp⟩
      cases hr : c.range <;> cases ht : c.trend <;> cases hw : c.window <;>
        simp only [hf, hr, ht, hw, invalid, reduceCtorEq] at h
      · obtain ⟨op, v, hv, rfl⟩ := (compileComparison_eq_ok f c n policy d).mp h
        exact .comparison on hr ht hw hv
      · obtain ⟨spec, op, v, hs, hl, hp, hv, hn, rfl⟩ :=
          (compileWindow_eq_ok maxLength f c _ n policy d).mp h
        exact .window on hr ht hw hs hl hp hv hn
      · obtain ⟨t, spec, htr, hs, hl, hp, h2, rfl⟩ :=
          (compileTrend_eq_ok maxLength f _ _ policy d).mp h
        exact .trend on hr ht hw htr hs hl hp h2
      · obtain ⟨s, hs, rfl⟩ := (compileRange_eq_ok f _ n policy d).mp h
        exact .range on hr hw hs
      · obtain ⟨s, hs, rfl⟩ := (compileRange_eq_ok f _ n policy d).mp h
        exact .range on hr hw hs

theorem Compiles.compileUnder {maxLength n : Nat} {c : Condition α} {d : CompiledCondition α}
    (h : Compiles maxLength n c d) :
    ∃ policy, c.policy? = some policy ∧ compileUnder maxLength n c policy = .ok d := by
  unfold Compilation.compileUnder
  cases h with
  | comparison on hr ht hw hv =>
    refine ⟨_, on.policy, ?_⟩
    simp only [on.notDerived, on.field, hr, ht, hw, Bool.false_eq_true, if_false]
    exact (compileComparison_eq_ok _ c n _ _).mpr ⟨_, _, hv, rfl⟩
  | range on hr hw hs =>
    refine ⟨_, on.policy, ?_⟩
    simp only [on.notDerived, on.field, hr, hw, Bool.false_eq_true, if_false]
    exact (compileRange_eq_ok _ _ n _ _).mpr ⟨_, hs, rfl⟩
  | trend on hr ht hw htr hs hl hp h2 =>
    refine ⟨_, on.policy, ?_⟩
    simp only [on.notDerived, on.field, hr, ht, hw, Bool.false_eq_true, if_false]
    exact (compileTrend_eq_ok maxLength _ _ _ _ _).mpr ⟨_, _, htr, hs, hl, hp, h2, rfl⟩
  | window on hr ht hw hs hl hp hv hn =>
    refine ⟨_, on.policy, ?_⟩
    simp only [on.notDerived, on.field, hr, ht, hw, Bool.false_eq_true, if_false]
    exact (compileWindow_eq_ok maxLength _ c _ n _ _).mpr ⟨_, _, _, hs, hl, hp, hv, hn, rfl⟩
  | derivedRange metric hr hs =>
    refine ⟨_, metric.policy, ?_⟩
    simp only [metric.derived, if_true]
    exact (compileDerived_eq_ok maxLength c _ _).mpr ⟨metric.noTrend, _, metric.window,
      (compileThreshold_eq_ok c _ _ _).mpr (.inl ⟨_, _, hr, hs, rfl⟩)⟩
  | derivedComparison metric hr hv hn =>
    refine ⟨_, metric.policy, ?_⟩
    simp only [metric.derived, if_true]
    exact (compileDerived_eq_ok maxLength c _ _).mpr ⟨metric.noTrend, _, metric.window,
      (compileThreshold_eq_ok c _ _ _).mpr (.inr ⟨_, _, hr, hv, hn, rfl⟩)⟩

/-- Compilation succeeds with the forms above and with no others. -/
theorem compileCondition_eq_ok_iff (maxLength n : Nat) (c : Condition α) (d : CompiledCondition α) :
    compileCondition maxLength n c = .ok d ↔ Compiles maxLength n c d := by
  rw [compileCondition_eq_ok]
  exact ⟨fun ⟨_, hp, h⟩ => compiles_of_compileUnder hp h, Compiles.compileUnder⟩

end Compilation

end EquityScreen
