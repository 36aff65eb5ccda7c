import EquityScreen.Proofs.MetricDivisions

namespace EquityScreen

open Resolution

variable {α : Type} [ExactQuantity α]

/-- The growth of earnings in percent, as a metric sees it: from the last two of them if there are
so many, and as it is stored if there are not. -/
inductive Metric.SeesGrowth (rows : List (Row α)) : α → Prop
  | computed {older : List α} {previous last : α}
      (h : points rows "eps" = older ++ [previous, last]) :
      SeesGrowth rows (if previous ≤ 0 then 0 else (last - previous) / previous * 100)
  | stored {growth : α} (hfew : (points rows "eps").length < 2)
      (h : IsNewest rows "eps_growth" growth) : SeesGrowth rows growth

/-- The compound growth per period from the first of several numbers to the last. -/
def Metric.IsGrowth (xs : List α) (x : α) : Prop :=
  ∃ first between last p, xs = first :: (between ++ [last]) ∧ 0 < first ∧
    Quantity.power? (last / first) (1 / ((between.length + 1 : Nat) : α)) = some p ∧ p - 1 = x

/-- The value of a metric over rows that run from the newest to the oldest. -/
def Metric.HasValue (rows : List (Row α)) (m : MetricName) (x : α) : Prop :=
  match m with
  | .peg => ∃ pe growth, IsNewest rows "pe_ratio" pe ∧ SeesGrowth rows growth ∧
      0 < growth ∧ pe / growth = x
  | .debtToCashFlow => ∃ debt flow, IsNewest rows "total_debt" debt ∧
      IsNewest rows "free_cash_flow" flow ∧ 0 < flow ∧ debt / flow = x
  | .cashFlowMargin => ∃ flow revenue, IsNewest rows "free_cash_flow" flow ∧
      IsNewest rows "revenue" revenue ∧ 0 < revenue ∧ flow / revenue * 100 = x
  | .earningsConsistency => 2 ≤ (points rows "eps").length ∧
      (((points rows "eps").filter fun y => 0 < y).length : α) / (points rows "eps").length = x
  | .epsGrowth => IsGrowth (points rows "eps") x
  | .revenueGrowth => IsGrowth (points rows "revenue") x

variable {m : MetricName} {rows : List (Row α)} {i : Inputs α} {x : α}

theorem Resolution.scalar_eq_some {name : String} (hname : name ≠ "eps_growth") :
    (reshape m rows).scalar name = some x ↔ IsNewest rows (Input.column name) x := by
  rw [reshape_scalar fun h => absurd h hname, head?_numbers_eq_some]

namespace Metric

theorem debtToCashFlow_eq_ok : (debtToCashFlow i).run (· / ·) = .ok x ↔
    ∃ debt flow, i.scalar "total_debt" = some debt ∧ i.scalar "free_cash_flow" = some flow ∧
      0 < flow ∧ debt / flow = x := by
  unfold debtToCashFlow
  cases i.scalar "total_debt" with
  | none => simp
  | some debt =>
    cases i.scalar "free_cash_flow" with
    | none => simp
    | some flow =>
      by_cases h : 0 < flow
      · simp [h, Calculation.positive_iff]
      · simp [h, Calculation.positive_iff]

theorem cashFlowMargin_eq_ok : (cashFlowMargin i).run (· / ·) = .ok x ↔
    ∃ flow revenue, i.scalar "free_cash_flow" = some flow ∧ i.scalar "revenue" = some revenue ∧
      0 < revenue ∧ flow / revenue * 100 = x := by
  have hhundred : (Quantity.ofInt 100 : α) = 100 := by simp [ExactQuantity.ofInt_eq]
  unfold cashFlowMargin
  cases i.scalar "free_cash_flow" with
  | none => simp
  | some flow =>
    cases i.scalar "revenue" with
    | none => simp
    | some revenue =>
      by_cases h : 0 < revenue
      · simp [h, hhundred, Calculation.positive_iff]
      · simp [h, Calculation.positive_iff]

theorem consistency_eq_ok {xs : List α} : (consistency xs).run (· / ·) = .ok x ↔
    2 ≤ xs.length ∧ ((xs.filter fun y => 0 < y).length : α) / (xs.length : α) = x := by
  have hfilter : xs.filter positive = xs.filter fun y => decide (0 < y) := by
    refine List.filter_congr fun y _ => ?_
    rw [Bool.eq_iff_iff, Calculation.positive_iff, decide_eq_true_iff]
  unfold consistency
  by_cases h : xs.length < 2
  · rw [if_pos h]
    simp [h.not_ge]
  · rw [if_neg h, hfilter, ExactQuantity.ofInt_eq, ExactQuantity.ofInt_eq, Int.cast_natCast,
      Int.cast_natCast]
    simp [not_lt.mp h]

variable [Quantity.SeesSigns α]

theorem peg_eq_ok : (peg i).run (· / ·) = .ok x ↔
    ∃ pe growth, i.scalar "pe_ratio" = some pe ∧ i.scalar "eps_growth" = some growth ∧
      0 < growth ∧ pe / growth = x := by
  unfold peg
  cases i.scalar "pe_ratio" with
  | none => simp
  | some pe =>
    cases i.scalar "eps_growth" with
    | none => simp
    | some growth =>
      dsimp only
      by_cases h : 0 < growth
      · rw [if_neg (mt (Calculation.atMost_zero_iff growth).mp h.not_ge)]
        simp [h]
      · rw [if_pos ((Calculation.atMost_zero_iff growth).mpr (not_lt.mp h))]
        simp [h]

omit [Quantity.SeesSigns α] in
theorem power?_of_concat {first second last : α} {rest between : List α}
    (h : second :: rest = between ++ [last]) :
    Quantity.power? (rest.getLastD second / first)
        (Quantity.one / Quantity.ofInt (rest.length + 1)) =
      Quantity.power? (last / first) (1 / ((between.length + 1 : Nat) : α)) := by
  have hlast : rest.getLastD second = last := calc
    rest.getLastD second = (second :: rest).getLastD second := List.getLastD_cons.symm
    _ = last := by rw [h, List.getLastD_concat]
  have hlength : rest.length + 1 = between.length + 1 := by
    simpa using congrArg List.length h
  have hperiods : (Quantity.ofInt (rest.length + 1) : α) = (between.length + 1 : Nat) := by
    rw [← hlength, ExactQuantity.ofInt_eq, ← Nat.cast_succ, Int.cast_natCast]
  rw [hlast, hperiods, ExactQuantity.one_eq]

theorem growth_eq_ok {label : String} {xs : List α} :
    (compoundGrowth label xs).run (· / ·) = .ok x ↔ IsGrowth xs x := by
  match xs with
  | [] | [_] => simp [compoundGrowth, IsGrowth]
  | first :: second :: rest =>
    rw [compoundGrowth_eq_ok, ← Bool.not_eq_true, Calculation.atMost_zero_iff, not_le,
      ExactQuantity.one_eq]
    constructor
    · rintro ⟨hfirst, p, hp, hx⟩
      obtain hnil | ⟨between, last, h⟩ := List.eq_nil_or_concat' (second :: rest)
      · exact absurd hnil (List.cons_ne_nil _ _)
      · rw [← ExactQuantity.one_eq, power?_of_concat h] at hp
        exact ⟨first, between, last, p, by rw [h], hfirst, hp, hx⟩
    · rintro ⟨first', between, last, p, h, hfirst, hp, hx⟩
      obtain ⟨rfl, hrest⟩ := List.cons.inj h
      rw [← power?_of_concat hrest, ExactQuantity.one_eq] at hp
      exact ⟨hfirst, p, hp, hx⟩

theorem earningsGrowth_eq (latest previous : α) :
    (earningsGrowth latest previous).run (· / ·) =
      if previous ≤ 0 then 0 else (latest - previous) / previous * 100 := by
  rw [run_earningsGrowth, ExactQuantity.ofInt_eq, Int.cast_ofNat]
  by_cases h : previous ≤ 0
  · rw [if_pos ((Calculation.atMost_zero_iff previous).mpr h), if_pos h, ExactQuantity.zero_eq]
  · rw [if_neg (mt (Calculation.atMost_zero_iff previous).mp h), if_neg h]

theorem scalar_growth_eq_some {growth : α} :
    (reshape .peg rows).scalar "eps_growth" = some growth ↔ SeesGrowth rows growth := by
  by_cases hfew : (points rows "eps").length < 2
  · rw [reshape_scalar fun _ => hfew, head?_numbers_eq_some]
    constructor
    · exact .stored hfew
    · rintro (hpoints | ⟨-, h⟩)
      · simp [hpoints] at hfew
      · exact h
  · obtain ⟨older, previous, last, hpoints⟩ := exists_points (not_lt.mp hfew)
    rw [reshape_growth (by decide) hpoints, earningsGrowth_eq, Option.some_inj]
    constructor
    · rintro rfl
      exact .computed hpoints
    · rintro (hpoints' | ⟨hfew', -⟩)
      · obtain ⟨-, hlast⟩ := List.append_inj' (hpoints.symm.trans hpoints') rfl
        cases hlast
        rfl
      · exact absurd hfew' hfew

theorem compute_eq_ok : Metric.compute m (reshape m rows) = .ok x ↔ HasValue rows m x := by
  have hgrowth {base : String} (hm : m.IsGrowthOf base) :
      Metric.compute m (reshape m rows) = .ok x ↔ IsGrowth (points rows base) x := by
    rw [metricCompute_growth hm, mapError_eq_ok, growth_eq_ok, series_growth hm, points_eq]
  cases m with
  | peg =>
    apply (mapError_eq_ok.trans peg_eq_ok).trans
    simp only [scalar_growth_eq_some, scalar_eq_some (show "pe_ratio" ≠ "eps_growth" by decide)]
    rfl
  | debtToCashFlow =>
    apply (mapError_eq_ok.trans debtToCashFlow_eq_ok).trans
    simp only [scalar_eq_some (show "total_debt" ≠ "eps_growth" by decide),
      scalar_eq_some (show "free_cash_flow" ≠ "eps_growth" by decide)]
    rfl
  | cashFlowMargin =>
    apply (mapError_eq_ok.trans cashFlowMargin_eq_ok).trans
    simp only [scalar_eq_some (show "revenue" ≠ "eps_growth" by decide),
      scalar_eq_some (show "free_cash_flow" ≠ "eps_growth" by decide)]
    rfl
  | earningsConsistency =>
    apply (mapError_eq_ok.trans consistency_eq_ok).trans
    rw [reshape_series]
    rfl
  | epsGrowth => exact hgrowth .eps
  | revenueGrowth => exact hgrowth .revenue

end Metric

def MetricName.invalidCode (m : MetricName) : String := m.word.toUpper ++ "_INVALID"

theorem MetricError.code_missing (m : MetricName) :
    MetricError.code ⟨m, .missing ""⟩ = m.invalidCode := by
  cases m <;> decide +kernel

theorem MetricError.code_eq {e : MetricError} (h : ∀ ticker, e.fault ≠ .noFacts ticker) :
    e.code = e.metric.invalidCode := by
  obtain ⟨m, fault⟩ := e
  cases fault with
  | noFacts ticker => exact absurd rfl (h ticker)
  | missing | notPositive | tooFew | startNotPositive | undefinedGrowth => exact code_missing m

/-- Every fault of a calculation is about an input or a series. -/
theorem Metric.run_calculation_ne_noFacts (d : α → α → α) (m : MetricName) (i : Inputs α)
    (ticker : String) : (calculation m i).run d ≠ .error (.noFacts ticker) := by
  cases m with
  | peg => grind [calculation, peg, Calculation.run_pure, Calculation.run_bind]
  | debtToCashFlow =>
    grind [calculation, debtToCashFlow, Calculation.run_pure, Calculation.run_bind]
  | cashFlowMargin =>
    grind [calculation, cashFlowMargin, Calculation.run_pure, Calculation.run_bind]
  | epsGrowth | revenueGrowth =>
    grind [calculation, compoundGrowth.eq_def, Calculation.run_pure, Calculation.run_bind]
  | earningsConsistency =>
    grind [calculation, consistency, Calculation.run_pure, Calculation.run_bind]

theorem Metric.compute_eq_error {e : MetricError} (h : Metric.compute m i = .error e) :
    e.metric = m ∧ e.code = m.invalidCode := by
  obtain ⟨fault, hfault, rfl⟩ := mapError_eq_error.mp h
  refine ⟨rfl, MetricError.code_eq ?_⟩
  rintro ticker rfl
  exact run_calculation_ne_noFacts _ m i ticker hfault

variable {store : Store α} {ticker : String} {c : CompiledCondition α}

namespace Resolution

theorem not_hasValue_nil : ¬ Metric.HasValue [] m x := by
  cases m <;> simp [Metric.HasValue, Metric.IsGrowth, IsNewest, points]

variable [Quantity.SeesSigns α]

/-- The computation of a metric from fetched rows makes the divisions of a calculation, whatever
division is, and with the division of numbers all of these are by positive numbers; what division by
other numbers comes to does not matter to it. Then there is a value exactly if the inputs are there
and those that have to be positive are so. Otherwise there is an error of the metric. -/
theorem compute_divides_by_positive (historyLength : Nat) (hm : metric? c.field = some m)
    (hrows : (fetch store ticker m (spanOf historyLength c.window).1
      (spanOf historyLength c.window).2).result = .ok rows) :
    (∀ d : α → α → α, (@compute α (.dividingBy d) store historyLength ticker c).result =
        .ok ((Calculation.outcome m ticker rows).run d)) ∧
    (∀ y ∈ (Calculation.outcome m ticker rows).divisors (· / ·), 0 < y) ∧
    (∀ d : α → α → α, (∀ a b, 0 < b → d a b = a / b) →
      (@compute α (.dividingBy d) store historyLength ticker c).result =
        (compute store historyLength ticker c).result) ∧
    ∃ v, (compute store historyLength ticker c).result = .ok v ∧
      (∀ x, v = .ok x ↔ Metric.HasValue rows m x) ∧
      ∀ e, v = .error e →
        e.metric = m ∧ e.code = if rows = [] then "NO_DATA" else m.invalidCode := by
  have hdivides (d : α → α → α) :
      (@compute α (.dividingBy d) store historyLength ticker c).result =
        .ok ((Calculation.outcome m ticker rows).run d) := by
    rw [Calculation.run_outcome]
    exact @compute_of_fetch α (.dividingBy d) _ _ _ _ _ _ hm hrows
  have hsafe := Calculation.isSafe_outcome m ticker rows
  refine ⟨hdivides, hsafe, fun d hd => ?_, _, compute_of_fetch hm hrows, ?_, ?_⟩
  · rw [hdivides, hsafe.run_eq hd]
    exact (hdivides (· / ·)).symm
  · intro x
    cases rows with
    | nil => exact iff_of_false nofun not_hasValue_nil
    | cons r rest => exact Metric.compute_eq_ok
  · intro e he
    cases rows with
    | nil =>
      cases he
      exact ⟨rfl, rfl⟩
    | cons r rest => exact Metric.compute_eq_error he

def debtor : Store ℚ
  | .facts .. => .ok [[(periodColumn .annual, .int 2023), ("total_debt", .int 6),
      ("free_cash_flow", .null)]]
  | .cashFlows .. => .ok [[("period_end", .text "2023-12-31"), ("free_cash_flow", .int 3)]]
  | _ => .error .poisoned

def lowDebt : CompiledCondition ℚ :=
  ⟨"debt_to_fcf", none, [], some .lt, some (.int 3), some ⟨.years, 1, none⟩, none, none, .exclude⟩

def debtorRow : Row ℚ :=
  [(periodColumn .annual, .int 2023), ("total_debt", .int 6), ("free_cash_flow", .int 3)]

theorem fetch_debtor : (fetch debtor "A" .debtToCashFlow .years 1).result = .ok [debtorRow] := by
  let facts : List (Row ℚ) :=
    [[(periodColumn .annual, .int 2023), ("total_debt", .int 6), ("free_cash_flow", .null)]]
  let statements : List (Row ℚ) :=
    [[("period_end", .text "2023-12-31"), ("free_cash_flow", .int 3)]]
  have hmerged : statements.foldl (mergeOne .years) facts = [debtorRow] := by decide +kernel
  change Except.ok (mergeCashFlows .years 1 facts statements) = _
  rw [mergeCashFlows, hmerged, List.mergeSort_singleton]
  rfl

theorem compute_divides_by_positive_debtor :
    metric? lowDebt.field = some .debtToCashFlow ∧
    (fetch debtor "A" .debtToCashFlow .years 1).result = .ok [debtorRow] ∧
    (Calculation.outcome .debtToCashFlow "A" [debtorRow]).divisors (· / ·) = [3] ∧
    (compute debtor 4 "A" lowDebt).result = .ok (.ok 2) ∧
    ∀ d : ℚ → ℚ → ℚ, (∀ a b, 0 < b → d a b = a / b) →
      (@compute ℚ (.dividingBy d) debtor 4 "A" lowDebt).result = .ok (.ok 2) := by
  have hm : metric? lowDebt.field = some .debtToCashFlow := by decide
  obtain ⟨-, -, hsame, v, hv, hvalue, -⟩ :=
    compute_divides_by_positive 4 hm fetch_debtor
  have htwo : v = .ok 2 := (hvalue 2).mpr ⟨6, 3, ⟨[], _, [], rfl, rfl, nofun⟩,
    ⟨[], _, [], rfl, rfl, nofun⟩, by decide +kernel, by decide +kernel⟩
  rw [htwo] at hv
  exact ⟨hm, fetch_debtor, by decide +kernel, hv, fun d hd => (hsame d hd).trans hv⟩

end Resolution

end EquityScreen
