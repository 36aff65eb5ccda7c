import EquityScreen.Proofs.CashFlowMerge
import EquityScreen.Proofs.MetricInputs
import EquityScreen.Quantity.Rational

namespace EquityScreen.Resolution

open Statement (cashFlowColumn)

variable {α : Type} {p : Period} {v : Cell α} {r : Row α}
  {facts statements newer older : List (Row α)}

theorem get?_withCashFlow (unit : WindowUnit) (o : Option (Row α)) :
    Row.get? (withCashFlow unit p v o) cashFlowColumn = some v := by
  cases o with
  | some r => rw [withCashFlow, Row.get?_set, if_pos rfl]
  | none =>
    rw [withCashFlow, cashFlowRow, Row.get?_cons, if_neg (cashFlowColumn_ne unit).symm,
      Row.get?_cons, if_pos rfl]

/-- Years are written as numbers, which are read back whatever they are. -/
theorem areReadable_years (statements : List (Row α)) : AreReadable .years statements := by
  refine areReadable_of_short fun st _ p hp => ?_
  obtain ⟨c, -, hc⟩ := Option.bind_eq_some_iff.mp hp
  cases c with
  | null | flag | real => cases hc
  | int n =>
    obtain ⟨-, hyear⟩ := Option.ite_none_right_eq_some.mp hc
    cases hyear
    rfl
  | text s =>
    obtain ⟨y, -, rfl⟩ := Option.map_eq_some_iff.mp hc
    rfl

theorem lastCashFlow_append {unit : WindowUnit} {st : Row α}
    (hst : statementPeriod unit st = some p)
    (holder : ∀ st' ∈ older, statementPeriod unit st' ≠ some p) :
    lastCashFlow unit p (newer ++ st :: older) = some (Row.get st cashFlowColumn) := by
  have hnone : older.filter (fun st' => statementPeriod unit st' = some p) = [] :=
    List.filter_eq_nil_iff.mpr fun st' hmem => by simpa using holder st' hmem
  simp [lastCashFlow, hst, hnone]

def IsNewestYear (p : Period) (facts statements : List (Row α)) : Prop :=
  ∀ q, (∃ f ∈ facts, periodOf .years f = some q) ∨
    (∃ st ∈ statements, statementPeriod .years st = some q) → Period.order q p ≠ .gt

theorem IsNewestYear.optionRank_le (h : IsNewestYear p facts statements)
    (hr : r ∈ mergedRows .years facts statements) :
    Period.optionRank (periodOf .years r) ≤ Period.optionRank (some p) := by
  cases hq : periodOf .years r with
  | none => exact bot_le
  | some q =>
    have hperiod := (periods_mergedRows (areReadable_years statements)).mp ⟨r, hr, hq⟩
    have hle := h q hperiod
    rw [Period.order_eq] at hle
    exact WithBot.coe_le_coe.mpr (compare_le_iff_le.mp hle)

theorem IsNewestYear.mergedRows_eq_cons (h : IsNewestYear p facts statements)
    (hr : rowAt .years p (mergedRows .years facts statements) = some r) :
    ∃ rest, mergedRows .years facts statements = r :: rest := by
  obtain ⟨hmem, hp⟩ := of_rowAt hr
  have hsorted : (mergedRows .years facts statements).Pairwise fun newer older =>
      Period.optionRank (periodOf .years older) ≤ Period.optionRank (periodOf .years newer) :=
    pairwise_mergedRows
  have hle := fun a => h.optionRank_le (r := a)
  generalize mergedRows .years facts statements = all at *
  cases all with
  | nil => cases hmem
  | cons first rest =>
    have hge : Period.optionRank (periodOf .years r) ≤
        Period.optionRank (periodOf .years first) := by
      obtain rfl | hrest := List.mem_cons.mp hmem
      · exact le_rfl
      · exact (List.pairwise_cons.mp hsorted).1 r hrest
    have heq := le_antisymm (hle first List.mem_cons_self) (hp ▸ hge)
    rw [rowAt_cons, if_pos (Period.optionRank_injective heq)] at hr
    cases hr
    exact ⟨rest, rfl⟩

/-- The last statement of a year decides its cash flow, and that of the newest year is the cash flow
that metrics see. -/
theorem cashFlow_of_lastStatement [Quantity α] (facts newer older : List (Row α)) {st : Row α}
    (hst : statementPeriod .years st = some p)
    (holder : ∀ st' ∈ older, statementPeriod .years st' ≠ some p) :
    (∀ length r, rowAt .years p (mergeCashFlows .years length facts (newer ++ st :: older)) =
        some r → Row.get? r cashFlowColumn = some (Row.get st cashFlowColumn)) ∧
    (IsNewestYear p facts (newer ++ st :: older) →
      ∀ length m x, (Row.get st cashFlowColumn).number? = some x →
        (reshape m (mergeCashFlows .years (length + 1) facts (newer ++ st :: older))).scalar
          cashFlowColumn = some x) := by
  have hrow : rowAt .years p (mergedRows .years facts (newer ++ st :: older)) =
      some (withCashFlow .years p (Row.get st cashFlowColumn) (rowAt .years p facts)) := by
    rw [rowAt_mergedRows (areReadable_years _), lastCashFlow_append hst holder]
  constructor
  · intro length r hr
    have hall := (List.take_prefix _ _).find?_eq_some hr
    cases hrow.symm.trans hall
    exact get?_withCashFlow .years _
  · intro hnewest length m x hx
    obtain ⟨rest, hrest⟩ := hnewest.mergedRows_eq_cons hrow
    have hname : cashFlowColumn ≠ "eps_growth" := by decide
    have hcolumn : Input.column cashFlowColumn = cashFlowColumn := by decide
    have hcell := get?_withCashFlow (v := Row.get st cashFlowColumn) (p := p) .years
      (rowAt .years p facts)
    rw [reshape_scalar fun h => absurd h hname, mergeCashFlows_eq_take, hrest, hcolumn,
      List.take_succ_cons, numbers, List.filterMap_cons, Row.get, hcell, Option.getD_some, hx]
    rfl

def debtFacts : List (Row ℚ) :=
  [[("fiscal_year", .int 2023), ("total_debt", .int 300), ("free_cash_flow", .null)]]

def yearEnd : Row ℚ := [("period_end", .text "2023-12-31"), ("free_cash_flow", .int 150)]

def midYear : Row ℚ := [("period_end", .text "2023-06-30"), ("free_cash_flow", .int 100)]

theorem cashFlow_of_lastStatement_midYear :
    statementPeriod .years midYear = some (.year 2023) ∧
    (∀ st ∈ ([] : List (Row ℚ)), statementPeriod .years st ≠ some (.year 2023)) ∧
    (∀ length r, rowAt .years (.year 2023)
        (mergeCashFlows .years length debtFacts ([yearEnd] ++ midYear :: [])) = some r →
      Row.get? r cashFlowColumn = some (.int 100)) ∧
    ∀ length m, (reshape m (mergeCashFlows .years (length + 1) debtFacts
      ([yearEnd] ++ midYear :: []))).scalar cashFlowColumn = some 100 := by
  have hfacts : ∀ f ∈ debtFacts, periodOf .years f = some (.year 2023) := by decide +kernel
  have hstatements : ∀ st ∈ [yearEnd] ++ midYear :: [],
      statementPeriod .years st = some (.year 2023) := by
    decide +kernel
  have hst := hstatements midYear (by simp)
  obtain ⟨hkept, hscalar⟩ := cashFlow_of_lastStatement debtFacts [yearEnd] [] hst
    (fun _ h => absurd h List.not_mem_nil)
  refine ⟨hst, fun _ h => absurd h List.not_mem_nil, hkept, fun length m => ?_⟩
  refine hscalar (fun q hq => ?_) length m 100 rfl
  have hyear : q = .year 2023 := by
    obtain ⟨f, hf, hq⟩ | ⟨st, hmem, hq⟩ := hq
    · exact Option.some.inj (hq.symm.trans (hfacts f hf))
    · exact Option.some.inj (hq.symm.trans (hstatements st hmem))
  rw [hyear]
  decide

/-- The newest statement of a year does not remain, although statements run from the newest to the
oldest. -/
theorem newestStatement_overwritten :
    [yearEnd, midYear].map (statementPeriod .quarters) =
      [some (.date ⟨2023, 12, 31⟩), some (.date ⟨2023, 6, 30⟩)] ∧
    [yearEnd, midYear].map (statementPeriod .years) =
      [some (.year 2023), some (.year 2023)] ∧
    (mergeCashFlows .years 3 debtFacts [yearEnd, midYear]).map (Row.get · cashFlowColumn) =
      [.int 100] ∧
    Row.get yearEnd cashFlowColumn = .int 150 ∧
    (reshape .debtToCashFlow (mergeCashFlows .years 3 debtFacts [yearEnd, midYear])).scalar
      cashFlowColumn = some 100 ∧
    (reshape .debtToCashFlow (mergeCashFlows .years 3 debtFacts [yearEnd, midYear])).scalar
      cashFlowColumn ≠ some 150 := by
  have hrows : mergeCashFlows .years 3 debtFacts [yearEnd, midYear] =
      [[("fiscal_year", .int 2023), ("total_debt", .int 300), ("free_cash_flow", .int 100)]] := by
    have hfold : [yearEnd, midYear].foldl (mergeOne .years) debtFacts =
        [[("fiscal_year", .int 2023), ("total_debt", .int 300), ("free_cash_flow", .int 100)]] := by
      decide +kernel
    rw [mergeCashFlows_eq_take, mergedRows, hfold, List.mergeSort_singleton]
    rfl
  have hscalar : (reshape .debtToCashFlow (mergeCashFlows .years 3 debtFacts
      [yearEnd, midYear])).scalar cashFlowColumn = some 100 := by
    rw [hrows]
    decide +kernel
  have hdates : [yearEnd, midYear].map (statementPeriod .quarters) =
      [some (.date ⟨2023, 12, 31⟩), some (.date ⟨2023, 6, 30⟩)] := by
    decide +kernel
  have hyears : [yearEnd, midYear].map (statementPeriod .years) =
      [some (.year 2023), some (.year 2023)] := by
    decide +kernel
  refine ⟨hdates, hyears, ?_, rfl, hscalar, ?_⟩
  · rw [hrows]
    rfl
  · rw [hscalar]
    decide +kernel

end EquityScreen.Resolution
