import EquityScreen.Proofs.PeriodText
import EquityScreen.Resolution
import Mathlib.Data.List.Nodup
import Mathlib.Data.Rat.Defs

namespace EquityScreen

variable {α : Type}

namespace Row

theorem get?_cons (e : String × Cell α) (r : Row α) (column : String) :
    get? (e :: r) column = if e.1 = column then some e.2 else get? r column := by
  by_cases h : e.1 = column <;> simp [get?, h]

theorem get?_append (r r' : Row α) (column : String) :
    get? (r ++ r') column = (get? r column).or (get? r' column) := by
  simp [get?, List.find?_append, Option.map_or]

theorem any_eq_isSome (r : Row α) (column : String) :
    r.any (·.1 = column) = (get? r column).isSome := by
  induction r with
  | nil => rfl
  | cons e rest ih =>
    rw [List.any_cons, get?_cons, ih]
    by_cases h : e.1 = column <;> simp [h]

theorem get?_map_set (r : Row α) (column other : String) (v : Cell α) :
    get? (r.map fun e => if e.1 = column then (column, v) else e) other =
      if column = other then (get? r other).map fun _ => v else get? r other := by
  induction r with
  | nil => split <;> rfl
  | cons e rest ih =>
    rw [List.map_cons, get?_cons, get?_cons, ih]
    by_cases he : e.1 = column
    · subst he
      by_cases ho : e.1 = other <;> simp [ho]
    · rw [if_neg he]
      by_cases ho : e.1 = other
      · have hne : column ≠ other := fun h => he (ho.trans h.symm)
        simp [ho, hne]
      · simp [ho]

theorem get?_set (r : Row α) (column other : String) (v : Cell α) :
    get? (set r column v) other = if column = other then some v else get? r other := by
  unfold set
  split
  · next hany =>
    rw [any_eq_isSome] at hany
    obtain ⟨w, hw⟩ := Option.isSome_iff_exists.mp hany
    rw [get?_map_set]
    by_cases ho : column = other
    · subst ho
      simp [hw]
    · simp [ho]
  · next hany =>
    rw [any_eq_isSome, Option.not_isSome_iff_eq_none] at hany
    rw [get?_append, get?_cons]
    by_cases ho : column = other
    · subst ho
      simp [hany]
    · simp [ho, get?]

@[simp]
theorem set_set (r : Row α) (column : String) (v w : Cell α) :
    set (set r column v) column w = set r column w := by
  have hany : (set r column v).any (·.1 = column) = true := by
    rw [any_eq_isSome, get?_set, if_pos rfl]
    rfl
  rw [set, if_pos hany]
  unfold set
  split
  · rw [List.map_map]
    refine List.map_congr_left fun e _ => ?_
    by_cases he : e.1 = column <;> simp [he]
  · next hnone =>
    have hold : r.map (fun e => if e.1 = column then (column, w) else e) = r := by
      refine (List.map_congr_left fun e he => ?_).trans (List.map_id r)
      exact if_neg fun hcolumn => hnone (List.any_eq_true.mpr ⟨e, he, decide_eq_true hcolumn⟩)
    rw [List.map_append, hold]
    simp

end Row

namespace Resolution

open Statement (cashFlowColumn)

variable {unit : WindowUnit} {p q : Period} {v w : Cell α} {r : Row α}
  {rows facts statements : List (Row α)}

def statementPeriod (unit : WindowUnit) (statement : Row α) : Option Period :=
  (Row.get? statement (periodColumn .cashFlows)).bind (Period.ofCell? unit)

def cashFlowRow (unit : WindowUnit) (p : Period) (v : Cell α) : Row α :=
  [(periodColumn unit.table, p.cell), (cashFlowColumn, v)]

/-- The row of a period with a cash flow taken in, be there such a row or not. -/
def withCashFlow (unit : WindowUnit) (p : Period) (v : Cell α) : Option (Row α) → Row α
  | some r => Row.set r cashFlowColumn v
  | none => cashFlowRow unit p v

def rowAt (unit : WindowUnit) (p : Period) (rows : List (Row α)) : Option (Row α) :=
  rows.find? fun r => periodOf unit r = some p

/-- Periods that a row can be added for and found again. -/
def IsReadable (α : Type) (unit : WindowUnit) (p : Period) : Prop :=
  Period.ofCell? unit (p.cell : Cell α) = some p

theorem cashFlowColumn_ne (unit : WindowUnit) :
    cashFlowColumn ≠ periodColumn unit.table := by
  cases unit <;> decide

@[simp]
theorem periodOf_set : periodOf unit (Row.set r cashFlowColumn v) = periodOf unit r := by
  rw [periodOf, Row.get?_set, if_neg (cashFlowColumn_ne unit), periodOf]

theorem periodOf_cashFlowRow (hp : IsReadable α unit p) :
    periodOf unit (cashFlowRow unit p v) = some p := by
  rw [periodOf, cashFlowRow, Row.get?_cons, if_pos rfl]
  exact hp

@[simp]
theorem withCashFlow_withCashFlow (o : Option (Row α)) :
    withCashFlow unit p w (some (withCashFlow unit p v o)) = withCashFlow unit p w o := by
  cases o with
  | some r => exact Row.set_set r cashFlowColumn v w
  | none => simp [withCashFlow, cashFlowRow, Row.set, (cashFlowColumn_ne unit).symm]

theorem rowAt_cons : rowAt unit p (r :: rows) =
    if periodOf unit r = some p then some r else rowAt unit p rows := by
  by_cases h : periodOf unit r = some p <;> simp [rowAt, h]

theorem rowAt_putCashFlow (hp : IsReadable α unit p) (rows : List (Row α)) :
    rowAt unit q (putCashFlow unit p v rows) =
      if q = p then some (withCashFlow unit p v (rowAt unit p rows)) else rowAt unit q rows := by
  induction rows with
  | nil =>
    have hnew := periodOf_cashFlowRow (v := v) hp
    rw [cashFlowRow] at hnew
    rw [putCashFlow, rowAt_cons, hnew]
    by_cases h : q = p
    · subst h
      simp [rowAt, withCashFlow, cashFlowRow]
    · have hpq : p ≠ q := fun hp => h hp.symm
      simp [rowAt, h, hpq]
  | cons r rest ih =>
    rw [putCashFlow]
    split
    · next hr =>
      rw [rowAt_cons, periodOf_set, hr, rowAt_cons, if_pos hr]
      by_cases h : q = p
      · subst h
        simp [withCashFlow]
      · have hpq : p ≠ q := fun hp => h hp.symm
        simp [rowAt_cons, hr, h, hpq]
    · next hr =>
      rw [rowAt_cons, ih, rowAt_cons, rowAt_cons, if_neg hr]
      by_cases h : q = p
      · subst h
        simp [hr]
      · simp [h]

theorem map_periodOf_putCashFlow (hp : IsReadable α unit p) (rows : List (Row α)) :
    (putCashFlow unit p v rows).map (periodOf unit) =
      if some p ∈ rows.map (periodOf unit) then rows.map (periodOf unit)
      else rows.map (periodOf unit) ++ [some p] := by
  induction rows with
  | nil => exact congrArg (fun o => [o]) (periodOf_cashFlowRow (v := v) hp)
  | cons r rest ih =>
    rw [putCashFlow]
    split
    · next hr => simp [hr]
    · next hr =>
      rw [List.map_cons, List.map_cons, ih]
      have hne : some p ≠ periodOf unit r := fun h => hr h.symm
      by_cases h : some p ∈ rest.map (periodOf unit)
      · rw [if_pos h, if_pos (List.mem_cons_of_mem _ h)]
      · rw [if_neg h, if_neg (List.not_mem_cons_of_ne_of_not_mem hne h), List.cons_append]

/-- Every row has a period, and no two rows have the same one. -/
structure Keyed (unit : WindowUnit) (rows : List (Row α)) : Prop where
  dated : none ∉ rows.map (periodOf unit)
  distinct : (rows.map (periodOf unit)).Nodup

theorem Keyed.putCashFlow (h : Keyed unit rows) (hp : IsReadable α unit p) :
    Keyed unit (putCashFlow unit p v rows) := by
  have hmap := map_periodOf_putCashFlow (v := v) hp rows
  split at hmap
  · exact ⟨hmap ▸ h.dated, hmap ▸ h.distinct⟩
  · next hnew =>
    constructor
    · rw [hmap]
      simpa using h.dated
    · rw [hmap]
      exact h.distinct.append (List.nodup_singleton _) (List.disjoint_singleton.mpr hnew)

def AreReadable (unit : WindowUnit) (statements : List (Row α)) : Prop :=
  ∀ st ∈ statements, ∀ p, statementPeriod unit st = some p → IsReadable α unit p

theorem areReadable_of_short (h : ∀ st ∈ statements, ∀ p ∈ statementPeriod unit st,
    p.hasShortDate = true) : AreReadable unit statements := by
  intro st hst p hp
  obtain ⟨c, -, hc⟩ := Option.bind_eq_some_iff.mp hp
  exact Period.ofCell?_cell hc (h st hst p hp)

theorem mergeOne_of_period {st : Row α} (h : statementPeriod unit st = some p) :
    mergeOne unit rows st = putCashFlow unit p (Row.get st cashFlowColumn) rows := by
  unfold statementPeriod at h
  rw [mergeOne, h]

theorem mergeOne_of_none {st : Row α} (h : statementPeriod unit st = none) :
    mergeOne unit rows st = rows := by
  unfold statementPeriod at h
  rw [mergeOne, h]

theorem Keyed.foldl_mergeOne (h : Keyed unit rows) (hst : AreReadable unit statements) :
    Keyed unit (statements.foldl (mergeOne unit) rows) := by
  induction statements generalizing rows with
  | nil => exact h
  | cons st rest ih =>
    obtain ⟨hfirst, hrest⟩ := List.forall_mem_cons.mp hst
    refine ih ?_ hrest
    cases hp : statementPeriod unit st with
    | none => rwa [mergeOne_of_none hp]
    | some p =>
      rw [mergeOne_of_period hp]
      exact h.putCashFlow (hfirst p hp)

theorem foldl_mergeOne_filter :
    (statements.filter fun st => (statementPeriod unit st).isSome).foldl (mergeOne unit) rows =
      statements.foldl (mergeOne unit) rows := by
  induction statements generalizing rows with
  | nil => rfl
  | cons st rest ih =>
    cases hp : statementPeriod unit st with
    | none => simp [hp, ih, mergeOne_of_none hp]
    | some p => simp [hp, ih]

def lastCashFlow (unit : WindowUnit) (p : Period) (statements : List (Row α)) :
    Option (Cell α) :=
  (statements.filter fun st => statementPeriod unit st = some p).getLast?.map
    (Row.get · cashFlowColumn)

theorem lastCashFlow_cons {st : Row α} : lastCashFlow unit p (st :: statements) =
    if statementPeriod unit st = some p then
      some ((lastCashFlow unit p statements).getD (Row.get st cashFlowColumn))
    else lastCashFlow unit p statements := by
  by_cases h : statementPeriod unit st = some p
  · cases hlast : (statements.filter fun st => statementPeriod unit st = some p).getLast? <;>
      simp [lastCashFlow, h, List.getLast?_cons, hlast]
  · simp [lastCashFlow, h]

theorem lastCashFlow_eq_none : lastCashFlow unit p statements = none ↔
    ∀ st ∈ statements, statementPeriod unit st ≠ some p := by
  simp [lastCashFlow]

theorem exists_of_lastCashFlow (h : lastCashFlow unit p statements = some v) :
    ∃ st ∈ statements, statementPeriod unit st = some p ∧ Row.get st cashFlowColumn = v := by
  obtain ⟨st, hst, rfl⟩ := Option.map_eq_some_iff.mp h
  obtain ⟨hmem, hp⟩ := List.mem_filter.mp (List.mem_of_getLast? hst)
  exact ⟨st, hmem, of_decide_eq_true hp, rfl⟩

/-- The row of a period after all statements: the last one of the period decides. -/
theorem rowAt_foldl_mergeOne (hst : AreReadable unit statements) (rows : List (Row α)) :
    rowAt unit q (statements.foldl (mergeOne unit) rows) =
      match lastCashFlow unit q statements with
      | some v => some (withCashFlow unit q v (rowAt unit q rows))
      | none => rowAt unit q rows := by
  induction statements generalizing rows with
  | nil => rfl
  | cons st rest ih =>
    obtain ⟨hfirst, hrest⟩ := List.forall_mem_cons.mp hst
    rw [List.foldl_cons, ih hrest, lastCashFlow_cons]
    by_cases hq : statementPeriod unit st = some q
    · rw [if_pos hq, mergeOne_of_period hq, rowAt_putCashFlow (hfirst q hq), if_pos rfl]
      cases lastCashFlow unit q rest with
      | none => rfl
      | some v => simp
    · have hsame : rowAt unit q (mergeOne unit rows st) = rowAt unit q rows := by
        cases hp : statementPeriod unit st with
        | none => rw [mergeOne_of_none hp]
        | some p =>
          have hne : q ≠ p := fun h => hq (h ▸ hp)
          rw [mergeOne_of_period hp, rowAt_putCashFlow (hfirst p hp), if_neg hne]
      rw [if_neg hq, hsame]

theorem of_rowAt (h : rowAt unit p rows = some r) : r ∈ rows ∧ periodOf unit r = some p := by
  unfold rowAt at h
  exact ⟨List.mem_of_find?_eq_some h, by simpa using List.find?_some h⟩

theorem rowAt_isSome_iff : (rowAt unit p rows).isSome ↔ ∃ r ∈ rows, periodOf unit r = some p := by
  simp [rowAt, List.find?_isSome]

theorem rowAt_eq_none : rowAt unit p rows = none ↔ ∀ r ∈ rows, periodOf unit r ≠ some p := by
  simp [rowAt]

theorem Keyed.exists_period (h : Keyed unit rows) (hr : r ∈ rows) :
    ∃ p, periodOf unit r = some p :=
  Option.ne_none_iff_exists'.mp fun hnone => h.dated (List.mem_map.mpr ⟨r, hr, hnone⟩)

theorem Keyed.rowAt_eq (h : Keyed unit rows) (hr : r ∈ rows) (hp : periodOf unit r = some p) :
    rowAt unit p rows = some r := by
  obtain ⟨r', hfound⟩ := Option.isSome_iff_exists.mp (rowAt_isSome_iff.mpr ⟨r, hr, hp⟩)
  obtain ⟨hmem, hp'⟩ := of_rowAt hfound
  rw [hfound, List.inj_on_of_nodup_map h.distinct hmem hr (hp'.trans hp.symm)]

def mergedRows (unit : WindowUnit) (facts statements : List (Row α)) : List (Row α) :=
  (statements.foldl (mergeOne unit) facts).mergeSort fun a b =>
    (Period.orderOption (periodOf unit b) (periodOf unit a)).isLE

theorem mergeCashFlows_eq_take (length : Nat) : mergeCashFlows unit length facts statements =
    (mergedRows unit facts statements).take length := rfl

def sortKey (unit : WindowUnit) (r : Row α) : (WithBot Period.Rank)ᵒᵈ :=
  OrderDual.toDual (Period.optionRank (periodOf unit r))

theorem compares_sortKey (rows : List (Row α)) : KeySort.Compares (sortKey unit)
    (fun a b => (Period.orderOption (periodOf unit b) (periodOf unit a)).isLE) rows := by
  intro a _ b _
  dsimp only
  rw [Period.orderOption_eq, isLE_compare]
  rfl

theorem pairwise_mergedRows : (mergedRows unit facts statements).Pairwise fun newer older =>
    Period.optionRank (periodOf unit older) ≤ Period.optionRank (periodOf unit newer) :=
  KeySort.pairwise_mergeSort (compares_sortKey _)

theorem Keyed.mergedRows (h : Keyed unit facts) (hst : AreReadable unit statements) :
    Keyed unit (mergedRows unit facts statements) := by
  have hfold := h.foldl_mergeOne hst
  have hperm := (List.mergeSort_perm (statements.foldl (mergeOne unit) facts) fun a b =>
    (Period.orderOption (periodOf unit b) (periodOf unit a)).isLE).map (periodOf unit)
  exact ⟨mt hperm.mem_iff.mp hfold.dated, hperm.nodup_iff.mpr hfold.distinct⟩

theorem rowAt_mergedRows (hst : AreReadable unit statements) :
    rowAt unit p (mergedRows unit facts statements) =
      match lastCashFlow unit p statements with
      | some v => some (withCashFlow unit p v (rowAt unit p facts))
      | none => rowAt unit p facts := by
  rw [← rowAt_foldl_mergeOne hst]
  have hkey (rows : List (Row α)) : rowAt unit p rows = rows.find? fun r =>
      sortKey unit r = OrderDual.toDual (Period.optionRank (some p)) := by
    refine congrArg (rows.find? ·) (funext fun r => decide_eq_decide.mpr ?_)
    exact (OrderDual.toDual_inj.trans Period.optionRank_injective.eq_iff).symm
  rw [hkey, hkey]
  exact KeySort.find?_mergeSort (compares_sortKey _) _

theorem descending_mergedRows (h : Keyed unit facts) (hst : AreReadable unit statements) :
    (mergedRows unit facts statements).Pairwise fun newer older => ∃ p q,
      periodOf unit newer = some p ∧ periodOf unit older = some q ∧ Period.order q p = .lt := by
  have hkeyed := h.mergedRows hst
  have hne := List.pairwise_map.mp hkeyed.distinct
  refine (pairwise_mergedRows.and hne).imp_of_mem fun ha hb hab => ?_
  obtain ⟨p, hp⟩ := hkeyed.exists_period ha
  obtain ⟨q, hq⟩ := hkeyed.exists_period hb
  refine ⟨p, q, hp, hq, ?_⟩
  obtain ⟨hle, hdiff⟩ := hab
  rw [hp, hq] at hle hdiff
  have hlt := lt_of_le_of_ne hle fun heq => hdiff (Period.optionRank_injective heq).symm
  rw [Period.order_eq, compare_lt_iff_lt]
  exact WithBot.coe_lt_coe.mp hlt

theorem periods_mergedRows (hst : AreReadable unit statements) :
    (∃ r ∈ mergedRows unit facts statements, periodOf unit r = some p) ↔
      (∃ f ∈ facts, periodOf unit f = some p) ∨
        ∃ st ∈ statements, statementPeriod unit st = some p := by
  rw [← rowAt_isSome_iff, rowAt_mergedRows hst, ← rowAt_isSome_iff]
  cases hlast : lastCashFlow unit p statements with
  | none =>
    have hno : ¬ ∃ st ∈ statements, statementPeriod unit st = some p := fun ⟨st, hmem, hp⟩ =>
      lastCashFlow_eq_none.mp hlast st hmem hp
    exact (or_iff_left hno).symm
  | some v =>
    obtain ⟨st, hmem, hp, -⟩ := exists_of_lastCashFlow hlast
    exact iff_of_true rfl (.inr ⟨st, hmem, hp⟩)

theorem mergedRow_cases (h : Keyed unit facts) (hst : AreReadable unit statements)
    (hr : r ∈ mergedRows unit facts statements) (hp : periodOf unit r = some p) :
    (rowAt unit p facts = some r ∧ ∀ st ∈ statements, statementPeriod unit st ≠ some p) ∨
      ∃ st ∈ statements, statementPeriod unit st = some p ∧
        r = withCashFlow unit p (Row.get st cashFlowColumn) (rowAt unit p facts) := by
  have hrow := (rowAt_mergedRows hst).symm.trans ((h.mergedRows hst).rowAt_eq hr hp)
  cases hlast : lastCashFlow unit p statements with
  | none =>
    rw [hlast] at hrow
    exact .inl ⟨hrow, lastCashFlow_eq_none.mp hlast⟩
  | some v =>
    rw [hlast] at hrow
    obtain ⟨st, hmem, hperiod, rfl⟩ := exists_of_lastCashFlow hlast
    exact .inr ⟨st, hmem, hperiod, (Option.some.inj hrow).symm⟩

/-- What facts and statements of cash flow become before the newest rows are taken. -/
structure Merged (unit : WindowUnit) (facts statements all : List (Row α)) : Prop where
  dated : ∀ r ∈ all, (periodOf unit r).isSome
  distinct : (all.map (periodOf unit)).Nodup
  /-- The rows run from the newest to the oldest. -/
  descending : all.Pairwise fun newer older => ∃ p q, periodOf unit newer = some p ∧
    periodOf unit older = some q ∧ Period.order q p = .lt
  /-- There is a row for each period of a fact or of a statement, and for no other period. -/
  periods : ∀ p, (∃ r ∈ all, periodOf unit r = some p) ↔
    (∃ f ∈ facts, periodOf unit f = some p) ∨ ∃ st ∈ statements, statementPeriod unit st = some p
  /-- Nothing but its cash flow changes in a fact, and that only by a statement of its period. -/
  kept : ∀ f ∈ facts, ∀ r ∈ all, periodOf unit r = periodOf unit f →
    (∀ column ≠ cashFlowColumn, Row.get? r column = Row.get? f column) ∧
    ((∀ st ∈ statements, statementPeriod unit st ≠ periodOf unit f) → r = f)
  /-- The row of a period without a fact holds the period and a cash flow of it alone. -/
  created : ∀ r ∈ all, (∀ f ∈ facts, periodOf unit f ≠ periodOf unit r) →
    ∃ st ∈ statements, ∃ p, statementPeriod unit st = some p ∧
      r = [(periodColumn unit.table, p.cell), (cashFlowColumn, Row.get st cashFlowColumn)]

theorem merged_mergedRows (h : Keyed unit facts) (hst : AreReadable unit statements) :
    Merged unit facts statements (mergedRows unit facts statements) where
  dated r hr := Option.isSome_iff_exists.mpr ((h.mergedRows hst).exists_period hr)
  distinct := (h.mergedRows hst).distinct
  descending := descending_mergedRows h hst
  periods p := periods_mergedRows hst
  kept f hf r hr heq := by
    obtain ⟨p, hp⟩ := (h.mergedRows hst).exists_period hr
    have hfact := h.rowAt_eq hf (heq.symm.trans hp)
    rw [← heq, hp]
    obtain ⟨hrow, -⟩ | ⟨st, hmem, hperiod, hrow⟩ := mergedRow_cases h hst hr hp
    · cases hfact.symm.trans hrow
      exact ⟨fun _ _ => rfl, fun _ => rfl⟩
    · rw [hfact] at hrow
      refine ⟨fun column hcolumn => ?_, fun hno => absurd hperiod (hno st hmem)⟩
      rw [hrow, withCashFlow, Row.get?_set, if_neg hcolumn.symm]
  created r hr hno := by
    obtain ⟨p, hp⟩ := (h.mergedRows hst).exists_period hr
    have hfact : rowAt unit p facts = none := rowAt_eq_none.mpr fun f hf => hp ▸ hno f hf
    obtain ⟨hrow, -⟩ | ⟨st, hmem, hperiod, hrow⟩ := mergedRow_cases h hst hr hp
    · cases hfact.symm.trans hrow
    · rw [hfact] at hrow
      exact ⟨st, hmem, p, hperiod, hrow⟩

/-- Merging yields the newest rows of a list that has one row for each period of the facts and of
the statements. Statements without a period have no effect. -/
theorem mergeCashFlows_newest (length : Nat) (hfacts : Keyed unit facts)
    (hshort : ∀ st ∈ statements, ∀ p ∈ statementPeriod unit st, p.hasShortDate = true) :
    (∃ all, Merged unit facts statements all ∧
      mergeCashFlows unit length facts statements = all.take length) ∧
    mergeCashFlows unit length facts
        (statements.filter fun st => (statementPeriod unit st).isSome) =
      mergeCashFlows unit length facts statements := by
  constructor
  · exact ⟨_, merged_mergedRows hfacts (areReadable_of_short hshort), rfl⟩
  · rw [mergeCashFlows_eq_take, mergeCashFlows_eq_take, mergedRows, foldl_mergeOne_filter,
      mergedRows]

def quarterFacts : List (Row ℚ) :=
  [[("fiscal_period", .text "2024-03-31"), ("total_debt", .int 5), ("free_cash_flow", .null)],
   [("fiscal_period", .text "2023-12-31"), ("total_debt", .int 6), ("free_cash_flow", .int 7)]]

def quarterStatements : List (Row ℚ) :=
  [[("period_end", .text "2024-06-30"), ("free_cash_flow", .int 9)],
   [("period_end", .text "soon"), ("free_cash_flow", .int 1)],
   [("period_end", .text "2024-03-31"), ("free_cash_flow", .int 4)]]

theorem mergeCashFlows_newest_twoQuarters :
    Keyed .quarters quarterFacts ∧
    (∀ st ∈ quarterStatements, ∀ p ∈ statementPeriod .quarters st, p.hasShortDate = true) ∧
    (∃ all, Merged .quarters quarterFacts quarterStatements all ∧
      mergeCashFlows .quarters 2 quarterFacts quarterStatements = all.take 2) ∧
    mergeCashFlows .quarters 2 quarterFacts
        (quarterStatements.filter fun st => (statementPeriod .quarters st).isSome) =
      mergeCashFlows .quarters 2 quarterFacts quarterStatements := by
  have hfacts : Keyed .quarters quarterFacts := ⟨by decide +kernel, by decide +kernel⟩
  have hshort : ∀ st ∈ quarterStatements, ∀ p ∈ statementPeriod .quarters st,
      p.hasShortDate = true := by
    decide +kernel
  exact ⟨hfacts, hshort, mergeCashFlows_newest 2 hfacts hshort⟩

end Resolution

end EquityScreen
