import EquityScreen.Quantity.Rational
import EquityScreen.Resolution
import Mathlib.Data.List.Basic

namespace EquityScreen

variable {α : Type}

/-- Inputs between which a metric sees no difference. -/
def Inputs.SameFor (m : MetricName) (i j : Inputs α) : Prop :=
  ∀ name ∈ m.inputs, i.scalar name = j.scalar name ∧ i.series name = j.series name

variable [Quantity α]

theorem Metric.compute_congr {m : MetricName} {i j : Inputs α} (h : i.SameFor m j) :
    Metric.compute m i = Metric.compute m j := by
  have hscalar (name : String) (hname : name ∈ m.inputs) : i.scalar name = j.scalar name :=
    (h name hname).1
  have hseries (name : String) (hname : name ∈ m.inputs) : i.series name = j.series name :=
    (h name hname).2
  cases m with
  | peg =>
    simp only [compute, calculation, peg, hscalar "pe_ratio" (by decide),
      hscalar "eps_growth" (by decide)]
  | debtToCashFlow =>
    simp only [compute, calculation, debtToCashFlow, hscalar "total_debt" (by decide),
      hscalar "free_cash_flow" (by decide)]
  | epsGrowth => simp only [compute, calculation, hseries "eps_history" (by decide)]
  | revenueGrowth => simp only [compute, calculation, hseries "revenue_history" (by decide)]
  | cashFlowMargin =>
    simp only [compute, calculation, cashFlowMargin, hscalar "free_cash_flow" (by decide),
      hscalar "revenue" (by decide)]
  | earningsConsistency => simp only [compute, calculation, hseries "eps_history" (by decide)]

namespace Resolution

variable {m : MetricName} {rows rows' : List (Row α)} {column name : String}

/-- The numbers of a column from the oldest to the newest, of rows that run the other way. -/
def points (rows : List (Row α)) (column : String) : List α :=
  rows.reverse.filterMap fun r => (Row.get r column).number?

/-- The newest number of a column; newer rows have none in it. -/
def IsNewest (rows : List (Row α)) (column : String) (x : α) : Prop :=
  ∃ newer r older, rows = newer ++ r :: older ∧ (Row.get r column).number? = some x ∧
    ∀ r' ∈ newer, (Row.get r' column).number? = none

theorem points_eq (rows : List (Row α)) (column : String) :
    points rows column = (numbers rows column).reverse := List.filterMap_reverse

theorem head?_numbers_eq_some {x : α} :
    (numbers rows column).head? = some x ↔ IsNewest rows column x := by
  rw [numbers, List.head?_filterMap, List.findSome?_eq_some_iff]
  rfl

theorem head?_numbers_eq_none :
    (numbers rows column).head? = none ↔ ∀ r ∈ rows, (Row.get r column).number? = none := by
  rw [numbers, List.head?_filterMap, List.findSome?_eq_none_iff]

theorem numbers_eq_of_points {older : List α} {previous last : α}
    (h : points rows column = older ++ [previous, last]) :
    numbers rows column = last :: previous :: older.reverse := by
  rw [points_eq, List.reverse_eq_iff] at h
  simpa using h

theorem reshape_series (m : MetricName) (rows : List (Row α)) (name : String) :
    (reshape m rows).series name = points rows (Input.column name) := by
  rw [points_eq]
  unfold reshape inputs
  split <;> simp

theorem reshape_scalar (hfew : name = "eps_growth" → (points rows "eps").length < 2) :
    (reshape m rows).scalar name = (numbers rows (Input.column name)).head? := by
  unfold reshape inputs
  split
  · next latest previous older _ hpoints =>
    have hname : name ≠ "eps_growth" := by
      intro hname
      have hlength := hfew hname
      rw [points_eq, hpoints] at hlength
      simp at hlength
    simp [hname]
  · rfl

theorem run_earningsGrowth (d : α → α → α) (latest previous : α) :
    (earningsGrowth latest previous).run d =
      if Quantity.atMost previous Quantity.zero then Quantity.zero
      else d (latest - previous) previous * Quantity.ofInt 100 := Calculation.run_ite _ _

theorem reshape_growth (hm : "eps_growth" ∈ m.inputs) {older : List α} {previous last : α}
    (h : points rows "eps" = older ++ [previous, last]) :
    (reshape m rows).scalar "eps_growth" = some ((earningsGrowth last previous).run (· / ·)) := by
  have hcontains : m.inputs.contains "eps_growth" = true := List.contains_iff_mem.mpr hm
  simp only [reshape, inputs, hcontains, numbers_eq_of_points h, Calculation.run_bind]
  rfl

theorem exists_points (h : 2 ≤ (points rows column).length) :
    ∃ older previous last, points rows column = older ++ [previous, last] := by
  rw [points_eq] at h ⊢
  generalize numbers rows column = xs at h
  match xs with
  | [] | [_] => exact absurd h (by simp)
  | last :: previous :: older => exact ⟨older.reverse, previous, last, by simp⟩

def carries (columns : List String) (r : Row α) : Bool :=
  columns.any fun column => (Row.get r column).number?.isSome

theorem numbers_filter_carries {columns : List String} (h : column ∈ columns)
    (rows : List (Row α)) :
    numbers (rows.filter (carries columns)) column = numbers rows column := by
  rw [numbers, numbers, List.filterMap_filter]
  refine List.filterMap_congr fun r _ => ?_
  by_cases hr : carries columns r = true
  · rw [if_pos hr]
  · rw [if_neg hr]
    have hnone := List.any_eq_false.mp (Bool.eq_false_of_not_eq_true hr) column h
    exact (Option.not_isSome_iff_eq_none.mp hnone).symm

omit [Quantity α] in
theorem column_mem_columnsOf (h : name ∈ m.inputs) : Input.column name ∈ columnsOf m := by
  revert name
  cases m <;> decide

omit [Quantity α] in
theorem eps_mem_columnsOf (h : "eps_growth" ∈ m.inputs) : "eps" ∈ columnsOf m := by
  cases m <;> revert h <;> decide

/-- The same rows as a metric sees them: rows without a number for it may differ. -/
def SameRows (m : MetricName) (rows rows' : List (Row α)) : Prop :=
  rows.filter (carries (columnsOf m)) = rows'.filter (carries (columnsOf m))

theorem SameRows.numbers_eq (h : SameRows m rows rows') (hcolumn : column ∈ columnsOf m) :
    numbers rows column = numbers rows' column := by
  rw [← numbers_filter_carries hcolumn rows, h, numbers_filter_carries hcolumn]

theorem SameRows.points_eq (h : SameRows m rows rows') (hcolumn : column ∈ columnsOf m) :
    points rows column = points rows' column := by
  rw [Resolution.points_eq, Resolution.points_eq, h.numbers_eq hcolumn]

theorem SameRows.reshape (h : SameRows m rows rows') :
    (reshape m rows).SameFor m (reshape m rows') := by
  intro name hname
  constructor
  · by_cases hfew : name = "eps_growth" → (points rows "eps").length < 2
    · have hfew' (hgrowth : name = "eps_growth") : (points rows' "eps").length < 2 := by
        rw [← h.points_eq (eps_mem_columnsOf (hgrowth ▸ hname))]
        exact hfew hgrowth
      rw [reshape_scalar hfew, reshape_scalar hfew', h.numbers_eq (column_mem_columnsOf hname)]
    · obtain ⟨rfl, hmany⟩ := Classical.not_imp.mp hfew
      obtain ⟨older, previous, last, hpoints⟩ := exists_points (not_lt.mp hmany)
      have hpoints' := (h.points_eq (eps_mem_columnsOf hname)).symm.trans hpoints
      rw [reshape_growth hname hpoints, reshape_growth hname hpoints']
  · rw [reshape_series, reshape_series, h.points_eq (column_mem_columnsOf hname)]

def outcome (m : MetricName) (ticker : String) (rows : List (Row α)) : Except MetricError α :=
  if rows.isEmpty then .error ⟨m, .noFacts ticker⟩ else Metric.compute m (reshape m rows)

/-- The inputs of a metric are read from the numbers of fetched rows alone. A series has those of
its column from the oldest to the newest, and any other input is the newest one, if there is one;
but a metric that needs the growth of earnings and sees two of them or more computes it from the
last two, whatever else is stored. So rows without a number in a needed column may be inserted or
taken away anywhere: the inputs of the metric are the same, and so is its value or its error. -/
theorem reshape_reads (m : MetricName) (rows : List (Row α)) :
    (∀ name ∈ m.inputs, Input.isSeries name = true →
      (reshape m rows).series name = points rows (Input.column name)) ∧
    (∀ name ∈ m.inputs, Input.isSeries name = false →
      (name = "eps_growth" → (points rows "eps").length < 2) →
        (∀ x, (reshape m rows).scalar name = some x ↔ IsNewest rows (Input.column name) x) ∧
        ((reshape m rows).scalar name = none ↔
          ∀ r ∈ rows, (Row.get r (Input.column name)).number? = none)) ∧
    ("eps_growth" ∈ m.inputs → ∀ older previous last,
      points rows "eps" = older ++ [previous, last] →
      (reshape m rows).scalar "eps_growth" =
        some (if Quantity.atMost previous Quantity.zero then Quantity.zero
          else (last - previous) / previous * Quantity.ofInt 100)) ∧
    ∀ rows', SameRows m rows rows' →
      (reshape m rows).SameFor m (reshape m rows') ∧
      Metric.compute m (reshape m rows) = Metric.compute m (reshape m rows') ∧
      ((rows = [] ↔ rows' = []) → ∀ ticker, outcome m ticker rows = outcome m ticker rows') := by
  refine ⟨fun name _ _ => reshape_series m rows name, fun name _ _ hfew => ?scalar,
    fun hm older previous last h => ?growth, fun rows' hsame => ?same⟩
  case scalar =>
    rw [reshape_scalar hfew]
    exact ⟨fun x => head?_numbers_eq_some, head?_numbers_eq_none⟩
  case growth => rw [reshape_growth hm h, run_earningsGrowth]
  case same =>
    have hinputs := hsame.reshape
    have hcompute := Metric.compute_congr hinputs
    refine ⟨hinputs, hcompute, fun hempty ticker => ?_⟩
    have hisEmpty : rows.isEmpty = rows'.isEmpty := by
      rw [Bool.eq_iff_iff, List.isEmpty_iff, List.isEmpty_iff, hempty]
    rw [outcome, outcome, hisEmpty, hcompute]

/-- Quarters from the newest to the oldest: the newest has no earnings yet, and there is one in
which nothing was reported. -/
def gappyQuarters : List (Row ℚ) :=
  [[("pe_ratio", .int 20), ("eps_growth", .int 7), ("eps", .null)],
    [("pe_ratio", .null), ("eps_growth", .null), ("eps", .real 3)],
    [("pe_ratio", .null), ("eps_growth", .null), ("eps", .null)],
    [("pe_ratio", .int 10), ("eps_growth", .null), ("eps", .real 2)]]

theorem reshape_reads_gappyQuarters :
    (reshape .peg gappyQuarters).series "eps_history" = [2, 3] ∧
    (reshape .peg gappyQuarters).scalar "pe_ratio" = some 20 ∧
    (reshape .peg gappyQuarters).scalar "eps_growth" = some 50 ∧
    SameRows .peg gappyQuarters (gappyQuarters.eraseIdx 2) ∧
    ∀ ticker, outcome .peg ticker gappyQuarters =
      outcome .peg ticker (gappyQuarters.eraseIdx 2) := by
  obtain ⟨hseries, hscalar, hgrowth, hsame⟩ := reshape_reads .peg gappyQuarters
  have hpoints : points gappyQuarters "eps" = [2, 3] := rfl
  have hrows : SameRows .peg gappyQuarters (gappyQuarters.eraseIdx 2) := by
    unfold SameRows
    decide +kernel
  refine ⟨(hseries "eps_history" (by decide) (by decide)).trans hpoints, ?_, ?_, hrows, ?_⟩
  · apply ((hscalar "pe_ratio" (by decide) (by decide) (fun h => absurd h (by decide))).1 20).mpr
    exact ⟨[], _, _, rfl, rfl, nofun⟩
  · rw [hgrowth (by decide) [] 2 3 hpoints]
    decide +kernel
  · exact (hsame _ hrows).2.2 (by simp [gappyQuarters])

end Resolution

end EquityScreen
