import EquityScreen.Proofs.AnsweredQueries
import EquityScreen.Proofs.CandidateVerdicts
import EquityScreen.Proofs.MetricInputs
import EquityScreen.Proofs.OwnRows
import EquityScreen.Quantity.Rational

namespace EquityScreen

/-- Numbers compare with zero as their exact values do. Binary floating point has these laws. -/
class Quantity.SeesSigns (α : Type) [Quantity α] : Prop where
  atMost_zero : ∀ x : α, atMost x zero = true ↔ (compareInt x 0).getD .gt ≠ .gt
  ofInt_atMost_zero : ∀ n : Int, atMost (ofInt n : α) zero = true ↔ n ≤ 0

instance : Quantity.SeesSigns ℚ where
  atMost_zero x := by
    have hcompare : (Quantity.compareInt x 0).getD .gt = compare x 0 := rfl
    rw [Rational.atMost_iff, hcompare, compare_le_iff_le.symm]
    rfl
  ofInt_atMost_zero n := by
    rw [Rational.atMost_iff]
    exact Int.cast_le

variable {α : Type} [Quantity α]

inductive MetricName.IsGrowthOf : MetricName → String → Prop
  | eps : IsGrowthOf .epsGrowth "eps"
  | revenue : IsGrowthOf .revenueGrowth "revenue"

namespace Cell

theorem order_zero_eq_gt [Quantity.SeesSigns α] {v : Cell α} {x : α} (h : v.number? = some x) :
    Cell.order v (.int 0) = .gt ↔ Quantity.atMost x Quantity.zero = false := by
  rw [← Bool.not_eq_true]
  cases v with
  | null | flag | text => cases h
  | int n =>
    cases h
    rw [Quantity.SeesSigns.ofInt_atMost_zero, not_le]
    exact compare_gt_iff_gt
  | real y =>
    cases h
    rw [Quantity.SeesSigns.atMost_zero, not_not]
    rfl

theorem magnitude_of_number? {v : Cell α} {x : α} (h : v.number? = some x) : v.magnitude = x := by
  cases v with
  | null | flag | text => cases h
  | int n | real y => cases h; rfl

theorem isNull_of_number? {v : Cell α} (h : v.number?.isSome = true) : v.isNull = false := by
  cases v with
  | null => cases h
  | flag | int | real | text => rfl

end Cell

theorem Metric.compoundGrowth_eq_ok {label : String} {first second x : α} {rest : List α} :
    (Metric.compoundGrowth label (first :: second :: rest)).run (· / ·) = .ok x ↔
      Quantity.atMost first Quantity.zero = false ∧
        ∃ p, Quantity.power? (rest.getLastD second / first)
          (Quantity.one / Quantity.ofInt (rest.length + 1)) = some p ∧ p - Quantity.one = x := by
  unfold Metric.compoundGrowth
  dsimp only
  rw [Calculation.run_ite]
  split
  · next h => simp [h]
  · next h =>
    simp only [Calculation.run_bind, Calculation.run_quotient]
    split
    · next p hp =>
      rw [hp]
      simp [h]
    · next hp =>
      rw [hp]
      simp

namespace Aggregation

theorem growth_eq_real {first last : Cell α} {count : Nat} {x : α} :
    growth first last count = .real x ↔
      1 < count ∧ Cell.order first (.int 0) = .gt ∧ Cell.order last (.int 0) ≠ .lt ∧
        ∃ p, Quantity.power? (last.magnitude / first.magnitude)
          (Quantity.one / Quantity.ofInt ((count - 1 : Nat) : Int)) = some p ∧
            p - Quantity.one = x := by
  unfold growth
  dsimp only
  split
  · next h =>
    simp only [Bool.and_eq_true, decide_eq_true_eq, beq_iff_eq, bne_iff_ne] at h
    split
    · next p hp => simp [h, hp]
    · next hp => simp [hp]
  · next h =>
    simp only [Bool.and_eq_true, decide_eq_true_eq, beq_iff_eq, bne_iff_ne] at h
    simp only [reduceCtorEq, false_iff]
    exact fun ⟨hcount, hfirst, hlast, _⟩ => h ⟨⟨hcount, hfirst⟩, hlast⟩

/-- A newest value that is negative. -/
def EndsNegative (vs : List (Cell α)) : Prop :=
  ∃ newest ∈ vs.getLast?, Cell.order newest (.int 0) = .lt

theorem endsNegative_cons {first : Cell α} {rest : List (Cell α)} :
    EndsNegative (first :: rest) ↔ Cell.order (rest.getLastD first) (.int 0) = .lt := by
  simp [EndsNegative, List.getLast?_cons, List.getLastD_eq_getLast?]

theorem number?_getLastD {vs : List (Cell α)} {xs : List α} {v : Cell α} {x : α}
    (h : vs.map Cell.number? = xs.map some) (hv : v.number? = some x) :
    (vs.getLastD v).number? = some (xs.getLastD x) := by
  have hlast := congrArg (fun l => l.getLastD (some x)) h
  have hleft : (vs.map Cell.number?).getLastD (some x) = (vs.getLastD v).number? := by
    rw [List.getLastD_eq_getLast?, List.getLastD_eq_getLast?, List.getLast?_map, ← hv]
    cases vs.getLast? <;> rfl
  have hright : (xs.map some).getLastD (some x) = some (xs.getLastD x) := by
    rw [List.getLastD_eq_getLast?, List.getLastD_eq_getLast?, List.getLast?_map]
    cases xs.getLast? <;> rfl
  exact hleft.symm.trans (hlast.trans hright)

/-- Over the same numbers a window and a metric find the same growth, but a window finds none where
the newest number is negative. -/
theorem value_cagr_eq_real [Quantity.SeesSigns α] {vs : List (Cell α)} {xs : List α}
    (h : vs.map Cell.number? = xs.map some) (label : String) (x : α) :
    Aggregation.value .cagr vs = .real x ↔
      (Metric.compoundGrowth label xs).run (· / ·) = .ok x ∧ ¬ EndsNegative vs := by
  have hlength : vs.length = xs.length := by simpa using congrArg List.length h
  match vs, xs with
  | [], [] => simp [value, Metric.compoundGrowth]
  | [a], [y] => simp [value, growth, Metric.compoundGrowth]
  | a :: vs, y :: z :: xs =>
    obtain ⟨ha, hvs⟩ := List.cons.inj h
    have hlast : (vs.getLastD a).number? = some (xs.getLastD z) := by
      have hall := number?_getLastD hvs ha
      rwa [List.getLastD_cons] at hall
    have hcount : ((a :: vs).length - 1 : Nat) = xs.length + 1 := by
      rw [hlength]
      rfl
    have hmore : 1 < (a :: vs).length := by
      rw [hlength, List.length_cons, List.length_cons]
      omega
    rw [value, growth_eq_real, Metric.compoundGrowth_eq_ok, endsNegative_cons, hcount,
      Cell.order_zero_eq_gt ha, Cell.magnitude_of_number? ha, Cell.magnitude_of_number? hlast]
    constructor
    · rintro ⟨-, hfirst, hnegative, hpower⟩
      exact ⟨⟨hfirst, hpower⟩, hnegative⟩
    · rintro ⟨⟨hfirst, hpower⟩, hnegative⟩
      exact ⟨hmore, hfirst, hnegative, hpower⟩
  | [], _ :: _ | _ :: _, [] | _ :: _ :: _, [_] => simp at hlength

theorem value_cagr_cases (vs : List (Cell α)) :
    Aggregation.value .cagr vs = .null ∨ ∃ x, Aggregation.value .cagr vs = .real x := by
  cases vs with
  | nil => exact .inl rfl
  | cons first rest =>
    simp only [value, growth]
    split
    · split
      · exact .inr ⟨_, rfl⟩
      · exact .inl rfl
    · exact .inl rfl

end Aggregation

namespace Row

omit [Quantity α] in
theorem get_project {r : Row α} {columns : List String} {column : String} (h : column ∈ columns) :
    Row.get (Row.project r columns) column = Row.get r column := by
  have hfound : columns.find? (fun c => c = column) = some column := by
    have hsome : (columns.find? fun c => c = column).isSome = true := by simpa using h
    obtain ⟨c, hc⟩ := Option.isSome_iff_exists.mp hsome
    have heq : c = column := by simpa using List.find?_some hc
    rw [hc, heq]
  have hcell : (Row.project r columns).find? (fun e => e.1 = column) =
      some (column, Row.get r column) := by
    rw [Row.project, List.find?_map]
    exact congrArg (Option.map _) hfound
  rw [Row.get, Row.get?, hcell]
  rfl

end Row

namespace Resolution

open Database

variable {names : TableNames} {db : Database α} {ticker column base : String} {unit : WindowUnit}
  {m : MetricName} {length : Nat}

def newestCells (names : TableNames) (db : Database α) (unit : WindowUnit) (column ticker : String)
    (length : Nat) : List (Cell α) :=
  ((newestFirst (periodColumn unit.table)
    (db.own names unit.table ticker fun _ => true)).take length).map (Row.get · column)

/-- All of the company's cells in the column are numbers. -/
def HasNumbers (names : TableNames) (db : Database α) (unit : WindowUnit)
    (column ticker : String) : Prop :=
  ∀ row ∈ db.rows (names.physical unit.table), Row.get row tickerColumn = .text ticker →
    ((Row.get row column).number?).isSome

theorem values_eq_newestCells (h : HasNumbers names db unit column ticker) {k : Candidate α}
    (hk : k.ticker = .text ticker) :
    Trailing.values ⟨unit, column, length⟩ (db.history names) k =
      (newestCells names db unit column ticker length).reverse := by
  have hown : (db.own names unit.table ticker fun r => !(Row.get r column).isNull) =
      db.own names unit.table ticker fun _ => true := by
    refine List.filter_congr fun row hrow => ?_
    cases ht : (Row.get row tickerColumn).equals (.text ticker) with
    | false => rfl
    | true => simp [Cell.isNull_of_number? (h row hrow (Cell.equals_text.mp ht))]
  unfold Trailing.values
  rw [hk]
  exact congrArg (fun rows => ((rows.take length).map (Row.get · column)).reverse)
    (congrArg (newestFirst (periodColumn unit.table)) hown)

theorem numbers_newestOf (hcolumn : column ∈ columnsOf m) :
    numbers (db.newestOf names unit.table (columnsOf m) ticker length fun _ => true) column =
      (newestCells names db unit column ticker length).filterMap Cell.number? := by
  rw [numbers, newestOf, newestCells, List.filterMap_map, List.filterMap_map]
  refine List.filterMap_congr fun row _ => ?_
  exact congrArg Cell.number? (Row.get_project (List.mem_cons_of_mem _ hcolumn))

theorem map_number?_newestCells (h : HasNumbers names db unit column ticker) (length : Nat) :
    (newestCells names db unit column ticker length).map Cell.number? =
      ((newestCells names db unit column ticker length).filterMap Cell.number?).map some := by
  have hcells : ∀ v ∈ newestCells names db unit column ticker length, v.number?.isSome := by
    intro v hv
    obtain ⟨row, hrow, rfl⟩ := List.mem_map.mp hv
    obtain ⟨hmem, ht, -⟩ := mem_own.mp (List.mem_mergeSort.mp (List.mem_of_mem_take hrow))
    exact h row hmem ht
  generalize newestCells names db unit column ticker length = cells at hcells
  induction cells with
  | nil => rfl
  | cons v rest ih =>
    obtain ⟨hv, hrest⟩ := List.forall_mem_cons.mp hcells
    obtain ⟨x, hx⟩ := Option.isSome_iff_exists.mp hv
    simp [hx, ih hrest]

omit [Quantity α] in
theorem columnsOf_growth (h : m.IsGrowthOf base) : columnsOf m = [base] := by
  cases h <;> decide

theorem metricCompute_growth (h : m.IsGrowthOf base) (i : Inputs α) :
    Metric.compute m i =
      ((Metric.compoundGrowth base (i.series (base ++ "_history"))).run (· / ·)).mapError
        fun fault => ⟨m, fault⟩ := by
  cases h <;> rfl

theorem series_growth (h : m.IsGrowthOf base) (rows : List (Row α)) :
    (reshape m rows).series (base ++ "_history") = (numbers rows base).reverse := by
  have hcolumn : Input.column (base ++ "_history") = base := by cases h <;> decide
  rw [reshape_series, points_eq, hcolumn]

omit [Quantity α] in
theorem metric?_word (m : MetricName) : metric? m.word = some m := by
  cases m <;> decide

omit [Quantity α] in
theorem fetch_growth (h : m.IsGrowthOf base) {store : Store α} {rows : List (Row α)}
    (hrows : store (.facts unit (columnsOf m) ticker length) = .ok rows) :
    (fetch store ticker m unit length).result = .ok rows := by
  have hlacks : lacksCashFlow (columnsOf m) rows = false := by
    rw [lacksCashFlow, columnsOf_growth h]
    cases h <;> rfl
  have hask : ((Traced.ask store (.facts unit (columnsOf m) ticker length)).mapError
      ResolveError.store).result = .ok rows := by
    rw [Traced.mapError, Traced.ask, hrows]
    rfl
  rw [fetch, Traced.result_bind, hask]
  simp only [Except.bind, bind, hlacks]
  rfl

theorem compute_of_fetch {store : Store α} {historyLength : Nat} {c : CompiledCondition α}
    {rows : List (Row α)} (hm : metric? c.field = some m)
    (hrows : (fetch store ticker m (spanOf historyLength c.window).1
      (spanOf historyLength c.window).2).result = .ok rows) :
    (compute store historyLength ticker c).result =
      .ok (if rows.isEmpty then .error ⟨m, .noFacts ticker⟩
        else Metric.compute m (reshape m rows)) := by
  rw [compute, hm]
  simp only [Traced.result_bind, hrows]
  rfl

theorem compute_growth (hschema : db.HasSchema names) (hm : m.IsGrowthOf base)
    (ticker : String) (historyLength : Nat) {c : CompiledCondition α} {spec : WindowSpec}
    (hc : c.field = m.word) (hw : c.window = some spec) :
    ∃ v, (compute (db.store names) historyLength ticker c).result = .ok v ∧
      ∀ x, v = .ok x ↔ (Metric.compoundGrowth base
        ((newestCells names db spec.unit base ticker spec.length).filterMap
          Cell.number?).reverse).run (· / ·) = .ok x := by
  obtain ⟨rows, hrows⟩ := hschema.answers (ColumnUse.statement_isCreated
    (facts_isForMetric spec.unit m ticker spec.length).choose_spec)
  have hnumbers : numbers rows base =
      (newestCells names db spec.unit base ticker spec.length).filterMap Cell.number? := by
    obtain ⟨-, rfl⟩ := store_eq_ok.mp hrows
    exact numbers_newestOf (by simp [columnsOf_growth hm])
  have hspan : spanOf historyLength c.window = (spec.unit, spec.length) := by rw [hw]; rfl
  refine ⟨_, compute_of_fetch (hc ▸ metric?_word m) (by rw [hspan]; exact fetch_growth hm hrows),
    fun x => ?_⟩
  rw [← hnumbers]
  cases rows with
  | nil => simp [numbers, Metric.compoundGrowth]
  | cons first rest =>
    rw [List.isEmpty_cons, if_neg Bool.false_ne_true, metricCompute_growth hm, series_growth hm,
      mapError_eq_ok]

/-- Where a company has numbers alone in a column, a window over it and the metric of its growth see
the same growth, but for a negative newest number: there the window has none. -/
theorem windowed_growth_iff [Quantity.SeesSigns α] (hschema : db.HasSchema names)
    (hm : m.IsGrowthOf base) {f : Field} (hf : field? base = some f) (historyLength : Nat)
    {c : CompiledCondition α} {spec : WindowSpec} (hc : c.field = m.word) (hw : c.window = some spec)
    (hnumbers : HasNumbers names db spec.unit f.column ticker) {k : Candidate α}
    (hk : k.ticker = .text ticker) :
    let window : Trailing := ⟨spec.unit, f.column, spec.length⟩
    let windowed := (Operand.aggregate .cagr window).value (db.history names) k
    ∃ v, (compute (db.store names) historyLength ticker c).result = .ok v ∧
      (windowed = .null ∨ ∃ x, windowed = .real x) ∧
      ∀ x, windowed = .real x ↔
        v = .ok x ∧ ¬ Aggregation.EndsNegative (window.values (db.history names) k) := by
  intro window windowed
  have hcolumn : f.column = base := by
    cases hm <;> cases hf <;> rfl
  obtain ⟨v, hv, hgrowth⟩ := compute_growth hschema hm ticker historyLength hc hw
  refine ⟨v, hv, Aggregation.value_cagr_cases _, fun x => ?_⟩
  have hvalues : window.values (db.history names) k =
      (newestCells names db spec.unit base ticker spec.length).reverse := by
    rw [← hcolumn]
    exact values_eq_newestCells hnumbers hk
  have hsame := map_number?_newestCells (hcolumn ▸ hnumbers) spec.length
  have hreversed := congrArg List.reverse hsame
  rw [← List.map_reverse, ← List.map_reverse] at hreversed
  rw [hgrowth x, hvalues, ← Aggregation.value_cagr_eq_real hreversed base x, ← hvalues]
  rfl

def earnings (old new : ℚ) : Table → List (Row ℚ)
  | .annual =>
    [[(tickerColumn, .text "A"), (periodColumn .annual, .int 2023), ("eps", .real new)],
     [(tickerColumn, .text "A"), (periodColumn .annual, .int 2022), ("eps", .real old)]]
  | _ => []

def twoYears : CompiledCondition ℚ :=
  ⟨"eps_cagr", none, [], some .lt, some (.int 0), some ⟨.years, 2, none⟩, none, none, .exclude⟩

def companyA : Candidate ℚ := ⟨[(tickerColumn, .text "A")], [], []⟩

theorem newestCells_of_pairwise
    (h : (db.own names unit.table ticker fun _ => true).Pairwise fun a b =>
      (Cell.order (Row.get b (periodColumn unit.table))
        (Row.get a (periodColumn unit.table))).isLE = true) :
    newestCells names db unit column ticker length =
      ((db.own names unit.table ticker fun _ => true).take length).map (Row.get · column) := by
  rw [newestCells, newestFirst, List.mergeSort_of_pairwise h]

theorem windowed_growth_iff_doubled :
    let names := Settings.default.tables
    let db := filled names (earnings 1 2)
    db.HasSchema names ∧ MetricName.IsGrowthOf .epsGrowth "eps" ∧ twoYears.field = "eps_cagr" ∧
    twoYears.window = some ⟨.years, 2, none⟩ ∧ HasNumbers names db .years "eps" "A" ∧
    companyA.ticker = .text "A" ∧
    (Operand.aggregate .cagr ⟨.years, "eps", 2⟩).value (db.history names) companyA = .real 1 ∧
    (compute (db.store names) 4 "A" twoYears).result = .ok (.ok 1) := by
  intro names db
  have hschema : db.HasSchema names := hasSchema_filled Compilation.areDistinct_default _
  have hnumbers : HasNumbers names db .years "eps" "A" := by
    unfold HasNumbers
    decide +kernel
  have hcells : newestCells names db .years "eps" "A" 2 = [.real 2, .real 1] := by
    rw [newestCells_of_pairwise (by decide +kernel)]
    decide +kernel
  have hwindowed : (Operand.aggregate .cagr ⟨.years, "eps", 2⟩).value (db.history names) companyA =
      .real 1 := by
    rw [Operand.value, values_eq_newestCells hnumbers rfl, hcells]
    decide +kernel
  obtain ⟨v, hv, -, hsame⟩ := windowed_growth_iff (k := companyA) (c := twoYears) hschema .eps
    (f := (field? "eps").get (by decide)) rfl 4 rfl rfl hnumbers rfl
  rw [((hsame 1).mp hwindowed).1] at hv
  exact ⟨hschema, .eps, rfl, rfl, hnumbers, rfl, hwindowed, hv⟩

/-- A loss after a profit: the metric has a growth of -200 percent, the window has none. -/
theorem growth_of_loss :
    let names := Settings.default.tables
    let db := filled names (earnings 1 (-1))
    Trailing.values ⟨.years, "eps", 2⟩ (db.history names) companyA = [.real 1, .real (-1)] ∧
    (Operand.aggregate .cagr ⟨.years, "eps", 2⟩).value (db.history names) companyA = .null ∧
    (compute (db.store names) 4 "A" twoYears).result = .ok (.ok (-2)) := by
  intro names db
  have hschema : db.HasSchema names := hasSchema_filled Compilation.areDistinct_default _
  have hnumbers : HasNumbers names db .years "eps" "A" := by
    unfold HasNumbers
    decide +kernel
  have hcells : newestCells names db .years "eps" "A" 2 = [.real (-1), .real 1] := by
    rw [newestCells_of_pairwise (by decide +kernel)]
    decide +kernel
  have hvalues : Trailing.values ⟨.years, "eps", 2⟩ (db.history names) companyA =
      [.real 1, .real (-1)] := by
    rw [values_eq_newestCells hnumbers rfl, hcells]
    rfl
  obtain ⟨v, hv, hgrowth⟩ := compute_growth (c := twoYears) hschema .eps "A" 4 rfl rfl
  have hloss : v = .ok (-2) := by
    rw [hgrowth, hcells]
    decide +kernel
  refine ⟨hvalues, ?_, hloss ▸ hv⟩
  rw [Operand.value, hvalues]
  decide +kernel

end Resolution

end EquityScreen
