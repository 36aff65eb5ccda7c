import EquityScreen.Proofs.FactSeries
import EquityScreen.Proofs.ConditionMeaning

namespace EquityScreen

open Subquery

variable {α : Type} [ExactQuantity α]

namespace Aggregation

/-- What an aggregation makes of the values of a window, oldest first. -/
def number? (a : Aggregation) : List α → Option α
  | [] => none
  | first :: rest =>
    match a with
    | .avg => some (arithmeticMean (first :: rest))
    | .sum => some (first :: rest).sum
    | .latest => (first :: rest).getLast?
    | .cagr =>
      let last := rest.getLastD first
      if rest ≠ [] ∧ 0 < first ∧ 0 ≤ last then
        (Quantity.power? (last / first) (1 / rest.length)).map (· - 1)
      else none

/-- The values that an aggregation makes nothing of. -/
def IsUndefined (a : Aggregation) (xs : List α) : Prop :=
  xs = [] ∨ a = .cagr ∧ (xs.length < 2 ∨ (∃ first ∈ xs.head?, first ≤ 0) ∨
    (∃ last ∈ xs.getLast?, last < 0) ∨
    ∃ first ∈ xs.head?, ∃ last ∈ xs.getLast?,
      Quantity.power? (last / first) (1 / ((xs.length : α) - 1)) = none)

theorem number?_eq_none {a : Aggregation} {xs : List α} :
    a.number? xs = none ↔ a.IsUndefined xs := by
  cases xs with
  | nil => exact iff_of_true rfl (.inl rfl)
  | cons first rest =>
    have hlast : (first :: rest).getLast? = some (rest.getLastD first) := by
      rw [List.getLast?_cons, List.getLastD_eq_getLast?]
    cases a with
    | avg | sum => simp [number?, IsUndefined]
    | latest => simp [number?, IsUndefined]
    | cagr =>
      have hlength : ((first :: rest).length : α) - 1 = rest.length := by simp
      have hshort : (first :: rest).length < 2 ↔ rest = [] := by
        rw [List.length_cons, ← List.length_eq_zero_iff]
        omega
      simp only [IsUndefined, hlast, hlength, hshort, number?, List.head?_cons, Option.mem_some_iff,
        exists_eq_left', reduceCtorEq, false_or, true_and]
      split
      · next h =>
        rw [Option.map_eq_none_iff, or_iff_right h.1, or_iff_right h.2.1.not_ge,
          or_iff_right h.2.2.not_gt]
      · next h =>
        rw [not_and_or, not_and_or, not_not, not_lt, not_le] at h
        exact iff_of_true rfl (h.imp_right (Or.imp_right .inl))

theorem growth_reals (first last : α) (n : Nat) :
    growth (.real first) (.real last) (n + 1) =
      Series.cell (if n ≠ 0 ∧ 0 < first ∧ 0 ≤ last then
        (Quantity.power? (last / first) (1 / n)).map (· - 1) else none) := by
  have hguard : (1 < n + 1 && (Cell.order (.real first) (.int 0) == .gt) &&
      (Cell.order (.real last) (.int 0) != .lt)) = true ↔ n ≠ 0 ∧ 0 < first ∧ 0 ≤ last := by
    simp [compare_gt_iff_gt, compare_lt_iff_lt, Nat.pos_iff_ne_zero, and_assoc]
  have hmagnitude (x : α) : (Cell.real x).magnitude = x := rfl
  have hone : Quantity.one / Quantity.ofInt ((n + 1 - 1 : Nat) : Int) = (1 / n : α) := by
    rw [ExactQuantity.one_eq, ExactQuantity.ofInt_eq, Nat.add_sub_cancel, Int.cast_natCast]
  unfold growth
  dsimp only
  rw [hmagnitude, hmagnitude, hone]
  by_cases h : n ≠ 0 ∧ 0 < first ∧ 0 ≤ last
  · rw [if_pos (hguard.mpr h), if_pos h]
    cases Quantity.power? (last / first) (1 / n) <;> simp [Series.cell]
  · rw [if_neg (mt hguard.mp h), if_neg h]
    rfl

omit [ExactQuantity α] in
theorem getLastD_reals (first : α) (rest : List α) :
    (rest.map Cell.real).getLastD (.real first) = .real (rest.getLastD first) := by
  rw [List.getLastD_eq_getLast?, List.getLastD_eq_getLast?, List.getLast?_map, Option.getD_map]

theorem value_reals (a : Aggregation) (xs : List α) :
    a.value (xs.map .real) = Series.cell (a.number? xs) := by
  cases xs with
  | nil => rfl
  | cons first rest =>
    have hmagnitudes := map_magnitude (first :: rest)
    rw [List.map_cons] at hmagnitudes
    unfold value number?
    rw [List.map_cons]
    dsimp only
    rw [getLastD_reals, hmagnitudes]
    cases a with
    | avg => simp [Series.cell, mean_eq]
    | sum => simp [Series.cell, ExactQuantity.sum_eq]
    | latest => simp [Series.cell, List.getLast?_cons, List.getLastD_eq_getLast?]
    | cagr =>
      have hrest : rest.length ≠ 0 ↔ rest ≠ [] := by simp
      dsimp only
      rw [List.length_cons, List.length_map, growth_reals]
      simp only [hrest]

end Aggregation

namespace Subquery

theorem total_reals {xs : List α} (hxs : xs ≠ []) :
    Cell.total (xs.map .real) = .real xs.sum := by
  obtain ⟨x, rest, rfl⟩ := List.exists_cons_of_ne_nil hxs
  have hints : ((x :: rest).map (Cell.real : α → Cell α)).mapM Cell.int? = none := by
    simp [List.mapM_cons, Cell.int?]
  rw [List.map_cons, Cell.total, ← List.map_cons, hints, map_magnitude, ExactQuantity.sum_eq]
  exact List.cons_ne_nil _ _

theorem measured_factRow (l : List (Cell α × α)) :
    Measure.cells (.term (.column "v")) (l.map Trailing.factRow) = (l.map (·.2)).map .real := by
  have hcells := map_get_factRow l
  rw [← filter_reals, ← hcells]
  rfl

theorem power_reals (x y : α) : (Database.power (.real x) (.real y)).toOption.getD .null =
    Series.cell (Quantity.power? x y) := by
  cases hp : Quantity.power? x y <;>
    simp [Database.power, Database.argument, hp, Series.cell, bind, Except.bind, pure, Except.pure,
      Except.toOption]

end Subquery

namespace Aggregation

def growthScope (first last : α) (n : Nat) : Scope α :=
  inRow [("first_v", .real first), ("last_v", .real last), ("n", .int n)]

section

variable {first last : α} {n : Nat}

theorem growthTest_eq_yes :
    growthTest.truth (growthScope first last (n + 1)) = .yes ↔ n ≠ 0 ∧ 0 < first ∧ 0 ≤ last := by
  have hcount : Predicate.compareCells .gt (.int (n + 1 : Nat)) (.int 1 : Cell α) =
      .ofBool (Operator.gt.holds (compare ((n + 1 : Nat) : Int) 1)) := rfl
  have hzero (op : Operator) (x : α) : Predicate.compareCells op (.real x) (.int 0) = .yes ↔
      op.Relates x 0 := by
    rw [Predicate.compareCells_real op x rfl, Truth.ofBool_eq_yes, Operator.holds_compare,
      ExactQuantity.ofInt_eq, Int.cast_zero]
  have htruth : growthTest.truth (growthScope first last (n + 1)) =
      ((Predicate.compareCells .gt (.int (n + 1 : Nat)) (.int 1)).and
        (Predicate.compareCells .gt (.real first) (.int 0))).and
        (Predicate.compareCells .ge (.real last) (.int 0)) := rfl
  rw [htruth, Truth.and_eq_yes, Truth.and_eq_yes, hzero, hzero, hcount, Truth.ofBool_eq_yes,
    and_assoc]
  simp [Operator.holds, Operator.Relates, compare_gt_iff_gt, Nat.pos_iff_ne_zero]

theorem decimal_one : (.decimal 1 0 : Term).value (growthScope first last n) = .real 1 := by
  rw [Term.value, ExactQuantity.ofInt_eq, ExactQuantity.ofInt_eq]
  simp

theorem growthRatio_value (hfirst : 0 < first) :
    growthRatio.value (growthScope first last n) = .real (last / first) := by
  have hequals : (Cell.real first).equals (.int 0) = false := by
    simp [Cell.equals, Cell.compare?, Cell.isNull, hfirst.ne']
  have hsame : ¬ Quantity.same first Quantity.zero = true := by
    rw [ExactQuantity.same_iff, ExactQuantity.zero_eq]
    exact hfirst.ne'
  have hvalue : growthRatio.value (growthScope first last n) = Arithmetic.over.apply
      (Arithmetic.times.apply (.real last) ((.decimal 1 0 : Term).value (growthScope first last n)))
      (if (Cell.real first).equals (.int 0) then .null else .real first) := rfl
  have hover (x y : α) : Arithmetic.over.apply (.real x) (.real y) =
      if Quantity.same y Quantity.zero then .null else .real (x / y) := rfl
  have htimes (x y : α) : Arithmetic.times.apply (.real x) (.real y) = .real (x * y) := rfl
  rw [hvalue, hequals, if_neg Bool.false_ne_true, decimal_one, htimes, hover, if_neg hsame, mul_one]

theorem growthShare_value (hn : n ≠ 0) :
    growthShare.value (growthScope first last (n + 1)) = .real (1 / n) := by
  have hsame :
      ¬ Quantity.same (Quantity.ofInt ((n + 1 : Nat) - 1 : Int) : α) Quantity.zero = true := by
    rw [ExactQuantity.same_iff, ExactQuantity.zero_eq, ExactQuantity.ofInt_eq]
    simpa using hn
  have hvalue : growthShare.value (growthScope first last (n + 1)) = Arithmetic.over.apply
      ((.decimal 1 0 : Term).value (growthScope first last (n + 1)))
      (.int ((n + 1 : Nat) - 1 : Int)) := rfl
  have hover (x : α) (m : Int) : Arithmetic.over.apply (.real x) (.int m) =
      if Quantity.same (Quantity.ofInt m : α) Quantity.zero then .null
      else .real (x / Quantity.ofInt m) := rfl
  rw [hvalue, decimal_one, hover, if_neg hsame, ExactQuantity.ofInt_eq]
  simp

end

theorem growthItem_value (first last : α) (n : Nat) :
    growthItem.value (growthScope first last (n + 1)) =
      growth (.real first) (.real last) (n + 1) := by
  have hvalue : growthItem.value (growthScope first last (n + 1)) =
      if growthTest.truth (growthScope first last (n + 1)) = .yes then
        Arithmetic.minus.apply ((Database.power
          (growthRatio.value (growthScope first last (n + 1)))
          (growthShare.value (growthScope first last (n + 1)))).toOption.getD .null) (.int 1)
      else .null := rfl
  rw [growth_reals, hvalue]
  by_cases h : n ≠ 0 ∧ 0 < first ∧ 0 ≤ last
  · rw [if_pos (growthTest_eq_yes.mpr h), if_pos h, growthRatio_value h.2.1, growthShare_value h.1,
      power_reals]
    cases Quantity.power? (last / first) (1 / (n : α)) with
    | none => rfl
    | some p =>
      have hminus : Arithmetic.minus.apply (.real p) (.int 1) =
          .real (p - Quantity.ofInt 1 : α) := rfl
      rw [ExactQuantity.ofInt_eq, Int.cast_one] at hminus
      exact hminus
  · rw [if_neg (mt growthTest_eq_yes.mp h), if_neg h]
    rfl

variable {s : Series α} {h : History α} {c : Candidate α} {w : Trailing}

omit [ExactQuantity α] in
theorem headCell_factRow [Quantity α] (l : List (Cell α × α)) :
    Frame.headCell "v" (l.map Trailing.factRow) = Series.cell (l.map (·.2)).head? := by
  cases l <;> rfl

theorem latest_query (hs : s.IsReported h c w.unit w.column) :
    (query .latest w).value h c.company = Series.cell (s.newest w.length).getLast? := by
  have hquery : (query .latest w).value h c.company =
      Frame.headCell "v" (sortedBy "p" .descending (w.facts.rows h c.company)) := rfl
  rw [hquery, hs.rows_facts, hs.ascends_newest.sortedBy_descending (List.reverse_perm _),
    headCell_factRow, List.map_reverse, List.head?_reverse, Series.map_rtake_dated]

theorem headItem_map_const {β : Type} (x : Item) (row : Row α) {l : List β} (hl : l ≠ []) :
    ValueQuery.headItem x (l.map fun _ => row) = x.value (inRow row) := by
  obtain ⟨b, rest, rfl⟩ := List.exists_cons_of_ne_nil hl
  rfl

theorem growth_query (hs : s.IsReported h c w.unit w.column) :
    (query .cagr w).value h c.company = value .cagr ((s.newest w.length).map .real) := by
  have hascends := hs.ascends_newest
  have hquery : (query .cagr w).value h c.company = ValueQuery.headItem growthItem
      ((w.facts.rows h c.company).map fun _ =>
        [("first_v", Frame.headCell "v" (sortedBy "p" .ascending (w.facts.rows h c.company))),
         ("last_v", Frame.headCell "v" (sortedBy "p" .descending (w.facts.rows h c.company))),
         ("n", .int (w.facts.rows h c.company).length)]) := rfl
  rw [hquery, hs.rows_facts, hascends.sortedBy_ascending (List.reverse_perm _),
    hascends.sortedBy_descending (List.reverse_perm _), headCell_factRow, headCell_factRow,
    List.map_reverse, List.head?_reverse, ← Series.map_rtake_dated]
  cases s.dated.rtake w.length with
  | nil => rfl
  | cons e rest =>
    have hrow : inRow [("first_v", Series.cell ((e :: rest).map (·.2)).head?),
        ("last_v", Series.cell ((e :: rest).map (·.2)).getLast?),
        ("n", .int ((e :: rest).reverse.map Trailing.factRow).length)] =
        growthScope e.2 ((rest.map (·.2)).getLastD e.2) (rest.length + 1) := by
      rw [List.map_cons, List.getLast?_cons, ← List.getLastD_eq_getLast?]
      simp [growthScope, Series.cell]
    rw [headItem_map_const _ _ (by simp), hrow, growthItem_value, List.map_cons, List.map_cons,
      value, getLastD_reals]
    simp

/-- The subquery of an aggregation has the value of the aggregation for the window. -/
theorem value_query (a : Aggregation) (hs : s.IsReported h c w.unit w.column) :
    (a.query w).value h c.company = a.value (w.values h c) := by
  have hcells : Measure.cells (.term (.column "v")) (w.facts.rows h c.company) =
      (s.newest w.length).reverse.map .real := by
    rw [hs.rows_facts, measured_factRow, List.map_reverse, Series.map_rtake_dated]
  rw [hs.values_eq]
  cases a with
  | avg =>
    have hquery : (query .avg w).value h c.company = Cell.average
      (Measure.cells (.term (.column "v")) (w.facts.rows h c.company)) := rfl
    rw [hquery, hcells, value_reals]
    cases s.newest w.length with
    | nil => rfl
    | cons x rest =>
      rw [average_reals (by simp), arithmeticMean_reverse]
      rfl
  | sum =>
    have hquery : (query .sum w).value h c.company = Cell.total
      (Measure.cells (.term (.column "v")) (w.facts.rows h c.company)) := rfl
    rw [hquery, hcells, value_reals]
    cases s.newest w.length with
    | nil => rfl
    | cons x rest =>
      rw [total_reals (by simp), List.sum_reverse]
      rfl
  | latest =>
    rw [latest_query hs, value_reals]
    cases s.newest w.length <;> rfl
  | cagr => exact growth_query hs

theorem truth_compare (a : Aggregation) (hs : s.IsReported h c w.unit w.column)
    (bound : Nat → Cell α) (op : Operator) (n : Nat) :
    (Predicate.compare (.aggregate a w) op n).truth h bound c =
      Predicate.compareCells op (Series.cell (a.number? (s.newest w.length))) (bound n) := by
  rw [← a.value_reals, ← hs.values_eq]
  rfl

theorem number?_latest (s : Series α) {n : Nat} (hn : 0 < n) :
    number? .latest (s.newest n) = s.values.getLast? := by
  have hlatest (xs : List α) : number? .latest xs = xs.getLast? := by cases xs <;> rfl
  rw [hlatest, Series.newest, List.rtake_eq_reverse_take_reverse, List.getLast?_reverse,
    List.head?_take, if_neg hn.ne', List.head?_reverse]

end Aggregation

section

variable {op : Operator} {y? : Option α} {v : Cell α} {threshold : α}

theorem Series.compareCells_some (hv : v.number? = some threshold) (y : α) :
    Predicate.compareCells op (cell (some y)) v = .ofBool (op.holds (compare y threshold)) :=
  Predicate.compareCells_real op y hv

theorem Series.compareCells_eq_yes (hv : v.number? = some threshold) :
    Predicate.compareCells op (cell y?) v = .yes ↔ ∃ y ∈ y?, op.Relates y threshold := by
  cases y? with
  | none => exact ⟨nofun, nofun⟩
  | some y => simp [compareCells_some hv, Operator.holds_compare]

theorem Series.compareCells_eq_no (hv : v.number? = some threshold) :
    Predicate.compareCells op (cell y?) v = .no ↔ ∃ y ∈ y?, ¬ op.Relates y threshold := by
  cases y? with
  | none => exact ⟨nofun, nofun⟩
  | some y => simp [compareCells_some hv, ← Operator.holds_compare]

theorem Series.compareCells_eq_unknown (hv : v.number? = some threshold) :
    Predicate.compareCells op (cell y?) v = .unknown ↔ y? = none := by
  cases y? with
  | none => exact iff_of_true rfl rfl
  | some y =>
    cases hholds : op.holds (compare y threshold) <;>
      simp [compareCells_some hv, hholds, Truth.ofBool]

end

namespace Compilation

/-- The predicate that a condition on a window compiles to compares the subquery above with the
threshold, and it says of a company what the aggregation makes of the newest values that the company
reported. Where it makes nothing of them, neither the condition nor its negation holds. -/
theorem compileWindow_truth (maxLength : Nat) (f : Field) (hf : f.isPeriodic = true)
    (d : Condition α) (op : Operator) (v : Literal α) (hd : d.comparison? = some (op, v))
    (threshold : α) (hv : v.number? = some threshold) (w : Window α) (spec : WindowSpec)
    (hw : w.spec? = some spec) (hmax : spec.length ≤ maxLength) (n : Nat)
    (policy : MissingPolicy) :
    let a := spec.aggregation.getD .avg
    let window : Trailing := ⟨spec.unit, f.column, spec.length⟩
    let predicate : Predicate := .compare (.aggregate a window) op n
    (∃ e, compileWindow maxLength f d w n policy = .ok e ∧ e.predicate = some predicate ∧
      e.params = [v]) ∧
    (∀ names, predicate.text names =
      Predicate.comparison ((a.query window).text names) op.sql (Predicate.placeholder n)) ∧
    ∀ (h : History α) (bound : Nat → Cell α) (c : Candidate α) (s : Series α),
      Binds bound n [v] → s.IsReported h c spec.unit f.column →
      let xs := s.newest spec.length
      let truth (p : Predicate) := p.truth h bound c
      (xs <:+ s.values ∧ xs.length = min spec.length s.values.length) ∧
      (a.query window).value h c.company = a.value (window.values h c) ∧
      (truth predicate = .yes ↔ ∃ y ∈ a.number? xs, op.Relates y threshold) ∧
      (truth predicate = .no ↔ ∃ y ∈ a.number? xs, ¬ op.Relates y threshold) ∧
      (truth predicate = .unknown ↔ a.IsUndefined xs) ∧
      (a.IsUndefined xs → truth (.not predicate) = .unknown) ∧
      (a = .latest → ∀ m, 0 < m →
        truth (.compare (.aggregate .latest { window with length := m }) op n) =
          truth predicate) := by
  intro a window predicate
  have hnumeric : v.isNumeric = true := by
    cases v with
    | int | real => rfl
    | text | bool | null => cases hv
  have hcell : (Parameter.literal v).cell.number? = some threshold := by
    cases v with
    | int | real => exact hv
    | text | bool | null => cases hv
  refine ⟨⟨_, (compileWindow_eq_ok maxLength f d w n policy _).mpr
    ⟨spec, op, v, hw, hmax, hf, hd, hnumeric, rfl⟩, rfl, rfl⟩, fun names => ?_,
    fun h bound c s hb hs => ?_⟩
  · rw [a.text_query]
    rfl
  intro xs truth
  have hbound : bound n = (Parameter.literal v).cell := hb 0 v rfl
  have htruth : truth predicate = Predicate.compareCells op (Series.cell (a.number? xs))
      (Parameter.literal v).cell := hbound ▸ a.truth_compare (w := window) hs bound op n
  have hunknown : truth predicate = .unknown ↔ a.IsUndefined xs := by
    rw [htruth, Series.compareCells_eq_unknown hcell, Aggregation.number?_eq_none]
  refine ⟨⟨List.drop_suffix _ _, s.length_newest _⟩, a.value_query (w := window) hs, ?yes, ?no,
    hunknown, ?negation, ?latest⟩
  case yes => rw [htruth, Series.compareCells_eq_yes hcell]
  case no => rw [htruth, Series.compareCells_eq_no hcell]
  case negation =>
    intro hundefined
    have hnot : truth (.not predicate) = (truth predicate).not := rfl
    rw [hnot, hunknown.mpr hundefined, Truth.not]
  case latest =>
    intro ha m hm
    have hlength : 0 < spec.length := spec?_length_pos hw
    have hlatest :=
      Aggregation.truth_compare (w := { window with length := m }) .latest hs bound op n
    rw [htruth, ha, Aggregation.number?_latest s hlength, ← Aggregation.number?_latest s hm,
      ← hbound]
    exact hlatest

def annualSeries : Series ℚ :=
  [(.int 2021, some 9), (.int 2022, some 2), (.int 2023, none), (.int 2024, some 3)]

def annualHistory : History ℚ
  | .quarters => []
  | .years =>
    [[("ticker", .text "ACME"), ("fiscal_year", .int 2024), ("revenue", .real 3)],
     [("ticker", .text "ACME"), ("fiscal_year", .int 2021), ("revenue", .real 9)],
     [("ticker", .text "ACME"), ("fiscal_year", .int 2023), ("revenue", .null)],
     [("ticker", .text "ACME"), ("fiscal_year", .int 2022), ("revenue", .real 2)]]

def growthWindow : Window ℚ := ⟨some "years", some (.int 2), some "cagr"⟩

def growthCondition : Condition ℚ :=
  ⟨some "revenue", some ">", some (.real (1 / 4)), none, some growthWindow, none, none⟩

theorem isReported_annualSeries : annualSeries.IsReported annualHistory
    ⟨[("ticker", .text "ACME")], [], []⟩ .years "revenue" where
  known := by decide
  ascending := by decide
  facts := by decide +kernel

theorem compileWindow_truth_annualSeries :
    let predicate : Predicate := .compare (.aggregate .cagr ⟨.years, "revenue", 2⟩) .gt 1
    (∃ e, compileWindow 8 (.fundamental "revenue") growthCondition growthWindow 1 .exclude = .ok e ∧
      e.predicate = some predicate) ∧
    predicate.truth annualHistory (fun _ => .real (1 / 4)) ⟨[("ticker", .text "ACME")], [], []⟩ =
      .yes := by
  have hb : Binds (α := ℚ) (fun _ => .real (1 / 4)) 1 [.real (1 / 4)] := by
    intro i l hl
    match i with
    | 0 =>
      cases hl
      rfl
    | i + 1 => cases hl
  obtain ⟨⟨e, he, hp, -⟩, -, hmeaning⟩ := compileWindow_truth 8 (.fundamental "revenue") rfl
    growthCondition .gt (.real (1 / 4)) rfl (1 / 4) rfl growthWindow ⟨.years, 2, some .cagr⟩ rfl
    (by decide) 1 .exclude
  obtain ⟨-, -, hyes, -⟩ := hmeaning annualHistory _ _ annualSeries hb isReported_annualSeries
  have hgrowth : Aggregation.number? .cagr (annualSeries.newest 2) = some (1 / 2 : ℚ) := by
    decide +kernel
  have habove : (1 / 4 : ℚ) < 1 / 2 := by decide +kernel
  exact ⟨⟨e, he, hp⟩, hyes.mpr ⟨1 / 2, hgrowth, habove⟩⟩

end Compilation

end EquityScreen
