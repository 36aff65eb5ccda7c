import EquityScreen.Proofs.FactSeries
import Mathlib.Data.List.Chain

namespace EquityScreen

open Subquery

variable {α : Type} [ExactQuantity α]

namespace Trend

/-- What a trend says of the values of a window, oldest first. -/
def IsShownBy : Trend → List α → Prop
  | .increasing, xs => xs.Pairwise (· < ·)
  | .decreasing, xs => xs.Pairwise (· > ·)
  | .stable, xs => ∀ x ∈ xs, |x - arithmeticMean xs| ≤ |arithmeticMean xs| / 10

def Continues : Trend → α → α → Prop
  | .increasing, x, y => x < y
  | .decreasing, x, y => y < x
  | .stable, _, _ => True

theorem all_zip_tail {β : Type} {p : β → β → Bool} {l : List β} :
    ((l.zip l.tail).all fun e => p e.1 e.2) = true ↔ l.IsChain (p · · = true) := by
  induction l with
  | nil => simp
  | cons x rest ih =>
    cases rest with
    | nil => simp
    | cons y rest =>
      rw [List.isChain_cons_cons, ← ih]
      simp

theorem breaks_eq_false {t : Trend} {x y : α} :
    t.breaks (.real x) (.real y) = false ↔ t.Continues x y := by
  cases t <;> simp [breaks, Continues, compare_gt_iff_gt, compare_lt_iff_lt]

theorem deviates_eq_false {m x : α} :
    deviates m (.real x) = false ↔ |x - m| ≤ |m| / 10 := by
  have hmagnitude : (Cell.real x).magnitude = x := rfl
  rw [deviates, ← Bool.not_eq_true, ExactQuantity.less_iff, ExactQuantity.tenth_eq,
    ExactQuantity.abs_eq, ExactQuantity.abs_eq, hmagnitude, not_lt, one_div_mul_eq_div]

/-- A trend goes one way if it does so from each value to the next. -/
theorem isShownBy_iff_isChain {t : Trend} (ht : t ≠ .stable) {xs : List α} :
    t.IsShownBy xs ↔ xs.IsChain t.Continues := by
  cases t with
  | increasing => exact List.isChain_iff_pairwise.symm
  | decreasing => exact (List.isChain_iff_pairwise (R := (· > ·))).symm
  | stable => exact absurd rfl ht

theorem holds_eq_true {t : Trend} {n : Nat} {xs : List α} :
    t.holds n (xs.map .real) = true ↔ xs ≠ [] ∧ n ≤ xs.length ∧ t.IsShownBy xs := by
  have hempty : (xs.map Cell.real).isEmpty = false ↔ xs ≠ [] := by simp
  have hchain (ht : t ≠ .stable) :
      (((xs.map Cell.real).zip (xs.map Cell.real).tail).all fun e => !t.breaks e.1 e.2) = true ↔
        t.IsShownBy xs := by
    have hpairs := all_zip_tail (p := fun a b => !t.breaks a b) (l := xs.map .real)
    simp only [List.isChain_map, Bool.not_eq_true', breaks_eq_false] at hpairs
    rw [hpairs, isShownBy_iff_isChain ht]
  unfold holds
  rw [Bool.and_eq_true, Bool.and_eq_true, Bool.not_eq_true', hempty, List.length_map,
    decide_eq_true_iff, and_assoc]
  cases t with
  | increasing => exact and_congr_right' (and_congr_right' (hchain (by decide)))
  | decreasing => exact and_congr_right' (and_congr_right' (hchain (by decide)))
  | stable =>
    simp only [map_magnitude, Aggregation.mean_eq, List.all_map, List.all_eq_true, Function.comp,
      Bool.not_eq_true', deviates_eq_false]
    rfl

end Trend

theorem ExistsQuery.truth_eq_yes {h : History α} {company : Row α} {q : ExistsQuery} :
    q.truth h company = .yes ↔ ∀ d ∈ q.having, isMet (q.source.rows h company) d = .yes := by
  have hfold (ds : List (Measure × Operator × Nat)) (rows : List (Row α)) :
      (ds.map (isMet rows)).foldr Truth.and .yes = .yes ↔ ∀ d ∈ ds, isMet rows d = .yes := by
    induction ds with
    | nil => simp
    | cons d rest ih => simp [Truth.and_eq_yes, ih]
  rw [truth, Truth.ofBool_eq_yes, groups, ← hfold]
  by_cases hmet : (q.having.map (isMet (q.source.rows h company))).foldr Truth.and .yes = .yes <;>
    simp [hmet]

namespace Subquery

theorem isMet_count {rows : List (Row α)} {n : Nat} :
    ExistsQuery.isMet rows (.count, .ge, n) = .yes ↔ n ≤ rows.length := by
  have hcompare : ExistsQuery.isMet rows (.count, .ge, n) =
      .ofBool (Operator.ge.holds (compare (rows.length : Int) n)) := rfl
  rw [hcompare, Truth.ofBool_eq_yes]
  simp [Operator.holds, compare_lt_iff_lt]

theorem total_ints {ns : List Int} (hns : ns ≠ []) :
    Cell.total (ns.map (.int : Int → Cell α)) = .int ns.sum := by
  have hints (ns : List Int) : (ns.map (.int : Int → Cell α)).mapM Cell.int? = some ns := by
    induction ns with
    | nil => rfl
    | cons n rest ih => simp [List.mapM_cons, Cell.int?, ih]
  obtain ⟨n, rest, rfl⟩ := List.exists_cons_of_ne_nil hns
  rw [List.map_cons, Cell.total, ← List.map_cons, hints, List.sum_eq_foldl]
  exact List.cons_ne_nil _ _

theorem sum_marks {β : Type} (p : β → Bool) (l : List β) :
    (l.map fun b => if p b then (1 : Int) else 0).sum = l.countP p := by
  induction l with
  | nil => rfl
  | cons b rest ih => cases hb : p b <;> simp [hb, ih, add_comm]

/-- Of one row or more none is counted. -/
theorem isMet_noneIs {rows : List (Row α)} {test : Test} :
    ExistsQuery.isMet rows (Trend.noneIs test) = .yes ↔
      rows ≠ [] ∧ ∀ r ∈ rows, test.truth (inRow r) ≠ .yes := by
  have hcells : Measure.cells (.choice test (.int 1) (some (.int 0))) rows =
      (rows.map fun r => if test.truth (inRow r) = .yes then (1 : Int) else 0).map .int := by
    unfold Measure.cells
    rw [List.map_map, List.filter_eq_self.mpr]
    · refine List.map_congr_left fun r _ => ?_
      simp only [Item.value, Function.comp]
      split <;> rfl
    · refine List.forall_mem_map.mpr fun r _ => ?_
      simp only [Item.value]
      split <;> rfl
  have hmet : ExistsQuery.isMet rows (Trend.noneIs test) = Predicate.compareCells .eq
      (Cell.total (Measure.cells (.choice test (.int 1) (some (.int 0))) rows)) (.int 0) := rfl
  rw [hmet, hcells]
  by_cases hrows : rows = []
  · subst hrows
    exact ⟨nofun, fun h => absurd rfl h.1⟩
  · rw [total_ints (by simpa using hrows), Predicate.compareCells_eq]
    have hsum := sum_marks (fun r => decide (test.truth (inRow r) = .yes)) rows
    simp only [decide_eq_true_iff] at hsum
    rw [hsum, and_iff_right hrows]
    simp [Cell.equals, Cell.compare?, Cell.isNull, Cell.order]

end Subquery

namespace Ascends

variable {pre post : List (Cell α × α)} {e : Cell α × α}

theorem filter_before (h : Ascends (pre ++ e :: post)) :
    (pre ++ e :: post).filter (fun d => Cell.order d.1 e.1 = .lt) = pre := by
  obtain ⟨σ⟩ := Quantity.IsExact.nonempty_scale (α := α)
  have hlt : ∀ d ∈ pre ++ e :: post,
      Cell.order d.1 e.1 = .lt ↔ Cell.rank σ d.1 < Cell.rank σ e.1 := fun d hd => by
    rw [h.order_eq σ hd (by simp), compare_lt_iff_lt]
  obtain ⟨-, hpost, hpre⟩ := List.pairwise_append.mp (h.pairwise_rank σ)
  rw [List.filter_append, List.filter_eq_self.mpr, List.filter_eq_nil_iff.mpr, List.append_nil]
  · intro d hd
    rw [decide_eq_true_iff, hlt d (List.mem_append_right _ hd), not_lt]
    obtain rfl | hd := List.mem_cons.mp hd
    · exact le_rfl
    · exact ((List.pairwise_cons.mp hpost).1 d hd).le
  · intro d hd
    rw [decide_eq_true_iff, hlt d (List.mem_append_left _ hd)]
    exact hpre d hd e List.mem_cons_self

theorem lag_value (h : Ascends (pre ++ e :: post)) :
    (Frame.lag "v" "p").value ((pre ++ e :: post).reverse.map Trailing.factRow)
      (Trailing.factRow e) = Series.cell (pre.getLast?.map (·.2)) := by
  have hperiod (d : Cell α × α) : Row.get (Trailing.factRow d) "p" = d.1 := rfl
  have hbefore : ((pre ++ e :: post).reverse.map Trailing.factRow).filter (fun r =>
      Cell.order (Row.get r "p") (Row.get (Trailing.factRow e) "p") = .lt) =
      pre.reverse.map Trailing.factRow := by
    rw [List.filter_map, List.filter_reverse]
    exact congrArg (fun l => l.reverse.map Trailing.factRow) h.filter_before
  have hpre : Ascends pre := h.sublist (List.sublist_append_left _ _)
  rw [Frame.value, hbefore, hpre.sortedBy_descending (List.reverse_perm _), Frame.headCell,
    List.head?_map, List.head?_reverse]
  cases pre.getLast? <;> rfl

end Ascends

namespace Trend

theorem breaking_eq_yes {t : Trend} (ht : t ≠ .stable) {x : α} {y? : Option α} :
    t.breaking.truth (inRow [("v", .real x), ("prev_v", Series.cell y?)]) = .yes ↔
      ∃ y ∈ y?, ¬ t.Continues y x := by
  have hv : inRow [("v", .real x), ("prev_v", Series.cell y?)] none "v" = .real x := rfl
  have hprev : inRow [("v", .real x), ("prev_v", Series.cell y?)] none "prev_v" =
      Series.cell y? := rfl
  cases t with
  | increasing | decreasing =>
    simp only [breaking, Test.truth, Term.value, hv, hprev, Truth.and_eq_yes, Truth.ofBool_eq_yes]
    cases y? with
    | none => simp [Series.cell, Cell.isNull]
    | some y =>
      have hy : (Series.cell (some y)).number? = some y := rfl
      rw [Predicate.compareCells_real _ x hy, Truth.ofBool_eq_yes, Operator.holds_compare]
      simp [Series.cell, Cell.isNull, Continues, Operator.Relates]
  | stable => exact absurd rfl ht

theorem breaking_stable_eq_yes {x m : α} :
    stable.breaking.truth (inRow [("v", .real x), ("avg_v", .real m)]) = .yes ↔
      |m| / 10 < |x - m| := by
  have htest : stable.breaking.truth (inRow [("v", .real x), ("avg_v", .real m)]) =
      Predicate.compareCells .gt (.real (Quantity.abs (x - m)))
        (.real ((Quantity.ofInt 0 + Quantity.ofInt 1 * Quantity.tenth) * Quantity.abs m)) := rfl
  rw [htest, Predicate.compareCells_real _ _ rfl, Truth.ofBool_eq_yes, Operator.holds_compare,
    ExactQuantity.ofInt_eq, ExactQuantity.ofInt_eq, ExactQuantity.tenth_eq, ExactQuantity.abs_eq,
    ExactQuantity.abs_eq]
  simp only [Operator.Relates, Int.cast_zero, Int.cast_one, zero_add, one_mul, one_div_mul_eq_div]

theorem mean_value {l : List (Cell α × α)} (hl : l ≠ []) (r : Row α) :
    (Frame.mean "v").value (l.reverse.map Trailing.factRow) r =
      .real (arithmeticMean (l.map (·.2))) := by
  rw [Frame.value, Frame.cells, map_get_factRow, filter_reals, average_reals (by simpa using hl),
    List.map_reverse, arithmeticMean_reverse]

/-- No row is counted beside all others if the values show the trend as a whole. -/
theorem unbroken_iff {t : Trend} {l : List (Cell α × α)} (h : Ascends l) :
    (∀ e ∈ l, t.breaking.truth (inRow [("v", .real e.2),
      (t.frame.2, t.frame.1.value (l.reverse.map Trailing.factRow) (Trailing.factRow e))]) ≠ .yes) ↔
    t.IsShownBy (l.map (·.2)) := by
  by_cases ht : t = .stable
  · subst ht
    by_cases hl : l = []
    · simp [hl, IsShownBy]
    · have hmean (e : Cell α × α) : stable.frame.1.value (l.reverse.map Trailing.factRow)
          (Trailing.factRow e) = .real (arithmeticMean (l.map (·.2))) := mean_value hl _
      simp only [hmean, IsShownBy, List.forall_mem_map, ne_eq]
      exact forall₂_congr fun e _ => (not_congr breaking_stable_eq_yes).trans not_lt
  · have hframe : t.frame = (.lag "v" "p", "prev_v") := by
      cases t with
      | increasing | decreasing => rfl
      | stable => exact absurd rfl ht
    rw [isShownBy_iff_isChain ht, List.isChain_map,
      List.isChain_iff_forall_rel_of_append_cons_cons, hframe]
    constructor
    · intro hunbroken a b pre post hl
      have hl' : l = (pre ++ [a]) ++ b :: post := by simpa using hl
      have hb := hunbroken b (by simp [hl])
      rw [hl'] at h hb
      rw [h.lag_value, ne_eq, breaking_eq_yes ht] at hb
      simpa using hb
    · intro hchain e he
      obtain ⟨pre, post, rfl⟩ := List.append_of_mem he
      rw [h.lag_value, ne_eq, breaking_eq_yes ht]
      rintro ⟨y, hy, hbroken⟩
      obtain ⟨a, ha, rfl⟩ := Option.mem_map.mp hy
      obtain ⟨first, rfl⟩ := List.getLast?_eq_some_iff.mp ha
      exact hbroken (hchain (by rw [List.append_assoc]; rfl))

variable {s : Series α} {h : History α} {c : Candidate α} {w : Trailing}

theorem rows_query (t : Trend) (hs : s.IsReported h c w.unit w.column) :
    (t.query w).source.rows h c.company = (s.dated.rtake w.length).reverse.map fun e =>
      [("v", .real e.2), (t.frame.2, t.frame.1.value
        ((s.dated.rtake w.length).reverse.map Trailing.factRow) (Trailing.factRow e))] := by
  have hsource : (t.query w).source.source = w.facts := rfl
  rw [Extended.rows, hsource, hs.rows_facts, List.map_map]
  rfl

theorem query_eq_yes (t : Trend) (hs : s.IsReported h c w.unit w.column) :
    (t.query w).truth h c.company = .yes ↔ s.newest w.length ≠ [] ∧
      w.length ≤ (s.newest w.length).length ∧ t.IsShownBy (s.newest w.length) := by
  have hhaving : (t.query w).having = [(.count, .ge, w.length), noneIs t.breaking] := rfl
  rw [ExistsQuery.truth_eq_yes, hhaving, List.forall_mem_cons, List.forall_mem_singleton,
    isMet_count, isMet_noneIs, rows_query t hs, ← Series.map_rtake_dated,
    ← unbroken_iff hs.ascends_newest]
  simp only [List.length_map, List.length_reverse, List.forall_mem_map, List.mem_reverse, ne_eq,
    List.map_eq_nil_iff, List.reverse_eq_nil_iff]
  tauto

theorem truth_query (t : Trend) (hs : s.IsReported h c w.unit w.column) :
    (t.query w).truth h c.company = .ofBool (t.holds w.length (w.values h c)) := by
  have hyes : (t.query w).truth h c.company = .yes ↔ t.holds w.length (w.values h c) = true := by
    rw [query_eq_yes t hs, hs.values_eq, holds_eq_true]
  rw [ExistsQuery.truth, Truth.ofBool_eq_yes] at hyes
  rw [ExistsQuery.truth, Bool.eq_iff_iff.mpr hyes]

theorem not_increasing_and_decreasing {xs : List α} (hxs : 2 ≤ xs.length) :
    ¬ (IsShownBy .increasing xs ∧ IsShownBy .decreasing xs) := by
  rintro ⟨hup, hdown⟩
  match xs with
  | x :: y :: rest =>
    exact lt_asymm ((List.pairwise_cons.mp hup).1 y List.mem_cons_self)
      ((List.pairwise_cons.mp hdown).1 y List.mem_cons_self)

end Trend

namespace Compilation

/-- The predicate that a trend condition compiles to is the subquery above, and it says of a company
what the trend says of the newest values that the company reported. -/
theorem compileTrend_truth (maxLength : Nat) (f : Field) (hf : f.isPeriodic = true) (word : String)
    (t : Trend) (ht : Trend.read word = .ok t) (w : Window α) (spec : WindowSpec)
    (hw : w.spec? = some spec) (hmin : 2 ≤ spec.length) (hmax : spec.length ≤ maxLength)
    (policy : MissingPolicy) :
    let window : Trailing := ⟨spec.unit, f.column, spec.length⟩
    (∃ d, compileTrend maxLength f word w policy = .ok d ∧ d.predicate = some (.trend t window) ∧
      d.params = []) ∧
    (∀ names, (Predicate.trend t window).text names = (t.query window).text names) ∧
    ∀ (h : History α) (bound : Nat → Cell α) (c : Candidate α) (s : Series α),
      s.IsReported h c spec.unit f.column →
      let shown := spec.length ≤ s.values.length ∧ t.IsShownBy (s.newest spec.length)
      let truth (p : Predicate) := p.truth h bound c
      truth (.trend t window) = (t.query window).truth h c.company ∧
      (truth (.trend t window) = .yes ↔ shown) ∧ (truth (.trend t window) = .no ↔ ¬ shown) ∧
      (truth (.not (.trend t window)) = .yes ↔ ¬ shown) ∧
      (truth (.trend .increasing window) = .yes → truth (.trend .decreasing window) = .no) := by
  intro window
  refine ⟨⟨_, (compileTrend_eq_ok maxLength f word w policy _).mpr
    ⟨t, spec, ht, hw, hmax, hf, hmin, rfl⟩, rfl, rfl⟩,
    fun names => (t.text_query names window).symm, fun h bound c s hs => ?_⟩
  intro shown truth
  have hpredicate (u : Trend) : truth (.trend u window) =
      .ofBool (u.holds window.length (window.values h c)) := by
    rw [← Predicate.truth]
  have hholds (u : Trend) : u.holds window.length (window.values h c) = true ↔
      spec.length ≤ s.values.length ∧ u.IsShownBy (s.newest spec.length) := by
    have hfull : s.newest spec.length ≠ [] ∧ spec.length ≤ (s.newest spec.length).length ↔
        spec.length ≤ s.values.length := by
      rw [← List.length_pos_iff, s.length_newest]
      omega
    rw [hs.values_eq (w := window), Trend.holds_eq_true, ← and_assoc, ← hfull]
  refine ⟨?query, ?yes, ?no, ?negation, ?opposite⟩
  case query => rw [hpredicate, t.truth_query (w := window) hs]
  case yes => rw [hpredicate, Truth.ofBool_eq_yes, hholds]
  case no => rw [hpredicate, Truth.ofBool_eq_no, ← Bool.not_eq_true, hholds]
  case negation =>
    have hnot : truth (.not (.trend t window)) = (truth (.trend t window)).not := rfl
    rw [hnot, Truth.not_eq_yes, hpredicate, Truth.ofBool_eq_no, ← Bool.not_eq_true, hholds]
  case opposite =>
    rw [hpredicate, hpredicate, Truth.ofBool_eq_yes, Truth.ofBool_eq_no, ← Bool.not_eq_true,
      hholds, hholds]
    rintro ⟨hfull, hup⟩ ⟨-, hdown⟩
    refine Trend.not_increasing_and_decreasing ?_ ⟨hup, hdown⟩
    rw [s.length_newest]
    omega

def risingSeries : Series ℚ :=
  [(.text "2023-Q1", some 1), (.text "2023-Q2", some 2), (.text "2023-Q3", none),
   (.text "2023-Q4", some 5)]

def risingHistory : History ℚ
  | .quarters =>
    [[("ticker", .text "ACME"), ("fiscal_period", .text "2023-Q2"), ("revenue", .real 2)],
     [("ticker", .text "ZETA"), ("fiscal_period", .text "2023-Q2"), ("revenue", .real 9)],
     [("ticker", .text "ACME"), ("fiscal_period", .text "2023-Q4"), ("revenue", .real 5)],
     [("ticker", .text "ACME"), ("fiscal_period", .text "2023-Q1"), ("revenue", .real 1)],
     [("ticker", .text "ACME"), ("fiscal_period", .text "2023-Q3"), ("revenue", .null)]]
  | .years => []

def acme : Candidate ℚ := ⟨[("ticker", .text "ACME")], [], []⟩

theorem isReported_risingSeries :
    risingSeries.IsReported risingHistory acme .quarters "revenue" where
  known := by decide
  ascending := by decide +kernel
  facts := by decide +kernel

theorem compileTrend_truth_risingSeries :
    let revenue : Field := .fundamental "revenue"
    let window : Trailing := ⟨.quarters, "revenue", 3⟩
    (∃ d, compileTrend 8 revenue "increasing" (⟨some "quarters", some (.int 3), none⟩ : Window ℚ)
      .exclude = .ok d ∧ d.predicate = some (.trend .increasing window)) ∧
    (Trend.increasing.query window).truth risingHistory acme.company = .yes ∧
    ∀ bound, (Predicate.trend .decreasing window).truth risingHistory bound acme = .no := by
  intro revenue window
  obtain ⟨⟨d, hd, hp, -⟩, -, hmeaning⟩ := compileTrend_truth 8 revenue rfl "increasing" .increasing
    rfl (⟨some "quarters", some (.int 3), none⟩ : Window ℚ) ⟨.quarters, 3, none⟩ rfl (by decide)
    (by decide) .exclude
  have hshown : 3 ≤ risingSeries.values.length ∧
      Trend.increasing.IsShownBy (risingSeries.newest 3) := by
    have hrising : ([1, 2, 5] : List ℚ).Pairwise (· < ·) := by decide
    exact ⟨by decide, hrising⟩
  refine ⟨⟨d, hd, hp⟩, ?_, fun bound => ?_⟩
  · obtain ⟨hquery, hyes, -⟩ :=
      hmeaning risingHistory (fun _ => .null) acme _ isReported_risingSeries
    exact hquery ▸ hyes.mpr hshown
  · obtain ⟨-, hyes, -, -, hopposite⟩ := hmeaning risingHistory bound acme _ isReported_risingSeries
    exact hopposite (hyes.mpr hshown)

end Compilation

end EquityScreen
