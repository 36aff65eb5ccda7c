import EquityScreen.Proofs.ExactNumbers
import EquityScreen.Proofs.CandidateTruth
import EquityScreen.Proofs.OwnRows
import EquityScreen.Proofs.Subqueries
import Mathlib.Data.List.DropRight

namespace EquityScreen

open Subquery

/-- Periods from the oldest on, each with the value that was reported for it, if there is one. -/
abbrev Series (α : Type) := List (Cell α × Option α)

namespace Series

variable {α : Type}

def dated (s : Series α) : List (Cell α × α) := s.filterMap fun (p, x?) => x?.map fun x => (p, x)

def values (s : Series α) : List α := s.filterMap (·.2)

/-- The newest `n` values, or all of them if they are fewer, oldest first. -/
def newest (s : Series α) (n : Nat) : List α := s.values.rtake n

def cell (x? : Option α) : Cell α := (x?.map .real).getD .null

theorem map_dated (s : Series α) : s.dated.map (·.2) = s.values := by
  rw [dated, values, List.map_filterMap]
  exact List.filterMap_congr fun ⟨_, x?⟩ _ => by cases x? <;> rfl

theorem rtake_map {β γ : Type} (f : β → γ) (l : List β) (n : Nat) :
    (l.map f).rtake n = (l.rtake n).map f := by
  simp only [List.rtake_eq_reverse_take_reverse, ← List.map_reverse, ← List.map_take]

theorem map_rtake_dated (s : Series α) (n : Nat) :
    (s.dated.rtake n).map (·.2) = s.newest n := by
  rw [← rtake_map, map_dated, newest]

theorem length_newest (s : Series α) (n : Nat) : (s.newest n).length = min n s.values.length := by
  simp [newest, List.rtake_eq_reverse_take_reverse]

variable [Quantity α]

/-- Every period is known, and each is after the one before. -/
structure IsChronological (s : Series α) : Prop where
  known : ∀ e ∈ s, e.1.isNull = false
  ascending : s.Pairwise fun a b => Cell.order a.1 b.1 = .lt

/-- The rows of a candidate in a table have the periods and values of a series, listed in any
order. -/
structure IsReported (h : History α) (c : Candidate α) (unit : WindowUnit) (column : String)
    (s : Series α) : Prop extends s.IsChronological where
  facts : (((h unit).filter fun r => (Row.get r tickerColumn).equals c.ticker).map fun r =>
      (Row.get r (periodColumn unit.table), Row.get r column)).Perm
    (s.map fun (p, x?) => (p, cell x?))

end Series

variable {α : Type} [ExactQuantity α]

/-- Known periods, each after the one before, with something beside them. -/
structure Ascends {β : Type} (l : List (Cell α × β)) : Prop where
  known : ∀ e ∈ l, e.1.isNull = false
  ascending : l.Pairwise fun a b => Cell.order a.1 b.1 = .lt

namespace Ascends

variable {β : Type} {l l' : List (Cell α × β)}

theorem sublist (h : Ascends l) (hl : l'.Sublist l) : Ascends l' :=
  ⟨fun e he => h.known e (hl.subset he), h.ascending.sublist hl⟩

theorem order_eq (h : Ascends l) (σ : Quantity.Scale α) {a b : Cell α × β} (ha : a ∈ l)
    (hb : b ∈ l) : Cell.order a.1 b.1 = compare (Cell.rank σ a.1) (Cell.rank σ b.1) :=
  Cell.IsDefinite.order_eq σ (Cell.isDefinite_iff.mpr (h.known a ha))
    (Cell.isDefinite_iff.mpr (h.known b hb))

theorem pairwise_rank (h : Ascends l) (σ : Quantity.Scale α) :
    l.Pairwise fun a b => Cell.rank σ a.1 < Cell.rank σ b.1 :=
  h.ascending.imp_of_mem fun ha hb hab => by
    rwa [h.order_eq σ ha hb, compare_lt_iff_lt] at hab

theorem mergeSort_eq (h : Ascends l) (hperm : l'.Perm l) :
    (l'.mergeSort fun a b => (Cell.order a.1 b.1).isLE) = l := by
  obtain ⟨σ⟩ := Quantity.IsExact.nonempty_scale (α := α)
  let key (e : Cell α × β) : Cell.Rank σ := Cell.rank σ e.1
  have hcompares : KeySort.Compares key (fun a b => (Cell.order a.1 b.1).isLE) l := by
    intro a ha b hb
    beta_reduce
    rw [h.order_eq σ ha hb, isLE_compare]
  exact KeySort.mergeSort_eq_of_ascending hperm hcompares (h.pairwise_rank σ)

theorem mergeSort_eq_reverse (h : Ascends l) (hperm : l'.Perm l) :
    (l'.mergeSort fun a b => (Cell.order b.1 a.1).isLE) = l.reverse := by
  obtain ⟨σ⟩ := Quantity.IsExact.nonempty_scale (α := α)
  let key (e : Cell α × β) : (Cell.Rank σ)ᵒᵈ := OrderDual.toDual (Cell.rank σ e.1)
  have hcompares : KeySort.Compares key (fun a b => (Cell.order b.1 a.1).isLE) l.reverse := by
    intro a ha b hb
    beta_reduce
    rw [h.order_eq σ (List.mem_reverse.mp hb) (List.mem_reverse.mp ha), isLE_compare]
    rfl
  exact KeySort.mergeSort_eq_of_ascending (hperm.trans (List.reverse_perm l).symm) hcompares
    (List.pairwise_reverse.mpr ((h.pairwise_rank σ).imp OrderDual.toDual_lt_toDual.mpr))

theorem newestFirst_map (h : Ascends l) {rows : List (Row α)} {column : String}
    {f : Row α → Cell α × β} (hf : ∀ r, (f r).1 = Row.get r column)
    (hperm : (rows.map f).Perm l) : (newestFirst column rows).map f = l.reverse := by
  rw [← h.mergeSort_eq_reverse hperm]
  exact List.map_mergeSort fun a _ b _ => by rw [hf, hf]

end Ascends

namespace Series

variable {s : Series α}

theorem IsChronological.ascends_dated (hs : s.IsChronological) : Ascends s.dated := by
  have hmem : ∀ d ∈ s.dated, ∃ e ∈ s, e.1 = d.1 := by
    intro d hd
    obtain ⟨e, he, hed⟩ := List.mem_filterMap.mp hd
    obtain ⟨x, -, rfl⟩ := Option.map_eq_some_iff.mp hed
    exact ⟨e, he, rfl⟩
  refine ⟨fun d hd => ?_, List.pairwise_filterMap.mpr (hs.ascending.imp fun hab d hd e he => ?_)⟩
  · obtain ⟨e, he, hed⟩ := hmem d hd
    exact hed ▸ hs.known e he
  · obtain ⟨x, -, rfl⟩ := Option.map_eq_some_iff.mp hd
    obtain ⟨y, -, rfl⟩ := Option.map_eq_some_iff.mp he
    exact hab

end Series

namespace Trailing

def valued (w : Trailing) (h : History α) (c : Candidate α) : List (Row α) :=
  (h w.unit).filter fun r =>
    (Row.get r tickerColumn).equals c.ticker && !(Row.get r w.column).isNull

def factRow (e : Cell α × α) : Row α := [("v", .real e.2), ("p", e.1)]

variable {w : Trailing} {h : History α} {c : Candidate α}

theorem truth_facts (r : Row α) : w.facts.test.truth (inFact c.company r) = .yes ↔
    ((Row.get r tickerColumn).equals c.ticker && !(Row.get r w.column).isNull) = true := by
  rw [Bool.and_eq_true]
  exact truth_ownFacts

theorem rows_facts : w.facts.rows h c.company =
    ((newestFirst w.period (w.valued h c)).take w.length).map fun r =>
      [("v", Row.get r w.column), ("p", Row.get r w.period)] := by
  have hvalued : (h w.unit).filter (fun r => w.facts.test.truth (inFact c.company r) = .yes) =
      w.valued h c := List.filter_congr fun r _ => by
    rw [Bool.eq_iff_iff, decide_eq_true_iff, truth_facts]
  have hsource : w.facts.unit = w.unit := rfl
  unfold Facts.rows ranked
  rw [hsource, hvalued]
  rfl

end Trailing

namespace Series.IsReported

variable {s : Series α} {w : Trailing} {h : History α} {c : Candidate α}

theorem perm_dated (hs : s.IsReported h c w.unit w.column) :
    ((w.valued h c).map fun r => (Row.get r w.period, Row.get r w.column)).Perm
      (s.dated.map fun e => (e.1, .real e.2)) := by
  have hvalued := hs.facts.filter fun e => !e.2.isNull
  have hseries : (s.map fun (p, x?) => (p, cell x?)).filter (fun e => !e.2.isNull) =
      s.dated.map fun e => (e.1, .real e.2) := by
    rw [dated, List.map_filterMap, ← List.filterMap_eq_filter, List.filterMap_map]
    exact List.filterMap_congr fun ⟨_, x?⟩ _ => by cases x? <;> rfl
  rw [hseries, List.filter_map, List.filter_filter] at hvalued
  rw [Trailing.valued, List.filter_congr fun r _ => Bool.and_comm _ _]
  exact hvalued

theorem newestFirst_map (hs : s.IsReported h c w.unit w.column) :
    (newestFirst w.period (w.valued h c)).map
      (fun r => (Row.get r w.period, Row.get r w.column)) =
    s.dated.reverse.map fun e => (e.1, .real e.2) := by
  have hascends : Ascends (s.dated.map fun e => (e.1, (.real e.2 : Cell α))) :=
    let hd := hs.toIsChronological.ascends_dated
    ⟨List.forall_mem_map.mpr hd.known, List.pairwise_map.mpr hd.ascending⟩
  rw [hascends.newestFirst_map (fun _ => rfl) hs.perm_dated, List.map_reverse]

theorem ascends_newest (hs : s.IsReported h c w.unit w.column) :
    Ascends (s.dated.rtake w.length) :=
  hs.toIsChronological.ascends_dated.sublist (List.drop_sublist _ _)

theorem values_eq (hs : s.IsReported h c w.unit w.column) :
    w.values h c = (s.newest w.length).map .real := by
  have hcells := congrArg (fun l => ((l.take w.length).map (·.2)).reverse) hs.newestFirst_map
  simp only [← List.map_take, List.map_map, ← List.map_reverse] at hcells
  rw [← map_rtake_dated, List.map_map, List.rtake_eq_reverse_take_reverse]
  unfold Trailing.values
  rw [← List.map_reverse]
  exact hcells

/-- The facts of a window, as a subquery takes them, hold the newest values of the series. -/
theorem rows_facts (hs : s.IsReported h c w.unit w.column) :
    w.facts.rows h c.company = (s.dated.rtake w.length).reverse.map Trailing.factRow := by
  have hrows := congrArg (fun l => (l.take w.length).map fun e =>
    [("v", e.2), ("p", e.1)]) hs.newestFirst_map
  simp only [← List.map_take, List.map_map] at hrows
  rw [Trailing.rows_facts, List.rtake_eq_reverse_take_reverse, List.reverse_reverse]
  exact hrows

end Series.IsReported

namespace Ascends

variable {l l' : List (Cell α × α)}

theorem sortedBy_descending (h : Ascends l) (hperm : l'.Perm l) :
    sortedBy "p" .descending (l'.map Trailing.factRow) = l.reverse.map Trailing.factRow := by
  rw [← h.mergeSort_eq_reverse hperm]
  exact (List.map_mergeSort (f := Trailing.factRow) fun a _ b _ => rfl).symm

theorem sortedBy_ascending (h : Ascends l) (hperm : l'.Perm l) :
    sortedBy "p" .ascending (l'.map Trailing.factRow) = l.map Trailing.factRow := by
  conv_rhs => rw [← h.mergeSort_eq hperm]
  exact (List.map_mergeSort (f := Trailing.factRow) fun a _ b _ => rfl).symm

end Ascends

namespace Subquery

omit [ExactQuantity α] in
theorem map_get_factRow (l : List (Cell α × α)) :
    (l.map Trailing.factRow).map (Row.get · "v") = (l.map (·.2)).map .real := by
  rw [List.map_map, List.map_map]
  rfl

omit [ExactQuantity α] in
theorem filter_reals (xs : List α) :
    (xs.map Cell.real).filter (fun v => !v.isNull) = xs.map .real :=
  List.filter_eq_self.mpr (List.forall_mem_map.mpr fun _ _ => rfl)

theorem map_magnitude (xs : List α) : (xs.map Cell.real).map Cell.magnitude = xs := by
  rw [List.map_map]
  exact List.map_id' xs

theorem average_reals {xs : List α} (hxs : xs ≠ []) :
    Cell.average (xs.map .real) = .real (arithmeticMean xs) := by
  obtain ⟨x, rest, rfl⟩ := List.exists_cons_of_ne_nil hxs
  rw [List.map_cons, Cell.average, ← List.map_cons, map_magnitude, Aggregation.mean_eq]
  exact List.cons_ne_nil _ _

end Subquery

namespace Database.IsSound

open Series

variable {db : Database α} {names : TableNames} {unit : WindowUnit}

theorem known_period (hdb : db.IsSound) (hp : db.Provides names unit.table) {row : Row α}
    (hrow : row ∈ db.rows (names.physical unit.table)) :
    (Row.get row (periodColumn unit.table)).isNull = false := by
  obtain ⟨r, hr, hfound, hcolumns⟩ := hp
  rw [rows_eq hfound] at hrow
  have hrequired : ∃ c ∈ r.columns, c.name = periodColumn unit.table ∧ c.required = true := by
    rw [hcolumns]
    cases unit with
    | quarters | years => exact ⟨_, List.mem_cons_of_mem _ List.mem_cons_self, rfl, rfl⟩
  obtain ⟨c, hc, hname, hrequired⟩ := hrequired
  exact hname ▸ (hdb r hr).complete row hrow c hc hrequired

/-- Every company of a sound database has a series in every column of numbers. -/
theorem exists_series (hdb : db.IsSound) (hp : db.Provides names unit.table) {c : Candidate α}
    {ticker column : String} (hc : c.ticker = .text ticker)
    (hnumbers : ∀ row ∈ db.rows (names.physical unit.table),
      Row.get row column = .null ∨ ∃ x, Row.get row column = .real x) :
    ∃ s, IsReported (db.history names) c unit column s := by
  obtain ⟨σ⟩ := Quantity.IsExact.nonempty_scale (α := α)
  let period (row : Row α) : Cell α := Row.get row (periodColumn unit.table)
  let own := db.own names unit.table ticker fun _ => true
  let rows := own.mergeSort fun a b => (Cell.order (period a) (period b)).isLE
  have hperm : rows.Perm own := List.mergeSort_perm _ _
  have hmem : ∀ row ∈ rows, row ∈ db.rows (names.physical unit.table) := fun row hrow =>
    (mem_own.mp (hperm.mem_iff.mp hrow)).1
  have hdef : ∀ row ∈ own, (period row).IsDefinite := fun row hrow =>
    Cell.isDefinite_iff.mpr (hdb.known_period hp (mem_own.mp hrow).1)
  have hdiffer : rows.Pairwise fun a b => Cell.rank σ (period a) ≠ Cell.rank σ (period b) := by
    refine (hperm.pairwise_iff fun h => h.symm).mpr ?_
    have hdated : unit.table.isDated = true := by cases unit <;> rfl
    refine (hdb.pairwise_periods hp hdated fun _ => true).imp_of_mem fun ha hb hab hrank => ?_
    rw [(hdef _ hb).equals_of_rank σ (hdef _ ha) hrank.symm] at hab
    cases hab
  let key (row : Row α) : Cell.Rank σ := Cell.rank σ (period row)
  have hcompares :
      KeySort.Compares key (fun a b => (Cell.order (period a) (period b)).isLE) own := by
    intro a ha b hb
    beta_reduce
    rw [(hdef a ha).order_eq σ (hdef b hb), isLE_compare]
  have hsorted : rows.Pairwise fun a b => key a ≤ key b := KeySort.pairwise_mergeSort hcompares
  refine ⟨rows.map fun row => (period row, (Row.get row column).number?), ⟨?known, ?ascending⟩,
    ?facts⟩
  case known =>
    exact List.forall_mem_map.mpr fun row hrow => hdb.known_period hp (hmem row hrow)
  case ascending =>
    refine List.pairwise_map.mpr ((hsorted.and hdiffer).imp_of_mem fun ha hb hab => ?_)
    rw [(hdef _ (hperm.mem_iff.mp ha)).order_eq σ (hdef _ (hperm.mem_iff.mp hb)),
      compare_lt_iff_lt]
    exact lt_of_le_of_ne hab.1 hab.2
  case facts =>
    rw [List.map_map, hc]
    have hcells : rows.map ((fun (p, x?) => (p, cell x?)) ∘
        fun row => (period row, (Row.get row column).number?)) =
        rows.map fun row => (period row, Row.get row column) :=
      List.map_congr_left fun row hrow => by
        obtain hnull | ⟨x, hx⟩ := hnumbers row (hmem row hrow)
        · simp [hnull, cell, Cell.number?]
        · simp [hx, cell, Cell.number?]
    rw [hcells]
    have hown : own = (db.history names unit).filter fun r =>
        (Row.get r tickerColumn).equals (.text ticker) := by
      simp only [own, Database.own, Bool.and_true, history]
    exact hown ▸ (hperm.map _).symm

end Database.IsSound

end EquityScreen
