import EquityScreen.Predicate.Meaning
import EquityScreen.Proofs.CashFlowMerge
import EquityScreen.Quantity.Rational
import Mathlib.Data.String.Basic

namespace EquityScreen

namespace Text

variable {a b : List Char}

theorem append_lt_append_of_lt (hlength : a.length = b.length) (h : a < b) (x y : List Char) :
    a ++ x < b ++ y := by
  induction a generalizing b with
  | nil =>
    obtain rfl := List.length_eq_zero_iff.mp hlength.symm
    exact absurd h (List.lt_irrefl [])
  | cons c a ih =>
    cases b with
    | nil => cases hlength
    | cons d b =>
      refine List.cons_lt_cons_iff.mpr ?_
      obtain hcd | ⟨rfl, hab⟩ := List.cons_lt_cons_iff.mp h
      · exact .inl hcd
      · exact .inr ⟨rfl, ih (Nat.succ.inj hlength) hab⟩

theorem leading_lt {m n x y top : Nat} (hy : y < top) (h : top * m + x < top * n + y) :
    m < n ∨ m = n ∧ x < y := by
  obtain hlt | rfl | hgt := lt_trichotomy m n
  · exact .inl hlt
  · exact .inr ⟨rfl, Nat.lt_of_add_lt_add_left h⟩
  · have hmul := Nat.mul_le_mul_left top (Nat.succ_le_of_lt hgt)
    rw [Nat.mul_succ] at hmul
    omega

theorem lt_of_digitsValue_lt (hlength : a.length = b.length) (ha : ∀ c ∈ a, isDigit c = true)
    (hb : ∀ c ∈ b, isDigit c = true) (h : digitsValue a < digitsValue b) : a < b := by
  induction a generalizing b with
  | nil =>
    obtain rfl := List.length_eq_zero_iff.mp hlength.symm
    exact absurd h (lt_irrefl _)
  | cons c a ih =>
    cases b with
    | nil => cases hlength
    | cons d b =>
      obtain ⟨hc, harest⟩ := List.forall_mem_cons.mp ha
      obtain ⟨hd, hbrest⟩ := List.forall_mem_cons.mp hb
      have hab : a.length = b.length := Nat.succ.inj hlength
      rw [digitsValue_cons, digitsValue_cons, hab] at h
      refine List.cons_lt_cons_iff.mpr ?_
      obtain hlt | ⟨heq, hrest⟩ := leading_lt (digitsValue_lt hbrest) h
      · have hcd : c.toNat < d.toNat := lt_of_tsub_lt_tsub_right hlt
        exact .inl hcd
      · have hcd : c.toNat = d.toNat :=
          (tsub_left_inj (isDigit_iff.mp hc).1 (isDigit_iff.mp hd).1).mp heq
        exact .inr ⟨Char.toNat_inj.mp hcd, ih hab harest hbrest hrest⟩

end Text

namespace Date

open Text

theorem padded_lt_padded {width m n : Nat} (hw : 0 < width) (hn : n < 10 ^ width) (h : m < n) :
    padded width m < padded width n := by
  refine lt_of_digitsValue_lt ?_ (fun c hc => isDigit_of_mem_padded hc)
    (fun c hc => isDigit_of_mem_padded hc) ?_
  · rw [length_padded hw (h.trans hn), length_padded hw hn]
  · rwa [digitsValue_padded, digitsValue_padded]

theorem padded_append_lt {width m n : Nat} (hw : 0 < width) (hn : n < 10 ^ width) (h : m < n)
    (x y : List Char) : padded width m ++ x < padded width n ++ y := by
  refine append_lt_append_of_lt ?_ (padded_lt_padded hw hn h) x y
  rw [length_padded hw (h.trans hn), length_padded hw hn]

structure IsShort (d : Date) : Prop where
  valid : d.isValid = true
  low : 0 ≤ d.year
  high : d.year ≤ 9999

theorem text_lt_text {d e : Date} (hd : d.IsShort) (he : e.IsShort)
    (h : (Period.date d).rank < (Period.date e).rank) : d.text < e.text := by
  obtain ⟨hvalid, hlow, hhigh⟩ := hd
  obtain ⟨hvalid', hlow', hhigh'⟩ := he
  obtain ⟨hm, hday⟩ := lt_of_isValid hvalid
  obtain ⟨hm', hday'⟩ := lt_of_isValid hvalid'
  obtain ⟨year, month, day⟩ := d
  obtain ⟨year', month', day'⟩ := e
  lift year to Nat using hlow
  lift year' to Nat using hlow'
  dsimp only at *
  have hy : year < 10000 := by omega
  have hy' : year' < 10000 := by omega
  have hsame {x y : List Char} (h : x < y) (a : List Char) : a ++ x < a ++ y :=
    List.Lex.append_left _ h a
  rw [text_of_short hy, text_of_short hy', String.lt_iff_toList_lt, String.toList_ofList,
    String.toList_ofList]
  obtain hlt | ⟨hyears, hrest⟩ := Prod.Lex.toLex_lt_toLex.mp (Sum.Lex.inr_lt_inr_iff.mp h)
  · exact padded_append_lt (by decide) hy' (Int.ofNat_lt.mp hlt) _ _
  · obtain rfl : year = year' := Int.ofNat_inj.mp hyears
    refine hsame (List.cons_lt_cons_self.mpr ?_) _
    obtain hlt | ⟨rfl, hlt⟩ := Prod.Lex.toLex_lt_toLex.mp hrest
    · exact padded_append_lt (by decide) hm' hlt _ _
    · exact hsame (List.cons_lt_cons_self.mpr (padded_lt_padded (by decide) hday' hlt)) _

theorem compare_text {d e : Date} (hd : d.IsShort) (he : e.IsShort) :
    compare d.text e.text = d.order e := by
  have horder : d.order e = compare (Period.date d).rank (Period.date e).rank :=
    Period.order_eq (.date d) (.date e)
  rw [horder]
  obtain h | h | h := lt_trichotomy (Period.date d).rank (Period.date e).rank
  · rw [compare_lt_iff_lt.mpr h, compare_lt_iff_lt.mpr (text_lt_text hd he h)]
  · cases Period.rank_injective h
    rw [compare_eq_iff_eq.mpr rfl, compare_eq_iff_eq.mpr rfl]
  · rw [compare_gt_iff_gt.mpr h, compare_gt_iff_gt.mpr (text_lt_text he hd h)]

end Date

variable {α : Type} {unit : WindowUnit}

namespace Period

variable {p q : Period}

theorem isShort_of_ofCell? {v : Cell α} {d : Date} (h : ofCell? unit v = some (.date d))
    (hshort : (Period.date d).hasShortDate = true) : d.IsShort := by
  obtain ⟨y, -, hp, -⟩ | ⟨d', -, hp, hvalid⟩ := cases_of_ofCell? h
  · cases hp
  · cases hp
    obtain ⟨hlow, hhigh⟩ := of_decide_eq_true hshort
    exact ⟨hvalid, hlow, hhigh⟩

/-- Cells that were written for periods of one unit are in the order of the periods. -/
theorem order_cell [Quantity α] (hp : ofCell? unit (p.cell : Cell α) = some p)
    (hq : ofCell? unit (q.cell : Cell α) = some q) (hshort : p.hasShortDate = true)
    (hshort' : q.hasShortDate = true) : Cell.order (p.cell : Cell α) q.cell = order p q := by
  obtain ⟨y, rfl, rfl, -⟩ | ⟨d, rfl, rfl, -⟩ := cases_of_ofCell? hp
  · obtain ⟨z, -, rfl, -⟩ | ⟨e, hunit, -, -⟩ := cases_of_ofCell? hq
    · rfl
    · cases hunit
  · obtain ⟨z, hunit, -, -⟩ | ⟨e, -, rfl, -⟩ := cases_of_ofCell? hq
    · cases hunit
    · exact Date.compare_text (isShort_of_ofCell? hp hshort) (isShort_of_ofCell? hq hshort')

theorem ofJson?_json {v : Json α} (h : ofJson? unit v = some p) (hshort : p.hasShortDate = true) :
    ofJson? unit (p.json : Json α) = some p := by
  obtain ⟨c, -, hc⟩ := Option.bind_eq_some_iff.mp h
  have hcell : Cell.ofJson? (p.json : Json α) = some p.cell := by cases p <;> rfl
  rw [ofJson?, hcell]
  exact ofCell?_cell hc hshort

end Period

namespace Resolution

open Statement (cashFlowColumn)

variable {p : Period} {v : Cell α} {r : Row α} {facts statements : List (Row α)}

/-- The period of a row stands there as a merge writes it. -/
def HoldsWritten (unit : WindowUnit) (r : Row α) : Prop :=
  ∃ p : Period, IsReadable α unit p ∧ p.hasShortDate = true ∧
    Row.get? r (periodColumn unit.table) = some p.cell

theorem HoldsWritten.set (h : HoldsWritten unit r) (v : Cell α) :
    HoldsWritten unit (Row.set r cashFlowColumn v) := by
  obtain ⟨p, hp, hshort, hget⟩ := h
  exact ⟨p, hp, hshort, by rw [Row.get?_set, if_neg (cashFlowColumn_ne unit), hget]⟩

theorem holdsWritten_putCashFlow (hp : IsReadable α unit p) (hshort : p.hasShortDate = true)
    {rows : List (Row α)} (h : ∀ r ∈ rows, HoldsWritten unit r) :
    ∀ r ∈ putCashFlow unit p v rows, HoldsWritten unit r := by
  induction rows with
  | nil =>
    refine List.forall_mem_singleton.mpr ⟨p, hp, hshort, ?_⟩
    rw [Row.get?_cons, if_pos rfl]
  | cons r rest ih =>
    obtain ⟨hr, hrest⟩ := List.forall_mem_cons.mp h
    rw [putCashFlow]
    split
    · exact List.forall_mem_cons.mpr ⟨hr.set v, hrest⟩
    · exact List.forall_mem_cons.mpr ⟨hr, ih hrest⟩

theorem holdsWritten_merged (hfacts : ∀ r ∈ facts, HoldsWritten unit r)
    (hshort : ∀ st ∈ statements, ∀ p ∈ statementPeriod unit st, p.hasShortDate = true) :
    ∀ r ∈ statements.foldl (mergeOne unit) facts, HoldsWritten unit r := by
  induction statements generalizing facts with
  | nil => exact hfacts
  | cons st rest ih =>
    obtain ⟨hfirst, hrest⟩ := List.forall_mem_cons.mp hshort
    refine ih ?_ hrest
    cases hp : statementPeriod unit st with
    | none => rwa [mergeOne_of_none hp]
    | some p =>
      rw [mergeOne_of_period hp]
      have hreadable : IsReadable α unit p :=
        areReadable_of_short (List.forall_mem_singleton.mpr hfirst) st List.mem_cons_self p hp
      exact holdsWritten_putCashFlow hreadable (hfirst p hp) hfacts

variable [Quantity α]

theorem order_of_holdsWritten {a b : Row α} (ha : HoldsWritten unit a)
    (hb : HoldsWritten unit b) :
    Cell.order (Row.get a (periodColumn unit.table)) (Row.get b (periodColumn unit.table)) =
      Period.orderOption (periodOf unit a) (periodOf unit b) := by
  obtain ⟨p, hp, hshort, hget⟩ := ha
  obtain ⟨q, hq, hshort', hget'⟩ := hb
  have hperiod : periodOf unit a = some p := by rw [periodOf, hget]; exact hp
  have hperiod' : periodOf unit b = some q := by rw [periodOf, hget']; exact hq
  rw [Row.get, Row.get, hget, hget', hperiod, hperiod']
  exact Period.order_cell hp hq hshort hshort'

/-- Rows with written periods are in one order by period and by the cells of the periods. -/
theorem sorted_eq_newestFirst {rows : List (Row α)} (h : ∀ r ∈ rows, HoldsWritten unit r) :
    rows.mergeSort (fun a b => (Period.orderOption (periodOf unit b) (periodOf unit a)).isLE) =
      newestFirst (periodColumn unit.table) rows := by
  have hperiods : KeySort.Compares (sortKey unit) _ rows := compares_sortKey rows
  have hcells : KeySort.Compares (sortKey unit) (fun a b => (Cell.order
      (Row.get b (periodColumn unit.table)) (Row.get a (periodColumn unit.table))).isLE) rows := by
    intro a ha b hb
    dsimp only
    rw [order_of_holdsWritten (h b hb) (h a ha)]
    exact hperiods a ha b hb
  rw [newestFirst, KeySort.mergeSort_eq_upward hperiods, KeySort.mergeSort_eq_upward hcells]

/-- A period that was read from any value is read back from the value that is written for it, if its
year has four digits where it is a date. The texts of such dates are in the order of the dates, and
so a merge of rows with written periods yields the rows that a store would yield which orders them
by the column of the periods. -/
theorem written_periods (unit : WindowUnit) :
    (∀ (v : Json α) (p : Period), Period.ofJson? unit v = some p → p.hasShortDate = true →
      Period.ofJson? unit (p.json : Json α) = some p) ∧
    (∀ (v w : Json α) (d e : Date), Period.ofJson? unit v = some (.date d) →
      Period.ofJson? unit w = some (.date e) → (Period.date d).hasShortDate = true →
      (Period.date e).hasShortDate = true →
      compare d.text e.text = Period.order (.date d) (.date e)) ∧
    ∀ (length : Nat) (facts statements : List (Row α)), (∀ r ∈ facts, HoldsWritten unit r) →
      (∀ st ∈ statements, ∀ p ∈ statementPeriod unit st, p.hasShortDate = true) →
      mergeCashFlows unit length facts statements =
        (newestFirst (periodColumn unit.table)
          (statements.foldl (mergeOne unit) facts)).take length := by
  refine ⟨fun v p hv hshort => Period.ofJson?_json hv hshort,
    fun v w d e hv hw hd he => ?_, fun length facts statements hfacts hshort => ?_⟩
  · obtain ⟨_, -, hv⟩ := Option.bind_eq_some_iff.mp hv
    obtain ⟨_, -, hw⟩ := Option.bind_eq_some_iff.mp hw
    exact Date.compare_text (Period.isShort_of_ofCell? hv hd) (Period.isShort_of_ofCell? hw he)
  · rw [mergeCashFlows_eq_take, mergedRows,
      sorted_eq_newestFirst (holdsWritten_merged hfacts hshort)]

theorem written_periods_spring :
    let d : Date := ⟨2024, 3, 7⟩
    let e : Date := ⟨2024, 3, 31⟩
    Period.ofJson? .quarters (.text "  2024-3-7" : Json ℚ) = some (.date d) ∧
    Period.ofJson? .quarters (.text "2024-03-31T09:30" : Json ℚ) = some (.date e) ∧
    Period.ofJson? .quarters ((Period.date d).json : Json ℚ) = some (.date d) ∧
    compare d.text e.text = Period.order (.date d) (.date e) ∧
    (∀ r ∈ quarterFacts, HoldsWritten .quarters r) ∧
    mergeCashFlows .quarters 2 quarterFacts quarterStatements =
      (newestFirst "fiscal_period"
        (quarterStatements.foldl (mergeOne .quarters) quarterFacts)).take 2 := by
  intro d e
  obtain ⟨hback, horder, hmerge⟩ := written_periods (α := ℚ) .quarters
  have hd : Period.ofJson? .quarters (.text "  2024-3-7" : Json ℚ) = some (.date d) := by
    decide +kernel
  have he : Period.ofJson? .quarters (.text "2024-03-31T09:30" : Json ℚ) = some (.date e) := by
    decide +kernel
  have hfacts : ∀ r ∈ quarterFacts, HoldsWritten .quarters r := by
    have hwritten {r : Row ℚ} (d : Date) (hd : IsReadable ℚ .quarters (.date d))
        (hshort : (Period.date d).hasShortDate = true)
        (hget : Row.get? r "fiscal_period" = some (Period.date d).cell) :
        HoldsWritten .quarters r := ⟨.date d, hd, hshort, hget⟩
    refine List.forall_mem_cons.mpr ⟨?_, List.forall_mem_singleton.mpr ?_⟩
    · exact hwritten ⟨2024, 3, 31⟩ (by unfold IsReadable; decide +kernel) rfl (by decide +kernel)
    · exact hwritten ⟨2023, 12, 31⟩ (by unfold IsReadable; decide +kernel) rfl (by decide +kernel)
  exact ⟨hd, he, hback _ _ hd rfl, horder _ _ d e hd he rfl rfl, hfacts,
    hmerge 2 _ _ hfacts (by decide +kernel)⟩

end Resolution

end EquityScreen
