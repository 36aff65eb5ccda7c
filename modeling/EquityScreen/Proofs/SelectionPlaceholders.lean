import EquityScreen.Proofs.CompiledSelection
import EquityScreen.Proofs.ParameterOrder
import EquityScreen.Proofs.PlaceholderScan

namespace EquityScreen

open Placeholder

namespace Placeholder

theorem isSilent_intercalate {separator : String} (hs : IsSilent separator) {ts : List String}
    (h : ∀ t ∈ ts, IsSilent t) : IsSilent (String.intercalate separator ts) := by
  induction ts with
  | nil => simp [IsSilent]
  | cons t rest ih =>
    obtain ⟨ht, hrest⟩ := List.forall_mem_cons.mp h
    cases rest with
    | nil => simpa using ht
    | cons u rest =>
      rw [String.intercalate_cons_cons, isSilent_append, isSilent_append]
      exact ⟨⟨ht, hs⟩, ih hrest⟩

theorem isSilent_join {ts : List String} (h : ∀ t ∈ ts, IsSilent t) :
    IsSilent (String.join ts) := by
  induction ts with
  | nil => decide
  | cons t rest ih =>
    obtain ⟨ht, hrest⟩ := List.forall_mem_cons.mp h
    rw [String.join_cons, isSilent_append]
    exact ⟨ht, ih hrest⟩

end Placeholder

theorem isSilent_quoted {name : String} (h : IsSilent name) : IsSilent (quoted name) := by
  unfold quoted
  rw [isSilent_append, isSilent_append]
  refine ⟨⟨by decide, isSilent_ofList fun hd => ?_⟩, by decide⟩
  obtain ⟨c, hc, hd⟩ := List.mem_flatMap.mp hd
  split at hd
  · simp at hd
  · obtain rfl := List.mem_singleton.mp hd
    exact h hc

theorem isSilent_quotedTable {name : String} (h : IsSilent name) : IsSilent (quotedTable name) := by
  have hsub {cs : List Char} (hcs : ∀ c ∈ cs, c ∈ name.toList) : IsSilent (String.ofList cs) :=
    isSilent_ofList fun hd => h (hcs _ hd)
  simp only [quotedTable]
  split
  · exact isSilent_quoted h
  · next table hdrop =>
    have htable : ∀ c ∈ table, c ∈ name.toList := fun c hc =>
      (List.dropWhile_sublist _).subset (hdrop ▸ List.mem_cons_of_mem _ hc)
    have hschema : ∀ c ∈ name.toList.takeWhile (· ≠ '.'), c ∈ name.toList := fun c hc =>
      (List.takeWhile_sublist _).subset hc
    rw [isSilent_append, isSilent_append]
    exact ⟨⟨isSilent_quoted (hsub hschema), by decide⟩, isSilent_quoted (hsub htable)⟩

namespace Selection

theorem isSilent_columnText (s : Source) {column : String} (h : IsSilent column) :
    IsSilent (columnText s column) := by
  unfold columnText
  rw [isSilent_append, isSilent_append]
  exact ⟨⟨isSilent_quoted (isSilent_letter s), by decide⟩, isSilent_quoted h⟩

theorem isSilent_name : ∀ f ∈ catalog, IsSilent f.name := by decide +kernel

theorem isSilent_shownText : ∀ f ∈ catalog, IsSilent (shownText f) := by
  intro f hf
  unfold shownText
  rw [isSilent_append, isSilent_append]
  exact ⟨⟨isSilent_columnText _ (isSilent_column f hf), by decide⟩,
    isSilent_quoted (isSilent_name f hf)⟩

theorem isSilent_joinText {names : TableNames} (hn : names.IsPlain) (s : Source) :
    IsSilent (joinText names s) := by
  have hletter := isSilent_letter s
  have hquoted := isSilent_quoted hletter
  have htable := isSilent_quotedTable (hn.isSilent s.table)
  have hquarterly := hn.isSilent .quarterly
  unfold joinText
  dsimp only
  cases s with
  | company | ownership =>
    refine .append (.append (.append (.append (.append ?_ htable) ?_) hquoted) ?_)
      (.append hletter ?_) <;> exact isSilent_ofList (by decide)
  | fundamentals =>
    refine .append (.append (.append (.append (.append ?_ htable) ?_) hquoted) ?_)
      (.append (.append (.append (.append (.append (.append hletter ?_) ?_) hletter) ?_)
        hquarterly) ?_) <;> exact isSilent_ofList (by decide)

theorem isSilent_orderText {k : OrderKey} (h : IsSilent k.column) : IsSilent (orderText k) := by
  unfold orderText
  rw [isSilent_append]
  exact ⟨isSilent_columnText _ h, by cases k.direction <;> decide⟩

def opening (names : TableNames) (s : Selection) : String :=
  "SELECT " ++
  String.intercalate ", " (baseColumns.map (columnText .company) ++ s.shown.map shownText) ++
  " FROM " ++ quotedTable (names.physical .companies) ++ " AS " ++ quoted Source.company.letter ++
  String.join (s.joins.map (joinText names))

def conditionText (names : TableNames) (s : Selection) : String :=
  match s.condition with
  | some p => " WHERE " ++ p.text names
  | none => ""

def ending (s : Selection) : String :=
  " ORDER BY " ++ (String.intercalate ", " (s.order.map orderText) ++
    match s.limit with
    | some n => " LIMIT " ++ toString n
    | none => "")

theorem text_eq (names : TableNames) (s : Selection) :
    s.text names = s.opening names ++ (s.conditionText names ++ s.ending) := by
  obtain ⟨shown, joins, condition, order, limit⟩ := s
  unfold text opening conditionText ending
  cases condition <;> cases limit <;> simp only [String.append_assoc]

theorem isSilent_opening {names : TableNames} (hn : names.IsPlain) {s : Selection}
    (hshown : ∀ f ∈ s.shown, f ∈ catalog) : IsSilent (s.opening names) := by
  have hcolumns : ∀ t ∈ baseColumns.map (columnText .company) ++ s.shown.map shownText,
      IsSilent t := by
    have hbase : ∀ column ∈ baseColumns, IsSilent column := by decide
    intro t ht
    rcases List.mem_append.mp ht with ht | ht
    · obtain ⟨column, hc, rfl⟩ := List.mem_map.mp ht
      exact isSilent_columnText _ (hbase column hc)
    · obtain ⟨f, hf, rfl⟩ := List.mem_map.mp ht
      exact isSilent_shownText f (hshown f hf)
  have hjoins : ∀ t ∈ s.joins.map (joinText names), IsSilent t := by
    intro t ht
    obtain ⟨source, -, rfl⟩ := List.mem_map.mp ht
    exact isSilent_joinText hn source
  have hcompanies := isSilent_quotedTable (hn.isSilent .companies)
  have hletter := isSilent_quoted (isSilent_letter .company)
  have hcomma : IsSilent ", " := by decide
  unfold opening
  simp only [isSilent_append, hcompanies, hletter,
    isSilent_intercalate hcomma hcolumns, isSilent_join hjoins, and_true]
  and_intros <;> exact isSilent_ofList (by decide)

theorem isSilent_ending {s : Selection} (horder : ∀ k ∈ s.order, IsSilent k.column) :
    IsSilent s.ending := by
  have hkeys : ∀ t ∈ s.order.map orderText, IsSilent t := by
    intro t ht
    obtain ⟨k, hk, rfl⟩ := List.mem_map.mp ht
    exact isSilent_orderText (horder k hk)
  unfold ending
  rw [isSilent_append, isSilent_append]
  refine ⟨by decide, isSilent_intercalate (by decide) hkeys, ?_⟩
  cases s.limit with
  | none => decide
  | some n => exact isSilent_append.mpr ⟨by decide, isSilent_toString n⟩

theorem ofText_text {names : TableNames} (hn : names.IsPlain) {s : Selection}
    (hshown : ∀ f ∈ s.shown, f ∈ catalog) (horder : ∀ k ∈ s.order, IsSilent k.column) :
    ofText (s.text names) = ofText ((s.condition.map (Predicate.text names)).getD "") := by
  have hending : ofText s.ending = [] := ofText_eq_nil (isSilent_ending horder)
  have happend (t : String) : ofText (t ++ s.ending) = ofText t := by
    have hblank : s.ending.toList.takeWhile Text.isDigit = [] :=
      takeWhile_ofList_append (c := ' ') (by decide) _ _
    rw [ofText_append hblank, hending, List.append_nil]
  rw [text_eq, ofText_append_of_isSilent (isSilent_opening hn hshown), happend, conditionText]
  cases s.condition with
  | none => rfl
  | some p => exact ofText_append_of_isSilent (by decide) _

end Selection

namespace Compilation

theorem checkPlaceholders_eq_ok {α : Type} {text : String} {n : Nat} (hn : n ≤ maxNumber)
    (h : ofText text = List.range' 1 n) : checkPlaceholders (α := α) text n = .ok () := by
  rw [checkPlaceholders_eq_ok_iff]
  ext m
  rw [← mem_numbers, numbers, ← ofText, h, List.mem_filter, List.mem_range'_1, Set.mem_Icc,
    decide_eq_true_iff]
  omega

end Compilation

end EquityScreen
