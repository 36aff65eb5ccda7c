import EquityScreen.Proofs.PredicateNames
import EquityScreen.Proofs.SelectionPlaceholders

namespace EquityScreen

open Sql

variable {names : TableNames} {sources : List Source}

theorem isWord_quoted {name : String} (h : ∀ c ∈ name.toList, isBreak c = false) :
    IsWord (quoted name) where
  nonempty := by simp [quoted]
  unbroken c hc := by
    simp only [quoted, String.toList_append, String.toList_ofList, List.mem_append,
      List.mem_flatMap] at hc
    obtain (hc | ⟨d, hd, hc⟩) | hc := hc
    · obtain rfl : c = '"' := by simpa using hc
      decide
    · split at hc
      · obtain rfl : c = '"' := by simpa using hc
        decide
      · obtain rfl := List.mem_singleton.mp hc
        exact h c hd
    · obtain rfl : c = '"' := by simpa using hc
      decide

theorem filter_quoted {cs : List Char} (h : ∀ c ∈ cs, c ≠ '"') :
    (quoted (String.ofList cs)).toList.filter (· ≠ '"') = cs := by
  have hcopy : (cs.flatMap fun c => if c = '"' then ['"', '"'] else [c]) = cs := by
    induction cs with
    | nil => rfl
    | cons c cs ih =>
      obtain ⟨hc, hcs⟩ := List.forall_mem_cons.mp h
      rw [List.flatMap_cons, if_neg hc, ih hcs, List.singleton_append]
  have hkeep : cs.filter (· ≠ '"') = cs :=
    List.filter_eq_self.mpr fun c hc => decide_eq_true (h c hc)
  have hquote : "\"".toList.filter (· ≠ '"') = [] := by decide
  rw [quoted, String.toList_ofList, hcopy, String.toList_append, String.toList_append,
    List.filter_append, List.filter_append, hquote, String.toList_ofList, hkeep, List.nil_append,
    List.append_nil]

theorem unquoted_quoted {name : String} (h : ∀ c ∈ name.toList, c ≠ '"') :
    unquoted (quoted name) = name := by
  have hkeep := filter_quoted h
  rw [String.ofList_toList] at hkeep
  rw [unquoted, hkeep, String.ofList_toList]

theorem filter_quoted_of_isPlain {name : String} (h : isPlain name = true) :
    (quoted name).toList.filter (· ≠ '"') = name.toList := by
  have hkept := filter_quoted fun c hc => (isPlain_iff.mp h c hc).2.2
  rwa [String.ofList_toList] at hkept

theorem quoted_spec {name : String} (h : isPlain name = true) :
    IsWord (quoted name) ∧ IsInert (quoted name) ∧ unquoted (quoted name) = name := by
  have hchars := isPlain_iff.mp h
  refine ⟨isWord_quoted fun c hc => (hchars c hc).1, ⟨?fromWord, ?joinWord, ?mention⟩,
    unquoted_quoted fun c hc => (hchars c hc).2.2⟩
  case fromWord => simp [quoted, ← String.toList_inj]
  case joinWord => simp [quoted, ← String.toList_inj]
  case mention =>
    refine mention?_eq_none fun c hc => ?_
    rw [filter_quoted_of_isPlain h] at hc
    exact (hchars c hc).2.1

theorem quotedTable_spec {name : String} (hb : ∀ c ∈ name.toList, isBreak c = false)
    (hq : ∀ c ∈ name.toList, c ≠ '"') :
    IsWord (quotedTable name) ∧ unquoted (quotedTable name) = name := by
  have hsplit := List.takeWhile_append_dropWhile (p := (· ≠ '.')) (l := name.toList)
  simp only [quotedTable]
  split
  · exact ⟨isWord_quoted hb, unquoted_quoted hq⟩
  · next d table hdrop =>
    have hpoint : d = '.' := by
      have hhead := List.dropWhile_get_zero_not (p := (· ≠ '.')) name.toList (by
        rw [hdrop]
        exact Nat.succ_pos _)
      simpa only [hdrop, List.get_eq_getElem, List.getElem_cons_zero, decide_eq_true_eq, ne_eq,
        not_not] using hhead
    rw [hdrop, hpoint] at hsplit
    generalize name.toList.takeWhile (· ≠ '.') = schema at hsplit
    rw [← hsplit, List.forall_mem_append, List.forall_mem_cons] at hb hq
    have hdot : IsWord "." := by decide
    refine ⟨((isWord_quoted ?_).append hdot).append (isWord_quoted ?_), ?_⟩
    · simpa using hb.1
    · simpa using hb.2.2
    · have hkeep : ".".toList.filter (· ≠ '"') = ['.'] := by decide
      rw [unquoted, String.toList_append, String.toList_append, List.filter_append,
        List.filter_append, filter_quoted hq.1, filter_quoted hq.2.2, hkeep, List.append_assoc,
        List.singleton_append, hsplit, String.ofList_toList]

theorem TableNames.IsPlain.quotedTable_spec (hn : names.IsPlain) (t : Table) :
    IsWord (quotedTable (names.physical t)) ∧
      unquoted (quotedTable (names.physical t)) = names.physical t := by
  refine EquityScreen.quotedTable_spec
    (fun c hc => isBreak_eq_false (by decide) (hn.nameChars t c hc)) fun c hc => ?_
  rintro rfl
  exact absurd (hn.nameChars t _ hc) (by decide)

namespace Speaks

theorem text_append {s t : String} {ts ts' : List (String × String)}
    (hs : Speaks names sources (tokens s) ts) (ht : Speaks names sources (tokens t) ts')
    (h : startsApart t.toList = true ∨ startsApart s.toList.reverse = true) :
    Speaks names sources (tokens (s ++ t)) (ts ++ ts') := by
  rw [tokens_append h]
  exact hs.append ht

theorem text_word {w : String} (hw : IsWord w) (h : Speaks names sources [w] []) :
    Speaks names sources (tokens w) [] := by
  rwa [tokens_word hw]

theorem text_intercalate {texts : List String}
    (h : ∀ t ∈ texts, Speaks names sources (tokens t) []) :
    Speaks names sources (tokens (String.intercalate ", " texts)) [] := by
  have hcomma : Speaks names sources [","] [] := .inert _ (by decide) rfl
  exact tokens_commas (P := fun ws => Speaks names sources ws []) (.inert [] (by simp) rfl)
    (fun _ _ hw hu => hw.append (hcomma.append hu)) h

end Speaks

namespace Selection

theorem columnText_spec (s : Source) {column : String} {t : Table}
    (hc : column ∈ (Schema.columns t).map (·.name)) : IsWord (columnText s column) ∧
      mention? (columnText s column) = some (s.letter, column) := by
  have hcolumn := isPlain_of_mem_columns t column hc
  have hletter := isPlain_of_isAlias s.isAlias_letter
  constructor
  · have hpoint : IsWord "." := by decide
    exact ((quoted_spec hletter).1.append hpoint).append (quoted_spec hcolumn).1
  · refine mention?_of_filter s.isAlias_letter ?_
    have hpoint : ".".toList.filter (· ≠ '"') = ['.'] := by decide
    rw [columnText, String.toList_append, String.toList_append, List.filter_append,
      List.filter_append, filter_quoted_of_isPlain hletter, filter_quoted_of_isPlain hcolumn,
      hpoint, List.append_assoc, List.singleton_append]

theorem base_mem_columns : ∀ column ∈ baseColumns,
    column ∈ (Schema.columns .companies).map (·.name) := by
  decide

theorem isPlain_name : ∀ f ∈ catalog, isPlain f.name = true := by decide +kernel

theorem speaks_columnText {f : Field} (hf : f ∈ catalog) (hs : f.source ∈ sources) :
    Speaks names sources (tokens (columnText f.source f.column)) [] := by
  have hcolumn := column_mem_columns f hf
  obtain ⟨hw, hm⟩ := columnText_spec f.source hcolumn
  exact .text_word hw (.mention hm ⟨f.source, hs, rfl, hcolumn⟩)

theorem speaks_base (hc : Source.company ∈ sources) {column : String} (h : column ∈ baseColumns) :
    Speaks names sources (tokens (columnText .company column)) [] := by
  have hcolumn := base_mem_columns column h
  obtain ⟨hw, hm⟩ := columnText_spec .company hcolumn
  exact .text_word hw (.mention hm ⟨.company, hc, rfl, hcolumn⟩)

theorem speaks_shownText {f : Field} (hf : f ∈ catalog) (hs : f.source ∈ sources) :
    Speaks names sources (tokens (shownText f)) [] := by
  obtain ⟨hw, hi, -⟩ := quoted_spec (isPlain_name f hf)
  have has : Speaks names sources (tokens " AS ") [] := .inert ["AS"] (by decide) rfl
  have hname : Speaks names sources (tokens (quoted f.name)) [] :=
    .text_word hw (.inert _ (by simpa using hi)
      (depth_of_unbracketed (by simpa using hw.unbracketed) 0))
  rw [shownText, String.append_assoc]
  exact (speaks_columnText hf hs).text_append (has.text_append hname (.inr (by decide)))
    (.inl (startsApart_ofList_append (by decide) _ _))

theorem speaks_orderText {k : OrderKey}
    (h : Speaks names sources (tokens (columnText k.source k.column)) []) :
    Speaks names sources (tokens (orderText k)) [] := by
  unfold orderText
  cases k.direction with
  | ascending =>
    exact h.text_append (t := " ASC") (.inert ["ASC"] (by decide) rfl) (.inl (by decide))
  | descending =>
    exact h.text_append (t := " DESC") (.inert ["DESC"] (by decide) rfl) (.inl (by decide))

def clauseText (names : TableNames) (keyword : String) (s : Source) : String :=
  " " ++ (keyword ++ (" " ++ (quotedTable (names.physical s.table) ++
    (" AS " ++ quoted s.letter))))

theorem tokens_clauseText (hn : names.IsPlain) {keyword : String}
    (hk : keyword = "FROM" ∨ keyword = "JOIN") (s : Source) : tokens (clauseText names keyword s) =
      [keyword, quotedTable (names.physical s.table), "AS", quoted s.letter] := by
  have hword := (hn.quotedTable_spec s.table).1
  have hletter := (quoted_spec (isPlain_of_isAlias s.isAlias_letter)).1
  have hkeyword : IsWord keyword := by
    obtain rfl | rfl := hk
    · decide
    · decide
  rw [clauseText, tokens_around (by decide) hkeyword (startsApart_ofList_append (by decide) _ _),
    tokens_around (by decide) hword (startsApart_ofList_append (by decide) _ _),
    tokens_ofList_append (by decide), tokens_word hletter]
  rfl

theorem speaks_clause (hn : names.IsPlain) {keyword : String}
    (hk : keyword = "FROM" ∨ keyword = "JOIN") (s : Source) :
    Speaks names sources (tokens (clauseText names keyword s))
      [(s.letter, names.physical s.table)] := by
  obtain ⟨hword, htable⟩ := hn.quotedTable_spec s.table
  have hunquoted := (quoted_spec (isPlain_of_isAlias s.isAlias_letter)).2.2
  have has : quoted s.letter ≠ "AS" := by cases s <;> decide
  have hy : Yields (createdColumns names) _ _ := yields_tableAs hk hword.unbracketed.1 has
  rw [htable, hunquoted] at hy
  exact ⟨[], tokens_clauseText hn hk s ▸ hy, by simp⟩

def onText (names : TableNames) (s : Source) : String :=
  let same := s.letter ++ ".ticker = c.ticker"
  " ON " ++ match s with
    | .fundamentals =>
      same ++ " AND " ++ s.letter ++ ".fiscal_period = (SELECT MAX(q.fiscal_period) FROM " ++
        names.physical .quarterly ++ " q WHERE q.ticker = c.ticker)"
    | _ => same

theorem joinText_eq (names : TableNames) (s : Source) :
    joinText names s = " LEFT" ++ (clauseText names "JOIN" s ++ onText names s) := by
  have hkeyword (t : String) : " LEFT JOIN " ++ t = " LEFT" ++ (" " ++ ("JOIN" ++ (" " ++ t))) := by
    rw [← String.append_assoc, ← String.append_assoc, ← String.append_assoc]
    rfl
  unfold joinText clauseText onText
  cases s <;> simp only [String.append_assoc, hkeyword]

variable (hd : names.AreDistinct) (hn : names.IsPlain) (hc : Source.company ∈ sources)

include hc in
theorem speaks_sameTicker {s : Source} (hs : s ∈ sources) :
    Speaks names sources [s.letter ++ ".ticker", "=", "c.ticker"] [] := by
  have hticker := ticker_mem_columns s.table
  have hown : Speaks names sources [s.letter ++ ".ticker"] [] := by
    have hpoint : ".ticker" = "." ++ tickerColumn := rfl
    rw [hpoint, ← String.append_assoc]
    exact .mention (mention?_of_mem_columns s.isAlias_letter hticker) ⟨s, hs, rfl, hticker⟩
  have hcompany : Speaks names sources ["c.ticker"] [] :=
    .mention (by decide) (isFrom_ticker hc)
  exact hown.append ((Speaks.inert ["="] (by decide) rfl).append hcompany)

include hd hn hc

theorem speaks_newestQuarter : Speaks names sources
    (["("] ++ ["SELECT", "MAX", "(", "q.fiscal_period", ")", "FROM", names.physical .quarterly, "q",
      "WHERE", "q.ticker", "=", "c.ticker"] ++ [")"]) [] := by
  have hwords (ws : List String) (hw : ∀ w ∈ ws, IsInert w) (hd : depth 0 ws = some 0) :
      Yields (createdColumns names) ws .empty := yields_inert ws hw hd
  have hperiod : Yields (createdColumns names) ["q.fiscal_period"] ⟨[], [("q", "fiscal_period")]⟩ :=
    yields_mention (by decide)
  have hticker : Yields (createdColumns names) ["q.ticker"] ⟨[], [("q", "ticker")]⟩ :=
    yields_mention (by decide)
  have houter : Yields (createdColumns names) ["c.ticker"] ⟨[], [("c", "ticker")]⟩ :=
    yields_mention (by decide)
  have htable : Yields (createdColumns names) ["FROM", names.physical .quarterly, "q"] _ :=
    yields_table (.inl rfl) (hn.isWord .quarterly).unbracketed.1 (by decide)
  rw [hn.unquoted_physical] at htable
  have hinner := (hwords ["SELECT", "MAX"] (by decide) rfl).append <|
    (hperiod.parens (Level.close?_mentions _)).append <| htable.append <|
    (hwords ["WHERE"] (by decide) rfl).append <| hticker.append <|
    (hwords ["="] (by decide) rfl).append houter
  have hclose : Level.close? (createdColumns names) ⟨[("q", names.physical .quarterly)],
      [("q", "fiscal_period"), ("q", "ticker"), ("c", "ticker")]⟩ = some [("c", "ticker")] := by
    have hcreated := TableNames.createdColumns_physical hd .quarterly
    have hperiod := period_mem_columns .quarters
    have hticker := ticker_mem_columns .quarterly
    rw [WindowUnit.table, ← hcreated] at hperiod
    rw [← hcreated] at hticker
    simp [Level.close?, Level.agrees, show "fiscal_period" ∈ _ from hperiod,
      show "ticker" ∈ _ from hticker]
  exact ⟨_, hinner.parens hclose, by simpa using isFrom_ticker hc⟩

omit hd hc in
theorem tokens_onText (s : Source) : tokens (onText names s) =
    ["ON"] ++ ([s.letter ++ ".ticker", "=", "c.ticker"] ++ match s with
      | .fundamentals => ["AND", "f.fiscal_period", "="] ++
        (["("] ++ ["SELECT", "MAX", "(", "q.fiscal_period", ")", "FROM", names.physical .quarterly,
          "q", "WHERE", "q.ticker", "=", "c.ticker"] ++ [")"])
      | _ => []) := by
  cases s with
  | company =>
    have htext : onText names .company = " ON c.ticker = c.ticker" := rfl
    rw [htext, tokens_ofList]
    rfl
  | ownership =>
    have htext : onText names .ownership = " ON o.ticker = c.ticker" := rfl
    rw [htext, tokens_ofList]
    rfl
  | fundamentals =>
    have htext : onText names .fundamentals =
        " ON f.ticker = c.ticker AND f.fiscal_period = (SELECT MAX(q.fiscal_period) FROM " ++
          (names.physical .quarterly ++ " q WHERE q.ticker = c.ticker)") := by
      unfold onText
      simp only [← String.append_assoc]
      rfl
    rw [htext, tokens_around (by decide) (hn.isWord .quarterly) (by decide), tokens_ofList]
    rfl

theorem speaks_onText {s : Source} (hs : s ∈ sources) :
    Speaks names sources (tokens (onText names s)) [] := by
  have hon : Speaks names sources ["ON"] [] := .inert _ (by decide) rfl
  have hsame : Speaks names sources [s.letter ++ ".ticker", "=", "c.ticker"] [] :=
    speaks_sameTicker hc hs
  rw [tokens_onText hn]
  refine hon.append (hsame.append ?_)
  cases s with
  | company | ownership => exact .inert [] (by simp) rfl
  | fundamentals =>
    have hperiod : Speaks names sources ["f.fiscal_period"] [] :=
      .mention (by decide) ⟨.fundamentals, hs, rfl, period_mem_columns .quarters⟩
    exact ((Speaks.inert ["AND"] (by decide) rfl).append
      (hperiod.append (.inert ["="] (by decide) rfl))).append (speaks_newestQuarter hd hn hc)

omit hd hn hc in
theorem startsApart_clauseText (keyword : String) (s : Source) (t : String) :
    startsApart (clauseText names keyword s ++ t).toList = true := by
  rw [clauseText, String.append_assoc]
  exact startsApart_ofList_append (by decide) _ _

theorem speaks_joinText {s : Source} (hs : s ∈ sources) :
    Speaks names sources (tokens (joinText names s)) [(s.letter, names.physical s.table)] := by
  have hleft : Speaks names sources (tokens " LEFT") [] := .inert ["LEFT"] (by decide) rfl
  have hon : startsApart (onText names s).toList = true := startsApart_ofList_append (by decide) _ _
  rw [joinText_eq]
  exact hleft.text_append
    ((speaks_clause hn (.inr rfl) s).text_append (speaks_onText hd hn hc hs) (.inl hon))
    (.inl (startsApart_clauseText _ _ _))

def tablesOf (names : TableNames) (sources : List Source) : List (String × String) :=
  sources.map fun s => (s.letter, names.physical s.table)

omit hd hn hc in
theorem startsApart_joins (joins : List Source) :
    startsApart (String.join (joins.map (joinText names))).toList = true := by
  cases joins with
  | nil => rfl
  | cons s rest =>
    rw [List.map_cons, String.join_cons, joinText_eq, String.append_assoc]
    exact startsApart_ofList_append (by decide) _ _

theorem speaks_joins {joins : List Source} (hs : ∀ s ∈ joins, s ∈ sources) :
    Speaks names sources (tokens (String.join (joins.map (joinText names))))
      (tablesOf names joins) := by
  induction joins with
  | nil => exact .inert [] (by simp) rfl
  | cons s rest ih =>
    obtain ⟨hs, hrest⟩ := List.forall_mem_cons.mp hs
    rw [List.map_cons, String.join_cons]
    exact (speaks_joinText hd hn hc hs).text_append (ih hrest) (.inl (startsApart_joins rest))

/-- What the clauses of a selection may speak of: fields and sort keys of its sources, and a
condition on them. -/
structure IsWithin (names : TableNames) (sources : List Source) (s : Selection) : Prop where
  shown : ∀ f ∈ s.shown, f ∈ catalog ∧ f.source ∈ sources
  joins : ∀ j ∈ s.joins, j ∈ sources
  condition : ∀ p ∈ s.condition, Speaks names sources (tokens (p.text names)) []
  order : ∀ k ∈ s.order, Speaks names sources (tokens (columnText k.source k.column)) []

omit hd hn hc in
theorem opening_eq (s : Selection) : s.opening names = "SELECT " ++
    (String.intercalate ", " (baseColumns.map (columnText .company) ++ s.shown.map shownText) ++
      (clauseText names "FROM" .company ++ String.join (s.joins.map (joinText names)))) := by
  have hfrom (t : String) : " FROM " ++ t = " " ++ ("FROM" ++ (" " ++ t)) := by
    rw [← String.append_assoc, ← String.append_assoc]
    rfl
  unfold opening clauseText
  simp only [String.append_assoc, hfrom]
  rfl

theorem speaks_opening {s : Selection} (hs : s.IsWithin names sources) :
    Speaks names sources (tokens (s.opening names)) (tablesOf names (.company :: s.joins)) := by
  have hselect : Speaks names sources (tokens "SELECT ") [] := .inert ["SELECT"] (by decide) rfl
  have hcolumns : Speaks names sources (tokens (String.intercalate ", "
      (baseColumns.map (columnText .company) ++ s.shown.map shownText))) [] := by
    refine Speaks.text_intercalate fun t ht => ?_
    rcases List.mem_append.mp ht with ht | ht
    · obtain ⟨column, hcolumn, rfl⟩ := List.mem_map.mp ht
      exact speaks_base hc hcolumn
    · obtain ⟨f, hf, rfl⟩ := List.mem_map.mp ht
      exact speaks_shownText (hs.shown f hf).1 (hs.shown f hf).2
  rw [opening_eq]
  exact hselect.text_append (hcolumns.text_append
    ((speaks_clause hn (.inl rfl) .company).text_append (speaks_joins hd hn hc hs.joins)
      (.inl (startsApart_joins s.joins))) (.inl (startsApart_clauseText _ _ _))) (.inr (by decide))

omit hd hn hc in
theorem speaks_conditionText {s : Selection} (hs : s.IsWithin names sources) :
    Speaks names sources (tokens (s.conditionText names)) [] := by
  unfold conditionText
  cases hp : s.condition with
  | none => exact .inert [] (by simp) rfl
  | some p =>
    have hwhere : Speaks names sources (tokens " WHERE ") [] := .inert ["WHERE"] (by decide) rfl
    exact hwhere.text_append (hs.condition p hp) (.inr (by decide))

omit hd hn hc in
theorem speaks_ending {s : Selection} (hs : s.IsWithin names sources) :
    Speaks names sources (tokens s.ending) [] := by
  have horder : Speaks names sources (tokens " ORDER BY ") [] :=
    .inert ["ORDER", "BY"] (by decide) rfl
  have hkeys :
      Speaks names sources (tokens (String.intercalate ", " (s.order.map orderText))) [] := by
    refine Speaks.text_intercalate fun t ht => ?_
    obtain ⟨k, hk, rfl⟩ := List.mem_map.mp ht
    exact speaks_orderText (hs.order k hk)
  unfold ending
  cases s.limit with
  | none =>
    have hnone : Speaks names sources (tokens "") [] := .inert [] (by simp) rfl
    exact horder.text_append (hkeys.text_append hnone (.inl rfl)) (.inr (by decide))
  | some n =>
    have hlimit : Speaks names sources (tokens " LIMIT ") [] := .inert ["LIMIT"] (by decide) rfl
    have hnumber : Speaks names sources (tokens (toString n)) [] :=
      .text_word (isWord_toString n) (.inert _ (by simpa using isInert_toString n)
        (depth_of_unbracketed (by simpa using (isWord_toString n).unbracketed) 0))
    exact horder.text_append (hkeys.text_append (hlimit.text_append hnumber (.inr (by decide)))
      (.inl (startsApart_ofList_append (by decide) _ _))) (.inr (by decide))

omit hd hn hc in
theorem startsApart_ending (s : Selection) : startsApart s.ending.toList = true :=
  startsApart_ofList_append (by decide) _ _

omit hd hn hc in
theorem startsApart_conditionText (s : Selection) :
    startsApart (s.conditionText names ++ s.ending).toList = true := by
  unfold conditionText
  cases s.condition with
  | none => simpa using startsApart_ending s
  | some p =>
    rw [String.append_assoc]
    exact startsApart_ofList_append (by decide) _ _

/-- A selection names the tables of its sources, and mentions columns of theirs alone. -/
theorem speaks_text {s : Selection} (hs : s.IsWithin names sources) :
    Speaks names sources (tokens (s.text names)) (tablesOf names (.company :: s.joins)) := by
  have h := (speaks_opening hd hn hc hs).text_append
    ((speaks_conditionText hs).text_append (speaks_ending hs) (.inl (startsApart_ending s)))
    (.inl (startsApart_conditionText s))
  rwa [List.append_nil, List.append_nil, ← text_eq] at h

omit hd hn hc

theorem letter_injective {s s' : Source} (h : s.letter = s'.letter) : s = s' := by
  revert h
  cases s <;> cases s' <;> decide

theorem lookup_tablesOf {s : Source} (hs : s ∈ sources) :
    (tablesOf names sources).lookup s.letter = some (names.physical s.table) := by
  induction sources with
  | nil => cases hs
  | cons s' rest ih =>
    by_cases hl : s.letter = s'.letter
    · rw [letter_injective hl]
      simp [tablesOf]
    · have hne : s ≠ s' := fun he => hl (congrArg Source.letter he)
      have hother : (s.letter == s'.letter) = false := by simpa using hl
      have hrest := ih ((List.mem_cons.mp hs).resolve_left hne)
      simpa [tablesOf, List.lookup_cons, hother] using hrest

theorem close?_tablesOf (hd : names.AreDistinct) (hnodup : sources.Nodup)
    {ms : List (String × String)} (hm : ∀ m ∈ ms, IsFrom sources m) :
    Level.close? (createdColumns names) ⟨tablesOf names sources, ms⟩ = some [] := by
  have hletters : ((tablesOf names sources).map (·.1)).Nodup := by
    rw [tablesOf, List.map_map]
    exact hnodup.map fun _ _ h => letter_injective h
  have hlookup : ∀ m ∈ ms, ∃ s ∈ sources,
      (tablesOf names sources).lookup m.1 = some (names.physical s.table) ∧
        m.2 ∈ createdColumns names (names.physical s.table) := by
    intro m hmem
    obtain ⟨s, hs, hletter, hcolumn⟩ := hm m hmem
    exact ⟨s, hs, hletter ▸ lookup_tablesOf hs,
      (TableNames.createdColumns_physical hd s.table).symm ▸ hcolumn⟩
  have hagrees : ms.all (Level.agrees (createdColumns names) ⟨tablesOf names sources, ms⟩) =
      true := by
    rw [List.all_eq_true]
    intro m hmem
    obtain ⟨s, -, hl, hcolumn⟩ := hlookup m hmem
    simpa [Level.agrees, hl] using hcolumn
  have hleft : ms.filter (fun m => ((tablesOf names sources).lookup m.1).isNone) = [] := by
    rw [List.filter_eq_nil_iff]
    intro m hmem
    obtain ⟨s, -, hl, -⟩ := hlookup m hmem
    simp [hl]
  simp [Level.close?, hletters, hagrees, hleft]

theorem resolve?_text (hd : names.AreDistinct) (hn : names.IsPlain) {s : Selection}
    (hnodup : (Source.company :: s.joins).Nodup)
    (hs : s.IsWithin names (.company :: s.joins)) :
    resolve? (createdColumns names) (s.text names) =
      some (tablesOf names (.company :: s.joins)) := by
  obtain ⟨ms, hy, hm⟩ := speaks_text hd hn List.mem_cons_self hs
  have hread := hy .empty []
  rw [Level.empty_add] at hread
  rw [resolve?, Names.start, hread]
  simp [close?_tablesOf hd hnodup hm]

end Selection

end EquityScreen
