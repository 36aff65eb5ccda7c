import EquityScreen.Proofs.ResolvedNames
import EquityScreen.Proofs.RowBounds

namespace EquityScreen

open Sql

variable {names : TableNames} {maxLength : Nat}

theorem isNeutral_of_point {w : String} (h : '.' ∈ w.toList) : IsNeutral w :=
  isNeutral_of_mem h (by decide)

theorem isNeutral_qualified (f : Field) : IsNeutral f.qualified :=
  isNeutral_of_point (by simp [Field.qualified])

theorem isNeutral_placeholder (n : Nat) : IsNeutral (Predicate.placeholder n) :=
  isNeutral_of_mem (c := '$') (by simp [Predicate.placeholder]) (by decide)

theorem Trailing.sets_tokens (hn : names.IsPlain) (w : Trailing) :
    Sets 1 1 (w.tokens names) [⟨limitPhrase, 1, toString w.length⟩] := by
  have hcolumn : Encloses 0 1 1 ["h." ++ w.column] := .word (isNeutral_of_point (by simp))
  have hperiod : Encloses 0 1 1 ["h." ++ w.period] := .word (isNeutral_of_point (by simp))
  have htable : Encloses 0 1 1 ["FROM", names.physical w.unit.table] :=
    .quiet (sets_table (hn.isWord w.unit.table).unbracketed.1)
  have hwords (ws : List String) (h : ∀ w ∈ ws, IsNeutral w) : Encloses 0 1 1 ws := .neutral ws h
  have hquery := (hwords ["SELECT"] (by decide)).append <| hcolumn.append <|
    (hwords ["AS", "v", ","] (by decide)).append <| hperiod.append <|
    (hwords ["AS", "p"] (by decide)).append <| htable.append <|
    (hwords ["h", "WHERE", "h.ticker", "=", "c.ticker", "AND"] (by decide)).append <|
    hcolumn.append <| (hwords ["IS", "NOT", "NULL", "ORDER", "BY"] (by decide)).append <|
    hperiod.append (hwords ["DESC"] (by decide))
  exact hquery.sets.append (sets_bound (.inl rfl) (toString w.length))

theorem isWithin_length {w : Trailing} (hw : w ∈ Trailing.upTo maxLength) (phrase : List String)
    {k : Int} (hk : 0 < k) : RowBound.IsWithin maxLength ⟨phrase, k, toString w.length⟩ :=
  ⟨hk, w.length, rfl, (Trailing.mem_upTo.mp hw).2⟩

/-- The bounds of a trend are the length of its window, once as a limit and once as the number of
rows that the window has to have. -/
theorem Trend.sets_tokens (hn : names.IsPlain) (t : Trend) (w : Trailing) :
    Sets 0 0 (t.tokens names w)
      [⟨limitPhrase, 3, toString w.length⟩, ⟨countPhrase, 1, toString w.length⟩] := by
  have hwindow := (Trailing.sets_tokens hn w).deepen 2
  have hopening : Sets 0 3 t.opening [] := by cases t <;> decide +kernel
  have hnamed : Sets 3 1 [")", "w", ")", "t", "HAVING"] [] := by decide +kernel
  have hlength : Sets 1 1 (countPhrase ++ [toString w.length]) _ := sets_bound (.inr rfl) _
  have hending : Sets 1 0 t.ending [] := by cases t <;> decide +kernel
  exact hopening.append (hwindow.append ((hnamed.append hlength).append hending))

theorem Trend.encloses_tokens (hn : names.IsPlain) (t : Trend) {w : Trailing}
    (hw : w ∈ Trailing.upTo maxLength) : Encloses maxLength 0 0 (t.tokens names w) :=
  ⟨_, sets_tokens hn t w, List.forall_mem_cons.mpr ⟨isWithin_length hw _ (by decide),
    List.forall_mem_singleton.mpr (isWithin_length hw _ (by decide))⟩⟩

namespace Predicate

theorem encloses_test (ws : List String) (h : ∀ w ∈ ws, IsNeutral w) (n : Nat) :
    Encloses maxLength 0 0 (ws ++ [placeholder n]) :=
  (Encloses.neutral ws h).append (.word (isNeutral_placeholder n))

theorem encloses_operator (op : Operator) (n : Nat) :
    Encloses maxLength 0 0 [op.sql, placeholder n] :=
  encloses_test [op.sql] (by cases op <;> decide) n

theorem encloses_more (c : Connective) {tss : List (List String)}
    (h : ∀ ts ∈ tss, Encloses maxLength 0 0 ts) : Encloses maxLength 0 0 (more c tss) := by
  induction tss with
  | nil => exact .quiet rfl
  | cons ts tss ih =>
    obtain ⟨hts, hrest⟩ := List.forall_mem_cons.mp h
    have hc : Encloses maxLength 0 0 [c.upper] := .word (by cases c <;> decide)
    exact (hc.append hts).append (ih hrest)

theorem encloses_joined (c : Connective) {tss : List (List String)}
    (h : ∀ ts ∈ tss, Encloses maxLength 0 0 ts) : Encloses maxLength 0 0 (joined c tss) := by
  cases tss with
  | nil => exact .quiet rfl
  | cons ts tss =>
    obtain ⟨hts, hrest⟩ := List.forall_mem_cons.mp h
    exact hts.append (encloses_more c hrest)

end Predicate

section

variable (hmax : 1 ≤ maxLength)

include hmax

theorem encloses_newest {k : Int} (hk : 0 < k) : Encloses maxLength k k ["LIMIT", "1"] := by
  have hone : Encloses maxLength k k (limitPhrase ++ [toString 1]) :=
    .bound (.inl rfl) hk (le_refl 1) hmax
  exact hone

namespace Operand

theorem encloses_orAnnual (hn : names.IsPlain) (f : Field) :
    Encloses maxLength 0 0 ((orAnnual f).tokens names) := by
  have hfield {k : Int} : Encloses maxLength k k [f.qualified] := .word (isNeutral_qualified f)
  have hcolumn : Encloses maxLength 2 2 ["a." ++ f.column] :=
    .word (isNeutral_of_point (by simp))
  have htable : Encloses maxLength 2 2 ["FROM", names.physical .annual] :=
    .quiet (sets_table (hn.isWord .annual).unbracketed.1)
  have hwords (ws : List String) (h : ∀ w ∈ ws, IsNeutral w) : Encloses maxLength 2 2 ws :=
    .neutral ws h
  have hopening : Encloses maxLength 0 1 ["COALESCE", "("] := .quiet (by decide +kernel)
  have hquery : Encloses maxLength 1 2 [",", "(", "SELECT"] := .quiet (by decide +kernel)
  have hending : Encloses maxLength 2 0 [")", ")"] := .quiet (by decide +kernel)
  exact hopening.append <| hfield.append <| hquery.append <| hcolumn.append <| htable.append <|
    (hwords ["a", "WHERE", "a.ticker", "=", "c.ticker", "AND"] (by decide)).append <|
    hcolumn.append <|
    (hwords ["IS", "NOT", "NULL", "ORDER", "BY", "a.fiscal_year", "DESC"] (by decide)).append <|
    (encloses_newest hmax (by decide)).append hending

/-- The window of an aggregate stands in parentheses, and further bounds of it at most select the
newest value. -/
theorem encloses_ending (a : Aggregation) :
    ∃ d : Nat, Sets 0 (1 + d) (opening a) [] ∧ Encloses maxLength (1 + d) 0 (ending a) := by
  have hnewest : Encloses maxLength 1 1 ["LIMIT", "1"] := encloses_newest hmax (by decide)
  have hclose : Encloses maxLength 1 0 [")"] := .quiet (by decide +kernel)
  cases a with
  | avg => exact ⟨1, by decide +kernel, .quiet (by decide +kernel)⟩
  | sum => exact ⟨1, by decide +kernel, .quiet (by decide +kernel)⟩
  | latest =>
    have hsorted : Encloses maxLength 2 1 [")", "w", "ORDER", "BY", "p", "DESC"] :=
      .quiet (by decide +kernel)
    exact ⟨1, by decide +kernel, hsorted.append (hnewest.append hclose)⟩
  | cagr =>
    have hnamed : Encloses maxLength 3 1 [")", "w", ")", "t"] := .quiet (by decide +kernel)
    exact ⟨2, by decide +kernel, hnamed.append (hnewest.append hclose)⟩

theorem sets_aggregate (hn : names.IsPlain) (a : Aggregation) {w : Trailing}
    (hw : w ∈ Trailing.upTo maxLength) :
    ∃ d bs, Sets 0 0 ((aggregate a w).tokens names) (⟨limitPhrase, d, toString w.length⟩ :: bs) ∧
      ∀ b ∈ (⟨limitPhrase, d, toString w.length⟩ : RowBound) :: bs, b.IsWithin maxLength := by
  obtain ⟨d, hopening, bs, hending, hb⟩ := encloses_ending hmax a
  have hwindow := (Trailing.sets_tokens hn w).deepen d
  exact ⟨1 + d, bs, (hopening.append hwindow).append hending,
    List.forall_mem_cons.mpr ⟨isWithin_length hw _ (by omega), hb⟩⟩

theorem encloses_tokens (hn : names.IsPlain) {x : Operand} (hx : x ∈ Operand.upTo maxLength) :
    Encloses maxLength 0 0 (x.tokens names) := by
  cases x with
  | column f => exact .word (isNeutral_qualified f)
  | orAnnual f => exact encloses_orAnnual hmax hn f
  | aggregate a w =>
    obtain ⟨d, bs, hsets, hb⟩ := sets_aggregate hmax hn a (aggregate_mem_upTo.mp hx)
    exact ⟨_, hsets, hb⟩

end Operand

namespace Predicate

/-- The bounds in a predicate stand in parentheses and are lengths of windows or one. -/
theorem encloses_tokens (hn : names.IsPlain) {p : Predicate} (hp : p.IsProper maxLength) :
    Encloses maxLength 0 0 (p.tokens names) := by
  induction p using Predicate.induction with
  | compare x op n => exact (Operand.encloses_tokens hmax hn hp).append (encloses_operator op n)
  | between x low high =>
    exact (Operand.encloses_tokens hmax hn hp).append
      ((encloses_test ["BETWEEN"] (by decide) low).append (encloses_test ["AND"] (by decide) high))
  | inside x low high =>
    have hx := Operand.encloses_tokens hmax hn hp
    exact ((hx.append (encloses_operator .gt low)).append
      (encloses_more .and (List.forall_mem_singleton.mpr
        (hx.append (encloses_operator .lt high))))).parens
  | present f p ih =>
    have htest : Encloses maxLength 0 0 [f.qualified, "IS", "NOT", "NULL"] :=
      (Encloses.word (isNeutral_qualified f)).append (.neutral _ (by decide))
    exact (htest.append (encloses_more .and (List.forall_mem_singleton.mpr (ih hp.2)))).parens
  | missingOr f p ih =>
    have htest : Encloses maxLength 0 0 [f.qualified, "IS", "NULL"] :=
      (Encloses.word (isNeutral_qualified f)).append (.neutral _ (by decide))
    exact (htest.append (encloses_more .or (List.forall_mem_singleton.mpr (ih hp.2)))).parens
  | trend t w => exact Trend.encloses_tokens hn t hp
  | group c ps ih =>
    have hps := (isProper_group.mp hp).2
    rw [tokens, tokensOfAll_eq_map]
    exact (encloses_joined c (List.forall_mem_map.mpr fun p hp => ih p hp (hps p hp))).parens
  | not p ih => exact (Encloses.neutral ["NOT"] (by decide)).append (ih hp).parens

/-- The text of a predicate has a number of rows as a limit. -/
def IsLimitedTo (names : TableNames) (length : Nat) (p : Predicate) : Prop :=
  ∃ b ∈ rowBounds (p.text names), b.phrase = limitPhrase ∧ b.word = toString length

omit hmax in
theorem isLimitedTo_of_sets (hn : names.IsPlain) {p : Predicate} (hp : p.IsProper maxLength)
    {length : Nat} {d : Int} {bs : List RowBound}
    (h : Sets 0 0 (p.tokens names) (⟨limitPhrase, d, toString length⟩ :: bs)) :
    p.IsLimitedTo names length := by
  rw [← tokens_text hn hp] at h
  exact ⟨_, rowBounds_of_sets h ▸ List.mem_cons_self, rfl, rfl⟩

theorem isLimitedTo_compare (hn : names.IsPlain) (a : Aggregation) {w : Trailing}
    (hw : w ∈ Trailing.upTo maxLength) (op : Operator) (n : Nat) :
    (compare (.aggregate a w) op n).IsLimitedTo names w.length := by
  have hproper : (compare (.aggregate a w) op n).IsProper maxLength :=
    Operand.aggregate_mem_upTo.mpr hw
  obtain ⟨d, bs, hsets, -⟩ := Operand.sets_aggregate hmax hn a hw
  have htest : Encloses 0 0 0 [op.sql, placeholder n] := encloses_operator op n
  exact isLimitedTo_of_sets hn hproper (hsets.append htest.sets)

omit hmax in
theorem isLimitedTo_trend (hn : names.IsPlain) (t : Trend) {w : Trailing}
    (hw : w ∈ Trailing.upTo maxLength) : (trend t w).IsLimitedTo names w.length := by
  have hproper : (trend t w).IsProper maxLength := hw
  exact isLimitedTo_of_sets hn hproper (Trend.sets_tokens hn t w)

end Predicate

end

namespace Selection

theorem isNeutral_of_quote {w : String} (h : '"' ∈ w.toList) : IsNeutral w :=
  isNeutral_of_mem h (by decide)

theorem isNeutral_quoted (name : String) : IsNeutral (quoted name) :=
  isNeutral_of_quote (by simp [quoted])

theorem isNeutral_quotedTable (name : String) : IsNeutral (quotedTable name) := by
  simp only [quotedTable]
  split
  · exact isNeutral_quoted name
  · exact isNeutral_of_point (by simp)

theorem isNeutral_columnText (s : Source) (column : String) : IsNeutral (columnText s column) :=
  isNeutral_of_point (by simp [columnText])

theorem encloses_columnText {s : Source} {column : String} (h : IsWord (columnText s column)) :
    Encloses maxLength 0 0 (tokens (columnText s column)) :=
  .text_word h (isNeutral_columnText s column)

theorem encloses_shownText {f : Field} (hf : f ∈ catalog) :
    Encloses maxLength 0 0 (tokens (shownText f)) := by
  have hcolumn : Encloses maxLength 0 0 (tokens (columnText f.source f.column)) :=
    encloses_columnText (columnText_spec f.source (column_mem_columns f hf)).1
  have has : Encloses maxLength 0 0 (tokens " AS ") := .neutral ["AS"] (by decide)
  have hname : Encloses maxLength 0 0 (tokens (quoted f.name)) :=
    .text_word (quoted_spec (isPlain_name f hf)).1 (isNeutral_quoted f.name)
  rw [shownText, String.append_assoc]
  exact hcolumn.text_append (has.text_append hname (.inr (by decide)))
    (.inl (startsApart_ofList_append (by decide) _ _))

theorem encloses_orderText {k : OrderKey} (h : IsWord (columnText k.source k.column)) :
    Encloses maxLength 0 0 (tokens (orderText k)) := by
  have hcolumn : Encloses maxLength 0 0 (tokens (columnText k.source k.column)) :=
    encloses_columnText h
  unfold orderText
  cases k.direction with
  | ascending =>
    have hasc : Encloses maxLength 0 0 (tokens " ASC") := .neutral ["ASC"] (by decide)
    exact hcolumn.text_append hasc (.inl (by decide))
  | descending =>
    have hdesc : Encloses maxLength 0 0 (tokens " DESC") := .neutral ["DESC"] (by decide)
    exact hcolumn.text_append hdesc (.inl (by decide))

variable (hn : names.IsPlain)

include hn

theorem encloses_clause {keyword : String} (hk : keyword = "FROM" ∨ keyword = "JOIN") (s : Source) :
    Encloses maxLength 0 0 (tokens (clauseText names keyword s)) := by
  have htable := isNeutral_quotedTable (names.physical s.table)
  have hopen : quotedTable (names.physical s.table) ≠ "(" := by
    intro h
    rw [h] at htable
    exact absurd htable (by decide)
  have hnamed : Encloses maxLength 0 0 ["AS", quoted s.letter] :=
    .neutral _ (List.forall_mem_cons.mpr
      ⟨by decide, List.forall_mem_singleton.mpr (isNeutral_quoted s.letter)⟩)
  rw [tokens_clauseText hn hk]
  obtain rfl | rfl := hk
  · exact (Encloses.quiet (sets_table hopen)).append hnamed
  · exact (Encloses.neutral ["JOIN"] (by decide)).append ((Encloses.word htable).append hnamed)

theorem encloses_onText (s : Source) : Encloses maxLength 0 0 (tokens (onText names s)) := by
  have htable : Encloses maxLength 0 0 ["FROM", names.physical .quarterly] :=
    .quiet (sets_table (hn.isWord .quarterly).unbracketed.1)
  have hperiod : Encloses maxLength 0 0 ["SELECT", "MAX", "(", "q.fiscal_period", ")"] :=
    .quiet (by decide +kernel)
  have hsame : Encloses maxLength 0 0 [s.letter ++ ".ticker", "=", "c.ticker"] :=
    (Encloses.word (isNeutral_of_point (by simp))).append (.neutral _ (by decide))
  have hnewest := (hperiod.append (htable.append
    (.neutral ["q", "WHERE", "q.ticker", "=", "c.ticker"] (by decide)))).parens
  rw [tokens_onText hn]
  refine (Encloses.neutral ["ON"] (by decide)).append (hsame.append ?_)
  cases s with
  | company | ownership => exact .quiet rfl
  | fundamentals =>
    exact (Encloses.neutral ["AND", "f.fiscal_period", "="] (by decide)).append hnewest

theorem encloses_joins (joins : List Source) :
    Encloses maxLength 0 0 (tokens (String.join (joins.map (joinText names)))) := by
  induction joins with
  | nil => exact .quiet rfl
  | cons s rest ih =>
    have hleft : Encloses maxLength 0 0 (tokens " LEFT") := .neutral ["LEFT"] (by decide)
    have hon : startsApart (onText names s).toList = true :=
      startsApart_ofList_append (by decide) _ _
    have hjoin : Encloses maxLength 0 0 (tokens (joinText names s)) := by
      rw [joinText_eq]
      exact hleft.text_append
        ((encloses_clause hn (.inr rfl) s).text_append (encloses_onText hn s) (.inl hon))
        (.inl (startsApart_clauseText _ _ _))
    rw [List.map_cons, String.join_cons]
    exact hjoin.text_append ih (.inl (startsApart_joins rest))

theorem encloses_opening {s : Selection} (hshown : ∀ f ∈ s.shown, f ∈ catalog) :
    Encloses maxLength 0 0 (tokens (s.opening names)) := by
  have hselect : Encloses maxLength 0 0 (tokens "SELECT ") := .neutral ["SELECT"] (by decide)
  have hcolumns : Encloses maxLength 0 0 (tokens (String.intercalate ", "
      (baseColumns.map (columnText .company) ++ s.shown.map shownText))) := by
    refine Encloses.text_intercalate (List.forall_mem_append.mpr
      ⟨List.forall_mem_map.mpr fun column hc => ?_, List.forall_mem_map.mpr fun f hf => ?_⟩)
    · exact encloses_columnText (columnText_spec .company (base_mem_columns column hc)).1
    · exact encloses_shownText (hshown f hf)
  rw [opening_eq]
  exact hselect.text_append (hcolumns.text_append
    ((encloses_clause hn (.inl rfl) .company).text_append (encloses_joins hn s.joins)
      (.inl (startsApart_joins s.joins))) (.inl (startsApart_clauseText _ _ _))) (.inr (by decide))

def outerBounds (s : Selection) : List RowBound :=
  (s.limit.map fun n => ⟨limitPhrase, 0, toString n⟩).toList

omit hn in
theorem sets_ending {s : Selection}
    (horder : ∀ k ∈ s.order, IsWord (columnText k.source k.column)) :
    Sets 0 0 (tokens s.ending) s.outerBounds := by
  have hby : Encloses 0 0 0 (tokens " ORDER BY ") := .neutral ["ORDER", "BY"] (by decide)
  have hkeys : Encloses 0 0 0 (tokens (String.intercalate ", " (s.order.map orderText))) :=
    Encloses.text_intercalate (List.forall_mem_map.mpr fun k hk => encloses_orderText (horder k hk))
  unfold ending outerBounds
  cases s.limit with
  | none =>
    exact (hby.text_append (hkeys.text_append (t := "") (.quiet rfl) (.inl rfl))
      (.inr (by decide))).sets
  | some n =>
    have hlimit : tokens (" LIMIT " ++ toString n) = limitPhrase ++ [toString n] := by
      rw [tokens_ofList_append (by decide), tokens_word (isWord_toString n)]
      rfl
    have hapart : startsApart (" LIMIT " ++ toString n).toList = true :=
      startsApart_ofList_append (by decide) _ _
    rw [tokens_append (.inr (by decide)), tokens_append (.inl hapart), hlimit]
    exact hby.sets.append (hkeys.sets.append (sets_bound (.inl rfl) _))

theorem rowBounds_text (hmax : 1 ≤ maxLength) {s : Selection}
    (hshown : ∀ f ∈ s.shown, f ∈ catalog) (hcondition : ∀ p ∈ s.condition, p.IsProper maxLength)
    (horder : ∀ k ∈ s.order, IsWord (columnText k.source k.column)) :
    ∃ inner, rowBounds (s.text names) = inner ++ s.outerBounds ∧
      ∀ b ∈ inner, b.IsWithin maxLength := by
  have hcond : Encloses maxLength 0 0 (tokens (s.conditionText names)) := by
    unfold conditionText
    cases hp : s.condition with
    | none => exact .quiet rfl
    | some p =>
      have hwhere : Encloses maxLength 0 0 (tokens " WHERE ") := .neutral ["WHERE"] (by decide)
      have hproper := hcondition p hp
      rw [tokens_append (.inr (by decide)), Predicate.tokens_text hn hproper]
      exact hwhere.append (Predicate.encloses_tokens hmax hn hproper)
  obtain ⟨inner, hsets, hwithin⟩ := (encloses_opening hn hshown).append hcond
  refine ⟨inner, rowBounds_of_sets (l := 0) ?_, hwithin⟩
  rw [text_eq, tokens_append (.inl (startsApart_conditionText s)),
    tokens_append (.inl (startsApart_ending s)), ← List.append_assoc]
  exact hsets.append (sets_ending horder)

end Selection

namespace Statement

variable {α : Type}

theorem tokens_newestText {table period only : String} {columns : List String}
    (ht : IsWord (quotedTable table)) (hp : IsWord (quoted period))
    (hs : startsApart only.toList = true) :
    tokens (newestText table columns period only) =
      "SELECT" :: (tokens (String.intercalate ", " ((period :: columns).map quoted)) ++
        (["FROM", quotedTable table] ++ (["WHERE", quoted tickerColumn, "=", "$1"] ++
          (tokens only ++
            (["ORDER", "BY", quoted period, "DESC"] ++ (limitPhrase ++ ["$2"])))))) := by
  have hticker : IsWord (quoted tickerColumn) := by decide
  have hlast : startsApart " DESC LIMIT $2".toList = true := by decide
  have hend : startsApart (" ORDER BY " ++ (quoted period ++ " DESC LIMIT $2")).toList = true :=
    startsApart_ofList_append (by decide) _ _
  unfold newestText
  simp only [String.append_assoc]
  rw [tokens_ofList_append (by decide),
    tokens_append (.inl (startsApart_ofList_append (by decide) _ _)),
    tokens_around (by decide) ht (startsApart_ofList_append (by decide) _ _),
    tokens_around (by decide) hticker (startsApart_ofList_append (by decide) _ _),
    tokens_append (.inl (startsApart_append hs hend)), tokens_append (.inl hend),
    tokens_around (by decide) hp hlast, tokens_ofList, tokens_ofList]
  rfl

theorem rowBounds_newestText (hn : names.IsPlain) {t : Table} {columns : List String}
    (hc : ∀ c ∈ columns, c ∈ (Schema.columns t).map (·.name))
    (hp : periodColumn t ∈ (Schema.columns t).map (·.name)) {only : String}
    (ho : Encloses 0 0 0 (tokens only)) (hs : startsApart only.toList = true) :
    rowBounds (newestText (names.physical t) columns (periodColumn t) only) =
      [⟨limitPhrase, 0, Predicate.placeholder 2⟩] := by
  have htable := (hn.quotedTable_spec t).1
  have hplain : ∀ c ∈ periodColumn t :: columns, isPlain c = true :=
    List.forall_mem_cons.mpr ⟨isPlain_of_mem_columns t _ hp,
      fun c h => isPlain_of_mem_columns t c (hc c h)⟩
  have hperiod := (quoted_spec (isPlain_of_mem_columns t _ hp)).1
  have hcolumns : Encloses 0 0 0
      (tokens (String.intercalate ", " ((periodColumn t :: columns).map quoted))) :=
    Encloses.text_intercalate (List.forall_mem_map.mpr fun c h =>
      .text_word (quoted_spec (hplain c h)).1 (Selection.isNeutral_quoted c))
  have hselect : Encloses 0 0 0 ["SELECT"] := .neutral _ (by decide)
  have hfrom : Encloses 0 0 0 ["FROM", quotedTable (names.physical t)] :=
    .quiet (sets_table htable.unbracketed.1)
  have hwhere : Encloses 0 0 0 ["WHERE", quoted tickerColumn, "=", "$1"] := .neutral _ (by decide)
  have horder : Encloses 0 0 0 ["ORDER", "BY", quoted (periodColumn t), "DESC"] :=
    (Encloses.neutral ["ORDER", "BY"] (by decide)).append
      ((Encloses.word (Selection.isNeutral_quoted _)).append (.neutral ["DESC"] (by decide)))
  have hlimit : Sets 0 0 (limitPhrase ++ ["$2"]) _ := sets_bound (.inl rfl) "$2"
  refine rowBounds_of_sets (l := 0) ?_
  rw [tokens_newestText htable hperiod hs]
  exact hselect.sets.append (hcolumns.sets.append (hfrom.sets.append (hwhere.sets.append
    (ho.sets.append (horder.sets.append hlimit)))))

theorem rowBounds_text (hn : names.IsPlain) {t : Table} {st : Statement α} (h : st.IsOf t) :
    rowBounds (st.text names) = [⟨limitPhrase, 0, Predicate.placeholder 2⟩] := by
  cases st with
  | candidates s params => exact h.elim
  | facts unit columns ticker length =>
    obtain ⟨rfl, hc⟩ := h
    exact rowBounds_newestText hn hc (period_mem_columns unit) (.quiet rfl) rfl
  | cashFlows ticker length =>
    obtain rfl := h
    refine rowBounds_newestText hn (List.forall_mem_singleton.mpr (by decide)) (by decide) ?_
      (by decide)
    exact .neutral ["AND", quoted cashFlowColumn, "IS", "NOT", "NULL"] (by decide)

end Statement

end EquityScreen
