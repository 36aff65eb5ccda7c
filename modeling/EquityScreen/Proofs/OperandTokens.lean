import EquityScreen.Proofs.PlainNames
import EquityScreen.Proofs.ProperPredicate
import EquityScreen.Proofs.SqlReading

namespace EquityScreen

open Sql

theorem isWord_column : ∀ f ∈ catalog, IsWord f.column := by decide +kernel

theorem isWord_of_mem_periodicColumns {column : String} (h : column ∈ periodicColumns) :
    IsWord column := by
  obtain ⟨f, hf, rfl⟩ := List.mem_map.mp h
  exact isWord_column f (List.mem_filter.mp hf).1

theorem isWord_qualified {f : Field} (hf : f ∈ catalog) : IsWord f.qualified :=
  have hletter : IsWord (f.source.letter ++ ".") := by cases f.source <;> decide
  hletter.append (isWord_column f hf)

theorem isWord_toString (n : Nat) : IsWord (toString n) where
  nonempty := by simp [Nat.toDigits_ne_nil]
  unbroken c hc :=
    isBreak_eq_false (by decide) (Placeholder.isDigit_of_mem_toDigits (n := n) (by simpa using hc))

theorem TableNames.IsPlain.isWord {names : TableNames} (h : names.IsPlain) (t : Table) :
    IsWord (names.physical t) where
  nonempty := h.nonempty t
  unbroken c hc := isBreak_eq_false (by decide) (h.nameChars t c hc)

namespace Trailing

theorem isWord_period (w : Trailing) : IsWord w.period := by
  unfold period
  cases w.unit <;> decide

def tokens (names : TableNames) (w : Trailing) : List String :=
  ["SELECT", "h." ++ w.column, "AS", "v", ",", "h." ++ w.period, "AS", "p", "FROM",
    names.physical w.unit.table, "h", "WHERE", "h.ticker", "=", "c.ticker", "AND",
    "h." ++ w.column, "IS", "NOT", "NULL", "ORDER", "BY", "h." ++ w.period, "DESC", "LIMIT",
    toString w.length]

theorem text_eq (names : TableNames) (w : Trailing) :
    w.text names = "SELECT " ++ (("h." ++ w.column) ++ (" AS v, " ++ (("h." ++ w.period) ++
      (" AS p FROM " ++ (names.physical w.unit.table ++ (" h WHERE h.ticker = c.ticker AND " ++
        (("h." ++ w.column) ++ (" IS NOT NULL ORDER BY " ++ (("h." ++ w.period) ++
          (" DESC LIMIT " ++ toString w.length)))))))))) := by
  have h1 : "SELECT h." = "SELECT " ++ "h." := rfl
  have h2 : " AS v, h." = " AS v, " ++ "h." := rfl
  have h3 : " h WHERE h.ticker = c.ticker AND h." =
      " h WHERE h.ticker = c.ticker AND " ++ "h." := rfl
  have h4 : " IS NOT NULL ORDER BY h." = " IS NOT NULL ORDER BY " ++ "h." := rfl
  unfold text
  rw [h1, h2, h3, h4]
  simp only [String.append_assoc]

theorem tokens_text {maxLength : Nat} {names : TableNames} (hn : names.IsPlain) {w : Trailing}
    (hw : w ∈ Trailing.upTo maxLength) : Sql.tokens (w.text names) = w.tokens names := by
  have hh : IsWord "h." := by decide
  have hc := hh.append (isWord_of_mem_periodicColumns (Trailing.mem_upTo.mp hw).1)
  have hp := hh.append w.isWord_period
  have ht := hn.isWord w.unit.table
  rw [text_eq, tokens_around (by decide) hc (startsApart_ofList_append (by decide) _ _),
    tokens_around (by decide) hp (startsApart_ofList_append (by decide) _ _),
    tokens_around (by decide) ht (startsApart_ofList_append (by decide) _ _),
    tokens_around (by decide) hc (startsApart_ofList_append (by decide) _ _),
    tokens_around (by decide) hp (startsApart_ofList_append (by decide) _ _),
    tokens_ofList_append (by decide), tokens_word (isWord_toString w.length)]
  rfl

theorem depth_tokens {maxLength : Nat} {names : TableNames} (hn : names.IsPlain) {w : Trailing}
    (hw : w ∈ Trailing.upTo maxLength) (d : Nat) : depth d (w.tokens names) = some d := by
  have hh : IsWord "h." := by decide
  have hc := (hh.append (isWord_of_mem_periodicColumns (Trailing.mem_upTo.mp hw).1)).unbracketed
  have hp := (hh.append w.isWord_period).unbracketed
  have ht := (hn.isWord w.unit.table).unbracketed
  have hl := (isWord_toString w.length).unbracketed
  refine depth_of_unbracketed ?_ d
  simp only [tokens, List.forall_mem_cons, ne_eq, hc, hp, ht, hl]
  simp

theorem tokens_injective {names : TableNames} {w w' : Trailing}
    (h : w.tokens names = w'.tokens names) : w = w' := by
  obtain ⟨unit, column, length⟩ := w
  obtain ⟨unit', column', length'⟩ := w'
  simp only [tokens, List.cons.injEq, String.append_right_inj, and_true, true_and] at h
  obtain ⟨hcolumn, hperiod, -, -, -, hlength⟩ := h
  have hu : unit = unit' := by
    change periodColumn unit.table = periodColumn unit'.table at hperiod
    revert hperiod
    cases unit <;> cases unit' <;> decide
  have hl : length = length' := by
    have hd : Nat.toDigits 10 length = Nat.toDigits 10 length' := by
      simpa using congrArg String.toList hlength
    simpa [Placeholder.digitsValue_toDigits] using congrArg Text.digitsValue hd
  rw [hu, hcolumn, hl]

end Trailing

namespace Operand

def opening : Aggregation → List String
  | .avg => ["(", "SELECT", "AVG", "(", "v", ")", "FROM", "("]
  | .sum => ["(", "SELECT", "SUM", "(", "v", ")", "FROM", "("]
  | .latest => ["(", "SELECT", "v", "FROM", "("]
  | .cagr =>
    ["(", "SELECT", "CASE", "WHEN", "n", ">", "1", "AND", "first_v", ">", "0", "AND", "last_v",
      ">=", "0", "THEN", "POWER", "(", "last_v", "*", "1.0", "/", "NULLIF", "(", "first_v", ",",
      "0", ")", ",", "1.0", "/", "(", "n", "-", "1", ")", ")", "-", "1", "END", "FROM", "(",
      "SELECT", "FIRST_VALUE", "(", "v", ")", "OVER", "(", "ORDER", "BY", "p", ")", "AS",
      "first_v", ",", "FIRST_VALUE", "(", "v", ")", "OVER", "(", "ORDER", "BY", "p", "DESC", ")",
      "AS", "last_v", ",", "COUNT", "(", "*", ")", "OVER", "(", ")", "AS", "n", "FROM", "("]

def ending : Aggregation → List String
  | .avg | .sum => [")", "w", ")"]
  | .latest => [")", "w", "ORDER", "BY", "p", "DESC", "LIMIT", "1", ")"]
  | .cagr => [")", "w", ")", "t", "LIMIT", "1", ")"]

def tokens (names : TableNames) : Operand → List String
  | .column f => [f.qualified]
  | .orAnnual f =>
    ["COALESCE", "(", f.qualified, ",", "(", "SELECT", "a." ++ f.column, "FROM",
      names.physical .annual, "a", "WHERE", "a.ticker", "=", "c.ticker", "AND", "a." ++ f.column,
      "IS", "NOT", "NULL", "ORDER", "BY", "a.fiscal_year", "DESC", "LIMIT", "1", ")", ")"]
  | .aggregate a w => opening a ++ w.tokens names ++ ending a

theorem text_orAnnual (names : TableNames) (f : Field) :
    (orAnnual f).text names = "COALESCE(" ++ (f.qualified ++ (", (SELECT " ++ (("a." ++ f.column) ++
      (" FROM " ++ (names.physical .annual ++ (" a WHERE a.ticker = c.ticker AND " ++
        (("a." ++ f.column) ++
          " IS NOT NULL ORDER BY a.fiscal_year DESC LIMIT 1))"))))))) := by
  have h1 : ", (SELECT a." = ", (SELECT " ++ "a." := rfl
  have h2 : " a WHERE a.ticker = c.ticker AND a." =
      " a WHERE a.ticker = c.ticker AND " ++ "a." := rfl
  unfold text
  rw [h1, h2]
  simp only [String.append_assoc]

theorem tokens_text {maxLength : Nat} {names : TableNames} (hn : names.IsPlain) {x : Operand}
    (hx : x ∈ Operand.upTo maxLength) : Sql.tokens (x.text names) = x.tokens names := by
  cases x with
  | column f => exact tokens_word (isWord_qualified (column_mem_upTo.mp hx))
  | orAnnual f =>
    have hf := (orAnnual_mem_upTo.mp hx).1
    have hq := isWord_qualified hf
    have ha : IsWord "a." := by decide
    have hc := ha.append (isWord_column f hf)
    have ht := hn.isWord .annual
    have hlast :
        startsApart " IS NOT NULL ORDER BY a.fiscal_year DESC LIMIT 1))".toList = true := by decide
    rw [text_orAnnual, tokens_around (by decide) hq (startsApart_ofList_append (by decide) _ _),
      tokens_around (by decide) hc (startsApart_ofList_append (by decide) _ _),
      tokens_around (by decide) ht (startsApart_ofList_append (by decide) _ _),
      tokens_around (by decide) hc hlast, tokens_ofList]
    rfl
  | aggregate a w =>
    have hw := Trailing.tokens_text hn (aggregate_mem_upTo.mp hx)
    unfold text aggregateText
    cases a with
    | avg | sum | latest =>
      rw [tokens_append_ofList _ (by decide), tokens_ofList_append (by decide), hw]
      rfl
    | cagr =>
      simp only [String.append_assoc]
      rw [tokens_ofList_append (by decide), tokens_ofList_append (by decide),
        tokens_ofList_append (by decide), tokens_ofList_append (by decide),
        tokens_ofList_append (by decide), tokens_append_ofList _ (by decide), hw]
      simp only [tokens, ← List.append_assoc]
      rfl

theorem qualified_injective : ∀ f ∈ catalog, ∀ f' ∈ catalog, f.qualified = f'.qualified →
    f.source.letter = f'.source.letter ∧ f.column = f'.column := by
  decide +kernel

theorem opening_injective {a a' : Aggregation} {ts ts' : List String}
    (h : opening a ++ ts = opening a' ++ ts') : a = a' := by
  have h2 : (opening a ++ ts)[2]? = (opening a' ++ ts')[2]? := by rw [h]
  cases a <;> cases a' <;> first | rfl | exact absurd h2 (by simp [opening])

/-- Operands of one text are one query; two names may stand for one column. -/
theorem query_eq_of_tokens {maxLength : Nat} {names : TableNames} {x x' : Operand}
    (hx : x ∈ Operand.upTo maxLength) (hx' : x' ∈ Operand.upTo maxLength)
    (h : x.tokens names = x'.tokens names) : x.query = x'.query := by
  cases x with
  | column f =>
    cases x' with
    | column f' =>
      have hq : f.qualified = f'.qualified := List.singleton_inj.mp h
      obtain ⟨hletter, hcolumn⟩ := qualified_injective f (column_mem_upTo.mp hx) f'
        (column_mem_upTo.mp hx') hq
      rw [query, query, hletter, hcolumn]
    | orAnnual f' => simp [tokens] at h
    | aggregate a w => cases a <;> simp [tokens, opening] at h
  | orAnnual f =>
    cases x' with
    | column f' => simp [tokens] at h
    | orAnnual f' =>
      have hq : f.qualified = f'.qualified := by
        simp only [tokens, List.cons.injEq, true_and] at h
        exact h.1
      obtain ⟨hletter, hcolumn⟩ := qualified_injective f (orAnnual_mem_upTo.mp hx).1 f'
        (orAnnual_mem_upTo.mp hx').1 hq
      rw [query, query, hletter, hcolumn]
    | aggregate a w => cases a <;> simp [tokens, opening] at h
  | aggregate a w =>
    cases x' with
    | column f' => cases a <;> simp [tokens, opening] at h
    | orAnnual f' => cases a <;> simp [tokens, opening] at h
    | aggregate a' w' =>
      simp only [tokens, List.append_assoc] at h
      obtain rfl := opening_injective h
      obtain rfl := Trailing.tokens_injective
        (List.append_cancel_right (List.append_cancel_left h))
      rfl

theorem qualified_ne_keyword : ∀ f ∈ catalog,
    f.qualified ∉ ["NOT", "EXISTS", "SELECT", "("] := by
  decide +kernel

theorem startsTest_tokens {maxLength : Nat} {names : TableNames} {x : Operand}
    (hx : x ∈ Operand.upTo maxLength) : StartsTest (x.tokens names) := by
  cases x with
  | column f =>
    have hq := qualified_ne_keyword f (column_mem_upTo.mp hx)
    simp only [List.mem_cons, not_or] at hq
    obtain ⟨hnot, hexists, -, hopen, -⟩ := hq
    exact ⟨by simp [tokens], by simpa [tokens] using hnot, by simpa [tokens] using hexists,
      by simp [tokens, hopen]⟩
  | orAnnual f => constructor <;> simp [tokens]
  | aggregate a w => cases a <;> constructor <;> simp [tokens, opening]

theorem opens_tokens (names : TableNames) {maxLength : Nat} {x : Operand}
    (hx : x ∈ Operand.upTo maxLength) : Opens (x.tokens names) := by
  cases x with
  | column f =>
    have hq := qualified_ne_keyword f (column_mem_upTo.mp hx)
    simp only [List.mem_cons, not_or] at hq
    obtain ⟨-, -, hselect, -⟩ := hq
    exact ⟨by simp [tokens], by simpa [tokens] using hselect⟩
  | orAnnual f => constructor <;> simp [tokens]
  | aggregate a w => cases a <;> constructor <;> simp [tokens, opening]

theorem isBlock_tokens {maxLength : Nat} {names : TableNames} (hn : names.IsPlain) {x : Operand}
    (hx : x ∈ Operand.upTo maxLength) : IsBlock (x.tokens names) := by
  cases x with
  | column f => exact isBlock_word (isWord_qualified (column_mem_upTo.mp hx)).unbracketed.1
  | orAnnual f =>
    have hf := (orAnnual_mem_upTo.mp hx).1
    have ha : IsWord "a." := by decide
    have hq := (isWord_qualified hf).unbracketed
    have hc := (ha.append (isWord_column f hf)).unbracketed
    have ht := (hn.isWord .annual).unbracketed
    have hd : depth 0 [f.qualified, ",", "(", "SELECT", "a." ++ f.column, "FROM",
        names.physical .annual, "a", "WHERE", "a.ticker", "=", "c.ticker", "AND", "a." ++ f.column,
        "IS", "NOT", "NULL", "ORDER", "BY", "a.fiscal_year", "DESC", "LIMIT", "1", ")"] =
        some 0 := by
      simp [depth, hq, hc, ht]
    exact isBlock_call (by decide) hd
  | aggregate a w =>
    have hw := Trailing.depth_tokens hn (aggregate_mem_upTo.mp hx)
    have htokens : tokens names (.aggregate a w) = "(" ::
        ((opening a).tail ++ (w.tokens names ++ (ending a).dropLast)) ++ [")"] := by
      cases a <;> simp [tokens, opening, ending]
    rw [htokens]
    refine isBlock_subquery ?_
    simp only [depth_append, hw]
    cases a <;> rfl

end Operand

namespace Trend

def opening : Trend → List String
  | .increasing | .decreasing =>
    ["EXISTS", "(", "SELECT", "COUNT", "(", "*", ")", "FROM", "(", "SELECT", "v", ",", "LAG", "(",
      "v", ")", "OVER", "(", "ORDER", "BY", "p", ")", "AS", "prev_v", "FROM", "("]
  | .stable =>
    ["EXISTS", "(", "SELECT", "COUNT", "(", "*", ")", "FROM", "(", "SELECT", "v", ",", "AVG", "(",
      "v", ")", "OVER", "(", ")", "AS", "avg_v", "FROM", "("]

def ending : Trend → List String
  | .increasing =>
    ["AND", "SUM", "(", "CASE", "WHEN", "prev_v", "IS", "NOT", "NULL", "AND", "v", "<=", "prev_v",
      "THEN", "1", "ELSE", "0", "END", ")", "=", "0", ")"]
  | .decreasing =>
    ["AND", "SUM", "(", "CASE", "WHEN", "prev_v", "IS", "NOT", "NULL", "AND", "v", ">=", "prev_v",
      "THEN", "1", "ELSE", "0", "END", ")", "=", "0", ")"]
  | .stable =>
    ["AND", "SUM", "(", "CASE", "WHEN", "ABS", "(", "v", "-", "avg_v", ")", ">", "0.1", "*", "ABS",
      "(", "avg_v", ")", "THEN", "1", "ELSE", "0", "END", ")", "=", "0", ")"]

def tokens (names : TableNames) (t : Trend) (w : Trailing) : List String :=
  t.opening ++ (w.tokens names ++ ([")", "w", ")", "t", "HAVING", "COUNT", "(", "*", ")", ">=",
    toString w.length] ++ t.ending))

theorem tokens_text {maxLength : Nat} {names : TableNames} (hn : names.IsPlain) (t : Trend)
    {w : Trailing} (hw : w ∈ Trailing.upTo maxLength) :
    Sql.tokens (Predicate.trendText names t w) = t.tokens names w := by
  have ht := Trailing.tokens_text hn hw
  have hl := isWord_toString w.length
  unfold Predicate.trendText
  cases t with
  | increasing | decreasing =>
    simp only [String.append_assoc]
    rw [tokens_ofList_append (by decide),
      tokens_append (.inl (startsApart_ofList_append (by decide) _ _)), ht,
      tokens_around (by decide) hl (startsApart_ofList_append (by decide) _ _),
      tokens_ofList_append (by decide), tokens_append_ofList _ (by decide), tokens_ofList]
    rfl
  | stable =>
    have hending : startsApart
        " AND SUM(CASE WHEN ABS(v - avg_v) > 0.1 * ABS(avg_v) THEN 1 ELSE 0 END) = 0)".toList =
        true := by
      rw [String.toList_ofList]
      rfl
    simp only [String.append_assoc]
    rw [tokens_ofList_append (by decide),
      tokens_append (.inl (startsApart_ofList_append (by decide) _ _)), ht,
      tokens_around (by decide) hl hending, tokens_ofList]
    rfl

theorem tokens_injective {names : TableNames} {t t' : Trend} {w w' : Trailing}
    (h : t.tokens names w = t'.tokens names w') : t = t' ∧ w = w' := by
  have hopening : t.opening = t'.opening := by
    have h12 : (t.tokens names w)[12]? = (t'.tokens names w')[12]? := by rw [h]
    cases t <;> cases t' <;> first | rfl | exact absurd h12 (by simp [tokens, opening])
  unfold tokens at h
  rw [hopening] at h
  obtain ⟨hw, hrest⟩ := List.append_inj (List.append_cancel_left h) rfl
  obtain rfl := Trailing.tokens_injective hw
  refine ⟨?_, rfl⟩
  have hending := List.append_cancel_left hrest
  revert hending
  cases t <;> cases t' <;> decide

theorem tokens_eq_block (names : TableNames) (t : Trend) (w : Trailing) :
    t.tokens names w = "EXISTS" :: "(" :: (t.opening.drop 2 ++ (w.tokens names ++
      ([")", "w", ")", "t", "HAVING", "COUNT", "(", "*", ")", ">=", toString w.length] ++
        t.ending.dropLast))) ++ [")"] := by
  cases t <;> simp [tokens, opening, ending]

theorem depth_block {maxLength : Nat} {names : TableNames} (hn : names.IsPlain) (t : Trend)
    {w : Trailing} (hw : w ∈ Trailing.upTo maxLength) :
    depth 0 (t.opening.drop 2 ++ (w.tokens names ++
      ([")", "w", ")", "t", "HAVING", "COUNT", "(", "*", ")", ">=", toString w.length] ++
        t.ending.dropLast))) = some 0 := by
  have ht := Trailing.depth_tokens hn hw
  have hmiddle {n : String} (hl : n ≠ "(" ∧ n ≠ ")") :
      depth 2 [")", "w", ")", "t", "HAVING", "COUNT", "(", "*", ")", ">=", n] = some 0 := by
    simp [depth, hl]
  have hopening : depth 0 (t.opening.drop 2) = some 2 := by cases t <;> rfl
  have hending : depth 0 t.ending.dropLast = some 0 := by cases t <;> rfl
  rw [depth_append, hopening, Option.bind_some, depth_append, ht, Option.bind_some, depth_append,
    hmiddle (isWord_toString w.length).unbracketed, Option.bind_some, hending]

end Trend

end EquityScreen
