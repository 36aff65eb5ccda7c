import EquityScreen.Proofs.OperandTokens
import EquityScreen.Proofs.PredicatePlaceholders

namespace EquityScreen

open Sql

def Sql.joined (c : Connective) : List (List String) → List String
  | [] => []
  | ts :: tss => ts ++ more c tss

namespace Predicate

mutual

def tokens (names : TableNames) : Predicate → List String
  | .compare x op n => x.tokens names ++ [op.sql, placeholder n]
  | .between x low high =>
    x.tokens names ++ ["BETWEEN", placeholder low, "AND", placeholder high]
  | .inside x low high =>
    "(" :: (x.tokens names ++ [">", placeholder low] ++
      more .and [x.tokens names ++ ["<", placeholder high]]) ++ [")"]
  | .present f p =>
    "(" :: ([f.qualified, "IS", "NOT", "NULL"] ++ more .and [p.tokens names]) ++ [")"]
  | .missingOr f p => "(" :: ([f.qualified, "IS", "NULL"] ++ more .or [p.tokens names]) ++ [")"]
  | .trend t w => t.tokens names w
  | .group c ps => "(" :: joined c (tokensOfAll names ps) ++ [")"]
  | .not p => "NOT" :: ("(" :: p.tokens names ++ [")"])

def tokensOfAll (names : TableNames) : List Predicate → List (List String)
  | [] => []
  | p :: rest => p.tokens names :: tokensOfAll names rest

end

theorem tokensOfAll_eq_map (names : TableNames) (ps : List Predicate) :
    tokensOfAll names ps = ps.map (tokens names) := by
  induction ps with
  | nil => rfl
  | cons p rest ih => simp [tokensOfAll, ih]

theorem isWord_placeholder (n : Nat) : IsWord (placeholder n) :=
  have hdollar : IsWord "$" := by decide
  hdollar.append (isWord_toString n)

theorem isWord_sql (op : Operator) : IsWord op.sql := by cases op <;> decide

theorem tokens_comparison (left : String) {op right : String} (ho : IsWord op)
    (hr : IsWord right) :
    Sql.tokens (comparison left op right) = Sql.tokens left ++ [op, right] := by
  unfold comparison
  simp only [String.append_assoc]
  rw [tokens_append (.inl (startsApart_ofList_append (by decide) _ _)),
    tokens_around (by decide) ho (startsApart_ofList_append (by decide) _ _),
    tokens_ofList_append (by decide), tokens_word hr]
  rfl

theorem tokens_guarded {q : String} (hq : IsWord q) {c : Char} (hc : isBreak c = true)
    {cs : List Char} (h : startsApart (c :: cs).reverse = true) (inner : String) :
    Sql.tokens ("(" ++ (q ++ (String.ofList (c :: cs) ++ (inner ++ ")")))) =
      "(" :: q :: ((split (c :: cs)).map String.ofList ++ (Sql.tokens inner ++ [")"])) := by
  rw [tokens_around (by decide) hq (startsApart_ofList_append hc _ _), tokens_ofList_append h,
    tokens_append_ofList _ (by decide)]
  rfl

theorem tokens_intercalate (c : Connective) (ts : List String) :
    Sql.tokens (String.intercalate (" " ++ c.upper ++ " ") ts) = joined c (ts.map Sql.tokens) := by
  induction ts with
  | nil => rfl
  | cons t rest ih =>
    cases rest with
    | nil => simp [joined, more]
    | cons u rest =>
      have hc : IsWord c.upper := by cases c <;> decide
      rw [String.intercalate_cons_cons, String.append_assoc, String.append_assoc,
        String.append_assoc, tokens_append (.inl (startsApart_ofList_append (by decide) _ _)),
        tokens_around (by decide) hc (startsApart_ofList_append (by decide) _ _),
        tokens_ofList_append (by decide), ih]
      rfl

theorem tokens_text {maxLength : Nat} {names : TableNames} (hn : names.IsPlain) {p : Predicate}
    (hp : p.IsProper maxLength) : Sql.tokens (p.text names) = p.tokens names := by
  induction p using Predicate.induction with
  | compare x op n =>
    rw [text, tokens_comparison _ (isWord_sql op) (isWord_placeholder n), tokens,
      Operand.tokens_text hn hp]
  | between x low high =>
    have hlow := isWord_placeholder low
    have hhigh := isWord_placeholder high
    rw [text, tokens, ← Operand.tokens_text hn hp]
    simp only [String.append_assoc]
    rw [tokens_append (.inl (startsApart_ofList_append (by decide) _ _)),
      tokens_around (by decide) hlow (startsApart_ofList_append (by decide) _ _),
      tokens_ofList_append (by decide), tokens_word hhigh]
    rfl
  | inside x low high =>
    have hlow := isWord_placeholder low
    have hhigh := isWord_placeholder high
    rw [text, tokens, ← Operand.tokens_text hn hp]
    simp only [String.append_assoc]
    rw [tokens_ofList_append (by decide),
      tokens_append (.inl (startsApart_ofList_append (by decide) _ _)),
      tokens_comparison _ (by decide) hlow, tokens_ofList_append (by decide),
      tokens_append_ofList _ (by decide), tokens_comparison _ (by decide) hhigh]
    simp only [more, List.flatMap_cons, List.flatMap_nil, List.append_nil, List.cons_append,
      List.append_assoc]
    rfl
  | present f p ih =>
    rw [text, tokens, ← ih hp.2]
    simp only [String.append_assoc]
    rw [tokens_guarded (isWord_qualified hp.1) (by decide) (by decide)]
    simp only [more, List.flatMap_cons, List.flatMap_nil, List.append_nil, List.cons_append,
      List.append_assoc]
    rfl
  | missingOr f p ih =>
    rw [text, tokens, ← ih hp.2]
    simp only [String.append_assoc]
    rw [tokens_guarded (isWord_qualified hp.1) (by decide) (by decide)]
    simp only [more, List.flatMap_cons, List.flatMap_nil, List.append_nil, List.cons_append,
      List.append_assoc]
    rfl
  | trend t w => exact Trend.tokens_text hn t hp
  | group c ps ih =>
    have hps := (isProper_group.mp hp).2
    have hmap : (ps.map (text names)).map Sql.tokens = ps.map (tokens names) := by
      rw [List.map_map]
      exact List.map_congr_left fun p hp => ih p hp (hps p hp)
    rw [text, tokens, String.append_assoc, tokens_ofList_append (by decide),
      tokens_append_ofList _ (by decide), tokens_intercalate, texts_eq_map, hmap,
      tokensOfAll_eq_map]
    rfl
  | not p ih =>
    rw [text, tokens, String.append_assoc, tokens_ofList_append (by decide),
      tokens_append_ofList _ (by decide), ih hp]
    rfl

theorem opens_tokens {maxLength : Nat} {names : TableNames} {p : Predicate}
    (hp : p.IsProper maxLength) : Opens (p.tokens names) := by
  cases p with
  | compare x op n =>
    rw [tokens]
    exact (Operand.opens_tokens names hp).append _
  | between x low high =>
    rw [tokens]
    exact (Operand.opens_tokens names hp).append _
  | trend t w => cases t <;> constructor <;> simp [tokens, Trend.tokens, Trend.opening]
  | inside | present | missingOr | group | not => constructor <;> simp [tokens]

end Predicate

namespace Sql

/-- Every trend over every window of at most so many periods. -/
def trendsUpTo (maxLength : Nat) : List (Trend × Trailing) :=
  [Trend.increasing, .decreasing, .stable].flatMap fun t =>
    (Trailing.upTo maxLength).map fun w => (t, w)

theorem mem_trendsUpTo {maxLength : Nat} {t : Trend} {w : Trailing} :
    (t, w) ∈ trendsUpTo maxLength ↔ w ∈ Trailing.upTo maxLength := by
  cases t <;> simp [trendsUpTo]

/-- Operands and trends over windows of at most so many periods, known by the texts of their
clauses. -/
def scopeOf (names : TableNames) (maxLength : Nat) : Scope where
  comparand? ts :=
    ((Operand.upTo maxLength).map Operand.query).find? fun x => tokens (x.text names) = ts
  trend? ts := (trendsUpTo maxLength).find? fun t => tokens ((t.1.query t.2).text names) = ts

variable {maxLength : Nat} {names : TableNames}

theorem comparand?_tokens (hn : names.IsPlain) {x : Operand} (hx : x ∈ Operand.upTo maxLength) :
    (scopeOf names maxLength).comparand? (x.tokens names) = some x.query := by
  simp only [scopeOf]
  cases hf : ((Operand.upTo maxLength).map Operand.query).find?
      fun y => tokens (y.text names) = x.tokens names with
  | none =>
    have hnone := List.find?_eq_none.mp hf _ (List.mem_map_of_mem hx)
    simp [Operand.text_query, Operand.tokens_text hn hx] at hnone
  | some y =>
    obtain ⟨x', hx', rfl⟩ := List.mem_map.mp (List.mem_of_find?_eq_some hf)
    have ht : tokens (x'.query.text names) = x.tokens names := by simpa using List.find?_some hf
    rw [Operand.text_query, Operand.tokens_text hn hx'] at ht
    rw [Operand.query_eq_of_tokens hx' hx ht]

theorem trend?_tokens (hn : names.IsPlain) (t : Trend) {w : Trailing}
    (hw : w ∈ Trailing.upTo maxLength) :
    (scopeOf names maxLength).trend? (t.tokens names w) = some (t, w) := by
  simp only [scopeOf]
  cases hf : (trendsUpTo maxLength).find? fun y =>
      tokens ((y.1.query y.2).text names) = t.tokens names w with
  | none =>
    have hnone := List.find?_eq_none.mp hf (t, w) (mem_trendsUpTo.mpr hw)
    simp [Trend.text_query, Trend.tokens_text hn t hw] at hnone
  | some y =>
    have hy := mem_trendsUpTo.mp (List.mem_of_find?_eq_some hf)
    have ht : tokens ((y.1.query y.2).text names) = t.tokens names w := by
      simpa using List.find?_some hf
    rw [Trend.text_query, Trend.tokens_text hn y.1 hy] at ht
    obtain ⟨h1, h2⟩ := Trend.tokens_injective ht
    rw [← h1, ← h2]

end Sql

namespace Truth

theorem and_yes (a : Truth) : a.and .yes = a := by cases a <;> rfl

theorem yes_and (a : Truth) : Truth.yes.and a = a := by cases a <;> rfl

theorem or_no (a : Truth) : a.or .no = a := by cases a <;> rfl

theorem no_or (a : Truth) : Truth.no.or a = a := by cases a <;> rfl

theorem and_assoc (a b c : Truth) : (a.and b).and c = a.and (b.and c) := by
  cases a <;> cases b <;> cases c <;> rfl

theorem or_assoc (a b c : Truth) : (a.or b).or c = a.or (b.or c) := by
  cases a <;> cases b <;> cases c <;> rfl

end Truth

namespace Predicate

variable {α : Type} [Quantity α] {maxLength : Nat} {names : TableNames}

theorem placeholder?_placeholder (n : Nat) : placeholder? (placeholder n) = some n := by
  simp [placeholder?]

def IsReadIn (scope : Scope) (names : TableNames) (α : Type) [Quantity α] (p : Predicate) : Prop :=
  ∃ e, Reads scope (p.tokens names) e ∧
    ∀ (h : History α) bound c, e.truth h bound c = p.truth h bound c

theorem readTest_comparison (x : Comparand) (op : Operator) (n : Nat) (rest : List String) :
    readTest x ([op.sql, placeholder n] ++ rest) = some (.compare x op n, rest) := by
  have ho : Operator.ofWord op.sql = .ok op := by cases op <;> rfl
  cases op
  all_goals
    rw [Operator.sql] at ho ⊢
    simp [readTest, ho, placeholder?_placeholder, Except.toOption]

theorem readTest_between (x : Comparand) (low high : Nat) (rest : List String) :
    readTest x (["BETWEEN", placeholder low, "AND", placeholder high] ++ rest) =
      some (.between x low high, rest) := by
  simp [readTest, placeholder?_placeholder]

theorem reads_operand (hn : names.IsPlain) {x : Operand} (hx : x ∈ Operand.upTo maxLength)
    (us : List String) {e : Expr} (hne : us ≠ []) (hu : us.head? ≠ some "(")
    (ht : ∀ rest, readTest x.query (us ++ rest) = some (e, rest)) :
    Reads (scopeOf names maxLength) (x.tokens names ++ us) e :=
  reads_test (Operand.startsTest_tokens hx) (Operand.isBlock_tokens hn hx) (comparand?_tokens hn hx)
    hu hne ht

theorem sql_ne_parenthesis (op : Operator) (ts : List String) :
    (op.sql :: ts).head? ≠ some "(" := by
  cases op <;> simp [Operator.sql]

theorem isReadIn_compare (hn : names.IsPlain) {x : Operand} (hx : x ∈ Operand.upTo maxLength)
    (op : Operator) (n : Nat) :
    (Predicate.compare x op n).IsReadIn (scopeOf names maxLength) names α :=
  ⟨.compare x.query op n, reads_operand hn hx _ (by simp) (sql_ne_parenthesis op _) fun rest =>
    readTest_comparison x.query op n rest, fun h bound c =>
    Operand.compareWith_query hx h bound c op n⟩

theorem isReadIn_between (hn : names.IsPlain) {x : Operand} (hx : x ∈ Operand.upTo maxLength)
    (low high : Nat) :
    (Predicate.between x low high).IsReadIn (scopeOf names maxLength) names α := by
  refine ⟨.between x.query low high, reads_operand hn hx _ (by simp) (by simp) fun rest =>
    readTest_between x.query low high rest, fun h bound c => ?_⟩
  rw [Expr.truth, truth, Operand.compareWith_query hx, Operand.compareWith_query hx]

theorem isReadIn_inside (hn : names.IsPlain) {x : Operand} (hx : x ∈ Operand.upTo maxLength)
    (low high : Nat) :
    (Predicate.inside x low high).IsReadIn (scopeOf names maxLength) names α := by
  obtain ⟨e, hr, he⟩ := isReadIn_compare (α := α) hn hx .gt low
  obtain ⟨e', hr', he'⟩ := isReadIn_compare (α := α) hn hx .lt high
  have ho := (Operand.opens_tokens names hx).append [">", placeholder low]
  refine ⟨_, reads_parenthesised (ho.append _) (readsJoined_members .and hr (.cons hr' .nil)),
    fun h bound c => ?_⟩
  change (e.truth h bound c).and (e'.truth h bound c) = _
  rw [he, he']
  rfl

theorem reads_isNull (hn : names.IsPlain) {f : Field} (hf : .column f ∈ Operand.upTo maxLength) :
    Reads (scopeOf names maxLength) [f.qualified, "IS", "NULL"]
      (.isNull (Operand.column f).query) :=
  reads_operand hn hf ["IS", "NULL"] (by simp) (by simp) fun _ => rfl

theorem reads_isNotNull (hn : names.IsPlain) {f : Field}
    (hf : .column f ∈ Operand.upTo maxLength) :
    Reads (scopeOf names maxLength) [f.qualified, "IS", "NOT", "NULL"]
      (.isNotNull (Operand.column f).query) :=
  reads_operand hn hf ["IS", "NOT", "NULL"] (by simp) (by simp) fun _ => rfl

theorem isMissing_eq (h : History α) (c : Candidate α) (f : Field) :
    Truth.ofBool ((Operand.column f).query.value h c).isNull = isMissing c f := by
  rw [Operand.value_query]
  rfl

theorem isReadIn_present (hn : names.IsPlain) {f : Field} (hf : f ∈ catalog) {p : Predicate}
    (hp : p.IsReadIn (scopeOf names maxLength) names α) :
    (Predicate.present f p).IsReadIn (scopeOf names maxLength) names α := by
  obtain ⟨e, hr, he⟩ := hp
  have hcolumn : .column f ∈ Operand.upTo maxLength := Operand.column_mem_upTo.mpr hf
  have ho : Opens [f.qualified, "IS", "NOT", "NULL"] :=
    (Operand.opens_tokens names hcolumn).append _
  have hjoined := readsJoined_members .and (reads_isNotNull hn hcolumn) (.cons hr .nil)
  refine ⟨_, reads_parenthesised (ho.append _) hjoined, fun h bound c => ?_⟩
  change (Truth.ofBool ((Operand.column f).query.value h c).isNull).not.and (e.truth h bound c) = _
  rw [he, isMissing_eq h c f]
  rfl

theorem isReadIn_missingOr (hn : names.IsPlain) {f : Field} (hf : f ∈ catalog) {p : Predicate}
    (hp : p.IsReadIn (scopeOf names maxLength) names α) :
    (Predicate.missingOr f p).IsReadIn (scopeOf names maxLength) names α := by
  obtain ⟨e, hr, he⟩ := hp
  have hcolumn : .column f ∈ Operand.upTo maxLength := Operand.column_mem_upTo.mpr hf
  have ho : Opens [f.qualified, "IS", "NULL"] := (Operand.opens_tokens names hcolumn).append _
  have hjoined := readsJoined_members .or (reads_isNull hn hcolumn) (.cons hr .nil)
  refine ⟨_, reads_parenthesised (ho.append _) hjoined, fun h bound c => ?_⟩
  change (Truth.ofBool ((Operand.column f).query.value h c).isNull).or (e.truth h bound c) = _
  rw [he, isMissing_eq h c f]
  rfl

theorem isReadIn_trend (hn : names.IsPlain) (t : Trend) {w : Trailing}
    (hw : w ∈ Trailing.upTo maxLength) :
    (Predicate.trend t w).IsReadIn (scopeOf names maxLength) names α := by
  refine ⟨.trend t w, ?_, fun h bound c => rfl⟩
  have ht := trend?_tokens hn t hw
  rw [Trend.tokens_eq_block] at ht
  rw [tokens, Trend.tokens_eq_block]
  exact reads_exists (Trend.depth_block hn t hw) ht

theorem isReadIn_not {p : Predicate} (hproper : p.IsProper maxLength)
    (hp : p.IsReadIn (scopeOf names maxLength) names α) :
    (Predicate.not p).IsReadIn (scopeOf names maxLength) names α := by
  obtain ⟨e, hr, he⟩ := hp
  refine ⟨_, reads_not (reads_parenthesised (opens_tokens hproper) (readsJoined_of_reads hr)),
    fun h bound c => ?_⟩
  rw [Expr.truth, he]
  rfl

theorem truth_foldl_and (h : History α) (bound : Nat → Cell α) (c : Candidate α) {es : List Expr}
    {ps : List Predicate}
    (hs : List.Forall₂ (fun e p => e.truth h bound c = truth h bound c p) es ps)
    (e : Expr) : (es.foldl (.join .and) e).truth h bound c =
      (e.truth h bound c).and (truthOfAll h bound c ps) := by
  induction hs generalizing e with
  | nil => rw [List.foldl_nil, truthOfAll, Truth.and_yes]
  | cons hp _ ih => rw [List.foldl_cons, ih, Expr.truth, hp, truthOfAll, Truth.and_assoc]

theorem truth_foldl_or (h : History α) (bound : Nat → Cell α) (c : Candidate α) {es : List Expr}
    {ps : List Predicate}
    (hs : List.Forall₂ (fun e p => e.truth h bound c = truth h bound c p) es ps)
    (e : Expr) : (es.foldl (.join .or) e).truth h bound c =
      (e.truth h bound c).or (truthOfAny h bound c ps) := by
  induction hs generalizing e with
  | nil => rw [List.foldl_nil, truthOfAny, Truth.or_no]
  | cons hp _ ih => rw [List.foldl_cons, ih, Expr.truth, hp, truthOfAny, Truth.or_assoc]

theorem exists_readings {scope : Scope} {ps : List Predicate}
    (hps : ∀ p ∈ ps, p.IsReadIn scope names α) :
    ∃ es, List.Forall₂ (Reads scope) (ps.map (tokens names)) es ∧
      ∀ (h : History α) bound c,
        List.Forall₂ (fun e p => e.truth h bound c = truth h bound c p) es ps := by
  induction ps with
  | nil => exact ⟨[], .nil, fun _ _ _ => .nil⟩
  | cons p ps ih =>
    obtain ⟨⟨e, hr, he⟩, hps⟩ := List.forall_mem_cons.mp hps
    obtain ⟨es, hrs, hes⟩ := ih hps
    exact ⟨e :: es, .cons hr hrs, fun h bound c => .cons (he h bound c) (hes h bound c)⟩

theorem isReadIn_group (k : Connective) {p : Predicate} {ps : List Predicate}
    (hproper : p.IsProper maxLength) (hp : p.IsReadIn (scopeOf names maxLength) names α)
    (hps : ∀ p ∈ ps, p.IsReadIn (scopeOf names maxLength) names α) :
    (Predicate.group k (p :: ps)).IsReadIn (scopeOf names maxLength) names α := by
  obtain ⟨e, hr, he⟩ := hp
  obtain ⟨es, hrs, hes⟩ := exists_readings hps
  have ho : Opens (p.tokens names ++ more k (ps.map (tokens names))) :=
    (opens_tokens hproper).append _
  refine ⟨es.foldl (.join k) e, ?_, fun h bound c => ?_⟩
  · rw [tokens, tokensOfAll_eq_map]
    exact reads_parenthesised ho (readsJoined_members k hr hrs)
  · cases k with
    | and => rw [truth_foldl_and h bound c (hes h bound c), he, truth, truthOfAll]
    | or => rw [truth_foldl_or h bound c (hes h bound c), he, truth, truthOfAny]

theorem isReadIn_of_isProper (hn : names.IsPlain) {p : Predicate} (hp : p.IsProper maxLength) :
    p.IsReadIn (scopeOf names maxLength) names α := by
  induction p using Predicate.induction with
  | compare x op n => exact isReadIn_compare hn hp op n
  | between x low high => exact isReadIn_between hn hp low high
  | inside x low high => exact isReadIn_inside hn hp low high
  | present f p ih => exact isReadIn_present hn hp.1 (ih hp.2)
  | missingOr f p ih => exact isReadIn_missingOr hn hp.1 (ih hp.2)
  | trend t w => exact isReadIn_trend hn t hp
  | group k ps ih =>
    obtain ⟨hne, hps⟩ := isProper_group.mp hp
    obtain ⟨p, ps, rfl⟩ := List.exists_cons_of_ne_nil hne
    obtain ⟨hfirst, hrest⟩ := List.forall_mem_cons.mp hps
    exact isReadIn_group k hfirst (ih p (by simp) hfirst) fun q hq =>
      ih q (by simp [hq]) (hrest q hq)
  | not p ih => exact isReadIn_not hp (ih hp)

/-- A store that reads the text of a predicate finds the predicate in it. -/
theorem read_text (hn : names.IsPlain) {p : Predicate} (hp : p.IsProper maxLength) :
    ∃ e, read (scopeOf names maxLength) (p.text names) = some e ∧
      ∀ (h : History α) bound c, e.truth h bound c = p.truth h bound c := by
  obtain ⟨e, hr, he⟩ := isReadIn_of_isProper (α := α) hn hp
  rw [← tokens_text hn hp] at hr
  exact ⟨e, read_of_reads hr, he⟩

end Predicate

end EquityScreen
