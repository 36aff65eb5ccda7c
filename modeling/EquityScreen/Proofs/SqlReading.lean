import EquityScreen.Proofs.SqlReader
import Mathlib.Data.List.Forall2

namespace EquityScreen.Sql

variable {scope : Scope}

/-- How many parentheses stay open after some tokens, unless they close more than are open. -/
def depth : Nat → List String → Option Nat
  | d, [] => some d
  | d, t :: ts =>
    if t = "(" then depth (d + 1) ts
    else if t = ")" then match d with
      | 0 => none
      | d + 1 => depth d ts
    else depth d ts

theorem depth_of_unbracketed {ts : List String} (h : ∀ t ∈ ts, t ≠ "(" ∧ t ≠ ")") (d : Nat) :
    depth d ts = some d := by
  induction ts with
  | nil => rfl
  | cons t ts ih =>
    obtain ⟨ht, hts⟩ := List.forall_mem_cons.mp h
    simp [depth, ht, ih hts]

theorem IsWord.unbracketed {w : String} (hw : IsWord w) : w ≠ "(" ∧ w ≠ ")" :=
  ⟨hw.ne (by decide), hw.ne (by decide)⟩

theorem depth_append (d : Nat) (a b : List String) :
    depth d (a ++ b) = (depth d a).bind fun d => depth d b := by
  induction a generalizing d with
  | nil => rfl
  | cons t a ih =>
    by_cases ho : t = "("
    · simp [depth, ho, ih]
    · by_cases hc : t = ")"
      · cases d <;> simp [depth, hc, ih]
      · simp [depth, ho, hc, ih]

theorem closing_append {d d' : Nat} {a : List String} (h : depth d a = some d')
    (b : List String) : closing d (a ++ b) = (closing d' b).map fun r => (a ++ r.1, r.2) := by
  induction a generalizing d with
  | nil =>
    cases h
    simp
  | cons t a ih =>
    by_cases ho : t = "("
    · simp only [depth, ho, if_true] at h
      simp [closing, ho, ih h, Function.comp_def]
    · by_cases hc : t = ")"
      · cases d with
        | zero => simp [depth, hc] at h
        | succ d =>
          simp only [depth, hc, if_true] at h
          simp [closing, hc, ih h, Function.comp_def]
      · simp only [depth, ho, hc, if_false] at h
        simp [closing, ho, hc, ih h, Function.comp_def]

/-- Tokens that are read as a whole before anything but a parenthesis. -/
def IsBlock (b : List String) : Prop :=
  ∀ rest : List String, rest.head? ≠ some "(" → readBlock (b ++ rest) = some (b, rest)

theorem isBlock_word {w : String} (hw : w ≠ "(") : IsBlock [w] := by
  intro rest hr
  rw [List.singleton_append, readBlock, if_neg hw]
  rintro ts rfl
  exact hr rfl

theorem isBlock_subquery {ts : List String} (h : depth 0 ts = some 0) :
    IsBlock ("(" :: ts ++ [")"]) := by
  intro rest _
  have hc := closing_append h (")" :: rest)
  simp [readBlock, closing, hc]

theorem isBlock_call {f : String} (hf : f ≠ "(") {ts : List String} (h : depth 0 ts = some 0) :
    IsBlock (f :: "(" :: ts ++ [")"]) := by
  intro rest _
  have hc := closing_append h (")" :: rest)
  simp [readBlock, closing, hf, hc]

/-- The text of a condition that may be negated, or be a member of a connective. -/
def Reads (scope : Scope) (ts : List String) (e : Expr) : Prop :=
  ∀ fuel rest, 8 * ts.length ≤ fuel → readNegated scope fuel (ts ++ rest) = some (e, rest)

/-- The text of a condition that ends where a parenthesis closes, or at the end. -/
def ReadsJoined (scope : Scope) (ts : List String) (e : Expr) : Prop :=
  ∀ fuel rest, 8 * ts.length + 6 ≤ fuel → rest.head? ≠ some "AND" → rest.head? ≠ some "OR" →
    readJoined scope .or fuel (ts ++ rest) = some (e, rest)

structure StartsTest (b : List String) : Prop where
  nonempty : b ≠ []
  notNegated : b.head? ≠ some "NOT"
  notExists : b.head? ≠ some "EXISTS"
  notParenthesised : b.head? = some "(" → b.tail.head? = some "SELECT"

theorem reads_of_readBasic {ts : List String} {e : Expr} (hn : ts ≠ [])
    (hnot : ts.head? ≠ some "NOT")
    (h : ∀ fuel rest, 8 * ts.length ≤ fuel + 2 → readBasic scope (fuel + 1) (ts ++ rest) =
      some (e, rest)) : Reads scope ts e := by
  intro fuel rest hf
  obtain ⟨t, us, rfl⟩ := List.exists_cons_of_ne_nil hn
  match fuel, hf with
  | 0, hf | 1, hf =>
    simp only [List.length_cons] at hf
    omega
  | fuel + 2, hf =>
    have hne : ¬ (t :: us ++ rest).head? = some "NOT" := hnot
    rw [readNegated, if_neg hne]
    exact h fuel rest hf

theorem reads_test {b us : List String} {x : Comparand} {e : Expr} (hs : StartsTest b)
    (hb : IsBlock b) (hx : scope.comparand? b = some x) (hu : us.head? ≠ some "(") (hne : us ≠ [])
    (ht : ∀ rest, readTest x (us ++ rest) = some (e, rest)) : Reads scope (b ++ us) e := by
  obtain ⟨t, ts, rfl⟩ := List.exists_cons_of_ne_nil hs.nonempty
  obtain ⟨u, us, rfl⟩ := List.exists_cons_of_ne_nil hne
  refine reads_of_readBasic (by simp) hs.notNegated fun fuel rest _ => ?_
  have hparen : ¬ ((t :: ts ++ u :: us ++ rest).head? = some "(" ∧
      (t :: ts ++ u :: us ++ rest).tail.head? ≠ some "SELECT") := by
    rintro ⟨hopen, hselect⟩
    have hsecond := hs.notParenthesised hopen
    cases ts with
    | nil => cases hsecond
    | cons s ts => exact hselect hsecond
  have hexists : ¬ (t :: ts ++ u :: us ++ rest).head? = some "EXISTS" := hs.notExists
  have hblock : readBlock (t :: ts ++ u :: us ++ rest) = some (t :: ts, u :: us ++ rest) := by
    rw [List.append_assoc]
    exact hb _ hu
  rw [readBasic, if_neg hparen, hblock]
  simp only [Option.bind_some, if_neg hexists, hx, ht]

theorem reads_exists {ts : List String} {t : Trend} {w : Trailing} (h : depth 0 ts = some 0)
    (ht : scope.trend? ("EXISTS" :: "(" :: ts ++ [")"]) = some (t, w)) :
    Reads scope ("EXISTS" :: "(" :: ts ++ [")"]) (.trend t w) := by
  refine reads_of_readBasic (by simp) (by simp) fun fuel rest _ => ?_
  have hc := closing_append h (")" :: rest)
  have hblock : readBlock ("EXISTS" :: "(" :: ts ++ [")"] ++ rest) =
      some ("EXISTS" :: "(" :: ts ++ [")"], rest) := by
    simp [readBlock, closing, hc]
  rw [readBasic, if_neg (by simp), hblock]
  simp only [Option.bind_some, List.cons_append, List.head?_cons, if_true]
  rw [show "EXISTS" :: "(" :: (ts ++ [")"]) = "EXISTS" :: "(" :: ts ++ [")"] from rfl, ht]
  rfl

theorem reads_not {ts : List String} {e : Expr} (h : Reads scope ts e) :
    Reads scope ("NOT" :: ts) (.not e) := by
  intro fuel rest hf
  match fuel, hf with
  | 0, hf => simp at hf
  | fuel + 1, hf =>
    have hr := h fuel rest (by simp only [List.length_cons] at hf; omega)
    rw [readNegated]
    simp [hr]

/-- The tokens of a condition, which a parenthesis before them does not turn into a subquery. -/
structure Opens (ts : List String) : Prop where
  nonempty : ts ≠ []
  notSelect : ts.head? ≠ some "SELECT"

theorem Opens.append {ts : List String} (h : Opens ts) (us : List String) : Opens (ts ++ us) := by
  obtain ⟨t, ts, rfl⟩ := List.exists_cons_of_ne_nil h.nonempty
  exact ⟨by simp, h.notSelect⟩

theorem reads_parenthesised {ts : List String} {e : Expr} (ho : Opens ts)
    (h : ReadsJoined scope ts e) : Reads scope ("(" :: ts ++ [")"]) e := by
  refine reads_of_readBasic (by simp) (by simp) fun fuel rest hf => ?_
  have hs := ho.notSelect
  obtain ⟨t, us, rfl⟩ := List.exists_cons_of_ne_nil ho.nonempty
  have hfuel : 8 * (t :: us).length + 6 ≤ fuel := by
    simp only [List.length_cons, List.length_append] at hf ⊢
    omega
  have hr := h fuel (")" :: rest) hfuel (by simp) (by simp)
  have hparen : ("(" :: (t :: us) ++ [")"] ++ rest).head? = some "(" ∧
      ("(" :: (t :: us) ++ [")"] ++ rest).tail.head? ≠ some "SELECT" := ⟨rfl, hs⟩
  have htail : ("(" :: (t :: us) ++ [")"] ++ rest).tail = t :: us ++ ")" :: rest := by simp
  rw [readBasic, if_pos hparen, htail, hr]
  simp

def more (c : Connective) (tss : List (List String)) : List String :=
  tss.flatMap fun ts => c.upper :: ts

theorem readMember_of_reads {ts : List String} {e : Expr} (h : Reads scope ts e) (c : Connective)
    (fuel : Nat) {rest : List String} (hf : 8 * ts.length + 3 ≤ fuel)
    (hr : c = .or → rest.head? ≠ some "AND") :
    readMember scope c fuel (ts ++ rest) = some (e, rest) := by
  cases c with
  | and =>
    obtain ⟨fuel, rfl⟩ : ∃ k, fuel = k + 1 := ⟨fuel - 1, by omega⟩
    exact h fuel rest (by omega)
  | or =>
    obtain ⟨fuel, rfl⟩ : ∃ k, fuel = k + 3 := ⟨fuel - 3, by omega⟩
    have hm : readMember scope .and (fuel + 1) (ts ++ rest) = some (e, rest) :=
      h fuel rest (by omega)
    have hstop : ¬ rest.head? = some Connective.and.upper := hr rfl
    rw [readMember, readJoined, hm]
    simp only [Option.bind_some]
    rw [readMore, if_neg hstop]

/-- Members of `or` are never followed by `and`. -/
theorem head?_more {c : Connective} (tss : List (List String)) {rest : List String}
    (hr : c = .or → rest.head? ≠ some "AND") :
    c = .or → (more c tss ++ rest).head? ≠ some "AND" := by
  rintro rfl
  cases tss with
  | nil => exact hr rfl
  | cons => simp [more, Connective.upper]

theorem readMore_of_reads {c : Connective} {tss : List (List String)} {es : List Expr}
    (h : List.Forall₂ (Reads scope) tss es) {fuel : Nat} {rest : List String} (e : Expr)
    (hf : 8 * (more c tss).length + 1 ≤ fuel) (hc : rest.head? ≠ some c.upper)
    (hr : c = .or → rest.head? ≠ some "AND") :
    readMore scope c fuel e (more c tss ++ rest) = some (es.foldl (.join c) e, rest) := by
  induction h generalizing fuel e with
  | nil =>
    obtain ⟨fuel, rfl⟩ : ∃ k, fuel = k + 1 := ⟨fuel - 1, by omega⟩
    rw [more, List.flatMap_nil, List.nil_append, readMore, if_neg hc]
    rfl
  | @cons ts e' tss es hts _ ih =>
    have hlength : (more c (ts :: tss)).length = 1 + ts.length + (more c tss).length := by
      simp only [more, List.flatMap_cons, List.length_append, List.length_cons]
      omega
    obtain ⟨fuel, rfl⟩ : ∃ k, fuel = k + 1 := ⟨fuel - 1, by omega⟩
    have hm := readMember_of_reads hts c fuel (by omega) (head?_more tss hr)
    have htokens : more c (ts :: tss) ++ rest = c.upper :: (ts ++ (more c tss ++ rest)) := by
      simp [more]
    rw [htokens, readMore, List.head?_cons, if_pos rfl, List.tail_cons, hm]
    exact ih (.join c e e') (by omega)

theorem readJoined_of_reads {c : Connective} {ts : List String} {tss : List (List String)}
    {e : Expr} {es : List Expr} (h : Reads scope ts e) (hs : List.Forall₂ (Reads scope) tss es)
    (fuel : Nat) {rest : List String} (hf : 8 * (ts ++ more c tss).length + 4 ≤ fuel)
    (hc : rest.head? ≠ some c.upper) (hr : c = .or → rest.head? ≠ some "AND") :
    readJoined scope c fuel (ts ++ more c tss ++ rest) = some (es.foldl (.join c) e, rest) := by
  rw [List.length_append] at hf
  obtain ⟨fuel, rfl⟩ : ∃ k, fuel = k + 1 := ⟨fuel - 1, by omega⟩
  have hm := readMember_of_reads h c fuel (by omega) (head?_more tss hr)
  rw [List.append_assoc, readJoined, hm]
  exact readMore_of_reads hs e (by omega) hc hr

theorem readsJoined_members (c : Connective) {ts : List String} {tss : List (List String)}
    {e : Expr} {es : List Expr} (h : Reads scope ts e) (hs : List.Forall₂ (Reads scope) tss es) :
    ReadsJoined scope (ts ++ more c tss) (es.foldl (.join c) e) := by
  intro fuel rest hf hand hor
  cases c with
  | or => exact readJoined_of_reads h hs fuel (by omega) hor fun _ => hand
  | and =>
    obtain ⟨fuel, rfl⟩ : ∃ k, fuel = k + 2 := ⟨fuel - 2, by omega⟩
    have hj := readJoined_of_reads (c := .and) h hs fuel (by omega) hand (by simp)
    have hstop : ¬ rest.head? = some Connective.or.upper := hor
    rw [readJoined, readMember]
    simp only [hj, Option.bind_some]
    rw [readMore, if_neg hstop]

theorem readsJoined_of_reads {ts : List String} {e : Expr} (h : Reads scope ts e) :
    ReadsJoined scope ts e := by
  simpa [more] using readsJoined_members .and h .nil

theorem read_of_reads {text : String} {e : Expr} (h : Reads scope (tokens text) e) :
    read scope text = some e := by
  have hj := readsJoined_of_reads h (8 * (tokens text).length + 8) [] (by omega) (by simp) (by simp)
  rw [List.append_nil] at hj
  simp [read, hj]

end EquityScreen.Sql
