import EquityScreen.Proofs.SqlReading
import EquityScreen.Text.Blank
import Mathlib.Data.List.Nodup

/-!
The names in a query's text. A reader of tokens keeps, for every pair of parentheses that is open,
the tables that are named there under aliases and the columns that are mentioned by alias. When the
pair closes, what is mentioned of its own tables has to be a column of them, and the rest is left to
the surrounding text, where a table may be named later than it is mentioned.
-/

namespace EquityScreen.Sql

def unquoted (w : String) : String := String.ofList (w.toList.filter (· ≠ '"'))

/-- The alias and the column of a word like `f.eps`, in quotes or without; a number has neither. -/
def mention? (w : String) : Option (String × String) :=
  let cs := w.toList.filter (· ≠ '"')
  match cs.takeWhile (· ≠ '.'), cs.dropWhile (· ≠ '.') with
  | c :: rest, _ :: column =>
    if Text.isDigit c then none else some (String.ofList (c :: rest), String.ofList column)
  | _, _ => none

/-- What is named in one pair of parentheses: tables by alias, and mentioned columns by alias. -/
structure Level where
  tables : List (String × String)
  mentions : List (String × String)
  deriving DecidableEq, Repr

/-- What the next word is to complete: a clause that names a table, or its alias. A query in
parentheses in place of a table has no alias that a column is mentioned by. -/
inductive Expects where
  | nothing
  | table
  | name (table : String)
  deriving DecidableEq, Repr

structure Names where
  expects : Expects
  levels : List Level
  deriving DecidableEq, Repr

namespace Level

def empty : Level := ⟨[], []⟩

def add (l m : Level) : Level := ⟨l.tables ++ m.tables, l.mentions ++ m.mentions⟩

def agrees (created : String → List String) (l : Level) (m : String × String) : Bool :=
  match l.tables.lookup m.1 with
  | some table => (created table).contains m.2
  | none => true

/-- The mentions that are left to the surrounding text. -/
def close? (created : String → List String) (l : Level) : Option (List (String × String)) :=
  if (l.tables.map (·.1)).Nodup ∧ l.mentions.all (l.agrees created) then
    some (l.mentions.filter fun m => (l.tables.lookup m.1).isNone)
  else none

end Level

namespace Names

def start : Names := ⟨.nothing, [.empty]⟩

def read (created : String → List String) (r : Names) (w : String) : Option Names :=
  match r.expects, r.levels with
  | _, [] => none
  | .table, ls => some (if w = "(" then ⟨.nothing, .empty :: ls⟩ else ⟨.name (unquoted w), ls⟩)
  | .name table, l :: ls =>
    some (if w = "AS" then r else ⟨.nothing, l.add ⟨[(unquoted w, table)], []⟩ :: ls⟩)
  | .nothing, l :: ls =>
    if w = "FROM" ∨ w = "JOIN" then some ⟨.table, r.levels⟩
    else if w = "(" then some ⟨.nothing, .empty :: r.levels⟩
    else if w = ")" then match ls with
      | [] => none
      | outer :: rest => (l.close? created).map fun ms => ⟨.nothing, outer.add ⟨[], ms⟩ :: rest⟩
    else some ⟨.nothing, l.add ⟨[], (mention? w).toList⟩ :: ls⟩

end Names

/-- The tables that a query names, if every mention in its text is resolved. -/
def resolve? (created : String → List String) (text : String) : Option (List (String × String)) :=
  match (tokens text).foldlM (Names.read created) Names.start with
  | some ⟨.nothing, [l]⟩ => if l.close? created = some [] then some l.tables else none
  | _ => none

/-- Words that add nothing but these names to the level they stand on. -/
def Yields (created : String → List String) (ws : List String) (named : Level) : Prop :=
  ∀ l ls, ws.foldlM (Names.read created) ⟨.nothing, l :: ls⟩ =
    some ⟨.nothing, l.add named :: ls⟩

/-- A word that names nothing and opens no clause. -/
def IsInert (w : String) : Prop := w ≠ "FROM" ∧ w ≠ "JOIN" ∧ mention? w = none

instance (w : String) : Decidable (IsInert w) := inferInstanceAs (Decidable (_ ∧ _ ∧ _))

namespace Level

@[simp]
theorem add_empty (l : Level) : l.add .empty = l := by simp [add, Level.empty]

theorem add_assoc (l m n : Level) : (l.add m).add n = l.add (m.add n) := by simp [add]

@[simp]
theorem empty_add (l : Level) : Level.empty.add l = l := rfl

variable {created : String → List String}

theorem close?_mentions (ms : List (String × String)) : close? created ⟨[], ms⟩ = some ms := by
  have hall : ms.all (agrees created ⟨[], ms⟩) = true := List.all_eq_true.mpr fun _ _ => rfl
  simp [close?, hall]

end Level

variable {created : String → List String} {ws us : List String} {m n : Level}

namespace Names

theorem read_word {w : String} (hw : w ∉ ["FROM", "JOIN", "(", ")"]) (l : Level) (ls : List Level) :
    read created ⟨.nothing, l :: ls⟩ w =
      some ⟨.nothing, l.add ⟨[], (mention? w).toList⟩ :: ls⟩ := by
  simp only [List.mem_cons, List.not_mem_nil, or_false, not_or] at hw
  simp [read, hw]

theorem read_open (l : Level) (ls : List Level) :
    read created ⟨.nothing, l :: ls⟩ "(" = some ⟨.nothing, .empty :: l :: ls⟩ := by
  simp [read]

theorem read_close {ms : List (String × String)} (hm : m.close? created = some ms) (l : Level)
    (ls : List Level) : read created ⟨.nothing, m :: l :: ls⟩ ")" =
      some ⟨.nothing, l.add ⟨[], ms⟩ :: ls⟩ := by
  simp [read, hm]

theorem read_keyword {keyword : String} (hk : keyword = "FROM" ∨ keyword = "JOIN") (l : Level)
    (ls : List Level) :
    read created ⟨.nothing, l :: ls⟩ keyword = some ⟨.table, l :: ls⟩ := by
  simp [read, hk]

theorem read_table {table : String} (ht : table ≠ "(") (l : Level) (ls : List Level) :
    read created ⟨.table, l :: ls⟩ table = some ⟨.name (unquoted table), l :: ls⟩ := by
  simp [read, ht]

theorem read_name {name : String} (hn : name ≠ "AS") (table : String) (l : Level)
    (ls : List Level) : read created ⟨.name table, l :: ls⟩ name =
      some ⟨.nothing, l.add ⟨[(unquoted name, table)], []⟩ :: ls⟩ := by
  simp [read, hn]

end Names

theorem Yields.append (h : Yields created ws m) (h' : Yields created us n) :
    Yields created (ws ++ us) (m.add n) := by
  intro l ls
  rw [List.foldlM_append, h l ls]
  simpa [Level.add_assoc] using h' (l.add m) ls

theorem yields_mention {w name column : String} (hw : mention? w = some (name, column)) :
    Yields created [w] ⟨[], [(name, column)]⟩ := by
  have hnone : ∀ w ∈ ["FROM", "JOIN", "(", ")"], mention? w = none := by decide
  have hk : w ∉ ["FROM", "JOIN", "(", ")"] := fun hk => by simp [hnone w hk] at hw
  intro l ls
  rw [List.foldlM_cons, Names.read_word hk, hw]
  rfl

theorem yields_table {keyword table name : String} (hk : keyword = "FROM" ∨ keyword = "JOIN")
    (ht : table ≠ "(") (hn : name ≠ "AS") :
    Yields created [keyword, table, name] ⟨[(unquoted name, unquoted table)], []⟩ := by
  intro l ls
  simp only [List.foldlM_cons, Names.read_keyword hk, Option.bind_eq_bind, Option.bind_some,
    Names.read_table ht, Names.read_name hn]
  rfl

theorem yields_tableAs {keyword table name : String} (hk : keyword = "FROM" ∨ keyword = "JOIN")
    (ht : table ≠ "(") (hn : name ≠ "AS") :
    Yields created [keyword, table, "AS", name] ⟨[(unquoted name, unquoted table)], []⟩ := by
  intro l ls
  have has : Names.read created ⟨.name (unquoted table), l :: ls⟩ "AS" =
      some ⟨.name (unquoted table), l :: ls⟩ := rfl
  simp only [List.foldlM_cons, Names.read_keyword hk, Option.bind_eq_bind, Option.bind_some,
    Names.read_table ht, has, Names.read_name hn]
  rfl

theorem Yields.parens (h : Yields created ws m) {ms : List (String × String)}
    (hm : m.close? created = some ms) : Yields created ("(" :: ws ++ [")"]) ⟨[], ms⟩ := by
  intro l ls
  have hw := h .empty (l :: ls)
  rw [Level.empty_add] at hw
  rw [List.cons_append, List.foldlM_cons, Names.read_open, Option.bind_eq_bind, Option.bind_some,
    List.foldlM_append, hw, Option.bind_eq_bind, Option.bind_some, List.foldlM_cons,
    Names.read_close hm]
  rfl

theorem Yields.fromParens (h : Yields created ws m) {ms : List (String × String)}
    (hm : m.close? created = some ms) :
    Yields created ("FROM" :: "(" :: ws ++ [")"]) ⟨[], ms⟩ := by
  intro l ls
  have hopen : Names.read created ⟨.table, l :: ls⟩ "(" = some ⟨.nothing, .empty :: l :: ls⟩ := by
    simp [Names.read]
  have hw := h .empty (l :: ls)
  rw [Level.empty_add] at hw
  rw [List.cons_append, List.cons_append, List.foldlM_cons, Names.read_keyword (.inl rfl),
    Option.bind_eq_bind, Option.bind_some, List.foldlM_cons, hopen, Option.bind_eq_bind,
    Option.bind_some, List.foldlM_append, hw, Option.bind_eq_bind, Option.bind_some,
    List.foldlM_cons, Names.read_close hm]
  rfl

theorem foldlM_inert (hw : ∀ w ∈ ws, IsInert w) {d d' : Nat} (hd : depth d ws = some d')
    (l : Level) (ls : List Level) :
    ws.foldlM (Names.read created) ⟨.nothing, List.replicate d .empty ++ l :: ls⟩ =
      some ⟨.nothing, List.replicate d' .empty ++ l :: ls⟩ := by
  induction ws generalizing d with
  | nil =>
    cases hd
    rfl
  | cons w ws ih =>
    obtain ⟨⟨hfrom, hjoin, hmention⟩, hws⟩ := List.forall_mem_cons.mp hw
    obtain ⟨k, ks, hk⟩ := List.exists_cons_of_ne_nil
      (l := List.replicate d Level.empty ++ l :: ls) (by simp)
    unfold depth at hd
    rw [List.foldlM_cons]
    split at hd
    · next ho =>
      rw [ho, hk, Names.read_open, ← hk]
      exact ih hws hd
    · next ho =>
      split at hd
      · next hc =>
        cases d with
        | zero => cases hd
        | succ d =>
          obtain ⟨k, ks, hk⟩ := List.exists_cons_of_ne_nil
            (l := List.replicate d Level.empty ++ l :: ls) (by simp)
          rw [hc, List.replicate_succ, List.cons_append, hk,
            Names.read_close (m := .empty) (Level.close?_mentions [])]
          change ws.foldlM (Names.read created) ⟨.nothing, k.add .empty :: ks⟩ = _
          rw [Level.add_empty, ← hk]
          exact ih hws hd
      · next hc =>
        rw [hk, Names.read_word (by simp [hfrom, hjoin, ho, hc]), hmention]
        change ws.foldlM (Names.read created) ⟨.nothing, k.add .empty :: ks⟩ = _
        rw [Level.add_empty, ← hk]
        exact ih hws hd

theorem yields_inert (ws : List String) (hw : ∀ w ∈ ws, IsInert w) (hd : depth 0 ws = some 0) :
    Yields created ws .empty := by
  intro l ls
  simpa using foldlM_inert hw hd l ls

theorem mention?_eq_none {w : String} (hw : ∀ c ∈ w.toList.filter (· ≠ '"'), c ≠ '.') :
    mention? w = none := by
  have hpoint : ∀ c ∈ w.toList.filter (· ≠ '"'), decide (c ≠ '.') = true := fun c hc =>
    decide_eq_true (hw c hc)
  simp only [mention?, List.dropWhile_eq_nil_iff.mpr hpoint]
  split
  · next hcons => cases hcons
  · rfl

theorem isInert_of_digits {w : String} (hw : ∀ c ∈ w.toList, c = '$' ∨ Text.isDigit c = true) :
    IsInert w := by
  have hword {v : String} (hv : (v.toList.all fun c => c = '$' || Text.isDigit c) = false) :
      w ≠ v := by
    rintro rfl
    simp [List.all_eq_false] at hv
    obtain ⟨c, hc, hn⟩ := hv
    exact absurd (hw c hc) (by simp [hn])
  refine ⟨hword (by decide), hword (by decide), mention?_eq_none fun c hc => ?_⟩
  rintro rfl
  exact absurd (hw _ (List.mem_filter.mp hc).1) (by decide)

def isPlain (w : String) : Bool := w.toList.all fun c => !isBreak c && c ≠ '.' && c ≠ '"'

theorem isPlain_iff {w : String} :
    isPlain w = true ↔ ∀ c ∈ w.toList, isBreak c = false ∧ c ≠ '.' ∧ c ≠ '"' := by
  simp [isPlain, and_assoc]

theorem filter_of_isPlain {w : String} (h : isPlain w = true) :
    w.toList.filter (· ≠ '"') = w.toList :=
  List.filter_eq_self.mpr fun c hc => decide_eq_true (isPlain_iff.mp h c hc).2.2

def isAlias (name : String) : Bool :=
  (name.toList.head?.any fun c => !Text.isDigit c) && isPlain name

theorem isPlain_of_isAlias {name : String} (h : isAlias name = true) : isPlain name = true :=
  (Bool.and_eq_true_iff.mp h).2

theorem mention?_of_filter {w name column : String} (hname : isAlias name = true)
    (hw : w.toList.filter (· ≠ '"') = name.toList ++ '.' :: column.toList) :
    mention? w = some (name, column) := by
  have hpoint : ∀ c ∈ name.toList, decide (c ≠ '.') = true := fun c hc =>
    decide_eq_true (isPlain_iff.mp (isPlain_of_isAlias hname) c hc).2.1
  have htake : (name.toList ++ '.' :: column.toList).takeWhile (· ≠ '.') = name.toList := by
    rw [List.takeWhile_append_of_pos hpoint]
    simp
  have hdrop : (name.toList ++ '.' :: column.toList).dropWhile (· ≠ '.') =
      '.' :: column.toList := by
    rw [List.dropWhile_append_of_pos hpoint]
    simp
  have hfirst := (Bool.and_eq_true_iff.mp hname).1
  simp only [mention?, hw, htake, hdrop]
  cases hl : name.toList with
  | nil => simp [hl] at hfirst
  | cons c rest =>
    have hc : Text.isDigit c = false := by simpa [hl] using hfirst
    have hback : String.ofList (c :: rest) = name := by rw [← hl, String.ofList_toList]
    simp [hc, hback, String.ofList_toList]

theorem mention?_dotted {name column : String} (hname : isAlias name = true)
    (hcolumn : isPlain column = true) : mention? (name ++ "." ++ column) = some (name, column) := by
  refine mention?_of_filter hname ?_
  have hpoint : ".".toList.filter (· ≠ '"') = ['.'] := by decide
  rw [String.toList_append, String.toList_append, List.filter_append, List.filter_append,
    filter_of_isPlain (isPlain_of_isAlias hname), hpoint, filter_of_isPlain hcolumn,
    List.append_assoc, List.singleton_append]

end EquityScreen.Sql
