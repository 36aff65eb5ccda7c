import EquityScreen.Proofs.SqlTokens

namespace EquityScreen.Sql

/-- A number of rows: the words that announce it, how many parentheses are open around it, and the
word that states it. -/
structure RowBound where
  phrase : List String
  depth : Int
  word : String
  deriving DecidableEq, Repr

def limitPhrase : List String := ["LIMIT"]

def countPhrase : List String := ["COUNT", "(", "*", ")", ">="]

/-- The bounds in a text so far. The last words are kept as long as a table or a bound may follow
them. -/
structure BoundReader where
  depth : Int
  lead : List String
  bounds : List RowBound
  deriving DecidableEq, Repr

namespace BoundReader

def isLead (ws : List String) : Bool :=
  [["FROM"], limitPhrase, countPhrase].any fun phrase => phrase.take ws.length = ws

def extend (lead : List String) (w : String) : List String :=
  if isLead (lead ++ [w]) then lead ++ [w] else if isLead [w] then [w] else []

def step (w : String) : Int := if w = "(" then 1 else if w = ")" then -1 else 0

/-- A word after `FROM` is a table, whatever it is called. -/
def read (r : BoundReader) (w : String) : BoundReader :=
  if r.lead = limitPhrase ∨ r.lead = countPhrase then
    ⟨r.depth, [], r.bounds ++ [⟨r.lead, r.depth, w⟩]⟩
  else if r.lead = ["FROM"] ∧ w ≠ "(" then ⟨r.depth, [], r.bounds⟩
  else ⟨r.depth + step w, extend r.lead w, r.bounds⟩

end BoundReader

def rowBounds (text : String) : List RowBound :=
  ((tokens text).foldl BoundReader.read ⟨0, [], []⟩).bounds

/-- A table may have the name of a keyword. -/
example : rowBounds "SELECT \"v\" FROM (SELECT v FROM LIMIT h LIMIT 4) w LIMIT 7" =
    [⟨limitPhrase, 1, "4"⟩, ⟨limitPhrase, 0, "7"⟩] := by
  decide +kernel

def RowBound.deepen (d : Int) (b : RowBound) : RowBound := { b with depth := b.depth + d }

namespace BoundReader

def inside (d : Int) (bs : List RowBound) (r : BoundReader) : BoundReader :=
  ⟨r.depth + d, r.lead, bs ++ r.bounds.map (RowBound.deepen d)⟩

theorem read_inside (d : Int) (bs : List RowBound) (r : BoundReader) (w : String) :
    (r.inside d bs).read w = (r.read w).inside d bs := by
  unfold read inside
  split
  · simp [RowBound.deepen]
  · split
    · rfl
    · simp only [BoundReader.mk.injEq, and_self, and_true]
      omega

theorem foldl_inside (d : Int) (bs : List RowBound) (r : BoundReader) (ws : List String) :
    ws.foldl read (r.inside d bs) = (ws.foldl read r).inside d bs := by
  induction ws generalizing r with
  | nil => rfl
  | cons w ws ih => rw [List.foldl_cons, read_inside, ih, List.foldl_cons]

end BoundReader

/-- Words that lead from one depth to another and set these bounds. -/
def Sets (k l : Int) (ws : List String) (bs : List RowBound) : Prop :=
  ws.foldl BoundReader.read ⟨k, [], []⟩ = ⟨l, [], bs⟩

instance (k l : Int) (ws : List String) (bs : List RowBound) : Decidable (Sets k l ws bs) :=
  inferInstanceAs (Decidable (_ = _))

def IsNeutral (w : String) : Prop := w ∉ ["FROM", "LIMIT", "COUNT", "(", ")"]

instance (w : String) : Decidable (IsNeutral w) := inferInstanceAs (Decidable (_ ∉ _))

/-- A word is neutral if it has a character that is in none of the others. -/
theorem isNeutral_of_mem {w : String} {c : Char} (hc : c ∈ w.toList)
    (h : ["FROM", "LIMIT", "COUNT", "(", ")"].all (fun v => !v.toList.contains c) = true) :
    IsNeutral w := by
  intro hw
  have hnot := List.all_eq_true.mp h w hw
  rw [List.contains_iff_mem.mpr hc] at hnot
  cases hnot

variable {k l m : Int} {ws us : List String} {bs cs : List RowBound}

theorem Sets.append (h : Sets k l ws bs) (h' : Sets l m us cs) :
    Sets k m (ws ++ us) (bs ++ cs) := by
  have hstart : (⟨l, [], bs⟩ : BoundReader) = BoundReader.inside 0 bs ⟨l, [], []⟩ := by
    simp [BoundReader.inside]
  have hsame : cs.map (RowBound.deepen 0) = cs :=
    List.map_id'' (fun b => by simp [RowBound.deepen]) cs
  unfold Sets at h h' ⊢
  rw [List.foldl_append, h, hstart, BoundReader.foldl_inside, h', BoundReader.inside, hsame,
    Int.add_zero]

theorem Sets.deepen (h : Sets k l ws bs) (d : Int) :
    Sets (k + d) (l + d) ws (bs.map (RowBound.deepen d)) := by
  unfold Sets at h ⊢
  have hstart : (⟨k + d, [], []⟩ : BoundReader) = BoundReader.inside d [] ⟨k, [], []⟩ := rfl
  rw [hstart, BoundReader.foldl_inside, h]
  rfl

theorem sets_neutral {w : String} (hw : IsNeutral w) : Sets k k [w] [] := by
  simp only [IsNeutral, List.mem_cons, List.not_mem_nil, or_false, not_or] at hw
  obtain ⟨hfrom, hlimit, hcount, hopen, hclose⟩ := hw
  simp [Sets, BoundReader.read, BoundReader.extend, BoundReader.isLead, BoundReader.step,
    limitPhrase, countPhrase, Ne.symm hfrom, Ne.symm hlimit, Ne.symm hcount, hopen, hclose]

theorem sets_table {table : String} (ht : table ≠ "(") : Sets k k ["FROM", table] [] := by
  have hfrom : Sets 0 0 ["FROM", table] [] := by
    have hlead : BoundReader.read ⟨0, [], []⟩ "FROM" = ⟨0, ["FROM"], []⟩ := by decide +kernel
    rw [Sets, List.foldl_cons, hlead]
    simp [BoundReader.read, limitPhrase, countPhrase, ht]
  simpa using hfrom.deepen k

theorem sets_bound {phrase : List String} (hp : phrase = limitPhrase ∨ phrase = countPhrase)
    (w : String) : Sets k k (phrase ++ [w]) [⟨phrase, k, w⟩] := by
  have hzero : Sets 0 0 (phrase ++ [w]) [⟨phrase, 0, w⟩] := by
    have hlead : phrase.foldl BoundReader.read ⟨0, [], []⟩ = ⟨0, phrase, []⟩ := by
      obtain rfl | rfl := hp <;> decide +kernel
    simp only [Sets, List.foldl_append, hlead, List.foldl_cons, List.foldl_nil]
    exact if_pos hp
  simpa [RowBound.deepen] using hzero.deepen k

theorem rowBounds_of_sets {text : String} (h : Sets 0 l (tokens text) bs) :
    rowBounds text = bs := by
  rw [rowBounds, h]

/-- A bound within parentheses by a number from 1 to the greatest that is allowed. -/
structure RowBound.IsWithin (max : Nat) (b : RowBound) : Prop where
  enclosed : 0 < b.depth
  number : ∃ n : Nat, b.word = toString n ∧ 1 ≤ n ∧ n ≤ max

/-- Words from one depth to another that set bounds only within parentheses, and only by numbers
that are allowed. -/
def Encloses (max : Nat) (k l : Int) (ws : List String) : Prop :=
  ∃ bs, Sets k l ws bs ∧ ∀ b ∈ bs, b.IsWithin max

theorem isWithin_of_encloses {max : Nat} {text : String} (h : Encloses max 0 l (tokens text)) :
    ∀ b ∈ rowBounds text, b.IsWithin max := by
  obtain ⟨bs, hs, hb⟩ := h
  exact rowBounds_of_sets hs ▸ hb

namespace Encloses

variable {max : Nat}

theorem append (h : Encloses max k l ws) (h' : Encloses max l m us) :
    Encloses max k m (ws ++ us) := by
  obtain ⟨bs, hs, hb⟩ := h
  obtain ⟨cs, hs', hb'⟩ := h'
  exact ⟨bs ++ cs, hs.append hs', List.forall_mem_append.mpr ⟨hb, hb'⟩⟩

theorem deepen (h : Encloses max k l ws) (d : Nat) : Encloses max (k + d) (l + d) ws := by
  obtain ⟨bs, hs, hb⟩ := h
  refine ⟨_, hs.deepen d, List.forall_mem_map.mpr fun b hmem => ⟨?_, (hb b hmem).number⟩⟩
  have hpos := (hb b hmem).enclosed
  change 0 < b.depth + d
  omega

theorem quiet (h : Sets k l ws []) : Encloses max k l ws := ⟨[], h, by simp⟩

theorem sets (h : Encloses 0 k l ws) : Sets k l ws [] := by
  obtain ⟨bs, hs, hb⟩ := h
  cases bs with
  | nil => exact hs
  | cons b bs =>
    obtain ⟨n, -, hone, hmax⟩ := (hb b List.mem_cons_self).number
    omega

theorem word {w : String} (hw : IsNeutral w) : Encloses max k k [w] := quiet (sets_neutral hw)

theorem neutral (ws : List String) (h : ∀ w ∈ ws, IsNeutral w) : Encloses max k k ws := by
  induction ws with
  | nil => exact quiet rfl
  | cons w ws ih =>
    obtain ⟨hw, hws⟩ := List.forall_mem_cons.mp h
    exact (word hw).append (ih hws)

theorem bound {phrase : List String} (hp : phrase = limitPhrase ∨ phrase = countPhrase)
    (hk : 0 < k) {n : Nat} (h1 : 1 ≤ n) (hn : n ≤ max) :
    Encloses max k k (phrase ++ [toString n]) :=
  ⟨_, sets_bound hp _, List.forall_mem_singleton.mpr ⟨hk, n, rfl, h1, hn⟩⟩

theorem parens (h : Encloses max 0 0 ws) : Encloses max 0 0 ("(" :: ws ++ [")"]) := by
  have hopen : Encloses max 0 1 ["("] := quiet (by decide +kernel)
  have hclose : Encloses max 1 0 [")"] := quiet (by decide +kernel)
  exact hopen.append ((h.deepen 1).append hclose)

theorem text_append {s t : String} (hs : Encloses max k l (tokens s))
    (ht : Encloses max l m (tokens t))
    (h : startsApart t.toList = true ∨ startsApart s.toList.reverse = true) :
    Encloses max k m (tokens (s ++ t)) := by
  rw [tokens_append h]
  exact hs.append ht

theorem text_word {w : String} (hw : IsWord w) (h : IsNeutral w) :
    Encloses max k k (tokens w) := by
  rw [tokens_word hw]
  exact word h

theorem text_intercalate {texts : List String} (h : ∀ t ∈ texts, Encloses max k k (tokens t)) :
    Encloses max k k (tokens (String.intercalate ", " texts)) := by
  have hcomma : Encloses max k k [","] := word (by decide)
  exact tokens_commas (P := Encloses max k k) (quiet rfl)
    (fun _ _ hw hu => hw.append (hcomma.append hu)) h

end Encloses

end EquityScreen.Sql
