namespace EquityScreen.Sql

def isMark (c : Char) : Bool := c = '(' || c = ')' || c = ','

def isBreak (c : Char) : Bool := c = ' ' || isMark c

theorem isBreak_eq_false {p : Char → Bool} (hp : [' ', '(', ')', ','].all (fun c => !p c) = true)
    {c : Char} (hc : p c = true) : isBreak c = false := by
  simp only [List.all_cons, List.all_nil, Bool.and_eq_true, Bool.not_eq_true'] at hp
  obtain ⟨hs, ho, hr, hm, -⟩ := hp
  have hne {d : Char} (hd : p d = false) : c ≠ d := by
    rintro rfl
    rw [hd] at hc
    cases hc
  simp [isBreak, isMark, hne hs, hne ho, hne hr, hne hm]

/-- Does a word end where this text starts? -/
def startsApart : List Char → Bool
  | [] => true
  | c :: _ => isBreak c

def split : List Char → List (List Char)
  | [] => []
  | c :: rest =>
    if c = ' ' then split rest
    else if isMark c || startsApart rest then [c] :: split rest
    else match split rest with
      | [] => [[c]]
      | w :: ws => (c :: w) :: ws

def tokens (text : String) : List String := (split text.toList).map String.ofList

/-- A word is a token of its own wherever it stands between breaks. -/
structure IsWord (w : String) : Prop where
  nonempty : w.toList ≠ []
  unbroken : ∀ c ∈ w.toList, isBreak c = false

theorem isWord_iff {w : String} :
    (!w.toList.isEmpty && w.toList.all fun c => !isBreak c) = true ↔ IsWord w := by
  simp only [Bool.and_eq_true, Bool.not_eq_true', List.isEmpty_eq_false_iff, List.all_eq_true]
  exact ⟨fun h => ⟨h.1, h.2⟩, fun h => ⟨h.nonempty, h.unbroken⟩⟩

instance (w : String) : Decidable (IsWord w) := decidable_of_iff _ isWord_iff

theorem split_ne_nil {cs : List Char} (h : startsApart cs = false) : split cs ≠ [] := by
  cases cs with
  | nil => cases h
  | cons c rest =>
    have hb : c ≠ ' ' ∧ isMark c = false := by simpa [startsApart, isBreak] using h
    simp only [split, hb.1, hb.2, if_false, Bool.false_or]
    split
    · simp
    · split <;> simp

theorem split_append {a b : List Char} (h : startsApart b = true ∨ startsApart a.reverse = true) :
    split (a ++ b) = split a ++ split b := by
  induction a with
  | nil => rfl
  | cons c a ih =>
    cases a with
    | nil =>
      have hc : isBreak c = true ∨ startsApart b = true := by simpa [startsApart, or_comm] using h
      by_cases hs : c = ' '
      · simp [split, hs]
      · have hm : (isMark c || startsApart b) = true := by simpa [isBreak, hs] using hc
        have hb : split (c :: b) = [c] :: split b := by rw [split, if_neg hs, if_pos hm]
        simp [hb, split, hs, startsApart]
    | cons d a =>
      have ha : startsApart b = true ∨ startsApart (d :: a).reverse = true := by
        refine h.imp_right fun h => ?_
        cases hr : (d :: a).reverse with
        | nil => simp at hr
        | cons e rest => simpa [hr, startsApart] using h
      have hd : startsApart (d :: a ++ b) = startsApart (d :: a) := rfl
      rw [List.cons_append, split, split, ih ha, hd]
      by_cases hs : c = ' '
      · simp [hs]
      · by_cases hm : (isMark c || startsApart (d :: a)) = true
        · simp [hs, hm]
        · have hn : split (d :: a) ≠ [] := split_ne_nil (by simp_all)
          obtain ⟨w, ws, hw⟩ := List.exists_cons_of_ne_nil hn
          simp [hs, hm, hw]

theorem split_word {w : List Char} (hn : w ≠ []) (hw : ∀ c ∈ w, isBreak c = false) :
    split w = [w] := by
  induction w with
  | nil => exact absurd rfl hn
  | cons c w ih =>
    have hc : c ≠ ' ' ∧ isMark c = false := by simpa [isBreak] using hw c (by simp)
    cases w with
    | nil => simp [split, hc, startsApart]
    | cons d w =>
      have hd : isBreak d = false := hw d (by simp)
      have hs : startsApart (d :: w) = false := hd
      rw [split, ih (by simp) fun e he => hw e (List.mem_cons_of_mem c he)]
      simp [hc, hs]

theorem tokens_append {s t : String}
    (h : startsApart t.toList = true ∨ startsApart s.toList.reverse = true) :
    tokens (s ++ t) = tokens s ++ tokens t := by
  simp [tokens, split_append h]

theorem tokens_word {w : String} (h : IsWord w) : tokens w = [w] := by
  simp [tokens, split_word h.nonempty h.unbroken]

theorem tokens_ofList (cs : List Char) :
    tokens (String.ofList cs) = (split cs).map String.ofList := by
  simp [tokens]

theorem tokens_ofList_append {cs : List Char} (h : startsApart cs.reverse = true) (t : String) :
    tokens (String.ofList cs ++ t) = (split cs).map String.ofList ++ tokens t := by
  rw [tokens_append (.inr (by simpa using h)), tokens_ofList]

theorem tokens_append_ofList (s : String) {cs : List Char} (h : startsApart cs = true) :
    tokens (s ++ String.ofList cs) = tokens s ++ (split cs).map String.ofList := by
  rw [tokens_append (.inl (by simpa using h)), tokens_ofList]

theorem startsApart_ofList_append {c : Char} (hc : isBreak c = true) (cs : List Char)
    (t : String) : startsApart (String.ofList (c :: cs) ++ t).toList = true := by
  simpa [startsApart] using hc

theorem tokens_around {cs : List Char} (h : startsApart cs.reverse = true) {w t : String}
    (hw : IsWord w) (ht : startsApart t.toList = true) :
    tokens (String.ofList cs ++ (w ++ t)) = (split cs).map String.ofList ++ w :: tokens t := by
  rw [tokens_ofList_append h, tokens_append (.inl ht), tokens_word hw, List.singleton_append]

theorem tokens_commas {P : List String → Prop} (nil : P [])
    (cons : ∀ ws us, P ws → P us → P (ws ++ "," :: us)) {texts : List String}
    (h : ∀ t ∈ texts, P (tokens t)) : P (tokens (String.intercalate ", " texts)) := by
  induction texts with
  | nil => exact nil
  | cons t rest ih =>
    obtain ⟨ht, hrest⟩ := List.forall_mem_cons.mp h
    cases rest with
    | nil => simpa using ht
    | cons u rest =>
      rw [String.intercalate_cons_cons, String.append_assoc,
        tokens_append (.inl (startsApart_ofList_append (by decide) _ _)),
        tokens_ofList_append (by decide)]
      exact cons _ _ ht (ih hrest)

theorem IsWord.append {v w : String} (hv : IsWord v) (hw : IsWord w) : IsWord (v ++ w) where
  nonempty h := by
    rw [String.toList_append, List.append_eq_nil_iff] at h
    exact hv.nonempty h.1
  unbroken c hc := by
    rw [String.toList_append, List.mem_append] at hc
    exact hc.elim (hv.unbroken c) (hw.unbroken c)

theorem IsWord.ne {w v : String} (hw : IsWord w) (hv : v.toList.any isBreak = true) : w ≠ v := by
  rintro rfl
  obtain ⟨c, hc, hb⟩ := List.any_eq_true.mp hv
  rw [hw.unbroken c hc] at hb
  cases hb

end EquityScreen.Sql
