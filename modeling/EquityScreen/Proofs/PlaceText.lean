import EquityScreen.Proofs.PlaceholderText
import EquityScreen.Request

namespace EquityScreen

def Step.IsPlain : Step → Prop
  | .key k => k ≠ "" ∧ ∀ c ∈ k.toList, c.isAlpha = true ∨ c = '_'
  | .index _ => True

instance : DecidablePred Step.IsPlain
  | .key k => decidable_of_iff (k ≠ "" ∧ k.toList.all fun c => c.isAlpha || c == '_') (by
      simp [Step.IsPlain])
  | .index _ => inferInstanceAs (Decidable True)

namespace Path

def IsPlain (p : Path) : Prop := ∀ s ∈ p, s.IsPlain

theorem IsPlain.nil : IsPlain [] := fun _ h => absurd h List.not_mem_nil

theorem IsPlain.cons {s : Step} {p : Path} (hs : s.IsPlain) (hp : p.IsPlain) :
    IsPlain (s :: p) :=
  List.forall_mem_cons.mpr ⟨hs, hp⟩

/-- The key that the characters before a separator spell; there is none right after an index. -/
def spelled (word : List Char) : Path := if word = [] then [] else [.key (String.ofList word)]

/-- The steps that a text writes, when `word` stands between the last separator and the text. -/
def steps (word : List Char) : List Char → Path
  | [] => spelled word
  | c :: rest =>
    if c = '.' ∨ c = '[' then spelled word ++ steps [] rest
    else if c = ']' then .index (Text.digitsValue word) :: steps [] rest
    else steps (word ++ [c]) rest

def ofText (text : String) : Path := if text = "$" then [] else steps [] text.toList

theorem steps_append_separator {c : Char} (hc : c = '.' ∨ c = '[') (word before after : List Char) :
    steps word (before ++ c :: after) = steps word before ++ steps [] after := by
  induction before generalizing word with
  | nil => simp [steps, hc]
  | cons d before ih =>
    simp only [List.cons_append, steps, ih]
    split_ifs <;> simp

theorem steps_append_word (word : List Char) {cs : List Char}
    (h : ∀ c ∈ cs, c ≠ '.' ∧ c ≠ '[' ∧ c ≠ ']') (after : List Char) :
    steps word (cs ++ after) = steps (word ++ cs) after := by
  induction cs generalizing word with
  | nil => simp
  | cons c cs ih =>
    obtain ⟨⟨hpoint, hopen, hclose⟩, hcs⟩ := List.forall_mem_cons.mp h
    simp only [List.cons_append, steps, hpoint, hopen, hclose, or_self, if_false, ih _ hcs]
    simp

theorem steps_key {k : String} (h : (Step.key k).IsPlain) : steps [] k.toList = [.key k] := by
  have hplain : ∀ c ∈ k.toList, c ≠ '.' ∧ c ≠ '[' ∧ c ≠ ']' := by
    intro c hc
    rcases h.2 c hc with hletter | rfl
    · refine ⟨?_, ?_, ?_⟩ <;> rintro rfl <;> exact absurd hletter (by decide)
    · decide
  have hne : k.toList ≠ [] := by simpa using h.1
  have hword := steps_append_word [] hplain []
  rw [List.append_nil] at hword
  simp [hword, steps, spelled, h.1]

theorem steps_index (i : Nat) : steps [] ((toString i).toList ++ [']']) = [.index i] := by
  have hdigit : ∀ c ∈ (toString i).toList, c ≠ '.' ∧ c ≠ '[' ∧ c ≠ ']' := by
    intro c hc
    have hd := Placeholder.isDigit_of_mem_toDigits (by simpa using hc : c ∈ Nat.toDigits 10 i)
    refine ⟨?_, ?_, ?_⟩ <;> rintro rfl <;> exact absurd hd (by decide)
  rw [steps_append_word [] hdigit]
  simp [steps, spelled, Placeholder.digitsValue_toDigits]

theorem steps_textFrom {p : Path} (h : p.IsPlain) (written : String) :
    steps [] (textFrom written p).toList = steps [] written.toList ++ p := by
  induction p generalizing written with
  | nil => simp [textFrom]
  | cons s p ih =>
    obtain ⟨hs, hp⟩ := List.forall_mem_cons.mp h
    cases s with
    | key k =>
      rw [textFrom, ih hp]
      by_cases hw : written = ""
      · subst hw
        simp [steps, spelled, steps_key hs]
      · have hempty : written.isEmpty = false := by simpa using hw
        have hdot := steps_append_separator (.inl rfl : '.' = '.' ∨ '.' = '[') [] written.toList
          k.toList
        simp [hempty, hdot, steps_key hs]
    | index i =>
      rw [textFrom, ih hp]
      have hopen := steps_append_separator (.inr rfl : '[' = '.' ∨ '[' = '[') [] written.toList
        ((toString i).toList ++ [']'])
      have htext : (written ++ "[" ++ toString i ++ "]").toList
          = written.toList ++ '[' :: ((toString i).toList ++ [']']) := by simp
      rw [htext, hopen, steps_index]
      simp

/-- The text of a place names that place. -/
theorem ofText_text {p : Path} (h : p.IsPlain) : ofText p.text = p := by
  have hsteps := steps_textFrom h ""
  have hnil : steps [] "".toList = [] := rfl
  rw [hnil, List.nil_append] at hsteps
  by_cases hempty : textFrom "" p = ""
  · obtain rfl : p = [] := by rw [← hsteps, hempty, hnil]
    rfl
  · have htext : p.text = textFrom "" p := by simp [text, hempty]
    have hroot : textFrom "" p ≠ "$" := by
      intro hroot
      rw [hroot] at hsteps
      have hdollar : Step.key "$" ∈ p := by
        rw [← hsteps]
        decide
      exact absurd (h _ hdollar) (by decide)
    simp [htext, ofText, hroot, hsteps]

end Path

end EquityScreen
