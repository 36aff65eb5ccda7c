import EquityScreen.Settings

namespace EquityScreen

namespace Text

theorem mem_parts (separator : Char) {c : Char} {cs : List Char} (hc : c ∈ cs) :
    c = separator ∨ ∃ part ∈ parts separator cs, c ∈ part := by
  induction cs with
  | nil => cases hc
  | cons d rest ih =>
    unfold parts
    by_cases hd : d = separator
    · rcases List.mem_cons.mp hc with rfl | hc
      · exact .inl hd
      · obtain h | ⟨part, hp, h⟩ := ih hc
        · exact .inl h
        · exact .inr ⟨part, by simp [hd, hp], h⟩
    · cases hr : parts separator rest with
      | nil =>
        rcases List.mem_cons.mp hc with rfl | hc
        · exact .inr ⟨[c], by simp [hd], by simp⟩
        · obtain h | ⟨part, hp, -⟩ := ih hc
          · exact .inl h
          · simp [hr] at hp
      | cons first others =>
        rcases List.mem_cons.mp hc with rfl | hc
        · exact .inr ⟨c :: first, by simp [hd], by simp⟩
        · obtain h | ⟨part, hp, h⟩ := ih hc
          · exact .inl h
          · rw [hr] at hp
            rcases List.mem_cons.mp hp with rfl | hp
            · exact .inr ⟨d :: part, by simp [hd], by simp [h]⟩
            · exact .inr ⟨part, by simp [hd, hp], h⟩

end Text

namespace Settings

def isNameChar (c : Char) : Bool :=
  isIdentifier.isLetter c || isIdentifier.isNumeral c || c = '_' || c = '.'

theorem isNameChar_of_isIdentifier {cs : List Char} (h : isIdentifier cs = true) :
    ∀ c ∈ cs, isNameChar c = true := by
  cases cs with
  | nil => simp
  | cons d rest =>
    obtain ⟨hd, hr⟩ : (isIdentifier.isLetter d || d = '_') = true ∧ (rest.all fun c =>
        isIdentifier.isLetter c || isIdentifier.isNumeral c || c = '_') = true := by
      simpa [isIdentifier] using h
    intro c hc
    rcases List.mem_cons.mp hc with rfl | hc
    · simp only [Bool.or_eq_true] at hd
      simp only [isNameChar, Bool.or_eq_true]
      exact .inl (hd.imp_left .inl)
    · have hc := List.all_eq_true.mp hr c hc
      simp only [isNameChar, Bool.or_eq_true] at hc ⊢
      exact .inl hc

theorem isNameChar_of_isTableName {name : String} (h : isTableName name = true) :
    ∀ c ∈ name.toList, isNameChar c = true := by
  intro c hc
  have hall : (Text.parts '.' name.toList).all isIdentifier = true := by
    simp only [isTableName, Bool.and_eq_true] at h
    exact h.2
  obtain rfl | ⟨part, hp, hc⟩ := Text.mem_parts '.' hc
  · decide
  · exact isNameChar_of_isIdentifier (List.all_eq_true.mp hall part hp) c hc

theorem ne_empty_of_isTableName {name : String} (h : isTableName name = true) :
    name.toList ≠ [] := by
  intro he
  simp [isTableName, he, Text.parts, isIdentifier] at h

end Settings

namespace TableNames

/-- Names that a query can write as they are. -/
structure IsPlain (names : TableNames) : Prop where
  nonempty : ∀ t, (names.physical t).toList ≠ []
  nameChars : ∀ t, ∀ c ∈ (names.physical t).toList, Settings.isNameChar c = true

end TableNames

theorem Settings.isTableName_of_validate {s : Settings} (h : s.validate = .ok ()) :
    ∀ t ∈ s.tables, isTableName t.2 = true := by
  unfold validate at h
  iterate 4
    split at h
    · cases h
  cases hf : s.tables.find? fun t => !isTableName t.2 with
  | none =>
    intro t ht
    simpa using List.find?_eq_none.mp hf t ht
  | some t => simp [hf] at h

theorem Settings.isPlain_of_validate {s : Settings} (h : s.validate = .ok ()) :
    s.tables.IsPlain := by
  have hname (t : Table) : Settings.isTableName (s.tables.physical t) = true := by
    unfold TableNames.physical
    cases hf : s.tables.find? fun n => n.1 = t.key with
    | none => cases t <;> decide
    | some n => exact isTableName_of_validate h n (List.mem_of_find?_eq_some hf)
  exact ⟨fun t => Settings.ne_empty_of_isTableName (hname t),
    fun t => Settings.isNameChar_of_isTableName (hname t)⟩

end EquityScreen
