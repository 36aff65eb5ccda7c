import EquityScreen.Placeholder
import EquityScreen.Predicate
import Mathlib.Data.List.TakeWhile

namespace EquityScreen.Placeholder

/-- The numbers that stand right after a `$`, whatever their size. -/
def written : List Char → List Nat
  | [] => []
  | c :: rest =>
    if c = '$' ∧ (rest.takeWhile Text.isDigit) ≠ [] then
      Text.digitsValue (rest.takeWhile Text.isDigit) :: written rest
    else written rest

def ofText (text : String) : List Nat := written text.toList

theorem written_append_of_not_mem {a : List Char} (h : '$' ∉ a) (b : List Char) :
    written (a ++ b) = written b := by
  induction a with
  | nil => rfl
  | cons c a ih =>
    obtain ⟨hc, ha⟩ := List.ne_and_not_mem_of_not_mem_cons h
    simp [written, Ne.symm hc, ih ha]

/-- No number runs on into a text that starts with anything but a digit. -/
theorem written_append {a b : List Char} (h : b.takeWhile Text.isDigit = []) :
    written (a ++ b) = written a ++ written b := by
  induction a with
  | nil => rfl
  | cons c a ih =>
    have ht : (a ++ b).takeWhile Text.isDigit = a.takeWhile Text.isDigit := by
      rw [List.takeWhile_append, h, List.append_nil]
      split
      · next hl => exact ((List.takeWhile_prefix _).eq_of_length hl).symm
      · rfl
    rw [List.cons_append, written, written, ht, ih]
    split <;> simp

theorem digitsValue_toDigits (n : Nat) : Text.digitsValue (Nat.toDigits 10 n) = n :=
  Nat.ofDigitChars_ten_toDigits

theorem isDigit_of_mem_toDigits {n : Nat} {c : Char} (h : c ∈ Nat.toDigits 10 n) :
    Text.isDigit c = true :=
  Nat.isDigit_of_mem_toDigits (by decide) (by decide) h

@[simp]
theorem ofText_placeholder (n : Nat) : ofText (Predicate.placeholder n) = [n] := by
  have hall : (Nat.toDigits 10 n).takeWhile Text.isDigit = Nat.toDigits 10 n :=
    List.takeWhile_eq_self_iff.mpr fun c hc => isDigit_of_mem_toDigits hc
  have hrest : written (Nat.toDigits 10 n) = [] := by
    have hd : '$' ∉ Nat.toDigits 10 n := fun h => by
      simpa [Text.isDigit] using isDigit_of_mem_toDigits h
    simpa [written] using written_append_of_not_mem hd []
  have htext : (Predicate.placeholder n).toList = '$' :: Nat.toDigits 10 n := by
    simp [Predicate.placeholder]
  simp [ofText, htext, written, hall, hrest, Nat.toDigits_ne_nil, digitsValue_toDigits]

def IsSilent (text : String) : Prop := '$' ∉ text.toList

instance (text : String) : Decidable (IsSilent text) := inferInstanceAs (Decidable (¬ _))

/-- The characters of a written text are at hand without decoding it. -/
theorem isSilent_ofList {cs : List Char} (h : '$' ∉ cs) : IsSilent (String.ofList cs) := by
  simpa [IsSilent] using h

theorem isSilent_append {s t : String} : IsSilent (s ++ t) ↔ IsSilent s ∧ IsSilent t := by
  simp [IsSilent]

theorem IsSilent.append {s t : String} (hs : IsSilent s) (ht : IsSilent t) : IsSilent (s ++ t) :=
  isSilent_append.mpr ⟨hs, ht⟩

theorem ofText_append_of_isSilent {s : String} (h : IsSilent s) (t : String) :
    ofText (s ++ t) = ofText t := by
  simpa [ofText] using written_append_of_not_mem h t.toList

theorem ofText_eq_nil {s : String} (h : IsSilent s) : ofText s = [] := by
  simpa [ofText, written] using written_append_of_not_mem h []

theorem ofText_append {s t : String} (h : t.toList.takeWhile Text.isDigit = []) :
    ofText (s ++ t) = ofText s ++ ofText t := by
  simpa [ofText] using written_append h

theorem takeWhile_ofList_append {c : Char} (hc : Text.isDigit c = false) (cs : List Char)
    (t : String) : (String.ofList (c :: cs) ++ t).toList.takeWhile Text.isDigit = [] := by
  simp [hc]

theorem ofText_placeholder_append (n : Nat) {s : String} (h : IsSilent s)
    (hd : ∀ t : String, (s ++ t).toList.takeWhile Text.isDigit = []) (t : String) :
    ofText (Predicate.placeholder n ++ (s ++ t)) = n :: ofText t := by
  rw [ofText_append (hd t), ofText_placeholder, ofText_append_of_isSilent h, List.singleton_append]

theorem ofText_intercalate {separator : String} (hs : IsSilent separator)
    (hd : ∀ t : String, (separator ++ t).toList.takeWhile Text.isDigit = []) (ts : List String) :
    ofText (String.intercalate separator ts) = ts.flatMap ofText := by
  induction ts with
  | nil => rfl
  | cons t rest ih =>
    cases rest with
    | nil => simp
    | cons u rest =>
      rw [String.intercalate_cons_cons, String.append_assoc, ofText_append (hd _),
        ofText_append_of_isSilent hs, ih]
      rfl

end EquityScreen.Placeholder
