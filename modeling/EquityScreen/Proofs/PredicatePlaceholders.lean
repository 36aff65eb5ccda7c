import EquityScreen.Proofs.PlaceholderText
import EquityScreen.Proofs.PlainNames
import EquityScreen.Proofs.ProperPredicate
import Mathlib.Data.List.Basic

namespace EquityScreen

open Placeholder

theorem TableNames.IsPlain.isSilent {names : TableNames} (h : names.IsPlain) (t : Table) :
    IsSilent (names.physical t) := fun hd => by
  have hc := h.nameChars t '$' hd
  revert hc
  decide

theorem isSilent_column : ∀ f ∈ catalog, IsSilent f.column := by decide +kernel

theorem isSilent_letter (s : Source) : IsSilent s.letter := by cases s <;> decide

theorem isSilent_qualified {f : Field} (hf : f ∈ catalog) : IsSilent f.qualified :=
  .append (.append (isSilent_letter f.source) (by decide)) (isSilent_column f hf)

theorem isSilent_of_mem_periodicColumns {column : String} (h : column ∈ periodicColumns) :
    IsSilent column := by
  obtain ⟨f, hf, rfl⟩ := List.mem_map.mp h
  exact isSilent_column f (List.mem_filter.mp hf).1

theorem isSilent_toString (n : Nat) : IsSilent (toString n) := fun h => by
  have hd : '$' ∈ Nat.toDigits 10 n := by simpa using h
  simpa [Text.isDigit] using isDigit_of_mem_toDigits hd

theorem Trailing.isSilent_text {maxLength : Nat} {names : TableNames} (hn : names.IsPlain)
    {w : Trailing} (hw : w ∈ Trailing.upTo maxLength) : IsSilent (w.text names) := by
  have hc := isSilent_of_mem_periodicColumns (Trailing.mem_upTo.mp hw).1
  have hp : IsSilent w.period := by
    unfold Trailing.period
    cases w.unit <;> decide
  have ht := hn.isSilent w.unit.table
  have hl := isSilent_toString w.length
  unfold Trailing.text
  refine .append (.append (.append (.append (.append (.append (.append (.append (.append (.append
    (.append ?_ hc) ?_) hp) ?_) ht) ?_) hc) ?_) hp) ?_) hl <;> exact isSilent_ofList (by decide)

theorem Operand.isSilent_text {maxLength : Nat} {names : TableNames} (hn : names.IsPlain)
    {x : Operand} (hx : x ∈ Operand.upTo maxLength) : IsSilent (x.text names) := by
  have ha := hn.isSilent .annual
  cases x with
  | column f => exact isSilent_qualified (Operand.column_mem_upTo.mp hx)
  | orAnnual f =>
    have hf := (Operand.orAnnual_mem_upTo.mp hx).1
    have hq := isSilent_qualified hf
    have hc := isSilent_column f hf
    unfold Operand.text
    refine .append (.append (.append (.append (.append (.append (.append (.append ?_ hq) ?_) hc) ?_)
      ha) ?_) hc) ?_ <;> exact isSilent_ofList (by decide)
  | aggregate a w =>
    have hw := Trailing.isSilent_text hn (Operand.aggregate_mem_upTo.mp hx)
    unfold Operand.text Operand.aggregateText
    cases a with
    | avg | sum | latest =>
      refine .append (.append ?_ hw) ?_ <;> exact isSilent_ofList (by decide)
    | cagr =>
      refine .append (.append (.append (.append (.append (.append ?_ ?_) ?_) ?_) ?_) hw) ?_ <;>
        exact isSilent_ofList (by decide)

theorem Predicate.isSilent_trendText {maxLength : Nat} {names : TableNames} (hn : names.IsPlain)
    (t : Trend) {w : Trailing} (hw : w ∈ Trailing.upTo maxLength) :
    IsSilent (Predicate.trendText names t w) := by
  have ht := Trailing.isSilent_text hn hw
  have hl := isSilent_toString w.length
  unfold Predicate.trendText
  cases t with
  | increasing | decreasing =>
    refine .append (.append (.append (.append (.append (.append ?_ ht) ?_) hl) ?_) ?_) ?_ <;>
      exact isSilent_ofList (by decide)
  | stable =>
    refine .append (.append (.append (.append ?_ ht) ?_) hl) ?_ <;>
      exact isSilent_ofList (by decide)

namespace Predicate

mutual

def placeholders : Predicate → List Nat
  | .compare _ _ n => [n]
  | .between _ low high | .inside _ low high => [low, high]
  | .present _ p | .missingOr _ p | .not p => p.placeholders
  | .trend _ _ => []
  | .group _ ps => placeholdersOfAll ps

def placeholdersOfAll : List Predicate → List Nat
  | [] => []
  | p :: rest => p.placeholders ++ placeholdersOfAll rest

end

theorem placeholdersOfAll_eq_flatMap (ps : List Predicate) :
    placeholdersOfAll ps = ps.flatMap placeholders := by
  induction ps with
  | nil => rfl
  | cons p rest ih => simp [placeholdersOfAll, ih]

theorem texts_eq_map (names : TableNames) (ps : List Predicate) :
    texts names ps = ps.map (text names) := by
  induction ps with
  | nil => rfl
  | cons p rest ih => simp [texts, ih]

theorem ofText_comparison {left op : String} (hl : IsSilent left) (ho : IsSilent op) (n : Nat) :
    ofText (comparison left op (placeholder n)) = [n] := by
  have hs : IsSilent (left ++ " " ++ op ++ " ") := by
    simp only [isSilent_append, hl, ho, and_true, true_and]
    decide
  rw [comparison, ofText_append_of_isSilent hs, ofText_placeholder]

theorem ofText_guarded {q test : String} (hq : IsSilent q) (ht : IsSilent test) (inner : String) :
    ofText ("(" ++ (q ++ (test ++ (inner ++ ")")))) = ofText inner := by
  rw [ofText_append_of_isSilent (by decide), ofText_append_of_isSilent hq,
    ofText_append_of_isSilent ht, ofText_append (by simp [Text.isDigit]),
    ofText_eq_nil (s := ")") (by decide), List.append_nil]

theorem ofText_text {maxLength : Nat} {names : TableNames} (hn : names.IsPlain) {p : Predicate}
    (hp : p.IsProper maxLength) : ofText (p.text names) = p.placeholders := by
  induction p using Predicate.induction with
  | compare x op n =>
    have hx := Operand.isSilent_text hn hp
    exact ofText_comparison hx (by cases op <;> decide) n
  | between x low high =>
    have hx := Operand.isSilent_text hn hp
    simp only [text, placeholders, String.append_assoc]
    rw [ofText_append_of_isSilent hx, ofText_append_of_isSilent (by decide),
      ofText_placeholder_append low (by decide) (by simp [Text.isDigit]), ofText_placeholder]
  | inside x low high =>
    have hx := Operand.isSilent_text hn hp
    simp only [text, placeholders, comparison, String.append_assoc]
    rw [ofText_append_of_isSilent (by decide), ofText_append_of_isSilent hx,
      ofText_append_of_isSilent (by decide), ofText_append_of_isSilent (by decide),
      ofText_append_of_isSilent (by decide),
      ofText_placeholder_append low (by decide) (by simp [Text.isDigit]),
      ofText_append_of_isSilent hx, ofText_append_of_isSilent (by decide),
      ofText_append_of_isSilent (by decide), ofText_append_of_isSilent (by decide),
      ofText_append (by simp [Text.isDigit]), ofText_placeholder, ofText_eq_nil (by decide)]
    rfl
  | present f p ih =>
    simp only [text, placeholders, String.append_assoc]
    rw [ofText_guarded (isSilent_qualified hp.1) (by decide), ih hp.2]
  | missingOr f p ih =>
    simp only [text, placeholders, String.append_assoc]
    rw [ofText_guarded (isSilent_qualified hp.1) (by decide), ih hp.2]
  | trend t w => exact ofText_eq_nil (isSilent_trendText hn t hp)
  | group c ps ih =>
    have hps := (isProper_group.mp hp).2
    have hsep : IsSilent (" " ++ c.upper ++ " ") := by cases c <;> decide
    rw [text, placeholders, String.append_assoc, ofText_append_of_isSilent (by decide),
      ofText_append (by simp [Text.isDigit]), ofText_eq_nil (s := ")") (by decide), List.append_nil,
      ofText_intercalate hsep (by simp [Text.isDigit]), texts_eq_map, List.flatMap_map,
      placeholdersOfAll_eq_flatMap]
    exact List.flatMap_congr fun p hp => ih p hp (hps p hp)
  | not p ih =>
    rw [text, placeholders, String.append_assoc, ofText_append_of_isSilent (by decide),
      ofText_append (by simp [Text.isDigit]), ih hp, ofText_eq_nil (by decide), List.append_nil]

end Predicate

end EquityScreen
