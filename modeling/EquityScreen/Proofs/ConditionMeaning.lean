import EquityScreen.Database.Answer
import EquityScreen.Proofs.FilterTruth
import EquityScreen.Proofs.PredicateReading
import EquityScreen.Proofs.ValidatedTree

namespace EquityScreen

variable {α : Type}

/-- The placeholders from number `n` on have the values of the literals. -/
def Binds (bound : Nat → Cell α) (n : Nat) (params : List (Literal α)) : Prop :=
  ∀ i l, params[i]? = some l → bound (n + i) = (Parameter.literal l).cell

theorem Database.binds_bound (params : List (Literal α)) : Binds (bound params) 1 params := by
  intro i l hl
  rw [bound, Nat.add_sub_cancel_left, hl]
  rfl

namespace Binds

variable {bound : Nat → Cell α} {n : Nat} {ls ms : List (Literal α)}

theorem left (h : Binds bound n (ls ++ ms)) : Binds bound n ls := by
  intro i l hl
  have hi := (List.getElem?_eq_some_iff.mp hl).1
  exact h i l (by rw [List.getElem?_append_left hi, hl])

theorem right (h : Binds bound n (ls ++ ms)) : Binds bound (n + ls.length) ms := by
  intro i l hl
  rw [Nat.add_assoc]
  exact h (ls.length + i) l (by rw [List.getElem?_append_right (by omega),
    Nat.add_sub_cancel_left, hl])

end Binds

variable [Quantity α]

theorem Field.compares_null (f : Field) (op : Operator) (l : Literal α) :
    f.compares op l .null = .unknown := rfl

theorem Field.within_null (f : Field) {s : Span α} (hs : (s.min.isSome || s.max.isSome) = true) :
    f.within s .null = .unknown := by
  obtain ⟨_ | low, _ | high, inclusive⟩ := s
  · simp at hs
  all_goals rfl

namespace Compilation

open Predicate Validation

variable {h : History α} {bound : Nat → Cell α} {c : Candidate α} {f : Field}
  {policy : MissingPolicy}

/-- A numeric literal is compared as it stands, so it does not matter that a column which falls back
to annual values lends it no affinity. -/
theorem adapt_operandOf (hf : f ∈ catalog) (policy : MissingPolicy) {l : Literal α}
    (hl : f.kind = .numeric → l.isNumeric = true) :
    (operandOf f policy).adapt (Parameter.literal l).cell =
      (Operand.column f).adapt (Parameter.literal l).cell := by
  unfold operandOf
  split
  · next h =>
    have hp : f.isPeriodic = true := by simp_all
    have hk := kind_of_isPeriodic f hf hp
    have hn := hl hk
    cases l with
    | int | real => simp [Operand.adapt, hk, Parameter.cell, Affinity.adapt, Affinity.unflag]
    | text | bool | null => cases hn
  · rfl

theorem compareWith_operandOf (hf : f ∈ catalog) (policy : MissingPolicy) {l : Literal α}
    (hl : f.kind = .numeric → l.isNumeric = true) {n : Nat}
    (hb : bound n = (Parameter.literal l).cell) (op : Operator) :
    compareWith h bound c (operandOf f policy) op n =
      f.compares op l ((operandOf f policy).value h c) := by
  rw [compareWith, hb, adapt_operandOf hf policy hl, Field.compares]

theorem spanPredicate_truth (hf : f ∈ catalog) (policy : MissingPolicy) {n : Nat} {s : Span α}
    (hs : (s.min.isSome || s.max.isSome) = true)
    (hb : Binds bound n (spanPredicate (operandOf f policy) n s).2) :
    (spanPredicate (operandOf f policy) n s).1.truth h bound c =
      f.within s ((operandOf f policy).value h c) := by
  have hcompare {k : Nat} {x : α} (hx : bound k = (Parameter.literal (.real x)).cell)
      (op : Operator) : compareWith h bound c (operandOf f policy) op k =
        f.compares op (.real x) ((operandOf f policy).value h c) :=
    compareWith_operandOf hf policy (fun _ => rfl) hx op
  obtain ⟨_ | low, _ | high, inclusive⟩ := s
  · simp at hs
  · have hhigh : bound n = _ := hb 0 _ rfl
    cases inclusive <;> simp [spanPredicate, truth, Field.within, hcompare hhigh, Truth.yes_and]
  · have hlow : bound n = _ := hb 0 _ rfl
    cases inclusive <;> simp [spanPredicate, truth, Field.within, hcompare hlow, Truth.and_yes]
  · have hlow : bound n = _ := hb 0 _ rfl
    have hhigh := hb 1 _ rfl
    cases inclusive <;>
      simp [spanPredicate, truth, Field.within, hcompare hlow, hcompare hhigh]

theorem operandOf_value (hv : c.get f.source f.column ≠ .null) (policy : MissingPolicy) :
    (operandOf f policy).value h c = c.get f.source f.column := by
  unfold operandOf
  split
  · cases hc : c.get f.source f.column with
    | null => exact absurd hc hv
    | flag | int | real | text => simp [Operand.value, hc, Cell.isNull]
  · rfl

theorem operandOf_value_null (hv : c.get f.source f.column = .null) (policy : MissingPolicy) :
    (operandOf f policy).value h c =
      if policy = .fallback && f.isPeriodic then (f.newestAnnual? h c).getD .null else .null := by
  unfold operandOf
  split
  · simp [Operand.value, hv, Cell.isNull, Field.newestAnnual?]
  · exact hv

theorem tested_of_ne_null (hv : c.get f.source f.column ≠ .null) (test : Cell α → Truth) :
    f.tested policy h c test = test (c.get f.source f.column) := by
  unfold Field.tested
  split <;> first | contradiction | rfl

/-- A policy decides for a missing value as the filter asks, if a test of no value is unknown. -/
theorem withPolicy_truth {p : Predicate} {test : Cell α → Truth} (htest : test .null = .unknown)
    (hp : p.truth h bound c = test ((operandOf f policy).value h c)) :
    (withPolicy f policy p).truth h bound c = f.tested policy h c test := by
  by_cases hv : c.get f.source f.column = .null
  · rw [operandOf_value_null hv] at hp
    have hmissing : isMissing c f = .yes := by rw [isMissing, hv]; rfl
    unfold Field.tested
    cases policy with
    | exclude => simpa [withPolicy, hv, htest] using hp
    | fail => simp [withPolicy, truth, hmissing, hv, Truth.not, Truth.and]
    | ignore => simp [withPolicy, truth, hmissing, hv, Truth.or]
    | fallback =>
      cases hf : f.isPeriodic <;> cases hn : f.newestAnnual? h c <;>
        simpa [withPolicy, hv, hf, hn, htest] using hp
  · rw [operandOf_value hv] at hp
    have hmissing : isMissing c f = .no := by
      cases hc : c.get f.source f.column with
      | null => exact absurd hc hv
      | flag | int | real | text => rw [isMissing, hc]; rfl
    rw [tested_of_ne_null hv]
    cases policy with
    | exclude | fallback => exact hp
    | fail => rw [withPolicy, truth, hmissing, Truth.not, Truth.yes_and, hp]
    | ignore => rw [withPolicy, truth, hmissing, Truth.no_or, hp]

omit [Quantity α] in
theorem isNumeric_of_checkSupport {d : Condition α} (hd : checkSupport d = [])
    (hf : field? d.fieldName = some f) (hk : f.kind = .numeric) :
    ∀ v ∈ d.value, v.isNumeric = true := by
  obtain ⟨f', hf', hfield⟩ | ⟨hnone, -⟩ := field_of_checkSupport hd
  · obtain rfl : f' = f := Option.some.inj (hf'.symm.trans hf)
    exact (facts_of_checkField hfield).2.2 hk
  · rw [hnone] at hf
    cases hf

variable {maxLength n : Nat}

theorem Compiles.truth?_eq {d : Condition α} {e : CompiledCondition α} {p : Predicate}
    (hd : checkSupport d = []) (hcompiles : Compiles maxLength n d e) (hp : e.predicate = some p)
    (hb : Binds bound n e.params) : d.truth? h c = some (p.truth h bound c) := by
  unfold Condition.truth?
  cases hcompiles with
  | @comparison f policy op v on hr ht hw hv =>
    cases hp
    have hbound : bound n = (Parameter.literal v).cell := hb 0 _ rfl
    have hnumeric (hk : f.kind = .numeric) : v.isNumeric = true :=
      isNumeric_of_checkSupport hd on.field hk v (Condition.value_eq_some hv)
    have hcompare : (Predicate.compare (operandOf f policy) op n).truth h bound c =
        f.compares op v _ := compareWith_operandOf (field?_mem on.field) policy hnumeric hbound op
    rw [withPolicy_truth (f.compares_null op v) hcompare]
    simp [on.notDerived, on.field, on.policy, hr, ht, hw, hv]
  | @range f policy r s on hr hw hs =>
    cases hp
    have hsome := (span?_eq_some hs).2
    rw [withPolicy_truth (f.within_null hsome)
      (spanPredicate_truth (field?_mem on.field) policy hsome hb)]
    simp [on.notDerived, on.field, on.policy, hr, hs]
  | @trend f policy word t w spec on hr ht hw htr hs =>
    cases hp
    simp [on.notDerived, on.field, hr, ht, hw, htr, hs, Except.toOption, truth]
  | @window f policy w spec op v on hr ht hw hs _ _ hv =>
    cases hp
    have hbound : bound n = (Parameter.literal v).cell := hb 0 _ rfl
    simp [on.notDerived, on.field, hr, ht, hw, hs, hv, truth, compareWith, hbound, Operand.value,
      Operand.adapt]
  | derivedRange | derivedComparison => cases hp

theorem Compiles.truth?_derived {d : Condition α} {e : CompiledCondition α}
    (hcompiles : Compiles maxLength n d e) (hp : e.predicate = none) :
    d.truth? h c = some .yes := by
  have hderived : isDerived d.fieldName = true := by rw [hcompiles.isDerived_eq, hp]; rfl
  simp [Condition.truth?, hderived]

end Compilation

end EquityScreen
