import EquityScreen.Proofs.CompiledTree

namespace EquityScreen

variable {α : Type}

namespace Predicate

mutual

theorem induction {P : Predicate → Prop} (compare : ∀ x op n, P (.compare x op n))
    (between : ∀ x low high, P (.between x low high))
    (inside : ∀ x low high, P (.inside x low high)) (present : ∀ f p, P p → P (.present f p))
    (missingOr : ∀ f p, P p → P (.missingOr f p)) (trend : ∀ t w, P (.trend t w))
    (group : ∀ c ps, (∀ p ∈ ps, P p) → P (.group c ps)) (not : ∀ p, P p → P (.not p)) : ∀ p, P p
  | .compare x op n => compare x op n
  | .between x low high => between x low high
  | .inside x low high => inside x low high
  | .present f p =>
    present f p (induction compare between inside present missingOr trend group not p)
  | .missingOr f p =>
    missingOr f p (induction compare between inside present missingOr trend group not p)
  | .trend t w => trend t w
  | .group c ps =>
    group c ps (inductionAll compare between inside present missingOr trend group not ps)
  | .not p => not p (induction compare between inside present missingOr trend group not p)

theorem inductionAll {P : Predicate → Prop} (compare : ∀ x op n, P (.compare x op n))
    (between : ∀ x low high, P (.between x low high))
    (inside : ∀ x low high, P (.inside x low high)) (present : ∀ f p, P p → P (.present f p))
    (missingOr : ∀ f p, P p → P (.missingOr f p)) (trend : ∀ t w, P (.trend t w))
    (group : ∀ c ps, (∀ p ∈ ps, P p) → P (.group c ps)) (not : ∀ p, P p → P (.not p)) :
    ∀ ps : List Predicate, ∀ p ∈ ps, P p
  | [] => fun _ h => nomatch h
  | p :: rest => List.forall_mem_cons.mpr
      ⟨induction compare between inside present missingOr trend group not p,
        inductionAll compare between inside present missingOr trend group not rest⟩

end

end Predicate

def periodicColumns : List String := (catalog.filter Field.isPeriodic).map (·.column)

def Trailing.upTo (maxLength : Nat) : List Trailing :=
  [WindowUnit.quarters, .years].flatMap fun unit =>
    periodicColumns.flatMap fun column =>
      (List.range maxLength).map fun n => ⟨unit, column, n + 1⟩

def Operand.upTo (maxLength : Nat) : List Operand :=
  catalog.map .column ++ (catalog.filter Field.isPeriodic).map .orAnnual ++
    [Aggregation.avg, .sum, .latest, .cagr].flatMap fun a =>
      (Trailing.upTo maxLength).map (.aggregate a)

theorem Trailing.mem_upTo {maxLength : Nat} {w : Trailing} :
    w ∈ Trailing.upTo maxLength ↔
      w.column ∈ periodicColumns ∧ 1 ≤ w.length ∧ w.length ≤ maxLength := by
  obtain ⟨unit, column, length⟩ := w
  simp only [Trailing.upTo, List.mem_flatMap, List.mem_map, List.mem_range, Trailing.mk.injEq]
  constructor
  · rintro ⟨u, -, col, hc, n, hn, rfl, rfl, rfl⟩
    exact ⟨hc, by omega, hn⟩
  · rintro ⟨hc, h1, hl⟩
    exact ⟨unit, by cases unit <;> simp, column, hc, length - 1, by omega, rfl, rfl, by omega⟩

namespace Operand

theorem column_mem_upTo {maxLength : Nat} {f : Field} :
    column f ∈ upTo maxLength ↔ f ∈ catalog := by
  simp [upTo]

theorem orAnnual_mem_upTo {maxLength : Nat} {f : Field} :
    orAnnual f ∈ upTo maxLength ↔ f ∈ catalog ∧ f.isPeriodic = true := by
  simp [upTo]

theorem aggregate_mem_upTo {maxLength : Nat} {a : Aggregation} {w : Trailing} :
    aggregate a w ∈ upTo maxLength ↔ w ∈ Trailing.upTo maxLength := by
  cases a <;> simp [upTo]

end Operand

theorem mem_periodicColumns {f : Field} (hf : f ∈ catalog) (hp : f.isPeriodic = true) :
    f.column ∈ periodicColumns :=
  List.mem_map_of_mem (List.mem_filter.mpr ⟨hf, hp⟩)

theorem field?_mem {name : String} {f : Field} (h : field? name = some f) : f ∈ catalog :=
  List.mem_of_find?_eq_some h

namespace Predicate

mutual

def IsProper (maxLength : Nat) : Predicate → Prop
  | .compare x _ _ | .between x _ _ | .inside x _ _ => x ∈ Operand.upTo maxLength
  | .present f p | .missingOr f p => f ∈ catalog ∧ p.IsProper maxLength
  | .trend _ w => w ∈ Trailing.upTo maxLength
  | .group _ ps => ps ≠ [] ∧ AllProper maxLength ps
  | .not p => p.IsProper maxLength

def AllProper (maxLength : Nat) : List Predicate → Prop
  | [] => True
  | p :: rest => p.IsProper maxLength ∧ AllProper maxLength rest

end

theorem allProper_iff {maxLength : Nat} {ps : List Predicate} :
    AllProper maxLength ps ↔ ∀ p ∈ ps, p.IsProper maxLength := by
  induction ps with
  | nil => simp [AllProper]
  | cons p rest ih => simp [AllProper, ih]

theorem isProper_group {maxLength : Nat} {c : Connective} {ps : List Predicate} :
    (Predicate.group c ps).IsProper maxLength ↔ ps ≠ [] ∧ ∀ p ∈ ps, p.IsProper maxLength := by
  rw [IsProper, allProper_iff]

end Predicate

namespace Compilation

variable [Quantity α]

theorem operandOf_mem {f : Field} (hf : f ∈ catalog) (policy : MissingPolicy) (maxLength : Nat) :
    operandOf f policy ∈ Operand.upTo maxLength := by
  unfold operandOf
  split
  · next h =>
    have hp : f.isPeriodic = true := by simp_all
    exact Operand.orAnnual_mem_upTo.mpr ⟨hf, hp⟩
  · exact Operand.column_mem_upTo.mpr hf

omit [Quantity α] in
theorem withPolicy_isProper {maxLength : Nat} {f : Field} {p : Predicate} (hf : f ∈ catalog)
    (policy : MissingPolicy) (hp : p.IsProper maxLength) :
    (withPolicy f policy p).IsProper maxLength := by
  cases policy <;> simp [withPolicy, Predicate.IsProper, hf, hp]

theorem count?_pos {v : Literal α} {n : Nat} (h : v.count? = some n) : 1 ≤ n := by
  have whole {i : Int} (h : Literal.count?.ofWhole i = some n) : 1 ≤ n := by
    unfold Literal.count?.ofWhole at h
    split at h
    · next hi =>
      have hp : 0 < i := by simp_all
      cases h
      omega
    · cases h
  cases v with
  | int i => exact whole h
  | real x =>
    obtain ⟨i, -, hi⟩ := Option.bind_eq_some_iff.mp h
    exact whole hi
  | text | bool | null => cases h

theorem count?_of_spec? {w : Window α} {spec : WindowSpec} (h : w.spec? = some spec) :
    w.length.bind Literal.count? = some spec.length := by
  unfold Window.spec? at h
  split at h
  · next hl _ =>
    cases h
    exact hl
  · next hl _ =>
    cases h
    exact hl
  · cases h

theorem spec?_length_pos {w : Window α} {spec : WindowSpec} (h : w.spec? = some spec) :
    1 ≤ spec.length := by
  obtain ⟨v, -, hv⟩ := Option.bind_eq_some_iff.mp (count?_of_spec? h)
  exact count?_pos hv

theorem span?_eq_some {r : Range α} {s : Span α} (h : r.span? = some s) :
    s = ⟨r.lower?, r.upper?, r.isInclusive⟩ ∧ (s.min.isSome || s.max.isSome) = true := by
  unfold Range.span? at h
  split at h
  · next hb =>
    cases h
    simp only [Bool.and_eq_true] at hb
    obtain ⟨⟨hs, hl⟩, hh⟩ := hb
    refine ⟨rfl, ?_⟩
    simpa [Range.lower?, Range.upper?, isSome_bind_number? hl, isSome_bind_number? hh] using hs
  · cases h

omit [Quantity α] in
theorem spanPredicate_isProper {maxLength : Nat} {x : Operand} (hx : x ∈ Operand.upTo maxLength)
    (n : Nat) {s : Span α} (hs : (s.min.isSome || s.max.isSome) = true) :
    (spanPredicate x n s).1.IsProper maxLength := by
  obtain ⟨_ | low, _ | high, inclusive⟩ := s
  · simp at hs
  all_goals cases inclusive <;> simpa [spanPredicate, Predicate.IsProper] using hx

theorem Compiles.isProper {maxLength n : Nat} {c : Condition α} {d : CompiledCondition α}
    {p : Predicate} (h : Compiles maxLength n c d) (hp : d.predicate = some p) :
    p.IsProper maxLength := by
  cases h with
  | comparison on =>
    cases hp
    have hf := field?_mem on.field
    exact withPolicy_isProper hf _ (by simpa [Predicate.IsProper] using operandOf_mem hf _ _)
  | range on _ _ hs =>
    cases hp
    have hf := field?_mem on.field
    exact withPolicy_isProper hf _
      (spanPredicate_isProper (operandOf_mem hf _ _) n (span?_eq_some hs).2)
  | trend on _ _ _ _ hs hl hper =>
    cases hp
    have hc := mem_periodicColumns (field?_mem on.field) hper
    exact Trailing.mem_upTo.mpr ⟨hc, spec?_length_pos hs, hl⟩
  | window on _ _ _ hs hl hper =>
    cases hp
    have hc := mem_periodicColumns (field?_mem on.field) hper
    exact Operand.aggregate_mem_upTo.mpr (Trailing.mem_upTo.mpr ⟨hc, spec?_length_pos hs, hl⟩)
  | derivedRange => cases hp
  | derivedComparison => cases hp

omit [Quantity α] in
theorem joined_isProper {maxLength : Nat} (c : Connective) {ps : List Predicate}
    (h : ∀ p ∈ ps, p.IsProper maxLength) : ∀ p ∈ Fragment.joined c ps, p.IsProper maxLength := by
  match ps with
  | [] => simp [Fragment.joined]
  | [p] => simpa [Fragment.joined] using h
  | p :: q :: rest => simpa [Fragment.joined, Predicate.isProper_group] using h

/-- Every predicate that a tree compiles to is proper. -/
theorem compileNode_isProper {maxLength n : Nat} {conjunctive : Bool} {f : Filter α}
    {g : Fragment α} (h : compileNode maxLength n conjunctive f = .ok g) :
    ∀ p ∈ g.predicate, p.IsProper maxLength := by
  refine compileNode_induction (P := fun _ _ _ g => ∀ p ∈ g.predicate, p.IsProper maxLength)
    ?base ?derived ?not ?group h
  case base =>
    intro n _ c d p hd hp q hq
    cases hq
    exact hd.isProper hp
  case derived => simp
  case not =>
    intro n _ child inner ih p hp
    obtain ⟨q, hq, rfl⟩ := Option.map_eq_some_iff.mp hp
    exact ih q hq
  case group =>
    intro n _ c children gs hgs
    have hall : ∀ g ∈ gs, ∀ p ∈ g.predicate, p.IsProper maxLength := by
      induction hgs with
      | nil => simp
      | cons hr _ ih => exact List.forall_mem_cons.mpr ⟨hr, ih⟩
    refine joined_isProper c fun p hp => ?_
    obtain ⟨g, hg, hp⟩ := List.mem_filterMap.mp hp
    exact hall g hg p hp

end Compilation

end EquityScreen
