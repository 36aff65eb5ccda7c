import EquityScreen.Proofs.ValidationPasses
import EquityScreen.Quantity.Rational

namespace EquityScreen

namespace Bound

def IsBelow (b : Bound ℚ) (x : ℚ) : Prop := if b.inclusive then b.value ≤ x else b.value < x

def IsAbove (b : Bound ℚ) (x : ℚ) : Prop := if b.inclusive then x ≤ b.value else x < b.value

@[simp]
theorem isBelow_loose (v x : ℚ) : IsBelow ⟨v, true⟩ x ↔ v ≤ x := Iff.rfl

@[simp]
theorem isBelow_strict (v x : ℚ) : IsBelow ⟨v, false⟩ x ↔ v < x := Iff.rfl

@[simp]
theorem isAbove_loose (v x : ℚ) : IsAbove ⟨v, true⟩ x ↔ x ≤ v := Iff.rfl

@[simp]
theorem isAbove_strict (v x : ℚ) : IsAbove ⟨v, false⟩ x ↔ x < v := Iff.rfl

end Bound

/-- What a comparison with a bound value demands of a number. An inequation excludes one number
only and is not tracked. -/
def Operator.Demands (op : Operator) (v x : ℚ) : Prop :=
  match op with
  | .lt => x < v
  | .le => x ≤ v
  | .gt => v < x
  | .ge => v ≤ x
  | .eq => x = v
  | .ne => True

/-- What a range demands of a number: to lie within the bounds that are numbers. A range whose
bounds are inverted demands nothing. -/
def Range.Demands (r : Range ℚ) (x : ℚ) : Prop :=
  (∀ low ∈ r.lower?, ∀ high ∈ r.upper?, low ≤ high) →
    (∀ low ∈ r.lower?, Bound.IsBelow ⟨low, r.isInclusive⟩ x) ∧
      ∀ high ∈ r.upper?, Bound.IsAbove ⟨high, r.isInclusive⟩ x

/-- Does a condition admit a number in its field? Over a window it speaks of something else and
admits all. -/
structure Condition.Admits (c : Condition ℚ) (x : ℚ) : Prop where
  comparison : c.window = none → ∀ word, c.operator = some word →
    ∀ op, Operator.read word = .ok op → ∀ l, c.value = some l →
    ∀ v, l.number? = some v → op.Demands v x
  range : c.window = none → ∀ r, c.range = some r → r.Demands x

namespace Bound

variable {old new : Bound ℚ} {x : ℚ}

theorem isBelow_of_kept
    (h : new.value < old.value ∨ old.value = new.value ∧ old.inclusive = false)
    (ho : old.IsBelow x) : new.IsBelow x := by
  obtain ⟨o, _ | _⟩ := old <;> obtain ⟨n, _ | _⟩ := new <;> simp at h ho ⊢ <;> grind

theorem isBelow_of_replaced
    (h : ¬ (new.value < old.value ∨ old.value = new.value ∧ old.inclusive = false))
    (hn : new.IsBelow x) : old.IsBelow x := by
  obtain ⟨o, _ | _⟩ := old <;> obtain ⟨n, _ | _⟩ := new <;> simp at h hn ⊢ <;> grind

theorem isAbove_of_kept
    (h : old.value < new.value ∨ old.value = new.value ∧ old.inclusive = false)
    (ho : old.IsAbove x) : new.IsAbove x := by
  obtain ⟨o, _ | _⟩ := old <;> obtain ⟨n, _ | _⟩ := new <;> simp at h ho ⊢ <;> grind

theorem isAbove_of_replaced
    (h : ¬ (old.value < new.value ∨ old.value = new.value ∧ old.inclusive = false))
    (hn : new.IsAbove x) : old.IsAbove x := by
  obtain ⟨o, _ | _⟩ := old <;> obtain ⟨n, _ | _⟩ := new <;> simp at h hn ⊢ <;> grind

end Bound

namespace Bounds

structure Allows (b : Bounds ℚ) (x : ℚ) : Prop where
  lower : ∀ low ∈ b.lower, low.IsBelow x
  upper : ∀ high ∈ b.upper, high.IsAbove x

variable {b : Bounds ℚ} {x v : ℚ} {new : Bound ℚ}

theorem allows_unbounded (x : ℚ) : Allows unbounded x := ⟨nofun, nofun⟩

theorem allows_iff {lower upper : Option (Bound ℚ)} : Allows ⟨lower, upper⟩ x ↔
    (∀ low ∈ lower, low.IsBelow x) ∧ ∀ high ∈ upper, high.IsAbove x :=
  ⟨fun h => ⟨h.lower, h.upper⟩, fun h => ⟨h.1, h.2⟩⟩

theorem allows_raise : (b.raise new).Allows x ↔ b.Allows x ∧ new.IsBelow x := by
  obtain ⟨_ | old, upper⟩ := b
  · simp [raise, allows_iff, and_comm]
  · simp only [raise, Bool.or_eq_true, Bool.and_eq_true, Rational.less_iff, Rational.same_iff,
      Bool.not_eq_true']
    split
    · next hkept =>
      simp only [allows_iff, Option.mem_some_iff, forall_eq']
      exact ⟨fun h => ⟨h, Bound.isBelow_of_kept hkept h.1⟩, fun h => h.1⟩
    · next hreplaced =>
      simp only [allows_iff, Option.mem_some_iff, forall_eq']
      exact ⟨fun h => ⟨⟨Bound.isBelow_of_replaced hreplaced h.1, h.2⟩, h.1⟩, fun h => ⟨h.2, h.1.2⟩⟩

theorem allows_reduce : (b.reduce new).Allows x ↔ b.Allows x ∧ new.IsAbove x := by
  obtain ⟨lower, _ | old⟩ := b
  · simp [reduce, allows_iff]
  · simp only [reduce, Bool.or_eq_true, Bool.and_eq_true, Rational.less_iff, Rational.same_iff,
      Bool.not_eq_true']
    split
    · next hkept =>
      simp only [allows_iff, Option.mem_some_iff, forall_eq']
      exact ⟨fun h => ⟨h, Bound.isAbove_of_kept hkept h.2⟩, fun h => h.1⟩
    · next hreplaced =>
      simp only [allows_iff, Option.mem_some_iff, forall_eq']
      exact ⟨fun h => ⟨⟨h.1, Bound.isAbove_of_replaced hreplaced h.2⟩, h.2⟩, fun h => ⟨h.1.1, h.2⟩⟩

theorem allows_compare {op : Operator} :
    (b.compare op v).Allows x ↔ b.Allows x ∧ op.Demands v x := by
  cases op with
  | lt => exact allows_reduce
  | le => exact allows_reduce
  | gt => exact allows_raise
  | ge => exact allows_raise
  | ne => exact (and_iff_left trivial).symm
  | eq =>
    have hboth : v ≤ x ∧ x ≤ v ↔ x = v := antisymm_iff.trans eq_comm
    simp only [compare, allows_reduce, allows_raise, and_assoc, Bound.isBelow_loose,
      Bound.isAbove_loose, hboth, Operator.Demands]

theorem isInverted_eq_false {min max : Option ℚ} :
    isInverted min max = false ↔ ∀ low ∈ min, ∀ high ∈ max, low ≤ high := by
  cases min <;> cases max <;> simp [isInverted, ← Bool.not_eq_true]

theorem allows_within {r : Range ℚ} : (b.within r).Allows x ↔ b.Allows x ∧ r.Demands x := by
  unfold within Range.Demands
  rw [← isInverted_eq_false]
  cases isInverted r.lower? r.upper? with
  | true => simp
  | false =>
    cases r.lower? <;> cases r.upper? <;> simp [allows_raise, allows_reduce, and_assoc]

end Bounds

theorem Condition.operator_or_range {α : Type} {c : Condition α}
    (h : Validation.checkShape c = []) : c.operator = none ∨ c.range = none := by
  simp only [Validation.checkShape] at h
  split at h
  · cases h
  · simp only [List.append_eq_nil_iff, Validation.when_eq_nil, decide_eq_false_iff_not] at h
    have hone : ¬ 1 < c.shapes := h.1.1.1.2
    unfold shapes at hone
    cases ho : c.operator <;> cases hr : c.range <;> simp [ho, hr] at hone ⊢
    omega

namespace Bounds

variable {b : Bounds ℚ} {x : ℚ} {c : Condition ℚ}

theorem admits_of_window (h : c.window.isSome = true) (x : ℚ) : c.Admits x := by
  constructor <;> intro hw <;> simp [hw] at h

theorem admits_comparison (hw : c.window = none) (hr : c.range = none) : c.Admits x ↔
    ∀ word, c.operator = some word → ∀ op, Operator.read word = .ok op → ∀ l, c.value = some l →
      ∀ v, l.number? = some v → op.Demands v x :=
  ⟨fun h => h.comparison hw, fun h => ⟨fun _ => h, fun _ r hr' => by simp [hr] at hr'⟩⟩

theorem admits_range (hw : c.window = none) (ho : c.operator = none) :
    c.Admits x ↔ ∀ r, c.range = some r → r.Demands x :=
  ⟨fun h => h.range hw, fun h => ⟨fun _ word ho' => by simp [ho] at ho', fun _ => h⟩⟩

theorem allows_restrict (hc : c.operator = none ∨ c.range = none) :
    (b.restrict c).Allows x ↔ b.Allows x ∧ c.Admits x := by
  unfold restrict
  cases hw : c.window with
  | some w => simp [admits_of_window (c := c) (x := x) (by simp [hw])]
  | none =>
    simp only [Option.isSome_none, Bool.false_eq_true, if_false]
    cases hr : c.range with
    | some r =>
      have ho : c.operator = none := by simpa [hr] using hc
      simp [ho, admits_range hw ho, hr, allows_within]
    | none =>
      rw [admits_comparison hw hr]
      cases ho : c.operator with
      | none => simp
      | some word =>
        cases hv : c.value with
        | none => simp
        | some l =>
          cases hop : Operator.read word with
          | error u => simp [hop]
          | ok op =>
            cases hn : l.number? with
            | none => simp [hn]
            | some v => simp [hop, hn, allows_compare]

/-- Rationals are dense, so bounds with no number between them cross each other. -/
theorem crossed_iff {low high : Bound ℚ} :
    (high.value < low.value ∨
      low.value = high.value ∧ (low.inclusive && high.inclusive) = false) ↔
    ¬ ∃ x, low.IsBelow x ∧ high.IsAbove x := by
  constructor
  · rintro h ⟨x, hl, hh⟩
    obtain ⟨l, _ | _⟩ := low <;> obtain ⟨u, _ | _⟩ := high <;> simp at h hl hh <;> grind
  · intro h
    by_contra hcrossed
    rw [not_or, not_lt] at hcrossed
    obtain ⟨hle, hmeet⟩ := hcrossed
    obtain heq | hlt := hle.eq_or_lt
    · refine h ⟨low.value, ?_⟩
      obtain ⟨l, _ | _⟩ := low <;> obtain ⟨u, _ | _⟩ := high <;> simp_all
    · obtain ⟨x, hlx, hxu⟩ := exists_between hlt
      refine h ⟨x, ?_⟩
      obtain ⟨l, _ | _⟩ := low <;> obtain ⟨u, _ | _⟩ := high <;> simp [hlx, hxu, hlx.le, hxu.le]

/-- Bounds are empty exactly if they allow no number. A single bound allows some, since rationals
have no ends. -/
theorem isEmpty_iff : b.isEmpty = true ↔ ¬ ∃ x, b.Allows x := by
  obtain ⟨_ | low, _ | high⟩ := b
  · simp [isEmpty, allows_iff]
  · obtain ⟨x, hx⟩ := exists_lt high.value
    have hallowed : high.IsAbove x := by
      obtain ⟨u, _ | _⟩ := high <;> simp_all [le_of_lt]
    simpa [isEmpty, allows_iff] using ⟨x, hallowed⟩
  · obtain ⟨x, hx⟩ := exists_gt low.value
    have hallowed : low.IsBelow x := by
      obtain ⟨l, _ | _⟩ := low <;> simp_all [le_of_lt]
    simpa [isEmpty, allows_iff] using ⟨x, hallowed⟩
  · simp only [isEmpty, Bool.or_eq_true, Bool.and_eq_true, Rational.less_iff, Rational.same_iff,
      Bool.not_eq_true', crossed_iff, allows_iff, Option.mem_some_iff, forall_eq']

end Bounds

end EquityScreen
