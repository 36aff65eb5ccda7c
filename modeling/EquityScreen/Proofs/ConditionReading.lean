import EquityScreen.Compilation

namespace EquityScreen

variable {α : Type}

namespace Condition

/-- The policy for missing values; a condition that names none excludes them. -/
def policy? (c : Condition α) : Option MissingPolicy :=
  match c.onMissing with
  | some word => (MissingPolicy.read word).toOption
  | none => some .exclude

def comparison? (c : Condition α) : Option (Operator × Literal α) :=
  match c.operator.map Operator.read, c.value with
  | some (.ok _), some .null => none
  | some (.ok op), some v => some (op, v)
  | _, _ => none

end Condition

def Range.span? [Quantity α] (r : Range α) : Option (Span α) :=
  if (r.min.isSome || r.max.isSome) && r.min.all Literal.isNumeric && r.max.all Literal.isNumeric
  then some ⟨r.lower?, r.upper?, r.isInclusive⟩ else none

def Window.spec? [Quantity α] (w : Window α) : Option WindowSpec :=
  match w.unit.map WindowUnit.read, w.length.bind Literal.count?,
    w.aggregation.map Aggregation.read with
  | some (.ok unit), some length, none => some ⟨unit, length, none⟩
  | some (.ok unit), some length, some (.ok a) => some ⟨unit, length, some a⟩
  | _, _, _ => none

theorem bind_eq_ok {ε β γ : Type} {x : Except ε β} {f : β → Except ε γ} {c : γ} :
    x >>= f = .ok c ↔ ∃ b, x = .ok b ∧ f b = .ok c := by
  cases x with
  | error e => simp [bind, Except.bind]
  | ok b => simp [bind, Except.bind]

theorem map_eq_ok {ε β γ : Type} {x : Except ε β} {f : β → γ} {c : γ} :
    x.map f = .ok c ↔ ∃ b, x = .ok b ∧ f b = c := by
  cases x with
  | error e => simp [Except.map]
  | ok b => simp [Except.map]

theorem mapError_eq_ok {ε δ β : Type} {x : Except ε β} {f : ε → δ} {b : β} :
    x.mapError f = .ok b ↔ x = .ok b := by
  cases x with
  | error e => exact ⟨nofun, nofun⟩
  | ok a =>
    change Except.ok a = Except.ok b ↔ Except.ok a = Except.ok b
    rw [Except.ok.injEq, Except.ok.injEq]

theorem mapError_eq_error {ε δ β : Type} {x : Except ε β} {f : ε → δ} {e : δ} :
    x.mapError f = .error e ↔ ∃ e', x = .error e' ∧ f e' = e := by
  cases x with
  | error e' =>
    change Except.error (f e') = Except.error e ↔ ∃ d, Except.error e' = Except.error d ∧ f d = e
    simp only [Except.error.injEq, exists_eq_left']
  | ok b =>
    refine iff_of_false (fun h => by cases h) ?_
    rintro ⟨_, h, _⟩
    cases h

namespace Compilation

@[simp]
theorem readWord_ok {β : Type} (field : String) (x : β) :
    readWord (α := α) field (.ok x) = .ok x := rfl

@[simp]
theorem readWord_error {β : Type} (field : String) (u : Unsupported) :
    readWord (α := α) (β := β) field (.error u) =
      .error (.invalidCondition field (.unsupported u)) := rfl

@[simp]
theorem readWord_eq_ok {β : Type} (field : String) (word : Except Unsupported β) (x : β) :
    readWord (α := α) field word = .ok x ↔ word = .ok x := mapError_eq_ok

theorem readComparison_eq_ok (field : String) (c : Condition α) (p : Operator × Literal α) :
    readComparison field c = .ok p ↔ c.comparison? = some p := by
  obtain ⟨f, o, v, r, w, t, m⟩ := c
  cases o with
  | none => simp [readComparison, Condition.comparison?, invalid, bind, Except.bind]
  | some word =>
    cases ho : Operator.read word with
    | error u =>
      simp [readComparison, Condition.comparison?, ho, bind, Except.bind]
    | ok op =>
      rcases v with _ | (_ | _ | _ | _ | _) <;>
        simp [readComparison, Condition.comparison?, ho, bind,
          Except.bind, invalid, pure, Except.pure]

variable [Quantity α]

theorem readBound_eq_ok (field : String) (l : Option (Literal α)) (x : Option α) :
    readBound field l = .ok x ↔ l.all Literal.isNumeric ∧ x = l.bind Literal.number? := by
  cases l with
  | none => simp [readBound, eq_comm]
  | some v => cases v <;> simp [readBound, Literal.number?, Literal.isNumeric, invalid, eq_comm]

theorem isSome_bind_number? {l : Option (Literal α)} (h : l.all Literal.isNumeric) :
    (l.bind Literal.number?).isSome = l.isSome := by
  cases l with
  | none => rfl
  | some v => cases v <;> simp_all [Literal.number?, Literal.isNumeric]

theorem readRange_eq_ok (field : String) (r : Range α) (s : Span α) :
    readRange field r = .ok s ↔ r.span? = some s := by
  simp only [readRange, bind_eq_ok, readBound_eq_ok, Range.span?]
  constructor
  · rintro ⟨low, ⟨hl, rfl⟩, high, ⟨hh, rfl⟩, h⟩
    rw [← Option.not_isSome, ← Option.not_isSome, isSome_bind_number? hl,
      isSome_bind_number? hh, Option.not_isSome, Option.not_isSome] at h
    by_cases hb : r.min.isNone && r.max.isNone
    · simp [hb, invalid] at h
    · simp only [hb, Bool.false_eq_true, if_false, pure, Except.pure, Except.ok.injEq] at h
      have hs : r.min.isSome || r.max.isSome := by
        cases hm : r.min <;> cases hx : r.max <;> simp_all
      simp [hs, hl, hh, ← h, Range.lower?, Range.upper?]
  · intro h
    split at h
    · next hc =>
      simp only [Bool.and_eq_true] at hc
      obtain ⟨⟨hs, hl⟩, hh⟩ := hc
      refine ⟨_, ⟨hl, rfl⟩, _, ⟨hh, rfl⟩, ?_⟩
      rw [← Option.not_isSome, ← Option.not_isSome, isSome_bind_number? hl,
        isSome_bind_number? hh, Option.not_isSome, Option.not_isSome]
      have hb : (r.min.isNone && r.max.isNone) = false := by
        cases hm : r.min <;> cases hx : r.max <;> simp_all
      simpa [hb, pure, Except.pure, Range.lower?, Range.upper?] using h
    · cases h

theorem readWindow_eq_ok (maxLength : Nat) (field : String) (w : Window α) (spec : WindowSpec) :
    readWindow maxLength field w = .ok spec ↔ w.spec? = some spec ∧ spec.length ≤ maxLength := by
  obtain ⟨unit, length, aggregation⟩ := w
  simp only [readWindow, Window.spec?]
  cases unit with
  | none => simp [invalid, bind, Except.bind]
  | some unit =>
    cases hu : WindowUnit.read unit with
    | error e => simp [hu, bind, Except.bind]
    | ok unit =>
      cases hl : length.bind Literal.count? with
      | none => simp [hu, invalid, bind, Except.bind]
      | some n =>
        -- The bound on the length is checked before the aggregation is read.
        rcases aggregation with _ | word
        · by_cases hn : n ≤ maxLength <;>
            simp [hu, hn, invalid, bind, Except.bind, pure, Except.pure]
          · rintro rfl
            exact hn
          · rintro rfl
            exact Nat.not_le.mp hn
        · cases ha : Aggregation.read word with
          | error e =>
            by_cases hn : n ≤ maxLength <;>
              simp [Except.map, hu, hn, ha, invalid, bind, Except.bind]
          | ok a =>
            by_cases hn : n ≤ maxLength <;>
              simp [Except.map, hu, hn, ha, invalid, bind, Except.bind,
                pure, Except.pure]
            · rintro rfl
              exact hn
            · rintro rfl
              exact Nat.not_le.mp hn

end Compilation

end EquityScreen
