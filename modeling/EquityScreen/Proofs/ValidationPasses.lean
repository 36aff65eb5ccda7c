import EquityScreen.Proofs.ParameterOrder

namespace EquityScreen.Validation

variable {α : Type}

@[simp]
theorem when_eq_nil {b : Bool} {v : Violation α} : when b v = [] ↔ b = false := by
  cases b <;> simp [when]

theorem unsupported_eq_nil {β : Type} {report : Unsupported → Violation α}
    {word : Option (Except Unsupported β)} :
    unsupported report word = [] ↔ ∀ w ∈ word, ∃ x, w = .ok x := by
  rcases word with _ | (u | x) <;> simp [unsupported]

theorem shape_of_checkShape {c : Condition α} (h : checkShape c = []) :
    (∃ op v, c.comparison? = some (op, v) ∧ c.range = none ∧ c.trend = none) ∨
    (∃ r, c.range = some r ∧ c.trend = none) ∨
    (∃ word t, c.range = none ∧ c.trend = some word ∧ Trend.read word = .ok t) := by
  simp only [checkShape] at h
  split at h
  · cases h
  · simp only [List.append_eq_nil_iff, when_eq_nil, unsupported_eq_nil] at h
    obtain ⟨⟨⟨⟨hnone, hmany⟩, hop⟩, hvalue⟩, htrend⟩ := h
    have hshapes : c.shapes = 1 := by
      have h0 : c.shapes ≠ 0 := of_decide_eq_false hnone
      have h1 : ¬ 1 < c.shapes := of_decide_eq_false hmany
      omega
    unfold Condition.shapes at hshapes
    cases hr : c.range with
    | some r =>
      cases ht : c.trend with
      | none => exact .inr (.inl ⟨r, rfl, rfl⟩)
      | some word => simp [hr, ht] at hshapes
    | none =>
      cases ht : c.trend with
      | some word =>
        obtain ⟨t, ht'⟩ := htrend (Trend.read word) (by simp [ht])
        exact .inr (.inr ⟨word, t, rfl, rfl, ht'⟩)
      | none =>
        cases ho : c.operator with
        | none => simp [hr, ht, ho] at hshapes
        | some word =>
          obtain ⟨op, hop⟩ := hop (Operator.read word) (by simp [ho])
          unfold Condition.comparison?
          rcases hv : c.value with _ | v
          · simp [ho, hv, checkShape.isMissing] at hvalue
          · cases v with
            | null => simp [ho, hv, checkShape.isMissing] at hvalue
            | int | real | text | bool => simp [ho, hop]

theorem policy?_of_checkPolicy {c : Condition α} (h : checkPolicy c = []) :
    ∃ policy, c.policy? = some policy := by
  unfold checkPolicy at h
  unfold Condition.policy?
  cases hm : c.onMissing with
  | none => exact ⟨_, rfl⟩
  | some word =>
    cases hr : MissingPolicy.read word with
    | error e => simp [hm, hr, Except.isOk, Except.toBool] at h
    | ok policy => exact ⟨policy, by simp [hr, Except.toOption]⟩

variable [Quantity α]

theorem span?_of_checkRange {c : Condition α} (h : checkRange c = []) {r : Range α}
    (hr : c.range = some r) : ∃ s, r.span? = some s := by
  simp only [checkRange, hr] at h
  split at h
  · cases h
  · next hb =>
    rw [List.append_eq_nil_iff] at h
    have h := h.2
    split at h
    · cases h
    · next hn =>
      simp only [Bool.or_eq_true, not_or, Bool.not_eq_true] at hn
      have hmin : r.min.all Literal.isNumeric = true := by
        cases hm : r.min <;> simp_all
      have hmax : r.max.all Literal.isNumeric = true := by
        cases hm : r.max <;> simp_all
      have hsome : (r.min.isSome || r.max.isSome) = true := by
        cases hm : r.min <;> cases hx : r.max <;> simp_all
      exact ⟨_, by rw [Range.span?, hsome, hmin, hmax]; rfl⟩

theorem length_of_checkLength {maxLength : Nat} {c : Condition α} {w : Window α}
    (h : checkLength maxLength c = []) (hw : c.window = some w) :
    ∃ n, w.length.bind Literal.count? = some n ∧ n ≤ maxLength ∧
      (c.trend.isSome = true → 2 ≤ n) := by
  have hp : periods? c = w.length.bind Literal.count? := by simp [periods?, hw]
  simp only [checkLength, hp] at h
  split at h
  · cases h
  · next n hn =>
    split at h
    · cases h
    · next hmax =>
      refine ⟨n, hn, Nat.le_of_not_lt hmax, fun ht => ?_⟩
      have hfew : ¬ n < 2 := by simpa [ht] using h
      omega

/-- The window of a condition is complete, its length is a count within the bound, and a trend has
two periods at least. -/
theorem spec?_of_checks {maxLength : Nat} {c : Condition α}
    (hs : checkSupport c = []) (ht : checkTemporal maxLength c = []) {w : Window α}
    (hw : c.window = some w) :
    ∃ spec, w.spec? = some spec ∧ spec.length ≤ maxLength ∧
      (c.trend.isSome = true → 2 ≤ spec.length) := by
  have hshape : checkWindowShape c.fieldName w = [] := by
    simp only [checkSupport, hw] at hs
    split at hs
    · exact (List.append_eq_nil_iff.mp hs).1
    · split at hs
      · exact hs
      · cases hs
  simp only [checkWindowShape, List.append_eq_nil_iff, when_eq_nil, unsupported_eq_nil] at hshape
  obtain ⟨hcomplete, haggregation⟩ := hshape
  simp only [checkTemporal, hw, List.append_eq_nil_iff, when_eq_nil] at ht
  obtain ⟨hunit, hlength⟩ := ht
  obtain ⟨n, hn, hmax, htrend⟩ := length_of_checkLength hlength hw
  cases hu : w.unit with
  | none => simp [hu] at hcomplete
  | some word =>
    cases hr : WindowUnit.read word with
    | error e => simp [hu, hr, Except.isOk, Except.toBool] at hunit
    | ok unit =>
      cases ha : w.aggregation with
      | none => exact ⟨⟨unit, n, none⟩, by simp [Window.spec?, hu, hr, hn, ha], hmax, htrend⟩
      | some word =>
        obtain ⟨a, hra⟩ := haggregation (Aggregation.read word) (by simp [ha])
        exact ⟨⟨unit, n, some a⟩, by simp [Window.spec?, hu, hr, hn, ha, hra], hmax, htrend⟩

omit [Quantity α] in
/-- The field of a condition is in the catalog unless it is derived, and fits what the condition
asks of it. -/
theorem field_of_checkSupport {c : Condition α} (h : checkSupport c = []) :
    (∃ f, field? c.fieldName = some f ∧ checkField c.fieldName f c = []) ∨
      (field? c.fieldName = none ∧ isDerived c.fieldName = true) := by
  simp only [checkSupport] at h
  split at h
  · next f hf => exact .inl ⟨f, hf, (List.append_eq_nil_iff.mp h).2⟩
  · next hf =>
    split at h
    · next hd => exact .inr ⟨hf, hd⟩
    · cases h

omit [Quantity α] in
theorem facts_of_checkField {name : String} {f : Field} {c : Condition α}
    (h : checkField name f c = []) :
    (c.isDirect = false → f.isPeriodic = true) ∧ (c.range.isSome = true → c.window = none) ∧
      (f.kind = .numeric → ∀ v ∈ c.value, v.isNumeric = true) := by
  simp only [checkField, List.append_eq_nil_iff, when_eq_nil] at h
  obtain ⟨⟨hperiodic, hrange⟩, hkind⟩ := h
  refine ⟨fun hd => by simpa [hd] using hperiodic, fun hr => by simpa [hr] using hrange,
    fun hk v hv => ?_⟩
  simp only [hk, when_eq_nil] at hkind
  simpa using (Option.any_eq_false ..).mp hkind v hv

theorem facts_of_checkDerived {conjunctive : Bool} {c : Condition α}
    (h : checkDerived conjunctive c = []) (hd : isDerived c.fieldName = true) :
    conjunctive = true ∧ c.trend = none ∧ ∀ v ∈ c.value, v.isNumeric = true := by
  obtain ⟨m, hm⟩ := Option.isSome_iff_exists.mp hd
  simp only [checkDerived, hm, List.append_eq_nil_iff, when_eq_nil] at h
  obtain ⟨⟨⟨⟨hconjunctive, htrend⟩, hvalue⟩, -⟩, -⟩ := h
  exact ⟨by simpa using hconjunctive, by simpa using htrend, fun v hv => by
    simpa using (Option.any_eq_false ..).mp hvalue v hv⟩

/-- A condition that the passes over single conditions do not report. -/
structure Accepted (maxLength : Nat) (c : Condition α) : Prop where
  shape : checkShape c = []
  support : checkSupport c = []
  temporal : checkTemporal maxLength c = []
  policy : checkPolicy c = []
  range : checkRange c = []

omit [Quantity α] in
theorem structureOfAll_eq_flatMap (fs : List (Filter α)) :
    structureOfAll fs = fs.flatMap structureOf := by
  induction fs with
  | nil => rfl
  | cons f rest ih => simp [structureOfAll, ih]

theorem derivedOfAll_eq_flatMap (conjunctive : Bool) (fs : List (Filter α)) :
    derivedOfAll conjunctive fs = fs.flatMap (derivedOf conjunctive) := by
  induction fs with
  | nil => rfl
  | cons f rest ih => simp [derivedOfAll, ih]

theorem derivedOf_group (conjunctive : Bool) (c : Connective) (children : List (Filter α)) :
    derivedOf conjunctive (.group c children) =
      children.flatMap (derivedOf (conjunctive && c = .and)) := by
  cases c <;> simp [derivedOf, derivedOfAll_eq_flatMap]

omit [Quantity α] in
theorem checkShape_of_structureOf {f : Filter α} (h : structureOf f = []) :
    ∀ c ∈ f.conditions, checkShape c = [] := by
  induction f using Filter.induction with
  | leaf c => simpa [structureOf] using h
  | not child ih => exact ih (by simpa [structureOf] using h)
  | group c children ih =>
    rw [structureOf, structureOfAll_eq_flatMap, List.append_eq_nil_iff,
      List.flatMap_eq_nil_iff] at h
    intro d hd
    rw [Filter.conditions_group, List.mem_flatMap] at hd
    obtain ⟨f, hf, hd⟩ := hd
    exact ih f hf (h.2 f hf) d hd

theorem violations_eq_nil {maxLength : Nat} {f : Filter α} :
    violations maxLength f = [] ↔ ∀ pass ∈ passes maxLength, pass f = [] := by
  unfold violations
  cases hr : ((passes maxLength).map (· f)).find? (!·.isEmpty) with
  | none => simpa using hr
  | some r =>
    have hne : r ≠ [] := by simpa using List.find?_some hr
    obtain ⟨pass, hp, rfl⟩ := List.mem_map.mp (List.mem_of_find?_eq_some hr)
    simpa [hne] using ⟨pass, hp, hne⟩

theorem structureOf_of_violations {maxLength : Nat} {f : Filter α}
    (h : violations maxLength f = []) : structureOf f = [] :=
  violations_eq_nil.mp h structureOf List.mem_cons_self

/-- A tree without violations has accepted conditions, and derived ones only under conjunctions. -/
theorem accepted_of_violations {maxLength : Nat} {f : Filter α} (h : violations maxLength f = []) :
    (∀ c ∈ f.conditions, Accepted maxLength c) ∧ derivedOf true f = [] := by
  simp only [violations_eq_nil, passes, List.forall_mem_cons, List.flatMap_eq_nil_iff] at h
  obtain ⟨hstructure, -, hsupport, hderived, htemporal, hpolicy, hrange, -⟩ := h
  exact ⟨fun c hc => ⟨checkShape_of_structureOf hstructure c hc, hsupport c hc, htemporal c hc,
    hpolicy c hc, hrange c hc⟩, hderived⟩

theorem validate_eq_ok {maxLength : Nat} {f : Filter α} :
    validate maxLength f = .ok () ↔ violations maxLength f = [] := by
  unfold validate
  cases violations maxLength f <;> simp

end EquityScreen.Validation
