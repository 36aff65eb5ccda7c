import EquityScreen.Proofs.MetricValues
import EquityScreen.Proofs.ValidationPasses

namespace EquityScreen

def MetricName.readsSeries (m : MetricName) : Bool := m.inputs.any Input.isSeries

theorem MetricName.readsSeries_of_needsWindow {m : MetricName} (h : m.needsWindow = true) :
    m.readsSeries = true := by
  cases m <;> revert h <;> decide

namespace Validation

variable {α : Type}

def missingInputs (report : Report α) : Report α :=
  report.filter fun v => v.code = .missingInput

theorem missingInputs_append (report report' : Report α) :
    missingInputs (report ++ report') = missingInputs report ++ missingInputs report' :=
  List.filter_append ..

theorem missingInputs_flatMap {β : Type} (xs : List β) (check : β → Report α) :
    missingInputs (xs.flatMap check) = xs.flatMap fun x => missingInputs (check x) :=
  List.filter_flatMap ..

theorem missingInputs_flatMap_eq_nil {β : Type} {xs : List β} {check : β → Report α}
    (h : ∀ x ∈ xs, missingInputs (check x) = []) : missingInputs (xs.flatMap check) = [] := by
  rw [missingInputs_flatMap]
  exact List.flatMap_eq_nil_iff.mpr h

theorem missingInputs_first {reports : List (Report α)} {p : Report α → Bool}
    (h : ∀ report ∈ reports, missingInputs report = []) :
    missingInputs ((reports.find? p).getD []) = [] := by
  cases hreport : reports.find? p with
  | none => rfl
  | some report => exact h report (List.mem_of_find?_eq_some hreport)

theorem missingInputs_when (b : Bool) (v : Violation α) :
    missingInputs (when b v) = if b = true ∧ v.code = .missingInput then [v] else [] := by
  cases b with
  | false => rfl
  | true => by_cases h : v.code = .missingInput <;> simp [missingInputs, when, h]

theorem missingInputs_other (b : Bool) {v : Violation α} (h : v.code ≠ .missingInput) :
    missingInputs (when b v) = [] := by
  rw [missingInputs_when, if_neg fun hv => h hv.2]

variable [Quantity α] {c : Condition α}

/-- The metric reads a series, but there is no window where it needs one, or there is one period. -/
def LacksPoints (c : Condition α) : Prop :=
  ∃ m ∈ metric? c.fieldName, m.readsSeries = true ∧
    ((m.needsWindow = true ∧ c.window.isNone = true) ∨ ∃ n ∈ periods? c, n < 2)

/-- The metric reads no series, and there is one period. -/
def IsOfOnePeriod (c : Condition α) : Prop :=
  ∃ m ∈ metric? c.fieldName, m.readsSeries = false ∧ ∃ n ∈ periods? c, n < 2

instance : DecidablePred (LacksPoints (α := α)) := fun c =>
  inferInstanceAs (Decidable (∃ m ∈ metric? c.fieldName, m.readsSeries = true ∧
    ((m.needsWindow = true ∧ c.window.isNone = true) ∨ ∃ n ∈ periods? c, n < 2)))

instance : DecidablePred (IsOfOnePeriod (α := α)) := fun c =>
  inferInstanceAs (Decidable (∃ m ∈ metric? c.fieldName, m.readsSeries = false ∧
    ∃ n ∈ periods? c, n < 2))

def shortfall (c : Condition α) : Violation α :=
  if c.window.isNone then .windowRequired c.fieldName else .windowTooShort c.fieldName

theorem periods?_of_isNone (h : c.window.isNone = true) : periods? c = none := by
  rw [periods?, Option.isNone_iff_eq_none.mp h]
  rfl

theorem lacksPoints_or_isOfOnePeriod_iff {m : MetricName} (hm : metric? c.fieldName = some m) :
    LacksPoints c ∨ IsOfOnePeriod c ↔
      (m.needsWindow = true ∧ c.window.isNone = true) ∨ ∃ n ∈ periods? c, n < 2 := by
  constructor
  · rintro (⟨m', hm', -, h⟩ | ⟨m', hm', -, h⟩)
    · cases hm.symm.trans hm'
      exact h
    · exact .inr h
  · rintro (⟨hneeds, hnone⟩ | hshort)
    · exact .inl ⟨m, hm, m.readsSeries_of_needsWindow hneeds, .inl ⟨hneeds, hnone⟩⟩
    · cases hseries : m.readsSeries with
      | true => exact .inl ⟨m, hm, hseries, .inr hshort⟩
      | false => exact .inr ⟨m, hm, hseries, hshort⟩

theorem missingInputs_checkDerived (conjunctive : Bool) (c : Condition α) :
    missingInputs (checkDerived conjunctive c) =
      if LacksPoints c ∨ IsOfOnePeriod c then [shortfall c] else [] := by
  cases hm : metric? c.fieldName with
  | none =>
    rw [if_neg]
    · simp only [checkDerived, hm]
      rfl
    · rintro (⟨m, h, -⟩ | ⟨m, h, -⟩)
      · cases hm.symm.trans h
      · cases hm.symm.trans h
  | some m =>
    simp only [checkDerived, hm, missingInputs_append, missingInputs_when,
      lacksPoints_or_isOfOnePeriod_iff hm, Violation.code, reduceCtorEq, and_false, and_true,
      if_false, List.nil_append, shortfall]
    -- without a window no length is too small, so there is one report at most
    cases hnone : c.window.isNone with
    | true =>
      rw [periods?_of_isNone hnone]
      simp
    | false => simp [Option.any_eq_true]

theorem missingInputs_derivedOf (conjunctive : Bool) (f : Filter α) :
    missingInputs (derivedOf conjunctive f) =
      (f.conditions.filter fun c => LacksPoints c ∨ IsOfOnePeriod c).map shortfall := by
  induction f using Filter.induction generalizing conjunctive with
  | leaf c =>
    rw [derivedOf, missingInputs_checkDerived, Filter.conditions_leaf, List.filter_singleton]
    by_cases h : LacksPoints c ∨ IsOfOnePeriod c
    · rw [if_pos h, decide_eq_true h]
      rfl
    · rw [if_neg h, decide_eq_false h]
      rfl
  | not child ih => exact ih false
  | group k children ih =>
    rw [derivedOf_group, missingInputs_flatMap, Filter.conditions_group, List.filter_flatMap,
      List.map_flatMap]
    exact List.flatMap_congr fun f hf => ih f hf _

theorem missingInputs_checkTemporal (maxLength : Nat) (c : Condition α) :
    missingInputs (checkTemporal maxLength c) = [] := by
  have hlength : missingInputs (checkLength maxLength c) = [] := by
    unfold checkLength
    dsimp only
    split
    · rfl
    · split
      · rfl
      · exact missingInputs_other _ nofun
  unfold checkTemporal
  dsimp only
  split
  · exact missingInputs_other _ nofun
  · rw [missingInputs_append, hlength, List.append_nil]
    exact missingInputs_other _ nofun

omit [Quantity α] in
theorem missingInputs_checkPolicy (c : Condition α) : missingInputs (checkPolicy c) = [] :=
  missingInputs_other _ nofun

theorem missingInputs_checkRange (c : Condition α) : missingInputs (checkRange c) = [] := by
  unfold checkRange
  dsimp only
  split
  · rfl
  · split
    · rfl
    · rw [missingInputs_append, List.append_eq_nil_iff]
      refine ⟨missingInputs_other _ nofun, ?_⟩
      split
      · rfl
      · exact missingInputs_other _ nofun

theorem violations_eq {maxLength : Nat} {f : Filter α} (hstructure : structureOf f = [])
    (hconflicts : (conflictsOf [] f).2 = []) (hsupport : f.conditions.flatMap checkSupport = []) :
    violations maxLength f = if derivedOf true f = [] then
      (([f.conditions.flatMap (checkTemporal maxLength), f.conditions.flatMap checkPolicy,
        f.conditions.flatMap checkRange] : List (Report α)).find? (!·.isEmpty)).getD []
      else derivedOf true f := by
  by_cases hderived : derivedOf true f = []
  · rw [if_pos hderived]
    simp [violations, passes, hstructure, hconflicts, hsupport, hderived]
  · simp [violations, passes, hstructure, hconflicts, hsupport, hderived]

/-- After three passes without a report, missing inputs are reported for the conditions on derived
metrics whose windows are too small for a series, in order and wherever in the tree they are; but
also for those on metrics without a series, if their windows are of one period. -/
theorem missingInputs_violations (maxLength : Nat) {f : Filter α} (hstructure : structureOf f = [])
    (hconflicts : (conflictsOf [] f).2 = []) (hsupport : f.conditions.flatMap checkSupport = []) :
    missingInputs (violations maxLength f) =
      (f.conditions.filter fun c => LacksPoints c ∨ IsOfOnePeriod c).map shortfall := by
  rw [← missingInputs_derivedOf true f, violations_eq hstructure hconflicts hsupport]
  by_cases hderived : derivedOf true f = []
  · rw [if_pos hderived, hderived]
    apply missingInputs_first
    rw [List.forall_mem_cons, List.forall_mem_cons, List.forall_mem_singleton]
    refine ⟨missingInputs_flatMap_eq_nil fun c _ => missingInputs_checkTemporal maxLength c,
      missingInputs_flatMap_eq_nil fun c _ => missingInputs_checkPolicy c,
      missingInputs_flatMap_eq_nil fun c _ => missingInputs_checkRange c⟩
  · rw [if_neg hderived]

/-- Conditions without a window, over one period and over two, at several places. -/
def shortWindows : Filter ℚ :=
  .group .and
    [.leaf ⟨some "eps_cagr", some ">", some (.int 0), none, none, none, none⟩,
     .not (.group .or
       [.leaf ⟨some "fcf_margin", some ">", some (.int 10), none,
          some ⟨some "years", some (.int 1), none⟩, none, none⟩,
        .leaf ⟨some "debt_to_fcf", some "<", some (.int 3), none,
          some ⟨some "years", some (.int 2), none⟩, none, none⟩]),
     .leaf ⟨some "peg_ratio", some "<", some (.int 1), none,
       some ⟨some "quarters", some (.int 1), none⟩, none, none⟩]

theorem missingInputs_shortWindows :
    structureOf shortWindows = [] ∧ (conflictsOf [] shortWindows).2 = [] ∧
    shortWindows.conditions.flatMap checkSupport = [] ∧
    missingInputs (violations 40 shortWindows) =
      [.windowRequired "eps_cagr", .windowTooShort "fcf_margin", .windowTooShort "peg_ratio"] := by
  have hstructure : structureOf shortWindows = [] := rfl
  have hconflicts : (conflictsOf [] shortWindows).2 = [] := rfl
  have hsupport : shortWindows.conditions.flatMap checkSupport = [] := rfl
  have hmissing := missingInputs_violations 40 hstructure hconflicts hsupport
  exact ⟨hstructure, hconflicts, hsupport, hmissing.trans rfl⟩

def oneYearDebt : Condition ℚ :=
  ⟨some "debt_to_fcf", some "<", some (.int 3), none, some ⟨some "years", some (.int 1), none⟩,
    none, none⟩

/-- The ratio of debt and cash flow reads no series, and has a value in one year. Its window of one
year is still reported. -/
theorem oneYearDebt_reported :
    structureOf (.leaf oneYearDebt) = [] ∧ (conflictsOf [] (.leaf oneYearDebt)).2 = [] ∧
    (Filter.leaf oneYearDebt).conditions.flatMap checkSupport = [] ∧
    ¬ LacksPoints oneYearDebt ∧
    missingInputs (violations 40 (.leaf oneYearDebt)) = [.windowTooShort "debt_to_fcf"] ∧
    (∃ g, Compilation.compileNode 40 1 true (.leaf oneYearDebt) = .ok g ∧
      g.derived = [Resolution.lowDebt]) ∧
    (Resolution.compute Resolution.debtor 4 "A" Resolution.lowDebt).result = .ok (.ok 2) := by
  refine ⟨rfl, rfl, rfl, by decide, rfl, ⟨_, rfl, rfl⟩, ?_⟩
  have hm : metric? Resolution.lowDebt.field = some .debtToCashFlow := by decide
  rw [Resolution.compute_of_fetch hm Resolution.fetch_debtor]
  decide +kernel

end Validation

end EquityScreen
