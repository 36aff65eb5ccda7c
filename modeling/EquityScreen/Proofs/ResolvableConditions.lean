import EquityScreen.Proofs.ScheduledRun
import EquityScreen.Proofs.WellFormedTree

namespace EquityScreen

open Compilation Validation

variable {α : Type} [Quantity α]

namespace CompiledCondition

/-- What a condition asks of a number: to lie within bounds of which one is there, or to stand to a
threshold as an operator says. -/
inductive Asks (d : CompiledCondition α) : (α → Bool) → Prop
  | within {s : Span α} (range : d.range = some s) (bounded : s.min.isSome ∨ s.max.isSome)
      (operator : d.operator = none) (value : d.value = none) : Asks d s.contains
  | compared {op : Operator} {v : Literal α} {threshold : α} (range : d.range = none)
      (operator : d.operator = some op) (value : d.value = some v)
      (number : v.number? = some threshold) : Asks d fun x => op.evaluate x threshold

/-- A condition that can be resolved: on a metric, without a trend, with one thing to ask, and with
a window of several periods that the metric may need. -/
structure IsResolvable (maxLength : Nat) (d : CompiledCondition α) : Prop where
  metric : ∃ m, metric? d.field = some m ∧ (m.needsWindow = true → d.window.isSome = true)
  noTrend : d.trend = none
  asks : ∃ test, d.Asks test
  window : ∀ w ∈ d.window, 2 ≤ w.length ∧ w.length ≤ maxLength

end CompiledCondition

namespace Validation

theorem checkDerived_of_derivedOf {conjunctive : Bool} {f : Filter α}
    (h : derivedOf conjunctive f = []) :
    ∀ c ∈ f.conditions, ∃ conjunctive, checkDerived conjunctive c = [] := by
  induction f using Filter.induction generalizing conjunctive with
  | leaf c => exact List.forall_mem_singleton.mpr ⟨conjunctive, by simpa [derivedOf] using h⟩
  | not child ih => exact ih (by simpa [derivedOf] using h)
  | group k children ih =>
    rw [derivedOf_group, List.flatMap_eq_nil_iff] at h
    rw [Filter.conditions_group]
    intro c hc
    obtain ⟨f, hf, hc⟩ := List.mem_flatMap.mp hc
    exact ih f hf (h f hf) c hc

theorem window_of_checkDerived {conjunctive : Bool} {c : Condition α} {m : MetricName}
    (h : checkDerived conjunctive c = []) (hm : metric? c.fieldName = some m) :
    (m.needsWindow = true → c.window.isSome = true) ∧ ∀ n ∈ periods? c, 2 ≤ n := by
  simp only [checkDerived, hm, List.append_eq_nil_iff, when_eq_nil] at h
  obtain ⟨⟨-, hneeded⟩, hshort⟩ := h
  refine ⟨fun hneeds => by simpa [hneeds] using hneeded, fun n hn => ?_⟩
  have hlong : decide (n < 2) = false := (Option.any_eq_false ..).mp hshort n hn
  exact Nat.le_of_not_lt (of_decide_eq_false hlong)

end Validation

namespace Compilation

variable {maxLength n : Nat} {c : Condition α} {d : CompiledCondition α} {conjunctive : Bool}

theorem Compiles.isResolvable (h : Compiles maxLength n c d) (hd : isDerived c.fieldName = true)
    (hc : checkDerived conjunctive c = []) : d.IsResolvable maxLength := by
  obtain ⟨m, hm⟩ := Option.isSome_iff_exists.mp hd
  obtain ⟨hneeds, hlong⟩ := window_of_checkDerived hc hm
  have hwindow {window : Option WindowSpec} (hw : c.HasWindow maxLength window) :
      (m.needsWindow = true → window.isSome = true) ∧
        ∀ w ∈ window, 2 ≤ w.length ∧ w.length ≤ maxLength := by
    obtain ⟨hnone, rfl⟩ | ⟨w, spec, hsome, hspec, hmax, rfl⟩ := hw
    · exact ⟨fun h => by simpa [hnone] using hneeds h, nofun⟩
    · refine ⟨fun _ => rfl, ?_⟩
      rintro _ ⟨⟩
      exact ⟨hlong _ (by simp [periods?, hsome, count?_of_spec? hspec]), hmax⟩
  cases h with
  | comparison on | range on | trend on | window on =>
    rw [on.notDerived] at hd
    cases hd
  | derivedRange metric _ read =>
    obtain ⟨hneeded, hlengths⟩ := hwindow metric.window
    have hbounded := (span?_eq_some read).2
    rw [Bool.or_eq_true] at hbounded
    exact ⟨⟨m, hm, hneeded⟩, rfl, ⟨_, .within rfl hbounded rfl rfl⟩, hlengths⟩
  | derivedComparison metric _ _ numeric =>
    obtain ⟨hneeded, hlengths⟩ := hwindow metric.window
    obtain ⟨threshold, hthreshold⟩ := Option.isSome_iff_exists.mp
      (isSome_bind_number? (l := some _) numeric)
    exact ⟨⟨m, hm, hneeded⟩, rfl, ⟨_, .compared rfl rfl rfl hthreshold⟩, hlengths⟩

theorem isResolvable_of_compile {s : Settings} {query : Query α} {q : CompiledQuery α}
    (hq : compile s query = .ok q) : ∀ d ∈ q.derived, d.IsResolvable s.maxWindowLength := by
  obtain ⟨hv, g, order, hg, -, -, rfl⟩ := (compile_eq_ok ..).mp hq
  obtain ⟨⟨⟩, hvalid, -⟩ := bind_eq_ok.mp hv
  intro d hd
  obtain ⟨c, hmem, hc, hcompiles⟩ := (compileNode_accounts hg).exists_of_derived d hd
  obtain ⟨conjunctive, hcheck⟩ :=
    checkDerived_of_derivedOf (IsWellFormed.of_validate hvalid).derived c hmem
  exact (hcompiles 1).isResolvable hc hcheck

end Compilation

namespace Resolution

variable {store : Store α} {historyLength : Nat} {ticker : String} {d : CompiledCondition α}

theorem satisfies_of_asks {test : α → Bool} (h : d.Asks test) : satisfies d = test := by
  funext x
  unfold satisfies
  cases h with
  | within range => rw [range]
  | compared range operator value number => simp [range, operator, value, number]

theorem compute_ne_unknownMetric (hm : (metric? d.field).isSome = true) (name : String) :
    (compute store historyLength ticker d).result ≠ .error (.unknownMetric name) := by
  intro h
  obtain ⟨st, -, f, -, hf⟩ := (compute_failsWithStore hm).failed _ h
  cases hf

end Resolution

namespace Screen

open Resolution

variable {store : Store α} {historyLength : Nat} {q : CompiledQuery α} {workers : Nat}

/-- Why a run fails: the store fails its selection or a query about a candidate, or a candidate does
not name its company by a text. -/
inductive Fails (store : Store α) (historyLength : Nat) (q : CompiledQuery α) : RunError → Prop
  | selection {f : StoreError} (hf : store q.statement = .error f) :
      Fails store historyLength q (.selection f)
  | query {candidates : List (Row α)} {r : Row α} {st : Statement α} {f : StoreError}
      (hc : store q.statement = .ok candidates) (hr : r ∈ candidates)
      (hst : st ∈ (passes store historyLength q.derived r).asked) (hf : store st = .error f) :
      Fails store historyLength q (.resolution (.store f))
  | ticker {candidates : List (Row α)} {r : Row α} (hc : store q.statement = .ok candidates)
      (hr : r ∈ candidates) (ht : ∀ ticker, Row.get r tickerColumn ≠ .text ticker) :
      Fails store historyLength q (.resolution .missingTicker)

theorem fails_of_runCompiledBy (hmetrics : ∀ d ∈ q.derived, (metric? d.field).isSome = true)
    (schedule : (candidates : List (Row α)) → Schedule workers candidates.length) {e : RunError}
    (h : runCompiledBy store historyLength q schedule = .error e) :
    Fails store historyLength q e := by
  by_cases hd : q.derived = []
  · unfold runCompiledBy at h
    cases hs : store q.statement with
    | error f =>
      rw [hs] at h
      cases h
      exact .selection hs
    | ok candidates => simp [hs, hd] at h
  · have hends : Ends store historyLength q (runCompiledBy store historyLength q schedule) :=
      ends_runCompiledBy hmetrics hd schedule
    rw [h] at hends
    cases hends with
    | unselected hf => exact .selection hf
    | @obstructed candidates hc r hr _ x hx =>
      cases x with
      | store f =>
        obtain ⟨st, hst, hf⟩ := hx
        exact .query hc hr hst hf
      | unknownMetric name => exact hx.elim
      | missingTicker => exact .ticker hc hr hx

theorem runPooled_eq {start : Nat → Except PoolError Unit} (hstart : start workers = .ok ())
    (schedule : (candidates : List (Row α)) → Schedule workers candidates.length) :
    runPooled start store historyLength q schedule =
      (runCompiledBy store historyLength q schedule).mapError .run := by
  unfold runPooled runCompiledBy
  cases store q.statement with
  | error f => rfl
  | ok candidates =>
    cases q.derived.isEmpty with
    | true => rfl
    | false =>
      rw [hstart]
      simp only [Bool.false_eq_true, if_false]
      cases resolveBy store historyLength q.derived candidates (schedule candidates) <;>
        split <;> rfl

theorem runCompiledBy_of_runPooled {start : Nat → Except PoolError Unit}
    {schedule : (candidates : List (Row α)) → Schedule workers candidates.length}
    {rows : List (Row α)} (h : runPooled start store historyLength q schedule = .ok rows) :
    runCompiledBy store historyLength q schedule = .ok rows := by
  unfold runPooled at h
  unfold runCompiledBy
  cases hc : store q.statement with
  | error e =>
    rw [hc] at h
    cases h
  | ok candidates =>
    cases hd : q.derived.isEmpty with
    | true =>
      simp only [hc, hd, if_true] at h ⊢
      cases h
      rfl
    | false =>
      simp only [hc, hd, Bool.false_eq_true, if_false] at h ⊢
      obtain ⟨passed, hpassed, hrows⟩ : ∃ passed,
          (resolveBy store historyLength q.derived candidates (schedule candidates)).mapError
            (fun e => PooledError.run (.resolution e)) = .ok passed ∧
          (Except.ok (passed.take q.limit) : Except PooledError _) = .ok rows := by
        split at h
        · obtain ⟨⟨⟩, -, h⟩ := bind_eq_ok.mp h
          exact bind_eq_ok.mp h
        · exact bind_eq_ok.mp h
      cases hrows
      rw [mapError_eq_ok.mp hpassed]
      rfl

/-- The one schedule of one worker. -/
def inTurn (count : Nat) : Schedule 1 count := ⟨List.range count, .refl _, fun _ => rfl⟩

theorem runCompiled_eq : (runCompiled store historyLength q).result =
    runCompiledBy store historyLength q fun candidates => inTurn candidates.length := by
  by_cases hd : q.derived = []
  · simp only [runCompiled, runCompiledBy, hd, List.isEmpty_nil, if_true, Traced.result_bind,
      Traced.ask, Traced.mapError]
    cases store q.statement <;> rfl
  · exact (runCompiledBy_one hd (le_refl 1) _).symm

/-- Runs of accepted queries fail for no reason that validation should have found. All conditions
that are left to resolve can be resolved: each names a metric and has no trend, asks one thing of
the metric, by which alone it is satisfied, and has a window of several periods within the bound, if
the metric needs one or it names one. So a metric is never unknown; and a run, once its workers have
started, fails only with the store or on a candidate without a text for a ticker. -/
theorem fails_of_compile (s : Settings) (query : Query α) (q : CompiledQuery α)
    (hq : Compilation.compile s query = .ok q) :
    (∀ d ∈ q.derived, d.IsResolvable s.maxWindowLength ∧
      ∃ test, d.Asks test ∧ satisfies d = test) ∧
    ∀ (store : Store α) (historyLength : Nat),
      (∀ d ∈ q.derived, ∀ ticker name,
        (compute store historyLength ticker d).result ≠ .error (.unknownMetric name)) ∧
      (∀ e, (runCompiled store historyLength q).result = .error e →
        Fails store historyLength q e) ∧
      ∀ (workers : Nat)
        (schedule : (candidates : List (Row α)) → Schedule workers candidates.length)
        (start : Nat → Except PoolError Unit), start workers = .ok () →
        ∀ e, runPooled start store historyLength q schedule = .error e →
          ∃ e', e = .run e' ∧ Fails store historyLength q e' := by
  have hmetrics := Compilation.metric_of_compile hq
  refine ⟨fun d hd => ?resolvable, fun store historyLength => ⟨fun d hd ticker => ?metric,
    fun e he => ?sequential, fun workers schedule start hstart e he => ?pooled⟩⟩
  case resolvable =>
    have hd' := isResolvable_of_compile hq d hd
    obtain ⟨test, htest⟩ := hd'.asks
    exact ⟨hd', test, htest, satisfies_of_asks htest⟩
  case metric => exact compute_ne_unknownMetric (hmetrics d hd)
  case sequential =>
    rw [runCompiled_eq] at he
    exact fails_of_runCompiledBy hmetrics _ he
  case pooled =>
    rw [runPooled_eq hstart] at he
    cases hr : runCompiledBy store historyLength q schedule with
    | ok rows =>
      rw [hr] at he
      cases he
    | error e' =>
      rw [hr] at he
      cases he
      exact ⟨e', rfl, fails_of_runCompiledBy hmetrics schedule hr⟩

/-- Growth over four years that is not paid for. -/
def growthQuery : Query ℚ :=
  { filter := .group .and
      [.leaf ⟨"eps_cagr", none, none, some ⟨some (.int 0), none, none, none⟩,
         some ⟨"years", some (.int 4), none⟩, none, none⟩,
       .leaf ⟨"peg_ratio", "<", some (.int 1), none, none, none, none⟩]
    sort := []
    limit := none }

def namelessCompany : Store ℚ
  | .candidates _ _ => .ok [[(tickerColumn, .text "A")], [("name", .text "B")]]
  | _ => .ok []

theorem fails_of_compile_namelessCompany :
    ∃ q, Compilation.compile Settings.default growthQuery = .ok q ∧ q.derived ≠ [] ∧
      (∀ d ∈ q.derived, d.IsResolvable 40) ∧
      runPooled (fun _ => .ok ()) namelessCompany 10 q
        (fun candidates => backwards candidates.length) =
          .error (.run (.resolution .missingTicker)) ∧
      Fails namelessCompany 10 q (.resolution .missingTicker) := by
  have hs : Settings.default.validate = .ok () := by decide
  have ha : growthQuery.IsAddressable := by
    unfold Query.IsAddressable
    decide +kernel
  have hq : Compilation.compile Settings.default growthQuery = .ok _ :=
    Compilation.compile_eq_queryOf hs ha rfl rfl rfl
  obtain ⟨hresolvable, hruns⟩ := fails_of_compile Settings.default growthQuery _ hq
  obtain ⟨-, -, hpooled⟩ := hruns namelessCompany 10
  obtain ⟨e, he, hfails⟩ := hpooled 2 (fun candidates => backwards candidates.length)
    (fun _ => .ok ()) rfl (.run (.resolution .missingTicker)) rfl
  cases he
  exact ⟨_, hq, List.cons_ne_nil _ _, fun d hd => (hresolvable d hd).1, rfl, hfails⟩

end Screen

end EquityScreen
