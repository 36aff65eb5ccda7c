import EquityScreen.Proofs.ValidatedQuery
import EquityScreen.Proofs.WorkerSchedules

namespace EquityScreen

variable {α : Type} [Quantity α]

namespace Compilation

theorem Compiles.metric {maxLength n : Nat} {c : Condition α} {d : CompiledCondition α}
    (h : Compiles maxLength n c d) (hd : isDerived c.fieldName = true) :
    (metric? d.field).isSome = true := by
  cases h with
  | comparison on | range on | trend on | window on =>
    rw [on.notDerived] at hd
    cases hd
  | derivedRange | derivedComparison => exact hd

theorem metric_of_compile {s : Settings} {q : Query α} {c : CompiledQuery α}
    (h : compile s q = .ok c) : ∀ d ∈ c.derived, (metric? d.field).isSome = true := by
  obtain ⟨-, g, order, hg, -, -, rfl⟩ := (compile_eq_ok ..).mp h
  intro d hd
  obtain ⟨c, -, hc, hcompiles⟩ := (compileNode_accounts hg).exists_of_derived d hd
  exact (hcompiles 1).metric hc

end Compilation

namespace Resolution

/-- A candidate qualifies if it names its company by a text and the company meets all
conditions. -/
def Qualifies (store : Store α) (historyLength : Nat) (conditions : List (CompiledCondition α))
    (r : Row α) : Prop :=
  ∃ ticker, Row.get r tickerColumn = .text ticker ∧
    ∀ c ∈ conditions, Meets store historyLength ticker c

variable {store : Store α} {historyLength : Nat} {conditions : List (CompiledCondition α)}

omit [Quantity α] in
theorem text?_eq_some {v : Cell α} {s : String} : v.text? = some s ↔ v = .text s := by
  cases v <;> simp [Cell.text?]

theorem verdictOn_of_text {r : Row α} {ticker : String}
    (h : Row.get r tickerColumn = .text ticker) :
    verdictOn store historyLength conditions r =
      (passesAll store historyLength ticker conditions).result := by
  simp [verdictOn, passes, h, Cell.text?]

theorem verdictOn_of_noText {r : Row α} (h : (Row.get r tickerColumn).text? = none) :
    verdictOn store historyLength conditions r = .error .missingTicker := by
  simp [verdictOn, passes, h, Traced.ofResult]

theorem verdictOn_eq_true {r : Row α} :
    (verdictOn store historyLength conditions r).toOption = some true ↔
      Qualifies store historyLength conditions r := by
  cases ht : (Row.get r tickerColumn).text? with
  | none =>
    rw [verdictOn_of_noText ht]
    refine ⟨nofun, fun ⟨ticker, h, _⟩ => ?_⟩
    rw [h] at ht
    cases ht
  | some ticker =>
    have hr := text?_eq_some.mp ht
    have hok (x : Except ResolveError Bool) : x.toOption = some true ↔ x = .ok true := by
      cases x <;> simp [Except.toOption]
    rw [verdictOn_of_text hr, hok, passesAll_eq_true]
    refine ⟨fun h => ⟨ticker, hr, h⟩, fun ⟨ticker', h', hall⟩ => ?_⟩
    rw [hr] at h'
    cases h'
    exact hall

instance : DecidablePred (Qualifies store historyLength conditions) := fun _ =>
  decidable_of_iff _ verdictOn_eq_true

theorem passing_eq_filter (candidates : List (Row α)) :
    passing store historyLength conditions candidates =
      candidates.filter fun r => Qualifies store historyLength conditions r :=
  List.filter_congr fun _ _ => decide_eq_decide.mpr verdictOn_eq_true

/-- A candidate can be judged if it names its company by a text and the store answers all that is
asked about it before the verdict. -/
structure IsJudged (store : Store α) (historyLength : Nat) (conditions : List (CompiledCondition α))
    (r : Row α) : Prop where
  named : ∃ ticker, Row.get r tickerColumn = .text ticker
  answered : ∀ s ∈ (passes store historyLength conditions r).asked, ∃ rows, store s = .ok rows

def Obstructs (store : Store α) (historyLength : Nat) (conditions : List (CompiledCondition α))
    (r : Row α) : ResolveError → Prop
  | .missingTicker => ∀ ticker, Row.get r tickerColumn ≠ .text ticker
  | .store f => ∃ s ∈ (passes store historyLength conditions r).asked, store s = .error f
  | .unknownMetric _ => False

theorem failure?_verdictOn_eq_none
    (hmetrics : ∀ c ∈ conditions, (metric? c.field).isSome = true) {r : Row α} :
    failure? (verdictOn store historyLength conditions r) = none ↔
      IsJudged store historyLength conditions r := by
  rw [failure?_eq_none]
  cases ht : (Row.get r tickerColumn).text? with
  | none =>
    rw [verdictOn_of_noText ht]
    refine ⟨fun ⟨b, hb⟩ => (by cases hb), fun ⟨⟨ticker, h⟩, _⟩ => ?_⟩
    rw [h] at ht
    cases ht
  | some ticker =>
    have hr := text?_eq_some.mp ht
    have hasked : (passes store historyLength conditions r).asked =
        (passesAll store historyLength ticker conditions).asked := by
      simp only [passes, ht]
    rw [verdictOn_of_text hr, (passesAll_failsWithStore hmetrics).exists_ok_iff, ← hasked]
    exact ⟨fun h => ⟨⟨ticker, hr⟩, h⟩, fun h => h.answered⟩

theorem obstructs_of_failure? (hmetrics : ∀ c ∈ conditions, (metric? c.field).isSome = true)
    {r : Row α} {x : ResolveError}
    (h : failure? (verdictOn store historyLength conditions r) = some x) :
    Obstructs store historyLength conditions r x := by
  rw [failure?_eq_some] at h
  cases ht : (Row.get r tickerColumn).text? with
  | none =>
    rw [verdictOn_of_noText ht] at h
    cases h
    intro ticker hr
    rw [hr] at ht
    cases ht
  | some ticker =>
    rw [verdictOn_of_text (text?_eq_some.mp ht)] at h
    obtain ⟨s, hs, f, hf, rfl⟩ := (passesAll_failsWithStore hmetrics).failed x h
    exact ⟨s, by simpa only [passes, ht] using hs, hf⟩

variable {candidates : List (Row α)} {workers : Nat}

omit [Quantity α] in
theorem mem_places (schedule : Schedule workers candidates.length) {i : Nat} :
    i ∈ schedule.places ↔ i < candidates.length := by
  rw [schedule.complete.mem_iff, List.mem_range]

/-- A failure that a resolution ends with is that of one of its candidates. -/
theorem exists_of_firstFailure? {places : List Nat} {x : ResolveError}
    (h : firstFailure? store historyLength conditions candidates places = some x) :
    ∃ r ∈ candidates, failure? (verdictOn store historyLength conditions r) = some x := by
  obtain ⟨i, -, hi⟩ := List.exists_of_findSome?_eq_some h
  obtain ⟨r, hr, hx⟩ := Option.bind_eq_some_iff.mp hi
  exact ⟨r, List.mem_of_getElem? hr, hx⟩

theorem firstFailure?_eq_none (schedule : Schedule workers candidates.length) :
    firstFailure? store historyLength conditions candidates schedule.places = none ↔
      ∀ r ∈ candidates, failure? (verdictOn store historyLength conditions r) = none := by
  rw [firstFailure?, List.findSome?_eq_none_iff]
  constructor
  · intro h r hr
    obtain ⟨i, hi, rfl⟩ := List.getElem_of_mem hr
    simpa [List.getElem?_eq_getElem hi] using h i ((mem_places schedule).mpr hi)
  · intro h i hi
    rw [List.getElem?_eq_getElem ((mem_places schedule).mp hi)]
    exact h _ (List.getElem_mem _)

end Resolution

namespace Screen

open Resolution

variable {store : Store α} {historyLength : Nat} {q : CompiledQuery α}

theorem runCompiledBy_of_candidates {candidates : List (Row α)} {workers : Nat}
    (hq : q.derived ≠ []) (hc : store q.statement = .ok candidates)
    (schedule : (candidates : List (Row α)) → Schedule workers candidates.length) :
    runCompiledBy store historyLength q schedule =
      match firstFailure? store historyLength q.derived candidates (schedule candidates).places with
      | some x => .error (.resolution x)
      | none => .ok ((passing store historyLength q.derived candidates).take q.limit) := by
  have hne : q.derived.isEmpty = false := by simpa using hq
  simp only [runCompiledBy, hc, hne, Bool.false_eq_true, if_false, resolveBy_eq hq]
  cases firstFailure? store historyLength q.derived candidates (schedule candidates).places <;> rfl

theorem runCompiledBy_one (hq : q.derived ≠ []) {workers : Nat} (hw : workers ≤ 1)
    (schedule : (candidates : List (Row α)) → Schedule workers candidates.length) :
    runCompiledBy store historyLength q schedule = (runCompiled store historyLength q).result := by
  have hne : q.derived.isEmpty = false := by simpa using hq
  cases hc : store q.statement with
  | error f =>
    simp only [runCompiledBy, runCompiled, Traced.result_bind, Traced.ask, Traced.mapError, hc]
    rfl
  | ok candidates =>
    rw [runCompiledBy_of_candidates hq hc, (schedule candidates).inOrder (.inl hw),
      firstFailure?_range]
    simp only [runCompiled, Traced.result_bind, Traced.ask, Traced.mapError, hc, resolve, hne,
      Bool.false_eq_true, if_false]
    change _ = (Except.mapError RunError.resolution
      (keepPassing store historyLength q.derived candidates).result >>= _)
    rw [keepPassing_result]
    cases candidates.findSome? fun r => failure? (verdictOn store historyLength q.derived r) <;> rfl

inductive Ends (store : Store α) (historyLength : Nat) (q : CompiledQuery α) :
    Except RunError (List (Row α)) → Prop
  | unselected {f : StoreError} (hf : store q.statement = .error f) :
      Ends store historyLength q (.error (.selection f))
  | obstructed {candidates : List (Row α)} (hc : store q.statement = .ok candidates) {r : Row α}
      (hr : r ∈ candidates) (hj : ¬ IsJudged store historyLength q.derived r) {x : ResolveError}
      (hx : Obstructs store historyLength q.derived r x) :
      Ends store historyLength q (.error (.resolution x))
  | judged {candidates : List (Row α)} (hc : store q.statement = .ok candidates)
      (hj : ∀ r ∈ candidates, IsJudged store historyLength q.derived r) :
      Ends store historyLength q (.ok ((candidates.filter fun r =>
        Qualifies store historyLength q.derived r).take q.limit))

theorem ends_runCompiledBy (hmetrics : ∀ c ∈ q.derived, (metric? c.field).isSome = true)
    (hd : q.derived ≠ []) {workers : Nat}
    (schedule : (candidates : List (Row α)) → Schedule workers candidates.length) :
    Ends store historyLength q (runCompiledBy store historyLength q schedule) := by
  cases hc : store q.statement with
  | error f =>
    simp only [runCompiledBy, hc]
    exact .unselected hc
  | ok candidates =>
    rw [runCompiledBy_of_candidates hd hc]
    cases hx : firstFailure? store historyLength q.derived candidates
      (schedule candidates).places with
    | some x =>
      obtain ⟨r, hr, hfail⟩ := exists_of_firstFailure? hx
      have hj : ¬ IsJudged store historyLength q.derived r := by
        rw [← failure?_verdictOn_eq_none hmetrics, hfail]
        exact Option.some_ne_none x
      exact .obstructed hc hr hj (obstructs_of_failure? hmetrics hfail)
    | none =>
      have hj := (firstFailure?_eq_none (schedule candidates)).mp hx
      rw [passing_eq_filter]
      exact .judged hc fun r hr => (failure?_verdictOn_eq_none hmetrics).mp (hj r hr)

/-- A run by several workers over a compiled query with derived conditions has a result exactly if
its candidates are selected, all of them name their companies by texts, and nothing that is asked
about any of them before its verdict fails, although the limit may cut it off. The result is then
the first candidates, up to the limit and in order, that meet all conditions, for every schedule. A
run fails only with the store, or on a candidate without a name. -/
theorem runCompiledBy_qualifying (s : Settings) (query : Query α) (q : CompiledQuery α)
    (hq : Compilation.compile s query = .ok q) (hd : q.derived ≠ []) (store : Store α)
    (historyLength workers : Nat)
    (schedule : (candidates : List (Row α)) → Schedule workers candidates.length) :
    ((∃ rows, runCompiledBy store historyLength q schedule = .ok rows) ↔
      ∃ candidates, store q.statement = .ok candidates ∧
        ∀ r ∈ candidates, IsJudged store historyLength q.derived r) ∧
    (∀ rows, runCompiledBy store historyLength q schedule = .ok rows →
      ∃ candidates, store q.statement = .ok candidates ∧
        rows = (candidates.filter fun r =>
          Qualifies store historyLength q.derived r).take q.limit) ∧
    (∀ e, runCompiledBy store historyLength q schedule = .error e →
      (∃ f, store q.statement = .error f ∧ e = .selection f) ∨
      ∃ candidates, store q.statement = .ok candidates ∧
        ∃ r ∈ candidates, ∃ x, Obstructs store historyLength q.derived r x ∧
          e = .resolution x) ∧
    (workers ≤ 1 →
      runCompiledBy store historyLength q schedule = (runCompiled store historyLength q).result) := by
  have hends : Ends store historyLength q (runCompiledBy store historyLength q schedule) :=
    ends_runCompiledBy (Compilation.metric_of_compile hq) hd schedule
  refine ⟨?ok, ?rows, ?error, fun hw => runCompiledBy_one hd hw schedule⟩
  case ok =>
    generalize runCompiledBy store historyLength q schedule = result at hends
    cases hends with
    | unselected hf => simp [hf]
    | obstructed hc hr hj _ => simpa [hc] using ⟨_, hr, hj⟩
    | judged hc hj => simpa [hc] using hj
  case rows =>
    intro rows hrows
    rw [hrows] at hends
    cases hends with
    | judged hc hj => exact ⟨_, hc, rfl⟩
  case error =>
    intro e he
    rw [he] at hends
    cases hends with
    | unselected hf => exact .inl ⟨_, hf, rfl⟩
    | obstructed hc hr _ hx => exact .inr ⟨_, hc, _, hr, _, hx, rfl⟩

/-- Two workers that end with the last candidate first. -/
def backwards (count : Nat) : Schedule 2 count where
  places := (List.range count).reverse
  complete := List.reverse_perm _
  inOrder h := by
    obtain h | h := h
    · omega
    · obtain rfl | rfl : count = 0 ∨ count = 1 := by omega
      · rfl
      · rfl

def lenientQuery : Query Float :=
  { filter := .leaf ⟨"peg_ratio", "<", some (.int 1), none, none, none, "ignore"⟩
    sort := []
    limit := some 1 }

def twoCompanies : Store Float
  | .candidates _ _ => .ok [[(tickerColumn, .text "A")], [(tickerColumn, .text "B")]]
  | _ => .ok []

theorem exists_of_twoCompanies (s : Statement Float) : ∃ rows, twoCompanies s = .ok rows := by
  cases s <;> exact ⟨_, rfl⟩

theorem runCompiledBy_qualifying_twoCompanies :
    ∃ q, Compilation.compile Settings.default lenientQuery = .ok q ∧
      runCompiledBy twoCompanies 5 q (fun candidates => backwards candidates.length) =
        .ok [[(tickerColumn, .text "A")]] := by
  have hs : Settings.default.validate = .ok () := by decide
  have ha : lenientQuery.IsAddressable := Nat.zero_le _
  have hq : Compilation.compile Settings.default lenientQuery = .ok _ :=
    Compilation.compile_eq_queryOf hs ha rfl rfl rfl
  obtain ⟨hok, hrows, -⟩ := runCompiledBy_qualifying Settings.default lenientQuery _ hq
    (List.cons_ne_nil _ _) twoCompanies 5 2 fun candidates => backwards candidates.length
  obtain ⟨rows, hr⟩ := hok.mpr ⟨_, rfl, fun r hr => ⟨by
    obtain rfl | hr := List.mem_cons.mp hr
    · exact ⟨"A", rfl⟩
    · obtain rfl := List.mem_singleton.mp hr
      exact ⟨"B", rfl⟩, fun s _ => exists_of_twoCompanies s⟩⟩
  obtain ⟨candidates, hc, rfl⟩ := hrows rows hr
  cases hc
  exact ⟨_, hq, hr.trans rfl⟩

end Screen

end EquityScreen
