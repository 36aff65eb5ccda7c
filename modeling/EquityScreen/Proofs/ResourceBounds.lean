import EquityScreen.Proofs.BoundedTexts
import EquityScreen.Proofs.JoinedRows
import EquityScreen.Proofs.ResolvableConditions

namespace EquityScreen

open Sql Compilation Validation

variable {α : Type}

structure Settings.AreBounded (s : Settings) : Prop where
  defaultLimit : 1 ≤ s.defaultLimit ∧ s.defaultLimit ≤ s.maxLimit
  maxWindowLength : 1 ≤ s.maxWindowLength
  historyLength : 1 ≤ s.historyLength ∧ s.historyLength ≤ s.maxWindowLength

theorem Settings.areBounded_of_validate {s : Settings} (h : s.validate = .ok ()) :
    s.AreBounded := by
  unfold validate at h
  split at h
  · cases h
  · next hlimit =>
    split at h
    · cases h
    · next hwindow =>
      split at h
      · cases h
      · next hhistory => exact ⟨by omega, by omega, by omega⟩

theorem Validation.checkLimit_eq_ok {maxLimit : Nat} {limit : Option Nat}
    (h : checkLimit (α := α) maxLimit limit = .ok ()) : ∀ n ∈ limit, 1 ≤ n ∧ n ≤ maxLimit := by
  rintro n ⟨⟩
  simp only [checkLimit] at h
  split at h
  · cases h
  · omega

namespace Statement

def limit? : Statement α → Option Nat
  | .candidates s _ => s.limit
  | .facts _ _ _ length | .cashFlows _ length => some length

/-- A statement that asks for so many rows. Its text leaves the number to a parameter. -/
structure AsksFor (names : TableNames) (length : Nat) (st : Statement α) : Prop where
  limit : st.limit? = some length
  text : rowBounds (st.text names) = [⟨limitPhrase, 0, Predicate.placeholder 2⟩]
  parameter : st.params[1]? = some (.count length)

end Statement

/-- A store that yields no more rows than it is asked for. -/
def HonoursLimits (store : Store α) : Prop :=
  ∀ st rows, store st = .ok rows → ∀ n ∈ st.limit?, rows.length ≤ n

theorem Database.honoursLimits_store [Quantity α] (names : TableNames) (db : Database α) :
    HonoursLimits (db.store names) := by
  intro st rows h n hn
  obtain ⟨-, rfl⟩ := store_eq_ok.mp h
  cases st with
  | candidates s params =>
    have hlimit : s.limit = some n := hn
    simp only [answer, select, takeLimit, hlimit, List.length_map]
    exact List.length_take_le ..
  | facts | cashFlows =>
    cases hn
    simp only [answer, newestOf, List.length_map]
    exact List.length_take_le ..

/-- The bounds of a condition: the length of its window, and the bounds in its text, which stand in
subqueries, are numbers from 1 to the greatest length. The length of the window is one of them. -/
structure CompiledCondition.IsBounded (names : TableNames) (maxLength : Nat)
    (d : CompiledCondition α) : Prop where
  window : ∀ w ∈ d.window, 1 ≤ w.length ∧ w.length ≤ maxLength
  text : ∀ p ∈ d.predicate, ∀ b ∈ rowBounds (p.text names), b.IsWithin maxLength
  limited : ∀ w ∈ d.window, ∀ p ∈ d.predicate, p.IsLimitedTo names w.length

/-- The bounds of a compiled query: its limit is that of the request or the default; its outermost
query has this limit exactly if no condition is derived; all other bounds stand in subqueries. -/
structure CompiledQuery.IsBounded (s : Settings) (query : Query α) (q : CompiledQuery α) :
    Prop where
  limit : q.limit = query.limit.getD s.defaultLimit ∧ 1 ≤ q.limit ∧ q.limit ≤ s.maxLimit
  outermost : (rowBounds (q.text s.tables)).filter (fun b => b.depth = 0) =
    if q.derived.isEmpty then [⟨limitPhrase, 0, toString q.limit⟩] else []
  nested : ∀ b ∈ rowBounds (q.text s.tables), b.depth ≠ 0 → b.IsWithin s.maxWindowLength

namespace Resolution

open Traced

variable {store : Store α} {historyLength : Nat} {ticker : String}

theorem fetch_eq_ok {m : MetricName} {unit : WindowUnit} {length : Nat} {rows : List (Row α)}
    (h : (fetch store ticker m unit length).result = .ok rows) :
    (store (.facts unit (columnsOf m) ticker length) = .ok rows ∧
      (fetch store ticker m unit length).asked = [.facts unit (columnsOf m) ticker length]) ∨
    ∃ facts statements, rows = mergeCashFlows unit length facts statements := by
  unfold fetch at h ⊢
  rw [result_bind] at h
  obtain ⟨facts, hfacts, h⟩ := bind_eq_ok.mp h
  have hanswer := mapError_eq_ok.mp hfacts
  cases hl : lacksCashFlow (columnsOf m) facts with
  | false =>
    simp only [hl, Bool.false_eq_true, if_false] at h
    cases h
    refine .inl ⟨hanswer, ?_⟩
    rw [asked_bind hfacts, hl]
    rfl
  | true =>
    simp only [hl, if_true, result_bind] at h
    obtain ⟨statements, -, h⟩ := bind_eq_ok.mp h
    cases h
    exact .inr ⟨facts, statements, rfl⟩

theorem length_mergeCashFlows (unit : WindowUnit) (length : Nat) (facts statements : List (Row α)) :
    (mergeCashFlows unit length facts statements).length ≤ length :=
  List.length_take_le ..

theorem length_of_fetch {m : MetricName} {unit : WindowUnit} {length : Nat} {rows : List (Row α)}
    (h : (fetch store ticker m unit length).result = .ok rows)
    (hbounded : HonoursLimits store ∨
      .cashFlows ticker length ∈ (fetch store ticker m unit length).asked) :
    rows.length ≤ length := by
  obtain ⟨hfacts, hasked⟩ | ⟨facts, statements, rfl⟩ := fetch_eq_ok h
  · obtain hhonours | hmerged := hbounded
    · exact hhonours _ rows hfacts length rfl
    · simp [hasked] at hmerged
  · exact length_mergeCashFlows unit length facts statements

theorem length_spanOf {maxLength : Nat} {d : CompiledCondition α}
    (hhistory : 1 ≤ historyLength ∧ historyLength ≤ maxLength)
    (hwindow : ∀ w ∈ d.window, 1 ≤ w.length ∧ w.length ≤ maxLength) :
    1 ≤ (spanOf historyLength d.window).2 ∧ (spanOf historyLength d.window).2 ≤ maxLength := by
  cases hw : d.window with
  | none => exact hhistory
  | some w => exact hwindow w hw

variable [Quantity α]

theorem compute_eq_ok {d : CompiledCondition α} {x : Except MetricError α}
    (h : (compute store historyLength ticker d).result = .ok x) :
    ∃ m rows, metric? d.field = some m ∧
      (fetch store ticker m (spanOf historyLength d.window).1
        (spanOf historyLength d.window).2).result = .ok rows ∧
      x = if rows.isEmpty then .error ⟨m, .noFacts ticker⟩
        else Metric.compute m (reshape m rows) := by
  unfold compute at h
  cases hm : metric? d.field with
  | none =>
    rw [hm] at h
    cases h
  | some m =>
    simp only [hm, result_bind] at h
    obtain ⟨rows, hrows, hx⟩ := bind_eq_ok.mp h
    exact ⟨m, rows, rfl, hrows, (Except.ok.inj hx).symm⟩

theorem asksFor_of_passes {names : TableNames} (hn : names.IsPlain)
    (ds : List (CompiledCondition α)) (candidate : Row α) :
    ∀ st ∈ (passes store historyLength ds candidate).asked,
      ∃ d ∈ ds, st.AsksFor names (spanOf historyLength d.window).2 := by
  refine asksOnly_passes (fun ticker d hd => ?_) candidate
  refine asksOnly_compute rfl (fun m => ⟨d, hd, rfl, ?_, rfl⟩) ⟨d, hd, rfl, ?_, rfl⟩
  · obtain ⟨t, ht⟩ := facts_isForMetric _ m ticker _
    exact Statement.rowBounds_text hn ht
  · obtain ⟨t, ht⟩ := cashFlows_isForMetric ticker _
    exact Statement.rowBounds_text hn ht

end Resolution

namespace Compilation

variable [Quantity α]

theorem Compiles.window_bounded {maxLength n : Nat} {c : Condition α} {d : CompiledCondition α}
    (h : Compiles maxLength n c d) : ∀ w ∈ d.window, 1 ≤ w.length ∧ w.length ≤ maxLength := by
  have hderived {window : Option WindowSpec} (hw : c.HasWindow maxLength window) :
      ∀ w ∈ window, 1 ≤ w.length ∧ w.length ≤ maxLength := by
    obtain ⟨-, rfl⟩ | ⟨w, spec, -, hspec, hmax, rfl⟩ := hw
    · exact nofun
    · rintro _ ⟨⟩
      exact ⟨spec?_length_pos hspec, hmax⟩
  cases h with
  | comparison | range => exact nofun
  | trend on _ _ _ _ hspec hmax | window on _ _ _ hspec hmax =>
    rintro _ ⟨⟩
    exact ⟨spec?_length_pos hspec, hmax⟩
  | derivedRange metric | derivedComparison metric => exact hderived metric.window

theorem Compiles.isLimitedTo {maxLength n : Nat} {c : Condition α} {d : CompiledCondition α}
    (h : Compiles maxLength n c d) (hmax : 1 ≤ maxLength) {names : TableNames}
    (hn : names.IsPlain) : ∀ w ∈ d.window, ∀ p ∈ d.predicate, p.IsLimitedTo names w.length := by
  have hproper : ∀ p ∈ d.predicate, p.IsProper maxLength := fun p hp => h.isProper hp
  cases h with
  | comparison | range => exact nofun
  | trend =>
    rintro _ ⟨⟩ p hp
    obtain rfl := Option.some.inj hp
    exact Predicate.isLimitedTo_trend hn _ (hproper _ rfl)
  | window =>
    rintro _ ⟨⟩ p hp
    obtain rfl := Option.some.inj hp
    have hw := Operand.aggregate_mem_upTo.mp (hproper _ rfl)
    exact Predicate.isLimitedTo_compare hmax hn _ hw _ _
  | derivedRange | derivedComparison =>
    rintro w hw p hp
    cases hp

/-- The bounds of a compiled condition, whether or not it has been validated. -/
theorem isBounded_of_compileCondition {s : Settings} (hs : s.validate = .ok ()) {n : Nat}
    {c : Condition α} {d : CompiledCondition α}
    (h : compileCondition s.maxWindowLength n c = .ok d) :
    d.IsBounded s.tables s.maxWindowLength := by
  have hcompiles := (compileCondition_eq_ok_iff ..).mp h
  have hn := Settings.isPlain_of_validate hs
  have hmax := (Settings.areBounded_of_validate hs).maxWindowLength
  refine ⟨hcompiles.window_bounded, fun p hp => ?_, hcompiles.isLimitedTo hmax hn⟩
  have hproper := hcompiles.isProper hp
  refine isWithin_of_encloses (l := 0) ?_
  rw [Predicate.tokens_text hn hproper]
  exact Predicate.encloses_tokens hmax hn hproper

theorem limit_of_compile {s : Settings} (hs : s.validate = .ok ()) {query : Query α}
    {q : CompiledQuery α} (hq : compile s query = .ok q) :
    q.limit = query.limit.getD s.defaultLimit ∧ 1 ≤ q.limit ∧ q.limit ≤ s.maxLimit := by
  obtain ⟨hv, g, order, -, -, -, rfl⟩ := (compile_eq_ok ..).mp hq
  obtain ⟨⟨⟩, -, hv⟩ := bind_eq_ok.mp hv
  obtain ⟨⟨⟩, hlimit, -⟩ := bind_eq_ok.mp hv
  refine ⟨rfl, ?_⟩
  cases hl : query.limit with
  | none => simpa [queryOf, hl] using (Settings.areBounded_of_validate hs).defaultLimit
  | some n => simpa [queryOf, hl] using checkLimit_eq_ok hlimit n hl

theorem selection_limit_of_compile {s : Settings} {query : Query α} {q : CompiledQuery α}
    (hq : compile s query = .ok q) :
    q.selection.limit = if q.derived.isEmpty then some q.limit else none := by
  obtain ⟨-, g, order, -, -, -, rfl⟩ := (compile_eq_ok ..).mp hq
  rfl

omit [Quantity α] in
theorem isWord_of_order {s : Settings} {query : Query α} {g : Fragment α} {order : List OrderKey}
    (ho : orderOf (α := α) query.sort = .ok order) :
    ∀ k ∈ (selectionOf s query g order).order, IsWord (Selection.columnText k.source k.column) := by
  intro k hk
  change k ∈ orderOrTicker order at hk
  cases order with
  | nil =>
    obtain rfl := List.mem_singleton.mp hk
    decide
  | cons first rest =>
    obtain ⟨f, hf, hc⟩ := column_of_orderOf ho k hk
    rw [hc]
    exact (Selection.columnText_spec k.source (column_mem_columns f hf)).1

theorem isBounded_of_compile {s : Settings} (hs : s.validate = .ok ()) {query : Query α}
    {q : CompiledQuery α} (hq : compile s query = .ok q) : q.IsBounded s query := by
  obtain ⟨-, g, order, hg, ho, -, hqueryOf⟩ := (compile_eq_ok ..).mp hq
  have hshown : ∀ f ∈ q.selection.shown, f ∈ catalog := by
    rw [hqueryOf]
    exact fun f hf => field_mem_of_referenced (List.mem_filter.mp hf).1
  have hcondition : ∀ p ∈ q.selection.condition, p.IsProper s.maxWindowLength := by
    rw [hqueryOf]
    exact compileNode_isProper hg
  have horder : ∀ k ∈ q.selection.order, IsWord (Selection.columnText k.source k.column) := by
    rw [hqueryOf]
    exact isWord_of_order ho
  obtain ⟨inner, htext, hinner⟩ := Selection.rowBounds_text (Settings.isPlain_of_validate hs)
    (Settings.areBounded_of_validate hs).maxWindowLength hshown hcondition horder
  have hdeep : inner.filter (fun b => b.depth = 0) = [] :=
    List.filter_eq_nil_iff.mpr fun b hb => by
      have hpos := (hinner b hb).enclosed
      simpa using hpos.ne'
  have houter : q.selection.outerBounds =
      if q.derived.isEmpty then [⟨limitPhrase, 0, toString q.limit⟩] else [] := by
    rw [Selection.outerBounds, selection_limit_of_compile hq]
    split <;> rfl
  refine ⟨limit_of_compile hs hq, ?_, fun b hb hdepth => ?_⟩
  · rw [CompiledQuery.text, htext, List.filter_append, hdeep, houter, List.nil_append]
    split <;> rfl
  · rw [CompiledQuery.text, htext, houter] at hb
    refine hinner b ((List.mem_append.mp hb).resolve_right fun hb => hdepth ?_)
    split at hb
    · rw [List.mem_singleton.mp hb]
    · cases hb

end Compilation

namespace Screen

open Resolution

variable [Quantity α] {store : Store α} {historyLength : Nat} {q : CompiledQuery α} {workers : Nat}

theorem length_of_runCompiledBy (hstore : HonoursLimits store)
    (hlimit : q.selection.limit = if q.derived.isEmpty then some q.limit else none)
    {schedule : (candidates : List (Row α)) → Schedule workers candidates.length}
    {rows : List (Row α)} (h : runCompiledBy store historyLength q schedule = .ok rows) :
    rows.length ≤ q.limit := by
  unfold runCompiledBy at h
  cases hc : store q.statement with
  | error e =>
    rw [hc] at h
    cases h
  | ok candidates =>
    cases hd : q.derived.isEmpty with
    | true =>
      simp only [hc, hd, if_true] at h
      cases h
      refine hstore _ _ hc q.limit ?_
      simp [CompiledQuery.statement, Statement.limit?, hlimit, hd]
    | false =>
      simp only [hc, hd, Bool.false_eq_true, if_false, mapError_eq_ok, map_eq_ok] at h
      obtain ⟨passed, -, rfl⟩ := h
      exact List.length_take_le ..

/-- Settings that are accepted bound the resources of a screen. Conditions that compile have bounded
windows, in their texts too, even if nobody has validated them. An accepted request has a limit from
1 to the greatest that is allowed, which its selection carries exactly if no condition is derived.
Each derived condition reads from 1 to the greatest length of periods: whatever is asked about a
candidate asks for as many rows, and the metric is computed from no more, if rows are merged or the
store honours limits. If it does, a run yields no more rows than the limit. -/
theorem bounded_of_validate (s : Settings) (hs : s.validate = .ok ()) :
    (∀ (n : Nat) (c : Condition α) (d : CompiledCondition α),
      compileCondition s.maxWindowLength n c = .ok d →
        d.IsBounded s.tables s.maxWindowLength) ∧
    ∀ (query : Query α) (q : CompiledQuery α), compile s query = .ok q →
      q.IsBounded s query ∧
      (∀ d ∈ q.derived, 1 ≤ (spanOf s.historyLength d.window).2 ∧
        (spanOf s.historyLength d.window).2 ≤ s.maxWindowLength) ∧
      ∀ store : Store α,
        (∀ candidate, ∀ st ∈ (passes store s.historyLength q.derived candidate).asked,
          ∃ d ∈ q.derived, st.AsksFor s.tables (spanOf s.historyLength d.window).2) ∧
        (∀ d ∈ q.derived, ∀ unit length, spanOf s.historyLength d.window = (unit, length) →
          ∀ ticker x, (compute store s.historyLength ticker d).result = .ok x →
            ∃ m rows, metric? d.field = some m ∧
              (fetch store ticker m unit length).result = .ok rows ∧
              x = (if rows.isEmpty then .error ⟨m, .noFacts ticker⟩
                else Metric.compute m (reshape m rows)) ∧
              (HonoursLimits store ∨
                .cashFlows ticker length ∈ (fetch store ticker m unit length).asked →
                  rows.length ≤ length)) ∧
        (HonoursLimits store →
          (∀ rows, (runCompiled store s.historyLength q).result = .ok rows →
            rows.length ≤ q.limit) ∧
          ∀ (workers : Nat) (start : Nat → Except PoolError Unit)
            (schedule : (candidates : List (Row α)) → Schedule workers candidates.length) rows,
            runPooled start store s.historyLength q schedule = .ok rows →
              rows.length ≤ q.limit) := by
  have hlimits := Settings.areBounded_of_validate hs
  have hn := Settings.isPlain_of_validate hs
  refine ⟨fun n c d hd => isBounded_of_compileCondition hs hd, fun query q hq =>
    ⟨isBounded_of_compile hs hq, fun d hd => ?span, fun store =>
      ⟨asksFor_of_passes hn q.derived, ?reshaped, fun hstore => ?results⟩⟩⟩
  case span =>
    refine length_spanOf hlimits.historyLength fun w hw => ?_
    have hwindow := (isResolvable_of_compile hq d hd).window w hw
    exact ⟨by omega, hwindow.2⟩
  case reshaped =>
    intro d hd unit length hspan ticker x hx
    obtain ⟨m, rows, hm, hrows, hvalue⟩ := compute_eq_ok hx
    rw [hspan] at hrows
    exact ⟨m, rows, hm, hrows, hvalue, length_of_fetch hrows⟩
  case results =>
    have hlimit := selection_limit_of_compile hq
    refine ⟨fun rows hrows => ?_, fun workers start schedule rows hrows => ?_⟩
    · rw [runCompiled_eq] at hrows
      exact length_of_runCompiledBy hstore hlimit hrows
    · exact length_of_runCompiledBy hstore hlimit (runCompiledBy_of_runPooled hrows)

/-- Growth of revenue over four quarters, and of earnings over four years where there are any. -/
def growingQuery : Query ℚ :=
  { filter := .group .and
      [.leaf ⟨"revenue", none, none, none, some ⟨some "quarters", some (.int 4), none⟩,
         some "increasing", none⟩,
       .leaf ⟨"eps_cagr", some ">", some (.int 0), none, some ⟨some "years", some (.int 4), none⟩,
         none, some "ignore"⟩]
    sort := []
    limit := some 2 }

def threeCompanies : Store ℚ
  | .candidates s _ =>
    .ok (Database.takeLimit s.limit
      [[(tickerColumn, .text "A")], [(tickerColumn, .text "B")], [(tickerColumn, .text "C")]])
  | _ => .ok []

theorem honoursLimits_threeCompanies : HonoursLimits threeCompanies := by
  intro st rows h n hn
  cases st with
  | candidates s params =>
    have hlimit : s.limit = some n := hn
    simp only [threeCompanies, Database.takeLimit, hlimit] at h
    cases h
    exact List.length_take_le ..
  | facts | cashFlows =>
    cases h
    exact Nat.zero_le n

theorem bounded_of_validate_growingQuery :
    ∃ q, compile Settings.default growingQuery = .ok q ∧ q.limit ≤ 1000 ∧
      (rowBounds (q.text [])).filter (fun b => b.depth = 0) = [] ∧
      ∃ rows, (runCompiled threeCompanies 10 q).result = .ok rows ∧
        rows.map (Row.get · tickerColumn) = [.text "A", .text "B"] ∧ rows.length ≤ q.limit := by
  have hs : Settings.default.validate = .ok () := by decide
  have ha : growingQuery.IsAddressable := by
    unfold Query.IsAddressable
    decide +kernel
  have hq : compile Settings.default growingQuery = .ok _ := compile_eq_queryOf hs ha rfl rfl rfl
  obtain ⟨hbounded, -, hruns⟩ := (bounded_of_validate Settings.default hs).2 growingQuery _ hq
  obtain ⟨-, -, hresults⟩ := hruns threeCompanies
  refine ⟨_, hq, hbounded.limit.2.2, hbounded.outermost, ?_⟩
  exact ⟨_, rfl, rfl, (hresults honoursLimits_threeCompanies).1 _ rfl⟩

end Screen

end EquityScreen
