import EquityScreen.Proofs.CandidateVerdicts
import EquityScreen.Proofs.RangeComparisons
import EquityScreen.Proofs.ResolvableConditions

namespace EquityScreen

open Quantity

variable {α : Type} [Quantity α]

theorem Cell.isDefinite_of_isNull [LinearOrder α] [IsLinear α] {v : Cell α}
    (hv : v.isNull = false) : v.IsDefinite := by
  have hless (x : α) : less x x = false := by
    rw [← Bool.not_eq_true, IsLinear.less_iff]
    exact lt_irrefl x
  have hsame (x : α) : same x x = true := (IsLinear.same_iff x x).mpr rfl
  cases v with
  | null => cases hv
  | flag b => cases b <;> rfl
  | int n => simp [IsDefinite, equals, compare?, isNull, order]
  | real x => simp [IsDefinite, equals, compare?, isNull, order, Quantity.order, hless, hsame]
  | text s => exact isDefinite_text s

namespace Field

variable {f : Field} {policy : MissingPolicy} {h : History α} {k : Candidate α}

theorem compares_number [IsExact α] [LinearOrder α] [IsLinear α] (hf : f.kind = .numeric)
    {l : Literal α} {x : α} (hx : l.number? = some x) (hl : l.IsPrecise) (op : Operator)
    (v : Cell α) : f.compares op (.real x) v = f.compares op l v := by
  obtain ⟨σ⟩ := IsExact.nonempty_scale (α := α)
  have hadapt {l : Literal α} (hl : l.isNumeric = true) :
      (Operand.column f).adapt (Parameter.literal l).cell = (Parameter.literal l).cell := by
    cases l with
    | int | real => simp [Operand.adapt, hf, Parameter.cell, Affinity.adapt, Affinity.unflag]
    | text | bool | null => cases hl
  have hnumeric : l.isNumeric = true := by
    cases l with
    | int | real => rfl
    | text | bool | null => cases hx
  have hnull : (Parameter.literal l).cell.isNull = false := by
    cases l with
    | int | real => rfl
    | text | bool | null => cases hx
  obtain ⟨hdefinite, hequals⟩ := hl x hx
  have hcell := Cell.isDefinite_of_isNull hnull
  unfold compares
  rw [hadapt hnumeric, hadapt (l := .real x) rfl]
  unfold Predicate.compareCells Cell.compare?
  cases hv : v.isNull with
  | true => rfl
  | false =>
    have hdef := Cell.isDefinite_of_isNull hv
    have horder : Cell.order v (.real x) = Cell.order v (Parameter.literal l).cell := by
      rw [hdef.order_eq σ hdefinite, hdef.order_eq σ hcell, hcell.rank_eq σ hdefinite hequals]
    have hreal : (Parameter.literal (.real x)).cell = Cell.real x := rfl
    rw [hreal, horder, hnull]
    rfl

/-- A policy decides for both of two tests as for each. -/
theorem tested_and (test test' : Cell α → Truth) :
    f.tested policy h k (fun v => (test v).and (test' v)) =
      (f.tested policy h k test).and (f.tested policy h k test') := by
  unfold tested
  cases k.get f.source f.column <;> cases policy <;> try rfl
  cases f.isPeriodic <;> cases f.newestAnnual? h k <;> rfl

end Field

namespace Filter

variable {h : History α} {k : Candidate α}

theorem truth?_conjunction (cs : List (Condition α)) :
    (conjunction cs).truth? h k = truthOfAll? h k (cs.map .leaf) := by
  unfold conjunction
  split
  · next c => cases hc : c.truth? h k <;> simp [truth?, truthOfAll?, hc, Truth.and_yes]
  · rfl

theorem truthOfAll?_leaves {β : Type} {ps : List β} {condition : β → Condition α} {t : β → Truth}
    (hps : ∀ p ∈ ps, (condition p).truth? h k = some (t p)) :
    truthOfAll? h k ((ps.map condition).map .leaf) = some ((ps.map t).foldr Truth.and .yes) := by
  induction ps with
  | nil => rfl
  | cons p ps ih =>
    obtain ⟨hp, hps⟩ := List.forall_mem_cons.mp hps
    simp only [List.map_cons, truthOfAll?, truth?, hp, ih hps]
    rfl

theorem truthOfAll?_child {f g : Filter α} (hfg : f.truth? h k = g.truth? h k)
    (before after : List (Filter α)) :
    truthOfAll? h k (before ++ f :: after) = truthOfAll? h k (before ++ g :: after) := by
  induction before with
  | nil => simp only [List.nil_append, truthOfAll?, hfg]
  | cons e before ih => simp only [List.cons_append, truthOfAll?, ih]

theorem truthOfAny?_child {f g : Filter α} (hfg : f.truth? h k = g.truth? h k)
    (before after : List (Filter α)) :
    truthOfAny? h k (before ++ f :: after) = truthOfAny? h k (before ++ g :: after) := by
  induction before with
  | nil => simp only [List.nil_append, truthOfAny?, hfg]
  | cons e before ih => simp only [List.cons_append, truthOfAny?, ih]

end Filter

namespace Validation

open Compilation

variable {maxLength : Nat} {c : Condition α} {r : Range α} {f g : Filter α}

omit [Quantity α] in
theorem comparison?_comparing {p : Operator × Literal α} (hp : p.2.isNumeric = true) :
    (c.comparing p).comparison? = some p := by
  obtain ⟨op, l⟩ := p
  cases l with
  | int | real => simp [Condition.comparison?, Condition.comparing, Operator.read_sql]
  | text | bool | null => cases hp

theorem kind_of_range (hc : Accepted maxLength c) (hr : c.range = some r) {d : Field}
    (hd : field? c.fieldName = some d) : d.kind = .numeric := by
  cases hkind : d.kind with
  | numeric => rfl
  | text => simp [hc.range_of_text hd hkind] at hr

section

variable [IsExact α] [LinearOrder α] [IsLinear α] {h : History α} {k : Candidate α}

theorem tested_within {d : Field} (hd : d.kind = .numeric)
    (hnumeric : ∀ p ∈ r.comparisons, p.2.isNumeric = true)
    (hprecise : ∀ p ∈ r.comparisons, p.2.IsPrecise) (hne : r.comparisons ≠ [])
    (policy : MissingPolicy) :
    d.tested policy h k (d.within ⟨r.lower?, r.upper?, r.isInclusive⟩) =
      (r.comparisons.map fun p =>
        d.tested policy h k (d.compares p.1 p.2)).foldr Truth.and .yes := by
  obtain ⟨hlow, hhigh⟩ := Range.forall_comparisons (P := (·.isNumeric = true)) |>.mp hnumeric
  obtain ⟨hlow', hhigh'⟩ := Range.forall_comparisons (P := (·.IsPrecise)) |>.mp hprecise
  have hnumber {l : Literal α} (hl : l.isNumeric = true) (hp : l.IsPrecise) :
      ∃ x, l.number? = some x ∧ ∀ op v, d.compares op (.real x) v = d.compares op l v :=
    let ⟨x, hx⟩ := exists_number? hl
    ⟨x, hx, Field.compares_number hd hx hp⟩
  unfold Range.comparisons at hne ⊢
  rw [Range.lower?, Range.upper?]
  rcases hmin : r.min with _ | low <;> rcases hmax : r.max with _ | high
  · simp [hmin, hmax] at hne
  · obtain ⟨y, hy, hcompares⟩ := hnumber (hhigh high hmax) (hhigh' high hmax)
    have hwithin : d.within ⟨none, some y, r.isInclusive⟩ =
        fun v => d.compares (if r.isInclusive then .le else .lt) high v :=
      funext fun v => by simp [Field.within, hcompares, Truth.yes_and]
    simp [hy, hwithin, Truth.and_yes]
  · obtain ⟨x, hx, hcompares⟩ := hnumber (hlow low hmin) (hlow' low hmin)
    have hwithin : d.within ⟨some x, none, r.isInclusive⟩ =
        fun v => d.compares (if r.isInclusive then .ge else .gt) low v :=
      funext fun v => by simp [Field.within, hcompares, Truth.and_yes]
    simp [hx, hwithin, Truth.and_yes]
  · obtain ⟨x, hx, habove⟩ := hnumber (hlow low hmin) (hlow' low hmin)
    obtain ⟨y, hy, hbelow⟩ := hnumber (hhigh high hmax) (hhigh' high hmax)
    have hwithin : d.within ⟨some x, some y, r.isInclusive⟩ =
        fun v => (d.compares (if r.isInclusive then .ge else .gt) low v).and
          (d.compares (if r.isInclusive then .le else .lt) high v) :=
      funext fun v => by simp [Field.within, habove, hbelow]
    simp [hx, hy, hwithin, Field.tested_and, Truth.and_yes]

/-- A range is true, false or unknown of a candidate as the comparisons with its bounds are. -/
theorem truth?_unfolded (hc : Accepted maxLength c) (hr : c.range = some r)
    (hprecise : ∀ p ∈ r.comparisons, p.2.IsPrecise) :
    c.truth? h k = (Filter.conjunction (c.unfolded r)).truth? h k := by
  have horderly := hc.isOrderly hr
  rw [Filter.truth?_conjunction]
  obtain ⟨d, hd, hfield⟩ | ⟨-, hderived⟩ := field_of_checkSupport hc.support
  · have hw : c.window = none := (facts_of_checkField hfield).2.1 (by simp [hr])
    obtain ⟨policy, test, hpolicy, hasks, htruth⟩ := hc.exists_asks hd hw
    have hcomparing : ∀ p ∈ r.comparisons, (c.comparing p).truth? h k =
        some (d.tested policy h k (d.compares p.1 p.2)) := by
      intro p hp
      obtain ⟨policy', test', hpolicy', hasks', htruth'⟩ := (hc.comparing hr hp).exists_asks hd hw
      obtain rfl : policy = policy' := Option.some.inj (hpolicy.symm.trans hpolicy')
      have hread := comparison?_comparing (c := c) (horderly.numeric p hp)
      have hnone : (c.comparing p).range = none := rfl
      rw [Condition.asks?, hnone, hread] at hasks'
      obtain rfl := Option.some.inj hasks'
      exact htruth' h k
    rw [Condition.asks?, hr] at hasks
    obtain ⟨s, hs, rfl⟩ := Option.map_eq_some_iff.mp hasks
    obtain ⟨rfl, -⟩ := span?_eq_some hs
    rw [htruth, tested_within (kind_of_range hc hr hd) horderly.numeric hprecise horderly.bounded]
    exact (Filter.truthOfAll?_leaves hcomparing).symm
  · have hyes (e : Condition α) (he : e.fieldName = c.fieldName) : e.truth? h k = some .yes := by
      simp [Condition.truth?, he, hderived]
    have hall (ps : List (Operator × Literal α)) :
        (ps.map fun _ => Truth.yes).foldr Truth.and .yes = .yes := by
      induction ps with
      | nil => rfl
      | cons _ _ ih => exact congrArg (Truth.and .yes) ih
    rw [hyes c rfl, ← hall r.comparisons]
    exact (Filter.truthOfAll?_leaves fun p _ => hyes (c.comparing p) rfl).symm

theorem truth?_unfolds {conjunctive : Bool} (hf : IsWellFormed maxLength conjunctive f)
    (hfg : f.Unfolds g) : f.truth? h k = g.truth? h k := by
  induction hfg generalizing conjunctive with
  | range hr hprecise => exact truth?_unfolded (hf.accepted _ (by simp)) hr hprecise
  | not _ ih =>
    rw [Filter.truth?, Filter.truth?, ih (isWellFormed_not.mp hf)]
  | child c before after _ ih =>
    have hchild := ih (hf.child (by simp))
    cases c with
    | and => exact Filter.truthOfAll?_child hchild before after
    | or => exact Filter.truthOfAny?_child hchild before after

end

end Validation

namespace Resolution

open Compilation Validation Traced

variable {store : Store α} {historyLength : Nat} {ticker : String}

theorem compute_congr {d e : CompiledCondition α} (hfield : d.field = e.field)
    (hwindow : d.window = e.window) :
    compute store historyLength ticker d = compute store historyLength ticker e := by
  unfold compute
  rw [hfield, hwindow]

/-- Conditions on one metric over one window are decided by one value. -/
theorem result_passesAll_same {es : List (CompiledCondition α)} (hne : es ≠ [])
    {value : Except ResolveError (Except MetricError α)}
    (hes : ∀ e ∈ es, (compute store historyLength ticker e).result = value) :
    (passesAll store historyLength ticker es).result =
      value.map fun x => es.all fun e => accepts e x := by
  induction es with
  | nil => exact absurd rfl hne
  | cons e es ih =>
    obtain ⟨he, hes⟩ := List.forall_mem_cons.mp hes
    rw [passesAll, result_bind, he]
    cases value with
    | error error => rfl
    | ok x =>
      change (if accepts e x = true then passesAll store historyLength ticker es
        else return false).result = .ok _
      cases ha : accepts e x with
      | false => simp [ha]; rfl
      | true =>
        cases es with
        | nil => simp [ha]; rfl
        | cons e' rest => simp [ha, ih (by simp) hes, Except.map]

theorem result_passesAll_append (ds es : List (CompiledCondition α)) :
    (passesAll store historyLength ticker (ds ++ es)).result =
      (passesAll store historyLength ticker ds).result >>= fun passed =>
        if passed then (passesAll store historyLength ticker es).result else .ok false := by
  induction ds with
  | nil => rfl
  | cons d ds ih =>
    simp only [List.cons_append, passesAll, result_bind]
    cases (compute store historyLength ticker d).result with
    | error error => rfl
    | ok x =>
      change (if accepts d x = true then passesAll store historyLength ticker (ds ++ es)
        else return false).result = (if accepts d x = true then
          passesAll store historyLength ticker ds else return false).result >>= _
      cases accepts d x with
      | false => rfl
      | true => exact ih

end Resolution

def CompiledCondition.comparing (d : CompiledCondition α) (p : Operator × Literal α) :
    CompiledCondition α :=
  { d with operator := some p.1, value := some p.2, range := none }

namespace Resolution

open Compilation Validation Traced

variable {store : Store α} {historyLength : Nat} {ticker : String} {r : Range α}
  {d : CompiledCondition α}

theorem satisfies_comparing (hd : d.range = some ⟨r.lower?, r.upper?, r.isInclusive⟩)
    (hnumeric : ∀ p ∈ r.comparisons, p.2.isNumeric = true) (x : α) :
    satisfies d x = r.comparisons.all fun p => satisfies (d.comparing p) x := by
  obtain ⟨hlow, hhigh⟩ := Range.forall_comparisons (P := (·.isNumeric = true)) |>.mp hnumeric
  have hevaluate {op : Operator} {l : Literal α} {y : α} (hy : l.number? = some y) :
      satisfies (d.comparing (op, l)) x = op.evaluate x y := by
    simp [satisfies, CompiledCondition.comparing, hy]
  have hrange : satisfies d x = Span.contains ⟨r.lower?, r.upper?, r.isInclusive⟩ x := by
    simp only [satisfies, hd]
  rw [hrange, Span.contains, Range.lower?, Range.upper?, Range.comparisons]
  rcases hmin : r.min with _ | low <;> rcases hmax : r.max with _ | high
  · rfl
  · obtain ⟨y, hy⟩ := exists_number? (hhigh high hmax)
    cases r.isInclusive <;> simp [hy, hevaluate, Operator.evaluate]
  · obtain ⟨y, hy⟩ := exists_number? (hlow low hmin)
    cases r.isInclusive <;> simp [hy, hevaluate, Operator.evaluate]
  · obtain ⟨y, hy⟩ := exists_number? (hlow low hmin)
    obtain ⟨z, hz⟩ := exists_number? (hhigh high hmax)
    cases r.isInclusive <;> simp [hy, hz, hevaluate, Operator.evaluate]

theorem accepts_comparing (hd : d.range = some ⟨r.lower?, r.upper?, r.isInclusive⟩)
    (hnumeric : ∀ p ∈ r.comparisons, p.2.isNumeric = true) (hne : r.comparisons ≠ [])
    (x : Except MetricError α) :
    accepts d x = (r.comparisons.map d.comparing).all fun e => accepts e x := by
  cases x with
  | ok x =>
    rw [List.all_map]
    exact satisfies_comparing hd hnumeric x
  | error e =>
    -- Whether a missing value passes is a matter of the policy, which all of them share.
    rw [List.all_map]
    change accepts d (.error e) = r.comparisons.all fun _ => accepts d (.error e)
    obtain ⟨p, hp⟩ := List.exists_mem_of_ne_nil _ hne
    cases accepts d (.error e) with
    | true => simp
    | false => simpa using ⟨_, _, hp⟩

theorem result_passesAll_comparing (hd : d.range = some ⟨r.lower?, r.upper?, r.isInclusive⟩)
    (hnumeric : ∀ p ∈ r.comparisons, p.2.isNumeric = true) (hne : r.comparisons ≠ []) :
    (passesAll store historyLength ticker [d]).result =
      (passesAll store historyLength ticker (r.comparisons.map d.comparing)).result := by
  have hsame : ∀ e ∈ r.comparisons.map d.comparing, (compute store historyLength ticker e).result =
      (compute store historyLength ticker d).result := by
    intro e he
    obtain ⟨p, -, rfl⟩ := List.mem_map.mp he
    exact congrArg Traced.result (compute_congr rfl rfl)
  have hself : ∀ e ∈ [d], (compute store historyLength ticker e).result =
      (compute store historyLength ticker d).result := by simp
  have hall (x : Except MetricError α) : ([d].all fun e => accepts e x) =
      (r.comparisons.map d.comparing).all fun e => accepts e x := by
    rw [← accepts_comparing hd hnumeric hne]
    exact Bool.and_true _
  rw [result_passesAll_same (by simpa using hne) hsame,
    result_passesAll_same (List.cons_ne_nil d []) hself, funext hall]

def compiled? (maxLength : Nat) (c : Condition α) : Option (CompiledCondition α) :=
  (compileCondition maxLength 1 c).toOption

variable {maxLength n : Nat} {conjunctive : Bool} {c : Condition α} {f g : Filter α}
  {p q : Fragment α}

/-- What is put off until candidates are known are the compiled forms of the derived conditions. -/
theorem derived_eq (hp : compileNode maxLength n conjunctive f = .ok p) :
    p.derived = (f.conditions.filter fun c => isDerived c.fieldName).filterMap
      (compiled? maxLength) := by
  have hderived := (compileNode_accounts hp).derived
  generalize (f.conditions.filter fun c => isDerived c.fieldName) = cs at hderived
  generalize p.derived = ds at hderived
  induction hderived with
  | nil => rfl
  | @cons c d cs ds hc _ ih =>
    have hcompiled : compiled? maxLength c = some d := by simp [compiled?, hc 1, Except.toOption]
    rw [List.filterMap_cons_some hcompiled, ih]

theorem compiles_comparing {d : CompiledCondition α} (hcompiles : Compiles maxLength n c d)
    (hd : isDerived c.fieldName = true) (hr : c.range = some r)
    (hnumeric : ∀ p ∈ r.comparisons, p.2.isNumeric = true) :
    d.range = some ⟨r.lower?, r.upper?, r.isInclusive⟩ ∧
      ∀ p ∈ r.comparisons, Compiles maxLength n (c.comparing p) (d.comparing p) := by
  cases hcompiles with
  | comparison on | range on | trend on | window on => simp [on.notDerived] at hd
  | derivedComparison _ hnone => simp [hr] at hnone
  | @derivedRange policy window r' s metric hr' hs =>
    obtain rfl : r = r' := Option.some.inj (hr.symm.trans hr')
    refine ⟨congrArg some (span?_eq_some hs).1, fun p hp => ?_⟩
    have hmetric : (c.comparing p).IsDerivedOver maxLength window policy :=
      ⟨metric.derived, metric.policy, metric.noTrend, metric.window⟩
    exact .derivedComparison hmetric rfl (comparison?_comparing (hnumeric p hp)) (hnumeric p hp)

theorem compiled?_unfolded {d : CompiledCondition α} (hcompiles : Compiles maxLength 1 c d)
    (hd : isDerived c.fieldName = true) (hr : c.range = some r)
    (hnumeric : ∀ p ∈ r.comparisons, p.2.isNumeric = true) :
    [c].filterMap (compiled? maxLength) = [d] ∧
      (c.unfolded r).filterMap (compiled? maxLength) = r.comparisons.map d.comparing := by
  have hcompiled {c : Condition α} {d : CompiledCondition α} (h : Compiles maxLength 1 c d) :
      compiled? maxLength c = some d := by
    rw [compiled?, (compileCondition_eq_ok_iff ..).mpr h]
    rfl
  have hcomparing := (compiles_comparing hcompiles hd hr hnumeric).2
  refine ⟨by rw [List.filterMap_cons_some (hcompiled hcompiles), List.filterMap_nil], ?_⟩
  rw [Condition.unfolded, List.filterMap_map, ← List.filterMap_eq_map]
  exact List.filterMap_congr fun p hp => hcompiled (hcomparing p hp)

theorem result_passesAll_unfolds (hf : IsWellFormed maxLength true f) (hfg : f.Unfolds g)
    (hp : compileNode maxLength n true f = .ok p) (hq : compileNode maxLength n true g = .ok q) :
    (passesAll store historyLength ticker p.derived).result =
      (passesAll store historyLength ticker q.derived).result := by
  obtain ⟨before, c, r, after, hr, hfc, hgc⟩ := hfg.conditions
  have hmem : c ∈ f.conditions := by simp [hfc]
  have hc := hf.accepted c hmem
  have horderly := hc.isOrderly hr
  rw [derived_eq hp, derived_eq hq, hfc, hgc, List.append_cons]
  simp only [List.filter_append, List.filterMap_append, result_passesAll_append]
  have hnames : ∀ e ∈ c.unfolded r, isDerived e.fieldName = isDerived c.fieldName := by
    intro e he
    obtain ⟨p, -, rfl⟩ := List.mem_map.mp he
    rfl
  cases hd : isDerived c.fieldName with
  | false =>
    have hnone : (c.unfolded r).filter (fun e => isDerived e.fieldName) = [] :=
      List.filter_eq_nil_iff.mpr fun e he => by simp [hnames e he, hd]
    rw [hnone, List.filter_cons_of_neg (by simp [hd])]
    rfl
  | true =>
    have hall : (c.unfolded r).filter (fun e => isDerived e.fieldName) = c.unfolded r :=
      List.filter_eq_self.mpr fun e he => by rw [hnames e he, hd]
    obtain ⟨b, hderived⟩ := checkDerived_of_derivedOf hf.derived c hmem
    obtain ⟨d, hcompiles⟩ := hc.compiles_derived hderived hd 1
    obtain ⟨hleaf, hcomparing⟩ := compiled?_unfolded hcompiles hd hr horderly.numeric
    have hrange := (compiles_comparing hcompiles hd hr horderly.numeric).1
    rw [hall, List.filter_cons_of_pos (by simp [hd]), List.filter_nil, hleaf, hcomparing,
      result_passesAll_comparing hrange horderly.numeric horderly.bounded]

theorem result_passes_unfolds (hf : IsWellFormed maxLength true f) (hfg : f.Unfolds g)
    (hp : compileNode maxLength n true f = .ok p) (hq : compileNode maxLength n true g = .ok q)
    (row : Row α) : (passes store historyLength p.derived row).result =
      (passes store historyLength q.derived row).result := by
  unfold passes
  split
  · exact result_passesAll_unfolds hf hfg hp hq
  · rfl

end Resolution

open Compilation Validation Resolution

/-- A range is the two comparisons with its bounds. Take a tree that passes all checks, except
perhaps that for conflicts, and unfold any range with precise bounds in it. The outcome passes
these checks too, and each scope has the same fields in conflict, so that one of the trees is valid
if the other is. Both compile, wherever their placeholders start; their predicates, and the texts of
these, are true, false or unknown of the same candidates with their own parameters bound; and every
store leads to the same verdict on the same row. -/
theorem range_as_comparisons [IsExact α] [LinearOrder α] [IsLinear α] {maxLength : Nat}
    {f g : Filter α} (hf : IsWellFormed maxLength true f) (hfg : f.Unfolds g) :
    (validate maxLength f = .ok () ↔ validate maxLength g = .ok ()) ∧
    List.Forall₂ (fun S T => ∀ name, (conflictsWithin S).countP (isConflictOn name) =
      (conflictsWithin T).countP (isConflictOn name)) f.scopes g.scopes ∧
    ∀ n, ∃ p q, compileNode maxLength n true f = .ok p ∧ compileNode maxLength n true g = .ok q ∧
      (∀ (h : History α) (k : Candidate α) bound bound', Binds bound n p.params →
        Binds bound' n q.params → p.truth h bound k = q.truth h bound' k ∧
          ∀ names : TableNames, names.IsPlain → p.textTruth? names maxLength h bound k =
            q.textTruth? names maxLength h bound' k) ∧
      ∀ (store : Store α) historyLength row, (passes store historyLength p.derived row).result =
        (passes store historyLength q.derived row).result := by
  refine ⟨validate_unfolds hf hfg, conflictsWithin_unfolds hf hfg, fun n => ?_⟩
  have hg := hf.unfolds hfg
  obtain ⟨p, hp⟩ := hf.compiles n
  obtain ⟨q, hq⟩ := hg.compiles n
  refine ⟨p, q, hp, hq, fun h k bound bound' hb hb' => ?_,
    fun store historyLength row => result_passes_unfolds hf hfg hp hq row⟩
  have htruth : p.truth h bound k = q.truth h bound' k := by
    have hsame := truth?_unfolds (h := h) (k := k) hf hfg
    rw [(hf.means hp).truth h k bound hb, (hg.means hq).truth h k bound' hb'] at hsame
    exact Option.some.inj hsame
  refine ⟨htruth, fun names hnames => ?_⟩
  rw [textTruth?_eq hnames hp, textTruth?_eq hnames hq, htruth]

def returnsBetween : Condition ℚ :=
  ⟨"roe", none, none, some ⟨some (.int 5), some (.int 15), none, none⟩, none, none, "ignore"⟩

def returnsCompared : Filter ℚ :=
  .group .and
    [.leaf ⟨"roe", ">=", some (.int 5), none, none, none, "ignore"⟩,
     .leaf ⟨"roe", "<=", some (.int 15), none, none, none, "ignore"⟩]

def debtsBetween : Condition ℚ :=
  ⟨"debt_to_fcf", none, none, some ⟨some (.int 1), some (.int 3), none, some true⟩, none, none,
    none⟩

def debtsCompared : Filter ℚ :=
  .group .and
    [.leaf ⟨"debt_to_fcf", ">", some (.int 1), none, none, none, none⟩,
     .leaf ⟨"debt_to_fcf", "<", some (.int 3), none, none, none, none⟩]

def boundedReturns (returns debts : Filter ℚ) : Filter ℚ := .group .and [returns, debts]

def owing : Store ℚ
  | .facts .. => .ok [[("total_debt", .int 6), ("free_cash_flow", .int 3)]]
  | _ => .error .poisoned

theorem range_as_comparisons_boundedReturns :
    let unseen : Candidate ℚ := ⟨[(tickerColumn, .text "A")], [("roe", .null)], []⟩
    (validate 8 (boundedReturns returnsCompared (.leaf debtsBetween)) = .ok () ∧
      validate 8 (boundedReturns (.leaf returnsBetween) debtsCompared) = .ok ()) ∧
    ∃ f g d,
      compileNode 8 1 true (boundedReturns (.leaf returnsBetween) (.leaf debtsBetween)) = .ok f ∧
      compileNode 8 1 true (boundedReturns returnsCompared (.leaf debtsBetween)) = .ok g ∧
      compileNode 8 1 true (boundedReturns (.leaf returnsBetween) debtsCompared) = .ok d ∧
      f.truth (fun _ => []) (Database.bound f.params) unseen = .yes ∧
      g.truth (fun _ => []) (Database.bound g.params) unseen = .yes ∧
      (passes owing 4 f.derived unseen.company).result = .ok true ∧
      (passes owing 4 d.derived unseen.company).result = .ok true := by
  intro unseen
  have hvalid :
      validate 8 (boundedReturns (.leaf returnsBetween) (.leaf debtsBetween)) = .ok () := rfl
  have hprecise (n : Int) : (Literal.int n : Literal ℚ).IsPrecise :=
    (Condition.isPrecise ⟨"roe", none, some (.int n), none, none, none, none⟩).value _ rfl
  have hreturns : (boundedReturns (.leaf returnsBetween) (.leaf debtsBetween)).Unfolds
      (boundedReturns returnsCompared (.leaf debtsBetween)) :=
    .child .and [] [_] (.range (c := returnsBetween) rfl (by simp [Range.comparisons, hprecise]))
  have hdebts : (boundedReturns (.leaf returnsBetween) (.leaf debtsBetween)).Unfolds
      (boundedReturns (.leaf returnsBetween) debtsCompared) :=
    .child .and [_] [] (.range (c := debtsBetween) rfl (by simp [Range.comparisons, hprecise]))
  obtain ⟨hvalidReturns, -, hsameReturns⟩ :=
    range_as_comparisons (.of_validate hvalid) hreturns
  obtain ⟨hvalidDebts, -, hsameDebts⟩ := range_as_comparisons (.of_validate hvalid) hdebts
  obtain ⟨f, g, hf, hg, htruth, -⟩ := hsameReturns 1
  obtain ⟨f', d, hf', hd, -, hverdict⟩ := hsameDebts 1
  obtain rfl : f = f' := Except.ok.inj (hf.symm.trans hf')
  have hyes : f.truth (fun _ => []) (Database.bound f.params) unseen = .yes := by
    cases hf
    decide +kernel
  have htrue : (passes owing 4 f.derived unseen.company).result = .ok true := by
    cases hf
    decide +kernel
  refine ⟨⟨hvalidReturns.mp hvalid, hvalidDebts.mp hvalid⟩, f, g, d, hf, hg, hd, hyes, ?_, htrue,
    (hverdict owing 4 unseen.company).symm.trans htrue⟩
  exact (htruth _ unseen _ _ (Database.binds_bound _) (Database.binds_bound _)).1.symm.trans hyes

end EquityScreen
