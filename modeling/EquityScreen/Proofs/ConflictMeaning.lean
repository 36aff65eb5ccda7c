import EquityScreen.Proofs.ExactNumbers
import EquityScreen.Proofs.CellOrder
import EquityScreen.Proofs.CrossedBounds
import EquityScreen.Proofs.SelectedCompanies

namespace EquityScreen

open Quantity

variable {α : Type} [Quantity α]

namespace Quantity.Scale

variable (σ : Scale α) {x y : α}

theorem lt_of_less (hx : same x x = true) (hy : same y y = true) (h : less x y = true) :
    σ.value x < σ.value y := by
  have horder : order x y = .lt := if_pos h
  rwa [σ.order_eq x y hx hy, compare_lt_iff_lt] at horder

theorem eq_of_same [IsOrdered α] (hx : same x x = true) (hy : same y y = true)
    (h : same x y = true) : σ.value x = σ.value y := by
  have hless : less x y ≠ true := by
    intro hless
    have hself := IsOrdered.less_of_less_of_same x y x hless (IsOrdered.same_symm x y h)
    exact lt_irrefl _ (σ.lt_of_less hx hx hself)
  have horder : order x y = .eq := by simp [order, hless, h]
  rwa [σ.order_eq x y hx hy, compare_eq_iff_eq] at horder

end Quantity.Scale

theorem Operator.holds_eq {o : Ordering} :
    holds .eq o = true ↔ holds .ge o = true ∧ holds .le o = true := by
  cases o <;> decide

namespace Bound

def IsUnder (low : Bound α) (v : Cell α) : Prop :=
  (if low.inclusive then Operator.ge else .gt).holds (Cell.order v (.real low.value)) = true

def IsOver (high : Bound α) (v : Cell α) : Prop :=
  (if high.inclusive then Operator.le else .lt).holds (Cell.order v (.real high.value)) = true

theorem isUnder_iff (σ : Scale α) {low : Bound α} {v : Cell α}
    (hlow : (Cell.real low.value).IsDefinite) (hv : v.IsDefinite) :
    low.IsUnder v ↔ Cell.rank σ (.real low.value) ≤ Cell.rank σ v ∧
      (low.inclusive = false → Cell.rank σ (.real low.value) < Cell.rank σ v) := by
  rw [IsUnder, hv.order_eq σ hlow]
  cases low.inclusive with
  | true => simp [Operator.holds, compare_lt_iff_lt]
  | false => simpa [Operator.holds, compare_gt_iff_gt] using le_of_lt

theorem isOver_iff (σ : Scale α) {high : Bound α} {v : Cell α}
    (hhigh : (Cell.real high.value).IsDefinite) (hv : v.IsDefinite) :
    high.IsOver v ↔ Cell.rank σ v ≤ Cell.rank σ (.real high.value) ∧
      (high.inclusive = false → Cell.rank σ v < Cell.rank σ (.real high.value)) := by
  rw [IsOver, hv.order_eq σ hhigh]
  cases high.inclusive with
  | true => simp [Operator.holds, compare_gt_iff_gt]
  | false => simpa [Operator.holds, compare_lt_iff_lt] using le_of_lt

end Bound

namespace Bounds

structure Contains (b : Bounds α) (v : Cell α) : Prop where
  lower : ∀ low ∈ b.lower, low.IsUnder v
  upper : ∀ high ∈ b.upper, high.IsOver v

variable {v : Cell α} {x : α}

theorem contains_unbounded (v : Cell α) : (unbounded : Bounds α).Contains v := ⟨nofun, nofun⟩

theorem contains_compare {op : Operator} (h : op.holds (Cell.order v (.real x)) = true) :
    (unbounded.compare op x).Contains v := by
  cases op with
  | lt | le => exact ⟨nofun, by rintro _ ⟨⟩; exact h⟩
  | gt | ge => exact ⟨by rintro _ ⟨⟩; exact h, nofun⟩
  | ne => exact contains_unbounded v
  | eq =>
    obtain ⟨hge, hle⟩ := Operator.holds_eq.mp h
    exact ⟨by rintro _ ⟨⟩; exact hge, by rintro _ ⟨⟩; exact hle⟩

theorem contains_within {r : Range α}
    (hlow : ∀ low ∈ r.lower?, (⟨low, r.isInclusive⟩ : Bound α).IsUnder v)
    (hhigh : ∀ high ∈ r.upper?, (⟨high, r.isInclusive⟩ : Bound α).IsOver v) :
    (unbounded.within r).Contains v := by
  unfold within
  split
  · exact contains_unbounded v
  · cases hl : r.lower? <;> cases hu : r.upper?
    · exact contains_unbounded v
    · exact ⟨nofun, by rintro _ ⟨⟩; exact hhigh _ hu⟩
    · exact ⟨by rintro _ ⟨⟩; exact hlow _ hl, nofun⟩
    · exact ⟨by rintro _ ⟨⟩; exact hlow _ hl, by rintro _ ⟨⟩; exact hhigh _ hu⟩

theorem value_of_mem_compare (op : Operator) (x : α) :
    (∀ low ∈ (unbounded.compare op x).lower, low.value = x) ∧
      ∀ high ∈ (unbounded.compare op x).upper, high.value = x := by
  cases op with
  | lt | le => exact ⟨nofun, by rintro _ ⟨⟩; rfl⟩
  | gt | ge => exact ⟨by rintro _ ⟨⟩; rfl, nofun⟩
  | ne => exact ⟨nofun, nofun⟩
  | eq => exact ⟨by rintro _ ⟨⟩; rfl, by rintro _ ⟨⟩; rfl⟩

theorem value_of_mem_within (r : Range α) :
    (∀ low ∈ (unbounded.within r).lower, low.value ∈ r.lower?) ∧
      ∀ high ∈ (unbounded.within r).upper, high.value ∈ r.upper? := by
  unfold within
  split
  · exact ⟨nofun, nofun⟩
  · cases hl : r.lower? <;> cases hu : r.upper?
    · exact ⟨nofun, nofun⟩
    · exact ⟨nofun, by rintro _ ⟨⟩; rfl⟩
    · exact ⟨by rintro _ ⟨⟩; rfl, nofun⟩
    · exact ⟨by rintro _ ⟨⟩; rfl, by rintro _ ⟨⟩; rfl⟩

/-- No value lies between bounds that cross. -/
theorem Cross.not_between [IsExact α] [IsOrdered α] {low high : Bound α} (hcross : Cross low high)
    (hlow : (Cell.real low.value).IsDefinite) (hhigh : (Cell.real high.value).IsDefinite)
    (hv : v.IsDefinite) (hunder : low.IsUnder v) : ¬ high.IsOver v := by
  intro hover
  obtain ⟨σ⟩ := IsExact.nonempty_scale (α := α)
  have habove := (Bound.isUnder_iff σ hlow hv).mp hunder
  have hbelow := (Bound.isOver_iff σ hhigh hv).mp hover
  have hle : Cell.rank σ (.real low.value) ≤ Cell.rank σ (.real high.value) :=
    habove.1.trans hbelow.1
  obtain hless | ⟨hsame, hstrict⟩ := hcross
  · exact hle.not_gt (Cell.Rank.number_strictMono (σ.lt_of_less hhigh.same hlow.same hless))
  · have heq : Cell.rank σ (.real low.value) = Cell.rank σ (.real high.value) :=
      congrArg Cell.Rank.number (σ.eq_of_same hlow.same hhigh.same hsame)
    obtain hstrict | hstrict := Bool.and_eq_false_iff.mp hstrict
    · exact ((habove.2 hstrict).trans_le hbelow.1).ne heq
    · exact (habove.1.trans_lt (hbelow.2 hstrict)).ne heq

end Bounds

namespace Predicate

theorem compareCells_eq_yes {op : Operator} {a b : Cell α} : compareCells op a b = .yes ↔
    (a.isNull || b.isNull) = false ∧ op.holds (Cell.order a b) = true := by
  unfold compareCells Cell.compare?
  cases a.isNull || b.isNull with
  | true => simp
  | false => cases hholds : op.holds (Cell.order a b) <;> simp [hholds, Truth.ofBool]

end Predicate

/-- The number of a literal, if it has one, is what the store compares with. An integer is compared
as it is, but bounds have the number next to it. -/
def Literal.IsPrecise (l : Literal α) : Prop :=
  ∀ x ∈ l.number?, (Cell.real x).IsDefinite ∧ (Parameter.literal l).cell.equals (.real x) = true

theorem Literal.isPrecise_real {x : α} (hx : (Cell.real x).IsDefinite) : IsPrecise (.real x) := by
  rintro _ ⟨⟩
  exact ⟨hx, hx⟩

structure Condition.IsPrecise (c : Condition α) : Prop where
  value : ∀ l ∈ c.value, l.IsPrecise
  lower : ∀ r ∈ c.range, ∀ low ∈ r.lower?, (Cell.real low).IsDefinite
  upper : ∀ r ∈ c.range, ∀ high ∈ r.upper?, (Cell.real high).IsDefinite

theorem Field.holds_of_compares [IsExact α] {f : Field} (hf : f.kind = .numeric) {op : Operator}
    {l : Literal α} {x : α} (hx : l.number? = some x) (hl : l.IsPrecise) {v : Cell α}
    (hv : v.IsDefinite) (h : f.compares op l v = .yes) :
    op.holds (Cell.order v (.real x)) = true := by
  obtain ⟨σ⟩ := IsExact.nonempty_scale (α := α)
  obtain ⟨hdefinite, hequals⟩ := hl x hx
  have hadapt :
      (Operand.column f).adapt (Parameter.literal l).cell = (Parameter.literal l).cell := by
    cases l with
    | int | real => simp [Operand.adapt, hf, Parameter.cell, Affinity.adapt, Affinity.unflag]
    | text | bool | null => cases hx
  have hcell : (Parameter.literal l).cell.IsDefinite := by
    cases l with
    | int => simp [Cell.IsDefinite, Parameter.cell, Cell.equals, Cell.compare?, Cell.isNull,
        Cell.order]
    | real =>
      cases hx
      exact hdefinite
    | text | bool | null => cases hx
  rw [compares, hadapt] at h
  have hholds := (Predicate.compareCells_eq_yes.mp h).2
  rwa [hv.order_eq σ hcell, hcell.rank_eq σ hdefinite hequals, ← hv.order_eq σ hdefinite] at hholds

theorem Field.tested_eq_yes {f : Field} {policy : MissingPolicy} {h : History α} {k : Candidate α}
    (hv : k.get f.source f.column = .null) {test : Cell α → Truth} :
    f.tested policy h k test = .yes ↔ policy = .ignore ∨ policy = .fallback ∧
      f.isPeriodic = true ∧ ∃ v ∈ f.newestAnnual? h k, test v = .yes := by
  unfold tested
  cases policy with
  | exclude | fail | ignore => simp [hv]
  | fallback => cases f.isPeriodic <;> cases f.newestAnnual? h k <;> simp [hv]

def Filter.direct (S : Filter α) (name : String) : List (Condition α) :=
  S.members.filter fun c => c.fieldName = name && c.window.isNone

/-- The conditions of a scope on a field that look for an annual value where its own is missing. -/
def Filter.fallingBack (S : Filter α) (name : String) : List (Condition α) :=
  (S.direct name).filter fun c => c.policy? = some .fallback

omit [Quantity α] in
theorem Filter.mem_direct {S : Filter α} {name : String} {c : Condition α} :
    c ∈ S.direct name ↔ c ∈ S.members ∧ c.fieldName = name ∧ c.window = none := by
  simp [direct]

namespace Condition

/-- A candidate meets a condition if the predicate to which the condition compiles is true of it. -/
def IsMet (maxLength : Nat) (h : History α) (k : Candidate α) (c : Condition α) : Prop :=
  ∃ n d p bound, Compilation.compileCondition maxLength n c = .ok d ∧ d.predicate = some p ∧
    Binds bound n d.params ∧ p.truth h bound k = .yes

/-- What a condition without a window asks of a value of its field. -/
def asks? (c : Condition α) (f : Field) : Option (Cell α → Truth) :=
  match c.range with
  | some r => r.span?.map f.within
  | none => c.comparison?.map fun (op, l) => f.compares op l

variable {c : Condition α} {f : Field}

theorem comparison?_eq_some {word : String} {op : Operator} {l : Literal α} {x : α}
    (hw : c.operator = some word) (hop : Operator.read word = .ok op) (hl : c.value = some l)
    (hx : l.number? = some x) : c.comparison? = some (op, l) := by
  cases l with
  | int | real => simp [comparison?, hw, hop, hl]
  | text | bool | null => cases hx

theorem bounds_of_window (hw : c.window ≠ none) : c.bounds = .unbounded :=
  Bounds.restrict_of_window hw _

theorem window_of_lower {low : Bound α} (hlow : low ∈ c.bounds.lower) : c.window = none := by
  by_contra hw
  rw [bounds_of_window hw] at hlow
  cases hlow

theorem window_of_upper {high : Bound α} (hhigh : high ∈ c.bounds.upper) : c.window = none := by
  by_contra hw
  rw [bounds_of_window hw] at hhigh
  cases hhigh

theorem IsPrecise.definite (hc : c.IsPrecise) :
    (∀ low ∈ c.bounds.lower, (Cell.real low.value).IsDefinite) ∧
      ∀ high ∈ c.bounds.upper, (Cell.real high.value).IsDefinite := by
  unfold bounds Bounds.restrict
  split
  · exact ⟨nofun, nofun⟩
  · split
    · next word l _ hl =>
      split
      · next op x _ hx =>
        have hdefinite := (hc.value l hl x hx).1
        obtain ⟨hlower, hupper⟩ := Bounds.value_of_mem_compare op x
        exact ⟨fun low h => hlower low h ▸ hdefinite, fun high h => hupper high h ▸ hdefinite⟩
      · exact ⟨nofun, nofun⟩
    · next r hr _ =>
      obtain ⟨hlower, hupper⟩ := Bounds.value_of_mem_within r
      exact ⟨fun low h => hc.lower r hr _ (hlower low h),
        fun high h => hc.upper r hr _ (hupper high h)⟩
    · exact ⟨nofun, nofun⟩

end Condition

/-- A condition that compares with numbers for equality alone, and only with integers. -/
def Condition.Equates (c : Condition α) : Prop :=
  ∀ op l, c.comparison? = some (op, l) → l.isNumeric = true →
    (op = .eq ∨ op = .ne) ∧ ∃ n, l = .int n

/-- Numbers that are calculated with exactly are those that the store compares with. -/
theorem Condition.isPrecise {α : Type} [ExactQuantity α] (c : Condition α) : c.IsPrecise := by
  have hdefinite (x : α) : (Cell.real x).IsDefinite := Cell.isDefinite_iff.mpr rfl
  refine ⟨fun l _ => ?_, fun _ _ x _ => hdefinite x, fun _ _ x _ => hdefinite x⟩
  cases l with
  | int n =>
    rintro _ ⟨⟩
    refine ⟨hdefinite _, ?_⟩
    simp [Parameter.cell, Cell.equals, Cell.compare?, Cell.isNull, Cell.order,
      ExactQuantity.compareInt_eq, ExactQuantity.ofInt_eq]
  | real x => exact Literal.isPrecise_real (hdefinite x)
  | text | bool | null => rintro _ ⟨⟩

theorem toString_int_injective {a b : Int} (h : toString a = toString b) : a = b := by
  have hdigits {m n : Nat} (h : m.repr = n.repr) : m = n := by
    have hlist : Nat.toDigits 10 m = Nat.toDigits 10 n := by simpa using congrArg String.toList h
    simpa [Placeholder.digitsValue_toDigits] using congrArg Text.digitsValue hlist
  have hsign {m n : Nat} : m.repr ≠ "-" ++ n.repr := by
    intro h
    have hlist : Nat.toDigits 10 m = '-' :: Nat.toDigits 10 n := by
      simpa using congrArg String.toList h
    have hmem : '-' ∈ Nat.toDigits 10 m := by simp [hlist]
    exact absurd (Placeholder.isDigit_of_mem_toDigits hmem) (by decide)
  rw [Int.toString_eq_repr, Int.toString_eq_repr, Int.repr_eq_if, Int.repr_eq_if] at h
  split at h <;> split at h
  · have hab := hdigits h
    omega
  · exact absurd h hsign
  · exact absurd h.symm hsign
  · have hab := hdigits (by simpa using h)
    omega

theorem Field.eq_text_of_compares {f : Field} (hf : f.kind = .text) {n : Int} {v : Cell α}
    (h : f.compares .eq (.int n) v = .yes) : v = .text (toString n) := by
  have hadapt : (Operand.column f).adapt (Parameter.literal (.int n : Literal α)).cell =
      .text (toString n) := by
    simp [Operand.adapt, hf, Parameter.cell, Affinity.adapt, Affinity.unflag, Affinity.toText]
  rw [compares, hadapt] at h
  obtain ⟨hnull, hholds⟩ := Predicate.compareCells_eq_yes.mp h
  refine Cell.equals_text.mp ?_
  rw [Cell.equals, Cell.compare?, hnull]
  simpa [Operator.holds] using hholds

namespace Validation

open Compilation

variable {maxLength : Nat} {c : Condition α} {f : Field}

theorem Accepted.contains [IsExact α] (hc : Accepted maxLength c) (hf : f.kind = .numeric)
    (hp : c.IsPrecise) {test : Cell α → Truth} (htest : c.asks? f = some test) {v : Cell α}
    (hv : v.IsDefinite) (hyes : test v = .yes) : c.bounds.Contains v := by
  have hshape := Condition.operator_or_range hc.shape
  unfold Condition.bounds Bounds.restrict
  split
  · exact Bounds.contains_unbounded v
  · split
    · next word l ho hl =>
      split
      · next op x hop hx =>
        have hrange : c.range = none := by simpa [ho] using hshape
        rw [Condition.asks?, hrange, Condition.comparison?_eq_some ho hop hl hx] at htest
        cases htest
        exact Bounds.contains_compare (Field.holds_of_compares hf hx (hp.value l hl) hv hyes)
      · exact Bounds.contains_unbounded v
    · next r hr _ =>
      rw [Condition.asks?, hr] at htest
      obtain ⟨s, hs, rfl⟩ := Option.map_eq_some_iff.mp htest
      obtain ⟨rfl, -⟩ := span?_eq_some hs
      obtain ⟨habove, hbelow⟩ := Truth.and_eq_yes.mp hyes
      refine Bounds.contains_within (fun low hlow => ?_) fun high hhigh => ?_
      · have hdefinite := hp.lower r hr low hlow
        rw [show r.lower? = some low from hlow] at habove
        exact Field.holds_of_compares hf rfl (Literal.isPrecise_real hdefinite) hv habove
      · have hdefinite := hp.upper r hr high hhigh
        rw [show r.upper? = some high from hhigh] at hbelow
        exact Field.holds_of_compares hf rfl (Literal.isPrecise_real hdefinite) hv hbelow
    · exact Bounds.contains_unbounded v

theorem Accepted.range_of_text (hc : Accepted maxLength c)
    (hf : field? c.fieldName = some f) (htext : f.kind = .text) : c.range = none := by
  obtain ⟨f', hf', hfield⟩ | ⟨hnone, -⟩ := field_of_checkSupport hc.support
  · obtain rfl : f' = f := Option.some.inj (hf'.symm.trans hf)
    simp only [checkField, htext, List.append_eq_nil_iff, when_eq_nil] at hfield
    simpa using hfield.2
  · rw [hnone] at hf
    cases hf

/-- A condition on a text that compares with an integer for equality has that integer as both of its
bounds, and one that does not has no bounds. -/
theorem Accepted.bounds_of_equates (hc : Accepted maxLength c)
    (hf : field? c.fieldName = some f) (htext : f.kind = .text) (he : c.Equates) :
    c.bounds = .unbounded ∨ ∃ n, c.comparison? = some (.eq, .int n) ∧
      c.bounds = ⟨some ⟨ofInt n, true⟩, some ⟨ofInt n, true⟩⟩ := by
  have hrange := hc.range_of_text hf htext
  unfold Condition.bounds Bounds.restrict
  split
  · exact .inl rfl
  · split
    · next word l ho hl =>
      split
      · next op x hop hx =>
        have hread := Condition.comparison?_eq_some ho hop hl hx
        have hnumeric : l.isNumeric = true := by
          cases l with
          | int | real => rfl
          | text | bool | null => cases hx
        obtain ⟨rfl | rfl, n, rfl⟩ := he op l hread hnumeric
        · obtain rfl := Option.some.inj hx
          exact .inr ⟨n, hread, rfl⟩
        · exact .inl rfl
      · exact .inl rfl
    · next r hr _ =>
      rw [hrange] at hr
      cases hr
    · exact .inl rfl

theorem isDerived_of_field? {name : String} (hf : field? name = some f) :
    isDerived name = false := by
  have hname : f.name = name := by simpa using List.find?_some hf
  have hcatalog : ∀ f ∈ catalog, isDerived f.name = false := by decide
  exact hname ▸ hcatalog f (field?_mem hf)

/-- The truth of a condition without a window is what it asks of the value, and a policy. -/
theorem Accepted.exists_asks (hc : Accepted maxLength c) (hf : field? c.fieldName = some f)
    (hw : c.window = none) : ∃ policy test, c.policy? = some policy ∧ c.asks? f = some test ∧
      ∀ h k, c.truth? h k = some (f.tested policy h k test) := by
  obtain ⟨d, hd⟩ := hc.compiles_base (isDerived_of_field? hf) 1
  cases hd with
  | @comparison f' policy op l on hr ht _ hread =>
    obtain rfl := Option.some.inj (hf.symm.trans on.field)
    refine ⟨policy, f.compares op l, on.policy, by simp [Condition.asks?, hr, hread], fun h k => ?_⟩
    simp [Condition.truth?, on.notDerived, hf, on.policy, hr, ht, hw, hread]
  | @range f' policy r s on hr _ hread =>
    obtain rfl := Option.some.inj (hf.symm.trans on.field)
    refine ⟨policy, f.within s, on.policy, by simp [Condition.asks?, hr, hread], fun h k => ?_⟩
    simp [Condition.truth?, on.notDerived, hf, on.policy, hr, hread]
  | trend on _ _ hwindow | window on _ _ hwindow => simp [hw] at hwindow
  | derivedRange metric | derivedComparison metric =>
    exact absurd metric.derived (by simp [isDerived_of_field? hf])

variable {h : History α} {k : Candidate α}

theorem Accepted.isMet_iff (hc : Accepted maxLength c) (hf : field? c.fieldName = some f) :
    c.IsMet maxLength h k ↔ c.truth? h k = some .yes := by
  constructor
  · rintro ⟨n, d, p, bound, hd, hp, hb, hyes⟩
    rw [((compileCondition_eq_ok_iff ..).mp hd).truth?_eq hc.support hp hb, hyes]
  · intro hyes
    have hbase := isDerived_of_field? hf
    obtain ⟨d, hd⟩ := hc.compiles_base hbase 1
    obtain ⟨p, hp⟩ : ∃ p, d.predicate = some p := by
      rw [hd.isDerived_eq] at hbase
      exact Option.isSome_iff_exists.mp (by simpa using hbase)
    have hb := Database.binds_bound d.params
    refine ⟨1, d, p, _, (compileCondition_eq_ok_iff ..).mpr hd, hp, hb, ?_⟩
    rw [hd.truth?_eq hc.support hp hb] at hyes
    exact Option.some.inj hyes

theorem Accepted.isMet_of_present (hc : Accepted maxLength c) (hf : field? c.fieldName = some f)
    (hw : c.window = none) (hv : k.get f.source f.column ≠ .null) :
    c.IsMet maxLength h k ↔ ∃ test ∈ c.asks? f, test (k.get f.source f.column) = .yes := by
  obtain ⟨policy, test, -, htest, htruth⟩ := hc.exists_asks hf hw
  rw [hc.isMet_iff hf, htruth, tested_of_ne_null hv]
  simp [htest]

/-- Without a value of its own, a field meets conditions that ignore that, and conditions that fall
back to an annual value of which they are true. -/
theorem Accepted.isMet_of_missing (hc : Accepted maxLength c) (hf : field? c.fieldName = some f)
    (hw : c.window = none) (hv : k.get f.source f.column = .null) :
    c.IsMet maxLength h k ↔ c.policy? = some .ignore ∨ c.policy? = some .fallback ∧
      f.isPeriodic = true ∧ ∃ v ∈ f.newestAnnual? h k, ∃ test ∈ c.asks? f, test v = .yes := by
  obtain ⟨policy, test, hread, htest, htruth⟩ := hc.exists_asks hf hw
  rw [hc.isMet_iff hf, htruth, Option.some.injEq, Field.tested_eq_yes hv]
  simp [hread, htest]

variable {S : Filter α} {name : String} {cs : List (Condition α)}

theorem Conflicting.direct (h : Conflicting S.members name) :
    Conflicting (S.direct name) name := by
  obtain ⟨c, hc, d, hd, hcname, hdname, low, hlow, high, hhigh, hcross⟩ := h
  have hcdirect := Filter.mem_direct.mpr ⟨hc, hcname, Condition.window_of_lower hlow⟩
  have hddirect := Filter.mem_direct.mpr ⟨hd, hdname, Condition.window_of_upper hhigh⟩
  exact ⟨c, hcdirect, d, hddirect, hcname, hdname, low, hlow, high, hhigh, hcross⟩

theorem conflicting_of_isConflictOn (hS : ∀ c ∈ S.members, Accepted maxLength c)
    {v : Violation α} (hv : v ∈ conflictsWithin S) (hon : isConflictOn name v = true) :
    Conflicting S.members name := by
  obtain ⟨field, upper, lower, rfl, hconflict⟩ := conflicting_of_report hv
  have ⟨c, hc, _, _, hfield, _⟩ := hconflict
  rw [isConflictOn_conflict (hfield ▸ fieldName_of_checkShape (hS c hc).shape)] at hon
  exact of_decide_eq_true hon ▸ hconflict

section

variable [IsExact α] [IsOrdered α]

/-- Of conditions that conflict one is not true of a value. -/
theorem Conflicting.exists_refused (h : Conflicting cs name)
    (hcs : ∀ c ∈ cs, Accepted maxLength c) (hp : ∀ c ∈ cs, c.IsPrecise) (hf : f.kind = .numeric)
    {v : Cell α} (hv : v.IsDefinite) : ∃ c ∈ cs, ∀ test ∈ c.asks? f, test v ≠ .yes := by
  by_contra hnone
  push Not at hnone
  have hcontains : ∀ c ∈ cs, c.bounds.Contains v := by
    intro c hc
    obtain ⟨test, htest, hyes⟩ := hnone c hc
    exact (hcs c hc).contains hf (hp c hc) htest hv hyes
  obtain ⟨c, hc, d, hd, -, -, low, hlow, high, hhigh, hcross⟩ := h
  exact hcross.not_between ((hp c hc).definite.1 low hlow) ((hp d hd).definite.2 high hhigh) hv
    ((hcontains c hc).lower low hlow) ((hcontains d hd).upper high hhigh)

variable (hS : ∀ c ∈ S.members, Accepted maxLength c) (hp : ∀ c ∈ S.direct name, c.IsPrecise)
  (hf : field? name = some f)
include hS hp hf

theorem Conflicting.unmet_of_present (hconflict : Conflicting S.members name)
    (hnumeric : f.kind = .numeric) (hv : (k.get f.source f.column).IsDefinite) :
    ¬ ∀ c ∈ S.direct name, c.IsMet maxLength h k := by
  intro hmet
  have haccepted : ∀ c ∈ S.direct name, Accepted maxLength c := fun c hc =>
    hS c (Filter.mem_direct.mp hc).1
  obtain ⟨c, hc, hrefused⟩ := hconflict.direct.exists_refused haccepted hp hnumeric hv
  obtain ⟨-, rfl, hw⟩ := Filter.mem_direct.mp hc
  have hpresent : k.get f.source f.column ≠ .null := fun hnull => by
    rw [hnull] at hv
    cases hv
  obtain ⟨test, htest, hyes⟩ := ((haccepted c hc).isMet_of_present hf hw hpresent).mp (hmet c hc)
  exact hrefused test htest hyes

omit [IsOrdered α] in
theorem Conflicting.unmet_of_text (hconflict : Conflicting S.members name)
    (htext : f.kind = .text) (hequates : ∀ c ∈ S.direct name, c.Equates)
    (hv : k.get f.source f.column ≠ .null) :
    ¬ ∀ c ∈ S.direct name, c.IsMet maxLength h k := by
  intro hmet
  have hequation : ∀ c ∈ S.direct name, c.bounds = .unbounded ∨
      ∃ n, k.get f.source f.column = .text (toString n) ∧
        c.bounds = ⟨some ⟨ofInt n, true⟩, some ⟨ofInt n, true⟩⟩ := by
    intro c hc
    obtain ⟨hmember, rfl, hw⟩ := Filter.mem_direct.mp hc
    have haccepted := hS c hmember
    refine (haccepted.bounds_of_equates hf htext (hequates c hc)).imp_right ?_
    rintro ⟨n, hread, hbounds⟩
    obtain ⟨test, htest, hyes⟩ := (haccepted.isMet_of_present hf hw hv).mp (hmet c hc)
    rw [Condition.asks?, haccepted.range_of_text hf htext, hread] at htest
    obtain rfl := Option.mem_some.mp htest
    exact ⟨n, Field.eq_text_of_compares htext hyes, hbounds⟩
  obtain ⟨c, hc, d, hd, -, -, low, hlow, high, hhigh, hcross⟩ := hconflict.direct
  have hdefinite := (hp c hc).definite.1 low hlow
  obtain hc | ⟨a, ha, hc⟩ := hequation c hc
  · rw [hc] at hlow
    cases hlow
  obtain hd | ⟨b, hb, hd⟩ := hequation d hd
  · rw [hd] at hhigh
    cases hhigh
  rw [hc] at hlow
  rw [hd] at hhigh
  cases hlow
  cases hhigh
  obtain rfl : a = b := toString_int_injective (by simpa [ha] using hb)
  obtain ⟨σ⟩ := IsExact.nonempty_scale (α := α)
  obtain hless | ⟨-, hstrict⟩ := hcross
  · exact lt_irrefl _ (σ.lt_of_less hdefinite.same hdefinite.same hless)
  · cases hstrict

/-- If a missing value meets all conditions on a field, then they ignore that it is missing or fall
back, and of those that fall back no two conflict. -/
theorem met_of_missing (hv : k.get f.source f.column = .null)
    (hannual : ∀ v ∈ f.newestAnnual? h k, v.IsDefinite)
    (hmet : ∀ c ∈ S.direct name, c.IsMet maxLength h k) :
    (∀ c ∈ S.direct name, c.policy? = some .ignore ∨ c.policy? = some .fallback) ∧
      ¬ Conflicting (S.fallingBack name) name := by
  have hmissing : ∀ c ∈ S.direct name, c.policy? = some .ignore ∨ c.policy? = some .fallback ∧
      f.isPeriodic = true ∧ ∃ v ∈ f.newestAnnual? h k, ∃ test ∈ c.asks? f, test v = .yes := by
    intro c hc
    obtain ⟨hmember, rfl, hw⟩ := Filter.mem_direct.mp hc
    exact ((hS c hmember).isMet_of_missing hf hw hv).mp (hmet c hc)
  refine ⟨fun c hc => (hmissing c hc).imp_right And.left, fun hconflict => ?_⟩
  have hback {c : Condition α} (hc : c ∈ S.fallingBack name) :
      c ∈ S.direct name ∧ c.policy? = some .fallback := by
    simpa [Filter.fallingBack] using hc
  have hvalue {c : Condition α} (hc : c ∈ S.fallingBack name) : f.isPeriodic = true ∧
      ∃ v ∈ f.newestAnnual? h k, ∃ test ∈ c.asks? f, test v = .yes := by
    obtain ⟨hdirect, hpolicy⟩ := hback hc
    obtain hignore | hfallback := hmissing c hdirect
    · simp [hpolicy] at hignore
    · exact hfallback.2
  -- all conditions that fall back are about one annual value
  have ⟨c, hc, _⟩ := hconflict
  obtain ⟨hperiodic, v, hnewest, -⟩ := hvalue hc
  obtain ⟨d, hd, hrefused⟩ := hconflict.exists_refused
    (fun e he => hS e (Filter.mem_direct.mp (hback he).1).1) (fun e he => hp e (hback he).1)
    (kind_of_isPeriodic f (field?_mem hf) hperiodic) (hannual v hnewest)
  obtain ⟨-, w, hw, test, htest, hyes⟩ := hvalue hd
  obtain rfl := Option.some.inj (hnewest.symm.trans hw)
  exact hrefused test htest hyes

end

/-- What a reported conflict says of stored values. No value of a numeric column meets all
conditions without windows that the scope of the conflict has on the field, where the store compares
with the numbers that bounds have. No value of a text column does if they compare with numbers for
equality alone, and only with integers; texts are not in the order of numbers. A missing value in
any column meets them only if none of them excludes it or fails on it, one ignores it, and those
that fall back to the newest annual value are free from conflicts. -/
theorem conflict_unmet [IsExact α] [IsOrdered α] {tree : Filter α}
    (htree : ∀ c ∈ tree.conditions, Accepted maxLength c) :
    (conflictsOf [] tree).2.Perm (tree.scopes.flatMap conflictsWithin) ∧
    ∀ S ∈ tree.scopes, ∀ v ∈ conflictsWithin S, ∀ name f, isConflictOn name v = true →
      field? name = some f → (∀ c ∈ S.direct name, c.IsPrecise) →
      ∀ (h : History α) (k : Candidate α),
        (f.kind = .numeric → (k.get f.source f.column).IsDefinite →
          ¬ ∀ c ∈ S.direct name, c.IsMet maxLength h k) ∧
        (f.kind = .text → k.get f.source f.column ≠ .null → (∀ c ∈ S.direct name, c.Equates) →
          ¬ ∀ c ∈ S.direct name, c.IsMet maxLength h k) ∧
        (k.get f.source f.column = .null → (∀ w ∈ f.newestAnnual? h k, w.IsDefinite) →
          (∀ c ∈ S.direct name, c.IsMet maxLength h k) →
          (∀ c ∈ S.direct name, c.policy? = some .ignore ∨ c.policy? = some .fallback) ∧
          (∃ c ∈ S.direct name, c.policy? = some .ignore) ∧
          ¬ Conflicting (S.fallingBack name) name) := by
  refine ⟨(conflictsOf_scopes [] tree).2, fun S hS v hv name f hon hf hp h k => ?_⟩
  have haccepted : ∀ c ∈ S.members, Accepted maxLength c := fun c hc =>
    htree c (Filter.mem_conditions_of_mem_scopes S hS c (Filter.mem_conditions_of_mem_members c hc))
  have hconflict : Conflicting S.members name := conflicting_of_isConflictOn haccepted hv hon
  refine ⟨hconflict.unmet_of_present haccepted hp hf, fun htext hv hequates =>
    hconflict.unmet_of_text haccepted hp hf htext hequates hv, fun hnull hannual hmet => ?_⟩
  obtain ⟨hpolicies, hfree⟩ := met_of_missing haccepted hp hf hnull hannual hmet
  refine ⟨hpolicies, ?_, hfree⟩
  by_contra hnone
  refine hfree (hconflict.direct.mono fun c hc => List.mem_filter.mpr ⟨hc, ?_⟩)
  exact decide_eq_true ((hpolicies c hc).resolve_left fun hignore => hnone ⟨c, hc, hignore⟩)

theorem accepted_of_leaf (h : validate maxLength (.leaf c) = .ok ()) : Accepted maxLength c :=
  (accepted_of_violations (validate_eq_ok.mp h)).1 c (List.mem_singleton_self c)

/-- A numeric field that is above and below, on conditions that ignore missing values. -/
def ignoringConflict : Filter ℚ :=
  .group .and
    [.leaf ⟨"roe", ">", some (.int 20), none, none, none, "ignore"⟩,
     .leaf ⟨"roe", "<", some (.int 10), none, none, none, "ignore"⟩]

/-- A text field between numbers in the order of texts. -/
def textualConflict : Filter ℚ :=
  .group .and
    [.leaf ⟨"sector", ">", some (.int 10), none, none, none, none⟩,
     .leaf ⟨"sector", "<", some (.int 5), none, none, none, none⟩]

/-- Reported conflicts of conditions that are valid one by one, and candidates that meet all of
them: by a missing value, and by a text. -/
theorem met_in_conflict :
    (structureOf ignoringConflict = [] ∧
      (∀ c ∈ ignoringConflict.conditions, validate 8 (.leaf c) = .ok ()) ∧
      (conflictsWithin ignoringConflict).any (isConflictOn "roe") = true ∧
      ∀ c ∈ ignoringConflict.direct "roe", c.IsMet 8 (fun _ => []) ⟨[], [], []⟩) ∧
    structureOf textualConflict = [] ∧
      (∀ c ∈ textualConflict.conditions, validate 8 (.leaf c) = .ok ()) ∧
      (conflictsWithin textualConflict).any (isConflictOn "sector") = true ∧
      ∀ c ∈ textualConflict.direct "sector",
        c.IsMet 8 (fun _ => []) ⟨[("sector", .text "3")], [], []⟩ := by
  have hmet {tree : Filter ℚ} {k : Candidate ℚ}
      (htree : ∀ c ∈ tree.conditions, validate 8 (.leaf c) = .ok ())
      (htrue : ∀ c ∈ tree.conditions, (field? c.fieldName).isSome = true ∧
        c.truth? (fun _ => []) k = some .yes) (name : String) :
      ∀ c ∈ tree.direct name, c.IsMet 8 (fun _ => []) k := by
    intro c hc
    have hc := Filter.mem_conditions_of_mem_members c (Filter.mem_direct.mp hc).1
    obtain ⟨hfield, hyes⟩ := htrue c hc
    obtain ⟨f, hf⟩ := Option.isSome_iff_exists.mp hfield
    exact ((accepted_of_leaf (htree c hc)).isMet_iff hf).mpr hyes
  have hignoring : ∀ c ∈ ignoringConflict.conditions, validate 8 (.leaf c) = .ok () :=
    List.forall_mem_cons.mpr ⟨rfl, List.forall_mem_singleton.mpr rfl⟩
  have htextual : ∀ c ∈ textualConflict.conditions, validate 8 (.leaf c) = .ok () :=
    List.forall_mem_cons.mpr ⟨rfl, List.forall_mem_singleton.mpr rfl⟩
  exact ⟨⟨rfl, hignoring, by decide +kernel, hmet hignoring (by decide +kernel) _⟩,
    rfl, htextual, by decide +kernel, hmet htextual (by decide +kernel) _⟩

theorem conflict_unmet_nestedConflict :
    (¬ ∀ c ∈ nestedConflict.direct "roe",
      c.IsMet 8 (fun _ => []) ⟨[], [("roe", .int 12)], []⟩) ∧
    ¬ ∀ c ∈ nestedConflict.direct "roe", c.IsMet 8 (fun _ => []) ⟨[], [], []⟩ := by
  have htree : ∀ c ∈ nestedConflict.conditions, Accepted 8 c := by
    have hvalid : ∀ c ∈ nestedConflict.conditions, validate 8 (.leaf c) = .ok () :=
      List.forall_mem_cons.mpr ⟨rfl, List.forall_mem_cons.mpr ⟨rfl,
        List.forall_mem_cons.mpr ⟨rfl, List.forall_mem_singleton.mpr rfl⟩⟩⟩
    exact fun c hc => accepted_of_leaf (hvalid c hc)
  obtain ⟨v, hv, hon⟩ : ∃ v ∈ conflictsWithin nestedConflict, isConflictOn "roe" v = true :=
    List.any_eq_true.mp (by decide +kernel)
  have hunmet := (conflict_unmet htree).2 nestedConflict List.mem_cons_self v hv "roe" _ hon rfl
    fun c _ => c.isPrecise
  refine ⟨(hunmet (fun _ => []) _).1 rfl (by decide +kernel), fun hmet => ?_⟩
  obtain ⟨-, ⟨c, hc, hignore⟩, -⟩ := (hunmet (fun _ => []) _).2.2 rfl (by decide +kernel) hmet
  have hnone : ∀ c ∈ nestedConflict.direct "roe", c.policy? ≠ some .ignore := by decide +kernel
  exact hnone c hc hignore

end Validation

end EquityScreen
