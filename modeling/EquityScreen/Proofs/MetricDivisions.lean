import EquityScreen.Proofs.ExactNumbers
import EquityScreen.Proofs.CompoundGrowth
import EquityScreen.Proofs.MetricInputs

namespace EquityScreen

namespace Calculation

variable {α β γ : Type} {d : α → α → α}

/-- What a calculation divides by, in order. -/
def divisors (d : α → α → α) : Calculation α β → List α
  | result _ => []
  | divide x y next => y :: (next (d x y)).divisors d

theorem divisors_bind (x : Calculation α β) (f : β → Calculation α γ) :
    (x >>= f).divisors d = x.divisors d ++ (f (x.run d)).divisors d := by
  induction x with
  | result b => rfl
  | divide x y next ih => exact congrArg (y :: ·) (ih (d x y))

variable [Quantity α]

def outcome (m : MetricName) (ticker : String) (rows : List (Row α)) :
    Calculation α (Except MetricError α) :=
  if rows.isEmpty then return .error ⟨m, .noFacts ticker⟩
  else do
    let i ← Resolution.inputs m rows
    let value ← Metric.calculation m i
    return value.mapError fun fault => ⟨m, fault⟩

end Calculation

/-- The same numbers with another division. -/
@[reducible]
def Quantity.dividingBy {α : Type} [Quantity α] (d : α → α → α) : Quantity α :=
  { (inferInstance : Quantity α) with div := d }

namespace Calculation

theorem run_outcome {α : Type} [Quantity α] (d : α → α → α) (m : MetricName) (ticker : String)
    (rows : List (Row α)) :
    (outcome m ticker rows).run d = @Resolution.outcome α (.dividingBy d) m ticker rows := by
  have hcompute (i : Inputs α) :
      ((Metric.calculation m i).run d).mapError (fun fault => ⟨m, fault⟩) =
        @Metric.compute α (.dividingBy d) m i := by
    -- a calculation is the same for both instances, which differ in their division alone
    cases m <;> rfl
  rw [outcome, run_ite, run_bind, run_bind]
  exact congrArg (ite _ _) (hcompute _)

variable {α β γ : Type} [ExactQuantity α]

/-- A calculation that divides by positive numbers alone. -/
def IsSafe (x : Calculation α β) : Prop := ∀ y ∈ x.divisors (· / ·), 0 < y

theorem isSafe_result (b : β) : (result b : Calculation α β).IsSafe := nofun

theorem isSafe_quotient (x : α) {y : α} (hy : 0 < y) : (quotient x y).IsSafe :=
  List.forall_mem_singleton.mpr hy

theorem IsSafe.bind {x : Calculation α β} {f : β → Calculation α γ} (h : x.IsSafe)
    (hf : (f (x.run (· / ·))).IsSafe) : (x >>= f).IsSafe := by
  unfold IsSafe
  rw [divisors_bind, List.forall_mem_append]
  exact ⟨h, hf⟩

theorem isSafe_ratio (x : α) {y : α} (hy : 0 < y) (f : α → β) :
    (quotient x y >>= fun q => result (f q)).IsSafe :=
  (isSafe_quotient x hy).bind (isSafe_result _)

theorem isSafe_ite {p : Prop} [Decidable p] {x y : Calculation α β} (hx : p → x.IsSafe)
    (hy : ¬ p → y.IsSafe) : (if p then x else y).IsSafe := by
  by_cases h : p
  · rw [if_pos h]
    exact hx h
  · rw [if_neg h]
    exact hy h

/-- A safe calculation cannot tell a division from another one that agrees with it on positive
divisors. -/
theorem IsSafe.run_eq {x : Calculation α β} (h : x.IsSafe) {d : α → α → α}
    (hd : ∀ a b, 0 < b → d a b = a / b) : x.run d = x.run (· / ·) := by
  induction x with
  | result b => rfl
  | divide a b next ih =>
    obtain ⟨hb, hnext⟩ := List.forall_mem_cons.mp h
    rw [run, run, hd a b hb]
    exact ih _ hnext

theorem positive_iff (x : α) : Metric.positive x = true ↔ 0 < x := by
  rw [Metric.positive, ExactQuantity.less_iff, ExactQuantity.zero_eq]

theorem isSafe_ifPositive (x y : α) (f : α → β) (b : β) :
    (if Metric.positive y then quotient x y >>= fun q => result (f q) else result b).IsSafe :=
  isSafe_ite (fun h => isSafe_ratio x ((positive_iff y).mp h) f) fun _ => isSafe_result b

theorem isSafe_debtToCashFlow (i : Inputs α) : (Metric.debtToCashFlow i).IsSafe := by
  unfold Metric.debtToCashFlow
  split
  · exact isSafe_result _
  · exact isSafe_ifPositive _ _ _ _
  · exact isSafe_result _

theorem isSafe_cashFlowMargin (i : Inputs α) : (Metric.cashFlowMargin i).IsSafe := by
  unfold Metric.cashFlowMargin
  split
  · exact isSafe_result _
  · exact isSafe_ifPositive _ _ _ _
  · exact isSafe_result _

theorem ofInt_pos {n : Int} (h : 0 < n) : 0 < (Quantity.ofInt n : α) := by
  rw [ExactQuantity.ofInt_eq]
  exact Int.cast_pos.mpr h

theorem isSafe_consistency (xs : List α) : (Metric.consistency xs).IsSafe := by
  apply isSafe_ite
  · exact fun _ => isSafe_result _
  · intro h
    apply isSafe_ratio
    apply ofInt_pos
    omega

variable [Quantity.SeesSigns α]

theorem atMost_zero_iff (x : α) : Quantity.atMost x Quantity.zero = true ↔ x ≤ 0 := by
  rw [Quantity.SeesSigns.atMost_zero, ExactQuantity.compareInt_eq, Option.getD_some, Int.cast_zero]
  exact compare_le_iff_le

theorem pos_of_not_atMost {x : α} (h : ¬ Quantity.atMost x Quantity.zero = true) : 0 < x :=
  not_le.mp (mt (atMost_zero_iff x).mpr h)

theorem isSafe_earningsGrowth (latest previous : α) :
    (Resolution.earningsGrowth latest previous).IsSafe :=
  isSafe_ite (fun _ => isSafe_result _) fun h => isSafe_ratio _ (pos_of_not_atMost h) _

theorem isSafe_inputs (m : MetricName) (rows : List (Row α)) :
    (Resolution.inputs m rows).IsSafe := by
  unfold Resolution.inputs
  dsimp only
  split
  · exact (isSafe_earningsGrowth _ _).bind (isSafe_result _)
  · exact isSafe_result _

theorem isSafe_peg (i : Inputs α) : (Metric.peg i).IsSafe := by
  unfold Metric.peg
  split
  · exact isSafe_result _
  · exact isSafe_result _
  · exact isSafe_ite (fun _ => isSafe_result _) fun h => isSafe_ratio _ (pos_of_not_atMost h) _

theorem isSafe_compoundGrowth (label : String) (xs : List α) :
    (Metric.compoundGrowth label xs).IsSafe := by
  unfold Metric.compoundGrowth
  split
  · next first second rest =>
    apply isSafe_ite
    · exact fun _ => isSafe_result _
    · intro h
      apply (isSafe_quotient _ (pos_of_not_atMost h)).bind
      apply isSafe_ratio
      apply ofInt_pos
      omega
  · exact isSafe_result _

theorem isSafe_metric (m : MetricName) (i : Inputs α) : (Metric.calculation m i).IsSafe := by
  cases m with
  | peg => exact isSafe_peg i
  | debtToCashFlow => exact isSafe_debtToCashFlow i
  | epsGrowth | revenueGrowth => exact isSafe_compoundGrowth _ _
  | cashFlowMargin => exact isSafe_cashFlowMargin i
  | earningsConsistency => exact isSafe_consistency _

/-- No metric divides by a number that is not positive, on the whole way from the rows. -/
theorem isSafe_outcome (m : MetricName) (ticker : String) (rows : List (Row α)) :
    (outcome m ticker rows).IsSafe := by
  apply isSafe_ite
  · exact fun _ => isSafe_result _
  · exact fun _ => (isSafe_inputs m rows).bind ((isSafe_metric m _).bind (isSafe_result _))

end Calculation

end EquityScreen
