namespace EquityScreen

/-- A calculation that makes its divisions one after another, whatever division is. -/
inductive Calculation (α β : Type) where
  | result (b : β)
  | divide (x y : α) (next : α → Calculation α β)

namespace Calculation

variable {α β γ : Type}

def bind : Calculation α β → (β → Calculation α γ) → Calculation α γ
  | result b, f => f b
  | divide x y next, f => divide x y fun q => (next q).bind f

instance : Monad (Calculation α) where
  pure := result
  bind := bind

def quotient (x y : α) : Calculation α α := divide x y result

def run (d : α → α → α) : Calculation α β → β
  | result b => b
  | divide x y next => (next (d x y)).run d

variable {d : α → α → α}

@[simp]
theorem run_pure (b : β) : (pure b : Calculation α β).run d = b := rfl

@[simp]
theorem run_quotient (x y : α) : (quotient x y).run d = d x y := rfl

@[simp]
theorem run_bind (x : Calculation α β) (f : β → Calculation α γ) :
    (x >>= f).run d = (f (x.run d)).run d := by
  induction x with
  | result b => rfl
  | divide x y next ih => exact ih (d x y)

theorem run_ite {p : Prop} [Decidable p] (x y : Calculation α β) :
    (if p then x else y).run d = if p then x.run d else y.run d := apply_ite (run d) p x y

end Calculation

end EquityScreen
