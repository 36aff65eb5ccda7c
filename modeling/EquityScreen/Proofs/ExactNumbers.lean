import Mathlib.Algebra.Order.Field.Basic
import Mathlib.Algebra.Order.Field.Rat
import EquityScreen.Proofs.CellOrder

class LinearlyOrderedField (α : Type) extends Field α, LinearOrder α, IsStrictOrderedRing α

namespace EquityScreen

/-- Arithmetic and comparison are those of an ordered field. -/
class ExactQuantity (α : Type) extends Quantity α, LinearlyOrderedField α where
  ofInt_eq (n : Int) : ofInt n = (n : α)
  abs_eq (x : α) : abs x = |x|
  less_iff (x y : α) : less x y = true ↔ x < y
  same_iff (x y : α) : same x y = true ↔ x = y
  compareInt_eq (x : α) (n : Int) : compareInt x n = some (Ord.compare x (n : α))
  tenth_eq : tenth = (1 / 10 : α)

instance : LinearlyOrderedField ℚ where

instance : ExactQuantity ℚ where
  ofInt_eq _ := rfl
  abs_eq _ := rfl
  less_iff := Rational.less_iff
  same_iff := Rational.same_iff
  compareInt_eq _ _ := rfl
  tenth_eq := rfl

variable {α : Type} [ExactQuantity α]

namespace ExactQuantity

@[simp]
theorem zero_eq : (Quantity.zero : α) = 0 := (ofInt_eq 0).trans Int.cast_zero

@[simp]
theorem one_eq : (Quantity.one : α) = 1 := (ofInt_eq 1).trans Int.cast_one

theorem sum_eq (xs : List α) : Quantity.sum xs = xs.sum := by
  rw [List.sum_eq_foldl, Quantity.sum, zero_eq]

theorem order_eq (x y : α) : Quantity.order x y = compare x y := by
  rw [LinearOrder.compare_eq_compareOfLessAndEq, compareOfLessAndEq]
  simp only [Quantity.order, less_iff, same_iff]

instance : Quantity.IsExact α where
  nonempty_scale := ⟨⟨α, fun n => n, id, Int.cast_strictMono, fun x n _ => compareInt_eq x n,
    fun x y _ _ => order_eq x y⟩⟩

end ExactQuantity

namespace Cell

@[simp]
theorem order_real (x y : α) : order (.real x) (.real y) = compare x y :=
  ExactQuantity.order_eq x y

@[simp]
theorem order_real_int (x : α) (n : Int) : order (.real x) (.int n) = compare x (n : α) := by
  rw [order, ExactQuantity.compareInt_eq, Option.getD_some]

theorem compare?_real (x : α) {v : Cell α} {y : α} (hv : v.number? = some y) :
    compare? (.real x) v = some (compare x y) := by
  cases v with
  | null | flag | text => cases hv
  | int n =>
    cases hv
    simp [compare?, isNull, ExactQuantity.ofInt_eq]
  | real z =>
    cases hv
    simp [compare?, isNull]

theorem isDefinite_iff {v : Cell α} : v.IsDefinite ↔ v.isNull = false := by
  cases v with
  | null => exact ⟨nofun, nofun⟩
  | text s => exact iff_of_true (isDefinite_text s) rfl
  | real x => exact iff_of_true (by simp [IsDefinite, equals, compare?, isNull]) rfl
  | flag | int => exact iff_of_true (by simp [IsDefinite, equals, compare?, isNull, order]) rfl

end Cell

def arithmeticMean (xs : List α) : α := xs.sum / xs.length

theorem Aggregation.mean_eq (xs : List α) : mean xs = arithmeticMean xs := by
  rw [mean, ExactQuantity.sum_eq, ExactQuantity.ofInt_eq, Int.cast_natCast, arithmeticMean]

theorem arithmeticMean_reverse (xs : List α) : arithmeticMean xs.reverse = arithmeticMean xs := by
  simp [arithmeticMean]

def Operator.Relates : Operator → α → α → Prop
  | .lt, x, y => x < y
  | .gt, x, y => y < x
  | .le, x, y => x ≤ y
  | .ge, x, y => y ≤ x
  | .eq, x, y => x = y
  | .ne, x, y => x ≠ y

theorem Operator.holds_compare (op : Operator) (x y : α) :
    op.holds (compare x y) = true ↔ op.Relates x y := by
  cases op <;> simp [holds, Relates, compare_lt_iff_lt, compare_gt_iff_gt]

theorem Predicate.compareCells_real (op : Operator) (x : α) {v : Cell α} {y : α}
    (hv : v.number? = some y) :
    compareCells op (.real x) v = Truth.ofBool (op.holds (Ord.compare x y)) := by
  rw [compareCells, Cell.compare?_real x hv]

end EquityScreen
