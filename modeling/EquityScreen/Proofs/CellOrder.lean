import EquityScreen.Predicate.Meaning
import EquityScreen.Proofs.KeySort
import EquityScreen.Proofs.SoundDatabase
import EquityScreen.Quantity.Rational
import Mathlib.Data.Sum.Order
import Mathlib.Data.String.Basic
import Mathlib.Order.WithBot

namespace EquityScreen

namespace Quantity

/-- Values of numbers, by which numbers compare with each other and with integers. A number that is
not the same as itself has no value of its own. -/
structure Scale (α : Type) [Quantity α] where
  Value : Type
  [linear : LinearOrder Value]
  ofInt : Int → Value
  value : α → Value
  strictMono : ∀ ⦃m n : Int⦄, m < n → ofInt m < ofInt n
  compareInt_eq : ∀ x n, same x x = true →
    Quantity.compareInt x n = some (compare (value x) (ofInt n))
  order_eq : ∀ x y, same x x = true → same y y = true → order x y = compare (value x) (value y)

attribute [instance] Scale.linear

/-- Comparison is exact. -/
class IsExact (α : Type) [Quantity α] : Prop where
  nonempty_scale : Nonempty (Scale α)

end Quantity

theorem Rational.order_eq (x y : ℚ) : Quantity.order x y = compare x y := by
  rw [LinearOrder.compare_eq_compareOfLessAndEq, compareOfLessAndEq]
  simp only [Quantity.order, less_iff, same_iff]

instance : Quantity.IsExact ℚ where
  nonempty_scale := ⟨⟨ℚ, fun n => n, id, Int.cast_strictMono, fun _ _ _ => rfl,
    fun x y _ _ => Rational.order_eq x y⟩⟩

variable {α : Type} [Quantity α]

namespace Cell

/-- A cell that is equal to itself. An absent cell is not, nor is a number without a value. -/
def IsDefinite (v : Cell α) : Prop := v.equals v = true

instance (v : Cell α) : Decidable v.IsDefinite := inferInstanceAs (Decidable (v.equals v = true))

theorem isDefinite_text (s : String) : IsDefinite (.text s : Cell α) := equals_text.mpr rfl

theorem IsDefinite.same {x : α} (h : IsDefinite (.real x)) : Quantity.same x x = true := by
  have horder : Quantity.order x x = .eq := by
    simpa [IsDefinite, equals, compare?, isNull, order] using h
  by_contra hsame
  simp only [Quantity.order, hsame] at horder
  split at horder <;> cases horder

/-- Where a cell stands: nothing, numbers by value, texts by their characters. -/
abbrev Rank (σ : Quantity.Scale α) := WithBot (σ.Value ⊕ₗ String)

namespace Rank

variable {σ : Quantity.Scale α}

def number (x : σ.Value) : Rank σ := (Sum.inlₗ x : σ.Value ⊕ₗ String)

def text (s : String) : Rank σ := (Sum.inrₗ s : σ.Value ⊕ₗ String)

theorem number_strictMono : StrictMono (number : σ.Value → Rank σ) :=
  WithBot.coe_strictMono.comp Sum.Lex.inl_strictMono

theorem text_strictMono : StrictMono (text : String → Rank σ) :=
  WithBot.coe_strictMono.comp Sum.Lex.inr_strictMono

theorem number_lt_text (x : σ.Value) (s : String) : number x < text s :=
  WithBot.coe_lt_coe.mpr (Sum.Lex.inl_lt_inr x s)

end Rank

def rank (σ : Quantity.Scale α) : Cell α → Rank σ
  | .null => ⊥
  | .flag b => .number (σ.ofInt b.toInt)
  | .int n => .number (σ.ofInt n)
  | .real x => .number (σ.value x)
  | .text s => .text s

theorem IsDefinite.order_eq (σ : Quantity.Scale α) {a b : Cell α} (ha : a.IsDefinite)
    (hb : b.IsDefinite) : order a b = compare (rank σ a) (rank σ b) := by
  have hnumber (x y : σ.Value) : compare (Rank.number x) (.number y) = compare x y :=
    compare_map Rank.number_strictMono x y
  have htext (s t : String) : compare (Rank.text s : Rank σ) (.text t) = compare s t :=
    compare_map Rank.text_strictMono s t
  have hint (n m : Int) : compare (σ.ofInt n) (σ.ofInt m) = compare n m :=
    compare_map σ.strictMono n m
  have hswap (x : σ.Value) (n : Int) : (compare x (σ.ofInt n)).swap = compare (σ.ofInt n) x :=
    Std.OrientedCmp.eq_swap.symm
  have hlt (x : σ.Value) (s : String) : compare (Rank.number x) (.text s) = .lt :=
    compare_lt_iff_lt.mpr (Rank.number_lt_text x s)
  have hgt (x : σ.Value) (s : String) : compare (Rank.text s) (.number x) = .gt :=
    compare_gt_iff_gt.mpr (Rank.number_lt_text x s)
  cases a with
  | null => cases ha
  | flag | int =>
    cases b with
    | null => cases hb
    | flag | int => simp only [order, rank, hnumber, hint]
    | real y =>
      simp only [order, rank, hnumber, σ.compareInt_eq y _ hb.same, Option.getD_some, hswap]
    | text t => simp only [order, rank, hlt]
  | real x =>
    cases b with
    | null => cases hb
    | flag | int => simp only [order, rank, hnumber, σ.compareInt_eq x _ ha.same, Option.getD_some]
    | real y => simp only [order, rank, hnumber, σ.order_eq x y ha.same hb.same]
    | text t => simp only [order, rank, hlt]
  | text s =>
    cases b with
    | null => cases hb
    | flag | int | real => simp only [order, rank, hgt]
    | text t => simp only [order, rank, htext]

theorem IsDefinite.equals_of_rank (σ : Quantity.Scale α) {a b : Cell α} (ha : a.IsDefinite)
    (hb : b.IsDefinite) (h : rank σ a = rank σ b) : a.equals b = true := by
  have horder : order a b = .eq := by rw [ha.order_eq σ hb, h, compare_eq_iff_eq]
  have hnull {v : Cell α} (hv : v.IsDefinite) : v.isNull = false := by
    cases v with
    | null => cases hv
    | flag | int | real | text => rfl
  simp [equals, compare?, hnull ha, hnull hb, horder]

theorem IsDefinite.rank_eq (σ : Quantity.Scale α) {a b : Cell α} (ha : a.IsDefinite)
    (hb : b.IsDefinite) (h : a.equals b = true) : rank σ a = rank σ b := by
  have horder : order a b = .eq := by
    unfold equals compare? at h
    split at h <;> simp_all
  rwa [ha.order_eq σ hb, compare_eq_iff_eq] at horder

end Cell

open Cell

/-- Rows that all differ in a column are in one order by it, in whatever order they are listed. -/
theorem newestFirst_eq_of_perm [Quantity.IsExact α] {column : String} {rows rows' : List (Row α)}
    (hperm : rows.Perm rows') (hdef : ∀ row ∈ rows, (Row.get row column).IsDefinite)
    (hdiffer : rows.Pairwise fun a b => (Row.get b column).equals (Row.get a column) = false) :
    newestFirst column rows = newestFirst column rows' := by
  obtain ⟨σ⟩ := Quantity.IsExact.nonempty_scale (α := α)
  let key (row : Row α) : (Rank σ)ᵒᵈ := OrderDual.toDual (rank σ (Row.get row column))
  have hcompares : KeySort.Compares key
      (fun a b => (Cell.order (Row.get b column) (Row.get a column)).isLE) rows := by
    intro a ha b hb
    beta_reduce
    rw [(hdef b hb).order_eq σ (hdef a ha), isLE_compare]
    rfl
  -- rows that stand at one place have equal cells, so that they are one row
  have hkeys : rows.Pairwise fun a b => key a ≠ key b :=
    hdiffer.imp_of_mem fun ha hb hab hkey => by
      rw [(hdef _ hb).equals_of_rank σ (hdef _ ha) hkey.symm] at hab
      cases hab
  refine KeySort.mergeSort_eq_of_perm hperm hcompares fun a ha b hb hkey => ?_
  have hsymm : Std.Symm fun a b => key a ≠ key b := ⟨fun a b h => h.symm⟩
  by_contra hne
  exact hkeys.forall ha hb hne hkey

end EquityScreen
