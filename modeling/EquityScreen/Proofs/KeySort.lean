import Mathlib.Data.List.Pairwise
import Mathlib.Order.Compare
import Mathlib.Order.Lattice
import Mathlib.Order.Monotone.Basic

namespace EquityScreen

variable {β γ δ : Type} [LinearOrder γ] [LinearOrder δ]

theorem compare_map {f : γ → δ} (hf : StrictMono f) (x y : γ) :
    compare (f x) (f y) = compare x y := by
  rw [← cmp_eq_compare, hf.cmp_map_eq, cmp_eq_compare]

theorem isLE_compare (x y : γ) : (compare x y).isLE = decide (x ≤ y) := by
  rw [Bool.eq_iff_iff, decide_eq_true_iff]
  exact Ordering.isLE_iff_ne_gt.trans compare_le_iff_le

namespace KeySort

variable {key : β → γ} {before : β → β → Bool} {l l' : List β}

/-- A comparison is by keys if it says which key is not above the other. -/
def Compares (key : β → γ) (before : β → β → Bool) (l : List β) : Prop :=
  ∀ a ∈ l, ∀ b ∈ l, before a b = decide (key a ≤ key b)

def upward (key : β → γ) (a b : β) : Bool := decide (key a ≤ key b)

theorem upward_trans (a b c : β) (hab : upward key a b = true) (hbc : upward key b c = true) :
    upward key a c = true :=
  decide_eq_true ((of_decide_eq_true hab).trans (of_decide_eq_true hbc))

theorem upward_total (a b : β) : (upward key a b || upward key b a) = true := by
  simp only [upward, Bool.or_eq_true, decide_eq_true_iff]
  exact le_total _ _

theorem mergeSort_eq_upward (h : Compares key before l) :
    l.mergeSort before = l.mergeSort (upward key) := by
  have hsame : ∀ a ∈ l, ∀ b ∈ l, before a b = upward key (id a) (id b) := h
  simpa only [List.map_id] using List.map_mergeSort hsame

theorem pairwise_mergeSort (h : Compares key before l) :
    (l.mergeSort before).Pairwise fun a b => key a ≤ key b := by
  rw [mergeSort_eq_upward h]
  exact (List.pairwise_mergeSort upward_trans upward_total l).imp of_decide_eq_true

/-- Elements of one key stay in the order they are given in, so that the first one stays first. -/
theorem find?_mergeSort (h : Compares key before l) (c : γ) :
    (l.mergeSort before).find? (key · = c) = l.find? (key · = c) := by
  have hsame : (l.filter (key · = c)).Pairwise fun a b => upward key a b = true := by
    refine List.pairwise_of_forall_mem_list fun a ha b hb => decide_eq_true (le_of_eq ?_)
    exact (of_decide_eq_true (List.mem_filter.mp ha).2).trans
      (of_decide_eq_true (List.mem_filter.mp hb).2).symm
  have hsub := (List.sublist_mergeSort upward_trans upward_total hsame
    List.filter_sublist).filter (key · = c)
  rw [List.filter_filter, ← mergeSort_eq_upward h] at hsub
  simp only [Bool.and_self] at hsub
  have hlength := ((List.mergeSort_perm l before).filter (key · = c)).length_eq
  rw [← List.head?_filter, ← List.head?_filter, hsub.eq_of_length hlength.symm]

/-- Elements of different keys come out in one order. -/
theorem mergeSort_eq_of_perm (hperm : l.Perm l') (h : Compares key before l)
    (hkey : ∀ a ∈ l, ∀ b ∈ l, key a = key b → a = b) :
    l.mergeSort before = l'.mergeSort before := by
  have h' : Compares key before l' := fun a ha b hb =>
    h a (hperm.mem_iff.mpr ha) b (hperm.mem_iff.mpr hb)
  refine List.Perm.eq_of_pairwise (fun a b ha hb hab hba => ?_) (pairwise_mergeSort h)
    (pairwise_mergeSort h')
    ((List.mergeSort_perm _ _).trans (hperm.trans (List.mergeSort_perm _ _).symm))
  exact hkey a (List.mem_mergeSort.mp ha) b (hperm.mem_iff.mpr (List.mem_mergeSort.mp hb))
    (le_antisymm hab hba)

theorem mergeSort_eq_of_ascending (hperm : l'.Perm l) (h : Compares key before l)
    (hkey : l.Pairwise fun a b => key a < key b) : l'.mergeSort before = l := by
  have hbefore : l.Pairwise fun a b => before a b = true := hkey.imp_of_mem fun ha hb hab => by
    rw [h _ ha _ hb, decide_eq_true_iff]
    exact hab.le
  have hsymm : Std.Symm fun a b => key a ≠ key b := ⟨fun a b h => h.symm⟩
  rw [← mergeSort_eq_of_perm hperm.symm h fun a ha b hb hab => ?_,
    List.mergeSort_of_pairwise hbefore]
  by_contra hne
  exact (hkey.imp fun hlt => hlt.ne).forall ha hb hne hab

end KeySort

end EquityScreen
