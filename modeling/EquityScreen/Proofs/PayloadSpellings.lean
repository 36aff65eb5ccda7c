import EquityScreen.Proofs.PayloadGrammar
import Mathlib.Data.List.Nodup
import Mathlib.Logic.Relation

namespace EquityScreen

variable {α : Type}

namespace Json

def put (key : String) (v : Json α) (ms : List (String × Json α)) : List (String × Json α) :=
  ms.map fun m => if m.1 = key then (key, v) else m

def erase (key : String) (ms : List (String × Json α)) : List (String × Json α) :=
  ms.filter fun m => m.1 ≠ key

variable {ms ms' : List (String × Json α)} {key other : String} {v w : Json α}

theorem lookup_cons (m : String × Json α) (ms : List (String × Json α)) (key : String) :
    lookup key (m :: ms) = (lookup key ms).or (if m.1 = key then some m.2 else none) := by
  rw [lookup]
  cases lookup key ms <;> rfl

theorem lookup_put (ms : List (String × Json α)) (key other : String) (v : Json α) :
    lookup other (put key v ms) =
      if other = key then (lookup key ms).map fun _ => v else lookup other ms := by
  induction ms with
  | nil => split <;> rfl
  | cons m rest ih =>
    rw [put, List.map_cons, ← put, lookup_cons, lookup_cons, lookup_cons, ih]
    by_cases hother : other = key
    · subst hother
      by_cases hm : m.1 = other
      · cases lookup other rest <;> simp [hm]
      · simp [hm]
    · by_cases hm : m.1 = key
      · have hne : ¬ key = other := fun h => hother h.symm
        have hne' : ¬ m.1 = other := fun h => hother (h.symm.trans hm)
        simp [hother, hm, hne]
      · simp [hother, hm]

theorem lookup_erase (ms : List (String × Json α)) (key other : String) :
    lookup other (erase key ms) = if other = key then none else lookup other ms := by
  induction ms with
  | nil => split <;> rfl
  | cons m rest ih =>
    by_cases hm : m.1 = key
    · have hskip : erase key (m :: rest) = erase key rest := List.filter_cons_of_neg (by simp [hm])
      rw [hskip, ih, lookup_cons]
      by_cases hother : other = key
      · simp [hother]
      · have hne : ¬ m.1 = other := fun h => hother (h.symm.trans hm)
        simp [hother, hne]
    · have hkeep : erase key (m :: rest) = m :: erase key rest :=
        List.filter_cons_of_pos (by simp [hm])
      rw [hkeep, lookup_cons, lookup_cons, ih]
      by_cases hother : other = key
      · simp [hother, hm]
      · simp [hother]

/-- The same members in another order. Where a key is repeated, its last value stays the same. -/
def Reorders (ms ms' : List (String × Json α)) : Prop :=
  ms.Perm ms' ∧ ∀ key, lookup key ms = lookup key ms'

theorem lookup_eq_some_iff (hkeys : (ms.map Prod.fst).Nodup) :
    lookup key ms = some v ↔ (key, v) ∈ ms := by
  induction ms generalizing v with
  | nil => simp [lookup]
  | cons m rest ih =>
    obtain ⟨hm, hrest⟩ := List.nodup_cons.mp hkeys
    rw [lookup_cons, Option.or_eq_some_iff, ih hrest, List.mem_cons]
    constructor
    · rintro (hmem | ⟨-, hlast⟩)
      · exact .inr hmem
      · obtain ⟨rfl, hv⟩ := Option.ite_none_right_eq_some.mp hlast
        exact .inl (Prod.ext rfl (Option.some.inj hv).symm)
    · rintro (rfl | hmem)
      · refine .inr ⟨?_, by simp⟩
        rw [Option.eq_none_iff_forall_not_mem]
        intro w hw
        exact hm (List.mem_map.mpr ⟨_, (ih hrest).mp hw, rfl⟩)
      · exact .inl hmem

theorem reorders_of_perm (hkeys : (ms.map Prod.fst).Nodup) (h : ms.Perm ms') :
    Reorders ms ms' := by
  refine ⟨h, fun key => Option.ext fun v => ?_⟩
  have hkeys' : (ms'.map Prod.fst).Nodup := (h.map Prod.fst).nodup_iff.mp hkeys
  exact (lookup_eq_some_iff hkeys).trans (h.mem_iff.trans (lookup_eq_some_iff hkeys').symm)

inductive Reordered : Json α → Json α → Prop
  | members {ms ms' : List (String × Json α)} (h : Reorders ms ms') :
      Reordered (.object ms) (.object ms')
  | member {ms : List (String × Json α)} {key : String} {v w : Json α}
      (hv : lookup key ms = some v) (h : Reordered v w) :
      Reordered (.object ms) (.object (put key w ms))
  | item (before after : List (Json α)) {v w : Json α} (h : Reordered v w) :
      Reordered (.array (before ++ v :: after)) (.array (before ++ w :: after))

def IsBare : Json α → Prop
  | .object ms => lookup "filter" ms = none
  | _ => True

end Json

namespace Request

open Json

/-- What a value in a payload stands for. -/
inductive Part where
  | payload
  | node
  | nodes
  | range
  | window
  | period
  | sort
  | sortKey
  deriving DecidableEq, Repr

namespace Part

def under? : Part → String → Option Part
  | .payload, key =>
    if key = "filter" then some .node else if key = "sort" then some .sort else none
  | .node, key =>
    if key = "and" ∨ key = "or" then some .nodes
    else if key = "not" then some .node
    else if key = "range" then some .range
    else if key = "window" then some .window
    else if key = "period" then some .period
    else none
  | _, _ => none

def item? : Part → Option Part
  | .nodes => some .node
  | .sort => some .sortKey
  | _ => none

/-- The keys of a part whose null says no more than its absence. A field beside a group is an error
even if it is null, so that of a condition alone may be left out. -/
def optional (ms : Members α) : Part → List String
  | .payload => ["limit"]
  | .node => if logicalKeys ms = [] then ["field", "operator", "trend", "on_missing"] else []
  | .nodes => []
  | .range => ["min", "max", "inclusive", "exclusive"]
  | .window => ["type", "length", "aggregation"]
  | .period => ["unit", "last", "aggregation"]
  | .sort | .sortKey => ["direction"]

end Part

/-- One step from a spelling of a part to another. -/
inductive Respells : Part → Json α → Json α → Prop
  | reorder {part : Part} {v w : Json α} (h : v.Reordered w) : Respells part v w
  | absent {part : Part} {ms : Members α} {key : String} (hkey : key ∈ part.optional ms)
      (hnull : lookup key ms = some .null) : Respells part (.object ms) (.object (erase key ms))
  | period {ms ps ws : Members α} (hleaf : logicalKeys ms = [])
      (hperiod : lookup "period" ms = some (.object ps)) (hwindow : lookup "window" ms = none)
      (hunit : lookup "type" ws = lookup "unit" ps)
      (hlength : lookup "length" ws = lookup "last" ps)
      (haggregation : lookup "aggregation" ws = lookup "aggregation" ps) :
      Respells .node (.object ms) (.object (("window", .object ws) :: erase "period" ms))
  | single (key : Members α) : Respells .sort (.object key) (.array [.object key])
  | wrap {v : Json α} (hv : v.IsBare) : Respells .payload v (.object [("filter", v)])
  | bare {v w : Json α} (hv : v.IsBare) (h : Respells .node v w) : Respells .payload v w
  | member {part inner : Part} {ms : Members α} {key : String} {v w : Json α}
      (hkey : part.under? key = some inner) (hv : lookup key ms = some v)
      (h : Respells inner v w) : Respells part (.object ms) (.object (put key w ms))
  | item {part inner : Part} (hitem : part.item? = some inner) (before after : List (Json α))
      {v w : Json α} (h : Respells inner v w) :
      Respells part (.array (before ++ v :: after)) (.array (before ++ w :: after))

end Request

end EquityScreen
