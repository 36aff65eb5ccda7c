import EquityScreen.Proofs.CandidateVerdicts
import EquityScreen.Resolution.Workers
import Mathlib.Data.List.Basic

namespace EquityScreen

variable {α : Type}

def failure? {ε β : Type} : Except ε β → Option ε
  | .error e => some e
  | .ok _ => none

@[simp]
theorem failure?_ok {ε β : Type} (b : β) : failure? (.ok b : Except ε β) = none := rfl

@[simp]
theorem failure?_error {ε β : Type} (e : ε) : failure? (.error e : Except ε β) = some e := rfl

theorem failure?_eq_none {ε β : Type} {r : Except ε β} : failure? r = none ↔ ∃ b, r = .ok b := by
  cases r <;> simp [failure?]

theorem failure?_eq_some {ε β : Type} {r : Except ε β} {e : ε} :
    failure? r = some e ↔ r = .error e := by
  cases r <;> simp [failure?]

namespace Examination

variable {verdict : Nat → Except ResolveError Bool} {count : Nat} {done : List Nat}
  {e : Examination}

/-- An examination that has been through some places shows the first failure there, and before any
failure all verdicts. -/
structure Reflects (verdict : Nat → Except ResolveError Bool) (count : Nat) (done : List Nat)
    (e : Examination) : Prop where
  failure : e.failure = done.findSome? fun i => failure? (verdict i)
  length : e.verdicts.length = count
  verdicts : e.failure = none → ∀ i < count, e.verdicts[i]? =
    some (if i ∈ done then (verdict i).toOption else none)

theorem reflects_start (verdict : Nat → Except ResolveError Bool) (count : Nat) :
    Reflects verdict count [] (start count) where
  failure := rfl
  length := List.length_replicate
  verdicts _ i hi := by simp [start, hi]

theorem Reflects.note (h : Reflects verdict count done e) (i : Nat) :
    Reflects verdict count (done ++ [i]) (e.note i (verdict i)) := by
  have hfailure := h.failure
  unfold Examination.note
  cases hf : e.failure with
  | some x =>
    rw [hf] at hfailure
    exact ⟨by simp [hf, ← hfailure], h.length, fun hnone => by simp [hf] at hnone⟩
  | none =>
    rw [hf] at hfailure
    cases hi : verdict i with
    | error x => exact ⟨by simp [← hfailure, hi], h.length, nofun⟩
    | ok b =>
      refine ⟨by simp [← hfailure, hi], by simp [h.length], fun _ j hj => ?_⟩
      by_cases hij : i = j
      · subst hij
        simp [h.length, hj, hi, Except.toOption]
      · simp [hij, h.verdicts hf j hj, Ne.symm hij]

/-- Whatever the order, an examination reflects the places that it has been through. -/
theorem Reflects.foldl (places : List Nat) (h : Reflects verdict count done e) :
    Reflects verdict count (done ++ places)
      (places.foldl (fun e i => e.note i (verdict i)) e) := by
  induction places generalizing done e with
  | nil => simpa using h
  | cons i rest ih => simpa using ih (h.note i)

theorem zip_filterMap (judge : Row α → Option Bool) (candidates : List (Row α)) :
    ((candidates.zip (candidates.map judge)).filterMap fun (r, v) =>
      if v = some true then some r else none) = candidates.filter fun r => judge r = some true := by
  induction candidates with
  | nil => rfl
  | cons r rest ih => by_cases h : judge r = some true <;> simp [h, ih]

/-- The verdicts come back in the order of the candidates. -/
theorem Reflects.outcome_eq {candidates : List (Row α)} {judge : Row α → Except ResolveError Bool}
    (h : Reflects verdict candidates.length done e)
    (hdone : ∀ i < candidates.length, i ∈ done)
    (hjudge : ∀ i r, candidates[i]? = some r → verdict i = judge r) :
    e.outcome candidates = match done.findSome? fun i => failure? (verdict i) with
      | some x => .error x
      | none => .ok (candidates.filter fun r => (judge r).toOption = some true) := by
  rw [← h.failure, outcome]
  cases hf : e.failure with
  | some x => rfl
  | none =>
    have hverdicts : e.verdicts = candidates.map fun r => (judge r).toOption := by
      apply List.ext_getElem?
      intro i
      by_cases hi : i < candidates.length
      · have hr := List.getElem?_eq_getElem hi
        rw [h.verdicts hf i hi, if_pos (hdone i hi), List.getElem?_map, hr, hjudge i _ hr]
        rfl
      · have hl := h.length
        rw [List.getElem?_eq_none (by omega), List.getElem?_eq_none (by simp; omega)]
    rw [hverdicts, zip_filterMap]

end Examination

namespace Resolution

variable [Quantity α] (store : Store α) (historyLength : Nat)
  (conditions : List (CompiledCondition α))

def verdictOn (r : Row α) : Except ResolveError Bool :=
  (passes store historyLength conditions r).result

def firstFailure? (candidates : List (Row α)) (places : List Nat) : Option ResolveError :=
  places.findSome? fun i =>
    candidates[i]?.bind fun r => failure? (verdictOn store historyLength conditions r)

def passing (candidates : List (Row α)) : List (Row α) :=
  candidates.filter fun r => (verdictOn store historyLength conditions r).toOption = some true

variable {store historyLength conditions} {candidates : List (Row α)} {workers : Nat}

theorem resolveBy_eq (hne : conditions ≠ []) (schedule : Schedule workers candidates.length) :
    resolveBy store historyLength conditions candidates schedule =
      match firstFailure? store historyLength conditions candidates schedule.places with
      | some x => .error x
      | none => .ok (passing store historyLength conditions candidates) := by
  have hmem (i : Nat) : i ∈ schedule.places ↔ i < candidates.length := by
    rw [schedule.complete.mem_iff, List.mem_range]
  let verdict (i : Nat) : Except ResolveError Bool :=
    candidates[i]?.elim (.ok false) (verdictOn store historyLength conditions)
  have hverdict (i : Nat) (r : Row α) (hr : candidates[i]? = some r) :
      verdict i = verdictOn store historyLength conditions r := by
    simp only [verdict, hr, Option.elim_some]
  have hexamine : schedule.places.foldl (examine store historyLength conditions candidates)
      (Examination.start candidates.length) =
      schedule.places.foldl (fun e i => e.note i (verdict i))
        (Examination.start candidates.length) := by
    apply List.foldl_ext
    intro e i hi
    have hr := List.getElem?_eq_getElem ((hmem i).mp hi)
    rw [examine, hr, hverdict i _ hr]
    rfl
  have hfailure : (schedule.places.findSome? fun i => failure? (verdict i)) =
      firstFailure? store historyLength conditions candidates schedule.places := by
    unfold firstFailure?
    congr 1
    funext i
    cases hr : candidates[i]? with
    | none => simp only [verdict, hr, Option.elim_none, failure?_ok, Option.bind_none]
    | some r => rw [hverdict i r hr, Option.bind_some]
  have hreflects := Examination.Reflects.foldl schedule.places
    (Examination.reflects_start verdict candidates.length)
  rw [List.nil_append, ← hexamine] at hreflects
  have hisEmpty : conditions.isEmpty = false := by simpa using hne
  rw [resolveBy, hisEmpty, if_neg Bool.false_ne_true,
    hreflects.outcome_eq (fun i hi => (hmem i).mpr hi) hverdict, hfailure]
  rfl

/-- One worker goes through the candidates as they come. -/
theorem keepPassing_result (candidates : List (Row α)) :
    (keepPassing store historyLength conditions candidates).result =
      match candidates.findSome? fun r =>
        failure? (verdictOn store historyLength conditions r) with
      | some x => .error x
      | none => .ok (passing store historyLength conditions candidates) := by
  induction candidates with
  | nil => rfl
  | cons r rest ih =>
    rw [keepPassing, Traced.result_bind, List.findSome?_cons]
    cases hr : (passes store historyLength conditions r).result with
    | error x =>
      have hv : verdictOn store historyLength conditions r = .error x := hr
      simp [hv, bind, Except.bind]
    | ok b =>
      have hv : verdictOn store historyLength conditions r = .ok b := hr
      change (keepPassing store historyLength conditions rest >>= _).result = _
      rw [Traced.result_bind, ih, hv, failure?_ok]
      cases rest.findSome? fun r => failure? (verdictOn store historyLength conditions r) with
      | some x => rfl
      | none => cases b <;>
          simp [passing, hv, bind, Except.bind, Pure.pure, Traced.ofResult, Except.toOption]

theorem firstFailure?_range (candidates : List (Row α)) :
    firstFailure? store historyLength conditions candidates (List.range candidates.length) =
      candidates.findSome? fun r => failure? (verdictOn store historyLength conditions r) := by
  have hplaces : (List.range candidates.length).map (candidates[·]?) = candidates.map some := by
    apply List.ext_getElem?
    intro i
    by_cases hi : i < candidates.length <;> simp [hi]
  let fails (r : Row α) : Option ResolveError :=
    failure? (verdictOn store historyLength conditions r)
  calc
    _ = ((List.range candidates.length).map (candidates[·]?)).findSome? (·.bind fails) := by
      rw [List.findSome?_map]
      rfl
    _ = candidates.findSome? fails := by
      rw [hplaces, List.findSome?_map]
      rfl

end Resolution

end EquityScreen
