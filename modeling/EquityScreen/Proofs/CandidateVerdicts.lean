import EquityScreen.Proofs.ConditionReading
import EquityScreen.Resolution

namespace EquityScreen

variable {α β γ : Type}

namespace Traced

/-- A computation fails with the failure of a statement that it put, and with no other. -/
structure FailsWithStore (store : Store α) (x : Traced α ResolveError β) : Prop where
  answered : ∀ b, x.result = .ok b → ∀ s ∈ x.asked, ∃ rows, store s = .ok rows
  failed : ∀ e, x.result = .error e → ∃ s ∈ x.asked, ∃ f, store s = .error f ∧ e = .store f

namespace FailsWithStore

variable {store : Store α} {x : Traced α ResolveError β}

theorem pure (b : β) : FailsWithStore store (Pure.pure b : Traced α ResolveError β) where
  answered _ _ := by simp [Pure.pure, Traced.ofResult]
  failed _ h := nomatch h

theorem ask (s : Statement α) :
    FailsWithStore store ((Traced.ask store s).mapError ResolveError.store) := by
  constructor
  · intro rows h t ht
    obtain rfl := List.mem_singleton.mp ht
    exact ⟨rows, mapError_eq_ok.mp h⟩
  · intro e h
    refine ⟨s, List.mem_singleton.mpr rfl, ?_⟩
    change (store s).mapError ResolveError.store = .error e at h
    cases hs : store s with
    | ok rows =>
      rw [hs] at h
      cases h
    | error f =>
      rw [hs] at h
      cases h
      exact ⟨f, rfl, rfl⟩

theorem bind (hx : FailsWithStore store x) {f : β → Traced α ResolveError γ}
    (hf : ∀ b, FailsWithStore store (f b)) : FailsWithStore store (x >>= f) := by
  change FailsWithStore store (Traced.bind x f)
  unfold Traced.bind
  cases hr : x.result with
  | error e =>
    refine ⟨nofun, fun e' he => ?_⟩
    cases he
    exact hx.failed e hr
  | ok b =>
    refine ⟨fun c hc => List.forall_mem_append.mpr ⟨hx.answered b hr, (hf b).answered c hc⟩,
      fun e he => ?_⟩
    obtain ⟨s, hs, hfail⟩ := (hf b).failed e he
    exact ⟨s, List.mem_append_right _ hs, hfail⟩

theorem exists_ok_iff (hx : FailsWithStore store x) :
    (∃ b, x.result = .ok b) ↔ ∀ s ∈ x.asked, ∃ rows, store s = .ok rows := by
  constructor
  · rintro ⟨b, hb⟩
    exact hx.answered b hb
  · intro h
    cases hr : x.result with
    | ok b => exact ⟨b, rfl⟩
    | error e =>
      obtain ⟨s, hs, f, hfail, -⟩ := hx.failed e hr
      obtain ⟨rows, hrows⟩ := h s hs
      rw [hfail] at hrows
      cases hrows

end FailsWithStore

theorem result_bind {ε : Type} (x : Traced α ε β) (f : β → Traced α ε γ) :
    (x >>= f).result = x.result >>= fun b => (f b).result := by
  change (Traced.bind x f).result = _
  unfold Traced.bind
  cases x.result <;> rfl

theorem asked_bind {ε : Type} {x : Traced α ε β} {b : β} (hx : x.result = .ok b)
    (f : β → Traced α ε γ) : (x >>= f).asked = x.asked ++ (f b).asked := by
  change (Traced.bind x f).asked = _
  simp [Traced.bind, hx]

end Traced

namespace Resolution

open Traced

variable {store : Store α} {historyLength : Nat} {ticker : String}

theorem fetch_failsWithStore (m : MetricName) (unit : WindowUnit) (length : Nat) :
    FailsWithStore store (fetch store ticker m unit length) := by
  unfold fetch
  refine (FailsWithStore.ask _).bind fun rows => ?_
  split
  · exact (FailsWithStore.ask _).bind fun statements => FailsWithStore.pure _
  · exact FailsWithStore.pure rows

variable [Quantity α]

theorem compute_failsWithStore {c : CompiledCondition α} (hc : (metric? c.field).isSome = true) :
    FailsWithStore store (compute store historyLength ticker c) := by
  obtain ⟨m, hm⟩ := Option.isSome_iff_exists.mp hc
  simp only [compute, hm]
  exact (fetch_failsWithStore m _ _).bind fun rows => FailsWithStore.pure _

theorem passesAll_failsWithStore {cs : List (CompiledCondition α)}
    (hcs : ∀ c ∈ cs, (metric? c.field).isSome = true) :
    FailsWithStore store (passesAll store historyLength ticker cs) := by
  induction cs with
  | nil => exact FailsWithStore.pure true
  | cons c rest ih =>
    obtain ⟨hc, hrest⟩ := List.forall_mem_cons.mp hcs
    refine (compute_failsWithStore hc).bind fun value => ?_
    split
    · exact ih hrest
    · exact FailsWithStore.pure false

/-- A company meets a condition if its metric has a value that satisfies the condition, or none and
the condition ignores that. -/
def Meets (store : Store α) (historyLength : Nat) (ticker : String) (c : CompiledCondition α) :
    Prop :=
  (∃ x, (compute store historyLength ticker c).result = .ok (.ok x) ∧ satisfies c x = true) ∨
    (∃ e, (compute store historyLength ticker c).result = .ok (.error e) ∧ c.onMissing = .ignore)

theorem meets_iff {c : CompiledCondition α} :
    Meets store historyLength ticker c ↔
      ∃ value, (compute store historyLength ticker c).result = .ok value ∧
        accepts c value = true := by
  constructor
  · rintro (⟨x, hx, hs⟩ | ⟨e, he, hi⟩)
    · exact ⟨.ok x, hx, hs⟩
    · exact ⟨.error e, he, decide_eq_true hi⟩
  · rintro ⟨_ | x, hv, ha⟩
    · exact .inr ⟨_, hv, of_decide_eq_true ha⟩
    · exact .inl ⟨x, hv, ha⟩

theorem passesAll_cons_eq_ok {c : CompiledCondition α} {rest : List (CompiledCondition α)}
    {b : Bool} :
    (passesAll store historyLength ticker (c :: rest)).result = .ok b ↔
      ∃ value, (compute store historyLength ticker c).result = .ok value ∧
        ((accepts c value = true ∧ (passesAll store historyLength ticker rest).result = .ok b) ∨
          (accepts c value = false ∧ b = false)) := by
  rw [passesAll, result_bind, bind_eq_ok]
  refine exists_congr fun value => and_congr_right fun _ => ?_
  cases accepts c value with
  | true => simp
  | false => simp [Pure.pure, ofResult, eq_comm]

/-- The verdict on a company is whether it meets every condition, although no condition is examined
after one that it fails. -/
theorem eq_true_iff_of_passesAll {cs : List (CompiledCondition α)} {b : Bool}
    (h : (passesAll store historyLength ticker cs).result = .ok b) :
    b = true ↔ ∀ c ∈ cs, Meets store historyLength ticker c := by
  induction cs with
  | nil =>
    cases h
    simp
  | cons c rest ih =>
    obtain ⟨value, hv, ⟨ha, hrest⟩ | ⟨ha, rfl⟩⟩ := passesAll_cons_eq_ok.mp h
    · have hc : Meets store historyLength ticker c := meets_iff.mpr ⟨value, hv, ha⟩
      rw [ih hrest, List.forall_mem_cons]
      exact ⟨fun hall => ⟨hc, hall⟩, fun hall => hall.2⟩
    · refine ⟨nofun, fun hall => ?_⟩
      obtain ⟨value', hv', ha'⟩ := meets_iff.mp (hall c (by simp))
      rw [hv] at hv'
      cases hv'
      rw [ha] at ha'
      cases ha'

theorem passesAll_eq_true {cs : List (CompiledCondition α)} :
    (passesAll store historyLength ticker cs).result = .ok true ↔
      ∀ c ∈ cs, Meets store historyLength ticker c := by
  refine ⟨fun h => (eq_true_iff_of_passesAll h).mp rfl, fun h => ?_⟩
  induction cs with
  | nil => rfl
  | cons c rest ih =>
    obtain ⟨hc, hrest⟩ := List.forall_mem_cons.mp h
    obtain ⟨value, hv, ha⟩ := meets_iff.mp hc
    exact passesAll_cons_eq_ok.mpr ⟨value, hv, .inl ⟨ha, ih hrest⟩⟩

end Resolution

end EquityScreen
