import EquityScreen.Proofs.PlaceText

namespace EquityScreen

variable {α : Type}

namespace Json

def IsObject : Json α → Prop
  | .object _ => True
  | _ => False

def IsArray : Json α → Prop
  | .array _ => True
  | _ => False

def IsScalar : Json α → Prop
  | .array _ | .object _ => False
  | _ => True

def IsNullOrText : Json α → Prop
  | .null | .text _ => True
  | _ => False

def IsNullOrFlag : Json α → Prop
  | .null | .bool _ => True
  | _ => False

/-- A key that need not be there, but has a value of some form if it is. -/
def May (key : String) (form : Json α → Prop) (ms : List (String × Json α)) : Prop :=
  ∀ v, lookup key ms = some v → form v

def IsLimit : Json α → Prop
  | .null => True
  | .int n => 0 ≤ n ∧ n < 18446744073709551616
  | _ => False

def IsRange : Json α → Prop
  | .object ms => May "min" IsScalar ms ∧ May "max" IsScalar ms ∧
      May "inclusive" IsNullOrFlag ms ∧ May "exclusive" IsNullOrFlag ms
  | _ => False

/-- An object of an optional unit, length and aggregation; a window and a period call the first two
differently. -/
def IsSpan (unitKey lengthKey : String) : Json α → Prop
  | .object ms => May unitKey IsNullOrText ms ∧ May lengthKey IsScalar ms ∧
      May "aggregation" IsNullOrText ms
  | _ => False

structure IsCondition (ms : List (String × Json α)) : Prop where
  oneSpan : ¬ (has "window" ms ∧ has "period" ms)
  window : May "window" (IsSpan "type" "length") ms
  period : May "period" (IsSpan "unit" "last") ms
  field : May "field" IsNullOrText ms
  operator : May "operator" IsNullOrText ms
  value : May "value" IsScalar ms
  range : May "range" IsRange ms
  trend : May "trend" IsNullOrText ms
  onMissing : May "on_missing" IsNullOrText ms

/-- A group is an array of nodes under `and` or `or`, a negation a node under `not`, and an object
with none of the three keys is a condition. -/
inductive IsNode : Json α → Prop
  | condition {ms : List (String × Json α)}
      (hplain : ∀ key ∈ ["and", "or", "not"], has key ms = false) (hc : IsCondition ms) :
      IsNode (.object ms)
  | group {ms : List (String × Json α)} {items : List (Json α)} (c : Connective)
      (honly : ∀ key ∈ ["and", "or", "not"], has key ms = true ↔ key = c.word)
      (hfield : has "field" ms = false) (hitems : lookup c.word ms = some (.array items))
      (h : ∀ v ∈ items, IsNode v) : IsNode (.object ms)
  | not {ms : List (String × Json α)} {v : Json α}
      (honly : ∀ key ∈ ["and", "or", "not"], has key ms = true ↔ key = "not")
      (hfield : has "field" ms = false) (hchild : lookup "not" ms = some v) (h : IsNode v) :
      IsNode (.object ms)

def IsSortKey : Json α → Prop
  | .object ms => (∃ field, lookup "field" ms = some (.text field)) ∧
      May "direction" (fun v => v = .null ∨ v = .text "asc" ∨ v = .text "desc") ms
  | _ => False

def IsSort : Json α → Prop
  | .array items => ∀ v ∈ items, IsSortKey v
  | .object ms => IsSortKey (.object ms)
  | _ => False

/-- A bare node, or an object with a node under `filter` and perhaps a sort and a limit. -/
def IsPayload : Json α → Prop
  | .object ms => (lookup "filter" ms = none ∧ IsNode (.object ms)) ∨
      ((∃ f, lookup "filter" ms = some f ∧ IsNode f) ∧ May "sort" IsSort ms ∧
        May "limit" IsLimit ms)
  | _ => False

def at? : Json α → Path → Option (Json α)
  | v, [] => some v
  | .object ms, .key k :: rest => (lookup k ms).bind (at? · rest)
  | .array items, .index i :: rest => items[i]?.bind (at? · rest)
  | _, _ => none

def listed : Json α → Json α
  | .object ms => .array [.object ms]
  | v => v

/-- The value at a place of a payload. The keys of a sort have indices, also a single one. -/
def target? (v : Json α) : Path → Option (Json α)
  | .key "sort" :: .index i :: rest =>
    (v.at? [.key "sort"]).bind fun s => s.listed.at? (.index i :: rest)
  | place => v.at? place

def named? (v : Json α) (place : String) : Option (Json α) := v.target? (Path.ofText place)

variable {ms : List (String × Json α)}

theorem may_of_none {key : String} {f : Json α → Prop} (h : lookup key ms = none) :
    May key f ms := fun v hv => by simp [h] at hv

theorem may_iff {key : String} {f : Json α → Prop} {v : Json α}
    (h : lookup key ms = some v) : May key f ms ↔ f v := by simp [May, h]

theorem target?_of_at? {v w : Json α} {place : Path} (h : v.at? place = some w) :
    v.target? place = some w := by
  unfold target?
  split
  · next i rest =>
    cases v with
    | object ms =>
      obtain ⟨s, hs, hw⟩ := Option.bind_eq_some_iff.mp h
      cases s with
      | array items => simpa [at?, hs, listed] using hw
      | _ => simp [at?] at hw
    | _ => simp [at?] at h
  · exact h

end Json

open Json

/-- What a fault says about the value it is reported for. -/
def PayloadFault.Describes (v : Json α) : PayloadFault → Prop
  | notJson => False
  | payloadNotObject | nodeNotObject | rangeNotObject | windowNotObject | sortKeyNotObject =>
    ¬ v.IsObject
  | mixedKeys keys => ∃ ms, v = .object ms ∧ 1 < keys.length ∧
      keys = ["and", "or", "not"].filter fun key => has key ms
  | fieldBesideGroup key => ∃ ms, v = .object ms ∧ has "field" ms ∧
      [key] = ["and", "or", "not"].filter fun key => has key ms
  | notArray _ => ¬ v.IsArray
  | windowAndPeriod => ∃ ms, v = .object ms ∧ has "window" ms ∧ has "period" ms
  | sortNotList => ¬ v.IsArray ∧ ¬ v.IsObject
  | sortKeyWithoutField => ∃ ms, v = .object ms ∧
      (lookup "field" ms = none ∨ lookup "field" ms = some .null)
  | unknownDirection word => ∃ ms, v = .object ms ∧ lookup "direction" ms = some (.text word) ∧
      word ≠ "asc" ∧ word ≠ "desc"
  | limitNotCount => ¬ v.IsLimit
  | notScalar => ¬ v.IsScalar
  | notText _ => ¬ v.IsNullOrText
  | notFlag _ => ¬ v.IsNullOrFlag

namespace Request

variable {ms : List (String × Json α)}

theorem logicalKeys_eq_nil_iff :
    logicalKeys ms = [] ↔ ∀ key ∈ ["and", "or", "not"], has key ms = false := by
  simp [logicalKeys]

theorem logicalKeys_eq_singleton_iff {key : String} (hkey : key ∈ ["and", "or", "not"]) :
    logicalKeys ms = [key] ↔ ∀ k ∈ ["and", "or", "not"], has k ms = true ↔ k = key := by
  have hcases : key = "and" ∨ key = "or" ∨ key = "not" := by simpa using hkey
  rcases hcases with rfl | rfl | rfl <;> cases hand : has "and" ms <;> cases hor : has "or" ms <;>
    cases hnot : has "not" ms <;> simp [logicalKeys, hand, hor, hnot]

theorem isNode_object_iff : IsNode (.object ms) ↔
    (logicalKeys ms = [] ∧ IsCondition ms) ∨ (has "field" ms = false ∧
      ((∃ c : Connective, logicalKeys ms = [c.word] ∧
          ∃ items, lookup c.word ms = some (.array items) ∧ ∀ v ∈ items, IsNode v) ∨
        (logicalKeys ms = ["not"] ∧ ∃ v, lookup "not" ms = some v ∧ IsNode v))) := by
  have hword : ∀ c : Connective, c.word ∈ ["and", "or", "not"] := by rintro (_ | _) <;> decide
  constructor
  · intro h
    cases h with
    | condition hplain hc => exact .inl ⟨logicalKeys_eq_nil_iff.mpr hplain, hc⟩
    | group c honly hfield hitems h =>
      have hkeys := (logicalKeys_eq_singleton_iff (hword c)).mpr honly
      exact .inr ⟨hfield, .inl ⟨c, hkeys, _, hitems, h⟩⟩
    | not honly hfield hchild h =>
      have hkeys := (logicalKeys_eq_singleton_iff (by decide)).mpr honly
      exact .inr ⟨hfield, .inr ⟨hkeys, _, hchild, h⟩⟩
  · rintro (⟨hplain, hc⟩ | ⟨hfield, ⟨c, honly, items, hitems, h⟩ | ⟨honly, v, hchild, h⟩⟩)
    · exact .condition (logicalKeys_eq_nil_iff.mp hplain) hc
    · exact .group c ((logicalKeys_eq_singleton_iff (hword c)).mp honly) hfield hitems h
    · exact .not ((logicalKeys_eq_singleton_iff (by decide)).mp honly) hfield hchild h

theorem isNode_group_iff {c : Connective} (hkeys : logicalKeys ms = [c.word])
    (hfield : has "field" ms = false) : IsNode (.object ms) ↔
      ∃ items, lookup c.word ms = some (.array items) ∧ ∀ v ∈ items, IsNode v := by
  rw [isNode_object_iff]
  constructor
  · rintro (⟨hnone, -⟩ | ⟨-, ⟨d, hd, hitems⟩ | ⟨hnot, -⟩⟩)
    · simp [hkeys] at hnone
    · obtain rfl : c = d := by
        rw [hkeys] at hd
        revert hd
        cases c <;> cases d <;> decide
      exact hitems
    · rw [hkeys] at hnot
      cases c <;> simp [Connective.word] at hnot
  · exact fun hitems => .inr ⟨hfield, .inl ⟨c, hkeys, hitems⟩⟩

end Request

end EquityScreen
