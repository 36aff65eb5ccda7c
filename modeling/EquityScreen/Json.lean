namespace EquityScreen

inductive Json (α : Type) where
  | null
  | bool (b : Bool)
  | int (n : Int)
  | real (x : α)
  | text (s : String)
  | array (items : List (Json α))
  | object (members : List (String × Json α))

namespace Json

variable {α : Type}

def text? : Json α → Option String
  | .text s => some s
  | _ => none

def flag? : Json α → Option Bool
  | .bool b => some b
  | _ => none

/-- The value of a key: a repeated key means its last value. -/
def lookup (key : String) : List (String × Json α) → Option (Json α)
  | [] => none
  | (k, v) :: rest => match lookup key rest with
    | some later => some later
    | none => if k = key then some v else none

def has (key : String) (members : List (String × Json α)) : Bool := (lookup key members).isSome

theorem sizeOf_lt_of_lookup {key : String} {members : List (String × Json α)} {v : Json α}
    (h : lookup key members = some v) : sizeOf v < sizeOf members := by
  induction members with
  | nil => simp [lookup] at h
  | cons m rest ih =>
    obtain ⟨k, w⟩ := m
    simp only [lookup] at h
    split at h
    · next later hl =>
      cases h
      have := ih hl
      simp only [List.cons.sizeOf_spec]
      omega
    · split at h
      · cases h
        simp only [List.cons.sizeOf_spec, Prod.mk.sizeOf_spec]
        omega
      · cases h

/-- The members that remain when every repeated key keeps its first place and its last value. -/
def settle (members : List (String × Json α)) : List (String × Json α) :=
  members.foldl (fun kept m =>
    if kept.any (·.1 = m.1) then kept.map fun k => if k.1 = m.1 then m else k else kept ++ [m]) []

def repeatsKey : List (String × Json α) → Bool
  | [] => false
  | (k, _) :: rest => rest.any (·.1 = k) || repeatsKey rest

end Json

end EquityScreen
