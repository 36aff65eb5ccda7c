import EquityScreen.Statement

/-!
Stores answer statements with rows. A computation against a store is kept together with the
statements it put, in order, so that what was asked is a value like what was answered.
-/

namespace EquityScreen

inductive StoreError where
  | poisoned
  | refused (reason : String)
  deriving DecidableEq, Repr

def StoreError.message : StoreError → String
  | poisoned => "store connection lock poisoned"
  | refused reason => "sqlite: " ++ reason

abbrev Store (α : Type) := Statement α → Except StoreError (List (Row α))

/-- A result and the statements that were put on the way to it. -/
structure Traced (α ε β : Type) where
  asked : List (Statement α)
  result : Except ε β

namespace Traced

variable {α ε β γ : Type}

def ofResult (r : Except ε β) : Traced α ε β := ⟨[], r⟩

def bind (x : Traced α ε β) (f : β → Traced α ε γ) : Traced α ε γ :=
  match x.result with
  | .ok b => ⟨x.asked ++ (f b).asked, (f b).result⟩
  | .error e => ⟨x.asked, .error e⟩

instance : Monad (Traced α ε) where
  pure b := ofResult (.ok b)
  bind := bind

def mapError {ε' : Type} (f : ε → ε') (x : Traced α ε β) : Traced α ε' β :=
  ⟨x.asked, x.result.mapError f⟩

def ask (store : Store α) (s : Statement α) : Traced α StoreError (List (Row α)) := ⟨[s], store s⟩

end Traced

end EquityScreen
