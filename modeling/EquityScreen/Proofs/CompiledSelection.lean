import EquityScreen.Proofs.CompiledTree

namespace EquityScreen.Compilation

variable {α : Type} [Quantity α]

def selectionOf (s : Settings) (q : Query α) (g : Fragment α) (order : List OrderKey) : Selection :=
  { shown := (referenced q).filter fun d => !baseColumns.contains d.name
    joins := joinsOf (referenced q)
    condition := g.predicate
    order := orderOrTicker order
    limit := if g.derived.isEmpty then some (q.limit.getD s.defaultLimit) else none }

def queryOf (s : Settings) (q : Query α) (g : Fragment α) (order : List OrderKey) :
    CompiledQuery α :=
  ⟨selectionOf s q g order, g.params, g.derived, q.limit.getD s.defaultLimit⟩

theorem compile_eq_ok (s : Settings) (q : Query α) (c : CompiledQuery α) :
    compile s q = .ok c ↔ Validation.validateQuery s q = .ok () ∧
      ∃ g order, compileNode s.maxWindowLength 1 true q.filter = .ok g ∧
        orderOf (α := α) q.sort = .ok order ∧
        checkPlaceholders (α := α) ((selectionOf s q g order).text s.tables) g.params.length =
          .ok () ∧
        c = queryOf s q g order := by
  unfold compile
  simp only [bind_eq_ok, mapError_eq_ok, pure, Except.pure, Except.ok.injEq]
  constructor
  · rintro ⟨⟨⟩, hv, g, hg, order, ho, ⟨⟩, hp, rfl⟩
    exact ⟨hv, g, order, hg, ho, hp, rfl⟩
  · rintro ⟨hv, g, order, hg, ho, hp, rfl⟩
    exact ⟨(), hv, g, hg, order, ho, (), hp, rfl⟩

end EquityScreen.Compilation
