import EquityScreen.Database
import EquityScreen.Proofs.ProperPredicate
import EquityScreen.Proofs.SqlNames

namespace EquityScreen

namespace Schema

theorem mem_insertSorted {s t : String} {l : List String} :
    t ∈ insertSorted s l ↔ t = s ∨ t ∈ l := by
  induction l with
  | nil => simp [insertSorted]
  | cons u rest ih =>
    unfold insertSorted
    split
    · exact List.mem_cons
    · split
      · next heq => simp [heq]
      · rw [List.mem_cons, ih, List.mem_cons, or_left_comm]

theorem mem_periodicColumns {column : String} :
    column ∈ Schema.periodicColumns ↔ column ∈ EquityScreen.periodicColumns := by
  have hfold (l : List String) : column ∈ l.foldr insertSorted [] ↔ column ∈ l := by
    induction l with
    | nil => rfl
    | cons s rest ih => rw [List.foldr_cons, mem_insertSorted, ih, List.mem_cons]
  exact hfold _

theorem mem_facts {period : Column} {column : String} :
    column ∈ (facts period).map (·.name) ↔
      column = tickerColumn ∨ column = period.name ∨ column ∈ EquityScreen.periodicColumns := by
  simp [facts, cell, mem_periodicColumns, Function.comp_def]

end Schema

theorem mem_columns_of_periodic (unit : WindowUnit) : ∀ column ∈ periodicColumns,
    column ∈ (Schema.columns unit.table).map (·.name) := by
  intro column h
  cases unit <;> exact Schema.mem_facts.mpr (.inr (.inr h))

theorem period_mem_columns (unit : WindowUnit) :
    periodColumn unit.table ∈ (Schema.columns unit.table).map (·.name) := by
  cases unit <;> exact Schema.mem_facts.mpr (.inr (.inl rfl))

theorem ticker_mem_columns (t : Table) : tickerColumn ∈ (Schema.columns t).map (·.name) := by
  cases t <;> exact List.mem_cons_self

theorem column_mem_columns : ∀ f ∈ catalog,
    f.column ∈ (Schema.columns f.source.table).map (·.name) := by
  have hother : ∀ f ∈ catalog, f.isPeriodic = false →
      f.column ∈ (Schema.columns f.source.table).map (·.name) := by
    decide
  intro f hf
  cases hp : f.isPeriodic with
  | false => exact hother f hf hp
  | true =>
    have hs : f.source = .fundamentals := of_decide_eq_true hp
    rw [hs]
    exact mem_columns_of_periodic .quarters _ (mem_periodicColumns hf hp)

theorem isPlain_of_mem_columns (t : Table) : ∀ column ∈ (Schema.columns t).map (·.name),
    Sql.isPlain column = true := by
  have hfacts (period : Column) (hp : Sql.isPlain period.name = true) :
      ∀ column ∈ (Schema.facts period).map (·.name), Sql.isPlain column = true := by
    have hcatalog : ∀ f ∈ catalog, Sql.isPlain f.column = true := by decide +kernel
    intro column h
    obtain rfl | rfl | h := Schema.mem_facts.mp h
    · decide
    · exact hp
    · obtain ⟨f, hf, rfl⟩ := List.mem_map.mp h
      exact hcatalog f (List.mem_filter.mp hf).1
  cases t with
  | companies | ownership | cashFlows => decide
  | quarterly | annual => exact hfacts _ (by decide)

end EquityScreen
