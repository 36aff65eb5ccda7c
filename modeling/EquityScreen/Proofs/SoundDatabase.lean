import EquityScreen.Database.Answer
import Mathlib.Data.List.Pairwise

namespace EquityScreen

variable {α : Type} [Quantity α]

/-- A relation that was created for a table and has taken rows in. -/
structure Relation.IsSound (r : Relation α) : Prop where
  columns : ∃ t, r.columns = Schema.columns t
  shaped : ∀ row ∈ r.rows, ∃ given, row = r.shape given
  complete : ∀ row ∈ r.rows, ∀ c ∈ r.columns, c.required = true →
    (Row.get row c.name).isNull = false
  keys : r.rows.Pairwise fun a b => r.sameKey b a = false

namespace Relation.IsSound

variable {r r' : Relation α}

theorem empty (name : String) (t : Table) :
    IsSound (⟨name, Schema.columns t, []⟩ : Relation α) where
  columns := ⟨t, rfl⟩
  shaped := by simp
  complete := by simp
  keys := .nil

theorem insert (h : r.IsSound) {given : Row α} (hi : r.insert given = .ok r') : r'.IsSound := by
  unfold Relation.insert at hi
  split at hi
  · cases hi
  · dsimp only at hi
    split at hi
    · cases hi
    · next hrequired =>
      split at hi
      · cases hi
      · next hkey =>
        obtain rfl := Except.ok.inj hi
        simp only [List.find?_eq_none, Bool.and_eq_true, not_and, Bool.not_eq_true] at hrequired
        simp only [List.any_eq_true, not_exists, not_and, Bool.not_eq_true] at hkey
        exact
          { columns := h.columns
            shaped := List.forall_mem_append.mpr
              ⟨h.shaped, List.forall_mem_singleton.mpr ⟨given, rfl⟩⟩
            complete := List.forall_mem_append.mpr
              ⟨h.complete, List.forall_mem_singleton.mpr hrequired⟩
            keys := List.pairwise_append.mpr
              ⟨h.keys, List.pairwise_singleton _ _, fun a ha b hb => by
                obtain rfl := List.mem_singleton.mp hb
                exact hkey a ha⟩ }

theorem clear (h : r.IsSound) : ({ r with rows := [] } : Relation α).IsSound where
  columns := h.columns
  shaped := by simp
  complete := by simp
  keys := .nil

end Relation.IsSound

namespace Database

def IsSound (db : Database α) : Prop := ∀ r ∈ db, r.IsSound

namespace IsSound

variable {db db' : Database α} {name : String}

theorem create (h : db.IsSound) {t : Table} (hc : db.create name (Schema.columns t) = .ok db') :
    db'.IsSound := by
  unfold Database.create at hc
  split at hc
  · cases hc
  · split at hc
    · obtain rfl := Except.ok.inj hc
      exact h
    · obtain rfl := Except.ok.inj hc
      exact List.forall_mem_append.mpr ⟨h, List.forall_mem_singleton.mpr (.empty name t)⟩

theorem createSchema (h : db.IsSound) (names : TableNames) : (db.createSchema names).1.IsSound := by
  unfold Database.createSchema
  generalize Table.all = ts
  induction ts generalizing db with
  | nil => exact h
  | cons t rest ih =>
    unfold createAll
    cases hc : db.create (names.physical t) (Schema.columns t) with
    | ok db' => exact ih (h.create hc)
    | error e => exact h

theorem update (h : db.IsSound) {f : Relation α → Except DatabaseError (Relation α)}
    (hf : ∀ r r', r.IsSound → f r = .ok r' → r'.IsSound) (hu : db.update name f = .ok db') :
    db'.IsSound := by
  unfold Database.update at hu
  split at hu
  · cases hu
  · next r hr =>
    cases hn : f r with
    | error e =>
      rw [hn] at hu
      cases hu
    | ok new =>
      rw [hn] at hu
      obtain rfl := Except.ok.inj hu
      have hnew : new.IsSound := hf r new (h r (List.mem_of_find?_eq_some hr)) hn
      refine List.forall_mem_map.mpr fun old hold => ?_
      split
      · exact hnew
      · exact h old hold

theorem insert (h : db.IsSound) {row : Row α} (hi : db.insert name row = .ok db') : db'.IsSound :=
  h.update (fun _ _ hr => hr.insert) hi

theorem clear (h : db.IsSound) (hc : db.clear name = .ok db') : db'.IsSound := by
  refine h.update (fun r r' hr hf => ?_) hc
  obtain rfl := Except.ok.inj hf
  exact hr.clear

theorem drop (h : db.IsSound) (hd : db.drop name = .ok db') : db'.IsSound := by
  unfold Database.drop at hd
  split at hd
  · cases hd
  · obtain rfl := Except.ok.inj hd
    exact fun r hr => h r (List.mem_filter.mp hr).1

end IsSound

inductive Change (α : Type) where
  | createSchema (names : TableNames)
  | insert (name : String) (row : Row α)
  | clear (name : String)
  | drop (name : String)

/-- A change that is refused leaves the database as it is, but a schema is created as far as it
can be. -/
def Change.apply (db : Database α) : Change α → Database α
  | .createSchema names => (db.createSchema names).1
  | .insert name row => (db.insert name row).toOption.getD db
  | .clear name => (db.clear name).toOption.getD db
  | .drop name => (db.drop name).toOption.getD db

theorem IsSound.apply {db : Database α} (h : db.IsSound) (c : Change α) : (c.apply db).IsSound := by
  have hkept (x : Except DatabaseError (Database α)) (hx : ∀ db', x = .ok db' → db'.IsSound) :
      (x.toOption.getD db).IsSound := by
    cases x with
    | ok db' => exact hx db' rfl
    | error e => exact h
  cases c with
  | createSchema names => exact h.createSchema names
  | insert name row => exact hkept _ fun _ => h.insert
  | clear name => exact hkept _ fun _ => h.clear
  | drop name => exact hkept _ fun _ => h.drop

/-- Whatever changes a new database has gone through, it is sound. -/
theorem isSound_of_changes (changes : List (Change α)) :
    IsSound (changes.foldl Change.apply []) := by
  have hrun (db : Database α) (h : db.IsSound) : (changes.foldl Change.apply db).IsSound := by
    induction changes generalizing db with
    | nil => exact h
    | cons c rest ih => exact ih _ (h.apply c)
  exact hrun [] (by simp [IsSound])

end Database

namespace Cell

theorem equals_text {v : Cell α} {s : String} : v.equals (.text s) = true ↔ v = .text s := by
  cases v with
  | text t => simp [equals, compare?, isNull, order]
  | null | flag | int | real => simp [equals, compare?, isNull, order]

theorem text_equals {v : Cell α} {s : String} :
    (Cell.text s).equals v = true ↔ v = .text s := by
  cases v with
  | text t =>
    rw [Cell.text.injEq, eq_comm (a := t)]
    simp [equals, compare?, isNull, order]
  | null | flag | int | real => simp [equals, compare?, isNull, order]

end Cell

theorem Affinity.text_apply (v : Cell α) :
    Affinity.text.apply v = .null ∨ ∃ s, Affinity.text.apply v = .text s := by
  cases v <;> simp [Affinity.apply, Affinity.unflag, Affinity.toText]

namespace Relation

variable {r : Relation α}

theorem get_shape (given : Row α) {column : String} {c : Column}
    (hc : r.columns.find? (fun c => c.name = column) = some c) :
    Row.get (r.shape given) column = c.affinity.apply (givenCell given c) := by
  have hfound : (r.shape given).find? (fun p => p.1 = column) =
      some (c.name, c.affinity.apply (givenCell given c)) := by
    rw [shape, List.find?_map]
    exact congrArg (Option.map _) hc
  simp [Row.get, Row.get?, hfound]

theorem IsSound.text_or_null (h : r.IsSound) {row : Row α} (hr : row ∈ r.rows) {column : String}
    {c : Column} (hc : r.columns.find? (fun c => c.name = column) = some c)
    (ht : c.affinity = .text) : Row.get row column = .null ∨ ∃ s, Row.get row column = .text s := by
  obtain ⟨given, rfl⟩ := h.shaped row hr
  rw [get_shape given hc, ht]
  exact Affinity.text_apply _

/-- Two rows have the same texts in all columns of the key. -/
def Share (r : Relation α) (a b : Row α) : Prop :=
  ∀ c ∈ r.keyColumns, ∃ s, Row.get a c = .text s ∧ Row.get b c = .text s

theorem IsSound.pairwise_not_share (h : r.IsSound) : r.rows.Pairwise fun a b => ¬ r.Share a b := by
  refine h.keys.imp fun {a b} hab hall => ?_
  have hsame : r.sameKey b a = true := by
    refine List.all_eq_true.mpr fun c hc => ?_
    obtain ⟨s, hs, hs'⟩ := hall c hc
    rw [hs, hs']
    exact Cell.equals_text.mpr rfl
  rw [hab] at hsame
  cases hsame

theorem IsSound.eq_of_share (h : r.IsSound) {a b : Row α} (ha : a ∈ r.rows) (hb : b ∈ r.rows)
    (hkey : r.Share a b) : a = b := by
  have hsymm : Std.Symm fun a b => ¬ r.Share a b :=
    ⟨fun a b hab hba => hab fun c hc => (hba c hc).imp fun s h => h.symm⟩
  by_contra hne
  exact h.pairwise_not_share.forall ha hb hne hkey

end Relation

end EquityScreen
