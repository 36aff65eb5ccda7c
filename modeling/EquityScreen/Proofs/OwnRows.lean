import EquityScreen.Proofs.CellOrder
import EquityScreen.Proofs.JoinedRows

namespace EquityScreen

variable {α : Type} [Quantity α]

/-- A table with a row for each company and period. -/
def Table.isDated : Table → Bool
  | .companies | .ownership => false
  | .quarterly | .annual | .cashFlows => true

namespace Database

variable {names : TableNames} {db db' : Database α} {t : Table} {ticker : String}

def own (names : TableNames) (db : Database α) (t : Table) (ticker : String) (keep : Row α → Bool) :
    List (Row α) :=
  (db.rows (names.physical t)).filter fun r =>
    (Row.get r tickerColumn).equals (.text ticker) && keep r

theorem mem_own {keep : Row α → Bool} {row : Row α} : row ∈ db.own names t ticker keep ↔
    row ∈ db.rows (names.physical t) ∧ Row.get row tickerColumn = .text ticker ∧
      keep row = true := by
  rw [own, List.mem_filter, Bool.and_eq_true, Cell.equals_text]

/-- Two sound databases with the same rows of a company in every table. Its years are definite: none
is a number that differs from itself, which no file can hold. -/
structure AgreeOn (names : TableNames) (ticker : String) (db db' : Database α) : Prop where
  sound : db.IsSound
  sound' : db'.IsSound
  rows : ∀ t row, Row.get row tickerColumn = .text ticker →
    (row ∈ db.rows (names.physical t) ↔ row ∈ db'.rows (names.physical t))
  years : ∀ row ∈ db.rows (names.physical .annual), Row.get row tickerColumn = .text ticker →
    (Row.get row (periodColumn .annual)).IsDefinite

theorem IsSound.text_period (hdb : db.IsSound) (hp : db.Provides names t)
    (ht : t = .quarterly ∨ t = .cashFlows) {keep : Row α → Bool} {row : Row α}
    (h : row ∈ db.own names t ticker keep) : ∃ s, Row.get row (periodColumn t) = .text s := by
  have hrow := (mem_own.mp h).1
  obtain ⟨r, hr, hfound, hcolumns⟩ := hp
  rw [rows_eq hfound] at hrow
  have hfind : r.columns.find? (fun c => c.name = periodColumn t) =
      some ⟨periodColumn t, .text, true, 2⟩ := by
    rw [hcolumns]
    obtain rfl | rfl := ht <;> rfl
  have hfull := (hdb r hr).complete row hrow _ (List.mem_of_find?_eq_some hfind) rfl
  obtain hnull | htext := (hdb r hr).text_or_null hrow hfind rfl
  · rw [hnull] at hfull
    cases hfull
  · exact htext

theorem IsSound.isDefinite_period (hdb : db.IsSound) (hp : db.Provides names t)
    (ht : t.isDated = true)
    (hyears : ∀ row ∈ db.rows (names.physical .annual), Row.get row tickerColumn = .text ticker →
      (Row.get row (periodColumn .annual)).IsDefinite) {keep : Row α → Bool} {row : Row α}
    (h : row ∈ db.own names t ticker keep) : (Row.get row (periodColumn t)).IsDefinite := by
  have htext (ht : t = .quarterly ∨ t = .cashFlows) :
      (Row.get row (periodColumn t)).IsDefinite := by
    obtain ⟨s, hs⟩ := hdb.text_period hp ht h
    rw [hs]
    exact Cell.isDefinite_text s
  cases t with
  | companies | ownership => cases ht
  | quarterly => exact htext (.inl rfl)
  | cashFlows => exact htext (.inr rfl)
  | annual =>
    obtain ⟨hrow, hticker, -⟩ := mem_own.mp h
    exact hyears row hrow hticker

/-- The rows of a company in a dated table differ in their periods. -/
theorem IsSound.pairwise_periods (hdb : db.IsSound) (hp : db.Provides names t)
    (ht : t.isDated = true) (keep : Row α → Bool) :
    (db.own names t ticker keep).Pairwise fun a b =>
      (Row.get b (periodColumn t)).equals (Row.get a (periodColumn t)) = false := by
  obtain ⟨r, hr, hfound, hcolumns⟩ := hp
  have hkey : r.keyColumns = [tickerColumn, periodColumn t] := by
    rw [Relation.keyColumns, hcolumns]
    cases t with
    | companies | ownership => cases ht
    | quarterly | annual | cashFlows => rfl
  have hrows : db.rows (names.physical t) = r.rows := rows_eq hfound
  have hsub : (db.own names t ticker keep).Sublist r.rows := hrows ▸ List.filter_sublist
  have hkeys := (hdb r hr).keys.sublist hsub
  refine hkeys.imp_of_mem fun {a b} ha hb hab => ?_
  have hticker : (Row.get b tickerColumn).equals (Row.get a tickerColumn) = true := by
    rw [(mem_own.mp ha).2.1, (mem_own.mp hb).2.1]
    exact Cell.equals_text.mpr rfl
  simpa [Relation.sameKey, hkey, hticker] using hab

namespace AgreeOn

theorem symm (h : AgreeOn names ticker db db') : AgreeOn names ticker db' db where
  sound := h.sound'
  sound' := h.sound
  rows t row ht := (h.rows t row ht).symm
  years row hrow ht := h.years row ((h.rows .annual row ht).mpr hrow) ht

theorem nodup_own (h : AgreeOn names ticker db db') (hp : db.Provides names t)
    (ht : t.isDated = true) (keep : Row α → Bool) : (db.own names t ticker keep).Nodup :=
  (h.sound.pairwise_periods hp ht keep).imp_of_mem fun ha _ hab heq => by
    have hdef : (Row.get _ (periodColumn t)).equals (Row.get _ (periodColumn t)) = true :=
      h.sound.isDefinite_period hp ht h.years ha
    rw [← heq, hdef] at hab
    cases hab

theorem own_perm (h : AgreeOn names ticker db db') (hp : db.Provides names t)
    (hp' : db'.Provides names t) (ht : t.isDated = true) (keep : Row α → Bool) :
    (db.own names t ticker keep).Perm (db'.own names t ticker keep) := by
  refine (List.perm_ext_iff_of_nodup (h.nodup_own hp ht keep) (h.symm.nodup_own hp' ht keep)).mpr
    fun row => ?_
  rw [mem_own, mem_own]
  exact ⟨fun ⟨hmem, hown⟩ => ⟨(h.rows t row hown.1).mp hmem, hown⟩,
    fun ⟨hmem, hown⟩ => ⟨(h.rows t row hown.1).mpr hmem, hown⟩⟩

/-- From the newest to the oldest the rows of the company are the same. -/
theorem newestFirst_own [Quantity.IsExact α] (h : AgreeOn names ticker db db')
    (hp : db.Provides names t) (hp' : db'.Provides names t) (ht : t.isDated = true)
    (keep : Row α → Bool) :
    newestFirst (periodColumn t) (db.own names t ticker keep) =
      newestFirst (periodColumn t) (db'.own names t ticker keep) :=
  newestFirst_eq_of_perm (h.own_perm hp hp' ht keep)
    (fun _ hrow => h.sound.isDefinite_period hp ht h.years hrow)
    (h.sound.pairwise_periods hp ht keep)

theorem values_eq [Quantity.IsExact α] (h : AgreeOn names ticker db db') (w : Trailing)
    (hp : db.Provides names w.unit.table) (hp' : db'.Provides names w.unit.table) {c : Candidate α}
    (hc : c.ticker = .text ticker) :
    w.values (db.history names) c = w.values (db'.history names) c := by
  have hdated : w.unit.table.isDated = true := by cases w.unit <;> rfl
  have hnewest := h.newestFirst_own hp hp' hdated fun r => !(Row.get r w.column).isNull
  unfold Trailing.values
  rw [hc]
  exact congrArg (fun rows => ((rows.take w.length).map (Row.get · w.column)).reverse) hnewest

theorem newestOf_eq [Quantity.IsExact α] (h : AgreeOn names ticker db db')
    (hp : db.Provides names t) (hp' : db'.Provides names t) (ht : t.isDated = true)
    (columns : List String) (length : Nat) (keep : Row α → Bool) :
    db.newestOf names t columns ticker length keep =
      db'.newestOf names t columns ticker length keep :=
  congrArg (fun rows => (rows.take length).map fun r => Row.project r (periodColumn t :: columns))
    (h.newestFirst_own hp hp' ht keep)

end AgreeOn

theorem isLE_order_text (s t : String) :
    (Cell.order (.text s : Cell α) (.text t)).isLE = true ↔ s ≤ t :=
  Ordering.isLE_iff_ne_gt.trans compare_le_iff_le

theorem greater_text (s u : String) : (if (Cell.order (.text s : Cell α) (.text u)).isLE then
    .text u else .text s : Cell α) = .text (max s u) := by
  rw [max_def]
  simp only [isLE_order_text]
  split_ifs <;> rfl

/-- The greatest of some texts does not depend on the order in which they are listed. -/
theorem greatest_eq_of_perm {column : String} {rows rows' : List (Row α)} (h : rows.Perm rows')
    (htext : ∀ row ∈ rows, ∃ s, Row.get row column = .text s) :
    greatest column rows = greatest column rows' := by
  refine h.foldl_eq' (fun a ha b hb m => ?_) Cell.null
  obtain ⟨s, hs⟩ := htext a ha
  obtain ⟨u, hu⟩ := htext b hb
  cases m with
  | text x => simp only [hs, hu, greater_text, max_right_comm]
  | null | flag | int | real =>
    -- whatever is no text gives way to the first text
    have hswap : (.text (max s u) : Cell α) = .text (max u s) := by rw [max_comm]
    simp only [hs, hu, Cell.order, Ordering.isLE_lt, if_true]
    exact (greater_text s u).trans (hswap.trans (greater_text u s).symm)

theorem own_eq_filter {company : Row α} (hc : Row.get company tickerColumn = .text ticker) :
    (db.rows (names.physical t)).filter (sameTicker company) =
      db.own names t ticker fun _ => true := by
  simp only [own, Bool.and_true, ← hc]
  rfl

omit [Quantity α] in
theorem eq_of_length_le_one {rows rows' : List (Row α)} (h : rows.length ≤ 1)
    (h' : rows'.length ≤ 1) (hmem : ∀ row, row ∈ rows ↔ row ∈ rows') : rows = rows' := by
  match rows, rows' with
  | [], [] => rfl
  | [], b :: _ => exact absurd ((hmem b).mpr List.mem_cons_self) List.not_mem_nil
  | a :: _, [] => exact absurd ((hmem a).mp List.mem_cons_self) List.not_mem_nil
  | [a], [b] => rw [List.mem_singleton.mp ((hmem a).mp (List.mem_singleton.mpr rfl))]

theorem candidateOf_congr {joins : List Source} {company : Row α}
    (h : ∀ s ∈ joins, db.joinedRow names s company = db'.joinedRow names s company) :
    db.candidateOf names joins company = db'.candidateOf names joins company := by
  have hside (s : Source) :
      (if joins.contains s then db.joinedRow names s company else []) =
        if joins.contains s then db'.joinedRow names s company else [] := by
    split
    · next hs => exact h s (List.contains_iff_mem.mp hs)
    · rfl
  simp only [candidateOf, hside]

namespace AgreeOn

theorem joinedRow_eq (h : AgreeOn names ticker db db') {s : Source} (hp : db.Provides names s.table)
    (hp' : db'.Provides names s.table) {company : Row α}
    (hc : Row.get company tickerColumn = .text ticker) :
    db.joinedRow names s company = db'.joinedRow names s company := by
  have hmem (row : Row α) :
      row ∈ db.joinedRows names s company ↔ row ∈ db'.joinedRows names s company := by
    cases s with
    | company | ownership =>
      simp only [joinedRows, own_eq_filter hc, mem_own]
      exact and_congr_left fun hown => h.rows _ row hown.1
    | fundamentals =>
      have hperm := h.own_perm hp hp' rfl fun _ => true
      have hnewest : greatest (periodColumn .quarterly) _ = greatest (periodColumn .quarterly) _ :=
        greatest_eq_of_perm hperm fun _ hrow => h.sound.text_period hp (.inl rfl) hrow
      simp only [joinedRows, newestQuarters, own_eq_filter hc]
      rw [hnewest]
      exact (hperm.filter _).mem_iff
  rw [joinedRow, joinedRow, eq_of_length_le_one
    (h.sound.length_joinedRows hp (.inr ⟨ticker, hc⟩))
    (h.sound'.length_joinedRows hp' (.inr ⟨ticker, hc⟩)) hmem]

theorem candidateOf_eq (h : AgreeOn names ticker db db') {joins : List Source}
    (hp : ∀ s ∈ joins, db.Provides names s.table ∧ db'.Provides names s.table) {company : Row α}
    (hc : Row.get company tickerColumn = .text ticker) :
    db.candidateOf names joins company = db'.candidateOf names joins company :=
  candidateOf_congr fun s hs => h.joinedRow_eq (hp s hs).1 (hp s hs).2 hc

end AgreeOn

end Database

end EquityScreen
