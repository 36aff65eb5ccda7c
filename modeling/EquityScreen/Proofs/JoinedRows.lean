import EquityScreen.Proofs.SoundDatabase
import Mathlib.Data.List.Basic

namespace EquityScreen.Database

variable {α : Type} [Quantity α] {names : TableNames} {db : Database α}

/-- The relation under the physical name of a table has the columns of the table. -/
def Provides (names : TableNames) (db : Database α) (t : Table) : Prop :=
  ∃ r ∈ db, db.relation? (names.physical t) = some r ∧ r.columns = Schema.columns t

/-- The row that is joined for a company; an empty one if there is none. -/
def joinedRow (names : TableNames) (db : Database α) (s : Source) (company : Row α) : Row α :=
  (outer (db.joinedRows names s company)).headD []

/-- A company with all that can be joined for it. -/
def fullCandidate (names : TableNames) (db : Database α) (company : Row α) : Candidate α :=
  ⟨company, db.joinedRow names .fundamentals company, db.joinedRow names .ownership company⟩

omit [Quantity α] in
theorem rows_eq {name : String} {r : Relation α} (h : db.relation? name = some r) :
    db.rows name = r.rows := by
  simp [rows, h]

theorem IsSound.company_unique (hdb : db.IsSound) (hp : db.Provides names .companies)
    {a b : Row α} (ha : a ∈ db.rows (names.physical .companies))
    (hb : b ∈ db.rows (names.physical .companies)) {ticker : String}
    (hta : Row.get a tickerColumn = .text ticker) (htb : Row.get b tickerColumn = .text ticker) :
    a = b := by
  obtain ⟨r, hr, hfound, hcolumns⟩ := hp
  have hrows : db.rows (names.physical .companies) = r.rows := rows_eq hfound
  rw [hrows] at ha hb
  refine (hdb r hr).eq_of_share ha hb fun c hc => ?_
  have hkey : r.keyColumns = [tickerColumn] := by
    rw [Relation.keyColumns, hcolumns]
    rfl
  rw [hkey] at hc
  obtain rfl := List.mem_singleton.mp hc
  exact ⟨ticker, hta, htb⟩

theorem ticker_of_sameTicker {company row : Row α} {ticker : String}
    (hc : Row.get company tickerColumn = .text ticker) (h : sameTicker company row = true) :
    Row.get row tickerColumn = .text ticker := by
  rw [sameTicker, hc] at h
  exact Cell.equals_text.mp h

/-- Rows of the newest quarter name the same period. -/
theorem IsSound.period_unique (hdb : db.IsSound) {r : Relation α} (hr : r ∈ db)
    (hcolumns : r.columns = Schema.columns .quarterly) {company a b : Row α}
    (ha : a ∈ newestQuarters r.rows company) (hb : b ∈ newestQuarters r.rows company) :
    ∃ s, Row.get a (periodColumn .quarterly) = .text s ∧
      Row.get b (periodColumn .quarterly) = .text s := by
  obtain ⟨hown, hnewest⟩ := List.mem_filter.mp ha
  obtain ⟨hown', hnewest'⟩ := List.mem_filter.mp hb
  have htext {row : Row α} (hrow : row ∈ r.rows.filter (sameTicker company)) :
      Row.get row (periodColumn .quarterly) = .null ∨
        ∃ s, Row.get row (periodColumn .quarterly) = .text s := by
    have hcolumn : r.columns.find? (fun c => c.name = periodColumn .quarterly) =
        some ⟨periodColumn .quarterly, .text, true, 2⟩ := by
      rw [hcolumns]
      rfl
    exact (hdb r hr).text_or_null (List.mem_filter.mp hrow).1 hcolumn rfl
  obtain hnull | ⟨s, hs⟩ := htext hown
  · simp [hnull, Cell.equals, Cell.compare?, Cell.isNull] at hnewest
  · rw [hs, Cell.text_equals] at hnewest
    rw [hnewest, Cell.equals_text] at hnewest'
    exact ⟨s, hs, hnewest'⟩

theorem IsSound.share_joinedRows (hdb : db.IsSound) {r : Relation α} (hr : r ∈ db) {s : Source}
    (hfound : db.relation? (names.physical s.table) = some r)
    (hcolumns : r.columns = Schema.columns s.table) {company : Row α} {ticker : String}
    (hc : Row.get company tickerColumn = .text ticker) {a b : Row α}
    (ha : a ∈ db.joinedRows names s company) (hb : b ∈ db.joinedRows names s company) :
    r.Share a b := by
  unfold joinedRows at ha hb
  rw [rows_eq hfound] at ha hb
  have hown {row : Row α} (hrow : row ∈ r.rows.filter (sameTicker company)) :
      Row.get row tickerColumn = .text ticker :=
    ticker_of_sameTicker hc (List.mem_filter.mp hrow).2
  cases s with
  | fundamentals =>
    have hkey : r.keyColumns = [tickerColumn, periodColumn .quarterly] := by
      rw [Relation.keyColumns, hcolumns]
      rfl
    rw [Relation.Share, hkey, List.forall_mem_cons]
    exact ⟨⟨ticker, hown (List.mem_filter.mp ha).1, hown (List.mem_filter.mp hb).1⟩,
      List.forall_mem_singleton.mpr (hdb.period_unique hr hcolumns ha hb)⟩
  | company | ownership =>
    have hkey : r.keyColumns = [tickerColumn] := by
      rw [Relation.keyColumns, hcolumns]
      rfl
    rw [Relation.Share, hkey]
    exact List.forall_mem_singleton.mpr ⟨ticker, hown ha, hown hb⟩

theorem joinedRows_sublist (names : TableNames) (db : Database α) (s : Source) (company : Row α) :
    (db.joinedRows names s company).Sublist (db.rows (names.physical s.table)) := by
  cases s with
  | fundamentals => exact List.filter_sublist.trans List.filter_sublist
  | company | ownership => exact List.filter_sublist

theorem joinedRows_of_null {company : Row α} (hc : Row.get company tickerColumn = .null)
    (s : Source) : db.joinedRows names s company = [] := by
  have hnone (rows : List (Row α)) : rows.filter (sameTicker company) = [] := by
    refine List.filter_eq_nil_iff.mpr fun row _ => ?_
    simp [sameTicker, hc, Cell.equals, Cell.compare?, Cell.isNull]
  cases s with
  | fundamentals => simp [joinedRows, newestQuarters, hnone]
  | company | ownership => simp [joinedRows, hnone]

/-- A company has a text for a ticker unless it has none. -/
def HasTicker (company : Row α) : Prop :=
  Row.get company tickerColumn = .null ∨ ∃ ticker, Row.get company tickerColumn = .text ticker

theorem IsSound.hasTicker (hdb : db.IsSound) (hp : db.Provides names .companies) {company : Row α}
    (h : company ∈ db.rows (names.physical .companies)) : HasTicker company := by
  obtain ⟨r, hr, hfound, hcolumns⟩ := hp
  have hrows : db.rows (names.physical .companies) = r.rows := rows_eq hfound
  rw [hrows] at h
  have hcolumn : r.columns.find? (fun c => c.name = tickerColumn) =
      some ⟨tickerColumn, .text, false, 1⟩ := by
    rw [hcolumns]
    rfl
  exact (hdb r hr).text_or_null h hcolumn rfl

/-- At most one row of a source is joined, however many the source has. -/
theorem IsSound.length_joinedRows (hdb : db.IsSound) {s : Source} (hp : db.Provides names s.table)
    {company : Row α} (hc : HasTicker company) : (db.joinedRows names s company).length ≤ 1 := by
  obtain hnull | ⟨ticker, ht⟩ := hc
  · simp [joinedRows_of_null hnull]
  · obtain ⟨r, hr, hfound, hcolumns⟩ := hp
    have hshare {a b : Row α} (ha : a ∈ db.joinedRows names s company)
        (hb : b ∈ db.joinedRows names s company) : r.Share a b :=
      hdb.share_joinedRows hr hfound hcolumns ht ha hb
    have hdiffer := (hdb r hr).pairwise_not_share.sublist
      (rows_eq hfound ▸ joinedRows_sublist names db s company)
    revert hshare hdiffer
    match db.joinedRows names s company with
    | [] | [_] => simp
    | a :: b :: rest =>
      intro hshare hdiffer
      exact absurd (hshare List.mem_cons_self (List.mem_cons_of_mem _ List.mem_cons_self))
        (List.rel_of_pairwise_cons hdiffer List.mem_cons_self)

theorem IsSound.outer_joinedRows (hdb : db.IsSound) {s : Source} (hp : db.Provides names s.table)
    {company : Row α} (hc : HasTicker company) :
    outer (db.joinedRows names s company) = [db.joinedRow names s company] := by
  have hlength := hdb.length_joinedRows hp hc
  unfold joinedRow
  revert hlength
  match db.joinedRows names s company with
  | [] | [_] => simp [outer]
  | a :: b :: rest => simp

def candidateOf (names : TableNames) (db : Database α) (joins : List Source) (company : Row α) :
    Candidate α :=
  let side (source : Source) : Row α :=
    if joins.contains source then db.joinedRow names source company else []
  ⟨company, side .fundamentals, side .ownership⟩

/-- Every company is one candidate, whatever is joined. -/
theorem IsSound.candidates_eq (hdb : db.IsSound) {s : Selection}
    (hp : ∀ source ∈ Source.company :: s.joins, db.Provides names source.table) :
    db.candidates names s =
      (db.rows (names.physical .companies)).map (db.candidateOf names s.joins) := by
  obtain ⟨hcompany, hjoins⟩ := List.forall_mem_cons.mp hp
  rw [candidates, List.map_eq_flatMap]
  refine List.flatMap_congr fun company hmem => ?_
  have hside (source : Source) :
      (if s.joins.contains source then outer (db.joinedRows names source company) else [[]]) =
        [if s.joins.contains source then db.joinedRow names source company else []] := by
    split
    · next hs =>
      exact hdb.outer_joinedRows (hjoins source (List.contains_iff_mem.mp hs))
        (hdb.hasTicker hcompany hmem)
    · rfl
  simp only [hside, List.flatMap_cons, List.flatMap_nil, List.append_nil, List.map_cons,
    List.map_nil]
  rfl

theorem candidateOf_row {joins : List Source} {source : Source} (hs : source ∈ .company :: joins)
    (company : Row α) :
    (db.candidateOf names joins company).row source =
      (db.fullCandidate names company).row source := by
  cases source with
  | company => rfl
  | fundamentals | ownership =>
    have hjoined := (List.mem_cons.mp hs).resolve_left (by decide)
    exact if_pos (List.contains_iff_mem.mpr hjoined)

theorem select_perm {s : Selection} (hl : s.limit = none) (params : List (Literal α)) :
    (db.select names s params).Perm
      (((db.candidates names s).filter (db.selects names s params)).map (shownRow s)) := by
  simp only [select, hl, takeLimit]
  exact (List.mergeSort_perm _ _).map _

theorem store_eq_ok {st : Statement α} {rows : List (Row α)} :
    db.store names st = .ok rows ↔
      (∀ u ∈ ColumnUse.statement st, db.resolves names u = true) ∧ rows = db.answer names st := by
  unfold store
  cases h : (ColumnUse.statement st).find? fun u => !db.resolves names u with
  | some u =>
    have hmissing := List.find?_some h
    simp only [reduceCtorEq, false_iff, not_and]
    intro hall
    rw [hall u (List.mem_of_find?_eq_some h)] at hmissing
    cases hmissing
  | none =>
    have hall : ∀ u ∈ ColumnUse.statement st, db.resolves names u = true := by simpa using h
    exact ⟨fun hok => ⟨hall, (Except.ok.inj hok).symm⟩, fun hok => congrArg _ hok.2.symm⟩

/-- A column that one table alone has tells which table a relation was created for. -/
theorem IsSound.provides_of_resolves (hdb : db.IsSound) {t : Table} {column : String}
    (honly : ∀ t', ((Schema.columns t').find? fun c => sameName c.name column).isSome = true →
      t' = t) (h : db.resolves names ⟨t, column⟩ = true) : db.Provides names t := by
  unfold resolves at h
  split at h
  · next r hr =>
    have hmem := List.mem_of_find?_eq_some hr
    obtain ⟨t', ht⟩ := (hdb r hmem).columns
    rw [Relation.column?, ht] at h
    exact ⟨r, hmem, hr, honly t' h ▸ ht⟩
  · cases h

end EquityScreen.Database
