import EquityScreen.Database.Answer
import EquityScreen.Proofs.SelectionNames

namespace EquityScreen

open Sql

namespace Sql

def columnName (w : String) : String := ((mention? w).map (·.2)).getD (unquoted w)

def outputNames (text : String) : List String :=
  (((tokens text).tail.takeWhile (· ≠ "FROM")).splitOn ",").map fun item =>
    columnName (item.getLastD "")

theorem tokens_intercalate {texts : List String} :
    tokens (String.intercalate ", " texts) = [","].intercalate (texts.map tokens) := by
  induction texts with
  | nil => rfl
  | cons t rest ih =>
    cases rest with
    | nil => simp
    | cons u rest =>
      have hcomma : tokens ", " = [","] := by decide
      rw [String.intercalate_cons_cons, String.append_assoc,
        tokens_append (.inl (startsApart_ofList_append (by decide) _ _)),
        tokens_append (.inr (by decide)), ih, hcomma]
      simp only [List.map_cons, List.intercalate_cons_cons, List.append_assoc]

theorem mem_intercalate {α : Type} {separator w : α} {items : List (List α)}
    (h : w ∈ [separator].intercalate items) : w = separator ∨ ∃ item ∈ items, w ∈ item := by
  induction items with
  | nil => cases h
  | cons item rest ih =>
    cases rest with
    | nil => exact .inr ⟨item, by simp, by simpa using h⟩
    | cons next rest =>
      rw [List.intercalate_cons_cons, List.mem_append, List.mem_append] at h
      obtain (h | h) | h := h
      · exact .inr ⟨item, by simp, h⟩
      · exact .inl (List.mem_singleton.mp h)
      · exact (ih h).imp_right fun ⟨i, hi, hw⟩ => ⟨i, List.mem_cons_of_mem _ hi, hw⟩

/-- A text in a list of items: it is called by its last word, and none of its words ends it. -/
structure Shows (text name : String) : Prop where
  apart : ∀ w ∈ tokens text, w ≠ "," ∧ w ≠ "FROM"
  called : columnName ((tokens text).getLastD "") = name

theorem outputNames_items {items : List (String × String)} (hne : items ≠ [])
    (h : ∀ i ∈ items, Shows i.1 i.2) {rest : String}
    (hr : (tokens rest).head? = some "FROM") (hs : startsApart rest.toList = true) :
    outputNames ("SELECT " ++ (String.intercalate ", " (items.map (·.1)) ++ rest)) =
      items.map (·.2) := by
  have hselect : tokens "SELECT " = ["SELECT"] := by decide
  have hwords : ∀ w ∈ [","].intercalate ((items.map (·.1)).map tokens),
      decide (w ≠ "FROM") = true := by
    intro w hw
    rw [decide_eq_true_iff]
    rcases mem_intercalate hw with rfl | ⟨words, hwords, hw⟩
    · decide
    · rw [List.map_map] at hwords
      obtain ⟨i, hi, rfl⟩ := List.mem_map.mp hwords
      exact ((h i hi).apart w hw).2
  have hrest : (tokens rest).takeWhile (· ≠ "FROM") = [] := by
    obtain ⟨more, hmore⟩ := List.head?_eq_some_iff.mp hr
    simp [hmore]
  have hapart : ∀ words ∈ (items.map (·.1)).map tokens, "," ∉ words := by
    simp only [List.forall_mem_map]
    exact fun i hi hcomma => ((h i hi).apart _ hcomma).1 rfl
  rw [outputNames, tokens_append (.inr (by decide)), tokens_append (.inl hs), hselect,
    tokens_intercalate, List.singleton_append, List.tail_cons, List.takeWhile_append_of_pos hwords,
    hrest, List.append_nil, List.splitOn_intercalate _ hapart (by simpa using hne), List.map_map,
    List.map_map]
  refine List.map_congr_left fun i hi => ?_
  rw [Function.comp_apply, Function.comp_apply, (h i hi).called]

end Sql

namespace Selection

variable {names : TableNames}

theorem ne_from_of_mention? {w : String} {m : String × String} (h : mention? w = some m) :
    w ≠ "FROM" := by
  have hnone : mention? "FROM" = none := by decide
  rintro rfl
  rw [hnone] at h
  cases h

theorem shows_base : ∀ column ∈ baseColumns, Shows (columnText .company column) column := by
  intro column hc
  obtain ⟨hword, hmention⟩ := columnText_spec .company (base_mem_columns column hc)
  have hcomma : columnText .company column ≠ "," := hword.ne (by decide)
  constructor
  case apart => simpa [tokens_word hword] using ⟨hcomma, ne_from_of_mention? hmention⟩
  case called => simp [tokens_word hword, columnName, hmention]

theorem shows_shownText {f : Field} (hf : f ∈ catalog) : Shows (shownText f) f.name := by
  obtain ⟨hword, hmention⟩ := columnText_spec f.source (column_mem_columns f hf)
  obtain ⟨hname, hinert, hback⟩ := quoted_spec (isPlain_name f hf)
  have htokens : tokens (shownText f) = [columnText f.source f.column, "AS", quoted f.name] := by
    rw [shownText, String.append_assoc,
      tokens_append (.inl (startsApart_ofList_append (by decide) _ _)),
      tokens_ofList_append (by decide), tokens_word hword, tokens_word hname]
    rfl
  have hcomma {w : String} (hw : IsWord w) : w ≠ "," := hw.ne (by decide)
  constructor
  case apart =>
    rw [htokens]
    simpa using ⟨⟨hcomma hword, ne_from_of_mention? hmention⟩, hcomma hname, hinert.1⟩
  case called =>
    have hcalled : columnName (quoted f.name) = unquoted (quoted f.name) := by
      simp [columnName, hinert.2.2]
    rw [htokens]
    exact hcalled.trans hback

theorem head?_clauseText (names : TableNames) (t : String) :
    (tokens (clauseText names "FROM" .company ++ t)).head? = some "FROM" := by
  have happend : clauseText names "FROM" .company ++ t =
      " " ++ ("FROM" ++ (" " ++ ((quotedTable (names.physical .companies) ++
        (" AS " ++ quoted Source.company.letter)) ++ t))) := by
    simp only [clauseText, String.append_assoc, Source.table]
  rw [happend, tokens_around (by decide) (by decide) (startsApart_ofList_append (by decide) _ _)]
  rfl

def items (s : Selection) : List (String × String) :=
  baseColumns.map (fun column => (columnText .company column, column)) ++
    s.shown.map fun f => (shownText f, f.name)

/-- A selection yields columns under the names of its fields, after the base columns. -/
theorem outputNames_text {s : Selection} (hs : ∀ f ∈ s.shown, f ∈ catalog) :
    outputNames (s.text names) = baseColumns ++ s.shown.map (·.name) := by
  have hne : s.items ≠ [] := List.append_ne_nil_of_left_ne_nil (List.cons_ne_nil _ _) _
  have hshows : ∀ i ∈ s.items, Shows i.1 i.2 := by
    simp only [items, List.forall_mem_append, List.forall_mem_map]
    exact ⟨shows_base, fun f hf => shows_shownText (hs f hf)⟩
  have h := outputNames_items hne hshows (head?_clauseText names _)
    (startsApart_clauseText _ _
      (String.join (s.joins.map (joinText names)) ++ (s.conditionText names ++ s.ending)))
  simpa only [items, text_eq, opening_eq, String.append_assoc, List.map_append, List.map_map,
    Function.comp_def, List.map_id'] using h

theorem names_shownRow {α : Type} (s : Selection) (c : Candidate α) :
    (Database.shownRow s c).map (·.1) = baseColumns ++ s.shown.map (·.name) := by
  simp [Database.shownRow, Function.comp_def]

end Selection

end EquityScreen
