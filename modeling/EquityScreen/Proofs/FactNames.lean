import EquityScreen.Proofs.CandidateVerdicts
import EquityScreen.Proofs.SelectionNames

namespace EquityScreen

namespace Sql

/-- The names in a text so far: the words after `FROM` are tables, and all other quoted words are
columns. -/
structure FlatNames where
  opensTable : Bool
  tables : List String
  columns : List String
  deriving DecidableEq, Repr

def FlatNames.read (r : FlatNames) (w : String) : FlatNames :=
  if r.opensTable then ⟨false, r.tables ++ [unquoted w], r.columns⟩
  else if w = "FROM" then ⟨true, r.tables, r.columns⟩
  else if w.toList.head? = some '"' then ⟨false, r.tables, r.columns ++ [unquoted w]⟩
  else r

/-- The table of a text that reads one table alone, if every column in the text is a column of
it. -/
def flatTable? (created : String → List String) (text : String) : Option String :=
  match (tokens text).foldl FlatNames.read ⟨false, [], []⟩ with
  | ⟨false, [table], columns⟩ => if columns.all (created table).contains then some table else none
  | _ => none

def Lists (text : String) (tables columns : List String) : Prop :=
  ∀ ts cs, (tokens text).foldl FlatNames.read ⟨false, ts, cs⟩ =
    ⟨false, ts ++ tables, cs ++ columns⟩

theorem flatTable?_eq_some {created : String → List String} {text table : String}
    {columns : List String} (h : Lists text [table] columns)
    (hc : ∀ c ∈ columns, c ∈ created table) : flatTable? created text = some table := by
  have hread := h [] []
  have hall : columns.all (created table).contains = true := by simpa using hc
  rw [flatTable?, hread]
  exact if_pos hall

theorem startsApart_append {s t : String} (hs : startsApart s.toList = true)
    (ht : startsApart t.toList = true) : startsApart (s ++ t).toList = true := by
  rw [String.toList_append]
  cases h : s.toList with
  | nil => exact ht
  | cons c rest =>
    rw [h] at hs
    exact hs

namespace Lists

variable {s t : String} {ts us cs ds : List String}

theorem append (hs : Lists s ts cs) (ht : Lists t us ds)
    (h : startsApart t.toList = true ∨ startsApart s.toList.reverse = true) :
    Lists (s ++ t) (ts ++ us) (cs ++ ds) := by
  intro ts' cs'
  rw [tokens_append h, List.foldl_append, hs, ht]
  simp

theorem silent (s : String)
    (h : ∀ w ∈ tokens s, w ≠ "FROM" ∧ w.toList.head? ≠ some '"') : Lists s [] [] := by
  intro ts cs
  generalize tokens s = ws at h
  induction ws with
  | nil => simp
  | cons w ws ih =>
    obtain ⟨⟨hfrom, hquote⟩, hws⟩ := List.forall_mem_cons.mp h
    simpa [FlatNames.read, hfrom, hquote] using ih hws

theorem column {c : String} (hc : isPlain c = true) : Lists (quoted c) [] [c] := by
  intro ts cs
  obtain ⟨hword, ⟨hfrom, -, -⟩, hback⟩ := quoted_spec hc
  have hhead : (quoted c).toList.head? = some '"' := by simp [quoted]
  simp [tokens_word hword, FlatNames.read, hfrom, hhead, hback]

theorem columns (h : ∀ c ∈ cs, isPlain c = true) :
    Lists (String.intercalate ", " (cs.map quoted)) [] cs := by
  induction cs with
  | nil => exact silent "" (by decide)
  | cons c rest ih =>
    obtain ⟨hc, hrest⟩ := List.forall_mem_cons.mp h
    cases rest with
    | nil => simpa using column hc
    | cons d rest =>
      rw [List.map_cons, List.map_cons, String.intercalate_cons_cons, String.append_assoc]
      exact (column hc).append ((silent ", " (by decide)).append (ih hrest) (.inr (by decide)))
        (.inl (startsApart_ofList_append (by decide) _ _))

theorem table {name : String} (hw : IsWord (quotedTable name))
    (hn : unquoted (quotedTable name) = name) : Lists (" FROM " ++ quotedTable name) [name] [] := by
  intro ts cs
  rw [tokens_ofList_append (by decide), tokens_word hw]
  change FlatNames.read (FlatNames.read ⟨false, ts, cs⟩ "FROM") (quotedTable name) = _
  simp [FlatNames.read, hn]

end Lists

end Sql

open Sql

namespace Statement

variable {α : Type} {names : TableNames}

/-- A query for the newest rows of a table takes the columns that it shows, the ticker and the
period from it, and whatever its further condition is about. -/
theorem lists_newestText (hn : names.IsPlain) {t : Table} {columns : List String}
    (hc : ∀ c ∈ columns, c ∈ (Schema.columns t).map (·.name))
    (hp : periodColumn t ∈ (Schema.columns t).map (·.name)) {only : String} {others : List String}
    (ho : Lists only [] others) (hs : startsApart only.toList = true) :
    Lists (newestText (names.physical t) columns (periodColumn t) only) [names.physical t]
      ((periodColumn t :: columns) ++ tickerColumn :: (others ++ [periodColumn t])) := by
  obtain ⟨hword, hname⟩ := hn.quotedTable_spec t
  have hperiod := isPlain_of_mem_columns t _ hp
  have hticker := isPlain_of_mem_columns t _ (ticker_mem_columns t)
  have hshown : ∀ c ∈ periodColumn t :: columns, isPlain c = true :=
    List.forall_mem_cons.mpr ⟨hperiod, fun c h => isPlain_of_mem_columns t c (hc c h)⟩
  have hselect : Lists "SELECT " [] [] := .silent _ (by decide)
  have hwhere : Lists " WHERE " [] [] := .silent _ (by decide)
  have hequal : Lists " = $1" [] [] := .silent _ (by decide)
  have horder : Lists " ORDER BY " [] [] := .silent _ (by decide)
  have hlimit : Lists " DESC LIMIT $2" [] [] := .silent _ (by decide)
  have hending := horder.append ((Lists.column hperiod).append hlimit (.inl (by decide)))
    (.inr (by decide))
  have hend : startsApart (" ORDER BY " ++ (quoted (periodColumn t) ++ " DESC LIMIT $2")).toList =
      true := startsApart_ofList_append (by decide) _ _
  have hcondition := hequal.append (ho.append hending (.inl hend))
    (.inl (startsApart_append hs hend))
  have hfilter := hwhere.append ((Lists.column hticker).append hcondition
    (.inl (startsApart_ofList_append (by decide) _ _))) (.inr (by decide))
  have htable := (Lists.table hword hname).append hfilter
    (.inl (startsApart_ofList_append (by decide) _ _))
  have h := hselect.append ((Lists.columns hshown).append htable (.inl (by
    rw [String.append_assoc]
    exact startsApart_ofList_append (by decide) _ _))) (.inr (by decide))
  unfold newestText
  simpa only [List.nil_append, List.append_nil, List.singleton_append, List.cons_append,
    String.append_assoc] using h

/-- A query for facts reads the table of its unit, and one for cash flows the table of these. -/
def IsOf (t : Table) : Statement α → Prop
  | .candidates _ _ => False
  | .facts unit columns _ _ =>
    t = unit.table ∧ ∀ c ∈ columns, c ∈ (Schema.columns unit.table).map (·.name)
  | .cashFlows _ _ => t = .cashFlows

theorem flatTable?_text (hd : names.AreDistinct) (hn : names.IsPlain) {t : Table}
    {st : Statement α} (h : st.IsOf t) :
    flatTable? (createdColumns names) (st.text names) = some (names.physical t) := by
  cases st with
  | candidates s params => exact h.elim
  | facts unit columns ticker length =>
    obtain ⟨rfl, hc⟩ := h
    have hp := period_mem_columns unit
    refine flatTable?_eq_some (lists_newestText hn hc hp (.silent "" (by decide)) rfl) ?_
    rw [TableNames.createdColumns_physical hd, List.forall_mem_append, List.forall_mem_cons,
      List.forall_mem_cons]
    exact ⟨⟨hp, hc⟩, ticker_mem_columns unit.table, List.forall_mem_singleton.mpr hp⟩
  | cashFlows ticker length =>
    obtain rfl := h
    have hflow : cashFlowColumn ∈ (Schema.columns .cashFlows).map (·.name) := by decide
    have hp : periodColumn .cashFlows ∈ (Schema.columns .cashFlows).map (·.name) := by decide
    have honly : Lists (" AND " ++ quoted cashFlowColumn ++ " IS NOT NULL") []
        [cashFlowColumn] := by
      have hand : Lists " AND " [] [] := .silent _ (by decide)
      have hnull : Lists " IS NOT NULL" [] [] := .silent _ (by decide)
      rw [String.append_assoc]
      exact hand.append ((Lists.column (isPlain_of_mem_columns _ _ hflow)).append hnull
        (.inl (by decide))) (.inr (by decide))
    have hlists := lists_newestText hn (List.forall_mem_singleton.mpr hflow) hp honly (by decide)
    refine flatTable?_eq_some hlists ?_
    rw [TableNames.createdColumns_physical hd]
    decide

end Statement

namespace Traced

variable {α β γ ε ε' : Type} {P : Statement α → Prop} {x : Traced α ε β}

def AsksOnly (P : Statement α → Prop) (x : Traced α ε β) : Prop := ∀ st ∈ x.asked, P st

namespace AsksOnly

theorem ofResult (r : Except ε β) : AsksOnly P (Traced.ofResult r) := by
  simp [AsksOnly, Traced.ofResult]

theorem ask {store : Store α} {st : Statement α} (h : P st) : AsksOnly P (Traced.ask store st) :=
  List.forall_mem_singleton.mpr h

theorem mapError {f : ε → ε'} (h : AsksOnly P x) : AsksOnly P (x.mapError f) := h

theorem bind {f : β → Traced α ε γ} (hx : AsksOnly P x) (hf : ∀ b, AsksOnly P (f b)) :
    AsksOnly P (x >>= f) := by
  change AsksOnly P (Traced.bind x f)
  unfold Traced.bind
  cases x.result with
  | error e => exact hx
  | ok b => exact List.forall_mem_append.mpr ⟨hx, hf b⟩

end AsksOnly

end Traced

namespace Resolution

open Traced

variable {α : Type} {store : Store α} {historyLength : Nat}

theorem columnsOf_mem_periodicColumns (m : MetricName) : ∀ c ∈ columnsOf m,
    c ∈ periodicColumns := by
  cases m <;> decide +kernel

def IsForMetric (st : Statement α) : Prop := ∃ t, st.IsOf t

theorem facts_isForMetric (unit : WindowUnit) (m : MetricName) (ticker : String) (length : Nat) :
    IsForMetric (.facts unit (columnsOf m) ticker length : Statement α) :=
  ⟨unit.table, rfl, fun c hc =>
    mem_columns_of_periodic unit c (columnsOf_mem_periodicColumns m c hc)⟩

theorem cashFlows_isForMetric (ticker : String) (length : Nat) :
    IsForMetric (.cashFlows ticker length : Statement α) := ⟨.cashFlows, rfl⟩

section

variable {P : Statement α → Prop} {ticker : String}

theorem asksOnly_fetch {m : MetricName} {unit : WindowUnit} {length : Nat}
    (hfacts : P (.facts unit (columnsOf m) ticker length)) (hflows : P (.cashFlows ticker length)) :
    AsksOnly P (fetch store ticker m unit length) := by
  unfold fetch
  refine (AsksOnly.ask hfacts).mapError.bind fun rows => ?_
  split
  · exact (AsksOnly.ask hflows).mapError.bind fun _ => .ofResult _
  · exact .ofResult _

variable [Quantity α] {cs : List (CompiledCondition α)}

theorem asksOnly_compute {c : CompiledCondition α} {unit : WindowUnit} {length : Nat}
    (hspan : spanOf historyLength c.window = (unit, length))
    (hfacts : ∀ m, P (.facts unit (columnsOf m) ticker length))
    (hflows : P (.cashFlows ticker length)) :
    AsksOnly P (compute store historyLength ticker c) := by
  unfold compute
  split
  · exact .ofResult _
  · rw [hspan]
    exact (asksOnly_fetch (hfacts _) hflows).bind fun _ => .ofResult _

theorem asksOnly_passesAll (h : ∀ c ∈ cs, AsksOnly P (compute store historyLength ticker c)) :
    AsksOnly P (passesAll store historyLength ticker cs) := by
  induction cs with
  | nil => exact .ofResult _
  | cons c rest ih =>
    obtain ⟨hc, hrest⟩ := List.forall_mem_cons.mp h
    refine hc.bind fun value => ?_
    split
    · exact ih hrest
    · exact .ofResult _

theorem asksOnly_passes
    (h : ∀ ticker, ∀ c ∈ cs, AsksOnly P (compute store historyLength ticker c)) (r : Row α) :
    AsksOnly P (passes store historyLength cs r) := by
  unfold passes
  split
  · exact asksOnly_passesAll (h _)
  · exact .ofResult _

theorem asksOnly_keepPassing
    (h : ∀ ticker, ∀ c ∈ cs, AsksOnly P (compute store historyLength ticker c))
    (candidates : List (Row α)) : AsksOnly P (keepPassing store historyLength cs candidates) := by
  induction candidates with
  | nil => exact .ofResult _
  | cons r rest ih => exact (asksOnly_passes h r).bind fun keep => ih.bind fun kept => .ofResult _

end

variable [Quantity α]

theorem compute_asksOnly (ticker : String) (c : CompiledCondition α) :
    AsksOnly IsForMetric (compute store historyLength ticker c) :=
  asksOnly_compute rfl (fun m => facts_isForMetric _ m ticker _) (cashFlows_isForMetric ticker _)

theorem passesAll_asksOnly (ticker : String) (cs : List (CompiledCondition α)) :
    AsksOnly IsForMetric (passesAll store historyLength ticker cs) :=
  asksOnly_passesAll fun c _ => compute_asksOnly ticker c

theorem resolve_asksOnly (cs : List (CompiledCondition α)) (candidates : List (Row α)) :
    AsksOnly IsForMetric (resolve store historyLength cs candidates) := by
  unfold resolve
  split
  · exact .ofResult _
  · exact asksOnly_keepPassing (fun ticker c _ => compute_asksOnly ticker c) candidates

end Resolution

end EquityScreen
