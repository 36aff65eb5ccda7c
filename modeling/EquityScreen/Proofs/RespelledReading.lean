import EquityScreen.Proofs.ConditionReading
import EquityScreen.Proofs.PayloadReading
import EquityScreen.Proofs.PayloadSpellings

namespace EquityScreen.Request

open Json

variable {α : Type}

/-- Results that are the same value, or both no value. -/
def Agree {β : Type} (r r' : Except PayloadError β) : Prop := ∀ b, r = .ok b ↔ r' = .ok b

section Agreement

variable {β γ : Type} {r r' r'' : Except PayloadError β}

theorem agree_refl (r : Except PayloadError β) : Agree r r := fun _ => Iff.rfl

theorem Agree.symm (h : Agree r r') : Agree r' r := fun b => (h b).symm

theorem Agree.trans (h : Agree r r') (h' : Agree r' r'') : Agree r r'' :=
  fun b => (h b).trans (h' b)

theorem agree_fail (fault fault' : PayloadFault) (path path' : Path) :
    Agree (fail fault path : Except PayloadError β) (fail fault' path') :=
  fun _ => iff_of_false nofun nofun

theorem Agree.bind {k k' : β → Except PayloadError γ} (h : Agree r r')
    (hk : ∀ b, Agree (k b) (k' b)) : Agree (r >>= k) (r' >>= k') := by
  intro c
  rw [bind_eq_ok, bind_eq_ok]
  exact exists_congr fun b => and_congr (h b) (hk b c)

theorem Agree.map (f : β → γ) (h : Agree r r') : Agree (r.map f) (r'.map f) := by
  intro c
  rw [map_eq_ok, map_eq_ok]
  exact exists_congr fun b => and_congr_left fun _ => h b

theorem Agree.error_iff (h : Agree r r') : (∃ e, r = .error e) ↔ ∃ e, r' = .error e := by
  cases r with
  | ok b => simp [(h b).mp rfl]
  | error e =>
    cases r' with
    | ok b => cases (h b).mpr rfl
    | error e' => simp

end Agreement

/-- The values of one key in two spellings: they are related, or there is none, or a null stands
against none where that makes no difference. -/
inductive Faces (related : Json α → Json α → Prop) (optional : Prop) :
    Option (Json α) → Option (Json α) → Prop
  | neither : Faces related optional none none
  | both {v w : Json α} (h : related v w) : Faces related optional (some v) (some w)
  | null (h : optional) : Faces related optional (some .null) none

/-- The same value, or two of a kind from which neither text nor flag nor literal is read. -/
inductive SamePlain : Json α → Json α → Prop
  | refl (v : Json α) : SamePlain v v
  | objects (ms ms' : Members α) : SamePlain (.object ms) (.object ms')
  | arrays (vs ws : List (Json α)) : SamePlain (.array vs) (.array ws)

variable {path path' : Path} {v w : Json α} {ms ms' : Members α} {key key' : String}
  {o o' : Option (Json α)}

theorem Faces.mono {related related' : Json α → Json α → Prop} {optional optional' : Prop}
    (h : Faces related optional o o') (hrelated : ∀ v w, related v w → related' v w)
    (hoptional : optional → optional') : Faces related' optional' o o' := by
  cases h with
  | neither => exact .neither
  | both h => exact .both (hrelated _ _ h)
  | null h => exact .null (hoptional h)

theorem Faces.isSome_eq {related : Json α → Json α → Prop} {optional : Prop}
    (h : Faces related optional o o') (hoptional : ¬ optional) : o.isSome = o'.isSome := by
  cases h with
  | neither | both => rfl
  | null h => exact absurd h hoptional

theorem faces_of_eq {related : Json α → Json α → Prop} {optional : Prop}
    (hrefl : ∀ v, related v v) (h : o = o') : Faces related optional o o' := by
  subst h
  cases o with
  | none => exact .neither
  | some v => exact .both (hrefl v)

theorem agree_optional {β : Type} {read read' : Path → Json α → Except PayloadError β}
    (h : Faces SamePlain True (lookup key ms) (lookup key' ms'))
    (hread : ∀ path path' v w, SamePlain v w → Agree (read path v) (read' path' w)) :
    Agree (optional read ms path key) (optional read' ms' path' key') := by
  unfold Request.optional
  generalize lookup key ms = o at h
  generalize lookup key' ms' = o' at h
  cases h with
  | neither | null => exact agree_refl _
  | @both v w h =>
    have hsame := (hread (path ++ [.key key]) (path' ++ [.key key']) v w h).map some
    cases h with
    | objects | arrays => exact hsame
    | refl =>
      cases v with
      | null => exact agree_refl _
      | _ => exact hsame

theorem agree_optionalOnly {β : Type} {kind : Json α → Option β} {fault fault' : PayloadFault}
    (h : Faces SamePlain True (lookup key ms) (lookup key' ms'))
    (hkind : ∀ v w, SamePlain v w → kind v = kind w) :
    Agree (optional (readOnly kind fault) ms path key)
      (optional (readOnly kind fault') ms' path' key') := by
  refine agree_optional h fun path path' v w hsame => ?_
  unfold readOnly
  rw [hkind v w hsame]
  split
  · exact agree_refl _
  · exact agree_fail _ _ _ _

theorem agree_optionalText (h : Faces SamePlain True (lookup key ms) (lookup key' ms')) :
    Agree (optionalText ms path key) (optionalText ms' path' key') :=
  agree_optionalOnly h fun _ _ hsame => by cases hsame <;> rfl

theorem agree_optionalFlag (h : Faces SamePlain True (lookup key ms) (lookup key' ms')) :
    Agree (optionalFlag ms path key) (optionalFlag ms' path' key') :=
  agree_optionalOnly h fun _ _ hsame => by cases hsame <;> rfl

theorem agree_member {β γ : Type} {read read' : Json α → Except PayloadError β} {absent : β}
    {k k' : β → Except PayloadError γ}
    (h : Faces (fun v w => Agree (read v) (read' w)) (Agree (read .null) (.ok absent))
      (lookup key ms) (lookup key ms'))
    (hk : ∀ b, Agree (k b) (k' b)) :
    Agree
      (match lookup key ms with
        | some v => read v >>= k
        | none => .ok absent >>= k)
      (match lookup key ms' with
        | some v => read' v >>= k'
        | none => .ok absent >>= k') := by
  generalize lookup key ms = o at h
  generalize lookup key ms' = o' at h
  cases h with
  | neither => exact hk absent
  | both h => exact h.bind hk
  | null h => exact h.bind hk

variable [Quantity α]

theorem agree_readLiteral (h : SamePlain v w) :
    Agree (readLiteral path v) (readLiteral path' w) := by
  cases h with
  | objects | arrays => exact agree_fail _ _ _ _
  | refl =>
    cases v with
    | object | array => exact agree_fail _ _ _ _
    | _ => exact agree_refl _

theorem agree_optionalLiteral (h : Faces SamePlain True (lookup key ms) (lookup key' ms')) :
    Agree (optionalLiteral ms path key) (optionalLiteral ms' path' key') :=
  agree_optional h fun _ _ _ _ => agree_readLiteral

theorem agree_readRange (hmin : Faces SamePlain True (lookup "min" ms) (lookup "min" ms'))
    (hmax : Faces SamePlain True (lookup "max" ms) (lookup "max" ms'))
    (hinclusive : Faces SamePlain True (lookup "inclusive" ms) (lookup "inclusive" ms'))
    (hexclusive : Faces SamePlain True (lookup "exclusive" ms) (lookup "exclusive" ms')) :
    Agree (readRange path (.object ms)) (readRange path' (.object ms')) := by
  refine (agree_optionalLiteral hmin).bind fun min => ?_
  refine (agree_optionalLiteral hmax).bind fun max => ?_
  refine (agree_optionalFlag hinclusive).bind fun inclusive => ?_
  exact (agree_optionalFlag hexclusive).bind fun exclusive => agree_refl _

theorem agree_readWindow {unitKey unitKey' lengthKey lengthKey' : String}
    (hunit : Faces SamePlain True (lookup unitKey ms) (lookup unitKey' ms'))
    (hlength : Faces SamePlain True (lookup lengthKey ms) (lookup lengthKey' ms'))
    (haggregation : Faces SamePlain True (lookup "aggregation" ms) (lookup "aggregation" ms')) :
    Agree (readWindow unitKey lengthKey path (.object ms))
      (readWindow unitKey' lengthKey' path' (.object ms')) := by
  refine (agree_optionalText hunit).bind fun unit => ?_
  refine (agree_optionalLiteral hlength).bind fun length => ?_
  exact (agree_optionalText haggregation).bind fun aggregation => agree_refl _

/-- Lists of nodes that are read alike, or two values of a kind that is no list. -/
inductive AlikeNodes : Json α → Json α → Prop
  | arrays {vs ws : List (Json α)}
      (h : ∀ path path' i i', Agree (readNodes path i vs) (readNodes path' i' ws)) :
      AlikeNodes (.array vs) (.array ws)
  | objects (ms ms' : Members α) : AlikeNodes (.object ms) (.object ms')
  | scalar {v : Json α} (h : v.IsScalar) : AlikeNodes v v

def Part.Alike (part : Part) (v w : Json α) : Prop :=
  match part with
  | .payload => Agree (readPayload v) (readPayload w)
  | .node => (∀ path path', Agree (readNode path v) (readNode path' w)) ∧ (v.IsBare ↔ w.IsBare)
  | .nodes => AlikeNodes v w
  | .range => ∀ path path', Agree (readRange path v) (readRange path' w)
  | .window => ∀ path path', Agree (readWindow "type" "length" path v)
      (readWindow "type" "length" path' w)
  | .period => ∀ path path', Agree (readWindow "unit" "last" path v)
      (readWindow "unit" "last" path' w)
  | .sort => ∀ path path', Agree (readSort path v) (readSort path' w)
  | .sortKey => ∀ path path', Agree (readSortKey path v) (readSortKey path' w)

/-- Two values that are read alike whatever they stand for. -/
structure AlikeAnywhere (v w : Json α) : Prop where
  plain : SamePlain v w
  alike : ∀ part : Part, part.Alike v w

def Part.AlikeUnder (part : Part) (key : String) (v w : Json α) : Prop :=
  match part.under? key with
  | some inner => inner.Alike v w
  | none => AlikeAnywhere v w

theorem AlikeAnywhere.under (h : AlikeAnywhere v w) (part : Part) (key : String) :
    part.AlikeUnder key v w := by
  unfold Part.AlikeUnder
  split
  · exact h.alike _
  · exact h

def Part.FacesAt (part : Part) (ms ms' : Members α) (key : String) : Prop :=
  Faces (part.AlikeUnder key) (key ∈ part.optional ms) (lookup key ms) (lookup key ms')

variable {part : Part}

theorem Part.FacesAt.plain {optional : Prop} (h : part.FacesAt ms ms' key)
    (hkey : part.under? key = none) (hoptional : key ∈ part.optional ms → optional) :
    Faces SamePlain optional (lookup key ms) (lookup key ms') := by
  refine h.mono (fun v w hvw => ?_) hoptional
  rw [AlikeUnder, hkey] at hvw
  exact hvw.plain

theorem Part.FacesAt.inner {inner : Part} (h : part.FacesAt ms ms' key)
    (hkey : part.under? key = some inner) (hoptional : key ∉ part.optional ms) :
    Faces inner.Alike False (lookup key ms) (lookup key ms') := by
  refine h.mono (fun v w hvw => ?_) hoptional
  rwa [AlikeUnder, hkey] at hvw

theorem agree_readSpan
    (hwindow : Faces Part.window.Alike False (lookup "window" ms) (lookup "window" ms'))
    (hperiod : Faces Part.period.Alike False (lookup "period" ms) (lookup "period" ms')) :
    Agree (readSpan ms path) (readSpan ms' path') := by
  unfold readSpan
  generalize lookup "window" ms = o at hwindow
  generalize lookup "window" ms' = o' at hwindow
  generalize lookup "period" ms = p at hperiod
  generalize lookup "period" ms' = p' at hperiod
  cases hwindow with
  | null h => exact h.elim
  | neither =>
    cases hperiod with
    | null h => exact h.elim
    | neither => exact agree_refl _
    | both h => exact (h _ _).map some
  | both h =>
    cases hperiod with
    | null h => exact h.elim
    | neither => exact (h _ _).map some
    | both => exact agree_fail _ _ _ _

theorem agree_readCondition (hspan : Agree (readSpan ms path) (readSpan ms' path'))
    (htexts : ∀ key ∈ ["field", "operator", "trend", "on_missing"],
      Faces SamePlain True (lookup key ms) (lookup key ms'))
    (hvalue : Faces SamePlain False (lookup "value" ms) (lookup "value" ms'))
    (hrange : Faces Part.range.Alike False (lookup "range" ms) (lookup "range" ms')) :
    Agree (readCondition ms path) (readCondition ms' path') := by
  refine hspan.bind fun window => ?_
  refine (agree_optionalText (htexts _ (by simp))).bind fun field => ?_
  refine (agree_optionalText (htexts _ (by simp))).bind fun operator => ?_
  refine agree_member (hvalue.mono (fun v w h => (agree_readLiteral h).map some) False.elim)
    fun value => ?_
  refine agree_member (hrange.mono (fun v w h => (h _ _).map some) False.elim) fun range => ?_
  refine (agree_optionalText (htexts _ (by simp))).bind fun trend => ?_
  exact (agree_optionalText (htexts _ (by simp))).bind fun onMissing => agree_refl _

theorem readGroup_eq (c : Connective) (ms : Members α) (path : Path) :
    readGroup c ms path = match lookup c.word ms with
      | some (.array items) => (readNodes (path ++ [.key c.word]) 0 items).map (.group c)
      | _ => fail (.notArray c.word) (path ++ [.key c.word]) := by
  rw [readGroup]
  split
  · next items h => simp only [h]
  · next h =>
    split
    · next items h' => exact absurd h' (h items)
    · rfl

theorem agree_readGroup {c : Connective}
    (h : Faces Part.nodes.Alike False (lookup c.word ms) (lookup c.word ms')) :
    Agree (readGroup c ms path) (readGroup c ms' path') := by
  rw [readGroup_eq, readGroup_eq]
  generalize lookup c.word ms = o at h
  generalize lookup c.word ms' = o' at h
  cases h with
  | neither => exact agree_fail _ _ _ _
  | null h => exact h.elim
  | @both v w h =>
    cases h with
    | arrays h => exact (h _ _ _ _).map _
    | objects => exact agree_fail _ _ _ _
    | scalar hv =>
      cases v with
      | array => cases hv
      | _ => exact agree_fail _ _ _ _

theorem readChild_eq (ms : Members α) (path : Path) :
    readChild ms path = match lookup "not" ms with
      | some v => (readNode (path ++ [.key "not"]) v).map .not
      | none => fail .nodeNotObject path := by
  rw [readChild]
  split
  · next v h => simp only [h]
  · next h => simp only [h]

theorem agree_readChild
    (h : Faces Part.node.Alike False (lookup "not" ms) (lookup "not" ms')) :
    Agree (readChild ms path) (readChild ms' path') := by
  rw [readChild_eq, readChild_eq]
  generalize lookup "not" ms = o at h
  generalize lookup "not" ms' = o' at h
  cases h with
  | neither => exact agree_fail _ _ _ _
  | null h => exact h.elim
  | both h => exact (h.1 _ _).map _

theorem agree_readNode_object (hkeys : logicalKeys ms' = logicalKeys ms)
    (hgroup : ∀ c : Connective,
      Faces Part.nodes.Alike False (lookup c.word ms) (lookup c.word ms'))
    (hnot : Faces Part.node.Alike False (lookup "not" ms) (lookup "not" ms'))
    (hfield : logicalKeys ms ≠ [] → has "field" ms' = has "field" ms)
    (hcondition : logicalKeys ms = [] → Agree (readCondition ms path) (readCondition ms' path')) :
    Agree (readNode path (.object ms)) (readNode path' (.object ms')) := by
  rw [readNode, readNode, hkeys]
  split
  · next hnone => exact (hcondition hnone).map _
  · next word hword =>
    rw [hfield (by simp [hword])]
    split
    · exact agree_fail _ _ _ _
    · split
      · exact agree_readChild hnot
      · exact agree_readGroup (hgroup _)
  · exact agree_fail _ _ _ _

def nodeKeys : List String :=
  ["and", "or", "not", "field", "operator", "value", "range", "trend", "on_missing", "window",
    "period"]

omit [Quantity α] in
theorem not_mem_optional_node (hkey : key ∉ ["field", "operator", "trend", "on_missing"]) :
    key ∉ Part.node.optional ms := by
  rw [Part.optional]
  split
  · exact hkey
  · exact List.not_mem_nil

theorem alike_node_object (h : ∀ key ∈ nodeKeys, Part.node.FacesAt ms ms' key)
    (hbare : has "filter" ms = has "filter" ms') : Part.node.Alike (.object ms) (.object ms') := by
  have hhas : ∀ key ∈ nodeKeys, key ∉ Part.node.optional ms → has key ms' = has key ms :=
    fun key hkey hneeded => ((h key hkey).isSome_eq hneeded).symm
  have hkeys : logicalKeys ms' = logicalKeys ms := by
    refine List.filter_congr fun key hkey => hhas key ?_ (not_mem_optional_node ?_)
    · exact List.mem_append_left _ hkey
    · revert key
      decide
  have hinner {key : String} {inner : Part} (hkey : key ∈ nodeKeys)
      (hunder : Part.node.under? key = some inner)
      (hneeded : key ∉ ["field", "operator", "trend", "on_missing"]) :
      Faces inner.Alike False (lookup key ms) (lookup key ms') :=
    (h key hkey).inner hunder (not_mem_optional_node hneeded)
  refine ⟨fun path path' => agree_readNode_object hkeys (fun c => ?group) ?not ?field
    fun _ => ?condition, ?bare⟩
  case group => cases c <;> exact hinner (by decide) (by decide) (by decide)
  case not => exact hinner (by decide) (by decide) (by decide)
  case field =>
    intro hsome
    apply hhas "field" (by decide)
    simp [Part.optional, hsome]
  case condition =>
    refine agree_readCondition (agree_readSpan ?_ ?_) (fun key hkey => ?_) ?_ ?_
    · exact hinner (by decide) (by decide) (by decide)
    · exact hinner (by decide) (by decide) (by decide)
    · refine (h key ?_).plain ?_ fun _ => trivial <;> revert key <;> decide
    · exact (h _ (by decide)).plain (by decide) (not_mem_optional_node (by decide))
    · exact hinner (by decide) (by decide) (by decide)
  case bare =>
    have hnone (ms : Members α) : lookup "filter" ms = none ↔ has "filter" ms = false := by
      rw [has, Option.isSome_eq_false_iff, Option.isNone_iff_eq_none]
    rw [IsBare, IsBare, hnone, hnone, hbare]

omit [Quantity α] in
theorem agree_readDirection (word : Option String) :
    Agree (readDirection path word) (readDirection path' word) := by
  cases word with
  | none => exact agree_refl _
  | some word =>
    rw [readDirection, readDirection]
    by_cases hasc : word = "asc"
    · rw [if_pos hasc, if_pos hasc]
      exact agree_refl _
    · rw [if_neg hasc, if_neg hasc]
      by_cases hdesc : word = "desc"
      · rw [if_pos hdesc, if_pos hdesc]
        exact agree_refl _
      · rw [if_neg hdesc, if_neg hdesc]
        exact agree_fail _ _ _ _

omit [Quantity α] in
theorem agree_readSortKey (hfield : Faces SamePlain True (lookup "field" ms) (lookup "field" ms'))
    (hdirection : Faces SamePlain True (lookup "direction" ms) (lookup "direction" ms')) :
    Agree (readSortKey path (.object ms)) (readSortKey path' (.object ms')) := by
  refine (agree_optionalText hfield).bind fun field => ?_
  cases field with
  | none => exact agree_fail _ _ _ _
  | some field =>
    refine (agree_optionalText hdirection).bind fun word => ?_
    exact (agree_readDirection word).bind fun direction => agree_refl _

omit [Quantity α] in
theorem agree_readLimit (h : SamePlain v w) : Agree (readLimit path v) (readLimit path' w) := by
  cases h with
  | objects | arrays => exact agree_fail _ _ _ _
  | refl =>
    cases v with
    | null => exact agree_refl _
    | int n =>
      rw [readLimit, readLimit]
      by_cases hn : Width.isUnsigned 64 n = true
      · rw [if_pos hn, if_pos hn]
        exact agree_refl _
      · rw [if_neg hn, if_neg hn]
        exact agree_fail _ _ _ _
    | _ => exact agree_fail _ _ _ _

theorem agree_bare (hv : v.IsBare) :
    Agree (readPayload v) ((readNode [] v).map fun f => ⟨f, [], none⟩) := by
  cases v with
  | object ms =>
    rw [readPayload, show lookup "filter" ms = none from hv]
    cases readNode [] (.object ms) <;> exact agree_refl _
  | _ =>
    rw [readNode]
    · exact agree_fail _ _ _ _
    · rintro _ ⟨⟩

theorem Part.alike_of_bare (hv : v.IsBare) (h : Part.node.Alike v w) : Part.payload.Alike v w :=
  (agree_bare hv).trans (((h.1 [] []).map _).trans (agree_bare (h.2.mp hv)).symm)

theorem agree_readPayload_object (h : ∀ key, Part.payload.FacesAt ms ms' key) :
    Agree (readPayload (.object ms)) (readPayload (.object ms')) := by
  have hfilter : Faces Part.node.Alike False (lookup "filter" ms) (lookup "filter" ms') :=
    (h "filter").inner (by decide) (by simp [Part.optional])
  have hsort : Faces Part.sort.Alike False (lookup "sort" ms) (lookup "sort" ms') :=
    (h "sort").inner (by decide) (by simp [Part.optional])
  have hlimit : Faces SamePlain True (lookup "limit" ms) (lookup "limit" ms') :=
    (h "limit").plain (by decide) fun _ => trivial
  cases hf : lookup "filter" ms with
  | none =>
    have hhas := hfilter.isSome_eq id
    refine Part.alike_of_bare hf (alike_node_object (fun key hkey => ?_) hhas)
    have hunder : Part.payload.under? key = none := by
      revert key
      decide
    refine (h key).mono (fun v w hvw => ?_) fun hoptional => ?_
    · rw [Part.AlikeUnder, hunder] at hvw
      exact hvw.under .node key
    · obtain rfl : key = "limit" := by simpa [Part.optional] using hoptional
      exact absurd hkey (by decide)
  | some f =>
    rw [readPayload, readPayload]
    rw [hf] at hfilter ⊢
    generalize lookup "filter" ms' = o at hfilter
    cases hfilter with
    | null h => exact h.elim
    | both hfilter =>
      refine (hfilter.1 _ _).bind fun filter => ?_
      refine agree_member (hsort.mono (fun v w h => h _ _) False.elim) fun sort => ?_
      refine agree_member (hlimit.mono (fun v w h => agree_readLimit h) fun _ => agree_refl _)
        fun limit => agree_refl _

theorem Part.alike_object (part : Part) (h : ∀ key, part.FacesAt ms ms' key) :
    part.Alike (.object ms) (.object ms') := by
  have hplain {key : String} (hunder : part.under? key = none) :
      Faces SamePlain True (lookup key ms) (lookup key ms') := (h key).plain hunder fun _ => trivial
  cases part with
  | payload => exact agree_readPayload_object h
  | node =>
    refine alike_node_object (fun key _ => h key) ((h "filter").isSome_eq ?_)
    exact not_mem_optional_node (by decide)
  | nodes => exact .objects ms ms'
  | range =>
    exact fun path path' => agree_readRange (hplain rfl) (hplain rfl) (hplain rfl) (hplain rfl)
  | window => exact fun path path' => agree_readWindow (hplain rfl) (hplain rfl) (hplain rfl)
  | period => exact fun path path' => agree_readWindow (hplain rfl) (hplain rfl) (hplain rfl)
  | sort =>
    intro path path'
    rw [readSort_object, readSort_object]
    exact (agree_readSortKey (hplain rfl) (hplain rfl)).map _
  | sortKey => exact fun path path' => agree_readSortKey (hplain rfl) (hplain rfl)

theorem agree_readNodes {vs ws : List (Json α)} (h : List.Forall₂ Part.node.Alike vs ws)
    (path path' : Path) (i i' : Nat) : Agree (readNodes path i vs) (readNodes path' i' ws) := by
  induction h generalizing i i' with
  | nil =>
    rw [readNodes, readNodes]
    exact agree_refl _
  | cons hhead _ ih =>
    rw [readNodes, readNodes]
    refine (hhead.1 _ _).bind fun f => ?_
    exact (ih _ _).bind fun fs => agree_refl _

theorem agree_readSortKeys {vs ws : List (Json α)} (h : List.Forall₂ Part.sortKey.Alike vs ws)
    (path path' : Path) (i i' : Nat) :
    Agree (readSortKeys path i vs) (readSortKeys path' i' ws) := by
  induction h generalizing i i' with
  | nil => exact agree_refl _
  | cons hhead _ ih =>
    refine (hhead _ _).bind fun key => ?_
    exact (ih _ _).bind fun keys => agree_refl _

theorem Part.alike_array (part : Part) {vs ws : List (Json α)}
    (h : ∀ inner, part.item? = some inner → List.Forall₂ inner.Alike vs ws) :
    part.Alike (.array vs) (.array ws) := by
  cases part with
  | payload => exact agree_fail _ _ _ _
  | node =>
    refine ⟨fun path path' => ?_, Iff.rfl⟩
    rw [readNode, readNode]
    · exact agree_fail _ _ _ _
    · rintro _ ⟨⟩
    · rintro _ ⟨⟩
  | nodes => exact .arrays (agree_readNodes (h .node rfl))
  | sort => exact fun path path' => agree_readSortKeys (h .sortKey rfl) path path' 0 0
  | _ => exact fun path path' => agree_fail _ _ _ _

theorem Part.alike_scalar (part : Part) (hv : v.IsScalar) : part.Alike v v := by
  cases part with
  | payload => exact agree_refl _
  | node =>
    refine ⟨fun path path' => ?_, Iff.rfl⟩
    cases v with
    | object | array => cases hv
    | _ =>
      rw [readNode, readNode]
      · exact agree_fail _ _ _ _
      · rintro _ ⟨⟩
      · rintro _ ⟨⟩
  | nodes => exact .scalar hv
  | _ =>
    intro path path'
    cases v with
    | object | array => cases hv
    | _ => exact agree_fail _ _ _ _

/-- A value is read alike at all places. -/
theorem alikeAnywhere_refl : ∀ v : Json α, AlikeAnywhere v v
  | .object ms => by
    refine ⟨.refl _, fun part => part.alike_object fun key => ?_⟩
    unfold Part.FacesAt
    cases h : lookup key ms with
    | none => exact .neither
    | some v =>
      have := sizeOf_lt_of_lookup h
      exact .both ((alikeAnywhere_refl v).under part key)
  | .array items => by
    refine ⟨.refl _, fun part => part.alike_array fun inner _ => ?_⟩
    exact List.forall₂_same.mpr fun v _ => (alikeAnywhere_refl v).alike inner
  | .null | .bool _ | .int _ | .real _ | .text _ => ⟨.refl _, fun part => part.alike_scalar trivial⟩

theorem Part.facesAt_of_eq (part : Part) (h : lookup key ms = lookup key ms') :
    part.FacesAt ms ms' key := faces_of_eq (fun v => (alikeAnywhere_refl v).under part key) h

theorem Part.alike_put (part : Part) (hv : lookup key ms = some v) (h : part.AlikeUnder key v w) :
    part.Alike (.object ms) (.object (put key w ms)) := by
  refine part.alike_object fun other => ?_
  by_cases hother : other = key
  · subst hother
    rw [FacesAt, lookup_put, if_pos rfl, hv]
    exact .both h
  · apply part.facesAt_of_eq
    rw [lookup_put, if_neg hother]

theorem Part.alike_item (part : Part) (before after : List (Json α))
    (h : ∀ inner, part.item? = some inner → inner.Alike v w) :
    part.Alike (.array (before ++ v :: after)) (.array (before ++ w :: after)) := by
  refine part.alike_array fun inner hinner => ?_
  have hrefl (vs : List (Json α)) : List.Forall₂ inner.Alike vs vs :=
    List.forall₂_same.mpr fun u _ => (alikeAnywhere_refl u).alike inner
  exact List.rel_append (hrefl before) (.cons (h inner hinner) (hrefl after))

theorem alikeAnywhere_of_reordered (h : v.Reordered w) : AlikeAnywhere v w := by
  induction h with
  | members h =>
    exact ⟨.objects _ _, fun part => part.alike_object fun key => part.facesAt_of_eq (h.2 key)⟩
  | member hv _ ih => exact ⟨.objects _ _, fun part => part.alike_put hv (ih.under part _)⟩
  | item before after _ ih =>
    exact ⟨.arrays _ _, fun part => part.alike_item before after fun inner _ => ih.alike inner⟩

theorem agree_readSpan_period {ps ws : Members α} (hperiod : lookup "period" ms = some (.object ps))
    (hwindow : lookup "window" ms = none) (hperiod' : lookup "period" ms' = none)
    (hwindow' : lookup "window" ms' = some (.object ws))
    (hunit : lookup "type" ws = lookup "unit" ps) (hlength : lookup "length" ws = lookup "last" ps)
    (haggregation : lookup "aggregation" ws = lookup "aggregation" ps) (path path' : Path) :
    Agree (readSpan ms path) (readSpan ms' path') := by
  unfold readSpan
  rw [hwindow, hperiod, hwindow', hperiod']
  refine (agree_readWindow ?_ ?_ ?_).map some
  · exact faces_of_eq .refl hunit.symm
  · exact faces_of_eq .refl hlength.symm
  · exact faces_of_eq .refl haggregation.symm

/-- A condition may call its period a window. -/
theorem alike_period {ps ws : Members α} (hleaf : logicalKeys ms = [])
    (hperiod : lookup "period" ms = some (.object ps)) (hwindow : lookup "window" ms = none)
    (hunit : lookup "type" ws = lookup "unit" ps) (hlength : lookup "length" ws = lookup "last" ps)
    (haggregation : lookup "aggregation" ws = lookup "aggregation" ps) :
    Part.node.Alike (.object ms) (.object (("window", .object ws) :: erase "period" ms)) := by
  generalize hms : ("window", Json.object ws) :: erase "period" ms = ms'
  have hlookup (key : String) : lookup key ms' =
      (if key = "period" then none else lookup key ms).or
        (if "window" = key then some (.object ws) else none) := by
    rw [← hms, lookup_cons, lookup_erase]
  have hother {key : String} (hkey : key ∉ ["window", "period"]) :
      lookup key ms = lookup key ms' := by
    have hne : key ≠ "window" ∧ key ≠ "period" := by simpa using hkey
    rw [hlookup, if_neg hne.2, if_neg hne.1.symm, Option.or_none]
  have hwindow' : lookup "window" ms' = some (.object ws) := by
    rw [hlookup, if_neg (by decide), hwindow, if_pos rfl, Option.none_or]
  have hperiod' : lookup "period" ms' = none := by
    rw [hlookup, if_pos rfl, if_neg (by decide), Option.none_or]
  have hkeys : logicalKeys ms' = logicalKeys ms := by
    refine List.filter_congr fun key hkey => ?_
    have hplain : key ∉ ["window", "period"] := by
      revert key
      decide
    rw [has, has, hother hplain]
  have hrefl (part : Part) (v : Json α) : part.Alike v v := (alikeAnywhere_refl v).alike part
  refine ⟨fun path path' => ?_, by rw [IsBare, IsBare, hother (by decide)]⟩
  refine agree_readNode_object hkeys (fun c => ?_) ?_ (fun h => absurd hleaf h) fun _ => ?_
  · exact faces_of_eq (hrefl .nodes) (hother (by cases c <;> decide))
  · exact faces_of_eq (hrefl .node) (hother (by decide))
  · refine agree_readCondition ?_ (fun key hkey => ?_) ?_ ?_
    · exact agree_readSpan_period hperiod hwindow hperiod' hwindow' hunit hlength haggregation
        path path'
    · refine faces_of_eq .refl (hother ?_)
      revert key
      decide
    · exact faces_of_eq .refl (hother (by decide))
    · exact faces_of_eq (hrefl .range) (hother (by decide))

theorem Respells.alike (h : Respells part v w) : part.Alike v w := by
  induction h with
  | reorder h => exact (alikeAnywhere_of_reordered h).alike _
  | @absent part ms key hkey hnull =>
    refine part.alike_object fun other => ?_
    by_cases hother : other = key
    · subst hother
      rw [Part.FacesAt, lookup_erase, if_pos rfl, hnull]
      exact .null hkey
    · apply part.facesAt_of_eq
      rw [lookup_erase, if_neg hother]
  | period hleaf hperiod hwindow hunit hlength haggregation =>
    exact alike_period hleaf hperiod hwindow hunit hlength haggregation
  | single key =>
    have hkeys := List.forall₂_same.mpr fun v (_ : v ∈ [Json.object key]) =>
      (alikeAnywhere_refl v).alike .sortKey
    exact fun path path' => agree_readSortKeys hkeys path path' 0 0
  | @wrap v hv =>
    have hwrapped : readPayload (.object [("filter", v)]) =
        (readNode [.key "filter"] v).map fun f => ⟨f, [], none⟩ := by
      have hfilter : lookup "filter" [("filter", v)] = some v := rfl
      have hsort : lookup "sort" [("filter", v)] = none := rfl
      have hlimit : lookup "limit" [("filter", v)] = none := rfl
      rw [readPayload, hfilter, hsort, hlimit]
      dsimp only
      cases readNode [.key "filter"] v <;> rfl
    refine (agree_bare hv).trans ?_
    rw [hwrapped]
    exact (((alikeAnywhere_refl v).alike .node).1 _ _).map _
  | bare hv _ ih => exact Part.alike_of_bare hv ih
  | @member part inner ms key v w hkey hv _ ih =>
    refine part.alike_put hv ?_
    rw [Part.AlikeUnder, hkey]
    exact ih
  | item hitem before after _ ih =>
    refine Part.alike_item _ before after fun inner hinner => ?_
    cases hitem.symm.trans hinner
    exact ih

/-- However a payload is spelled, it is read as the same query or not at all. A spelling leads to
another by any number of steps, each taken at any place of the payload and in either direction. -/
theorem readPayload_respelled {v w : Json α} (h : Relation.EqvGen (Respells .payload) v w) :
    (∀ q : Query α, readPayload v = .ok q ↔ readPayload w = .ok q) ∧
      ((∃ e, readPayload v = .error e) ↔ ∃ e, readPayload w = .error e) := by
  have hagree : Agree (readPayload v) (readPayload w) := by
    induction h with
    | rel v w h => exact h.alike
    | refl v => exact agree_refl _
    | symm v w _ ih => exact ih.symm
    | trans u v w _ _ ih ih' => exact ih.trans ih'
  exact ⟨hagree, hagree.error_iff⟩

def overPeriod : Members ℚ :=
  [("field", .text "pe_ratio"), ("trend", .null), ("operator", .text "<"), ("value", .int 15),
    ("period", .object [("last", .int 4), ("unit", .text "quarters")])]

def overWindow : Members ℚ :=
  [("window", .object [("type", .text "quarters"), ("length", .int 4)]),
    ("field", .text "pe_ratio"), ("operator", .text "<"), ("value", .int 15)]

theorem readPayload_respelled_overPeriod :
    Relation.EqvGen (Respells .payload) (.object overPeriod.reverse)
      (.object [("filter", .object overWindow)]) ∧
    ∃ q, readPayload (.object overPeriod.reverse) = .ok q ∧
      readPayload (.object [("filter", .object overWindow)]) = .ok q := by
  have horder : Respells .payload (.object overPeriod.reverse) (.object overPeriod) :=
    .reorder (.members (reorders_of_perm (by decide) (List.reverse_perm overPeriod)))
  have hoptional : "trend" ∈ Part.node.optional overPeriod := by decide
  have habsent : Respells .node (.object overPeriod) (.object (erase "trend" overPeriod)) :=
    .absent hoptional rfl
  have hperiod : Respells .node (.object (erase "trend" overPeriod)) (.object overWindow) :=
    .period rfl rfl rfl rfl rfl rfl
  have hspelled : Relation.EqvGen (Respells .payload) (.object overPeriod.reverse)
      (.object [("filter", .object overWindow)]) :=
    .trans _ _ _ (.rel _ _ horder) (.trans _ _ _ (.rel _ _ (.bare rfl habsent))
      (.trans _ _ _ (.rel _ _ (.bare rfl hperiod)) (.rel _ _ (.wrap rfl))))
  have hread : readPayload (.object overPeriod.reverse) = .ok ⟨.leaf ⟨"pe_ratio", "<",
      some (.int 15), none, some ⟨"quarters", some (.int 4), none⟩, none, none⟩, [], none⟩ := by
    have hleaf : logicalKeys overPeriod.reverse = [] := rfl
    rw [readPayload, show lookup "filter" overPeriod.reverse = none from rfl]
    dsimp only
    rw [readNode, hleaf]
    rfl
  exact ⟨hspelled, _, hread, ((readPayload_respelled hspelled).1 _).mp hread⟩

end EquityScreen.Request
