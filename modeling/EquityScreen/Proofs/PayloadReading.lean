import EquityScreen.Proofs.ConditionReading
import EquityScreen.Proofs.PayloadGrammar
import EquityScreen.Quantity.Rational

namespace EquityScreen

open Json

variable {α : Type}

namespace Request

/-- A reader decides a form when it has a result for the values of that form, and for any other a
fault that describes the value at a place found below that of the reader. -/
def Decides {β : Type} (path : Path) (find : Path → Option (Json α)) (form : Prop) :
    Except PayloadError β → Prop
  | .ok _ => form
  | .error e => ¬ form ∧ ∃ rest w, e.path = path ++ rest ∧ rest.IsPlain ∧ find rest = some w ∧
      e.fault.Describes w

variable {β γ : Type} {path : Path} {find find' : Path → Option (Json α)} {v w : Json α}
  {form other : Prop} {r : Except PayloadError β} {ms : List (String × Json α)}

theorem decides_fail {fault : PayloadFault} (hform : ¬ form) (hv : find [] = some v)
    (h : fault.Describes v) : Decides path find form (fail fault path : Except PayloadError β) :=
  ⟨hform, [], v, (List.append_nil path).symm, .nil, hv, h⟩

theorem Decides.congr (h : Decides path find form r) (hiff : form ↔ other) :
    Decides path find other r := propext hiff ▸ h

theorem Decides.mono (h : Decides path find form r)
    (hfind : ∀ place v, find place = some v → find' place = some v) :
    Decides path find' form r := by
  cases r with
  | ok b => exact h
  | error e =>
    obtain ⟨hform, rest, v, hpath, hrest, hv, hfault⟩ := h
    exact ⟨hform, rest, v, hpath, hrest, hfind rest v hv, hfault⟩

theorem Decides.map (f : β → γ) (h : Decides path find form r) :
    Decides path find form (r.map f) := by
  cases r with
  | ok b => exact h
  | error e => exact h

theorem Decides.bind {k : β → Except PayloadError γ} (h : Decides path find form r)
    (hk : ∀ b, r = .ok b → Decides path find other (k b)) :
    Decides path find (form ∧ other) (r >>= k) := by
  cases r with
  | error e => exact ⟨fun hboth => h.1 hboth.1, h.2⟩
  | ok b =>
    have hb := hk b rfl
    change Decides path find (form ∧ other) (k b)
    cases hr : k b with
    | ok c =>
      rw [hr] at hb
      exact ⟨h, hb⟩
    | error e =>
      rw [hr] at hb
      exact ⟨fun hboth => hb.1 hboth.2, hb.2⟩

/-- The reader of the value of a key is one of the whole object. -/
theorem Decides.under {key : String} (hkey : (Step.key key).IsPlain)
    (hv : lookup key ms = some v) (h : Decides (path ++ [.key key]) v.at? form r) :
    Decides path (object ms).at? form r := by
  cases r with
  | ok b => exact h
  | error e =>
    obtain ⟨hform, rest, w, hpath, hrest, hw, hfault⟩ := h
    exact ⟨hform, .key key :: rest, w, by simpa using hpath, .cons hkey hrest,
      by simpa [at?, hv] using hw, hfault⟩

theorem Decides.underRoot {key : String} (hkey : (Step.key key).IsPlain)
    (hv : lookup key ms = some v) (h : Decides [.key key] v.at? form r) :
    Decides [] (object ms).target? form r :=
  (under hkey hv h).mono fun _ _ => target?_of_at?

theorem Decides.cons {before after : List (Json α)} {f : Json α → Prop}
    {rs : Except PayloadError (List β)}
    (h : Decides (path ++ [.index before.length]) v.at? (f v) r)
    (hrest : Decides path (array ((before ++ [v]) ++ after)).at? (∀ u ∈ after, f u) rs) :
    Decides path (array (before ++ v :: after)).at? (∀ u ∈ v :: after, f u)
      (do let b ← r; let bs ← rs; return b :: bs) := by
  have hhead : Decides path (array (before ++ v :: after)).at? (f v) r := by
    cases r with
    | ok b => exact h
    | error e =>
      obtain ⟨hform, rest, w, hpath, hplain, hw, hfault⟩ := h
      exact ⟨hform, .index before.length :: rest, w, by simpa using hpath,
        .cons trivial hplain, by simpa [at?] using hw, hfault⟩
  rw [List.append_assoc] at hrest
  exact (hhead.bind fun b _ => hrest.map _).congr List.forall_mem_cons.symm

theorem decides_member (key : String) {f : Json α → Prop} {read : Json α → Except PayloadError β}
    {absent : β} {k : β → Except PayloadError γ}
    (h : ∀ v, lookup key ms = some v → Decides path find (f v) (read v))
    (hk : ∀ b, Decides path find other (k b)) :
    Decides path find (May key f ms ∧ other)
      (match lookup key ms with
        | some v => read v >>= k
        | none => .ok absent >>= k) := by
  split
  · next v hv => exact ((h v hv).congr (may_iff hv).symm).bind fun b _ => hk b
  · next hv => exact (hk absent).congr (iff_and_self.mpr fun _ => may_of_none hv)

theorem Decides.optional {key : String} {f : Json α → Prop}
    {read : Path → Json α → Except PayloadError β} (hkey : (Step.key key).IsPlain) (hnull : f .null)
    (h : ∀ v, v ≠ .null → Decides (path ++ [.key key]) v.at? (f v) (read (path ++ [.key key]) v)) :
    Decides path (object ms).at? (May key f ms) (optional read ms path key) := by
  unfold Request.optional
  split
  · next hv => exact may_of_none hv
  · next hv => exact (may_iff hv).mpr hnull
  · next v hsome hv => exact .under hkey hv (((h v hsome).map _).congr (may_iff hv).symm)

theorem Decides.optionalOnly {key : String} {f : Json α → Prop} {kind : Json α → Option β}
    {fault : PayloadFault} (hkey : (Step.key key).IsPlain) (hnull : f .null)
    (hkind : ∀ v, v ≠ .null → ((kind v).isSome = true ↔ f v))
    (hfault : ∀ v, ¬ f v → fault.Describes v) :
    Decides path (object ms).at? (May key f ms)
      (Request.optional (readOnly kind fault) ms path key) := by
  refine .optional hkey hnull fun v hv => ?_
  have hiff := hkind v hv
  unfold readOnly
  split
  · next b hb => exact hiff.mp (by rw [hb]; rfl)
  · next hnone =>
    rw [hnone] at hiff
    have hform : ¬ f v := fun h => Bool.false_ne_true (hiff.mpr h)
    exact decides_fail hform rfl (hfault v hform)

theorem decides_optionalText {key : String} (hkey : (Step.key key).IsPlain) :
    Decides path (object ms).at? (May key IsNullOrText ms) (optionalText ms path key) :=
  .optionalOnly hkey trivial (fun v hv => by cases v <;> simp_all [text?, IsNullOrText])
    fun _ => id

theorem decides_optionalFlag {key : String} (hkey : (Step.key key).IsPlain) :
    Decides path (object ms).at? (May key IsNullOrFlag ms) (optionalFlag ms path key) :=
  .optionalOnly hkey trivial (fun v hv => by cases v <;> simp_all [flag?, IsNullOrFlag])
    fun _ => id

theorem optionalText_eq_none {key : String} (h : optionalText ms path key = .ok none) :
    lookup key ms = none ∨ lookup key ms = some .null := by
  unfold optionalText Request.optional at h
  split at h
  · next hv => exact .inl hv
  · next hv => exact .inr hv
  · obtain ⟨_, -, hnone⟩ := map_eq_ok.mp h
    cases hnone

theorem optionalText_eq_some {key s : String} (h : optionalText ms path key = .ok (some s)) :
    lookup key ms = some (.text s) := by
  unfold optionalText Request.optional at h
  split at h
  · cases h
  · cases h
  · next v _ hv =>
    obtain ⟨s', hs, hsome⟩ := map_eq_ok.mp h
    cases hsome
    cases v with
    | text _ =>
      cases hs
      exact hv
    | _ => cases hs

theorem decides_readDirection (hfield : ∃ field, lookup "field" ms = some (.text field))
    {word : Option String} (hword : optionalText ms path "direction" = .ok word) :
    Decides path (object ms).at? (IsSortKey (object ms)) (readDirection path word) := by
  cases word with
  | none =>
    refine ⟨hfield, fun v hv => .inl ?_⟩
    rcases optionalText_eq_none hword with h | h <;> simp [h] at hv
    exact hv.symm
  | some word =>
    have hv := optionalText_eq_some hword
    rw [readDirection]
    split
    · next hasc => exact ⟨hfield, (may_iff hv).mpr (.inr (.inl (by rw [hasc])))⟩
    · next hasc =>
      split
      · next hdesc => exact ⟨hfield, (may_iff hv).mpr (.inr (.inr (by rw [hdesc])))⟩
      · next hdesc =>
        refine decides_fail ?_ rfl ⟨ms, rfl, hv, hasc, hdesc⟩
        rintro ⟨-, hdirection⟩
        have := (may_iff hv).mp hdirection
        simp [hasc, hdesc] at this

theorem decides_readSortKey : Decides path v.at? v.IsSortKey (readSortKey path v) := by
  cases v with
  | object ms =>
    have hread : Decides path (object ms).at?
        (May "field" IsNullOrText ms ∧ IsSortKey (object ms)) (readSortKey path (object ms)) := by
      refine (decides_optionalText (by decide)).bind fun field hfield => ?_
      cases field with
      | none =>
        have habsent := optionalText_eq_none hfield
        refine decides_fail ?_ rfl ⟨ms, rfl, habsent⟩
        rintro ⟨⟨field, h⟩, -⟩
        rcases habsent with h' | h' <;> simp [h] at h'
      | some field =>
        have hfield := optionalText_eq_some hfield
        have hword : IsSortKey (object ms) → May "direction" IsNullOrText ms := fun h v hv => by
          rcases h.2 v hv with rfl | rfl | rfl <;> trivial
        refine Decides.congr ?_ (and_iff_right_of_imp hword)
        refine (decides_optionalText (by decide)).bind fun word hdirection => ?_
        exact (decides_readDirection ⟨field, hfield⟩ hdirection).map _
    refine hread.congr (and_iff_right_of_imp fun h => ?_)
    obtain ⟨field, hfield⟩ := h.1
    exact (may_iff hfield).mpr trivial
  | _ => exact decides_fail id rfl id

theorem decides_readSortKeys (before : List (Json α)) : ∀ items : List (Json α),
    Decides path (array (before ++ items)).at? (∀ v ∈ items, IsSortKey v)
      (readSortKeys path before.length items)
  | [] => fun v hv => absurd hv List.not_mem_nil
  | v :: rest => by
    have hrest := decides_readSortKeys (before ++ [v]) rest
    rw [List.length_append] at hrest
    exact decides_readSortKey.cons hrest

theorem decides_readLimit : Decides path v.at? v.IsLimit (readLimit path v) := by
  cases v with
  | null => trivial
  | int n =>
    have hlimit : Width.isUnsigned 64 n = true ↔ IsLimit (int n : Json α) := by
      have hsize : Width.twoTo 64 = 18446744073709551616 := by decide
      simp [Width.isUnsigned, IsLimit, hsize]
    rw [readLimit]
    split
    · next h => exact hlimit.mp h
    · next h => exact decides_fail (mt hlimit.mpr h) rfl (mt hlimit.mpr h)
  | _ => exact decides_fail id rfl id

theorem readSort_object (path : Path) (key : Members α) : readSort path (object key)
    = (readSortKey (path ++ [.index 0]) (object key)).map fun k => [k] := by
  simp only [readSort, readSortKeys]
  cases readSortKey (path ++ [.index 0]) (object key) <;> rfl

theorem Decides.single {key : Members α} (hs : lookup "sort" ms = some (object key))
    (h : Decides [.key "sort", .index 0] (object key).at? form r) :
    Decides [] (object ms).target? form r := by
  cases r with
  | ok b => exact h
  | error e =>
    obtain ⟨hform, rest, w, hpath, hrest, hw, hfault⟩ := h
    refine ⟨hform, .key "sort" :: .index 0 :: rest, w, hpath, ?_, ?_, hfault⟩
    · exact .cons (by decide) (.cons trivial hrest)
    · simpa [target?, at?, hs, listed] using hw

theorem decides_readSort {s : Json α} (hs : lookup "sort" ms = some s) :
    Decides [] (object ms).target? s.IsSort (readSort [.key "sort"] s) := by
  cases s with
  | array items => exact .underRoot (by decide) hs (decides_readSortKeys [] items)
  | object key =>
    rw [readSort_object]
    exact .single hs (decides_readSortKey.map _)
  | _ => exact .underRoot (by decide) hs (decides_fail id rfl ⟨id, id⟩)

variable [Quantity α]

theorem decides_readLiteral : Decides path v.at? v.IsScalar (readLiteral path v) := by
  cases v with
  | array items => exact decides_fail id rfl id
  | object ms => exact decides_fail id rfl id
  | int n =>
    unfold readLiteral
    split <;> trivial
  | _ => trivial

theorem decides_optionalLiteral {key : String} (hkey : (Step.key key).IsPlain) :
    Decides path (object ms).at? (May key IsScalar ms) (optionalLiteral ms path key) :=
  .optional hkey trivial fun _ _ => decides_readLiteral

theorem decides_readRange : Decides path v.at? v.IsRange (readRange path v) := by
  cases v with
  | object ms =>
    refine (decides_optionalLiteral (by decide)).bind fun min _ => ?_
    refine (decides_optionalLiteral (by decide)).bind fun max _ => ?_
    refine (decides_optionalFlag (by decide)).bind fun inclusive _ => ?_
    exact (decides_optionalFlag (by decide)).map _
  | _ => exact decides_fail id rfl id

theorem decides_readWindow {unitKey lengthKey : String} (hunit : (Step.key unitKey).IsPlain)
    (hlength : (Step.key lengthKey).IsPlain) :
    Decides path v.at? (v.IsSpan unitKey lengthKey) (readWindow unitKey lengthKey path v) := by
  cases v with
  | object ms =>
    refine (decides_optionalText hunit).bind fun unit _ => ?_
    refine (decides_optionalLiteral hlength).bind fun length _ => ?_
    exact (decides_optionalText (by decide)).map _
  | _ => exact decides_fail id rfl id

theorem decides_readSpan :
    Decides path (object ms).at? (¬ (has "window" ms ∧ has "period" ms) ∧
      May "window" (IsSpan "type" "length") ms ∧ May "period" (IsSpan "unit" "last") ms)
      (readSpan ms path) := by
  unfold readSpan
  split
  · next w p hw hp =>
    have hboth : has "window" ms = true ∧ has "period" ms = true := by simp [has, hw, hp]
    exact decides_fail (fun h => h.1 hboth) rfl ⟨ms, rfl, hboth⟩
  · next w hw hp =>
    have htype : (Step.key "type").IsPlain := by decide
    have hlength : (Step.key "length").IsPlain := by decide
    refine .under (by decide) hw (((decides_readWindow htype hlength).map _).congr ?_)
    simp [has, hp, may_iff hw, may_of_none hp]
  · next p hw hp =>
    have hunit : (Step.key "unit").IsPlain := by decide
    have hlast : (Step.key "last").IsPlain := by decide
    refine .under (by decide) hp (((decides_readWindow hunit hlast).map _).congr ?_)
    simp [has, hw, may_iff hp, may_of_none hw]
  · next hw hp => exact ⟨by simp [has, hw], may_of_none hw, may_of_none hp⟩

theorem decides_readCondition :
    Decides path (object ms).at? (IsCondition ms) (readCondition ms path) := by
  have hread : Decides path (object ms).at?
      ((¬ (has "window" ms ∧ has "period" ms) ∧
        May "window" (IsSpan "type" "length") ms ∧ May "period" (IsSpan "unit" "last") ms) ∧
      May "field" IsNullOrText ms ∧ May "operator" IsNullOrText ms ∧ May "value" IsScalar ms ∧
      May "range" IsRange ms ∧ May "trend" IsNullOrText ms ∧ May "on_missing" IsNullOrText ms)
      (readCondition ms path) := by
    unfold readCondition
    refine decides_readSpan.bind fun window _ => ?_
    refine (decides_optionalText (by decide)).bind fun field _ => ?_
    refine (decides_optionalText (by decide)).bind fun operator _ => ?_
    refine decides_member "value"
      (fun v hv => .under (by decide) hv (decides_readLiteral.map some)) fun value => ?_
    refine decides_member "range"
      (fun v hv => .under (by decide) hv (decides_readRange.map some)) fun range => ?_
    refine (decides_optionalText (by decide)).bind fun trend _ => ?_
    exact (decides_optionalText (by decide)).map _
  refine hread.congr ⟨?_, ?_⟩
  · rintro ⟨⟨hone, hwindow, hperiod⟩, hfield, hoperator, hvalue, hrange, htrend, hmissing⟩
    exact ⟨hone, hwindow, hperiod, hfield, hoperator, hvalue, hrange, htrend, hmissing⟩
  · rintro ⟨hone, hwindow, hperiod, hfield, hoperator, hvalue, hrange, htrend, hmissing⟩
    exact ⟨⟨hone, hwindow, hperiod⟩, hfield, hoperator, hvalue, hrange, htrend, hmissing⟩

mutual

theorem decides_readNode (path : Path) :
    ∀ v : Json α, Decides path v.at? (IsNode v) (readNode path v)
  | .object ms => by
    rw [readNode]
    split
    · next hkeys =>
      exact (decides_readCondition.map _).congr (by simp [isNode_object_iff, hkeys])
    · next key hkeys =>
      split
      · next hfield =>
        refine decides_fail ?_ rfl ⟨ms, rfl, hfield, hkeys.symm⟩
        simp [isNode_object_iff, hkeys, hfield]
      · next hfield =>
        have hfield : has "field" ms = false := by simpa using hfield
        have hmem : key ∈ logicalKeys ms := by simp [hkeys]
        have hkey : key = "and" ∨ key = "or" ∨ key = "not" := by
          simpa using (List.mem_filter.mp hmem).1
        rcases hkey with rfl | rfl | rfl
        · exact decides_readGroup .and ms path hkeys hfield
        · exact decides_readGroup .or ms path hkeys hfield
        · exact decides_readChild ms path hkeys hfield
    · next hnone hone =>
      have hmany : 1 < (logicalKeys ms).length := by
        rcases hkeys : logicalKeys ms with _ | ⟨key, _ | ⟨other, rest⟩⟩
        · exact absurd hkeys hnone
        · exact absurd hkeys (hone key)
        · simp
      refine decides_fail ?_ rfl ⟨ms, rfl, hmany, rfl⟩
      rw [isNode_object_iff]
      rintro (⟨hkeys, -⟩ | ⟨-, ⟨c, hkeys, -⟩ | ⟨hkeys, -⟩⟩) <;> simp [hkeys] at hmany
  | .null | .bool _ | .int _ | .real _ | .text _ | .array _ => by
    rw [readNode]
    · exact decides_fail nofun rfl id
    · nofun
termination_by v => (sizeOf v, 0)

theorem decides_readChild (ms : Members α) (path : Path) (hkeys : logicalKeys ms = ["not"])
    (hfield : has "field" ms = false) :
    Decides path (object ms).at? (IsNode (.object ms)) (readChild ms path) := by
  have hword : ∀ c : Connective, "not" ≠ c.word := by rintro (_ | _) <;> decide
  rw [readChild]
  split
  · next v hv =>
    have := sizeOf_lt_of_lookup hv
    refine .under (by decide) hv (((decides_readNode _ v).map _).congr ?_)
    simp [isNode_object_iff, hkeys, hfield, hv, hword]
  · next hv =>
    have hhas : "not" ∈ logicalKeys ms := by simp [hkeys]
    simp [logicalKeys, has, hv] at hhas
termination_by (sizeOf ms, 1)

theorem decides_readGroup (c : Connective) (ms : Members α) (path : Path)
    (hkeys : logicalKeys ms = [c.word]) (hfield : has "field" ms = false) :
    Decides path (object ms).at? (IsNode (.object ms)) (readGroup c ms path) := by
  rw [readGroup]
  split
  · next items hitems =>
    have : sizeOf items < sizeOf ms := by
      have := sizeOf_lt_of_lookup hitems
      simp only [Json.array.sizeOf_spec] at this
      omega
    have hread := decides_readNodes (path ++ [.key c.word]) [] items
    refine .under (by cases c <;> decide) hitems ((hread.map _).congr ?_)
    simp [isNode_group_iff hkeys hfield, hitems]
  · next hitems =>
    have hmem : c.word ∈ logicalKeys ms := by simp [hkeys]
    obtain ⟨v, hv⟩ := Option.isSome_iff_exists.mp (List.mem_filter.mp hmem).2
    have hform : ¬ v.IsArray := by
      cases v with
      | array items => exact absurd hv (hitems items)
      | _ => exact id
    refine .under (by cases c <;> decide) hv (decides_fail ?_ rfl hform)
    rw [isNode_group_iff hkeys hfield]
    rintro ⟨items, harray, -⟩
    exact hitems items harray
termination_by (sizeOf ms, 1)

theorem decides_readNodes (path : Path) (before : List (Json α)) :
    ∀ items : List (Json α), Decides path (array (before ++ items)).at? (∀ v ∈ items, IsNode v)
      (readNodes path before.length items)
  | [] => by
    rw [readNodes]
    exact fun v hv => absurd hv List.not_mem_nil
  | v :: rest => by
    rw [readNodes]
    have hrest := decides_readNodes path (before ++ [v]) rest
    rw [List.length_append] at hrest
    exact (decides_readNode _ v).cons hrest
termination_by items => (sizeOf items, 0)

end

theorem decides_readPayload (v : Json α) :
    Decides [] v.target? v.IsPayload (readPayload v) := by
  cases v with
  | object ms =>
    rw [readPayload]
    split
    · next hfilter =>
      have hnode := (decides_readNode [] (object ms)).mono fun _ _ => target?_of_at?
      exact (hnode.map _).congr (by simp [IsPayload, hfilter])
    · next f hfilter =>
      have hform : (object ms).IsPayload ↔
          IsNode f ∧ May "sort" IsSort ms ∧ May "limit" IsLimit ms ∧ True := by
        simp [IsPayload, hfilter]
      refine Decides.congr ?_ hform.symm
      have hread := Decides.underRoot (by decide) hfilter (decides_readNode _ f)
      refine hread.bind fun filter _ => ?_
      refine decides_member "sort" (fun s hs => decides_readSort hs) fun sort => ?_
      refine decides_member "limit" (fun l hl => ?_) fun limit => trivial
      exact .underRoot (by decide) hl decides_readLimit
  | _ => exact decides_fail id rfl id

/-- A payload is read if and only if it has the form of the grammar. Otherwise the place reported
for the fault, as it is written, is that of a value in the payload which has the fault. -/
theorem readPayload_grammar (v : Json α) : ((∃ q, readPayload v = .ok q) ↔ v.IsPayload) ∧
    ∀ e, readPayload v = .error e →
      ∃ w, v.named? e.path.text = some w ∧ e.fault.Describes w := by
  have hread := decides_readPayload v
  cases h : readPayload v with
  | ok q =>
    rw [h] at hread
    exact ⟨iff_of_true ⟨q, rfl⟩ hread, nofun⟩
  | error e =>
    rw [h] at hread
    obtain ⟨hform, rest, w, hpath, hplain, hw, hfault⟩ := hread
    refine ⟨iff_of_false nofun hform, fun e' he => ?_⟩
    cases he
    rw [List.nil_append] at hpath
    exact ⟨w, by rw [named?, hpath, Path.ofText_text hplain, hw], hfault⟩

/-- The second of two conditions has a range with an array for its lower bound. -/
def misshapenPayload : Json ℚ :=
  .object [("filter", .object [("and", .array [
    .object [("field", .text "pe_ratio"), ("operator", .text "<"), ("value", .int 15)],
    .object [("field", .text "roe"), ("range", .object [("min", .array [])])]])])]

theorem readPayload_grammar_misshapen : ¬ misshapenPayload.IsPayload ∧
    ∃ w, misshapenPayload.named? "filter.and[1].range.min" = some w ∧
      PayloadFault.notScalar.Describes w := by
  have hread : readPayload misshapenPayload = .error ⟨.notScalar,
      [.key "filter", .key "and", .index 1, .key "range", .key "min"]⟩ := by
    simp [misshapenPayload, readPayload, readNode, readGroup, readNodes, readCondition, readSpan,
      readRange, readLiteral, readOnly, text?, optionalText, optionalLiteral, Request.optional,
      logicalKeys, lookup, has, fail,
      Connective.word, Except.map, bind, Except.bind, pure, Except.pure]
  obtain ⟨hform, hplace⟩ := readPayload_grammar misshapenPayload
  exact ⟨fun h => by simpa [hread] using hform.mpr h, hplace _ hread⟩

end Request

end EquityScreen
