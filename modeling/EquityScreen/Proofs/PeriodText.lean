import EquityScreen.Period
import EquityScreen.Proofs.KeySort
import EquityScreen.Proofs.PlaceholderText
import EquityScreen.Proofs.TextBytes
import Mathlib.Data.Prod.Lex
import Mathlib.Data.Sum.Order
import Mathlib.Order.WithBot

namespace EquityScreen

namespace Date

open Text

theorem length_padded {width n : Nat} (hw : 0 < width) (h : n < 10 ^ width) :
    (padded width n).length = width := by
  have hlength : (Nat.toDigits 10 n).length ≤ width :=
    (Nat.length_toDigits_le_iff (by decide) hw).mpr h
  simp [padded, hlength]

theorem isDigit_of_mem_padded {width n : Nat} {c : Char} (h : c ∈ padded width n) :
    isDigit c = true := by
  obtain hzero | hdigit := List.mem_append.mp h
  · rw [List.eq_of_mem_replicate hzero]
    rfl
  · exact Placeholder.isDigit_of_mem_toDigits hdigit

theorem digitsValue_padded (width n : Nat) : digitsValue (padded width n) = n := by
  have hzeros : Nat.ofDigitChars 10 (padded width n) 0 =
      Nat.ofDigitChars 10 (Nat.toDigits 10 n) 0 := by
    rw [padded, Nat.ofDigitChars_append, Nat.ofDigitChars_replicate_zero, Nat.mul_zero]
  exact hzeros.trans Nat.ofDigitChars_ten_toDigits

theorem readDigits_padded {width n : Nat} (hw : 0 < width) (h : n < 10 ^ width)
    (rest : List Char) : readDigits width (padded width n ++ rest) = some (n, rest) := by
  have hlength := length_padded hw h
  have hfront : ((padded width n ++ rest).take width).takeWhile isDigit = padded width n := by
    rw [List.take_left' hlength]
    exact List.takeWhile_eq_self_iff.mpr fun c hc => isDigit_of_mem_padded hc
  have hne : padded width n ≠ [] := List.ne_nil_of_length_pos (hlength.symm ▸ hw)
  simp [readDigits, hfront, hne, digitsValue_padded]

theorem lt_of_readDigits {width n : Nat} {cs rest : List Char}
    (h : readDigits width cs = some (n, rest)) : n < 10 ^ width := by
  have hdigits : ∀ c ∈ (cs.take width).takeWhile isDigit, isDigit c = true :=
    fun c hc => List.mem_takeWhile_imp hc
  have hlength : ((cs.take width).takeWhile isDigit).length ≤ width :=
    (List.takeWhile_sublist _).length_le.trans (List.length_take_le _ _)
  have hn : n = digitsValue ((cs.take width).takeWhile isDigit) := by
    simp only [readDigits] at h
    split at h
    · cases h
    · cases h
      rfl
  exact hn ▸ (digitsValue_lt hdigits).trans_le (Nat.pow_le_pow_right (by decide) hlength)

theorem exists_cons_padded {width n : Nat} (hw : 0 < width) (h : n < 10 ^ width) :
    ∃ c cs, padded width n = c :: cs ∧ isDigit c = true := by
  have hne : padded width n ≠ [] := List.ne_nil_of_length_pos ((length_padded hw h).symm ▸ hw)
  obtain ⟨c, cs, hcons⟩ := List.exists_cons_of_ne_nil hne
  exact ⟨c, cs, hcons, isDigit_of_mem_padded (hcons ▸ List.mem_cons_self)⟩

theorem readYear_padded {n : Nat} (h : n < 10000) (rest : List Char) :
    readYear (padded 4 n ++ rest) = some ((n : Int), rest) := by
  obtain ⟨c, cs, hcons, hc⟩ := exists_cons_padded (by decide : 0 < 4) h
  have hread := readDigits_padded (by decide : 0 < 4) h rest
  rw [hcons, List.cons_append] at hread ⊢
  have hblank : (c :: (cs ++ rest)).dropWhile isBlank = c :: (cs ++ rest) := by
    simp [isBlank_of_isDigit hc]
  have hminus : c ≠ '-' := by rintro rfl; cases hc
  have hplus : c ≠ '+' := by rintro rfl; cases hc
  rw [readYear, hblank]
  split
  · next heq => exact absurd (List.cons.inj heq).1 hminus
  · next heq => exact absurd (List.cons.inj heq).1 hplus
  · rw [hread]
    rfl

theorem readPart_padded {n : Nat} (h : n < 100) (rest : List Char) :
    readPart ('-' :: (padded 2 n ++ rest)) = some (n, rest) := by
  obtain ⟨c, cs, hcons, hc⟩ := exists_cons_padded (by decide : 0 < 2) h
  have hread := readDigits_padded (by decide : 0 < 2) h rest
  rw [hcons, List.cons_append] at hread ⊢
  simp [readPart, isBlank_of_isDigit hc, hread]

theorem isValid_of_readAll {cs : List Char} {d : Date} (h : readAll cs = some d) :
    d.isValid = true ∧ ∃ rest, readYear cs = some (d.year, rest) := by
  unfold readAll at h
  obtain ⟨⟨year, rest⟩, hyear, h⟩ := Option.bind_eq_some_iff.mp h
  obtain ⟨⟨month, rest'⟩, -, h⟩ := Option.bind_eq_some_iff.mp h
  obtain ⟨⟨day, rest''⟩, -, h⟩ := Option.bind_eq_some_iff.mp h
  dsimp only at h
  obtain ⟨hend, hd⟩ := Option.ite_none_right_eq_some.mp h
  cases hd
  exact ⟨(Bool.and_eq_true_iff.mp hend).2, rest, hyear⟩

theorem text_of_short {year : Nat} (h : year < 10000) (month day : Nat) :
    text ⟨year, month, day⟩ = String.ofList
      (padded 4 year ++ '-' :: (padded 2 month ++ '-' :: padded 2 day)) := by
  have hfour : (0 : Int) ≤ year ∧ (year : Int) ≤ 9999 := by omega
  simp [text, yearText, hfour]

theorem lt_of_isValid {d : Date} (h : d.isValid = true) : d.month < 100 ∧ d.day < 100 := by
  obtain ⟨⟨⟨-, hmonth⟩, -⟩, hday⟩ :
      ((1 ≤ d.month ∧ d.month ≤ 12) ∧ 1 ≤ d.day) ∧ d.day ≤ daysIn d.year d.month := by
    simpa [isValid] using h
  have hdays : daysIn d.year d.month ≤ 31 := by
    unfold daysIn
    split_ifs <;> decide
  omega

theorem takeBytes_short {year month day : Nat} (hy : year < 10000) (hm : month < 100)
    (hd : day < 100) :
    takeBytes 10 (padded 4 year ++ '-' :: (padded 2 month ++ '-' :: padded 2 day)) =
      some (padded 4 year ++ '-' :: (padded 2 month ++ '-' :: padded 2 day)) := by
  set cs := padded 4 year ++ '-' :: (padded 2 month ++ '-' :: padded 2 day)
  have hlength : cs.length = 10 := by
    simp [cs, length_padded (by decide : 0 < 4) hy, length_padded (by decide : 0 < 2) hm,
      length_padded (by decide : 0 < 2) hd]
  rw [← hlength]
  refine takeBytes_length fun c hc => ?_
  have hchar : c = '-' ∨ isDigit c = true := by
    simp only [cs, List.mem_append, List.mem_cons] at hc
    obtain h | rfl | h | rfl | h := hc
    · exact .inr (isDigit_of_mem_padded h)
    · exact .inl rfl
    · exact .inr (isDigit_of_mem_padded h)
    · exact .inl rfl
    · exact .inr (isDigit_of_mem_padded h)
  obtain rfl | hdigit := hchar
  · rfl
  · exact utf8Size_of_isDigit hdigit

theorem read?_text {d : Date} (hvalid : d.isValid = true) (hlow : 0 ≤ d.year)
    (hhigh : d.year ≤ 9999) : read? d.text = some d := by
  obtain ⟨hm, hd⟩ := lt_of_isValid hvalid
  obtain ⟨year, month, day⟩ := d
  lift year to Nat using hlow
  dsimp only at hhigh hm hd
  have hyear : year < 10000 := by omega
  have hread : readAll (padded 4 year ++ '-' :: (padded 2 month ++ '-' :: (padded 2 day ++ []))) =
      some ⟨year, month, day⟩ := by
    simp only [readAll, readYear_padded hyear, readPart_padded hm, readPart_padded hd,
      Option.bind_eq_bind, Option.bind_some, hvalid, List.isEmpty_nil, Bool.and_self, if_true]
  rw [List.append_nil] at hread
  rw [read?, text_of_short hyear, String.toList_ofList, takeBytes_short hyear hm hd,
    Option.bind_some, hread]

/-- A date is read from ten bytes, so that its year fits where years have to. -/
theorem isYear_of_read? {s : String} {d : Date} (h : read? s = some d) :
    Period.isYear d.year = true := by
  obtain ⟨cs, hcs, hread⟩ := Option.bind_eq_some_iff.mp h
  obtain ⟨-, rest, hyear⟩ := isValid_of_readAll hread
  have hten : (cs.dropWhile isBlank).length ≤ 10 :=
    (List.dropWhile_sublist _).length_le.trans (length_le_of_takeBytes hcs)
  have hsize : d.year.natAbs < 10 ^ 9 := by
    have hsigned {digits after : List Char} {n : Nat} (hlength : digits.length ≤ 9)
        (hn : readDigits digits.length digits = some (n, after)) : n < 10 ^ 9 :=
      (lt_of_readDigits hn).trans_le (Nat.pow_le_pow_right (by decide) hlength)
    unfold readYear at hyear
    split at hyear
    · next digits heq =>
      obtain ⟨⟨n, after⟩, hn, hd⟩ := Option.map_eq_some_iff.mp hyear
      rw [heq, List.length_cons] at hten
      rw [← (Prod.mk.inj hd).1, Int.natAbs_neg, Int.natAbs_natCast]
      exact hsigned (by omega) hn
    · next digits heq =>
      obtain ⟨⟨n, after⟩, hn, hd⟩ := Option.map_eq_some_iff.mp hyear
      rw [heq, List.length_cons] at hten
      rw [← (Prod.mk.inj hd).1, Int.natAbs_natCast]
      exact hsigned (by omega) hn
    · obtain ⟨⟨n, after⟩, hn, hd⟩ := Option.map_eq_some_iff.mp hyear
      rw [← (Prod.mk.inj hd).1, Int.natAbs_natCast]
      exact (lt_of_readDigits hn).trans (by decide)
  have htwo : (Width.twoTo 31 : Int) = 2147483648 := rfl
  simp only [Period.isYear, Width.isSigned, Bool.and_eq_true, decide_eq_true_eq]
  change -(Width.twoTo 31 : Int) ≤ d.year ∧ d.year < (Width.twoTo 31 : Int)
  omega

end Date

namespace Period

variable {α : Type}

/-- Years out of four digits make a date longer than what is read of it. -/
def hasShortDate : Period → Bool
  | .year _ => true
  | .date d => 0 ≤ d.year ∧ d.year ≤ 9999

theorem cases_of_ofCell? {unit : WindowUnit} {v : Cell α} {p : Period}
    (h : ofCell? unit v = some p) :
    (∃ y, unit = .years ∧ p = .year y ∧ isYear y = true) ∨
      ∃ d, unit = .quarters ∧ p = .date d ∧ d.isValid = true := by
  unfold ofCell? at h
  split at h
  · obtain ⟨hy, hp⟩ := Option.ite_none_right_eq_some.mp h
    cases hp
    exact .inl ⟨_, rfl, rfl, hy⟩
  · next s =>
    obtain ⟨y, hy, rfl⟩ := Option.map_eq_some_iff.mp h
    refine .inl ⟨y, rfl, rfl, ?_⟩
    unfold readYear? at hy
    split at hy
    · next n hn =>
      cases hy
      exact (Option.filter_eq_some_iff.mp hn).2
    · obtain ⟨d, hd, rfl⟩ := Option.map_eq_some_iff.mp hy
      exact Date.isYear_of_read? hd
  · next s =>
    obtain ⟨d, hd, rfl⟩ := Option.map_eq_some_iff.mp h
    obtain ⟨cs, -, hread⟩ := Option.bind_eq_some_iff.mp hd
    exact .inr ⟨d, rfl, rfl, (Date.isValid_of_readAll hread).1⟩
  · cases h

/-- A period that was read from a cell is read back from the cell that is written for it. -/
theorem ofCell?_cell {unit : WindowUnit} {v : Cell α} {p : Period} (h : ofCell? unit v = some p)
    (hshort : p.hasShortDate = true) : ofCell? unit (p.cell : Cell α) = some p := by
  obtain ⟨y, rfl, rfl, hy⟩ | ⟨d, rfl, rfl, hd⟩ := cases_of_ofCell? h
  · simp [ofCell?, cell, hy]
  · obtain ⟨hlow, hhigh⟩ := of_decide_eq_true hshort
    simp [ofCell?, cell, Date.read?_text hd hlow hhigh]

/-- Where a period stands: years by number and before all dates, dates by the calendar. -/
def Rank := Int ⊕ₗ (Int ×ₗ (Nat ×ₗ Nat))

instance : LinearOrder Rank := inferInstanceAs (LinearOrder (Int ⊕ₗ (Int ×ₗ (Nat ×ₗ Nat))))

def rank : Period → Rank
  | .year y => Sum.inlₗ y
  | .date d => Sum.inrₗ (toLex (d.year, toLex (d.month, d.day)))

theorem rank_injective : Function.Injective rank := by
  rintro (y | ⟨year, month, day⟩) (z | ⟨year', month', day'⟩) h
  · cases h; rfl
  · cases h
  · cases h
  · cases h; rfl

theorem order_eq (p q : Period) : order p q = compare p.rank q.rank := by
  have hyear (y z : Int) : compare (rank (.year y)) (rank (.year z)) = compare y z :=
    compare_map Sum.Lex.inl_strictMono y z
  have hdate (x y : Int ×ₗ (Nat ×ₗ Nat)) :
      compare (Sum.inrₗ x : Rank) (Sum.inrₗ y) = compare x y :=
    compare_map Sum.Lex.inr_strictMono x y
  cases p with
  | year y =>
    cases q with
    | year z => rw [hyear, order]
    | date d => exact (compare_lt_iff_lt.mpr (Sum.Lex.inl_lt_inr _ _)).symm
  | date d =>
    cases q with
    | year z => exact (compare_gt_iff_gt.mpr (Sum.Lex.inl_lt_inr _ _)).symm
    | date e =>
      refine Eq.trans ?_ (hdate _ _).symm
      simp [order, Date.order, Prod.Lex.compare_def, compareLex, compareOn]

def optionRank (p : Option Period) : WithBot Rank := p.map rank

theorem optionRank_injective : Function.Injective optionRank := Option.map_injective rank_injective

theorem orderOption_eq (p q : Option Period) :
    orderOption p q = compare (optionRank p) (optionRank q) := by
  cases p with
  | none =>
    cases q with
    | none => exact (compare_eq_iff_eq.mpr rfl).symm
    | some q => exact (compare_lt_iff_lt.mpr (WithBot.bot_lt_coe q.rank)).symm
  | some p =>
    cases q with
    | none => exact (compare_gt_iff_gt.mpr (WithBot.bot_lt_coe p.rank)).symm
    | some q => exact (order_eq p q).trans (compare_map WithBot.coe_strictMono _ _).symm

end Period

end EquityScreen
