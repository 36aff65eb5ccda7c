import EquityScreen.Compilation
import EquityScreen.Proofs.PlaceholderText
import EquityScreen.Proofs.TextBytes
import Mathlib.Data.Rat.Init
import Mathlib.Data.Set.Card

namespace EquityScreen

open Text

namespace Placeholder

theorem mem_note {n m : Nat} {seen : List Nat} : m ∈ note n seen ↔ m = n ∨ m ∈ seen := by
  induction seen with
  | nil => simp [note]
  | cons k rest ih =>
    rw [note]
    split_ifs with hlt heq
    · exact List.mem_cons
    · subst heq
      simp
    · rw [List.mem_cons, ih, List.mem_cons]
      exact or_left_comm

theorem ascending_note {n : Nat} {seen : List Nat} (h : seen.Pairwise (· < ·)) :
    (note n seen).Pairwise (· < ·) := by
  induction seen with
  | nil => exact List.pairwise_singleton _ n
  | cons k rest ih =>
    obtain ⟨hk, hrest⟩ := List.pairwise_cons.mp h
    rw [note]
    split_ifs with hlt heq
    · exact List.pairwise_cons.mpr
        ⟨List.forall_mem_cons.mpr ⟨hlt, fun m hm => hlt.trans (hk m hm)⟩, h⟩
    · exact h
    · refine List.pairwise_cons.mpr ⟨fun m hm => ?_, ih hrest⟩
      obtain rfl | hm := mem_note.mp hm
      · omega
      · exact hk m hm

def noteAll (ns seen : List Nat) : List Nat := ns.foldl (fun seen n => note n seen) seen

theorem mem_noteAll {ns seen : List Nat} {m : Nat} :
    m ∈ noteAll ns seen ↔ m ∈ ns ∨ m ∈ seen := by
  induction ns generalizing seen with
  | nil => simp [noteAll]
  | cons n ns ih =>
    have hstep : m ∈ noteAll (n :: ns) seen ↔ m ∈ ns ∨ m ∈ note n seen := ih
    rw [hstep, mem_note, List.mem_cons, or_left_comm, or_assoc]

theorem ascending_noteAll {ns seen : List Nat} (h : seen.Pairwise (· < ·)) :
    (noteAll ns seen).Pairwise (· < ·) := by
  induction ns generalizing seen with
  | nil => exact h
  | cons n ns ih => exact ih (ascending_note h)

def numbers (cs : List Char) : List Nat := (written cs).filter (· ≤ maxNumber)

theorem numbers_cons_of_ne {c : Char} (h : c ≠ '$') (rest : List Char) :
    numbers (c :: rest) = numbers rest := by
  simp [numbers, written, h]

theorem numbers_cons_dollar (rest : List Char) :
    numbers ('$' :: rest) =
      (number? (rest.takeWhile isDigit)).toList ++ numbers (rest.dropWhile isDigit) := by
  have hdigits : '$' ∉ rest.takeWhile isDigit := fun h => by
    have hdollar : isDigit '$' = true := List.mem_takeWhile_imp h
    cases hdollar
  have hrest : written rest = written (rest.dropWhile isDigit) := by
    have hsplit := written_append_of_not_mem hdigits (rest.dropWhile isDigit)
    rwa [List.takeWhile_append_dropWhile] at hsplit
  by_cases hd : rest.takeWhile isDigit = []
  · simp [numbers, written, number?, hd, hrest]
  · by_cases hn : digitsValue (rest.takeWhile isDigit) ≤ maxNumber
    · simp [numbers, written, number?, hd, hn, Nat.not_lt.mpr hn, hrest]
    · simp [numbers, written, number?, hd, hn, Nat.not_le.mp hn, hrest]

theorem digitsEnd_eq (text : String) (i : Nat) : digitsEnd text i =
    i + (((bytes text.toList).drop i).takeWhile isDigitByte).length := by
  fun_induction digitsEnd text i with
  | case1 i h hd ih =>
    rw [ih, drop_bytes_of_lt h, List.takeWhile_cons_of_pos hd, List.length_cons]
    omega
  | case2 i h hd => rw [drop_bytes_of_lt h, List.takeWhile_cons_of_neg hd]; rfl
  | case3 i h => rw [drop_bytes_of_not_lt h]; rfl

section Digits

variable {text digits : String} {start : Nat} {rest : List Char}
  (hrest : (bytes text.toList).drop start = bytes rest)

include hrest

theorem digits_of_slice? (h : slice? text start (digitsEnd text start) = some digits) :
    digits.toList = rest.takeWhile isDigit := by
  apply bytes_injective
  rw [bytes_of_slice? h, digitsEnd_eq, hrest, Nat.add_sub_cancel_left, ← takeWhile_bytes]
  exact (List.prefix_iff_eq_take.mp (List.takeWhile_prefix _)).symm

theorem drop_digitsEnd :
    (bytes text.toList).drop (digitsEnd text start) = bytes (rest.dropWhile isDigit) := by
  rw [digitsEnd_eq, ← List.drop_drop, hrest, ← dropWhile_bytes]
  have hsplit := List.takeWhile_append_dropWhile (p := isDigitByte) (l := bytes rest)
  exact (congrArg _ hsplit).symm.trans List.drop_left

end Digits

section Ahead

variable {text : String} {i : Nat} {cs : List Char}

/-- The characters ahead of a place. The place may be inside a character, then what is left of that
character comes before them and is not ASCII. -/
def Ahead (text : String) (i : Nat) (cs : List Char) : Prop :=
  ∃ front, (bytes text.toList).drop i = front ++ bytes cs ∧ ∀ b ∈ front, 0x80 ≤ b

theorem ahead_start (text : String) : Ahead text 0 text.toList := ⟨[], rfl, List.forall_mem_nil _⟩

theorem Ahead.dollar (h : Ahead text i cs) (hi : i < text.utf8ByteSize)
    (hb : text.getUTF8Byte ⟨i⟩ hi = '$'.toUInt8) :
    ∃ rest, cs = '$' :: rest ∧ (bytes text.toList).drop (i + 1) = bytes rest := by
  obtain ⟨front, hdrop, hfront⟩ := h
  rw [drop_bytes_of_lt hi, hb] at hdrop
  cases front with
  | nil =>
    obtain ⟨c, rest, rfl, hc, hrest⟩ := exists_of_bytes_eq_cons hdrop.symm (by decide)
    obtain rfl : c = '$' := Char.toNat_inj.mp hc
    exact ⟨rest, rfl, hrest.symm⟩
  | cons b front =>
    obtain ⟨rfl, -⟩ := List.cons.inj hdrop
    exact absurd (hfront _ List.mem_cons_self) (by decide)

/-- A step over a byte is over a character, or over a part of one. -/
theorem Ahead.succ (h : Ahead text i cs) (hi : i < text.utf8ByteSize)
    (hb : text.getUTF8Byte ⟨i⟩ hi ≠ '$'.toUInt8) :
    ∃ rest, Ahead text (i + 1) rest ∧ numbers cs = numbers rest := by
  obtain ⟨front, hdrop, hfront⟩ := h
  rw [drop_bytes_of_lt hi] at hdrop
  cases front with
  | nil =>
    cases cs with
    | nil => cases hdrop
    | cons c rest =>
      have hne : c ≠ '$' := by
        rintro rfl
        exact hb (List.cons.inj hdrop).1
      obtain ⟨b, tail, hcons, htail⟩ := exists_of_utf8EncodeChar c
      rw [List.nil_append, bytes_cons, hcons] at hdrop
      exact ⟨rest, ⟨tail, (List.cons.inj hdrop).2, htail⟩, numbers_cons_of_ne hne rest⟩
  | cons b front =>
    obtain ⟨-, hfront⟩ := List.forall_mem_cons.mp hfront
    exact ⟨cs, ⟨front, (List.cons.inj hdrop).2, hfront⟩, rfl⟩

theorem Ahead.eq_nil (h : Ahead text i cs) (hi : ¬ i < text.utf8ByteSize) : cs = [] := by
  obtain ⟨front, hdrop, -⟩ := h
  rw [drop_bytes_of_not_lt hi] at hdrop
  exact eq_nil_of_bytes (List.append_eq_nil_iff.mp hdrop.symm).2

end Ahead

/-- The scan from a place on notes the numbers in the characters ahead of it. -/
theorem scan_eq (text : String) (i : Nat) (seen : List Nat) (cs : List Char)
    (h : Ahead text i cs) : scan text i seen = some (noteAll (numbers cs) seen) := by
  fun_induction scan text i seen generalizing cs with
  | case1 i seen hi hb start stop digits hs ih =>
    obtain ⟨rest, rfl, hrest⟩ := h.dollar hi hb
    have hahead : Ahead text (max stop start) (rest.dropWhile isDigit) := by
      rw [Nat.max_eq_left (le_digitsEnd text start)]
      exact ⟨[], drop_digitsEnd hrest, List.forall_mem_nil _⟩
    rw [ih _ hahead, numbers_cons_dollar, ← digits_of_slice? hrest hs]
    cases hn : number? digits.toList with
    | none => simp [noteDigits, hn]
    | some n => simp [noteDigits, hn, noteAll]
  | case2 i seen hi hb start stop hs =>
    have hcut := isSome_slice?_digits hi hb
    rw [hs] at hcut
    cases hcut
  | case3 i seen hi hb ih =>
    obtain ⟨rest, hrest, hnumbers⟩ := h.succ hi hb
    rw [hnumbers]
    exact ih rest hrest
  | case4 i seen hi =>
    rw [h.eq_nil hi]
    rfl

/-- A number is written after a `$` by the longest run of digits that stands there. -/
def WrittenIn (cs : List Char) (n : Nat) : Prop :=
  ∃ before digits after, cs = before ++ '$' :: (digits ++ after) ∧ digits ≠ [] ∧
    (∀ c ∈ digits, isDigit c = true) ∧ (∀ c ∈ after.head?, isDigit c = false) ∧
    digitsValue digits = n

theorem takeWhile_eq_digits {digits after : List Char} (hdigits : ∀ c ∈ digits, isDigit c = true)
    (hafter : ∀ c ∈ after.head?, isDigit c = false) :
    (digits ++ after).takeWhile isDigit = digits := by
  have hend : after.takeWhile isDigit = [] := by
    cases after with
    | nil => rfl
    | cons c after => exact List.takeWhile_cons_of_neg (by simp [hafter c rfl])
  rw [List.takeWhile_append_of_pos hdigits, hend, List.append_nil]

theorem written_cons (c : Char) (rest : List Char) (n : Nat) : n ∈ written (c :: rest) ↔
    (c = '$' ∧ rest.takeWhile isDigit ≠ [] ∧ digitsValue (rest.takeWhile isDigit) = n) ∨
      n ∈ written rest := by
  by_cases h : c = '$' ∧ rest.takeWhile isDigit ≠ []
  · rw [written, if_pos h, List.mem_cons, ← and_assoc, and_iff_right h, eq_comm]
  · rw [written, if_neg h, ← and_assoc]
    exact (or_iff_right fun hwritten => h hwritten.1).symm

theorem mem_written {cs : List Char} {n : Nat} : n ∈ written cs ↔ WrittenIn cs n := by
  induction cs with
  | nil =>
    refine iff_of_false List.not_mem_nil ?_
    rintro ⟨before, digits, after, hcs, -⟩
    simp at hcs
  | cons c rest ih =>
    rw [written_cons, ih]
    constructor
    · rintro (⟨rfl, hne, hvalue⟩ | ⟨before, digits, after, rfl, h⟩)
      · have hsplit := List.takeWhile_append_dropWhile (p := isDigit) (l := rest)
        have hdigits : ∀ c ∈ rest.takeWhile isDigit, isDigit c = true :=
          fun c hc => List.mem_takeWhile_imp hc
        have hafter : ∀ c ∈ (rest.dropWhile isDigit).head?, isDigit c = false := by
          intro c hc
          have hnot := List.head?_dropWhile_not isDigit rest
          rwa [Option.mem_def.mp hc] at hnot
        exact ⟨[], _, _, congrArg _ hsplit.symm, hne, hdigits, hafter, hvalue⟩
      · exact ⟨c :: before, digits, after, rfl, h⟩
    · rintro ⟨before, digits, after, hcs, hne, hdigits, hafter, hvalue⟩
      cases before with
      | nil =>
        obtain ⟨rfl, rfl⟩ := List.cons.inj hcs
        rw [takeWhile_eq_digits hdigits hafter]
        exact .inl ⟨rfl, hne, hvalue⟩
      | cons c' before =>
        obtain ⟨rfl, rfl⟩ := List.cons.inj hcs
        exact .inr ⟨before, digits, after, rfl, hne, hdigits, hafter, hvalue⟩

/-- The placeholders of a text: the numbers that are written after a `$` and fit into a machine
word. -/
def placeholders (text : String) : Set Nat := {n | WrittenIn text.toList n ∧ n ≤ maxNumber}

theorem mem_numbers {text : String} {n : Nat} :
    n ∈ numbers text.toList ↔ n ∈ placeholders text := by
  rw [numbers, List.mem_filter, mem_written, decide_eq_true_iff]
  rfl

theorem scan_text (text : String) : scan text 0 [] = some (noteAll (numbers text.toList) []) :=
  scan_eq text 0 [] text.toList (ahead_start text)

theorem distinct_eq (text : String) : distinct text = noteAll (numbers text.toList) [] :=
  Option.get_of_eq_some (isSome_scan text 0 []) (scan_text text)

theorem mem_distinct {text : String} {n : Nat} : n ∈ distinct text ↔ n ∈ placeholders text := by
  rw [distinct_eq, mem_noteAll, or_iff_left List.not_mem_nil, mem_numbers]

theorem ascending_distinct (text : String) : (distinct text).Pairwise (· < ·) :=
  distinct_eq text ▸ ascending_noteAll List.Pairwise.nil

theorem ncard_placeholders (text : String) :
    (placeholders text).ncard = (distinct text).length := by
  have hset : placeholders text = (distinct text).toFinset := by
    ext n
    rw [Finset.mem_coe, List.mem_toFinset, mem_distinct]
  have hnodup : (distinct text).Nodup := (ascending_distinct text).imp fun h => h.ne
  rw [hset, Set.ncard_coe_finset, List.toFinset_card_of_nodup hnodup]

theorem areUpTo_iff {seen : List Nat} (h : seen.Pairwise (· < ·)) (n : Nat) :
    areUpTo n seen = true ↔ {m | m ∈ seen} = Set.Icc 1 n := by
  have hup (k : Nat) : {m | m ∈ List.range' 1 k} = Set.Icc 1 k := by
    ext m
    rw [Set.mem_ofPred_eq, List.mem_range'_1, Set.mem_Icc]
    omega
  rw [areUpTo, Bool.and_eq_true, decide_eq_true_iff, decide_eq_true_iff]
  constructor
  · rintro ⟨rfl, hseen⟩
    rw [hseen, hup, List.length_range']
  · intro hset
    have hmem : ∀ m, m ∈ seen ↔ m ∈ List.range' 1 n := Set.ext_iff.mp (hset.trans (hup n).symm)
    have hperm : seen.Perm (List.range' 1 n) :=
      (List.perm_ext_iff_of_nodup (h.imp fun hlt => hlt.ne) List.nodup_range').mpr hmem
    have hseen : seen = List.range' 1 n :=
      hperm.eq_of_pairwise (fun a b _ _ hab hba => absurd hab hba.asymm) h List.pairwise_lt_range'
    rw [hseen, List.length_range']
    exact ⟨rfl, rfl⟩

theorem areUpTo_distinct (text : String) (n : Nat) :
    areUpTo n (distinct text) = true ↔ placeholders text = Set.Icc 1 n := by
  rw [areUpTo_iff (ascending_distinct text)]
  exact Eq.congr_left (Set.ext fun _ => mem_distinct)

end Placeholder

namespace Compilation

open Placeholder

variable {α : Type}

theorem checkPlaceholders_eq_ok_iff {text : String} {params : Nat} :
    checkPlaceholders (α := α) text params = .ok () ↔ placeholders text = Set.Icc 1 params := by
  rw [← areUpTo_distinct, checkPlaceholders]
  split
  · next hup => exact iff_of_true rfl hup
  · next hup => exact iff_of_false (fun h => by cases h) hup

/-- The scan of any text has a result, the numbers of its placeholders, each once. So the check of a
query holds exactly when these are the numbers of the parameters, and otherwise it tells how many
there are. -/
theorem checkPlaceholders_exact (text : String) (params : Nat) :
    (∃ seen, scan text 0 [] = some seen ∧ seen.Pairwise (· < ·) ∧
      ∀ n, n ∈ seen ↔ n ∈ placeholders text) ∧
    (checkPlaceholders (α := α) text params = .ok () ↔
      placeholders text = Set.Icc 1 params) ∧
    (placeholders text ≠ Set.Icc 1 params →
      checkPlaceholders (α := α) text params =
        .error (.parameterMismatch (placeholders text).ncard params)) := by
  have hscan : scan text 0 [] = some (distinct text) := distinct_eq text ▸ scan_text text
  refine ⟨⟨distinct text, hscan, ascending_distinct text, fun n => mem_distinct⟩,
    checkPlaceholders_eq_ok_iff, fun hne => ?_⟩
  have hup : ¬ areUpTo params (distinct text) = true := mt (areUpTo_distinct text params).mp hne
  rw [ncard_placeholders, checkPlaceholders, if_neg hup]

/-- Numbers may repeat or stand next to each other, and a dollar sign may stand for itself. -/
theorem checkPlaceholders_exact_adjacent :
    checkPlaceholders (α := ℚ) "é < $2$1 OR '$€' = $01" 2 = .ok () ∧
    checkPlaceholders (α := ℚ) "a < $1 AND b > $3" 2 =
      .error (.parameterMismatch (placeholders "a < $1 AND b > $3").ncard 2) := by
  have hup : placeholders "é < $2$1 OR '$€' = $01" = Set.Icc 1 2 :=
    (areUpTo_distinct _ 2).mp (by decide +kernel)
  have hgap : placeholders "a < $1 AND b > $3" ≠ Set.Icc 1 2 :=
    mt (areUpTo_distinct _ 2).mpr (by decide +kernel)
  obtain ⟨-, hok, -⟩ := checkPlaceholders_exact (α := ℚ) "é < $2$1 OR '$€' = $01" 2
  obtain ⟨-, -, herror⟩ := checkPlaceholders_exact (α := ℚ) "a < $1 AND b > $3" 2
  exact ⟨hok.mpr hup, herror hgap⟩

end Compilation

end EquityScreen
