import EquityScreen.Text.Blank
import EquityScreen.Text.Bytes
import Mathlib.Algebra.Group.Nat.Defs
import Mathlib.Data.List.TakeWhile
import Mathlib.Tactic.SplitIfs

namespace EquityScreen.Text

theorem takeBytes_length {cs : List Char} (h : ∀ c ∈ cs, c.utf8Size = 1) :
    takeBytes cs.length cs = some cs := by
  induction cs with
  | nil => rfl
  | cons c rest ih =>
    obtain ⟨hc, hrest⟩ := List.forall_mem_cons.mp h
    simp [takeBytes, hc, ih hrest]

theorem length_le_of_takeBytes {n : Nat} {cs front : List Char} (h : takeBytes n cs = some front) :
    front.length ≤ n := by
  induction cs generalizing n front with
  | nil =>
    cases n with
    | zero => cases h; simp
    | succ n => cases h
  | cons c rest ih =>
    cases n with
    | zero => cases h; simp
    | succ n =>
      rw [takeBytes] at h
      split at h
      · obtain ⟨front, hfront, rfl⟩ := Option.map_eq_some_iff.mp h
        have hlength := ih hfront
        have hsize := c.utf8Size_pos
        rw [List.length_cons]
        omega
      · cases h

def bytes (cs : List Char) : List UInt8 := cs.flatMap String.utf8EncodeChar

theorem bytes_cons (c : Char) (cs : List Char) :
    bytes (c :: cs) = String.utf8EncodeChar c ++ bytes cs := rfl

theorem bytes_append (cs ds : List Char) : bytes (cs ++ ds) = bytes cs ++ bytes ds :=
  List.flatMap_append

theorem eq_nil_of_bytes {cs : List Char} (h : bytes cs = []) : cs = [] := by
  cases cs with
  | nil => rfl
  | cons c cs => exact absurd (List.append_eq_nil_iff.mp h).1 String.utf8EncodeChar_ne_nil

theorem toByteArray_eq (s : String) : s.toByteArray = (bytes s.toList).toByteArray :=
  String.utf8Encode_toList.symm

theorem bytes_injective : Function.Injective bytes := by
  intro cs ds h
  have hbytes : (String.ofList cs).toByteArray = (String.ofList ds).toByteArray := by
    rw [toByteArray_eq, toByteArray_eq, String.toList_ofList, String.toList_ofList, h]
  exact String.ofList_injective (String.toByteArray_inj.mp hbytes)

theorem length_bytes (s : String) : (bytes s.toList).length = s.utf8ByteSize := by
  rw [← List.size_toByteArray, ← toByteArray_eq, String.size_toByteArray]

theorem drop_bytes_of_lt {s : String} {i : Nat} (h : i < s.utf8ByteSize) :
    (bytes s.toList).drop i = s.getUTF8Byte ⟨i⟩ h :: (bytes s.toList).drop (i + 1) := by
  have hi : i < (bytes s.toList).length := (length_bytes s).symm ▸ h
  rw [List.drop_eq_getElem_cons hi, String.getUTF8Byte_eq_getElem, List.cons.injEq]
  refine ⟨?_, rfl⟩
  simp only [toByteArray_eq, List.getElem_toByteArray]

theorem drop_bytes_of_not_lt {s : String} {i : Nat} (h : ¬ i < s.utf8ByteSize) :
    (bytes s.toList).drop i = [] :=
  List.drop_eq_nil_of_le ((length_bytes s).symm ▸ Nat.le_of_not_lt h)

theorem bytes_of_slice? {s t : String} {start stop : Nat} (h : slice? s start stop = some t) :
    bytes t.toList = ((bytes s.toList).drop start).take (stop - start) := by
  unfold slice? at h
  split at h
  · cases h
    have hcut : ∀ b : ByteArray, (b.extract start stop).data.toList =
        (b.data.toList.drop start).take (stop - start) := by
      intro b
      rw [ByteArray.data_extract, Array.toList_extract, List.extract_eq_take_drop]
    have hdata : ∀ cs : List Char, (bytes cs).toByteArray.data.toList = bytes cs := by
      intro cs
      exact List.toList_data_toByteArray
    rw [← hdata, ← toByteArray_eq, String.toByteArray_extract, hcut, toByteArray_eq, hdata]
  · cases h

theorem utf8EncodeChar_of_lt {c : Char} (h : c.toNat < 128) :
    String.utf8EncodeChar c = [UInt8.ofNat c.toNat] :=
  if_pos (Nat.le_of_lt_succ h)

theorem le_of_mem_utf8EncodeChar {c : Char} {b : UInt8} (h : ¬ c.toNat < 128)
    (hb : b ∈ String.utf8EncodeChar c) : 0x80 ≤ b := by
  have hhigh {n : Nat} (hlow : 128 ≤ n) (hn : n < 256) : 0x80 ≤ UInt8.ofNat n := by
    rw [UInt8.le_iff_toNat_le, UInt8.toNat_ofNat_of_lt' hn]
    exact hlow
  have hlong : ¬ c.toNat ≤ 127 := fun hle => h (Nat.lt_succ_of_le hle)
  simp only [String.utf8EncodeChar, Char.toNat_val, hlong, if_false] at hb
  split_ifs at hb
  all_goals
    simp only [List.mem_cons, List.not_mem_nil, or_false] at hb
    rcases hb with rfl | rfl | rfl | rfl
  all_goals exact hhigh (by omega) (by omega)

theorem exists_of_utf8EncodeChar (c : Char) :
    ∃ b tail, String.utf8EncodeChar c = b :: tail ∧ ∀ b' ∈ tail, 0x80 ≤ b' := by
  obtain ⟨b, tail, hcons⟩ := List.exists_cons_of_ne_nil (String.utf8EncodeChar_ne_nil (c := c))
  refine ⟨b, tail, hcons, fun b' hb' => ?_⟩
  by_cases hc : c.toNat < 128
  · rw [utf8EncodeChar_of_lt hc] at hcons
    obtain ⟨-, rfl⟩ := List.cons.inj hcons
    cases hb'
  · exact le_of_mem_utf8EncodeChar hc (hcons ▸ List.mem_cons_of_mem b hb')

/-- A byte below 128 is the number of a character. -/
theorem exists_of_bytes_eq_cons {cs : List Char} {b : UInt8} {bs : List UInt8}
    (h : bytes cs = b :: bs) (hb : b < 0x80) :
    ∃ c rest, cs = c :: rest ∧ c.toNat = b.toNat ∧ bytes rest = bs := by
  cases cs with
  | nil => cases h
  | cons c rest =>
    rw [bytes_cons] at h
    by_cases hc : c.toNat < 128
    · rw [utf8EncodeChar_of_lt hc] at h
      obtain ⟨hcb, hrest⟩ := List.cons.inj h
      refine ⟨c, rest, rfl, ?_, hrest⟩
      rw [← hcb, UInt8.toNat_ofNat_of_lt' (hc.trans (by decide))]
    · obtain ⟨b', bs', hcons⟩ :=
        List.exists_cons_of_ne_nil (String.utf8EncodeChar_ne_nil (c := c))
      rw [hcons] at h
      obtain ⟨rfl, -⟩ := List.cons.inj h
      have hhigh := le_of_mem_utf8EncodeChar hc (hcons ▸ List.mem_cons_self)
      exact absurd hb (UInt8.not_lt.mpr hhigh)

theorem isDigit_iff {c : Char} : isDigit c = true ↔ 48 ≤ c.toNat ∧ c.toNat ≤ 57 := by
  simp only [isDigit, Bool.and_eq_true, decide_eq_true_eq, Char.le_def, UInt32.le_iff_toNat_le]
  exact Iff.rfl

theorem isBlank_of_isDigit {c : Char} (h : isDigit c = true) : isBlank c = false := by
  obtain ⟨hlow, hhigh⟩ := isDigit_iff.mp h
  simp [isBlank, blankRanges]
  omega

theorem utf8Size_of_isDigit {c : Char} (h : isDigit c = true) : c.utf8Size = 1 := by
  have hhigh : c.val.toNat ≤ 57 := (isDigit_iff.mp h).2
  rw [Char.utf8Size_eq_one_iff, UInt32.le_iff_toNat_le]
  exact hhigh.trans (by decide)

theorem digitsValue_cons (c : Char) (rest : List Char) : digitsValue (c :: rest) =
    10 ^ rest.length * (c.toNat - '0'.toNat) + digitsValue rest := by
  have hcons : Nat.ofDigitChars 10 (c :: rest) 0 = _ := Nat.ofDigitChars_cons
  rw [Nat.mul_zero, Nat.zero_add] at hcons
  exact hcons.trans Nat.ofDigitChars_eq_ofDigitChars_zero

theorem digitsValue_lt {cs : List Char} (h : ∀ c ∈ cs, isDigit c = true) :
    digitsValue cs < 10 ^ cs.length := by
  induction cs with
  | nil => decide
  | cons c rest ih =>
    obtain ⟨hc, hrest⟩ := List.forall_mem_cons.mp h
    have hdigit : c.toNat - '0'.toNat ≤ 9 := by
      have hzero : '0'.toNat = 48 := rfl
      have hhigh := (isDigit_iff.mp hc).2
      omega
    have htop := Nat.mul_le_mul_left (10 ^ rest.length) hdigit
    have hlow := ih hrest
    rw [digitsValue_cons, List.length_cons, Nat.pow_succ]
    omega

theorem isDigitByte_iff {b : UInt8} : isDigitByte b = true ↔ 48 ≤ b.toNat ∧ b.toNat ≤ 57 := by
  simp only [isDigitByte, Bool.and_eq_true, decide_eq_true_eq, UInt8.le_iff_toNat_le]
  exact Iff.rfl

theorem bytes_cons_of_isDigit {c : Char} (h : isDigit c = true) (cs : List Char) :
    bytes (c :: cs) = UInt8.ofNat c.toNat :: bytes cs := by
  have hlow : c.toNat < 128 := (isDigit_iff.mp h).2.trans_lt (by decide)
  rw [bytes_cons, utf8EncodeChar_of_lt hlow, List.singleton_append]

theorem isDigitByte_of_bytes {c : Char} {cs : List Char} {b : UInt8} {bs : List UInt8}
    (h : bytes (c :: cs) = b :: bs) : isDigitByte b = isDigit c := by
  rw [Bool.eq_iff_iff]
  constructor
  · intro hb
    obtain ⟨c', rest, hcons, hc, -⟩ := exists_of_bytes_eq_cons h (lt_of_isDigitByte hb)
    obtain ⟨rfl, -⟩ := List.cons.inj hcons
    exact isDigit_iff.mpr (hc ▸ isDigitByte_iff.mp hb)
  · intro hc
    have hdigit := isDigit_iff.mp hc
    rw [bytes_cons_of_isDigit hc] at h
    obtain ⟨rfl, -⟩ := List.cons.inj h
    rw [isDigitByte_iff, UInt8.toNat_ofNat_of_lt' (hdigit.2.trans_lt (by decide))]
    exact hdigit

theorem takeWhile_bytes (cs : List Char) :
    (bytes cs).takeWhile isDigitByte = bytes (cs.takeWhile isDigit) := by
  induction cs with
  | nil => rfl
  | cons c cs ih =>
    by_cases hc : isDigit c = true
    · have hcons := bytes_cons_of_isDigit hc cs
      have hdigit : isDigitByte (UInt8.ofNat c.toNat) = true :=
        (isDigitByte_of_bytes hcons).trans hc
      rw [hcons, List.takeWhile_cons_of_pos hdigit, List.takeWhile_cons_of_pos hc,
        bytes_cons_of_isDigit hc, ih]
    · have hne : bytes (c :: cs) ≠ [] := mt eq_nil_of_bytes (List.cons_ne_nil c cs)
      obtain ⟨b, bs, hcons⟩ := List.exists_cons_of_ne_nil hne
      have hdigit : ¬ isDigitByte b = true := (isDigitByte_of_bytes hcons).symm ▸ hc
      rw [hcons, List.takeWhile_cons_of_neg hdigit, List.takeWhile_cons_of_neg hc]
      rfl

theorem dropWhile_bytes (cs : List Char) :
    (bytes cs).dropWhile isDigitByte = bytes (cs.dropWhile isDigit) := by
  have hbytes : (bytes cs).takeWhile isDigitByte ++ (bytes cs).dropWhile isDigitByte =
      bytes (cs.takeWhile isDigit) ++ bytes (cs.dropWhile isDigit) := by
    rw [List.takeWhile_append_dropWhile, ← bytes_append, List.takeWhile_append_dropWhile]
  rw [takeWhile_bytes] at hbytes
  exact List.append_cancel_left hbytes

end EquityScreen.Text
