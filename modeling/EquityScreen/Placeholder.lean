import EquityScreen.Text.Blank
import EquityScreen.Text.Bytes
import EquityScreen.Width

namespace EquityScreen.Placeholder

def maxNumber : Nat := Width.largestUnsigned 64

def number? (digits : List Char) : Option Nat :=
  let n := Text.digitsValue digits
  if digits.isEmpty || maxNumber < n then none else some n

def digitsEnd (text : String) (i : Nat) : Nat :=
  if h : i < text.utf8ByteSize then
    if Text.isDigitByte (text.getUTF8Byte ⟨i⟩ h) then digitsEnd text (i + 1) else i
  else i
termination_by text.utf8ByteSize - i

/-- Adds a number to numbers in ascending order, unless it is one of them. -/
def note (n : Nat) : List Nat → List Nat
  | [] => [n]
  | m :: rest => if n < m then n :: m :: rest else if n = m then m :: rest else m :: note n rest

def noteDigits (digits : List Char) (seen : List Nat) : List Nat :=
  match number? digits with
  | some n => note n seen
  | none => seen

/-- Notes the numbers after every `$` from a place on. A `$` without digits, or with a number beyond
the largest, is no placeholder. There is no result when digits cannot be cut out of the text. -/
def scan (text : String) (i : Nat) (seen : List Nat) : Option (List Nat) :=
  if h : i < text.utf8ByteSize then
    if text.getUTF8Byte ⟨i⟩ h = '$'.toUInt8 then
      let start := i + 1
      let stop := digitsEnd text start
      match Text.slice? text start stop with
      | some digits => scan text (max stop start) (noteDigits digits.toList seen)
      | none => none
    else scan text (i + 1) seen
  else some seen
termination_by text.utf8ByteSize - i

theorem le_digitsEnd (text : String) (i : Nat) : i ≤ digitsEnd text i := by
  fun_induction digitsEnd text i with
  | case1 i h hd ih => omega
  | case2 i h hd => exact Nat.le_refl i
  | case3 i h => exact Nat.le_refl i

theorem isValid_digitsEnd {text : String} {i : Nat} (h : String.Pos.Raw.IsValid text ⟨i⟩) :
    String.Pos.Raw.IsValid text ⟨digitsEnd text i⟩ := by
  fun_induction digitsEnd text i with
  | case1 i hi hd ih => exact ih (Text.isValid_succ hi (Text.lt_of_isDigitByte hd))
  | case2 i hi hd => exact h
  | case3 i hi => exact h

/-- The digits after a `$` stand between ends of characters, whatever the text. -/
theorem isSome_slice?_digits {text : String} {i : Nat} (h : i < text.utf8ByteSize)
    (hb : text.getUTF8Byte ⟨i⟩ h = '$'.toUInt8) :
    (Text.slice? text (i + 1) (digitsEnd text (i + 1))).isSome = true := by
  have hstart : String.Pos.Raw.IsValid text ⟨i + 1⟩ := Text.isValid_succ h (hb ▸ by decide)
  exact Text.slice?_isSome (le_digitsEnd text (i + 1)) hstart (isValid_digitsEnd hstart)

theorem isSome_scan (text : String) (i : Nat) (seen : List Nat) :
    (scan text i seen).isSome = true := by
  fun_induction scan text i seen with
  | case1 i seen h hb start stop digits hs ih => exact ih
  | case2 i seen h hb start stop hs =>
    have hcut := isSome_slice?_digits h hb
    rw [hs] at hcut
    cases hcut
  | case3 i seen h hb ih => exact ih
  | case4 i seen h => rfl

def distinct (text : String) : List Nat := (scan text 0 []).get (isSome_scan text 0 [])

def areUpTo (n : Nat) (seen : List Nat) : Bool :=
  seen.length = n && seen = List.range' 1 seen.length

end EquityScreen.Placeholder
