namespace EquityScreen.Text

def isDigitByte (b : UInt8) : Bool := '0'.toUInt8 ≤ b && b ≤ '9'.toUInt8

/-- The part of a text from one place up to another. There is none when the places are out of
order, when they lie beyond the end, or when one of them is inside a character. -/
def slice? (s : String) (start stop : Nat) : Option String :=
  if h : start ≤ stop ∧ String.Pos.Raw.IsValid s ⟨start⟩ ∧ String.Pos.Raw.IsValid s ⟨stop⟩ then
    some (s.extract ⟨⟨start⟩, h.2.1⟩ ⟨⟨stop⟩, h.2.2⟩)
  else none

theorem slice?_isSome {s : String} {start stop : Nat} (hle : start ≤ stop)
    (hstart : String.Pos.Raw.IsValid s ⟨start⟩) (hstop : String.Pos.Raw.IsValid s ⟨stop⟩) :
    (slice? s start stop).isSome = true := by
  rw [slice?, dif_pos ⟨hle, hstart, hstop⟩]
  rfl

theorem lt_of_isDigitByte {b : UInt8} (h : isDigitByte b = true) : b < 0x80 := by
  have hhigh : b ≤ '9'.toUInt8 := of_decide_eq_true (Bool.and_eq_true_iff.mp h).2
  exact Nat.lt_of_le_of_lt hhigh (by decide)

/-- A byte below 128 is a character of its own, so that no character goes on after it. -/
theorem isValid_succ {s : String} {i : Nat} (h : i < s.utf8ByteSize)
    (hb : s.getUTF8Byte ⟨i⟩ h < 0x80) : String.Pos.Raw.IsValid s ⟨i + 1⟩ := by
  have hbit : s.getUTF8Byte ⟨i⟩ h &&& 0x80 = 0 := by
    have hall : ∀ n < 128, UInt8.ofNat n &&& 0x80 = 0 := by decide
    simpa using hall _ (UInt8.lt_iff_toNat_lt.mp hb)
  have hstart : String.Pos.Raw.IsValid s ⟨i⟩ :=
    String.Pos.Raw.isValid_iff_isUTF8FirstByte.mpr (.inr ⟨h, .inl hbit⟩)
  let p : s.Pos := ⟨⟨i⟩, hstart⟩
  have hp : p ≠ s.endPos := by
    intro heq
    have hend : i = s.utf8ByteSize := congrArg (fun q : s.Pos => q.offset.byteIdx) heq
    omega
  have hsize : (p.get hp).utf8Size = 1 := by
    rw [← String.Pos.utf8ByteSize_byte, UInt8.utf8ByteSize]
    refine if_pos ?_
    rw [← String.Pos.getUTF8Byte_offset (h := h)]
    exact hbit
  have hnext : (p.next hp).offset = ⟨i + 1⟩ := by
    rw [String.Pos.Raw.ext_iff, String.Pos.byteIdx_offset_next, hsize]
  exact hnext ▸ (p.next hp).isValid

end EquityScreen.Text
