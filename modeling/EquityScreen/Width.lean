namespace EquityScreen.Width

def twoTo (n : Nat) : Nat := Nat.pow 2 n

def isSigned (bits : Nat) (n : Int) : Bool :=
  -(twoTo (bits - 1) : Int) ≤ n && n < (twoTo (bits - 1) : Int)

def isUnsigned (bits : Nat) (n : Int) : Bool := 0 ≤ n && n < (twoTo bits : Int)

def largestSigned (bits : Nat) : Nat := twoTo (bits - 1) - 1

def largestUnsigned (bits : Nat) : Nat := twoTo bits - 1

end EquityScreen.Width
