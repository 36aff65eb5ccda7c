namespace EquityScreen.Text

/-- The parts before, between and after the occurrences of a separator; there is always one more of
them than of separators. -/
def parts (separator : Char) : List Char → List (List Char)
  | [] => [[]]
  | c :: rest =>
    if c = separator then [] :: parts separator rest
    else match parts separator rest with
      | [] => [[c]]
      | part :: others => (c :: part) :: others

end EquityScreen.Text
