import PostfixCalculator.Decimal.Binary64

/-! Numbers as they are typed: digits with at most one decimal separator. -/
namespace PostfixCalculator.Numeral

def isSeparator (c : Char) : Bool := c == '.' || c == ','

/-- The characters that a number is written with. Only the digits of ASCII count. -/
def isMember (c : Char) : Bool := c.isDigit || isSeparator c

def decimal (run : List Char) : Decimal :=
  let whole := run.takeWhile Char.isDigit
  let fraction := (run.dropWhile Char.isDigit).drop 1
  ⟨Nat.ofDigitChars 10 (whole ++ fraction) 0, -(fraction.length : Int)⟩

/-- The double nearest to the value of a numeral. Two separators make no number. -/
def value? (run : List Char) : Option Float :=
  if run.countP isSeparator ≤ 1 then some (Binary64.ofDecimal (decimal run)) else none

end PostfixCalculator.Numeral
