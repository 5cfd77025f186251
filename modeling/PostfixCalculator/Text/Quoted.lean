import PostfixCalculator.Text.Printable

/-! A text between double quotes, with what would not show inside them escaped. -/
namespace PostfixCalculator.Text

/-- A character as it stands between quotes. Hidden characters are named by their code point, in
lower-case hexadecimal without leading zeros. -/
def escape (c : Char) : List Char :=
  if c = '"' ∨ c = '\\' then ['\\', c]
  else if c = '\n' then ['\\', 'n']
  else if c = '\r' then ['\\', 'r']
  else if c = '\t' then ['\\', 't']
  else if c = '\x00' then ['\\', '0']
  else if isPrintable c then [c]
  else ['\\', 'u', '\x7b'] ++ Nat.toDigits 16 c.toNat ++ ['\x7d']

def quoted (s : List Char) : String :=
  String.ofList ('"' :: s.flatMap escape ++ ['"'])

end PostfixCalculator.Text
