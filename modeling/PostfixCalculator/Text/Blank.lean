/-! White space, and the ways a text is cut along it. -/
namespace PostfixCalculator.Text

/-- The characters with the Unicode property White_Space. -/
def isBlank (c : Char) : Bool :=
  let n := c.toNat
  (0x09 ≤ n && n ≤ 0x0D) || n == 0x20 || n == 0x85 || n == 0xA0 || n == 0x1680 ||
    (0x2000 ≤ n && n ≤ 0x200A) || n == 0x2028 || n == 0x2029 || n == 0x202F ||
    n == 0x205F || n == 0x3000

def trimRight (p : Char → Bool) (s : List Char) : List Char :=
  (s.reverse.dropWhile p).reverse

def trim (s : List Char) : List Char := trimRight isBlank (s.dropWhile isBlank)

/-- The pieces between the characters that satisfy `p`: one more than there are of these. -/
def split (p : Char → Bool) : List Char → List (List Char)
  | [] => [[]]
  | c :: s =>
    if p c then [] :: split p s
    else match split p s with
      | [] => [[c]]
      | piece :: pieces => (c :: piece) :: pieces

def lines (s : List Char) : List (List Char) := split (· == '\n') s

def fields (s : List Char) : List (List Char) := (split isBlank s).filter (!·.isEmpty)

end PostfixCalculator.Text
