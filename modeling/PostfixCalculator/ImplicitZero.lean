import PostfixCalculator.Text.Blank
import PostfixCalculator.Token.Basic

/-! Operators without a left operand. Each gets a zero for one, so `-3` is read as `0-3`. -/
namespace PostfixCalculator.ImplicitZero

def opens (c : Char) : Bool := c == '(' || isOperator c

/-- After `written`, which is kept in reverse, an operator has no left operand. White space does
not count. -/
def atStart (written : List Char) : Bool :=
  match written.dropWhile Text.isBlank with
  | [] => true
  | c :: _ => opens c

def write (written : List Char) (c : Char) : List Char :=
  if isOperator c && atStart written then c :: '0' :: written else c :: written

/-- The text with its zeros. What stands before an operator is looked up in the text written so
far, zeros included. -/
def insert (s : List Char) : List Char := (s.foldl write []).reverse

end PostfixCalculator.ImplicitZero
