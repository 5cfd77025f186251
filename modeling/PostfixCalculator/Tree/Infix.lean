import PostfixCalculator.Priorities.Basic
import PostfixCalculator.Tree.Basic

/-! Trees written as expressions again, with no parenthesis that could be left out. -/
namespace PostfixCalculator.Tree

def enclose (t : Priorities) (loose : Nat → Bool) (operand : Tree) (s : List Char) : List Char :=
  match operand with
  | .leaf _ => s
  | .node op _ _ => if loose (t.rank op) then '(' :: s ++ [')'] else s

/-- On the left, operators of equal priority need no parentheses. -/
def expression (t : Priorities) : Tree → List Char
  | .leaf x => Layout.plain.number x
  | .node op l r =>
    enclose t (· < t.rank op) l (l.expression t) ++ op.symbol ::
      enclose t (· ≤ t.rank op) r (r.expression t)

end PostfixCalculator.Tree
