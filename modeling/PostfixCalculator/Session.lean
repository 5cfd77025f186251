import PostfixCalculator.ImplicitZero
import PostfixCalculator.Postfix
import PostfixCalculator.Tree.Drawing
import PostfixCalculator.Tree.Value

/-! A session: a priority table and the tree of the last expression. -/
namespace PostfixCalculator

/-- How far the parsing of an expression came. `cursor` is the offset at which the conversion to
postfix order ended. -/
inductive Attempt where
  | notConverted (error : ParseError)
  | notBuilt (tokens : List Token) (cursor : Nat) (error : ParseError)
  | built (tokens : List Token) (cursor : Nat) (tree : Tree)

namespace Attempt

/-- What is converted in place of an expression: zeros stand before the operators without a left
operand, and a parenthesis closes the whole. -/
def prepare (e : List Char) : List Char := ImplicitZero.insert e ++ [')']

def make (table : Priorities) (e : String) : Attempt :=
  match Postfix.ofText table (prepare e.toList) with
  | (.error error, _) => .notConverted error
  | (.ok tokens, cursor) =>
    match Tree.ofPostfix tokens with
    | .error error => .notBuilt tokens cursor error
    | .ok tree => .built tokens cursor tree

def tree? : Attempt → Option Tree
  | .built _ _ tree => some tree
  | _ => none

def answer : Attempt → Except ParseError String
  | .notConverted error | .notBuilt _ _ error => .error error
  | .built tokens _ _ => .ok (Postfix.text tokens)

end Attempt

structure Session where
  table : Priorities
  tree : Option Tree
  deriving DecidableEq

namespace Session

def start (table : Priorities) : Session := ⟨table, none⟩

/-- Parses an expression. Its tree replaces the one before, which an error leaves without
replacement. -/
def parse (s : Session) (e : String) : Except ParseError String × Session :=
  let attempt := Attempt.make s.table e
  (attempt.answer, { s with tree := attempt.tree? })

def solve (s : Session) : Float :=
  match s.tree with
  | none => 0
  | some tree => tree.evaluate .double

def drawing (s : Session) : Option String := s.tree.map Tree.drawing

def copy (s : Session) : Session := { s with tree := s.tree.map Tree.copy }

end Session
end PostfixCalculator
