import PostfixCalculator.Priorities.Basic
import PostfixCalculator.Token.Reader

/-! Expressions in postfix order, from infix ones by way of a stack of pending operators. -/
namespace PostfixCalculator

inductive Pending where
  | operator (op : Operator)
  | opening
  deriving DecidableEq, Repr

/-- The stack, top first, and the postfix expression so far, last token first. -/
structure Conversion where
  stack : List Pending
  written : List Token
  deriving DecidableEq

namespace Conversion

/-- The whole expression counts as a group, which its last parenthesis closes. -/
def start : Conversion := ⟨[.opening], []⟩

/-- Writes the operators on top of the stack whose priority is at least `p`. Operators of equal
priority thus group to the left. -/
def release (t : Priorities) (p : UInt32) :
    List Pending → List Token → Except TableError Conversion
  | .operator op :: stack, written => do
    let q ← t.priority op
    if p ≤ q then release t p stack (.operator op :: written)
    else return ⟨.operator op :: stack, written⟩
  | stack, written => return ⟨stack, written⟩

def closeGroup : List Pending → List Token → Except ParseError Conversion
  | .operator op :: stack, written => closeGroup stack (.operator op :: written)
  | .opening :: stack, written => .ok ⟨stack, written⟩
  | [], _ => .error .unbalanced

def pushOperator (t : Priorities) (op : Operator) (c : Conversion) :
    Except TableError Conversion := do
  let p ← t.priority op
  let c ← release t p c.stack c.written
  return ⟨.operator op :: c.stack, c.written⟩

def step (t : Priorities) (c : Conversion) : Token → Except ParseError Conversion
  | .number value => .ok { c with written := .number value :: c.written }
  | .operator op => (c.pushOperator t op).mapError .table
  | .opening => .ok { c with stack := .opening :: c.stack }
  | .closing => closeGroup c.stack c.written

/-- Converts what is read until the stack is empty, which must be the end. Gives the postfix
expression or the first error, and the offset reached. -/
def run (t : Priorities) : Reading → Conversion → Except ParseError (List Token) × Nat
  | .fault e cursor, _ => (.error e, cursor)
  | .finished cursor, c =>
    match c.stack with
    | [] => (.ok c.written.reverse, cursor)
    | _ :: _ => (.error .unbalanced, cursor)
  | .token token cursor rest, c =>
    match c.stack with
    | [] => (.error .unbalanced, cursor)
    | _ :: _ =>
      match c.step t token with
      | .ok c => run t rest c
      | .error e => (.error e, cursor)

end Conversion

namespace Postfix

def ofText (t : Priorities) (s : List Char) : Except ParseError (List Token) × Nat :=
  Conversion.run t (.ofText s) .start

def text (tokens : List Token) : String := " ".intercalate (tokens.map Token.text)

end Postfix
end PostfixCalculator
