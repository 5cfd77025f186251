import PostfixCalculator.Priorities.Basic
import PostfixCalculator.Tree.Basic

/-! Infix expressions as a grammar, and the tree that each of them stands for.

The tree is given from the top: a chain of operands is divided at the last of its operators of
least priority. -/
namespace PostfixCalculator

mutual

inductive Operand where
  | number (value : Float)
  | group (chain : Chain)

inductive Chain where
  | last (operand : Operand)
  | link (operand : Operand) (op : Operator) (rest : Chain)

end

mutual

def Operand.tokens : Operand → List Token
  | .number value => [.number value]
  | .group chain => .opening :: chain.tokens ++ [.closing]

def Chain.tokens : Chain → List Token
  | .last operand => operand.tokens
  | .link operand op rest => operand.tokens ++ .operator op :: rest.tokens

end

/-- The operators between trees, each with the tree after it. -/
abbrev Links := List (Operator × Tree)

namespace Links

/-- Divides at the last operator of least priority. -/
def divide (t : Priorities) : Links → Option (Links × (Operator × Tree) × Links)
  | [] => none
  | x :: xs =>
    match divide t xs with
    | none => some ([], x, [])
    | some (before, y, after) =>
      if t.rank y.1 ≤ t.rank x.1 then some (x :: before, y, after)
      else some ([], x, xs)

theorem divide_eq {t : Priorities} {xs before after : Links} {y : Operator × Tree}
    (h : divide t xs = some (before, y, after)) : xs = before ++ y :: after := by
  induction xs generalizing before y after with
  | nil => cases h
  | cons x xs ih =>
    unfold divide at h
    split at h
    next hnone =>
      cases h
      cases xs with
      | nil => rfl
      | cons z zs =>
        unfold divide at hnone
        split at hnone
        · cases hnone
        · split at hnone <;> cases hnone
    next hsome =>
      split at h
      · cases h
        rw [ih hsome]
        rfl
      · cases h
        rfl

def tree (t : Priorities) (first : Tree) (xs : Links) : Tree :=
  match _h : divide t xs with
  | none => first
  | some (before, (op, next), after) => .node op (tree t first before) (tree t next after)
termination_by xs.length
decreasing_by all_goals rw [divide_eq _h]; simp; try omega

end Links

mutual

def Operand.tree (t : Priorities) : Operand → Tree
  | .number value => .leaf value
  | .group chain => Links.tree t (chain.first t) (chain.links t)

def Chain.first (t : Priorities) : Chain → Tree
  | .last operand => operand.tree t
  | .link operand _ _ => operand.tree t

def Chain.links (t : Priorities) : Chain → Links
  | .last _ => []
  | .link _ op rest => (op, rest.first t) :: rest.links t

end

def Chain.tree (t : Priorities) (chain : Chain) : Tree :=
  Links.tree t (chain.first t) (chain.links t)

mutual

def Operand.operators : Operand → List Operator
  | .number _ => []
  | .group chain => chain.operators

def Chain.operators : Chain → List Operator
  | .last operand => operand.operators
  | .link operand op rest => operand.operators ++ op :: rest.operators

end

end PostfixCalculator
