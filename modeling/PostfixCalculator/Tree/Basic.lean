import PostfixCalculator.Fault

/-! Expression trees and their postfix order.

A tree can be as deep as its expression is long, so what runs walks it with a list of subtrees that
are still to visit. `inPostfix` and `height` give the same by recursion, for reasoning. -/
namespace PostfixCalculator

/-- Neither the shape of a tree nor its postfix order depends on what the leaves hold. -/
inductive Tree (α : Type := Float) where
  | leaf (value : α)
  | node (op : Operator) (left right : Tree α)
  deriving DecidableEq

namespace Tree

variable {α : Type}

def root : Tree α → Token α
  | .leaf value => .number value
  | .node op _ _ => .operator op

def left? : Tree α → Option (Tree α)
  | .leaf _ => none
  | .node _ l _ => some l

def right? : Tree α → Option (Tree α)
  | .leaf _ => none
  | .node _ _ r => some r

def size : Tree α → Nat
  | .leaf _ => 1
  | .node _ l r => l.size + r.size + 1

def totalSize : List (Tree α) → Nat
  | [] => 0
  | t :: todo => t.size + totalSize todo

/-- The roots of the trees to visit and of their subtrees, put before `after`. A root comes after
its right subtree, which comes after the left one; the trees to visit come last to first. -/
def collect : List (Tree α) → List (Token α) → List (Token α)
  | [], after => after
  | .leaf value :: todo, after => collect todo (.number value :: after)
  | .node op l r :: todo, after => collect (r :: l :: todo) (.operator op :: after)
termination_by todo => totalSize todo
decreasing_by all_goals simp only [totalSize, size]; omega

def postfixOrder (t : Tree α) : List (Token α) := collect [t] []

def debugText (t : Tree) : String :=
  "AstNode([" ++ ", ".intercalate (t.postfixOrder.map Token.debugText) ++ "])"

/-- The greatest level of a node of the given trees, which have levels of their own, or `deepest`
if that is greater. -/
def deepestOf : List (Tree α × Nat) → Nat → Nat
  | [], deepest => deepest
  | (.leaf _, level) :: todo, deepest => deepestOf todo (max deepest level)
  | (.node _ l r, level) :: todo, deepest =>
    deepestOf ((r, level + 1) :: (l, level + 1) :: todo) (max deepest level)
termination_by todo => totalSize (todo.map Prod.fst)
decreasing_by all_goals simp only [List.map_cons, totalSize, size]; omega

def depth (t : Tree α) : Nat := deepestOf [(t, 1)] 0

def build (stack : List (Tree α)) : Token α → Except ParseError (List (Tree α))
  | .number value => .ok (.leaf value :: stack)
  | .operator op =>
    match stack with
    | r :: l :: rest => .ok (.node op l r :: rest)
    | _ => .error (.missingOperand op)
  | .opening | .closing => .error .unbalanced

def ofPostfix (tokens : List (Token α)) : Except ParseError (Tree α) := do
  match ← tokens.foldlM build [] with
  | [t] => .ok t
  | stack => .error (.leftover stack.length)

/-- The tree built anew from its postfix order, or a leaf if it could not be built. -/
def rebuild (missing : α) (t : Tree α) : Tree α :=
  match ofPostfix t.postfixOrder with
  | .ok u => u
  | .error _ => .leaf missing

def undefined : Float := Float.ofBits 0x7FF8000000000000

def copy (t : Tree) : Tree := t.rebuild undefined

def same (t u : Tree) : Bool := t.postfixOrder.isEqv u.postfixOrder Token.same

def inPostfix : Tree α → List (Token α)
  | .leaf value => [.number value]
  | .node op l r => l.inPostfix ++ r.inPostfix ++ [.operator op]

def height : Tree α → Nat
  | .leaf _ => 1
  | .node _ l r => 1 + max l.height r.height

def alike : Tree → Tree → Bool
  | .leaf x, .leaf y => x == y
  | .node op l r, .node op' l' r' => op = op' && l.alike l' && r.alike r'
  | _, _ => false

theorem collect_eq (todo : List (Tree α)) (after : List (Token α)) :
    collect todo after = todo.reverse.flatMap inPostfix ++ after := by
  fun_induction collect todo after with
  | case1 => rfl
  | case2 after value todo ih => simp [ih, inPostfix]
  | case3 after op l r todo ih => simp [ih, inPostfix]

theorem postfixOrder_eq (t : Tree α) : t.postfixOrder = t.inPostfix := by
  simp [postfixOrder, collect_eq]

theorem height_pos (t : Tree α) : 0 < t.height := by
  cases t <;> simp only [height] <;> omega

theorem deepestOf_eq (todo : List (Tree α × Nat)) (deepest : Nat) :
    deepestOf todo deepest =
      todo.foldl (fun m t => max m (t.2 + t.1.height - 1)) deepest := by
  fun_induction deepestOf todo deepest with
  | case1 => rfl
  | case2 value level todo deepest ih => simp [ih, height]
  | case3 op l r level todo deepest ih =>
    have hl := l.height_pos
    have hr := r.height_pos
    simp only [ih, List.foldl_cons, height]
    congr 1
    omega

end Tree
end PostfixCalculator
