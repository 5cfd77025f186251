import PostfixCalculator.Tree.Basic

/-! The value of a tree, in any arithmetic. -/
namespace PostfixCalculator

structure Arithmetic (F : Type) where
  ofFloat : Float → F
  add : F → F → F
  sub : F → F → F
  mul : F → F → F
  div : F → F → F
  pow : F → F → F
  undefined : F

namespace Arithmetic

def double : Arithmetic Float where
  ofFloat x := x
  add x y := x + y
  sub x y := x - y
  mul x y := x * y
  div x y := x / y
  pow := Float.pow
  undefined := Tree.undefined

def single : Arithmetic Float32 where
  ofFloat := Float.toFloat32
  add x y := x + y
  sub x y := x - y
  mul x y := x * y
  div x y := x / y
  pow := Float32.pow
  undefined := Tree.undefined.toFloat32

variable {F : Type} (a : Arithmetic F)

def apply : Operator → F → F → F
  | .plus => a.add
  | .minus => a.sub
  | .times => a.mul
  | .divide => a.div
  | .power => a.pow

/-- Runs a postfix expression on a stack of values, last value first. The value is the last one
left; there is none if an operator lacks a value. -/
def run : List Token → List F → Option F
  | [], stack => stack.head?
  | .number value :: rest, stack => run rest (a.ofFloat value :: stack)
  | .operator op :: rest, y :: x :: stack => run rest (a.apply op x y :: stack)
  | _ :: _, _ => none

end Arithmetic

namespace Tree

variable {F : Type}

def evaluate (a : Arithmetic F) (t : Tree) : F := (a.run t.postfixOrder []).getD a.undefined

def value (a : Arithmetic F) : Tree → F
  | .leaf x => a.ofFloat x
  | .node op l r => a.apply op (l.value a) (r.value a)

end Tree

def valueText (x : Float) : String :=
  if Binary64.magnitude x = Binary64.infinity then
    if Binary64.isNegative x then "-∞" else "+∞"
  else String.ofList (Layout.plain.number x)

end PostfixCalculator
