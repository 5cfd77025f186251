import PostfixCalculator.Proofs.Building
import PostfixCalculator.Tree.Value

/-! A tree has the value that recursion on it gives.

A postfix expression is run as its tree is built: at each token the values on the stack are those of
the trees built so far. So no operator lacks a value where it does not lack a tree. -/
namespace PostfixCalculator

variable {F : Type} (a : Arithmetic F)

namespace Tree

variable {tokens before after : List Token} {stack stack' : List Tree} {token : Token} {op : Operator}
  {tree : Tree}

theorem run_of_build (h : build stack token = .ok stack') (rest : List Token) :
    a.run (token :: rest) (stack.map (value a)) = a.run rest (stack'.map (value a)) := by
  rcases build_cases h with ⟨value, rfl, rfl⟩ | ⟨op, l, r, below, rfl, rfl, rfl⟩
  · rfl
  · rfl

theorem run_of_foldlM (h : tokens.foldlM build stack = .ok stack') (rest : List Token) :
    a.run (tokens ++ rest) (stack.map (value a)) = a.run rest (stack'.map (value a)) := by
  induction tokens generalizing stack with
  | nil =>
    cases h
    rfl
  | cons token tokens ih =>
    obtain ⟨middle, hfirst, hrest⟩ := foldlM_cons_ok_iff.mp h
    rw [List.cons_append, run_of_build a hfirst, ih hrest]

example : (node .minus (.leaf 10) (.leaf 4)).evaluate .double = 6 := by decide +kernel

end Tree

end PostfixCalculator
