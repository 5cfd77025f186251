import Mathlib.Data.List.Induction
import PostfixCalculator.Proofs.Building
import PostfixCalculator.Proofs.Conservation

/-! What becomes of a list of tokens that is built in postfix order.

There are always as many trees on the stack as the numbers so far outnumber the operators. So whether
a token has its place is seen from the tokens before it, and what is left at the end from all of
them. -/
namespace PostfixCalculator

namespace Token

/-- By how many the numbers outnumber the operators. -/
def surplus (tokens : List Token) : Int := tokens.countP isNumber - tokens.countP isOperator

/-- Why a token has no place after these, if it has none. -/
def refusal (before : List Token) : Token → Option ParseError
  | .number _ => none
  | .operator op => if surplus before < 2 then some (.missingOperand op) else none
  | .opening | .closing => some .unbalanced

/-- Every token has its place after those before it. -/
def Orderly (tokens : List Token) : Prop :=
  ∀ before token after, tokens = before ++ token :: after → refusal before token = none

/-- This is why the first token without a place has none. -/
def FirstRefused (tokens : List Token) (e : ParseError) : Prop :=
  ∃ before token after, tokens = before ++ token :: after ∧ Orderly before ∧
    refusal before token = some e

variable {tokens : List Token} {token : Token} {e : ParseError}

theorem surplus_concat_number (tokens : List Token) (value : Float) :
    surplus (tokens ++ [.number value]) = surplus tokens + 1 := by
  simp [surplus, isNumber, isOperator]
  omega

theorem surplus_concat_operator (tokens : List Token) (op : Operator) :
    surplus (tokens ++ [.operator op]) = surplus tokens - 1 := by
  simp [surplus, isNumber, isOperator]
  omega

theorem refusal_operator_eq_none_iff {op : Operator} :
    refusal tokens (.operator op) = none ↔ 2 ≤ surplus tokens := by
  rw [refusal]
  by_cases hfew : surplus tokens < 2
  · rw [if_pos hfew]
    constructor
    · nofun
    · intro htwo
      omega
  · rw [if_neg hfew]
    exact ⟨fun _ => Int.not_lt.mp hfew, fun _ => rfl⟩

theorem refusal_operator_eq_some_iff {op : Operator} :
    refusal tokens (.operator op) = some e ↔ surplus tokens < 2 ∧ e = .missingOperand op := by
  rw [refusal, Option.ite_none_right_eq_some, Option.some.injEq, eq_comm (a := e)]

theorem orderly_nil : Orderly [] := by
  intro before token after h
  simp at h

theorem orderly_concat_iff :
    Orderly (tokens ++ [token]) ↔ Orderly tokens ∧ refusal tokens token = none := by
  constructor
  · intro h
    refine ⟨?_, h tokens token [] rfl⟩
    rintro before x after rfl
    exact h before x (after ++ [token]) (by simp)
  · rintro ⟨hbefore, hlast⟩ before x after hsplit
    rcases List.eq_nil_or_concat after with rfl | ⟨after, y, rfl⟩
    · obtain ⟨rfl, hx⟩ := List.append_inj' hsplit rfl
      cases hx
      exact hlast
    · rw [List.concat_eq_append, ← List.cons_append, ← List.append_assoc] at hsplit
      exact hbefore before x after (List.append_inj' hsplit rfl).1

theorem orderly_or_firstRefused (tokens : List Token) :
    Orderly tokens ∨ ∃ e, FirstRefused tokens e := by
  induction tokens using List.reverseRecOn with
  | nil => exact Or.inl orderly_nil
  | append_singleton tokens token ih =>
    rcases ih with horderly | ⟨e, before, x, after, rfl, hbefore, he⟩
    · cases hlast : refusal tokens token with
      | none => exact Or.inl (orderly_concat_iff.mpr ⟨horderly, hlast⟩)
      | some e => exact Or.inr ⟨e, tokens, token, [], rfl, horderly, hlast⟩
    · exact Or.inr ⟨e, before, x, after ++ [token], by simp, hbefore, he⟩

end Token

open Token (surplus refusal Orderly FirstRefused)

namespace Tree

def leaves : Tree → List Float
  | .leaf x => [x]
  | .node _ l r => l.leaves ++ r.leaves

variable {stack : List Tree} {tokens before : List Token} {token : Token} {e : ParseError}

theorem build_of_refusal (hstack : (stack.length : Int) = surplus before)
    (h : refusal before token = some e) : build stack token = .error e := by
  cases token with
  | number value => cases h
  | opening | closing =>
    cases h
    rfl
  | operator op =>
    obtain ⟨hfew, rfl⟩ := Token.refusal_operator_eq_some_iff.mp h
    match stack with
    | [] | [_] => rfl
    | _ :: _ :: _ =>
      simp only [List.length_cons] at hstack
      omega

theorem build_of_no_refusal (hstack : (stack.length : Int) = surplus before)
    (h : refusal before token = none) : ∃ stack', build stack token = .ok stack' ∧
      (stack'.length : Int) = surplus (before ++ [token]) := by
  cases token with
  | opening | closing => cases h
  | number value =>
    refine ⟨.leaf value :: stack, rfl, ?_⟩
    rw [Token.surplus_concat_number, List.length_cons]
    omega
  | operator op =>
    have htwo := Token.refusal_operator_eq_none_iff.mp h
    match stack with
    | [] | [_] =>
      simp only [List.length_cons, List.length_nil] at hstack
      omega
    | r :: l :: rest =>
      refine ⟨.node op l r :: rest, rfl, ?_⟩
      simp only [List.length_cons] at hstack
      rw [Token.surplus_concat_operator, List.length_cons]
      omega

theorem foldlM_of_orderly (h : Orderly tokens) : ∃ stack, tokens.foldlM build [] = .ok stack ∧
    (stack.length : Int) = surplus tokens := by
  induction tokens using List.reverseRecOn with
  | nil => exact ⟨[], rfl, rfl⟩
  | append_singleton tokens token ih =>
    obtain ⟨hbefore, hlast⟩ := Token.orderly_concat_iff.mp h
    obtain ⟨stack, hfold, hstack⟩ := ih hbefore
    obtain ⟨stack', hbuild, hstack'⟩ := build_of_no_refusal hstack hlast
    refine ⟨stack', ?_, hstack'⟩
    apply foldlM_append_ok_iff.mpr
    exact ⟨stack, hfold, foldlM_cons_ok_iff.mpr ⟨stack', hbuild, rfl⟩⟩

theorem surplus_nonneg (h : Orderly tokens) : 0 ≤ surplus tokens := by
  obtain ⟨stack, -, hstack⟩ := foldlM_of_orderly h
  omega

theorem eq_nil_of_surplus (h : Orderly tokens) (hzero : surplus tokens = 0) : tokens = [] := by
  rcases List.eq_nil_or_concat tokens with rfl | ⟨tokens, token, rfl⟩
  · rfl
  rw [List.concat_eq_append] at h hzero
  obtain ⟨hbefore, hlast⟩ := Token.orderly_concat_iff.mp h
  have hnonneg := surplus_nonneg hbefore
  cases token with
  | opening | closing => cases hlast
  | number value =>
    rw [Token.surplus_concat_number] at hzero
    omega
  | operator op =>
    have htwo := Token.refusal_operator_eq_none_iff.mp hlast
    rw [Token.surplus_concat_operator] at hzero
    omega

theorem ofPostfix_of_firstRefused (h : FirstRefused tokens e) : ofPostfix tokens = .error e := by
  obtain ⟨before, token, after, rfl, hbefore, he⟩ := h
  obtain ⟨stack, hfold, hstack⟩ := foldlM_of_orderly hbefore
  rw [ofPostfix, List.foldlM_append, hfold]
  change ((token :: after).foldlM build stack >>= _) = _
  rw [List.foldlM_cons, build_of_refusal hstack he]
  rfl

theorem ofPostfix_of_foldlM (h : tokens.foldlM build [] = .ok stack) :
    (stack.length = 1 → ∃ tree, ofPostfix tokens = .ok tree) ∧
      (stack.length ≠ 1 → ofPostfix tokens = .error (.leftover stack.length)) := by
  rw [ofPostfix, h]
  constructor
  · intro hone
    obtain ⟨tree, rfl⟩ := List.length_eq_one_iff.mp hone
    exact ⟨tree, rfl⟩
  · intro hne
    cases stack with
    | nil => rfl
    | cons tree below =>
      cases below with
      | nil => exact absurd rfl hne
      | cons => rfl

theorem countP_isNumber (tree : Tree) :
    tree.inPostfix.countP Token.isNumber = tree.inPostfix.countP Token.isOperator + 1 := by
  induction tree with
  | leaf value => rfl
  | node op l r ihl ihr =>
    simp [inPostfix, Token.isNumber, Token.isOperator, ihl, ihr]
    omega

theorem length_leaves (tree : Tree) :
    tree.leaves.length = tree.inPostfix.countP Token.isNumber ∧
      tree.inPostfix.length = tree.leaves.length + tree.inPostfix.countP Token.isOperator := by
  induction tree with
  | leaf value => exact ⟨rfl, rfl⟩
  | node op l r ihl ihr =>
    simp [leaves, inPostfix, Token.isNumber, Token.isOperator, ihl, ihr]
    omega

/-- The first token without a place is what is wrong with a list of tokens, and in a list without such
a token it is the number of trees left, unless that is one. -/
theorem ofPostfix_by_surplus (tokens : List Token) :
    (Orderly tokens ∨ ∃ e, FirstRefused tokens e) ∧
    (∀ e, FirstRefused tokens e → ofPostfix tokens = .error e) ∧
    (Orderly tokens →
      ((∃ tree, ofPostfix tokens = .ok tree) ↔ surplus tokens = 1) ∧
      (surplus tokens ≠ 1 →
        ∃ n : Nat, n = surplus tokens ∧ ofPostfix tokens = .error (.leftover n)) ∧
      (surplus tokens = 0 → tokens = [])) ∧
    ∀ tree, ofPostfix tokens = .ok tree → ∃ k, tokens.length = 2 * k + 1 ∧
      tokens.countP Token.isOperator = k ∧ tree.leaves.length = k + 1 := by
  refine ⟨Token.orderly_or_firstRefused tokens, fun e => ofPostfix_of_firstRefused, ?_, ?_⟩
  · intro horderly
    obtain ⟨stack, hfold, hstack⟩ := foldlM_of_orderly horderly
    obtain ⟨hone, hmore⟩ := ofPostfix_of_foldlM hfold
    refine ⟨?_, ?_, eq_nil_of_surplus horderly⟩
    · constructor
      · rintro ⟨tree, htree⟩
        by_contra hne
        rw [hmore (by omega)] at htree
        cases htree
      · intro hsurplus
        exact hone (by omega)
    · intro hne
      exact ⟨stack.length, hstack, hmore (by omega)⟩
  · intro tree htree
    obtain rfl := ofPostfix_ok_iff.mp htree
    have hcount := tree.countP_isNumber
    obtain ⟨hleaves, hlength⟩ := tree.length_leaves
    exact ⟨_, by omega, rfl, by omega⟩

example : ofPostfix [.number 1, .operator .plus, .opening] = .error (.missingOperand .plus) := rfl

end Tree

end PostfixCalculator
