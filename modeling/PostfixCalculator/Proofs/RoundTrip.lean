import PostfixCalculator.Proofs.Numerals
import PostfixCalculator.Proofs.Precedence
import PostfixCalculator.Proofs.Zeros
import PostfixCalculator.Tree.Infix

/-! The expression of a tree is parsed back to the tree.

The parentheses of an expression are those of a chain of the grammar. Its links on the left of the
root bind at least as tight as the root and those on the right tighter, so the chain is divided at
the root. -/
namespace PostfixCalculator

namespace Chain

def append : Chain → Operator → Chain → Chain
  | .last operand, op, after => .link operand op after
  | .link operand op' rest, op, after => .link operand op' (rest.append op after)

variable {t : Priorities}

theorem tokens_append (chain : Chain) (op : Operator) (after : Chain) :
    (chain.append op after).tokens = chain.tokens ++ .operator op :: after.tokens := by
  cases chain with
  | last operand => rfl
  | link operand op' rest =>
    have hrest := tokens_append rest op after
    simp [append, tokens, hrest]

theorem operators_append (chain : Chain) (op : Operator) (after : Chain) :
    (chain.append op after).operators = chain.operators ++ op :: after.operators := by
  cases chain with
  | last operand => rfl
  | link operand op' rest =>
    have hrest := operators_append rest op after
    simp [append, operators, hrest]

theorem first_append (chain : Chain) (op : Operator) (after : Chain) :
    (chain.append op after).first t = chain.first t := by
  cases chain <;> rfl

theorem links_append (chain : Chain) (op : Operator) (after : Chain) :
    (chain.append op after).links t =
      chain.links t ++ (op, after.first t) :: after.links t := by
  cases chain with
  | last operand => rfl
  | link operand op' rest =>
    have hrest := links_append rest op after
    simp [append, links, first_append, hrest]

theorem tree_group (chain : Chain) : (Chain.last (.group chain)).tree t = chain.tree t := by
  rw [tree, links, Links.tree_nil]
  rfl

end Chain

/-- A chain whose operators on the left bind at least as tight as `op` and on the right tighter is
divided at `op`. -/
theorem Links.divide_middle {t : Priorities} {before after : Links} {op : Operator} (next : Tree)
    (hbefore : ∀ x ∈ before, t.rank op ≤ t.rank x.1)
    (hafter : ∀ x ∈ after, t.rank op < t.rank x.1) :
    divide t (before ++ (op, next) :: after) = some (before, (op, next), after) := by
  induction before with
  | nil =>
    rw [List.nil_append, divide]
    cases hdivide : divide t after with
    | none =>
      have hnil : after = [] := by
        by_contra hne
        exact divide_of_ne_nil hne hdivide
      rw [hnil]
    | some parts =>
      obtain ⟨left, y, right⟩ := parts
      have hy := hafter y (by simp [divide_eq hdivide])
      simp [hy.not_ge]
  | cons x before ih =>
    have hx := hbefore x (by simp)
    rw [List.cons_append, divide, ih fun y hy => hbefore y (by simp [hy])]
    simp [hx]

namespace Tree

/-- The operators have priorities and the numbers are finite, without a sign. -/
def Printable (t : Priorities) : Tree → Prop
  | .leaf x => x.toBits.toNat < Binary64.infinity
  | .node op l r => t.priority? op ≠ none ∧ l.Printable t ∧ r.Printable t

instance decidablePrintable (t : Priorities) : ∀ tree : Tree, Decidable (tree.Printable t)
  | .leaf x => inferInstanceAs (Decidable (x.toBits.toNat < Binary64.infinity))
  | .node op l r =>
    have := decidablePrintable t l
    have := decidablePrintable t r
    inferInstanceAs (Decidable (t.priority? op ≠ none ∧ l.Printable t ∧ r.Printable t))

/-- An operand as a chain, between parentheses if it is a node whose operator has a rank that
satisfies `loose`. -/
def side (t : Priorities) (loose : Nat → Bool) (operand : Tree) (chain : Chain) : Chain :=
  match operand with
  | .leaf _ => chain
  | .node op _ _ => if loose (t.rank op) then .last (.group chain) else chain

def chain (t : Priorities) : Tree → Chain
  | .leaf x => .last (.number x)
  | .node op l r =>
    (side t (· < t.rank op) l (l.chain t)).append op (side t (· ≤ t.rank op) r (r.chain t))

variable {t : Priorities}

theorem tree_side (loose : Nat → Bool) (operand : Tree) (chain : Chain) :
    (side t loose operand chain).tree t = chain.tree t := by
  cases operand with
  | leaf => rfl
  | node op l r =>
    rw [side]
    split
    · exact chain.tree_group
    · rfl

theorem operators_side (loose : Nat → Bool) (operand : Tree) (chain : Chain) :
    (side t loose operand chain).operators = chain.operators := by
  cases operand with
  | leaf => rfl
  | node op l r =>
    rw [side]
    split <;> rfl

def Binds (t : Priorities) (n : Nat) : Tree → Prop
  | .leaf _ => True
  | .node op _ _ => n ≤ t.rank op

theorem links_side {n : Nat} {loose : Nat → Bool} {operand : Tree}
    (hloose : ∀ k, loose k = false → n ≤ k)
    (hchain : operand.Binds t n → ∀ x ∈ (operand.chain t).links t, n ≤ t.rank x.1) :
    ∀ x ∈ (side t loose operand (operand.chain t)).links t, n ≤ t.rank x.1 := by
  cases operand with
  | leaf x => simp [side, chain, Chain.links]
  | node op l r =>
    rw [side]
    split
    · simp [Chain.links]
    next htight => exact hchain (hloose _ (by simpa using htight))

theorem links_chain {n : Nat} (tree : Tree) (h : tree.Binds t n) :
    ∀ x ∈ (tree.chain t).links t, n ≤ t.rank x.1 := by
  induction tree with
  | leaf x => simp [chain, Chain.links]
  | node op l r ihl ihr =>
    have hop : n ≤ t.rank op := h
    have hleft : ∀ x ∈ (side t (· < t.rank op) l (l.chain t)).links t, n ≤ t.rank x.1 := by
      apply links_side _ ihl
      intro k hk
      have : t.rank op ≤ k := by simpa using hk
      omega
    have hright : ∀ x ∈ (side t (· ≤ t.rank op) r (r.chain t)).links t, n ≤ t.rank x.1 := by
      apply links_side _ ihr
      intro k hk
      have : t.rank op < k := by simpa using hk
      omega
    intro x hx
    rw [chain, Chain.links_append] at hx
    rcases List.mem_append.mp hx with hx | hx
    · exact hleft x hx
    · rcases List.mem_cons.mp hx with rfl | hx
      · exact hop
      · exact hright x hx

theorem tree_chain (tree : Tree) : (tree.chain t).tree t = tree := by
  induction tree with
  | leaf x => exact Links.tree_nil (t := t) (.leaf x)
  | node op l r ihl ihr =>
    have hleft : ∀ x ∈ (side t (· < t.rank op) l (l.chain t)).links t, t.rank op ≤ t.rank x.1 := by
      apply links_side _ (links_chain l)
      intro k hk
      exact Nat.le_of_not_lt (of_decide_eq_false hk)
    have hright : ∀ x ∈ (side t (· ≤ t.rank op) r (r.chain t)).links t, t.rank op < t.rank x.1 := by
      apply links_side _ (links_chain r)
      intro k hk
      exact Nat.lt_of_not_le (of_decide_eq_false hk)
    have hl := tree_side (t := t) (· < t.rank op) l (l.chain t)
    have hr := tree_side (t := t) (· ≤ t.rank op) r (r.chain t)
    rw [Chain.tree] at hl hr
    rw [chain, Chain.tree, Chain.links_append, Chain.first_append,
      Links.tree_of_divide (Links.divide_middle _ hleft hright), hl, hr, ihl, ihr]

theorem priority_of_mem_operators {tree : Tree} (h : tree.Printable t) :
    ∀ op ∈ (tree.chain t).operators, t.priority? op ≠ none := by
  induction tree with
  | leaf x => simp [chain, Chain.operators, Operand.operators]
  | node op l r ihl ihr =>
    obtain ⟨hop, hl, hr⟩ := h
    intro q hq
    rw [chain, Chain.operators_append, operators_side, operators_side] at hq
    rcases List.mem_append.mp hq with hq | hq
    · exact ihl hl q hq
    · rcases List.mem_cons.mp hq with rfl | hq
      · exact hop
      · exact ihr hr q hq

theorem spells_enclose {loose : Nat → Bool} {operand : Tree} {s : List Char} {chain : Chain}
    (h : Reading.Spells s chain.tokens) :
    Reading.Spells (enclose t loose operand s) (side t loose operand chain).tokens := by
  cases operand with
  | leaf => exact h
  | node op l r =>
    rw [enclose, side]
    split
    · exact h.group
    · exact h

theorem spells_expression {tree : Tree} (h : tree.Printable t) :
    Reading.Spells (tree.expression t) (tree.chain t).tokens := by
  induction tree with
  | leaf x => exact Reading.spells_plain (Layout.plain_number h) (Layout.value?_number h)
  | node op l r ihl ihr =>
    obtain ⟨_, hl, hr⟩ := h
    rw [chain, Chain.tokens_append]
    exact (spells_enclose (ihl hl)).join (Token.ofChar?_symbol op) (spells_enclose (ihr hr))

theorem complete_enclose {loose : Nat → Bool} {operand : Tree} {s : List Char}
    (h : ImplicitZero.Complete s) : ImplicitZero.Complete (enclose t loose operand s) := by
  cases operand with
  | leaf => exact h
  | node op l r =>
    rw [enclose]
    split
    · exact ImplicitZero.complete_group h
    · exact h

theorem complete_expression {tree : Tree} (h : tree.Printable t) :
    ImplicitZero.Complete (tree.expression t) := by
  induction tree with
  | leaf x =>
    have hplain := Layout.plain_number h
    exact ImplicitZero.complete_of_isMember hplain.isMember hplain.isRun.ne_nil
  | node op l r ihl ihr =>
    obtain ⟨_, hl, hr⟩ := h
    exact ImplicitZero.complete_operator (complete_enclose (ihl hl)) op.symbol
      (complete_enclose (ihr hr))

end Tree

namespace Session

/-- The expression of a tree, written with as few parentheses as there can be, is parsed to the
tree. -/
theorem parse_expression (session : Session) (tree : Tree)
    (h : tree.Printable session.table) :
    session.parse (String.ofList (tree.expression session.table)) =
      (.ok (Postfix.text tree.inPostfix), ⟨session.table, some tree⟩) := by
  have hinsert := ImplicitZero.insert_of_complete (Tree.complete_expression h)
  obtain ⟨herror, htokens⟩ := Tree.spells_expression h
  have hpostfix := Chain.ofText_closing (Tree.priority_of_mem_operators h) herror htokens
  rw [Tree.tree_chain] at hpostfix
  refine parse_of_postfix ?_
  rw [String.toList_ofList, Attempt.prepare, hinsert, hpostfix]

/-- The expression of this tree is `(1+2)*(3-(4-0.1))`. -/
def grouped : Tree :=
  .node .times (.node .plus (.leaf 1) (.leaf 2))
    (.node .minus (.leaf 3) (.node .minus (.leaf 4) (.leaf 0.1)))

theorem parse_expression_grouped :
    (start .standard).parse "(1+2)*(3-(4-0.1))" =
      (.ok "1 2 + 3 4 0.1 - - *", ⟨.standard, some grouped⟩) := by
  have hparse := parse_expression (start .standard) grouped (by decide +kernel)
  have htext : String.ofList (grouped.expression .standard) = "(1+2)*(3-(4-0.1))" := by
    decide +kernel
  have hpostfix : Postfix.text grouped.inPostfix = "1 2 + 3 4 0.1 - - *" := by decide +kernel
  rw [← htext, ← hpostfix]
  exact hparse

end Session

end PostfixCalculator
