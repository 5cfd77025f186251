import PostfixCalculator.Proofs.Operands
import PostfixCalculator.Proofs.Parsing
import PostfixCalculator.Proofs.Preparation

/-! What parsing accepts beyond sentences.

Only the number of operands is checked. So operands that stand side by side are accepted where as
many operators lack their right operand or parentheses hold nothing, and nowhere else. -/
namespace PostfixCalculator

namespace Token

/-- The neighbours in a text that counts as a group. -/
def around (tokens : List Token) : List (Token × Token) :=
  neighbours .opening (tokens ++ [.closing])

/-- Two operands without an operator between them. -/
def juxtaposed (x : Token × Token) : Bool := x.1.ends && x.2.begins

/-- An operator without a right operand. -/
def dangling (x : Token × Token) : Bool := x.1.isOperator && !x.2.begins

/-- Parentheses without anything between them. -/
def hollow (x : Token × Token) : Bool := x.1 = .opening ∧ x.2 = .closing

theorem countP_neighbours (p : Token × Token → Bool) (a b : Token) (tokens : List Token) :
    (neighbours a (b :: tokens)).countP p = (neighbours b tokens).countP p + (p (a, b)).toNat := by
  rw [neighbours_cons, List.countP_cons]
  cases p (a, b) <;> rfl

theorem juxtaposed_eq {a b : Token} (h : headless (a, b) = false) :
    (juxtaposed (a, b)).toNat + (!a.ends).toNat =
      (dangling (a, b)).toNat + (hollow (a, b)).toNat + b.begins.toNat := by
  cases a <;> cases b <;> first | rfl | cases h

theorem begins_eq (token : Token) :
    token.begins.toNat + token.isOperator.toNat = token.isNumber.toNat + (!token.ends).toNat := by
  cases token <;> rfl

theorem countP_cons_toNat (p : Token → Bool) (token : Token) (tokens : List Token) :
    (token :: tokens).countP p = tokens.countP p + (p token).toNat := by
  rw [List.countP_cons]
  cases p token <;> rfl

/-- Operands side by side outnumber the missing ones as the numbers outnumber the operators. The
tokens before them count by whether one of them has begun an operand that is still missing. -/
theorem juxtaposed_count (a : Token) (tokens : List Token)
    (h : ∀ x ∈ neighbours a (tokens ++ [.closing]), headless x = false) :
    (neighbours a (tokens ++ [.closing])).countP juxtaposed + tokens.countP isOperator +
        (!a.ends).toNat =
      (neighbours a (tokens ++ [.closing])).countP dangling +
        (neighbours a (tokens ++ [.closing])).countP hollow + tokens.countP isNumber := by
  induction tokens generalizing a with
  | nil =>
    rw [List.nil_append] at h ⊢
    have hlast := juxtaposed_eq (h (a, .closing) (by simp [neighbours]))
    simp only [countP_neighbours, List.countP_nil]
    simp only [begins, neighbours, List.zip_nil_right, List.countP_nil, Bool.toNat_false] at hlast ⊢
    omega
  | cons b tokens ih =>
    rw [List.cons_append, neighbours_cons] at h
    have hfirst := juxtaposed_eq (h _ List.mem_cons_self)
    have hrest := ih b fun x hx => h x (List.mem_cons_of_mem _ hx)
    have hbegins := begins_eq b
    simp only [List.cons_append, countP_neighbours, countP_cons_toNat]
    omega

theorem around_count {tokens : List Token} (h : ∀ x ∈ around tokens, headless x = false) :
    (around tokens).countP juxtaposed + tokens.countP isOperator + 1 =
      (around tokens).countP dangling + (around tokens).countP hollow + tokens.countP isNumber :=
  juxtaposed_count .opening tokens h

theorem countP_filter_isWritten {p : Token → Bool} (hopening : p .opening = false)
    (hclosing : p .closing = false) (tokens : List Token) :
    (tokens.filter isWritten).countP p = tokens.countP p := by
  rw [List.countP_filter]
  apply List.countP_congr
  intro token _
  cases token <;> simp [isWritten, hopening, hclosing]

end Token

theorem Conversion.countP_isNumber {t : Priorities} {s : List Char} {tree : Tree}
    (h : (Postfix.ofText t s).1 = .ok tree.inPostfix) :
    (Reading.ofText s).tokens.countP Token.isNumber =
      (Reading.ofText s).tokens.countP Token.isOperator + 1 := by
  have hperm := perm_of_ofText h
  have hnumbers := hperm.countP_eq Token.isNumber
  have hoperators := hperm.countP_eq Token.isOperator
  rw [Token.countP_filter_isWritten rfl rfl] at hnumbers hoperators
  rw [← hnumbers, ← hoperators]
  exact tree.countP_isNumber

open Token (Alternating)

theorem Chain.not_juxtaposed (chain : Chain) :
    (Token.around chain.tokens).countP Token.juxtaposed = 0 := by
  have hclosing : Alternating .closing [.closing] :=
    Token.alternating_cons.mpr ⟨by decide, Token.alternating_nil _⟩
  have halternating : Alternating .opening (chain.tokens ++ [.closing]) :=
    chain.alternating rfl hclosing
  rw [List.countP_eq_zero]
  intro x hx hboth
  rw [Token.juxtaposed, Bool.and_eq_true] at hboth
  exact halternating x hx (hboth.1.trans hboth.2.symm)

theorem Token.ends_ne_begins {a b : Token} (hheadless : headless (a, b) = false)
    (hjuxtaposed : ¬ juxtaposed (a, b)) (hdangling : ¬ dangling (a, b))
    (hhollow : ¬ hollow (a, b)) : a.ends ≠ b.begins := by
  cases a <;> cases b <;>
    simp_all [headless, juxtaposed, dangling, hollow, ends, begins, isOperator]

theorem Chain.exists_of_around {tokens : List Token}
    (hcloses : Reading.Closes 1 (tokens ++ [.closing]))
    (hheadless : ∀ x ∈ Token.around tokens, Token.headless x = false)
    (hjuxtaposed : (Token.around tokens).countP Token.juxtaposed = 0)
    (hdangling : (Token.around tokens).countP Token.dangling = 0)
    (hhollow : (Token.around tokens).countP Token.hollow = 0) :
    ∃ chain : Chain, tokens = chain.tokens := by
  rw [List.countP_eq_zero] at hjuxtaposed hdangling hhollow
  apply Chain.exists_of_alternating _ hcloses
  intro x hx
  exact Token.ends_ne_begins (hheadless x hx) (hjuxtaposed x hx) (hdangling x hx) (hhollow x hx)

theorem ImplicitZero.headless_of_insert {s : List Char}
    (h : (Reading.ofText (insert s)).error? = none) :
    ∀ x ∈ Token.around (Reading.ofText (insert s)).tokens, Token.headless x = false := by
  obtain ⟨ts, _, htokens⟩ := Reading.spells_insert_iff.mp ⟨h, rfl⟩
  rw [Token.around, htokens]
  exact Token.headless_of_zeroed .opening _

/-- The tokens of an expression with its zeros. -/
def Attempt.words (e : String) : List Token :=
  (Reading.ofText (ImplicitZero.insert e.toList)).tokens

namespace Session

open Token (around)

/-- What is parsed can be read, its parentheses match and no operator lacks its left operand. There
are as many operands side by side as operators without a right operand and empty parentheses
together, and it is a sentence unless there are such operands. -/
theorem parse_words {session : Session} {e text : String} (h : (session.parse e).1 = .ok text) :
    (Reading.ofText (ImplicitZero.insert e.toList)).error? = none ∧
      Reading.Closes 1 (Attempt.words e ++ [.closing]) ∧
      (around (Attempt.words e)).countP Token.headless = 0 ∧
      (around (Attempt.words e)).countP Token.juxtaposed =
        (around (Attempt.words e)).countP Token.dangling +
          (around (Attempt.words e)).countP Token.hollow ∧
      ((∃ chain : Chain, Attempt.words e = chain.tokens) ↔
        (around (Attempt.words e)).countP Token.juxtaposed = 0) := by
  obtain ⟨tree, hpostfix⟩ := postfix_of_parse h
  obtain ⟨herror, _, hcloses⟩ := Conversion.ofText_ok_iff.mp ⟨_, hpostfix⟩
  have hnumbers := Conversion.countP_isNumber hpostfix
  obtain ⟨hsame, hclosing⟩ := Reading.ofText_append_closing (ImplicitZero.insert e.toList)
  rw [Attempt.prepare, hsame] at herror
  rw [Attempt.prepare, hclosing herror] at hcloses hnumbers
  have hheadless := ImplicitZero.headless_of_insert herror
  have hcount := Token.around_count hheadless
  have hmore : (Attempt.words e).countP Token.isNumber =
      (Attempt.words e).countP Token.isOperator + 1 := by
    simpa [Attempt.words, Token.isNumber, Token.isOperator] using hnumbers
  have hlaw : (around (Attempt.words e)).countP Token.juxtaposed =
      (around (Attempt.words e)).countP Token.dangling +
        (around (Attempt.words e)).countP Token.hollow := by
    rw [← Attempt.words] at hcount
    omega
  refine ⟨herror, hcloses, ?_, hlaw, ?_⟩
  · rw [List.countP_eq_zero]
    intro x hx
    exact Bool.not_eq_true _ ▸ hheadless x hx
  · constructor
    · rintro ⟨chain, hchain⟩
      rw [hchain]
      exact chain.not_juxtaposed
    · intro hnone
      exact Chain.exists_of_around hcloses hheadless hnone (by omega) (by omega)

theorem parse_words_hollow : ((start .standard).parse "2(3+4)*()").1 = .ok "2 3 4 + *" ∧
    (around (Attempt.words "2(3+4)*()")).countP Token.juxtaposed =
      (around (Attempt.words "2(3+4)*()")).countP Token.dangling +
        (around (Attempt.words "2(3+4)*()")).countP Token.hollow := by
  have hparse : ((start .standard).parse "2(3+4)*()").1 = .ok "2 3 4 + *" := by decide +kernel
  exact ⟨hparse, (parse_words hparse).2.2.2.1⟩

/-- Operands side by side are accepted where an operator that follows takes them. -/
theorem parse_juxtaposed : ((start .standard).parse "1 2 +").1 = .ok "1 2 +" ∧
    ¬ ∃ chain : Chain, Attempt.words "1 2 +" = chain.tokens := by
  refine ⟨by decide +kernel, ?_⟩
  rintro ⟨chain, hchain⟩
  have hnone := chain.not_juxtaposed
  rw [← hchain] at hnone
  revert hnone
  decide +kernel

end Session

end PostfixCalculator
