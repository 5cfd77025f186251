import PostfixCalculator.Grammar
import PostfixCalculator.Proofs.Verdict

/-! The sentences among the lists of tokens: those in which operands and operators alternate and
every parenthesis has its other one. -/
namespace PostfixCalculator

namespace Token

/-- An operand can end with the token. -/
def ends : Token → Bool
  | .number _ | .closing => true
  | .operator _ | .opening => false

/-- An operand can begin with the token. -/
def begins : Token → Bool
  | .number _ | .opening => true
  | .operator _ | .closing => false

/-- Each token with the one before it, which is `a` for the first. -/
def neighbours (a : Token) (tokens : List Token) : List (Token × Token) := (a :: tokens).zip tokens

/-- Each token that can end an operand is followed by one that cannot begin any, and conversely. -/
def Alternating (a : Token) (tokens : List Token) : Prop :=
  ∀ x ∈ neighbours a tokens, x.1.ends ≠ x.2.begins

theorem neighbours_cons (a b : Token) (tokens : List Token) :
    neighbours a (b :: tokens) = (a, b) :: neighbours b tokens := rfl

theorem alternating_nil (a : Token) : Alternating a [] := by
  intro x hx
  simp [neighbours] at hx

theorem alternating_cons {a b : Token} {tokens : List Token} :
    Alternating a (b :: tokens) ↔ a.ends ≠ b.begins ∧ Alternating b tokens :=
  List.forall_mem_cons

theorem alternating_congr {a b : Token} {tokens : List Token} (h : a.ends = b.ends)
    (ha : Alternating a tokens) : Alternating b tokens := by
  cases tokens with
  | nil => exact alternating_nil b
  | cons c tokens =>
    rw [alternating_cons] at ha ⊢
    rwa [← h]

end Token

open Token (Alternating alternating_nil alternating_cons alternating_congr)

namespace Chain

/-- The tokens are those of a chain, a parenthesis that closes it, and others that close `k`
groups. -/
def Splits (k : Int) (tokens : List Token) : Prop :=
  ∃ (chain : Chain) (rest : List Token), tokens = chain.tokens ++ .closing :: rest ∧
    Reading.Closes k rest ∧ Alternating .closing rest

theorem splits_operand (operand : Operand) {b : Token} {rest : List Token} {k : Int}
    (hk : 0 ≤ k) (hb : b.ends) (halternating : Alternating b rest)
    (hcloses : Reading.Closes (k + 1) rest)
    (ih : ∀ op after, rest = .operator op :: after → Alternating (.operator op) after →
      Reading.Closes (k + 1) after → Splits k after) :
    Splits k (operand.tokens ++ rest) := by
  cases rest with
  | nil =>
    have := (Reading.closes_nil _).mp hcloses
    omega
  | cons c after =>
    obtain ⟨hc, hafter⟩ := alternating_cons.mp halternating
    have hclosed := ((Reading.closes_cons _ _ _).mp hcloses).2
    rw [hb] at hc
    cases c with
    | number | opening => exact absurd rfl hc
    | operator op =>
      change Reading.Closes (k + 1 + 0) after at hclosed
      rw [Int.add_zero] at hclosed
      obtain ⟨chain, rest, rfl, hrest⟩ := ih op after rfl hafter hclosed
      exact ⟨.link operand op chain, rest, by simp [tokens], hrest⟩
    | closing =>
      rw [Token.weight, Int.add_neg_cancel_right] at hclosed
      exact ⟨.last operand, after, rfl, hclosed, hafter⟩

theorem splits_of_alternating {a : Token} {tokens : List Token} {k : Int} (hk : 0 ≤ k)
    (ha : a.ends = false) (halternating : Alternating a tokens)
    (hcloses : Reading.Closes (k + 1) tokens) : Splits k tokens := by
  induction hn : tokens.length using Nat.strong_induction_on generalizing a tokens k with
  | h n ih =>
    subst hn
    cases tokens with
    | nil =>
      have := (Reading.closes_nil _).mp hcloses
      omega
    | cons b rest =>
      obtain ⟨hb, hrest⟩ := alternating_cons.mp halternating
      rw [ha] at hb
      have hclosed := ((Reading.closes_cons _ _ _).mp hcloses).2
      cases b with
      | operator | closing => exact absurd rfl hb
      | number value =>
        change Reading.Closes (k + 1 + 0) rest at hclosed
        rw [Int.add_zero] at hclosed
        refine splits_operand (.number value) hk rfl hrest hclosed ?_
        rintro op after rfl hafter hcloses
        exact ih _ (by simp only [List.length_cons]; omega) hk rfl hafter hcloses rfl
      | opening =>
        obtain ⟨chain, rest, rfl, hcloses, hrest⟩ := ih _ (by simp) (by omega) rfl hrest hclosed rfl
        have hgroup := splits_operand (.group chain) hk rfl hrest hcloses ?_
        · simpa [Operand.tokens] using hgroup
        rintro op after rfl hafter hcloses
        exact ih _ (by simp; omega) hk rfl hafter hcloses rfl

theorem exists_of_alternating {tokens : List Token}
    (halternating : Alternating .opening (tokens ++ [.closing]))
    (hcloses : Reading.Closes 1 (tokens ++ [.closing])) :
    ∃ chain : Chain, tokens = chain.tokens := by
  obtain ⟨chain, rest, hsplit, hrest, _⟩ :=
    splits_of_alternating (k := 0) (Int.le_refl 0) rfl halternating hcloses
  cases rest with
  | nil => exact ⟨chain, List.append_cancel_right hsplit⟩
  | cons b rest =>
    have := ((Reading.closes_cons _ _ _).mp hrest).1
    omega

end Chain

mutual

theorem Operand.alternating {a : Token} (ha : a.ends = false) (operand : Operand)
    {rest : List Token} (hrest : Alternating .closing rest) :
    Alternating a (operand.tokens ++ rest) := by
  match operand with
  | .number value =>
    have hends : Token.closing.ends = (Token.number value).ends := rfl
    have hafter : Alternating (.number value) rest := alternating_congr hends hrest
    exact alternating_cons.mpr ⟨by simp [ha, Token.begins], hafter⟩
  | .group chain =>
    have hclosing : Alternating .closing (.closing :: rest) :=
      alternating_cons.mpr ⟨by decide, hrest⟩
    have hinner : Alternating .opening (chain.tokens ++ .closing :: rest) :=
      chain.alternating rfl hclosing
    have htokens : (Operand.group chain).tokens ++ rest =
        .opening :: (chain.tokens ++ .closing :: rest) := by simp [Operand.tokens]
    rw [htokens]
    exact alternating_cons.mpr ⟨by simp [ha, Token.begins], hinner⟩

theorem Chain.alternating {a : Token} (ha : a.ends = false) (chain : Chain) {rest : List Token}
    (hrest : Alternating .closing rest) : Alternating a (chain.tokens ++ rest) := by
  match chain with
  | .last operand => exact operand.alternating ha hrest
  | .link operand op after =>
    have hafter : Alternating (.operator op) (after.tokens ++ rest) := after.alternating rfl hrest
    have htokens : (Chain.link operand op after).tokens ++ rest =
        operand.tokens ++ .operator op :: (after.tokens ++ rest) := by simp [Chain.tokens]
    rw [htokens]
    have hop : Token.closing.ends ≠ (Token.operator op).begins := by simp [Token.ends, Token.begins]
    exact operand.alternating ha (alternating_cons.mpr ⟨hop, hafter⟩)

end

end PostfixCalculator
