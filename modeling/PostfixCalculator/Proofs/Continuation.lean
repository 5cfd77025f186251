import PostfixCalculator.Proofs.Calls

/-! The answers on a text that goes on after another one.

A reader of the whole answers like one of the first text, with the second behind what is left, as
long as there are tokens in the first. The call that finds the end of the first, be it behind white
space, begins with the second, and from there on only the offsets differ. -/
namespace PostfixCalculator

namespace Reader

/-- The answer to the call after `n` others, and the offset at which it leaves the reader. -/
def answer (s : List Char) (n : Nat) : Except ParseError (Option Token) × Nat :=
  ((after s n).next.1, (after s n).next.2.cursor)

variable {a b : List Char} {r r' : Reader}

theorem iterate_succ_of_next {answer : Except ParseError (Option Token)}
    (h : r.next = (answer, r')) (n : Nat) : advance^[n + 1] r = advance^[n] r' := by
  rw [Function.iterate_succ_apply, advance, h]

theorem iterate_extend (h : Apart r.rest b) {n : Nat}
    (hn : n ≤ (Reading.ofReader r).tokens.length) :
    advance^[n] (r.extend b) = (advance^[n] r).extend b := by
  fun_induction Reading.ofReader r generalizing n with
  | case1 | case2 =>
    obtain rfl : n = 0 := Nat.le_zero.mp hn
    rfl
  | case3 r t r' hnext ih =>
    cases n with
    | zero => rfl
    | succ n =>
      have hextend : (r.extend b).next = (.ok (some t), r'.extend b) := by
        rw [next_extend h (by simp [hnext]), hnext]
      obtain ⟨before, hrest, -⟩ := follows_of_next hnext
      rw [iterate_succ_of_next hnext, iterate_succ_of_next hextend]
      exact ih (h.of_suffix ⟨before, hrest.symm⟩) (Nat.le_of_succ_le_succ hn)

/-- A text that is read without an error gives its tokens in turn, and then its end. -/
theorem next_iterate (h : (Reading.ofReader r).error? = none) {n : Nat}
    (hn : n ≤ (Reading.ofReader r).tokens.length) :
    (advance^[n] r).next.1 = .ok (Reading.ofReader r).tokens[n]? := by
  fun_induction Reading.ofReader r generalizing n with
  | case1 r r' hnext =>
    obtain rfl : n = 0 := Nat.le_zero.mp hn
    exact congrArg Prod.fst hnext
  | case2 => cases h
  | case3 r t r' hnext ih =>
    cases n with
    | zero => exact congrArg Prod.fst hnext
    | succ n =>
      rw [iterate_succ_of_next hnext]
      exact ih h (Nat.le_of_succ_le_succ hn)

variable {ts : List Token}

theorem next_after_of_spells (h : Reading.Spells a ts) {n : Nat} (hn : n ≤ ts.length) :
    (after a n).next.1 = .ok ts[n]? := by
  obtain ⟨herror, rfl⟩ := h
  exact next_iterate herror hn

theorem after_append (h : Reading.Spells a ts) (hab : Apart a b) {n : Nat} (hn : n ≤ ts.length) :
    after (a ++ b) n = (after a n).extend b := by
  obtain ⟨-, rfl⟩ := h
  exact iterate_extend (r := .ofText a) hab hn

theorem next_after_append (h : Reading.Spells a ts) (hab : Apart a b) (n : Nat) :
    (after (a ++ b) (ts.length + n)).next = ((after b n).shift (Text.width a)).next := by
  induction n with
  | zero =>
    have hend : (after a ts.length).next.1 = .ok none := by
      simpa using next_after_of_spells h (Nat.le_refl ts.length)
    have hcursor := ((safe_after a ts.length).finished hend).1
    rw [after_succ] at hcursor
    rw [Nat.add_zero, after_append h hab (Nat.le_refl _), next_extend_of_none hend, hcursor]
    rfl
  | succ n ih =>
    rw [← Nat.add_assoc, after_succ, ih, next_shift, after_succ]

/-- Reading distributes over concatenation. If no number spans the border of two texts and the first
is read without an error, the answers on both are the tokens of the first and then all answers on
the second, errors and what comes after them included, with their offsets moved by the first. -/
theorem answer_append (h : Reading.Spells a ts) (hab : Apart a b) :
    Reading.ofText (a ++ b) =
      (Reading.ofText a).append ((Reading.ofText b).shift (Text.width a)) ∧
    (∀ n (hn : n < ts.length), (answer a n).1 = .ok (some ts[n]) ∧
      answer (a ++ b) n = answer a n) ∧
    ∀ n, answer (a ++ b) (ts.length + n) =
      ((answer b n).1.mapError (.shift (Text.width a)), Text.width a + (answer b n).2) := by
  refine ⟨Reading.ofText_append hab, ?_, ?_⟩
  · intro n hn
    have hfirst : (after a n).next.1 = .ok (some ts[n]) := by
      rw [next_after_of_spells h hn.le, List.getElem?_eq_getElem hn]
    obtain ⟨before, hrest, -⟩ := after_follows a n
    have hapart : Apart (after a n).rest b := hab.of_suffix ⟨before, hrest.symm⟩
    refine ⟨hfirst, ?_⟩
    rw [answer, after_append h hab hn.le, next_extend hapart (by simp [hfirst])]
    rfl
  · intro n
    rw [answer, next_after_append h hab, next_shift]
    rfl

theorem answer_append_faulty :
    Reading.Spells "8+\u00A0".toList [.number 8, .operator .plus] ∧
    Apart "8+\u00A0".toList "1.. é".toList ∧
    answer ("8+\u00A0".toList ++ "1.. é".toList) 1 = (.ok (some (.operator .plus)), 2) ∧
    answer ("8+\u00A0".toList ++ "1.. é".toList) 2 = (.error (.badNumber "1..".toList), 7) ∧
    answer ("8+\u00A0".toList ++ "1.. é".toList) 3 = (.error (.unexpected 'é' 8), 8) := by
  have h : Reading.Spells "8+\u00A0".toList [.number 8, .operator .plus] := by
    constructor <;> decide +kernel
  have hlast : "8+\u00A0".toList.getLast? = some '\u00A0' := by decide +kernel
  have hab : Apart "8+\u00A0".toList "1.. é".toList := by
    refine Or.inl fun c hc => ?_
    cases hlast.symm.trans hc
    decide
  obtain ⟨-, hfirst, hsecond⟩ := answer_append h hab
  refine ⟨h, hab, (hfirst 1 (by decide)).2.trans ?_, (hsecond 0).trans ?_, (hsecond 1).trans ?_⟩
  · decide +kernel
  · decide +kernel
  · decide +kernel

end Reader

end PostfixCalculator
