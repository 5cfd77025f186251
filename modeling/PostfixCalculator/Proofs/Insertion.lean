import PostfixCalculator.Proofs.Zeros

/-! The zeros of a text, found in the text as it is given.

A zero stands directly before an operator, so it is never the last character that is looked back
at: whether an operator has a left operand can be seen in the text itself. The zeros of a part of a
text thus depend on what stands before it, and on nothing after it. -/
namespace PostfixCalculator.ImplicitZero

def isHeadless (before : List Char) (c : Char) : Bool := isOperator c && atStart before

/-- The text with its zeros where it stands after `before`, which is kept in reverse. -/
def insertAfter (before : List Char) : List Char → List Char
  | [] => []
  | c :: s =>
    if isHeadless before c then '0' :: c :: insertAfter (c :: before) s
    else c :: insertAfter (c :: before) s

/-- The number of zeros that go before the offset `n` of a text that stands after `before`. -/
def zerosBefore (before : List Char) : List Char → Nat → Nat
  | [], _ => 0
  | c :: s, n =>
    if n = 0 then 0
    else (isHeadless before c).toNat + zerosBefore (c :: before) s (n - c.utf8Size)

theorem not_isOperator_of_isBlank {c : Char} (h : Text.isBlank c) : isOperator c = false := by
  by_contra hc
  obtain ⟨op, hop⟩ := Option.isSome_iff_exists.mp (Bool.of_not_eq_false hc)
  have hblank : Text.isBlank op.symbol = false := by cases op <;> decide
  rw [Operator.symbol_of_ofChar? hop, h] at hblank
  cases hblank

theorem atStart_of_isBlank {c : Char} (h : Text.isBlank c) (before : List Char) :
    atStart (c :: before) = atStart before := by simp [atStart, h]

theorem atStart_cons_congr {before written : List Char} (h : atStart before = atStart written)
    (c : Char) : atStart (c :: before) = atStart (c :: written) := by
  by_cases hc : Text.isBlank c
  · rw [atStart_of_isBlank hc, atStart_of_isBlank hc, h]
  · rw [atStart_cons (by simpa using hc), atStart_cons (by simpa using hc)]

theorem insertAfter_congr {before written : List Char} (h : atStart before = atStart written)
    (s : List Char) : insertAfter before s = insertAfter written s := by
  induction s generalizing before written with
  | nil => rfl
  | cons c s ih =>
    rw [insertAfter, insertAfter, isHeadless, isHeadless, h, ih (atStart_cons_congr h c)]

theorem foldl_write (s : List Char) {before written : List Char}
    (h : atStart written = atStart before) :
    s.foldl write written = (insertAfter before s).reverse ++ written := by
  induction s generalizing before written with
  | nil => rfl
  | cons c s ih =>
    rw [List.foldl_cons, write, insertAfter, isHeadless, h]
    split
    next hc =>
      rw [Bool.and_eq_true] at hc
      have hblank : Text.isBlank c = false := by
        by_contra hblank
        simp [not_isOperator_of_isBlank (Bool.of_not_eq_false hblank)] at hc
      -- The zero is behind the operator, where no one looks back at it.
      have hlast : atStart (c :: '0' :: written) = atStart (c :: before) := by
        rw [atStart_cons hblank, atStart_cons hblank]
      rw [ih hlast]
      simp
    · rw [ih (atStart_cons_congr h c)]
      simp

theorem insert_eq (s : List Char) : insert s = insertAfter [] s := by
  rw [insert, foldl_write s rfl]
  simp

theorem insertAfter_append (before a b : List Char) :
    insertAfter before (a ++ b) =
      insertAfter before a ++ insertAfter (a.reverse ++ before) b := by
  induction a generalizing before with
  | nil => rfl
  | cons c a ih =>
    rw [List.cons_append, insertAfter, insertAfter, ih]
    split <;> simp

theorem insertAfter_of_not_isOperator {s : List Char} (h : ∀ c ∈ s, isOperator c = false)
    (before : List Char) : insertAfter before s = s := by
  induction s generalizing before with
  | nil => rfl
  | cons c s ih =>
    rw [insertAfter, ih (fun d hd => h d (by simp [hd])), if_neg]
    simp [isHeadless, h c]

theorem zerosBefore_zero (before s : List Char) : zerosBefore before s 0 = 0 := by
  cases s <;> rfl

theorem zerosBefore_cons (before : List Char) (c : Char) (s : List Char) (n : Nat) :
    zerosBefore before (c :: s) (c.utf8Size + n) =
      (isHeadless before c).toNat + zerosBefore (c :: before) s n := by
  have hpos := c.utf8Size_pos
  rw [zerosBefore, if_neg (by omega), Nat.add_sub_cancel_left]

theorem zerosBefore_append (before w s : List Char) (n : Nat) :
    zerosBefore before (w ++ s) (Text.width w + n) =
      zerosBefore before w (Text.width w) + zerosBefore (w.reverse ++ before) s n := by
  induction w generalizing before with
  | nil => simp [zerosBefore]
  | cons c w ih =>
    rw [List.cons_append, Text.width_cons, Nat.add_assoc, zerosBefore_cons, zerosBefore_cons, ih]
    simp [Nat.add_assoc]

theorem width_insertAfter (before s : List Char) :
    Text.width (insertAfter before s) = Text.width s + zerosBefore before s (Text.width s) := by
  induction s generalizing before with
  | nil => rfl
  | cons c s ih =>
    have hsize : '0'.utf8Size = 1 := by decide
    rw [insertAfter, Text.width_cons, zerosBefore_cons]
    cases isHeadless before c with
    | true =>
      simp [ih, hsize]
      omega
    | false =>
      simp [ih]
      omega

theorem zerosBefore_of_not_isOperator {s : List Char} (h : ∀ c ∈ s, isOperator c = false)
    (before : List Char) : zerosBefore before s (Text.width s) = 0 := by
  have hwidth := width_insertAfter before s
  rw [insertAfter_of_not_isOperator h] at hwidth
  omega

end PostfixCalculator.ImplicitZero
