import Mathlib.Data.List.TakeWhile
import PostfixCalculator.Proofs.Insertion
import PostfixCalculator.Session

/-! Where the zeros of a text stand.

A zero goes before each operator that lacks its left operand in the text as it is given, and nowhere
else: whoever looks back past such an operator stops at it, before the zero is reached. In a text
with its zeros no operator lacks its left operand, so no more are put in, and parsing such a text
is parsing the one that it comes from. -/
namespace PostfixCalculator

def Text.lastInked (s : List Char) : Option Char := s.reverse.find? (!isBlank ·)

namespace ImplicitZero

/-- At the place `i` of the text stands an operator, and the nearest character before it that is not
white space is missing, an opening parenthesis or another operator. -/
def headlessAt (s : List Char) (i : ℕ) : Bool :=
  s[i]?.any isOperator && (Text.lastInked (s.take i)).all opens

section Places

variable (p : ℕ → Bool)

def zeroAt (x : Char × ℕ) : List Char := if p x.2 then ['0', x.1] else [x.1]

/-- The text with a zero before the character at each of the places. -/
def withZerosAt (s : List Char) : List Char := s.zipIdx.flatMap (zeroAt p)

theorem sublist_flatMap_zeroAt (l : List (Char × ℕ)) :
    (l.map Prod.fst).Sublist (l.flatMap (zeroAt p)) := by
  induction l with
  | nil => exact .slnil
  | cons x l ih =>
    rw [List.map_cons, List.flatMap_cons, zeroAt]
    split
    · exact (ih.cons_cons x.1).cons '0'
    · exact ih.cons_cons x.1

theorem size_flatMap_zeroAt (l : List (Char × ℕ)) :
    (l.flatMap (zeroAt p)).length = l.length + (l.map Prod.snd).countP p ∧
      Text.width (l.flatMap (zeroAt p)) =
        Text.width (l.map Prod.fst) + (l.map Prod.snd).countP p := by
  have hzero : '0'.utf8Size = 1 := by decide
  induction l with
  | nil => exact ⟨rfl, rfl⟩
  | cons x l ih =>
    obtain ⟨hlength, hwidth⟩ := ih
    rw [List.flatMap_cons, List.length_append, Text.width_append, hlength, hwidth, zeroAt]
    by_cases hx : p x.2
    · simp [hx, hzero]
      omega
    · simp [hx]
      omega

theorem sublist_withZerosAt (s : List Char) : s.Sublist (withZerosAt p s) := by
  have hsublist := sublist_flatMap_zeroAt p s.zipIdx
  rwa [List.zipIdx_map_fst] at hsublist

theorem size_withZerosAt (s : List Char) :
    (withZerosAt p s).length = s.length + (List.range s.length).countP p ∧
      Text.width (withZerosAt p s) = Text.width s + (List.range s.length).countP p := by
  have hsize := size_flatMap_zeroAt p s.zipIdx
  rwa [List.length_zipIdx, List.zipIdx_map_fst, List.zipIdx_map_snd,
    ← List.range_eq_range'] at hsize

end Places

theorem atStart_eq (before : List Char) :
    atStart before = (Text.lastInked before.reverse).all opens := by
  rw [atStart, Text.lastInked, List.reverse_reverse, List.find?_not_eq_head?_dropWhile]
  cases before.dropWhile Text.isBlank <;> rfl

theorem headlessAt_eq (before s : List Char) (c : Char) :
    headlessAt (before.reverse ++ c :: s) before.length = isHeadless before c := by
  have hhere : (before.reverse ++ c :: s)[before.length]? = some c := by simp
  have hbefore : (before.reverse ++ c :: s).take before.length = before.reverse := by simp
  rw [headlessAt, hhere, hbefore, ← atStart_eq, isHeadless, Option.any_some]

theorem insertAfter_eq (before s : List Char) : insertAfter before s =
    (s.zipIdx before.length).flatMap (zeroAt (headlessAt (before.reverse ++ s))) := by
  induction s generalizing before with
  | nil => rfl
  | cons c s ih =>
    have hrest := ih (c :: before)
    rw [List.reverse_cons, List.append_assoc, List.singleton_append, List.length_cons] at hrest
    rw [insertAfter, List.zipIdx_cons, List.flatMap_cons, hrest, zeroAt]
    rw [headlessAt_eq before s c]
    split <;> rfl

theorem insert_eq_withZerosAt (s : List Char) : insert s = withZerosAt (headlessAt s) s := by
  rw [insert_eq, insertAfter_eq]
  rfl

/-- The text with its zeros is the text with a zero before each operator that lacks its left operand
in it. It is longer by the number of these operators, in characters as in bytes, and its other
characters are those of the text in their order. -/
theorem insert_by_places (s : List Char) :
    insert s = withZerosAt (headlessAt s) s ∧ s.Sublist (insert s) ∧
      (insert s).length = s.length + (List.range s.length).countP (headlessAt s) ∧
      Text.width (insert s) = Text.width s + (List.range s.length).countP (headlessAt s) := by
  rw [insert_eq_withZerosAt]
  exact ⟨rfl, sublist_withZerosAt _ s, size_withZerosAt _ s⟩

example : insert ['-', ' ', '-', '3'] = ['0', '-', ' ', '0', '-', '3'] ∧
    (List.range 4).filter (headlessAt ['-', ' ', '-', '3']) = [0, 2] := by decide

theorem insert_eq_self_iff {s : List Char} : insert s = s ↔ ∀ i, headlessAt s i = false := by
  rw [insert_eq_withZerosAt]
  constructor
  · intro h i
    have hlength := (size_withZerosAt (headlessAt s) s).1
    rw [h] at hlength
    have hcount : (List.range s.length).countP (headlessAt s) = 0 := by omega
    by_cases hi : i < s.length
    · have hnot := List.countP_eq_zero.mp hcount i (List.mem_range.mpr hi)
      exact Bool.not_eq_true _ ▸ hnot
    · rw [headlessAt, List.getElem?_eq_none (by omega)]
      rfl
  · intro h
    have hplain : zeroAt (headlessAt s) = fun x => [x.1] := by
      funext x
      rw [zeroAt, h]
      rfl
    rw [withZerosAt, hplain, ← List.map_eq_flatMap, List.zipIdx_map_fst]

theorem insert_insert (s : List Char) : insert (insert s) = insert s :=
  insert_of_settled (settled_insert s)

end ImplicitZero

namespace Session

theorem parse_insert (session : Session) (e : String) :
    session.parse (String.ofList (ImplicitZero.insert e.toList)) = session.parse e := by
  rw [parse, parse, Attempt.make, Attempt.make, Attempt.prepare, Attempt.prepare,
    String.toList_ofList, ImplicitZero.insert_insert]

/-- In an expression with its zeros no operator lacks its left operand. So it gets no more of them,
and its parsing answers the same and leaves the same tree as that of the expression. -/
theorem parse_settled (session : Session) (e : String) :
    (∀ i, ImplicitZero.headlessAt (ImplicitZero.insert e.toList) i = false) ∧
      ImplicitZero.insert (ImplicitZero.insert e.toList) = ImplicitZero.insert e.toList ∧
      session.parse (String.ofList (ImplicitZero.insert e.toList)) = session.parse e := by
  have hsame := ImplicitZero.insert_insert e.toList
  exact ⟨ImplicitZero.insert_eq_self_iff.mp hsame, hsame, session.parse_insert e⟩

end Session

end PostfixCalculator
