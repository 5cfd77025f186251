import PostfixCalculator.Proofs.Parsing
import PostfixCalculator.Proofs.Preparation

/-! Where an unexpected character is reported.

The position counts the zeros that are put into an expression before it is read. So it is the offset
in the text with the zeros, and in the expression as it was written only where no zero stands
before it. -/
namespace PostfixCalculator

theorem Text.Holds.of_append {s : List Char} {pos : Nat} {c d : Char}
    (h : Holds (s ++ [d]) pos c) (hne : c ≠ d) : Holds s pos c := by
  obtain ⟨before, after, hsplit, hwidth⟩ := h
  rcases List.eq_nil_or_concat after with rfl | ⟨after, last, rfl⟩
  · obtain ⟨_, hlast⟩ := List.append_inj' hsplit rfl
    cases hlast
    exact absurd rfl hne
  · rw [List.concat_eq_append, ← List.cons_append, ← List.append_assoc] at hsplit
    obtain ⟨rfl, _⟩ := List.append_inj' hsplit rfl
    exact ⟨before, after, rfl, hwidth⟩

theorem ParseError.unexpected_of_relocate {e : Option ParseError} {before s : List Char} {c : Char}
    {pos : Nat} (h : e.map (ParseError.relocate before s) = some (.unexpected c pos)) :
    ∃ offset, e = some (.unexpected c offset) ∧
      pos = offset + ImplicitZero.zerosBefore before s offset := by
  obtain ⟨error, rfl, herror⟩ := Option.map_eq_some_iff.mp h
  cases error with
  | unexpected d offset =>
    cases herror
    exact ⟨offset, rfl, rfl⟩
  | _ => cases herror

namespace Session

variable {session : Session} {e : String} {c : Char} {pos : Nat}

theorem error_of_unexpected (h : (session.parse e).1 = .error (.unexpected c pos)) :
    (Reading.ofText (Attempt.prepare e.toList)).error? = some (.unexpected c pos) := by
  rcases Attempt.error_of_answer h with hpostfix | hstructural
  · rcases Reading.verdict_error ((Conversion.ofText_error_iff _).mp hpostfix) with
      hfault | hunbalanced | ⟨op, htable, _⟩
    · exact hfault
    · cases hunbalanced
    · cases htable
  · cases hstructural

/-- An unexpected character stands at its position in the expression with the zeros. In the
expression itself it stands as many bytes before as there are zeros before it. -/
theorem parse_unexpected (h : (session.parse e).1 = .error (.unexpected c pos)) :
    Text.Holds (ImplicitZero.insert e.toList) pos c ∧
      ∃ offset, Text.Holds e.toList offset c ∧
        pos = offset + ImplicitZero.zerosBefore [] e.toList offset := by
  have hprepared := Reading.reads_prepare e.toList
  have hfault := error_of_unexpected h
  rw [hprepared.sound.2] at hfault
  rw [hfault] at hprepared
  obtain ⟨hholds, hends⟩ := hprepared.holds
  have hne : c ≠ ')' := by
    rintro rfl
    exact absurd hends (by decide)
  obtain ⟨offset, hoffset, hpos⟩ := ParseError.unexpected_of_relocate hfault
  have hread : Reading.Reads e.toList (Reading.ofText e.toList).tokens
      (some (.unexpected c offset)) := Reading.reads_iff.mpr ⟨rfl, hoffset⟩
  exact ⟨hholds.of_append hne, offset, hread.holds.1, hpos⟩

theorem parse_unexpected_shifted :
    ((start .standard).parse "-(2*-é").1 = .error (.unexpected 'é' 7) ∧
      Text.Holds (ImplicitZero.insert "-(2*-é".toList) 7 'é' ∧
        ∃ offset, Text.Holds "-(2*-é".toList offset 'é' ∧
          7 = offset + ImplicitZero.zerosBefore [] "-(2*-é".toList offset := by
  have hparse : ((start .standard).parse "-(2*-é").1 = .error (.unexpected 'é' 7) := by
    decide +kernel
  exact ⟨hparse, parse_unexpected hparse⟩

/-- In the expression the position lies within the letter, which takes the bytes 1 and 2. -/
theorem parse_position_astray : ((start .standard).parse "-é").1 = .error (.unexpected 'é' 2) ∧
    ¬ Text.Holds "-é".toList 2 'é' := by
  refine ⟨by decide +kernel, ?_⟩
  rintro ⟨before, after, hsplit, hwidth⟩
  have hlist : "-é".toList = ['-', 'é'] := by decide +kernel
  rw [hlist] at hsplit
  match before with
  | [] => cases hsplit
  | [_] =>
    cases hsplit
    exact absurd hwidth (by decide)
  | _ :: _ :: _ =>
    have hlength := congrArg List.length hsplit
    simp at hlength

end Session

end PostfixCalculator
