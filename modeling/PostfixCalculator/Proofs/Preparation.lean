import PostfixCalculator.Proofs.Conservation
import PostfixCalculator.Proofs.Insertion
import PostfixCalculator.Proofs.Sentences
import PostfixCalculator.Proofs.Words
import PostfixCalculator.Session

/-! The reading of a text with its zeros and the parenthesis that closes it.

The zeros are tokens of their own, put before the operators that lack a left operand among the
tokens. A number ends where it did, since no zero is put after a digit, and what is out of place in
the text is out of place where it has moved to. -/
namespace PostfixCalculator

open ImplicitZero (atStart insertAfter zerosBefore isHeadless)

namespace Token

/-- An operator without a left operand. -/
def headless (x : Token × Token) : Bool := !x.1.ends && x.2.isOperator

/-- The tokens with a zero before each operator without a left operand. The token `a` stands before
them. -/
def zeroed (a : Token) : List Token → List Token
  | [] => []
  | token :: tokens =>
    if headless (a, token) then .number 0 :: token :: zeroed token tokens
    else token :: zeroed token tokens

theorem zeroed_number (a : Token) (x : Float) (tokens : List Token) :
    zeroed a (.number x :: tokens) = .number x :: zeroed (.number x) tokens := by
  simp [zeroed, headless, isOperator]

theorem headless_of_zeroed (a : Token) (tokens : List Token) :
    ∀ x ∈ neighbours a (zeroed a tokens ++ [.closing]), headless x = false := by
  induction tokens generalizing a with
  | nil => simp [zeroed, neighbours, headless, isOperator]
  | cons token tokens ih =>
    rw [zeroed]
    split
    · rw [List.cons_append, List.cons_append, neighbours_cons, neighbours_cons]
      refine List.forall_mem_cons.mpr ⟨?_, List.forall_mem_cons.mpr ⟨?_, ih token⟩⟩
      · simp [headless, isOperator]
      · simp [headless, ends]
    next hhas =>
      rw [List.cons_append, neighbours_cons]
      exact List.forall_mem_cons.mpr ⟨by simpa using hhas, ih token⟩

end Token

namespace ImplicitZero

theorem opens_eq {c : Char} {token : Token} (h : Token.ofChar? c = some token) :
    opens c = !token.ends := by
  rcases Token.ofChar?_cases h with ⟨rfl, rfl⟩ | ⟨rfl, rfl⟩ | ⟨op, rfl, rfl⟩
  · rfl
  · decide
  · cases op <;> rfl

theorem isOperator_eq {c : Char} {token : Token} (h : Token.ofChar? c = some token) :
    isOperator c = token.isOperator := by
  rcases Token.ofChar?_cases h with ⟨rfl, rfl⟩ | ⟨rfl, rfl⟩ | ⟨op, rfl, rfl⟩
  · rfl
  · rfl
  · cases op <;> rfl

end ImplicitZero

namespace ParseError

/-- The error in a text where it has moved to with the zeros of the text. -/
def relocate (before s : List Char) : ParseError → ParseError
  | .unexpected found position => .unexpected found (position + zerosBefore before s position)
  | e => e

theorem relocate_shift (before w s : List Char) (e : ParseError) :
    (e.shift (Text.width w)).relocate before (w ++ s) =
      (e.relocate (w.reverse ++ before) s).shift (Text.width (insertAfter before w)) := by
  cases e with
  | unexpected found position =>
    simp only [shift, relocate, ImplicitZero.width_insertAfter, ImplicitZero.zerosBefore_append]
    congr 1
    omega
  | _ => rfl

end ParseError

theorem Numeral.IsRun.not_isOperator {run : List Char} (h : IsRun run) :
    ∀ c ∈ run, isOperator c = false :=
  fun c hc => ImplicitZero.not_isOperator_of_isMember (h.2 c hc)

namespace Reading

def ending (e : Option ParseError) : List Token := if e.isNone then [.closing] else []

theorem ending_map (e : Option ParseError) (f : ParseError → ParseError) :
    ending (e.map f) = ending e := by
  cases e <;> rfl

theorem map_relocate (before w s : List Char) (e : Option ParseError) :
    (e.map (ParseError.shift (Text.width w))).map (.relocate before (w ++ s)) =
      (e.map (.relocate (w.reverse ++ before) s)).map
        (ParseError.shift (Text.width (insertAfter before w))) := by
  cases e with
  | none => rfl
  | some e => simp [ParseError.relocate_shift]

theorem map_relocate_plain {w : List Char} (h : ∀ c ∈ w, isOperator c = false)
    (before s : List Char) (e : Option ParseError) :
    (e.map (ParseError.shift (Text.width w))).map (.relocate before (w ++ s)) =
      (e.map (.relocate (w.reverse ++ before) s)).map (ParseError.shift (Text.width w)) := by
  rw [map_relocate, ImplicitZero.insertAfter_of_not_isOperator h]

theorem prepared_append {w : List Char} (h : ∀ c ∈ w, isOperator c = false)
    (before s : List Char) : insertAfter before (w ++ s) ++ [')'] =
      w ++ (insertAfter (w.reverse ++ before) s ++ [')']) := by
  rw [ImplicitZero.insertAfter_append, ImplicitZero.insertAfter_of_not_isOperator h,
    List.append_assoc]

theorem map_shift_map_shift (k m : Nat) (e : Option ParseError) :
    (e.map (ParseError.shift k)).map (ParseError.shift m) = e.map (ParseError.shift (m + k)) := by
  cases e with
  | none => rfl
  | some e => cases e <;> simp [ParseError.shift, Nat.add_assoc]

theorem value?_zero : Numeral.value? ['0'] = some 0 := by decide +kernel

theorem isRun_zero : Numeral.IsRun ['0'] := Numeral.isRun_singleton (by decide)

theorem delimited_of_ofChar? {c : Char} {token : Token} (h : Token.ofChar? c = some token)
    (s : List Char) : Delimited (c :: s) := by
  intro d hd
  cases hd
  exact Reader.endsNumber_of_ofChar? h

theorem Stray.not_isOperator {run : List Char} {c : Char} (h : Stray run c) :
    isOperator c = false := by
  have hends := h.1
  by_contra hc
  have hopens : ImplicitZero.opens c := by simp [ImplicitZero.opens, Bool.of_not_eq_false hc]
  simp [Reader.endsNumber, ImplicitZero.ofChar?_of_opens hopens] at hends

theorem delimited_insertAfter {before s : List Char} (hs : Delimited s)
    (hstart : atStart before = false) : Delimited (insertAfter before s ++ [')']) := by
  cases s with
  | nil => exact delimited_of_ofChar? (show Token.ofChar? ')' = some .closing from rfl) []
  | cons c s =>
    have hheadless : isHeadless before c = false := by simp [isHeadless, hstart]
    rw [insertAfter, if_neg (by simp [hheadless])]
    intro d hd
    cases hd
    exact hs c rfl

theorem Reads.prepare {s : List Char} {ts : List Token} {e : Option ParseError}
    (h : Reads s ts e) {before : List Char} {a : Token} (ha : a.ends = !atStart before) :
    Reads (insertAfter before s ++ [')']) (Token.zeroed a ts ++ ending e)
      (e.map (.relocate before s)) := by
  induction h generalizing before a with
  | finished =>
    have hclosing : Token.ofChar? ')' = some .closing := rfl
    exact .symbol hclosing .finished
  | @blank c s ts e hc _ ih =>
    have hplain : ∀ d ∈ [c], isOperator d = false := by
      simpa using ImplicitZero.not_isOperator_of_isBlank hc
    have hsame : a.ends = !atStart (c :: before) := by
      rw [ha, ImplicitZero.atStart_of_isBlank hc]
    have hread := Reads.blank hc (ih hsame)
    rw [ending_map, ← List.singleton_append, prepared_append hplain]
    exact map_relocate_plain hplain before s e ▸ hread
  | @symbol c token s ts e hc _ ih =>
    have hblank := Text.not_isBlank_of_ofChar? hc
    have hafter : token.ends = !atStart (c :: before) := by
      rw [ImplicitZero.atStart_cons hblank, ImplicitZero.opens_eq hc, Bool.not_not]
    have hheadless : isHeadless before c = Token.headless (a, token) := by
      rw [isHeadless, Token.headless, ImplicitZero.isOperator_eq hc, ha, Bool.not_not, Bool.and_comm]
    have hmap := map_relocate before [c] s e
    have hrest := Reads.symbol hc (ih hafter)
    rw [Token.zeroed, ending_map, insertAfter, ← hheadless]
    rw [insertAfter, insertAfter] at hmap
    cases hzero : isHeadless before c with
    | false =>
      rw [hzero] at hmap
      exact hmap ▸ hrest
    | true =>
      rw [hzero] at hmap
      have hread := Reads.number isRun_zero value?_zero (delimited_of_ofChar? hc _) hrest
      rw [map_shift_map_shift] at hread
      exact hmap ▸ hread
  | @number run x s ts e hrun hx hs _ ih =>
    have hstart := ImplicitZero.atStart_of_isMember hrun.2 hrun.ne_nil before
    have hends : (Token.number x).ends = !atStart (run.reverse ++ before) := by rw [hstart]; rfl
    have hread := Reads.number hrun hx (delimited_insertAfter hs hstart) (ih hends)
    rw [Token.zeroed_number, ending_map, prepared_append hrun.not_isOperator,
      map_relocate_plain hrun.not_isOperator]
    exact hread
  | @malformed run s hrun hx hs =>
    have hstart := ImplicitZero.atStart_of_isMember hrun.2 hrun.ne_nil before
    rw [prepared_append hrun.not_isOperator]
    exact .malformed hrun hx (delimited_insertAfter hs hstart)
  | @stray run c s hc =>
    have hplain : ∀ d ∈ run, isOperator d = false :=
      fun d hd => ImplicitZero.not_isOperator_of_isMember (hc.isMember d hd)
    have hnone : zerosBefore before (run ++ c :: s) (Text.width run) = 0 := by
      have happend := ImplicitZero.zerosBefore_append before run (c :: s) 0
      rwa [Nat.add_zero, ImplicitZero.zerosBefore_zero,
        ImplicitZero.zerosBefore_of_not_isOperator hplain] at happend
    have hheadless : isHeadless (run.reverse ++ before) c = false := by
      simp [isHeadless, hc.not_isOperator]
    rw [prepared_append hplain, insertAfter, if_neg (by simp [hheadless]), List.cons_append,
      Option.map_some, ParseError.relocate, hnone, Nat.add_zero]
    exact .stray hc

theorem reads_prepare (e : List Char) :
    Reads (Attempt.prepare e) (Token.zeroed .opening (ofText e).tokens ++ ending (ofText e).error?)
      ((ofText e).error?.map (.relocate [] e)) := by
  have hread : Reads e (ofText e).tokens (ofText e).error? := reads_iff.mpr ⟨rfl, rfl⟩
  have hstart : Token.opening.ends = !atStart [] := rfl
  rw [Attempt.prepare, ImplicitZero.insert_eq]
  exact hread.prepare hstart

/-- A prepared text is read as the tokens of the text with a zero before each operator that is first
or follows an operator or an opening parenthesis, and with a closing parenthesis at the end. What
is wrong with the text is wrong with the prepared one, and an unexpected character is found as many
bytes further on as zeros are put before it. -/
theorem ofText_prepare (e : List Char) :
    (ofText (Attempt.prepare e)).tokens =
        Token.zeroed .opening (ofText e).tokens ++ ending (ofText e).error? ∧
      (ofText (Attempt.prepare e)).error? = (ofText e).error?.map (.relocate [] e) :=
  (reads_prepare e).sound

/-- The tokens of a text with its zeros are found from those of the text. -/
theorem spells_insert_iff {s : List Char} {us : List Token} :
    Spells (ImplicitZero.insert s) us ↔ ∃ ts, Spells s ts ∧ us = Token.zeroed .opening ts := by
  obtain ⟨htokens, herror⟩ := ofText_prepare s
  obtain ⟨hsame, hclosing⟩ := ofText_append_closing (ImplicitZero.insert s)
  rw [Attempt.prepare] at htokens herror
  rw [hsame] at herror
  constructor
  · rintro ⟨hnone, rfl⟩
    rw [hnone] at herror
    have hread : (ofText s).error? = none := Option.map_eq_none_iff.mp herror.symm
    rw [hclosing hnone, hread] at htokens
    exact ⟨(ofText s).tokens, ⟨hread, rfl⟩, List.append_cancel_right htokens⟩
  · rintro ⟨ts, ⟨hread, rfl⟩, rfl⟩
    rw [hread] at herror
    rw [hclosing herror, hread] at htokens
    exact ⟨herror, List.append_cancel_right htokens⟩

end Reading

end PostfixCalculator
