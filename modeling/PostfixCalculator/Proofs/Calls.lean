import Mathlib.Logic.Function.Iterate
import Mathlib.Order.Monotone.Basic
import PostfixCalculator.Proofs.Words

/-! A reader that is called again and again, whatever it answers.

A call passes over white space, then takes a piece of the text or stays where it is for good: at the
end of the text, or before the token in which a character is out of place. Each piece has a character
that is not white space, so the answers repeat after as many calls as there are such characters. -/
namespace PostfixCalculator

namespace Text

/-- The offset lies between two characters of the text, or at one of its ends. -/
def Boundary (s : List Char) (k : Nat) : Prop := String.Pos.Raw.IsValid (String.ofList s) ⟨k⟩

theorem utf8ByteSize_ofList (s : List Char) : (String.ofList s).utf8ByteSize = width s := by
  induction s with
  | nil => rfl
  | cons c s ih => simp [String.ofList_cons, ih]

theorem boundary_append (before after : List Char) : Boundary (before ++ after) (width before) := by
  apply String.Pos.Raw.isValid_iff_exists_append.mpr
  refine ⟨String.ofList before, String.ofList after, String.ofList_append, ?_⟩
  exact congrArg String.Pos.Raw.mk (utf8ByteSize_ofList before).symm

theorem Holds.boundary {s : List Char} {pos : Nat} {c : Char} (h : Holds s pos c) :
    Boundary s pos := by
  obtain ⟨before, after, rfl, rfl⟩ := h
  exact boundary_append before (c :: after)

/-- How many characters are no white space. -/
def inked (s : List Char) : Nat := s.countP fun c => !isBlank c

end Text

namespace Reading

theorem Stray.not_isBlank {run : List Char} {c : Char} (h : Stray run c) :
    Text.isBlank c = false := by
  have hends := h.1
  rw [Reader.endsNumber, Bool.or_eq_false_iff] at hends
  exact hends.1

theorem Stray.begins {run : List Char} {c : Char} (h : Stray run c) (s : List Char) :
    ∃ d rest, run ++ c :: s = d :: rest ∧ Text.isBlank d = false := by
  cases run with
  | nil => exact ⟨c, s, rfl, h.not_isBlank⟩
  | cons d run =>
    exact ⟨d, run ++ c :: s, rfl, Text.not_isBlank_of_isMember (h.isMember d List.mem_cons_self)⟩

end Reading

namespace Reader

def advance (r : Reader) : Reader := r.next.2

/-- A reader of the text after `n` calls. -/
def after (s : List Char) (n : Nat) : Reader := advance^[n] (.ofText s)

/-- The answers with which a reader moves on: a token, or a run that is no number. -/
def Passes : Except ParseError (Option Token) → Prop
  | .ok (some _) | .error (.badNumber _) => True
  | _ => False

/-- The answers with which it stays where it is: the end, or a character out of place. -/
def Stays : Except ParseError (Option Token) → Prop
  | .ok none | .error (.unexpected _ _) => True
  | _ => False

inductive Call : Reader → Except ParseError (Option Token) → Reader → Prop where
  | finished {gap k} : (∀ c ∈ gap, Text.isBlank c) →
      Call ⟨gap, k⟩ (.ok none) ⟨[], k + Text.width gap⟩
  | taken {gap c piece s k answer} : (∀ c ∈ gap, Text.isBlank c) → Text.isBlank c = false →
      Passes answer →
      Call ⟨gap ++ (c :: piece ++ s), k⟩ answer ⟨s, k + Text.width gap + Text.width (c :: piece)⟩
  | stray {gap run c s k} : (∀ c ∈ gap, Text.isBlank c) → Reading.Stray run c →
      Call ⟨gap ++ (run ++ c :: s), k⟩ (.error (.unexpected c (k + Text.width gap + Text.width run)))
        ⟨run ++ c :: s, k + Text.width gap⟩

/-- What a reader of `s` promises for the call after `n` others. -/
structure Safe (s : List Char) (n : Nat) : Prop where
  follows : (after s n).Follows (.ofText s)
  boundary : Text.Boundary s (after s n).cursor
  within : (after s n).cursor ≤ Text.width s
  run : Text.Boundary s ((after s n).skip Text.isBlank).cursor ∧
    Text.Boundary s (((after s n).skip Text.isBlank).skip Numeral.isMember).cursor
  token : ∀ token, (after s n).next.1 = .ok (some token) →
    (after s n).cursor < (after s (n + 1)).cursor
  badNumber : ∀ run, (after s n).next.1 = .error (.badNumber run) →
    (after s n).cursor < (after s (n + 1)).cursor
  unexpected : ∀ c pos, (after s n).next.1 = .error (.unexpected c pos) →
    (∃ gap d rest, (after s n).rest = gap ++ d :: rest ∧ (∀ b ∈ gap, Text.isBlank b) ∧
      Text.isBlank d = false ∧
      after s (n + 1) = ⟨d :: rest, (after s n).cursor + Text.width gap⟩) ∧
    (after s (n + 1)).cursor ≤ pos ∧ Text.Boundary s pos ∧ Text.Holds s pos c ∧
    Text.isBlank c = false ∧
    ∀ k, n ≤ k → (after s k).next = (.error (.unexpected c pos), after s (n + 1))
  finished : (after s n).next.1 = .ok none → (after s (n + 1)).cursor = Text.width s ∧
    ∀ k, n ≤ k → (after s k).next = (.ok none, after s (n + 1))

variable {r r' : Reader} {answer : Except ParseError (Option Token)} {s : List Char} {n : Nat}

theorem next_eq_shift (s : List Char) (k : Nat) : (⟨s, k⟩ : Reader).next =
    ((ofText s).next.1.mapError (.shift k), (ofText s).next.2.shift k) :=
  next_shift k (ofText s)

theorem next_of_gap {gap : List Char} (h : ∀ c ∈ gap, Text.isBlank c) (s : List Char) (k : Nat) :
    (⟨gap ++ s, k⟩ : Reader).next = (⟨s, k + Text.width gap⟩ : Reader).next := by
  rw [next_eq_shift, Reading.next_of_blanks h, ← next_shift]
  rfl

theorem passes_numeral (run : List Char) : Passes (numeral run) := by
  unfold numeral
  split <;> trivial

theorem call_of_run {gap run s : List Char} (hgap : ∀ c ∈ gap, Text.isBlank c)
    (hrun : Numeral.IsRun run) (hs : Reading.Delimited s) (k : Nat) :
    Call ⟨gap ++ (run ++ s), k⟩ (⟨gap ++ (run ++ s), k⟩ : Reader).next.1
      (⟨gap ++ (run ++ s), k⟩ : Reader).next.2 := by
  rw [next_of_gap hgap, next_eq_shift, Reading.next_of_run hrun hs]
  obtain ⟨⟨c, hhead, hdigit⟩, -⟩ := hrun
  obtain ⟨piece, rfl⟩ := List.head?_eq_some_iff.mp hhead
  have hblank := Text.not_isBlank_of_isMember (Numeral.isMember_of_isDigit hdigit)
  rw [mapError_numeral]
  exact .taken hgap hblank (passes_numeral _)

theorem call_next (r : Reader) : Call r r.next.1 r.next.2 := by
  obtain ⟨rest, k⟩ := r
  have hgap : ∀ c ∈ rest.takeWhile Text.isBlank, Text.isBlank c :=
    fun c hc => List.mem_takeWhile_imp hc
  have hhead := List.head?_dropWhile_not Text.isBlank rest
  rw [← List.takeWhile_append_dropWhile (p := Text.isBlank) (l := rest)]
  obtain ⟨ts, e, hread⟩ := Reading.exists_reads (rest.dropWhile Text.isBlank)
  generalize rest.dropWhile Text.isBlank = s at hhead hread ⊢
  cases hread with
  | finished =>
    rw [next_of_gap hgap, List.append_nil]
    exact .finished hgap
  | blank hblank _ => simp [hblank] at hhead
  | @symbol c token s _ _ htoken _ =>
    rw [next_of_gap hgap, next_eq_shift, Reading.next_of_symbol htoken]
    have htaken : Call ⟨_ ++ ([c] ++ s), k⟩ (.ok (some token)) ⟨s, _⟩ :=
      .taken hgap (Text.not_isBlank_of_ofChar? htoken) trivial
    exact htaken
  | number hrun _ hs _ => exact call_of_run hgap hrun hs k
  | malformed hrun _ hs => exact call_of_run hgap hrun hs k
  | stray hstray =>
    rw [next_of_gap hgap, next_eq_shift, Reading.next_of_stray hstray]
    exact .stray hgap hstray

theorem passes_or_stays (h : Call r answer r') : Passes answer ∨ Stays answer := by
  cases h with
  | finished => exact Or.inr trivial
  | taken _ _ hpasses => exact Or.inl hpasses
  | stray => exact Or.inr trivial

theorem Passes.not_stays (h : Passes answer) : ¬ Stays answer := by
  intro hstays
  unfold Passes Stays at *
  split at h <;> simp_all

theorem next_of_call (h : Call r answer r') (hstays : Stays answer) : r'.next = (answer, r') := by
  cases h with
  | finished => rfl
  | taken _ _ hpasses => exact absurd hstays hpasses.not_stays
  | stray _ hstray =>
    rw [next_eq_shift, Reading.next_of_stray hstray]
    rfl

theorem inked_lt_of_call (h : Call r answer r') (hpasses : Passes answer) :
    Text.inked r'.rest < Text.inked r.rest := by
  cases h with
  | finished => exact hpasses.elim
  | stray => exact hpasses.elim
  | @taken gap c piece s k _ hgap hc _ =>
    simp [Text.inked, hc]
    omega

theorem after_succ (s : List Char) (n : Nat) : after s (n + 1) = (after s n).next.2 :=
  Function.iterate_succ_apply' advance n (.ofText s)

theorem after_follows (s : List Char) (n : Nat) : (after s n).Follows (.ofText s) := by
  induction n with
  | zero => exact ⟨[], rfl, rfl⟩
  | succ n ih =>
    rw [after_succ]
    exact (next_follows _).trans ih

theorem Follows.boundary (h : r.Follows (.ofText s)) : Text.Boundary s r.cursor := by
  obtain ⟨read, rfl, hcursor⟩ : ∃ read, s = read ++ r.rest ∧ r.cursor = 0 + Text.width read := h
  rw [hcursor, Nat.zero_add]
  exact Text.boundary_append read r.rest

theorem cursor_monotone (s : List Char) : Monotone fun n => (after s n).cursor := by
  apply monotone_nat_of_le_succ
  intro n
  obtain ⟨read, -, hcursor⟩ := next_follows (after s n)
  rw [after_succ, hcursor]
  exact Nat.le_add_right _ _

theorem next_after_of_le {k : Nat} (hstays : Stays (after s n).next.1) (hk : n ≤ k) :
    (after s k).next = ((after s n).next.1, after s (n + 1)) := by
  induction k, hk using Nat.le_induction with
  | base => rw [after_succ]
  | succ k _ ih =>
    have hrepeats := next_of_call (call_next (after s n)) hstays
    rw [after_succ s k, ih, after_succ s n]
    exact hrepeats

theorem cursor_lt_of_call (h : Call r answer r') (hpasses : Passes answer) :
    r.cursor < r'.cursor := by
  cases h with
  | finished => exact hpasses.elim
  | stray => exact hpasses.elim
  | @taken gap c piece s k _ _ _ _ =>
    have hpos := c.utf8Size_pos
    simp only [Text.width_cons]
    omega

/-- The answers repeat after no more calls than there are characters to read. -/
theorem exists_last (r : Reader) : ∃ m, m ≤ Text.inked r.rest ∧
    (∀ k, k < m → Passes (advance^[k] r).next.1) ∧ Stays (advance^[m] r).next.1 := by
  induction hn : Text.inked r.rest using Nat.strong_induction_on generalizing r with
  | h n ih =>
    subst hn
    rcases passes_or_stays (call_next r) with hpasses | hstays
    · have hless := inked_lt_of_call (call_next r) hpasses
      obtain ⟨m, hm, hbefore, hlast⟩ := ih _ hless r.advance rfl
      refine ⟨m + 1, Nat.succ_le_of_lt (Nat.lt_of_le_of_lt hm hless), ?_, hlast⟩
      intro k hk
      cases k with
      | zero => exact hpasses
      | succ k => exact hbefore k (Nat.lt_of_succ_lt_succ hk)
    · exact ⟨0, Nat.zero_le _, nofun, hstays⟩

theorem finished_of_call (h : Call r (.ok none) r') : r'.rest = [] := by
  cases h with
  | finished => rfl
  | taken _ _ hpasses => exact hpasses.elim

theorem unexpected_of_call {c : Char} {pos : Nat} (h : Call r (.error (.unexpected c pos)) r') :
    (∃ gap d rest, r.rest = gap ++ d :: rest ∧ (∀ b ∈ gap, Text.isBlank b) ∧
      Text.isBlank d = false ∧ r' = ⟨d :: rest, r.cursor + Text.width gap⟩) ∧
    (∃ run rest, r'.rest = run ++ c :: rest ∧ pos = r'.cursor + Text.width run) ∧
    Text.isBlank c = false := by
  cases h with
  | taken _ _ hpasses => exact hpasses.elim
  | @stray gap run _ s k hgap hstray =>
    obtain ⟨d, rest, hbegin, hblank⟩ := hstray.begins s
    refine ⟨⟨gap, d, rest, ?_, hgap, hblank, ?_⟩, ⟨run, s, rfl, rfl⟩, hstray.not_isBlank⟩
    · rw [hbegin]
    · rw [hbegin]

theorem Follows.holds {run rest : List Char} {c : Char} (h : r.Follows (.ofText s))
    (hrest : r.rest = run ++ c :: rest) : Text.Holds s (r.cursor + Text.width run) c := by
  obtain ⟨read, htext, hcursor⟩ := h
  refine ⟨read ++ run, rest, ?_, ?_⟩
  · rw [List.append_assoc, ← hrest]
    exact htext
  · rw [hcursor, Text.width_append]
    exact congrArg (· + Text.width run) (Nat.zero_add _).symm

theorem safe_after (s : List Char) (n : Nat) : Safe s n := by
  have hfollows := after_follows s n
  have hnext := after_follows s (n + 1)
  have hcall := call_next (after s n)
  rw [← after_succ] at hcall
  have hend : (after s n).cursor + Text.width (after s n).rest = 0 + Text.width s :=
    hfollows.cursor_add_width
  constructor
  · exact hfollows
  · exact hfollows.boundary
  · omega
  · have hstart := (skip_follows Text.isBlank (after s n)).trans hfollows
    exact ⟨hstart.boundary, ((skip_follows Numeral.isMember _).trans hstart).boundary⟩
  · intro token h
    rw [h] at hcall
    exact cursor_lt_of_call hcall trivial
  · intro run h
    rw [h] at hcall
    exact cursor_lt_of_call hcall trivial
  · intro c pos h
    rw [h] at hcall
    obtain ⟨hbegin, ⟨run, rest, hrest, rfl⟩, hblank⟩ := unexpected_of_call hcall
    have hholds := hnext.holds hrest
    refine ⟨hbegin, Nat.le_add_right _ _, hholds.boundary, hholds, hblank, ?_⟩
    intro k hk
    rw [← h]
    exact next_after_of_le (by rw [h]; trivial) hk
  · intro h
    rw [h] at hcall
    have hwidth : (after s (n + 1)).cursor + Text.width (after s (n + 1)).rest =
        0 + Text.width s := hnext.cursor_add_width
    rw [finished_of_call hcall, Text.width_nil] at hwidth
    refine ⟨by omega, ?_⟩
    intro k hk
    rw [← h]
    exact next_after_of_le (by rw [h]; trivial) hk

/-- A reader may be called as often as one likes, errors included. Its cursor never leaves the
boundaries between characters nor goes back, and from one call on, after no more others than the
text has characters that are no white space, it gives the same answer and stays. -/
theorem calls_safe (s : List Char) :
    (∀ n, Safe s n) ∧ (Monotone fun n => (after s n).cursor) ∧
    ∃ m, m ≤ Text.inked s ∧ (∀ n, n < m → Passes (after s n).next.1) ∧
      Stays (after s m).next.1 ∧
      ∀ n, m ≤ n → (after s n).next = ((after s m).next.1, after s (m + 1)) := by
  refine ⟨safe_after s, cursor_monotone s, ?_⟩
  obtain ⟨m, hm, hbefore, hlast⟩ := exists_last (.ofText s)
  exact ⟨m, hm, hbefore, hlast, fun n hn => next_after_of_le hlast hn⟩

example : [0, 1, 2].map (fun n => (after ['1', '.', '.', ' ', '2', 'é'] n).next) =
    [(.error (.badNumber ['1', '.', '.']), ⟨[' ', '2', 'é'], 3⟩),
      (.error (.unexpected 'é' 5), ⟨['2', 'é'], 4⟩),
      (.error (.unexpected 'é' 5), ⟨['2', 'é'], 4⟩)] := by
  decide +kernel

end Reader

end PostfixCalculator
