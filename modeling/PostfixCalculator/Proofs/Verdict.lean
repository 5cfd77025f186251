import PostfixCalculator.Proofs.Conversion

/-! Which texts are converted to postfix order, and what is wrong with the others. -/
namespace PostfixCalculator

namespace Token

theorem priority_cases (t : Priorities) (token : Token) :
    (∀ op, token = .operator op → t.priority? op ≠ none) ∨
      ∃ op, token = .operator op ∧ t.priority? op = none := by
  by_cases hp : ∀ op, token = .operator op → t.priority? op ≠ none
  · exact Or.inl hp
  · exact Or.inr (by simpa using hp)

theorem exists_depth (token : Token) (k : Nat) : ∃ d : Nat, (d : Int) = k + 1 + token.weight := by
  have hd : 0 ≤ k + 1 + token.weight := by cases token <;> simp only [weight] <;> omega
  obtain ⟨d, hd⟩ := Int.eq_ofNat_of_zero_le hd
  exact ⟨d, hd.symm⟩

end Token

namespace Reading

/-- The number of open groups after the tokens, if there are `start` before them. -/
def depth (start : Int) (tokens : List Token) : Int :=
  tokens.foldl (fun depth token => depth + token.weight) start

/-- The last of the tokens closes the last open group, and none before it does. -/
def Closes (start : Int) (tokens : List Token) : Prop :=
  (∀ before after, tokens = before ++ after → after ≠ [] → 1 ≤ depth start before) ∧
    depth start tokens = 0

theorem closes_nil (start : Int) : Closes start [] ↔ start = 0 := by
  refine ⟨fun h => h.2, fun h => ⟨?_, h⟩⟩
  intro before after he hne
  exact absurd (List.append_eq_nil_iff.mp he.symm).2 hne

theorem closes_cons (start : Int) (token : Token) (tokens : List Token) :
    Closes start (token :: tokens) ↔ 1 ≤ start ∧ Closes (start + token.weight) tokens := by
  constructor
  · rintro ⟨hopen, hend⟩
    refine ⟨hopen [] _ rfl (by simp), ?_, hend⟩
    rintro before after rfl hne
    exact hopen (token :: before) after rfl hne
  · rintro ⟨hstart, hopen, hend⟩
    refine ⟨?_, hend⟩
    intro before after he hne
    cases before with
    | nil => exact hstart
    | cons x before =>
      rw [List.cons_append, List.cons.injEq] at he
      obtain ⟨rfl, rfl⟩ := he
      exact hopen before after rfl hne

/-- The first event that decides on a reading while `depth` groups are open. A fault of the text
always does; the end and an operator do while a group is open, and any token does afterwards. -/
def verdict (t : Priorities) : Nat → Reading → Except ParseError Unit
  | _, .fault e _ => .error e
  | 0, .finished _ => .ok ()
  | 0, .token _ _ _ => .error .unbalanced
  | _ + 1, .finished _ => .error .unbalanced
  | depth + 1, .token (.number _) _ rest => verdict t (depth + 1) rest
  | depth + 1, .token (.operator op) _ rest =>
    if t.priority? op = none then .error (.table (.missing op)) else verdict t (depth + 1) rest
  | depth + 1, .token .opening _ rest => verdict t (depth + 2) rest
  | depth + 1, .token .closing _ rest => verdict t depth rest

theorem verdict_of_missing {t : Priorities} {op : Operator} (h : t.priority? op = none)
    (k cursor : Nat) (rest : Reading) :
    (token (.operator op) cursor rest).verdict t (k + 1) = .error (.table (.missing op)) := by
  simp [verdict, h]

theorem verdict_token {t : Priorities} {token : Token}
    (h : ∀ op, token = .operator op → t.priority? op ≠ none) {k d : Nat}
    (hd : (d : Int) = k + 1 + token.weight) (cursor : Nat) (rest : Reading) :
    (Reading.token token cursor rest).verdict t (k + 1) = rest.verdict t d := by
  cases token with
  | number value =>
    obtain rfl : d = k + 1 := by simp only [Token.weight] at hd; omega
    rfl
  | operator op =>
    obtain rfl : d = k + 1 := by simp only [Token.weight] at hd; omega
    simp [verdict, h op rfl]
  | opening =>
    obtain rfl : d = k + 2 := by simp only [Token.weight] at hd; omega
    rfl
  | closing =>
    obtain rfl : d = k := by simp only [Token.weight] at hd; omega
    rfl

theorem verdict_ok_iff (t : Priorities) (start : Nat) (r : Reading) :
    r.verdict t start = .ok () ↔ r.error? = none ∧
      (∀ op, .operator op ∈ r.tokens → t.priority? op ≠ none) ∧ Closes start r.tokens := by
  induction r generalizing start with
  | fault => cases start <;> simp [verdict, error?]
  | finished => cases start <;> simp [verdict, error?, tokens, closes_nil]; omega
  | token token cursor rest ih =>
    cases start with
    | zero => simp [verdict, tokens, closes_cons]
    | succ k =>
      rcases token.priority_cases t with hp | ⟨op, rfl, hmissing⟩
      · obtain ⟨d, hd⟩ := token.exists_depth k
        rw [verdict_token hp hd, ih, hd]
        simp only [error?, tokens, closes_cons, List.mem_cons]
        refine and_congr_right fun _ => and_congr ⟨?_, ?_⟩ ?_
        · rintro hrest op (rfl | hop)
          · exact hp op rfl
          · exact hrest op hop
        · exact fun hall op hop => hall op (Or.inr hop)
        · rw [Int.natCast_succ]
          exact (and_iff_right (by omega)).symm
      · rw [verdict_of_missing hmissing]
        simp [tokens, hmissing]

theorem verdict_error {t : Priorities} {start : Nat} {r : Reading} {e : ParseError}
    (h : r.verdict t start = .error e) : r.error? = some e ∨ e = .unbalanced ∨
      ∃ op, e = .table (.missing op) ∧ t.priority? op = none := by
  induction r generalizing start with
  | fault =>
    refine Or.inl ?_
    cases start <;> simpa [verdict, error?] using h
  | finished =>
    cases start with
    | zero => cases h
    | succ k =>
      cases h
      exact Or.inr (Or.inl rfl)
  | token token cursor rest ih =>
    cases start with
    | zero =>
      cases h
      exact Or.inr (Or.inl rfl)
    | succ k =>
      rcases token.priority_cases t with hp | ⟨op, rfl, hmissing⟩
      · obtain ⟨d, hd⟩ := token.exists_depth k
        rw [verdict_token hp hd] at h
        exact ih h
      · rw [verdict_of_missing hmissing] at h
        cases h
        exact Or.inr (Or.inr ⟨op, rfl, hmissing⟩)

theorem verdict_table {t : Priorities} {start : Nat} {r : Reading} {e : TableError}
    (h : r.verdict t start = .error (.table e)) :
    r.error? = some (.table e) ∨ ∃ op, t.priority? op = none := by
  rcases verdict_error h with hfault | hunbalanced | ⟨op, _, hmissing⟩
  · exact Or.inl hfault
  · cases hunbalanced
  · exact Or.inr ⟨op, hmissing⟩

end Reading

namespace Conversion

variable {t : Priorities} {s : List Char}

/-- The stack decides as the number of its parentheses does. -/
theorem run_eq_verdict {c : Conversion} (h : Stacked t c.stack) (r : Reading) :
    (run t r c).1.map (fun _ => ()) = r.verdict t (c.stack.count .opening) := by
  induction r generalizing c with
  | fault e cursor => cases c.stack.count .opening <;> rfl
  | finished cursor =>
    cases hstack : c.stack with
    | nil => simp [run, hstack, Reading.verdict, Except.map]
    | cons x below =>
      have hpos := h.count_pos (by simp [hstack])
      obtain ⟨k, hk⟩ := Nat.exists_eq_succ_of_ne_zero hpos.ne'
      rw [← hstack, hk]
      simp [run, hstack, Reading.verdict, Except.map]
  | token token cursor rest ih =>
    by_cases hne : c.stack = []
    · simp [run, hne, Reading.verdict, Except.map]
    obtain ⟨k, hk⟩ := Nat.exists_eq_succ_of_ne_zero (h.count_pos hne).ne'
    rw [hk, run_of_turn hne]
    rcases token.priority_cases t with hp | ⟨op, rfl, hmissing⟩
    · obtain ⟨c', hstep, hstacked, hcount⟩ := step_of_stacked h hne hp
      rw [hk] at hcount
      rw [hstep, Reading.verdict_token hp (by simpa using hcount)]
      exact ih hstacked
    · rw [step_of_missing hmissing, Reading.verdict_of_missing hmissing]
      rfl

theorem cursor_of_run {r : Reading} {c : Conversion} {out : List Token}
    (h : (run t r c).1 = .ok out) : (run t r c).2 = r.stop := by
  induction r generalizing c with
  | fault => cases h
  | finished =>
    rw [run]
    split <;> rfl
  | token token cursor rest ih =>
    by_cases hne : c.stack = []
    · simp [run, hne] at h
    rw [run_of_turn hne] at h ⊢
    cases hstep : c.step t token with
    | error e => simp [hstep] at h
    | ok c' =>
      rw [hstep] at h
      exact ih h

theorem ofText_eq_verdict (t : Priorities) (s : List Char) :
    (Postfix.ofText t s).1.map (fun _ => ()) = (Reading.ofText s).verdict t 1 :=
  run_eq_verdict (.opening .empty) (.ofText s)

theorem ofText_error_iff (e : ParseError) :
    (Postfix.ofText t s).1 = .error e ↔ (Reading.ofText s).verdict t 1 = .error e := by
  rw [← ofText_eq_verdict]
  cases (Postfix.ofText t s).1 <;> simp [Except.map]

theorem ofText_ok_iff :
    (∃ out, (Postfix.ofText t s).1 = .ok out) ↔ (Reading.ofText s).error? = none ∧
      (∀ op, .operator op ∈ (Reading.ofText s).tokens → t.priority? op ≠ none) ∧
      Reading.Closes 1 (Reading.ofText s).tokens := by
  have hone := Reading.verdict_ok_iff t 1 (.ofText s)
  rw [← ofText_eq_verdict] at hone
  rw [← Int.natCast_one, ← hone]
  cases (Postfix.ofText t s).1 <;> simp [Except.map]

/-- A text is converted when it is read without a fault, its operators have priorities and its last
token closes the group of the whole; the offset reached is then the end. Otherwise the first event
in reading order gives the error. Neither the look-up of a pending operator nor the search for an
opening parenthesis fails on the way. -/
theorem balanced_texts_convert (t : Priorities) (s : List Char) :
    ((∃ out, (Postfix.ofText t s).1 = .ok out) ↔ (Reading.ofText s).error? = none ∧
      (∀ op, .operator op ∈ (Reading.ofText s).tokens → t.priority? op ≠ none) ∧
      Reading.Closes 1 (Reading.ofText s).tokens) ∧
    (∀ out, (Postfix.ofText t s).1 = .ok out → (Postfix.ofText t s).2 = Text.width s) ∧
    (∀ e, (Postfix.ofText t s).1 = .error e ↔ (Reading.ofText s).verdict t 1 = .error e) ∧
    (∀ r c, Reached t s r c → run t r c = Postfix.ofText t s ∧
      (∀ p, ∃ d, release t p c.stack c.written = .ok d) ∧
      (c.stack ≠ [] → ∃ d, closeGroup c.stack c.written = .ok d)) ∧
    ((∀ op, t.priority? op ≠ none) → ∀ e, (Postfix.ofText t s).1 ≠ .error (.table e)) := by
  refine ⟨ofText_ok_iff, ?_, ofText_error_iff, ?_, ?_⟩
  · intro out hout
    have herror := (ofText_ok_iff.mp ⟨out, hout⟩).1
    have hstop : (Reading.ofText s).stop = 0 + Text.width s := Reading.stop_ofReader herror
    rw [Postfix.ofText, cursor_of_run hout, hstop, Nat.zero_add]
  · intro r c hreached
    have hstacked := stacked_of_reached hreached
    exact ⟨run_of_reached hreached, fun p => ⟨_, release_eq hstacked p _⟩,
      fun hne => ⟨_, closeGroup_eq (hstacked.opening_mem hne) _⟩⟩
  · intro hall e he
    rcases Reading.verdict_table ((ofText_error_iff _).mp he) with hfault | ⟨op, hmissing⟩
    · have hlexical := Reading.category_of_error hfault
      cases hlexical
    · exact hall op hmissing

end Conversion

end PostfixCalculator
