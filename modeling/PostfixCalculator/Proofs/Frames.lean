import PostfixCalculator.Proofs.Listing

/-! What the events at the display come to, with the frames that are drawn after them.

A frame without an event honours a request for the focus and changes nothing else, so between events
no request is left. Enter alone then finds the field without the focus, which it has just given up,
and evaluates nothing. -/
namespace PostfixCalculator

namespace Key

/-- What is kept of an entry when the spaces at its end are cut off. -/
structure Stripped (entry kept : List Char) : Prop where
  spaces : ∃ n, entry = kept ++ List.replicate n ' '
  last : kept.getLast? ≠ some ' '

theorem stripped_trimSpaces (entry : List Char) : Stripped entry (trimSpaces entry) where
  spaces := by
    induction entry using List.reverseRecOn with
    | nil => exact ⟨0, rfl⟩
    | append_singleton s c ih =>
      by_cases hc : c = ' '
      · subst hc
        obtain ⟨n, hn⟩ := ih
        refine ⟨n + 1, ?_⟩
        rw [trimSpaces_concat_space, List.replicate_succ', ← List.append_assoc, ← hn]
      · rw [trimSpaces_concat hc]
        exact ⟨0, by simp⟩
  last := getLast?_trimSpaces entry

theorem trimSpaces_trimSpaces (entry : List Char) :
    trimSpaces (trimSpaces entry) = trimSpaces entry := List.rdropWhile_idempotent _ _

theorem delete_concat_space (entry : List Char) : delete (entry ++ [' ']) = delete entry := by
  rw [delete, trimSpaces_concat_space, delete]

theorem delete_concat {c : Char} (hc : c ≠ ' ') (entry : List Char) :
    delete (entry ++ [c]) = trimSpaces entry := by
  rw [delete, trimSpaces_concat hc, List.dropLast_concat]

theorem delete_press (k : Key) (entry : List Char) : delete (k.press entry) = trimSpaces entry := by
  cases k with
  | digit n => exact delete_concat (char_ne_space (.digit n)) entry
  | point => exact delete_concat (char_ne_space .point) entry
  | comma => exact delete_concat (char_ne_space .comma) entry
  | closing =>
    rw [press, delete_concat (by decide), trimSpaces_trimSpaces]
  | opening =>
    rw [press]
    split
    · rw [List.append_cons, delete_concat (by decide), trimSpaces_concat_space]
    · exact delete_concat (char_ne_space .opening) entry
  | operator op =>
    have hop : op.symbol ≠ ' ' := char_ne_space (.operator op)
    simp only [press]
    rw [List.append_cons, delete_concat_space, delete_concat hop]
    split
    · rw [List.append_nil, trimSpaces_trimSpaces]
    · rw [trimSpaces_concat_space, trimSpaces_trimSpaces]

end Key

namespace Calculator

theorem wantsFocus_evaluate (c : Calculator) : c.evaluate.wantsFocus = true := by
  cases houtcome : c.outcome? with
  | none =>
    obtain ⟨tree, message, -, hfail⟩ := evaluate_of_none houtcome
    rw [hfail]
    rfl
  | some tree => rw [evaluate_of_some houtcome]

theorem wantsFocus_press (c : Calculator) (b : Button) : (c.press b).wantsFocus = true := by
  cases b with
  | evaluate => exact c.wantsFocus_evaluate
  | _ => rfl

theorem evaluate_of_wantsFocus (c : Calculator) (wanted : Bool) :
    { c with wantsFocus := wanted }.evaluate = c.evaluate := by
  have hexpression : { c with wantsFocus := wanted }.expression = c.expression := rfl
  rw [evaluate, evaluate, hexpression]
  by_cases hempty : c.expression = ""
  · rw [if_pos hempty, if_pos hempty]
    rfl
  rw [if_neg hempty, if_neg hempty]
  rcases c.session.parse_cases c.expression with ⟨tree, hanswer⟩ | ⟨error, hanswer⟩
  · rw [hanswer]
  · rw [hanswer]
    rfl

theorem Explains.drawing_eq {t : Priorities} {session : Session} {steps : Steps} {result : String}
    {tree : Tree} (h : Explains t session steps result tree) : steps.drawing = drawing tree := by
  rw [drawing]
  split
  next hdeep => exact h.undrawn hdeep
  next hdrawn => exact h.drawn (Nat.le_of_not_lt hdrawn)

namespace Consistent

variable {t : Priorities} {c : Calculator}

theorem edit (h : Consistent t c) (entry : String) (wantsFocus : Bool) :
    Consistent t { c with entry, wantsFocus } := { h with table := h.table }

theorem press (h : Consistent t c) (b : Button) : Consistent t (c.press b) := by
  cases b with
  | key k => exact h.edit _ _
  | delete => exact h.edit _ _
  | clearEntry => exact h.edit _ _
  | clearResults => exact of_no_steps h.table rfl
  | reset => exact of_no_steps h.table rfl
  | evaluate => exact h.evaluate

theorem steps_eq_nothing (h : Consistent t c) (hnone : c.steps.normalised = "") : c.steps = {} := by
  by_contra hsteps
  rcases h.together with ⟨-, htext, hdrawing⟩ | ⟨hne, -, -⟩
  · have hparts : c.steps = ⟨c.steps.normalised, c.steps.postfixText, c.steps.drawing⟩ := rfl
    rw [hnone, htext, hdrawing] at hparts
    exact hsteps hparts
  · exact hne hnone

/-- The normalised form on display determines all that is on display with it, so if it is that of
the entry, evaluating the entry changes nothing but the error. -/
theorem evaluate_eq (h : Consistent t c)
    (hform : c.steps.normalised = c.evaluate.steps.normalised) :
    c.result = c.evaluate.result ∧ c.steps = c.evaluate.steps := by
  cases houtcome : c.outcome? with
  | none =>
    obtain ⟨tree, message, -, hfail⟩ := evaluate_of_none houtcome
    rw [hfail] at hform ⊢
    exact ⟨rfl, h.steps_eq_nothing hform⟩
  | some tree =>
    obtain ⟨hexpression, hparse⟩ := parse_of_outcome houtcome
    rw [evaluate_of_some houtcome] at hform ⊢
    have hsteps : c.steps ≠ {} := by
      intro hsteps
      rw [hsteps] at hform
      have hentry : c.expression.toList ≠ [] := by simpa using hexpression
      exact ImplicitZero.insert_ne_nil hentry (by simpa using hform.symm)
    obtain ⟨-, tree', hexplains⟩ := h.explained hsteps
    have hparsed := hexplains.parsed
    rw [hform, Session.parse_insert, Session.parse_congr h.table.symm, hparse] at hparsed
    obtain ⟨htext, hsession⟩ := Prod.mk.inj hparsed
    cases hsession
    refine ⟨hexplains.value, ?_⟩
    calc c.steps
      _ = ⟨c.steps.normalised, c.steps.postfixText, c.steps.drawing⟩ := rfl
      _ = _ := by rw [hform, ← Except.ok.inj htext, hexplains.drawing_eq]

end Consistent

end Calculator

namespace Panel

variable {t : Priorities} {p : Panel}

theorem frame_false (p : Panel) : p.frame false =
    { p with
      focused := p.focused || p.calculator.wantsFocus
      calculator := { p.calculator with wantsFocus := false } } := by
  simp [frame]

theorem run_concat (p : Panel) (events : List Event) (e : Event) :
    p.run (events ++ [e]) = (p.run events).next e := List.foldl_concat _ _ _ _

theorem wantsFocus_next (p : Panel) (e : Event) : (p.next e).calculator.wantsFocus = false := by
  rw [next, frame_false]

theorem wantsFocus_run (t : Priorities) (events : List Event) :
    ((start t).run events).calculator.wantsFocus = false := by
  induction events using List.reverseRecOn with
  | nil => rfl
  | append_singleton events e ih => rw [run_concat, wantsFocus_next]

theorem next_press (p : Panel) (b : Button) : p.next (.press b) =
    { p with
      focused := true
      calculator := { p.calculator.press b with wantsFocus := false } } := by
  rw [next, frame_false]
  simp [respond, Calculator.wantsFocus_press]

theorem next_enter (h : p.calculator.wantsFocus = false) :
    p.next .enter = { p with focused := false } := by
  have hsame : { p.calculator with wantsFocus := false } = p.calculator := by rw [← h]
  simp [next, respond, frame, h, hsame]

theorem next_enterOnRequest (p : Panel) : p.next .enterOnRequest = p.next (.press .evaluate) := by
  rw [next_press, next, frame_false, respond, frame]
  simp [Calculator.evaluate_of_wantsFocus, Calculator.press, Calculator.wantsFocus_evaluate]

theorem consistent_frame (h : Calculator.Consistent t p.calculator) (enter : Bool) :
    Calculator.Consistent t (p.frame enter).calculator := by
  have hquiet : Calculator.Consistent t { p.calculator with wantsFocus := false } := h.edit _ _
  unfold frame
  dsimp only
  split
  · exact hquiet.evaluate
  · exact hquiet

theorem consistent_next (h : Calculator.Consistent t p.calculator) (e : Event) :
    Calculator.Consistent t (p.next e).calculator := by
  apply consistent_frame
  cases e with
  | press b => exact h.press b
  | toggle f => cases f <;> exact h
  | edit entry => exact h.edit entry _
  | escape => exact h.edit _ _
  | enter => exact consistent_frame h true
  | enterOnRequest =>
    have hasked : Calculator.Consistent t { p.calculator with wantsFocus := true } := h.edit _ _
    exact consistent_frame (p := { p with calculator.wantsFocus := true }) hasked true

theorem consistent_run (t : Priorities) (events : List Event) :
    Calculator.Consistent t ((start t).run events).calculator := by
  induction events using List.reverseRecOn with
  | nil => exact .of_no_steps rfl rfl
  | append_singleton events e ih =>
    rw [run_concat]
    exact consistent_next ih e

/-- What is on display, the entry included, is the same. -/
structure Agree (c d : Calculator) : Prop where
  entry : c.entry = d.entry
  result : c.result = d.result
  error : c.error = d.error
  steps : c.steps = d.steps

theorem agree_wantsFocus_iff {c d : Calculator} {wantsFocus : Bool} :
    Agree c { d with wantsFocus } ↔ Agree c d :=
  ⟨fun h => ⟨h.entry, h.result, h.error, h.steps⟩, fun h => ⟨h.entry, h.result, h.error, h.steps⟩⟩

theorem agree_enter_iff (h : Calculator.Consistent t p.calculator)
    (hquiet : p.calculator.wantsFocus = false) :
    Agree (p.next .enter).calculator (p.next (.press .evaluate)).calculator ↔
      p.calculator.error = p.calculator.evaluate.error ∧
        p.calculator.steps.normalised = p.calculator.evaluate.steps.normalised := by
  rw [next_enter hquiet, next_press, agree_wantsFocus_iff, Calculator.press]
  constructor
  · intro hagree
    exact ⟨hagree.error, congrArg Steps.normalised hagree.steps⟩
  · rintro ⟨herror, hform⟩
    obtain ⟨hresult, hsteps⟩ := h.evaluate_eq hform
    exact ⟨p.calculator.entry_evaluate.symm, hresult, herror, hsteps⟩

/-- Whatever has been done before, Enter takes the focus away and evaluates nothing. Only in the
frame in which the focus is asked for it does what a click on the equals sign does. So the two agree
where there is nothing to evaluate, since the error and the normalised form on display are those of
the entry already. -/
theorem enter_agrees_iff (t : Priorities) (events : List Event) :
    let p := (start t).run events
    p.next .enter = { p with focused := false } ∧
      p.next .enterOnRequest = p.next (.press .evaluate) ∧
      (Agree (p.next .enter).calculator (p.next (.press .evaluate)).calculator ↔
        p.calculator.error = p.calculator.evaluate.error ∧
          p.calculator.steps.normalised = p.calculator.evaluate.steps.normalised) := by
  intro p
  have hquiet : p.calculator.wantsFocus = false := wantsFocus_run t events
  have hconsistent : Calculator.Consistent t p.calculator := consistent_run t events
  exact ⟨next_enter hquiet, next_enterOnRequest p, agree_enter_iff hconsistent hquiet⟩

theorem enter_evaluates_nothing :
    let p := (start .standard).run [.edit "1+2"]
    p.focused ∧ (p.next .enter).calculator.result = "" ∧
      (p.next (.press .evaluate)).calculator.result = "3" := by
  decide +kernel

/-- A character that a key has written is deleted with the spaces around it. -/
theorem press_delete (p : Panel) (k : Key) : ∃ kept, Key.Stripped p.calculator.entry.toList kept ∧
    p.run [.press (.key k), .press .delete] =
      { p with
        focused := true
        calculator := { p.calculator with entry := String.ofList kept, wantsFocus := false } } := by
  refine ⟨Key.trimSpaces p.calculator.entry.toList, Key.stripped_trimSpaces _, ?_⟩
  rw [run, List.foldl_cons, List.foldl_cons, List.foldl_nil, next_press, next_press]
  simp [Calculator.press, Key.delete_press]

example : ((start .standard).run [.edit "12 \t ", .press (.key .opening), .press .delete]) =
    { (start .standard).run [.edit "12 \t "] with calculator.entry := "12 \t" } := by
  decide +kernel

end Panel

end PostfixCalculator
