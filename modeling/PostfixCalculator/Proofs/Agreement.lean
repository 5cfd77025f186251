import PostfixCalculator.Calculator.State
import PostfixCalculator.Proofs.Parsing

/-! Calculators that look alike.

A calculator keeps the tree of its last expression also when it is reset, and an evaluation of an
empty entry leaves it there. But nothing that it shows is ever made from a tree that an earlier
action left behind, so calculators that look alike go on to look alike, whatever trees they hold. -/
namespace PostfixCalculator

namespace Calculator

def run (c : Calculator) (actions : List Action) : Calculator := actions.foldl perform c

theorem run_append (c : Calculator) (before after : List Action) :
    c.run (before ++ after) = (c.run before).run after := List.foldl_append

theorem run_concat (c : Calculator) (actions : List Action) (a : Action) :
    c.run (actions ++ [a]) = (c.run actions).perform a := run_append c actions [a]

/-- The calculators show the same and have the same table. Their trees may differ. -/
structure Alike (c d : Calculator) : Prop where
  table : c.session.table = d.session.table
  entry : c.entry = d.entry
  result : c.result = d.result
  error : c.error = d.error
  steps : c.steps = d.steps
  wantsFocus : c.wantsFocus = d.wantsFocus

namespace Alike

variable {c d : Calculator}

theorem fail (h : Alike c d) (message : String) : Alike (c.fail message) (d.fail message) := by
  constructor
  · exact h.table
  · exact h.entry
  · exact h.result
  · rfl
  · rfl
  · rfl

theorem clearEntry (h : Alike c d) : Alike c.clearEntry d.clearEntry := by
  constructor
  · exact h.table
  · rfl
  · exact h.result
  · exact h.error
  · exact h.steps
  · rfl

theorem clearResults (h : Alike c d) : Alike c.clearResults d.clearResults := by
  constructor
  · exact h.table
  · exact h.entry
  · rfl
  · rfl
  · rfl
  · rfl

theorem of_reset (h : c.session.table = d.session.table) : Alike c.reset d.reset := by
  constructor
  · exact h
  · rfl
  · rfl
  · rfl
  · rfl
  · rfl

theorem evaluate (h : Alike c d) : Alike c.evaluate d.evaluate := by
  have hexpression : c.expression = d.expression := by
    rw [expression, expression, h.entry]
  have hparse : c.session.parse d.expression = d.session.parse d.expression :=
    Session.parse_congr h.table d.expression
  rw [Calculator.evaluate, Calculator.evaluate, hexpression, hparse]
  by_cases hempty : d.expression = ""
  · rw [if_pos hempty, if_pos hempty]
    exact h.fail _
  rw [if_neg hempty, if_neg hempty]
  rcases d.session.parse_cases d.expression with ⟨tree, hanswer⟩ | ⟨error, hanswer⟩
  · rw [hanswer]
    constructor
    · rfl
    · exact h.entry
    · rfl
    · rfl
    · rfl
    · rfl
  · rw [hanswer]
    have hsession : Alike { c with session := ⟨d.session.table, none⟩ }
        { d with session := ⟨d.session.table, none⟩ } :=
      { table := rfl, entry := h.entry, result := h.result, error := h.error, steps := h.steps,
        wantsFocus := h.wantsFocus }
    exact hsession.fail _

theorem perform (h : Alike c d) (a : Action) : Alike (c.perform a) (d.perform a) := by
  cases a with
  | setEntry entry => exact { h with entry := rfl }
  | setFocus wanted => exact { h with wantsFocus := rfl }
  | fail message => exact h.fail message
  | evaluate => exact h.evaluate
  | clearEntry => exact h.clearEntry
  | clearResults => exact h.clearResults
  | reset => exact of_reset h.table
  | copy => exact { h with table := h.table }

theorem run (h : Alike c d) (actions : List Action) : Alike (c.run actions) (d.run actions) := by
  induction actions generalizing c d with
  | nil => exact h
  | cons a actions ih => exact ih (h.perform a)

end Alike

theorem table_evaluate (c : Calculator) : c.evaluate.session.table = c.session.table := by
  rw [evaluate]
  by_cases hempty : c.expression = ""
  · rw [if_pos hempty]
    rfl
  · rw [if_neg hempty]
    rcases c.session.parse_cases c.expression with ⟨tree, hanswer⟩ | ⟨error, hanswer⟩
    · rw [hanswer]
    · rw [hanswer]
      rfl

theorem table_perform (c : Calculator) (a : Action) :
    (c.perform a).session.table = c.session.table := by
  cases a with
  | evaluate => exact c.table_evaluate
  | _ => rfl

theorem table_run (c : Calculator) (actions : List Action) :
    (c.run actions).session.table = c.session.table := by
  induction actions generalizing c with
  | nil => rfl
  | cons a actions ih => exact (ih (c.perform a)).trans (c.table_perform a)

/-- After a reset all goes on as it would from the start, whatever was done before. More generally,
what calculators show that look alike is the same after every action, whatever trees they hold. -/
theorem run_reset_alike (t : Priorities) :
    (∀ before after, Alike (((start t).run before).reset.run after) ((start t).run after)) ∧
      ∀ c d, Alike c d → ∀ actions, Alike (c.run actions) (d.run actions) := by
  refine ⟨?_, fun c d h => h.run⟩
  intro before after
  have htable : ((start t).run before).session.table = (start t).session.table :=
    table_run (start t) before
  have hreset : Alike ((start t).run before).reset (start t).reset := .of_reset htable
  exact hreset.run after

theorem run_reset_alike_tree :
    ((start .standard).run [.setEntry "1+2", .evaluate]).reset ≠ start .standard ∧
      ∀ actions, Alike (((start .standard).run [.setEntry "1+2", .evaluate]).reset.run actions)
        ((start .standard).run actions) := by
  have hdiffer : ((start .standard).run [.setEntry "1+2", .evaluate]).reset ≠ start .standard := by
    decide +kernel
  have halike : Alike ((start .standard).run [.setEntry "1+2", .evaluate]).reset
      (start .standard) := .of_reset (d := start .standard) (table_run (start .standard) _)
  exact ⟨hdiffer, (run_reset_alike .standard).2 _ _ halike⟩

end Calculator

end PostfixCalculator
