import PostfixCalculator.Proofs.Agreement
import PostfixCalculator.Proofs.Grouping
import PostfixCalculator.Proofs.Headless
import PostfixCalculator.Proofs.Numerals

/-! What a calculator shows at one time.

The steps on display are those of the tree that the session holds, since all that removes the one
removes the other as well. The result can be older: it is the one of the last evaluation that
succeeded, and failures after that one leave it. None of the texts of an evaluation is empty, so
that an empty text means that there is nothing to show. -/
namespace PostfixCalculator

theorem valueText_ne_empty (x : Float) : valueText x ≠ "" := by
  rw [valueText]
  split
  · split <;> decide
  · simp [Layout.plain_number_ne_nil]

namespace Tree

theorem text_ne_empty (tree : Tree) : Postfix.text tree.inPostfix ≠ "" := by
  cases tree with
  | leaf x =>
    have htext : Postfix.text [.number x] = Token.text (.number x) := String.intercalate_singleton
    rw [inPostfix, htext, Token.text]
    simp [Layout.plain_number_ne_nil]
  | node op l r =>
    rw [text_node]
    simp

theorem drawn_ne_nil (level : Nat) (tree : Tree) : tree.drawn level ≠ [] := by
  have hline : ∀ t, drawLine level t ≠ [] := by
    intro t
    simp [drawLine]
  cases tree with
  | leaf x => exact hline _
  | node op l r => simp [drawn, hline]

theorem drawing_ne_empty (tree : Tree) : tree.drawing ≠ "" := by
  simp [drawing, sketch_eq, Sketch.text, drawn_ne_nil]

end Tree

namespace ImplicitZero

theorem insert_ne_nil {s : List Char} (h : s ≠ []) : insert s ≠ [] := by
  obtain ⟨c, s, rfl⟩ := List.exists_cons_of_ne_nil h
  rw [insert_eq, insertAfter]
  split <;> simp

end ImplicitZero

theorem ParseError.message_ne_empty (e : ParseError) : e.message ≠ "" := by
  have hleft {s t : String} (h : s ≠ "") : s ++ t ≠ "" := by simp [h]
  have hright {s t : String} (h : t ≠ "") : s ++ t ≠ "" := by simp [h]
  cases e with
  | table error => exact hleft (by decide)
  | unexpected found position => exact hright (by decide)
  | badNumber text => exact hleft (by decide)
  | unbalanced => decide
  | missingOperand op => exact hright (by decide)
  | leftover count => exact hright (by decide)

def Action.clears : Action → Bool
  | .clearResults | .reset => true
  | _ => false

namespace Calculator

theorem drawing_ne_empty (tree : Tree) : drawing tree ≠ "" := by
  rw [drawing]
  split
  · simp
  · exact tree.drawing_ne_empty

/-- The tree of the entry, if evaluating it succeeds. -/
def outcome? (c : Calculator) : Option Tree :=
  if c.expression = "" then none
  else
    match c.session.parse c.expression with
    | (.ok _, session) => session.tree
    | (.error _, _) => none

theorem evaluate_of_none {c : Calculator} (h : c.outcome? = none) : ∃ tree message,
    message ≠ "" ∧ c.evaluate = { c with session := ⟨c.session.table, tree⟩ }.fail message := by
  rw [outcome?] at h
  rw [evaluate]
  by_cases hempty : c.expression = ""
  · rw [if_pos hempty]
    exact ⟨c.session.tree, _, by decide, rfl⟩
  rw [if_neg hempty] at h ⊢
  rcases c.session.parse_cases c.expression with ⟨tree, hanswer⟩ | ⟨error, hanswer⟩
  · rw [hanswer] at h
    cases h
  · rw [hanswer]
    exact ⟨none, error.message, error.message_ne_empty, rfl⟩

theorem parse_of_outcome {c : Calculator} {tree : Tree} (h : c.outcome? = some tree) :
    c.expression ≠ "" ∧ c.session.parse c.expression =
      (.ok (Postfix.text tree.inPostfix), ⟨c.session.table, some tree⟩) := by
  rw [outcome?] at h
  by_cases hempty : c.expression = ""
  · rw [if_pos hempty] at h
    cases h
  rw [if_neg hempty] at h
  refine ⟨hempty, ?_⟩
  rcases c.session.parse_cases c.expression with ⟨u, hanswer⟩ | ⟨error, hanswer⟩
  · rw [hanswer] at h
    cases h
    exact hanswer
  · rw [hanswer] at h
    cases h

theorem outcome_of_parse {c : Calculator} {text : String} {tree : Tree}
    (h : c.session.parse c.expression = (.ok text, ⟨c.session.table, some tree⟩)) :
    c.outcome? = some tree := by
  have hne : c.expression ≠ "" := by
    intro hempty
    have hparse := c.session.parse_empty
    rw [← hempty, h] at hparse
    cases hparse
  rw [outcome?, if_neg hne, h]

theorem evaluate_of_some {c : Calculator} {tree : Tree} (h : c.outcome? = some tree) :
    c.evaluate =
      { c with
        session := ⟨c.session.table, some tree⟩
        steps := ⟨String.ofList (ImplicitZero.insert c.expression.toList),
          Postfix.text tree.inPostfix, drawing tree⟩
        result := valueText (tree.evaluate .double)
        error := ""
        wantsFocus := true } := by
  obtain ⟨hexpression, hanswer⟩ := parse_of_outcome h
  rw [evaluate, if_neg hexpression, hanswer]
  rfl

/-- The steps lead from an expression to the tree that the session holds, and its value is the
result. -/
structure Explains (t : Priorities) (session : Session) (steps : Steps) (result : String)
    (tree : Tree) : Prop where
  held : session = ⟨t, some tree⟩
  postfixText : steps.postfixText = Postfix.text tree.postfixOrder
  drawn : tree.depth ≤ 64 → steps.drawing = tree.drawing
  undrawn : 64 < tree.depth → steps.drawing =
    "(arbre de profondeur " ++ toString tree.depth ++ " : trop profond pour être dessiné)"
  value : result = valueText (tree.evaluate .double)
  parsed : (Session.start t).parse steps.normalised = (.ok steps.postfixText, ⟨t, some tree⟩)

/-- All steps are on display or none of them is; none is beside an error, and those on display are
explained by the tree of the session. -/
structure Consistent (t : Priorities) (c : Calculator) : Prop where
  table : c.session.table = t
  together : (c.steps.normalised = "" ∧ c.steps.postfixText = "" ∧ c.steps.drawing = "") ∨
    (c.steps.normalised ≠ "" ∧ c.steps.postfixText ≠ "" ∧ c.steps.drawing ≠ "")
  failed : c.error ≠ "" → c.steps = {}
  explained : c.steps ≠ {} → c.error = "" ∧
    ∃ tree, Explains t c.session c.steps c.result tree

namespace Consistent

variable {t : Priorities} {c : Calculator}

theorem of_no_steps (htable : c.session.table = t) (h : c.steps = {}) : Consistent t c := by
  constructor
  · exact htable
  · rw [h]
    exact Or.inl ⟨rfl, rfl, rfl⟩
  · intro _
    exact h
  · intro hne
    exact absurd h hne

theorem evaluate (h : Consistent t c) : Consistent t c.evaluate := by
  cases houtcome : c.outcome? with
  | none =>
    obtain ⟨tree, message, -, hfail⟩ := evaluate_of_none houtcome
    rw [hfail]
    exact of_no_steps h.table rfl
  | some tree =>
    obtain ⟨hexpression, hparse⟩ := parse_of_outcome houtcome
    rw [evaluate_of_some houtcome]
    constructor
    · exact h.table
    · refine Or.inr ⟨?_, tree.text_ne_empty, drawing_ne_empty tree⟩
      simp [ImplicitZero.insert_ne_nil, hexpression]
    · intro herror
      exact absurd rfl herror
    · intro _
      refine ⟨rfl, tree, ?_⟩
      constructor
      · rw [h.table]
      · rw [tree.postfixOrder_eq]
      · intro hdepth
        exact if_neg (Nat.not_lt.mpr hdepth)
      · intro hdepth
        exact if_pos hdepth
      · rfl
      · rw [Session.parse_insert, ← h.table]
        exact (Session.parse_congr rfl c.expression).trans hparse

theorem perform (h : Consistent t c) (a : Action) : Consistent t (c.perform a) := by
  have hcopy : c.copy = c := by rw [copy, Session.copy_eq]
  cases a with
  | setEntry entry => exact { h with table := h.table }
  | setFocus wanted => exact { h with table := h.table }
  | clearEntry => exact { h with table := h.table }
  | fail message => exact of_no_steps h.table rfl
  | clearResults => exact of_no_steps h.table rfl
  | reset => exact of_no_steps h.table rfl
  | evaluate => exact h.evaluate
  | copy =>
    rw [Calculator.perform, hcopy]
    exact h

theorem run (h : Consistent t c) (actions : List Action) : Consistent t (c.run actions) := by
  induction actions generalizing c with
  | nil => exact h
  | cons a actions ih => exact ih (h.perform a)

end Consistent

theorem result_evaluate_of_none {c : Calculator} (h : c.outcome? = none) :
    c.evaluate.result = c.result := by
  obtain ⟨tree, message, -, hfail⟩ := evaluate_of_none h
  rw [hfail]
  rfl

theorem result_evaluate_of_some {c : Calculator} {tree : Tree} (h : c.outcome? = some tree) :
    c.evaluate.result = valueText (tree.evaluate .double) := by
  rw [evaluate_of_some h]

theorem entry_evaluate (c : Calculator) : c.evaluate.entry = c.entry := by
  cases houtcome : c.outcome? with
  | none =>
    obtain ⟨tree, message, -, hfail⟩ := evaluate_of_none houtcome
    rw [hfail]
    rfl
  | some tree => rw [evaluate_of_some houtcome]

theorem error_evaluate_iff {c : Calculator} :
    c.evaluate.error = "" ↔ ∃ tree, c.outcome? = some tree := by
  cases houtcome : c.outcome? with
  | none =>
    obtain ⟨tree, message, hmessage, hfail⟩ := evaluate_of_none houtcome
    rw [hfail]
    exact iff_of_false hmessage (by simp)
  | some tree =>
    rw [evaluate_of_some houtcome]
    exact iff_of_true rfl ⟨tree, rfl⟩

variable {t : Priorities} {actions : List Action} {a : Action} {tree : Tree}

/-- After the actions `before` came an evaluation that succeeded, and no results were cleared from
then on. -/
def Succeeded (t : Priorities) (actions before : List Action) (tree : Tree) : Prop :=
  ∃ after, actions = before ++ .evaluate :: after ∧
    ((start t).run before).outcome? = some tree ∧ ∀ a ∈ after, a.clears = false

namespace Succeeded

variable {before : List Action}

theorem length_lt (h : Succeeded t actions before tree) : before.length < actions.length := by
  obtain ⟨after, rfl, -, -⟩ := h
  rw [List.length_append, List.length_cons]
  omega

theorem concat_iff : Succeeded t (actions ++ [a]) before tree ↔
    (a = .evaluate ∧ before = actions ∧ ((start t).run actions).outcome? = some tree) ∨
      (a.clears = false ∧ Succeeded t actions before tree) := by
  constructor
  · rintro ⟨after, hactions, houtcome, hkept⟩
    rcases List.eq_nil_or_concat after with rfl | ⟨after, b, rfl⟩
    · obtain ⟨rfl, hlast⟩ := List.append_inj' hactions rfl
      exact Or.inl ⟨List.singleton_inj.mp hlast, rfl, houtcome⟩
    · rw [List.concat_eq_append] at hactions hkept
      rw [← List.cons_append, ← List.append_assoc] at hactions
      obtain ⟨rfl, hlast⟩ := List.append_inj' hactions rfl
      obtain rfl := List.singleton_inj.mp hlast
      refine Or.inr ⟨hkept a (by simp), after, rfl, houtcome, ?_⟩
      intro b hb
      exact hkept b (List.mem_append_left _ hb)
  · rintro (⟨rfl, rfl, houtcome⟩ | ⟨hclears, after, rfl, houtcome, hkept⟩)
    · exact ⟨[], rfl, houtcome, by simp⟩
    · refine ⟨after ++ [a], by simp, houtcome, ?_⟩
      intro b hb
      rcases List.mem_append.mp hb with hb | hb
      · exact hkept b hb
      · obtain rfl := List.mem_singleton.mp hb
        exact hclears

theorem concat_iff_of_kept (hclears : a.clears = false)
    (hfails : a = .evaluate → ((start t).run actions).outcome? = none) :
    Succeeded t (actions ++ [a]) before tree ↔ Succeeded t actions before tree := by
  rw [concat_iff]
  constructor
  · rintro (⟨ha, -, houtcome⟩ | ⟨-, h⟩)
    · rw [hfails ha] at houtcome
      cases houtcome
    · exact h
  · intro h
    exact Or.inr ⟨hclears, h⟩

end Succeeded

/-- There is no result if nothing succeeded, and otherwise it is that of what did so last. -/
structure ShowsLast (t : Priorities) (actions : List Action) (result : String) : Prop where
  nothing : result = "" ↔ ¬∃ before tree, Succeeded t actions before tree
  last : ∀ before tree, Succeeded t actions before tree →
    (∀ earlier tree, Succeeded t actions earlier tree → earlier.length ≤ before.length) →
      result = valueText (tree.evaluate .double)

namespace ShowsLast

variable {result : String}

theorem of_nothing (h : ¬∃ before tree, Succeeded t actions before tree) :
    ShowsLast t actions "" := by
  constructor
  · exact iff_of_true rfl h
  · intro before tree hsucceeded
    exact absurd ⟨before, tree, hsucceeded⟩ h

theorem concat_cleared (h : a.clears = true) : ShowsLast t (actions ++ [a]) "" := by
  apply of_nothing
  rintro ⟨before, tree, hsucceeded⟩
  rcases Succeeded.concat_iff.mp hsucceeded with ⟨rfl, -, -⟩ | ⟨hkept, -⟩
  · cases h
  · rw [h] at hkept
    cases hkept

theorem concat_evaluated (h : ((start t).run actions).outcome? = some tree) :
    ShowsLast t (actions ++ [.evaluate]) (valueText (tree.evaluate .double)) := by
  have hnow : Succeeded t (actions ++ [.evaluate]) actions tree :=
    Succeeded.concat_iff.mpr (Or.inl ⟨rfl, rfl, h⟩)
  constructor
  · exact iff_of_false (valueText_ne_empty _) (not_not_intro ⟨actions, tree, hnow⟩)
  · intro before u hsucceeded hlast
    rcases Succeeded.concat_iff.mp hsucceeded with ⟨-, -, hsame⟩ | ⟨-, hbefore⟩
    · rw [h] at hsame
      cases hsame
      rfl
    · have hle := hlast actions tree hnow
      have hlt := hbefore.length_lt
      omega

theorem concat_kept (hclears : a.clears = false)
    (hfails : a = .evaluate → ((start t).run actions).outcome? = none)
    (h : ShowsLast t actions result) : ShowsLast t (actions ++ [a]) result := by
  constructor
  · simp only [Succeeded.concat_iff_of_kept hclears hfails]
    exact h.nothing
  · simp only [Succeeded.concat_iff_of_kept hclears hfails]
    exact h.last

theorem perform (h : ShowsLast t actions ((start t).run actions).result) (a : Action) :
    ShowsLast t (actions ++ [a]) (((start t).run actions).perform a).result := by
  cases a with
  | evaluate =>
    rw [Calculator.perform]
    cases houtcome : ((start t).run actions).outcome? with
    | none =>
      rw [result_evaluate_of_none houtcome]
      exact h.concat_kept rfl (fun _ => houtcome)
    | some tree =>
      rw [result_evaluate_of_some houtcome]
      exact concat_evaluated houtcome
  | clearResults => exact concat_cleared rfl
  | reset => exact concat_cleared rfl
  | _ =>
    apply h.concat_kept rfl
    intro ha
    cases ha

theorem run (t : Priorities) (actions : List Action) :
    ShowsLast t actions ((start t).run actions).result := by
  induction actions using List.reverseRecOn with
  | nil =>
    apply of_nothing
    rintro ⟨before, tree, hsucceeded⟩
    exact Nat.not_lt_zero _ hsucceeded.length_lt
  | append_singleton actions a ih =>
    rw [run_concat]
    exact ih.perform a

end ShowsLast

/-- What is shown at one time fits together, whatever was done since the start. -/
theorem run_consistent (t : Priorities) (actions : List Action) :
    Consistent t ((start t).run actions) ∧ ShowsLast t actions ((start t).run actions).result := by
  constructor
  · have hstart : Consistent t (start t) := .of_no_steps rfl rfl
    exact hstart.run actions
  · exact ShowsLast.run t actions

example : ((start .standard).run [.setEntry "1+2", .evaluate, .setEntry "1+", .evaluate]).result =
    "3" := by
  decide +kernel

end Calculator

end PostfixCalculator
