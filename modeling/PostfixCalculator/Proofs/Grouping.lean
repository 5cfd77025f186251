import PostfixCalculator.Proofs.Insertion
import PostfixCalculator.Proofs.Precedence

/-! Parentheses isolate what stands between them.

A conversion never takes more off its stack than it has put there, so it goes on in the same way
above any other stack. The zeros of a group are those of the text by itself, since an operator at
its beginning has no left operand in either. -/
namespace PostfixCalculator

namespace Conversion

variable {t : Priorities} {stack base : List Pending} {written : List Token} {c c' : Conversion}

/-- A conversion above another stack, after what is written already. -/
def above (base : List Pending) (written : List Token) (c : Conversion) : Conversion :=
  ⟨c.stack ++ base, c.written ++ written⟩

theorem release_above (h : .opening ∈ stack) (p : UInt32) (out : List Token) :
    release t p (stack ++ base) (out ++ written) =
      (release t p stack out).map (above base written) := by
  induction stack generalizing out with
  | nil => cases h
  | cons x stack ih =>
    cases x with
    | opening => rfl
    | operator op =>
      cases hp : t.priority? op with
      | none =>
        rw [List.cons_append, release, release, Priorities.priority_missing_iff.mpr hp]
        rfl
      | some q =>
        rw [List.cons_append, release_operator hp, release_operator hp]
        split
        · exact ih (by simpa using h) (.operator op :: out)
        · rfl

theorem closeGroup_above (h : .opening ∈ stack) (out : List Token) :
    closeGroup (stack ++ base) (out ++ written) =
      (closeGroup stack out).map (above base written) := by
  induction stack generalizing out with
  | nil => cases h
  | cons x stack ih =>
    cases x with
    | opening => rfl
    | operator op => exact ih (by simpa using h) (.operator op :: out)

theorem pushOperator_above (h : .opening ∈ c.stack) (op : Operator) :
    (c.above base written).pushOperator t op =
      (c.pushOperator t op).map (above base written) := by
  cases hp : t.priority? op with
  | none =>
    rw [pushOperator, pushOperator, Priorities.priority_missing_iff.mpr hp]
    rfl
  | some p =>
    rw [pushOperator_of_some hp, pushOperator_of_some hp, above, release_above h]
    cases release t p c.stack c.written <;> rfl

theorem advance_above (h : .opening ∈ c.stack) (token : Token) :
    advance t (c.above base written) token = (advance t c token).map (above base written) := by
  have hne : c.stack ≠ [] := List.ne_nil_of_mem h
  have hne' : (c.above base written).stack ≠ [] := List.append_ne_nil_of_left_ne_nil hne base
  rw [advance, advance, if_neg hne, if_neg hne']
  cases token with
  | number value => rfl
  | opening => rfl
  | closing => exact closeGroup_above h c.written
  | operator op =>
    rw [step, step, pushOperator_above h]
    cases c.pushOperator t op <;> rfl

/-- What is below the first parenthesis has no part in a conversion. -/
theorem foldlM_above {tokens : List Token} (h : Stacked t c.stack)
    (hrun : tokens.foldlM (advance t) c = .ok c') (base : List Pending) (written : List Token) :
    tokens.foldlM (advance t) (c.above base written) = .ok (c'.above base written) := by
  induction tokens generalizing c with
  | nil =>
    cases hrun
    rfl
  | cons token tokens ih =>
    obtain ⟨d, hfirst, hrest⟩ := foldlM_cons_ok_iff.mp hrun
    -- A stack that is not empty holds a parenthesis, and no step looks below that.
    have hne : c.stack ≠ [] := by
      intro hnil
      simp [advance, hnil] at hfirst
    have hstep : c.step t token = .ok d := by rwa [advance, if_neg hne] at hfirst
    refine foldlM_cons_ok_iff.mpr ⟨d.above base written, ?_, ih (stacked_of_step h hne hstep) hrest⟩
    rw [advance_above (h.opening_mem hne), hfirst]
    rfl

theorem Encloses.foldlM {tokens out : List Token} (h : Encloses t tokens out)
    (hne : c.stack ≠ []) :
    (Token.opening :: tokens ++ [Token.closing]).foldlM (advance t) c =
      .ok { c with written := out.reverse ++ c.written } := by
  have habove := foldlM_above (.opening .empty) h c.stack c.written
  rw [List.cons_append, List.foldlM_cons, advance_opening hne]
  exact habove

theorem Encloses.group {tokens out : List Token} (h : Encloses t tokens out) :
    Encloses t (.opening :: tokens ++ [.closing]) out := by
  refine foldlM_append_ok_iff.mpr ⟨_, h.foldlM (by simp [start]), ?_⟩
  refine foldlM_cons_ok_iff.mpr ⟨⟨[], out.reverse⟩, ?_, rfl⟩
  simp [start, advance, step, closeGroup]

theorem Encloses.operator {ts us : List Token} {l r : Tree} (hl : Encloses t ts l.inPostfix)
    (hr : Encloses t us r.inPostfix) {op : Operator} (hop : t.priority? op ≠ none) :
    Encloses t ((.opening :: ts ++ [.closing]) ++ .operator op :: (.opening :: us ++ [.closing]))
      (Tree.node op l r).inPostfix := by
  have hleft : (Token.opening :: ts ++ [Token.closing]).foldlM (advance t) .start =
      .ok (Links.afterOperand (l, []) [] []) := hl.foldlM (by simp [start])
  have hmiddle := advance_operator (s := (l, [])) (t := t) (by simp) hop r [] []
  have hright : (Token.opening :: us ++ [Token.closing]).foldlM (advance t)
      (Links.beforeOperand [(op, l)] [] []) = .ok (Links.afterOperand (r, [(op, l)]) [] []) :=
    hr.foldlM (by simp [Links.beforeOperand])
  have hclose := advance_closing (t := t) (r, [(op, l)]) [] []
  rw [Encloses, List.append_assoc]
  refine foldlM_append_ok_iff.mpr ⟨_, hleft, foldlM_cons_ok_iff.mpr ⟨_, hmiddle, ?_⟩⟩
  refine foldlM_append_ok_iff.mpr ⟨_, hright, foldlM_cons_ok_iff.mpr ⟨_, hclose, ?_⟩⟩
  simp [Links.close, pure, Except.pure]

end Conversion

namespace ImplicitZero

/-- The zeros of a group are those of the text by itself. -/
theorem insertAfter_group (before a s : List Char) :
    insertAfter before ('(' :: a ++ ')' :: s) =
      '(' :: insert a ++ ')' :: insertAfter [')'] s := by
  have hopening : atStart ('(' :: before) = atStart [] := atStart_cons (by decide) before
  have hclosing : ∀ written, atStart (')' :: written) = atStart [')'] := fun written => by
    rw [atStart_cons (by decide), atStart_cons (by decide)]
  rw [List.cons_append, insertAfter, insertAfter_append, insertAfter]
  rw [insertAfter_congr hopening, insertAfter_congr (hclosing _), insert_eq]
  rfl

theorem insert_groups (a b : List Char) (c : Char) :
    insert ('(' :: a ++ ')' :: c :: ('(' :: b ++ [')'])) =
      '(' :: insert a ++ ')' :: c :: ('(' :: insert b ++ [')']) := by
  have hclosing : atStart [')'] = false := atStart_cons (by decide) []
  have hheadless : isHeadless [')'] c = false := by rw [isHeadless, hclosing, Bool.and_false]
  rw [insert_eq, insertAfter_group, insertAfter, hheadless, insertAfter_group]
  rfl

end ImplicitZero

theorem Postfix.text_append {tokens after : List Token} (h : tokens ≠ []) (k : after ≠ []) :
    text (tokens ++ after) = text tokens ++ " " ++ text after := by
  rw [text, text, text, List.map_append,
    String.intercalate_append_of_ne_nil (by simpa using h) (by simpa using k)]

theorem Tree.text_node (op : Operator) (l r : Tree) :
    Postfix.text (node op l r).inPostfix =
      Postfix.text l.inPostfix ++ " " ++ Postfix.text r.inPostfix ++ " " ++ op.text := by
  have hchildren : l.inPostfix ++ r.inPostfix ≠ [] := by simp [inPostfix_ne_nil]
  have hop : Postfix.text [.operator op] = op.text := String.intercalate_singleton
  rw [inPostfix, Postfix.text_append hchildren (by simp),
    Postfix.text_append l.inPostfix_ne_nil r.inPostfix_ne_nil, hop]

namespace Session

variable {session : Session} {a ra : String} {ta : Tree}

/-- Parentheses isolate an expression that is parsed, whether the grammar has it or not: around the
whole they change nothing, and an operator between two groups has their trees as its operands. -/
theorem parse_groups (ha : session.parse a = (.ok ra, ⟨session.table, some ta⟩)) :
    session.parse ("(" ++ a ++ ")") = session.parse a ∧
      ∀ b rb tb op, session.parse b = (.ok rb, ⟨session.table, some tb⟩) →
        session.table.priority? op ≠ none →
        session.parse ("(" ++ a ++ ")" ++ op.text ++ "(" ++ b ++ ")") =
          (.ok (ra ++ " " ++ rb ++ " " ++ op.text), ⟨session.table, some (.node op ta tb)⟩) := by
  obtain ⟨hconverted, rfl⟩ := parse_ok_iff.mp ha
  obtain ⟨ts, hts, hleft⟩ := Conversion.ofText_closing_iff.mp hconverted
  constructor
  · rw [ha]
    refine parse_of_postfix (Conversion.ofText_closing_iff.mpr ⟨_, ?_, hleft.group⟩)
    have htext : ("(" ++ a ++ ")").toList = '(' :: a.toList ++ [')'] := by simp
    rw [htext, ImplicitZero.insert_eq, ImplicitZero.insertAfter_group]
    exact hts.group
  · intro b rb tb op hb hop
    obtain ⟨hconverted', rfl⟩ := parse_ok_iff.mp hb
    obtain ⟨us, hus, hright⟩ := Conversion.ofText_closing_iff.mp hconverted'
    rw [← Tree.text_node]
    refine parse_of_postfix (Conversion.ofText_closing_iff.mpr ⟨_, ?_, hleft.operator hright hop⟩)
    have htext : ("(" ++ a ++ ")" ++ op.text ++ "(" ++ b ++ ")").toList =
        '(' :: a.toList ++ ')' :: op.symbol :: ('(' :: b.toList ++ [')']) := by
      simp [Operator.text]
    rw [htext, ImplicitZero.insert_groups]
    have hread := hts.group.join (Token.ofChar?_symbol op) hus.group
    simpa using hread

theorem parse_groups_loose :
    (start .standard).parse "(1 2 +)*(-3)" = (.ok "1 2 + 0 3 - *",
      ⟨.standard, some (.node .times (.node .plus (.leaf 1) (.leaf 2))
        (.node .minus (.leaf 0) (.leaf 3)))⟩) := by
  have ha : (start .standard).parse "1 2 +" =
      (.ok "1 2 +", ⟨.standard, some (.node .plus (.leaf 1) (.leaf 2))⟩) := by decide +kernel
  have hb : (start .standard).parse "-3" =
      (.ok "0 3 -", ⟨.standard, some (.node .minus (.leaf 0) (.leaf 3))⟩) := by decide +kernel
  exact (parse_groups ha).2 "-3" _ _ .times hb (by decide)

end Session

end PostfixCalculator
