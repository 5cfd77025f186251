import PostfixCalculator.Proofs.Cutting
import PostfixCalculator.Proofs.Fields
import PostfixCalculator.Proofs.Operands
import PostfixCalculator.Tree.Drawing

/-! A drawing is made of one line for each node, and it shows one tree only.

The level of a node is seen from the indentation of its line, and the node from the rest. Of a tree
the root alone has the least level, so the lines above the one of least level draw the right subtree
and those below it the left one. -/
namespace PostfixCalculator

namespace Text

def indentation (line : List Char) : Nat := (line.takeWhile (· == ' ')).length

end Text

namespace Tree

/-- What a line of a drawing shows: a node, by its token, and its level. -/
structure Row where
  level : Nat
  token : Token
  isWritten : token.isWritten

def Row.text (row : Row) : List Char :=
  List.replicate (4 * row.level) ' ' ++ row.token.text.toList ++
    if row.token.isOperator then ['/', '\\'] else []

def rows (level : Nat) : Tree → List Row
  | .leaf x => [⟨level, .number x, rfl⟩]
  | .node op l r => r.rows (level + 1) ++ ⟨level, .operator op, rfl⟩ :: l.rows (level + 1)

theorem rows_length (level : Nat) (t : Tree) : (t.rows level).length = t.inPostfix.length := by
  induction t generalizing level with
  | leaf x => rfl
  | node op l r ihl ihr =>
    simp [rows, inPostfix, ihl, ihr]
    omega

theorem level_of_mem_rows {level : Nat} {t : Tree} :
    ∀ row ∈ t.rows level, level ≤ row.level ∧ row.level < level + t.height := by
  induction t generalizing level with
  | leaf x => simp [rows, height]
  | node op l r ihl ihr =>
    intro row hrow
    rw [rows, List.mem_append, List.mem_cons] at hrow
    rw [height]
    rcases hrow with hrow | rfl | hrow
    · have := ihr row hrow
      omega
    · dsimp only
      omega
    · have := ihl row hrow
      omega

theorem exists_deepest (level : Nat) (t : Tree) :
    ∃ row ∈ t.rows level, row.level + 1 = level + t.height := by
  induction t generalizing level with
  | leaf x => exact ⟨_, List.mem_singleton.mpr rfl, rfl⟩
  | node op l r ihl ihr =>
    rw [height]
    rcases le_total l.height r.height with hle | hle
    · obtain ⟨row, hrow, hlevel⟩ := ihr (level + 1)
      exact ⟨row, List.mem_append_left _ hrow, by omega⟩
    · obtain ⟨row, hrow, hlevel⟩ := ihl (level + 1)
      exact ⟨row, List.mem_append_right _ (List.mem_cons_of_mem _ hrow), by omega⟩

theorem operator_mem_rows (level : Nat) (op : Operator) (l r : Tree) :
    (⟨level, .operator op, rfl⟩ : Row) ∈ (node op l r).rows level := by
  simp [rows]

theorem operator_not_mem_rows (level : Nat) (op : Operator) (t : Tree) :
    (⟨level, .operator op, rfl⟩ : Row) ∉ t.rows (level + 1) := by
  intro hmem
  have hlevel := (level_of_mem_rows _ hmem).1
  dsimp only at hlevel
  omega

/-- The row of the root is the only one of its level, so the rows fall apart at it. -/
theorem eq_of_rows {level : Nat} {t u : Tree} (h : t.rows level = u.rows level) : t = u := by
  induction t generalizing level u with
  | leaf x =>
    cases u with
    | leaf y =>
      cases h
      rfl
    | node op l r =>
      have hmem := operator_mem_rows level op l r
      rw [← h, rows, List.mem_singleton] at hmem
      cases hmem
  | node op l r ihl ihr =>
    cases u with
    | leaf y =>
      have hmem := operator_mem_rows level op l r
      rw [h, rows, List.mem_singleton] at hmem
      cases hmem
    | node op' l' r' =>
      obtain ⟨hr, hroot, hl⟩ := (List.append_cons_inj_of_notMem
        (operator_not_mem_rows level op' r) (operator_not_mem_rows level op' l)).mp h
      cases hroot
      rw [ihl hl, ihr hr]

end Tree

namespace Token

theorem text_begin (token : Token) : ∃ c s, token.text.toList = c :: s ∧ c ≠ ' ' := by
  have hne : token.text.toList ≠ [] := by
    cases token with
    | number x => simp [text, Layout.plain_number_ne_nil]
    | operator op => cases op <;> decide
    | opening | closing => decide
  obtain ⟨c, s, hcons⟩ := List.exists_cons_of_ne_nil hne
  refine ⟨c, s, hcons, ?_⟩
  rintro rfl
  have hspace := token.not_mem_text (c := ' ') (by decide) (by decide) (by decide)
  simp [hcons] at hspace

theorem eq_of_text {token token' : Token} (h : token.isWritten) (h' : token'.isWritten)
    (htext : token.text.toList = token'.text.toList) : token = token' := by
  have hread := token?_text h
  rw [htext, token?_text h'] at hread
  exact (Option.some.inj hread).symm

end Token

namespace Tree

namespace Row

theorem indentation_text (row : Row) : Text.indentation row.text = 4 * row.level := by
  obtain ⟨c, s, hcons, hc⟩ := row.token.text_begin
  rw [Text.indentation, text, hcons, List.append_assoc, List.takeWhile_append_of_pos (by simp)]
  simp [hc]

theorem line_feed_not_mem_text (row : Row) : '\n' ∉ row.text := by
  have htoken := row.token.not_mem_text (c := '\n') (by decide) (by decide) (by decide)
  have hbranches : '\n' ∉ (if row.token.isOperator then ['/', '\\'] else []) := by
    split <;> decide
  simp [text, htoken, hbranches]

theorem backslash_mem_text_iff (row : Row) : '\\' ∈ row.text ↔ row.token.isOperator := by
  have htoken := row.token.not_mem_text (c := '\\') (by decide) (by decide) (by decide)
  cases hoperator : row.token.isOperator <;> simp [text, htoken, hoperator]

/-- A line shows its level by its indentation, whether it is that of an operator by the branches, and
its token by the rest. -/
theorem text_injective : Function.Injective text := by
  intro r s h
  have hindent := congrArg Text.indentation h
  rw [indentation_text, indentation_text] at hindent
  have hlevel : r.level = s.level := by omega
  have hoperator : r.token.isOperator = s.token.isOperator := by
    rw [Bool.eq_iff_iff, ← backslash_mem_text_iff, ← backslash_mem_text_iff, h]
  have htext : r.token.text.toList = s.token.text.toList := by
    rw [text, text, hlevel, hoperator] at h
    exact List.append_cancel_left (List.append_cancel_right h)
  have htoken := Token.eq_of_text r.isWritten s.isWritten htext
  cases r
  cases s
  cases hlevel
  cases htoken
  rfl

end Row

theorem drawn_eq (level : Nat) (t : Tree) :
    t.drawn level = (t.rows level).flatMap fun row => row.text ++ ['\n'] := by
  induction t generalizing level with
  | leaf x => simp [drawn, drawLine, rows, Row.text, root, Token.isOperator]
  | node op l r ihl ihr =>
    simp [drawn, drawLine, rows, Row.text, root, Token.isOperator, ihl, ihr]

theorem drawing_eq (t : Tree) : t.drawing = String.ofList (t.drawn 0) := by
  simp [drawing, sketch_eq, Sketch.text]

theorem lines_drawing (t : Tree) :
    Text.lines t.drawing.toList = (t.rows 0).map Row.text ++ [[]] := by
  have hfree : ∀ line ∈ (t.rows 0).map Row.text, '\n' ∉ line := by
    intro line hline
    obtain ⟨row, -, rfl⟩ := List.mem_map.mp hline
    exact row.line_feed_not_mem_text
  rw [← Text.lines_flatMap hfree, drawing_eq, String.toList_ofList, drawn_eq, List.flatMap_map]

/-- A drawing shows one tree only: the shape, the operators and the numbers, where all that is not a
number counts as one. -/
theorem drawing_inj (t u : Tree) : t.drawing = u.drawing ↔ t = u := by
  constructor
  · intro h
    have hlines := t.lines_drawing
    rw [h, lines_drawing] at hlines
    have hrows := List.append_cancel_right hlines
    exact (eq_of_rows (List.map_injective_iff.mpr Row.text_injective hrows)).symm
  · rintro rfl
    rfl

theorem depth_eq (t : Tree) : t.depth = t.height := by
  simp [depth, deepestOf_eq]

theorem height_le (t : Tree) : t.height ≤ t.inPostfix.countP Token.isOperator + 1 := by
  induction t with
  | leaf x => simp [height]
  | node op l r ihl ihr =>
    simp [height, inPostfix, Token.isOperator]
    omega

theorem max?_indentation (t : Tree) :
    (((t.rows 0).map Row.text).map Text.indentation).max? = some (4 * (t.height - 1)) := by
  have hpos := t.height_pos
  rw [List.map_map, List.max?_eq_some_iff]
  constructor
  · obtain ⟨row, hrow, hlevel⟩ := exists_deepest 0 t
    refine List.mem_map.mpr ⟨row, hrow, ?_⟩
    rw [Function.comp_apply, Row.indentation_text]
    omega
  · intro n hn
    obtain ⟨row, hrow, rfl⟩ := List.mem_map.mp hn
    have hlevel := (level_of_mem_rows row hrow).2
    rw [Function.comp_apply, Row.indentation_text]
    omega

/-- A drawing is made as recursion on the tree makes it: the right subtree, the line of the root and
the left subtree, each level further in. So it has a line for each node, and the lines that stand
furthest in are those of the greatest depth. -/
theorem drawing_recursive (t : Tree) :
    t.drawing = String.ofList (t.drawn 0) ∧
    (∀ level, t.drawn level = (t.rows level).flatMap fun row => row.text ++ ['\n']) ∧
    t.depth = t.height ∧
    ∃ lines, Text.lines t.drawing.toList = lines ++ [[]] ∧ lines = (t.rows 0).map Row.text ∧
      lines.length = 2 * t.postfixOrder.countP Token.isOperator + 1 ∧
      (lines.map Text.indentation).max? = some (4 * (t.depth - 1)) ∧
      t.depth ≤ t.postfixOrder.countP Token.isOperator + 1 := by
  refine ⟨drawing_eq t, fun level => drawn_eq level t, depth_eq t, _, lines_drawing t, rfl, ?_, ?_, ?_⟩
  · have hnumbers := t.countP_isNumber
    obtain ⟨hleaves, hlength⟩ := t.length_leaves
    rw [List.length_map, rows_length, postfixOrder_eq]
    omega
  · rw [depth_eq]
    exact max?_indentation t
  · rw [depth_eq, postfixOrder_eq]
    exact height_le t

end Tree

end PostfixCalculator
