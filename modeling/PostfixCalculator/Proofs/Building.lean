import PostfixCalculator.Tree.Basic

/-! Trees built from postfix order: a tree is built from its own tokens and from no others. -/
namespace PostfixCalculator

section Fold

variable {α β ε : Type} {f : β → α → Except ε β} {b c : β}

theorem foldlM_append_ok_iff {as bs : List α} :
    (as ++ bs).foldlM f b = .ok c ↔ ∃ d, as.foldlM f b = .ok d ∧ bs.foldlM f d = .ok c := by
  rw [List.foldlM_append]
  cases as.foldlM f b <;> simp [bind, Except.bind]

theorem foldlM_cons_ok_iff {a : α} {as : List α} :
    (a :: as).foldlM f b = .ok c ↔ ∃ d, f b a = .ok d ∧ as.foldlM f d = .ok c := by
  rw [List.foldlM_cons]
  cases f b a <;> simp [bind, Except.bind]

theorem foldlM_error_iff {e : ε} {as : List α} : as.foldlM f b = .error e ↔
    ∃ before a after c, as = before ++ a :: after ∧ before.foldlM f b = .ok c ∧ f c a = .error e := by
  constructor
  · intro h
    induction as generalizing b with
    | nil => cases h
    | cons a as ih =>
      rw [List.foldlM_cons] at h
      cases hstep : f b a with
      | error d =>
        rw [hstep] at h
        cases h
        exact ⟨[], a, as, b, rfl, rfl, hstep⟩
      | ok d =>
        rw [hstep] at h
        obtain ⟨before, a', after, c, rfl, hbefore, herror⟩ := ih h
        exact ⟨a :: before, a', after, c, rfl, foldlM_cons_ok_iff.mpr ⟨d, hstep, hbefore⟩, herror⟩
  · rintro ⟨before, a, after, c, rfl, hbefore, herror⟩
    rw [List.foldlM_append, hbefore]
    change (a :: after).foldlM f c = .error e
    rw [List.foldlM_cons, herror]
    rfl

end Fold

namespace Tree

variable {α : Type}

theorem inPostfix_ne_nil (t : Tree α) : t.inPostfix ≠ [] := by
  cases t <;> simp [inPostfix]

theorem foldlM_build (t : Tree α) (stack : List (Tree α)) :
    t.inPostfix.foldlM build stack = .ok (t :: stack) := by
  induction t generalizing stack with
  | leaf value => rfl
  | node op l r ihl ihr =>
    rw [inPostfix, List.foldlM_append, List.foldlM_append, ihl]
    change (r.inPostfix.foldlM build (l :: stack) >>= _) = _
    rw [ihr]
    rfl

theorem ofPostfix_inPostfix (t : Tree α) : ofPostfix t.inPostfix = .ok t := by
  rw [ofPostfix, foldlM_build]
  rfl

/-- All that building on a token can do. -/
theorem build_cases {stack stack' : List (Tree α)} {token : Token α}
    (h : build stack token = .ok stack') :
    (∃ value, token = .number value ∧ stack' = .leaf value :: stack) ∨
      ∃ op l r below, token = .operator op ∧ stack = r :: l :: below ∧
        stack' = .node op l r :: below := by
  cases token with
  | number value =>
    cases h
    exact Or.inl ⟨value, rfl, rfl⟩
  | operator op =>
    match stack with
    | r :: l :: below =>
      cases h
      exact Or.inr ⟨op, l, r, below, rfl, rfl, rfl⟩
    | [] | [_] => cases h
  | opening | closing => cases h

theorem inPostfix_of_build {stack stack' : List (Tree α)} {token : Token α}
    (h : build stack token = .ok stack') :
    stack'.reverse.flatMap inPostfix = stack.reverse.flatMap inPostfix ++ [token] := by
  rcases build_cases h with ⟨value, rfl, rfl⟩ | ⟨op, l, r, below, rfl, rfl, rfl⟩
  · simp [inPostfix]
  · simp [inPostfix]

theorem inPostfix_of_foldlM {tokens : List (Token α)} {stack stack' : List (Tree α)}
    (h : tokens.foldlM build stack = .ok stack') :
    stack'.reverse.flatMap inPostfix = stack.reverse.flatMap inPostfix ++ tokens := by
  induction tokens generalizing stack with
  | nil =>
    cases h
    simp
  | cons token tokens ih =>
    obtain ⟨middle, hfirst, hrest⟩ := foldlM_cons_ok_iff.mp h
    rw [ih hrest, inPostfix_of_build hfirst, List.append_assoc, List.singleton_append]

theorem ofPostfix_ok_iff {tokens : List (Token α)} {t : Tree α} :
    ofPostfix tokens = .ok t ↔ t.inPostfix = tokens := by
  constructor
  · intro h
    rw [ofPostfix] at h
    cases hfold : tokens.foldlM build [] with
    | error e =>
      rw [hfold] at h
      cases h
    | ok stack =>
      rw [hfold] at h
      match stack with
      | [u] =>
        cases h
        simpa using inPostfix_of_foldlM hfold
      | [] | _ :: _ :: _ => cases h
  · rintro rfl
    exact ofPostfix_inPostfix t

theorem rebuild_eq (missing : α) (t : Tree α) : t.rebuild missing = t := by
  rw [rebuild, postfixOrder_eq, ofPostfix_inPostfix]

theorem copy_eq (t : Tree) : t.copy = t := rebuild_eq undefined t

/-- Trees and the lists of tokens that they are built from are in bijection by the postfix order:
a tree is built from its own postfix order and from no other list. So a tree that is built anew is the
tree itself, and never the leaf that stands for one that could not be built. Nothing looks at what the
leaves hold: it may be patterns of bits, in which one that is not a number differs from another. -/
theorem ofPostfix_bijection {α : Type} (t : Tree α) :
    t.postfixOrder = t.inPostfix ∧ ofPostfix t.postfixOrder = .ok t ∧
      (∀ tokens, ofPostfix tokens = .ok t ↔ t.postfixOrder = tokens) ∧
      ∀ missing, t.rebuild missing = t := by
  rw [postfixOrder_eq]
  exact ⟨rfl, ofPostfix_inPostfix t, fun _ => ofPostfix_ok_iff, fun missing => rebuild_eq missing t⟩

theorem category_of_build {stack : List Tree} {token : Token} {e : ParseError}
    (h : build stack token = .error e) : e.category = .structural := by
  cases token with
  | number value => cases h
  | operator op =>
    match stack with
    | _ :: _ :: _ => cases h
    | [] | [_] =>
      cases h
      rfl
  | opening | closing =>
    cases h
    rfl

theorem category_of_foldlM {tokens : List Token} {stack : List Tree} {e : ParseError}
    (h : tokens.foldlM build stack = .error e) : e.category = .structural := by
  induction tokens generalizing stack with
  | nil => cases h
  | cons token tokens ih =>
    rw [List.foldlM_cons] at h
    cases hfirst : build stack token with
    | error f =>
      rw [hfirst] at h
      cases h
      exact category_of_build hfirst
    | ok middle =>
      rw [hfirst] at h
      exact ih h

theorem category_of_ofPostfix {tokens : List Token} {e : ParseError}
    (h : ofPostfix tokens = .error e) : e.category = .structural := by
  rw [ofPostfix] at h
  cases hfold : tokens.foldlM build [] with
  | error f =>
    rw [hfold] at h
    cases h
    exact category_of_foldlM hfold
  | ok stack =>
    rw [hfold] at h
    match stack with
    | [_] => cases h
    | [] | _ :: _ :: _ =>
      cases h
      rfl

end Tree

end PostfixCalculator
