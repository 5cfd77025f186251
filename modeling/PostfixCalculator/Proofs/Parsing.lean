import PostfixCalculator.Proofs.Building
import PostfixCalculator.Proofs.Conversion
import PostfixCalculator.Session

/-! Parsing succeeds with a tree exactly when the expression is converted to its postfix order. -/
namespace PostfixCalculator

theorem Attempt.make_of_postfix {table : Priorities} {e : String} {tree : Tree}
    (h : (Postfix.ofText table (prepare e.toList)).1 = .ok tree.inPostfix) :
    ∃ cursor, make table e = .built tree.inPostfix cursor tree := by
  refine ⟨(Postfix.ofText table (prepare e.toList)).2, ?_⟩
  have hconverted : Postfix.ofText table (prepare e.toList) =
      (.ok tree.inPostfix, (Postfix.ofText table (prepare e.toList)).2) := by rw [← h]
  rw [make, hconverted]
  simp [Tree.ofPostfix_inPostfix]

theorem Attempt.postfix_of_answer {table : Priorities} {e text : String}
    (h : (make table e).answer = .ok text) :
    ∃ tree : Tree, (Postfix.ofText table (prepare e.toList)).1 = .ok tree.inPostfix := by
  rw [make] at h
  split at h
  · cases h
  next tokens cursor hconverted =>
    cases hbuilt : Tree.ofPostfix tokens with
    | error e =>
      rw [hbuilt] at h
      cases h
    | ok tree =>
      refine ⟨tree, ?_⟩
      rw [hconverted, Tree.ofPostfix_ok_iff.mp hbuilt]

theorem Attempt.error_of_answer {table : Priorities} {e : String} {error : ParseError}
    (h : (make table e).answer = .error error) :
    (Postfix.ofText table (prepare e.toList)).1 = .error error ∨ error.category = .structural := by
  rw [make] at h
  split at h
  next hconverted =>
    cases h
    exact Or.inl (by rw [hconverted])
  next tokens cursor _ =>
    cases hbuilt : Tree.ofPostfix tokens with
    | ok tree =>
      rw [hbuilt] at h
      cases h
    | error f =>
      rw [hbuilt] at h
      cases h
      exact Or.inr (Tree.category_of_ofPostfix hbuilt)

theorem Attempt.tokens_of_built {table : Priorities} {e : String} {tokens : List Token}
    {cursor : Nat} {tree : Tree} (h : make table e = .built tokens cursor tree) :
    tokens = tree.inPostfix := by
  rw [make] at h
  split at h
  · cases h
  next read reached _ =>
    cases hbuilt : Tree.ofPostfix read with
    | error error =>
      rw [hbuilt] at h
      cases h
    | ok built =>
      rw [hbuilt] at h
      cases h
      exact (Tree.ofPostfix_ok_iff.mp hbuilt).symm

namespace Session

variable {session : Session} {e text : String}

/-- What parsing answers and what it leaves: the postfix order with its tree, or an error and no
tree. -/
theorem parse_cases (session : Session) (e : String) :
    (∃ tree : Tree, session.parse e =
      (.ok (Postfix.text tree.inPostfix), ⟨session.table, some tree⟩)) ∨
    ∃ error, session.parse e = (.error error, ⟨session.table, none⟩) := by
  rw [parse]
  cases hmake : Attempt.make session.table e with
  | notConverted error => exact Or.inr ⟨error, rfl⟩
  | notBuilt tokens cursor error => exact Or.inr ⟨error, rfl⟩
  | built tokens cursor tree =>
    rw [Attempt.tokens_of_built hmake]
    exact Or.inl ⟨tree, rfl⟩

theorem tree_of_parse (h : (session.parse e).1 = .ok text) : ∃ tree : Tree,
    text = Postfix.text tree.inPostfix ∧
      session.parse e = (.ok text, ⟨session.table, some tree⟩) := by
  rcases session.parse_cases e with ⟨tree, hanswer⟩ | ⟨error, hanswer⟩
  · rw [hanswer] at h
    cases h
    exact ⟨tree, rfl, hanswer⟩
  · rw [hanswer] at h
    cases h

theorem copy_eq (session : Session) : session.copy = session := by
  have htree : session.tree.map Tree.copy = session.tree := by
    cases session.tree <;> simp [Tree.copy_eq]
  rw [copy, htree]

theorem parse_empty (session : Session) : (session.parse "").1 = .error (.leftover 0) := by
  have hread : Reading.ofText (Attempt.prepare "".toList) = .token .closing 1 (.finished 1) :=
    Reading.ofText_closing
  rw [Session.parse, Attempt.make, Postfix.ofText, hread]
  rfl

/-- The tree that a session holds has no part in what it parses next. -/
theorem parse_congr {s u : Session} (h : s.table = u.table) (e : String) :
    s.parse e = u.parse e := by
  rw [parse, parse, h]

theorem parse_of_postfix {tree : Tree}
    (h : (Postfix.ofText session.table (Attempt.prepare e.toList)).1 = .ok tree.inPostfix) :
    session.parse e = (.ok (Postfix.text tree.inPostfix), ⟨session.table, some tree⟩) := by
  obtain ⟨cursor, hmake⟩ := Attempt.make_of_postfix h
  simp [parse, hmake, Attempt.answer, Attempt.tree?]

theorem postfix_of_parse (h : (session.parse e).1 = .ok text) : ∃ tree : Tree,
    (Postfix.ofText session.table (Attempt.prepare e.toList)).1 = .ok tree.inPostfix :=
  Attempt.postfix_of_answer h

theorem parse_ok_iff {tree : Tree} : session.parse e = (.ok text, ⟨session.table, some tree⟩) ↔
    (Postfix.ofText session.table (Attempt.prepare e.toList)).1 = .ok tree.inPostfix ∧
      text = Postfix.text tree.inPostfix := by
  constructor
  · intro h
    obtain ⟨u, hconverted⟩ := postfix_of_parse (congrArg Prod.fst h)
    have hparse := parse_of_postfix hconverted
    rw [hparse] at h
    cases h
    exact ⟨hconverted, rfl⟩
  · rintro ⟨hconverted, rfl⟩
    exact parse_of_postfix hconverted

end Session

end PostfixCalculator
