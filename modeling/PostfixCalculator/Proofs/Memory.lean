import Mathlib.Data.List.Induction
import PostfixCalculator.Proofs.Parsing

/-! What a session remembers: its table and what came of the last parse, nothing else.

Calls that only ask leave the session as it is, and so does a copy, since a tree that is built anew
from its postfix order is the same. A parse replaces the tree by one that depends on the table and
the expression alone. -/
namespace PostfixCalculator.Session

inductive Call where
  | parse (e : String)
  | solve
  | drawing
  | tree
  | table
  | copy (kept : Bool)

inductive Answer where
  | parsed (answer : Except ParseError String)
  | solved (value : Float)
  | drawn (drawing : Option String)
  | tree (tree : Option Tree)
  | table (table : Priorities)
  | copied (copy : Session)

def Call.expression? : Call → Option String
  | .parse e => some e
  | _ => none

def call (s : Session) : Call → Answer × Session
  | .parse e => (.parsed (s.parse e).1, (s.parse e).2)
  | .solve => (.solved s.solve, s)
  | .drawing => (.drawn s.drawing, s)
  | .tree => (.tree s.tree, s)
  | .table => (.table s.table, s)
  | .copy kept => (.copied s.copy, if kept then s.copy else s)

def run (s : Session) (calls : List Call) : Session := calls.foldl (fun s c => (s.call c).2) s

def answers (s : Session) : List Call → List Answer
  | [] => []
  | c :: calls => (s.call c).1 :: (s.call c).2.answers calls

/-- The last parse among the calls is that of `e`, after the calls `before`. -/
def ParsesLast (calls before : List Call) (e : String) : Prop :=
  ∃ after, calls = before ++ .parse e :: after ∧ ∀ c ∈ after, c.expression? = none

/-- A new session that was asked for the last parse among the calls and for nothing else. -/
def remembered (t : Priorities) (calls : List Call) : Session :=
  match (calls.filterMap Call.expression?).getLast? with
  | none => start t
  | some e => ((start t).parse e).2

/-- The session shows nothing. -/
structure Blank (s : Session) : Prop where
  tree : s.tree = none
  drawing : s.drawing = none
  solve : s.solve = 0

/-- All that the session shows is of one tree, and so is the text of its postfix order. -/
structure Shows (s : Session) (text : String) (tree : Tree) : Prop where
  held : s.tree = some tree
  text : text = Postfix.text tree.postfixOrder
  solve : s.solve = tree.evaluate .double
  drawing : s.drawing = some tree.drawing

structure Remembers (t : Priorities) (calls : List Call) (s : Session) : Prop where
  table : s.table = t
  answers : ∀ more, s.answers more = (remembered t calls).answers more
  unparsed : (∀ c ∈ calls, c.expression? = none) → s.Blank
  failed : ∀ before e error, ParsesLast calls before e →
    (((start t).run before).parse e).1 = .error error → s.Blank
  succeeded : ∀ before e text, ParsesLast calls before e →
    (((start t).run before).parse e).1 = .ok text → ∃ tree, s.Shows text tree

variable {t : Priorities} {s : Session} {calls before : List Call} {c : Call} {e : String}

theorem run_append (s : Session) (calls more : List Call) :
    s.run (calls ++ more) = (s.run calls).run more := List.foldl_append

theorem run_concat (s : Session) (calls : List Call) (c : Call) :
    s.run (calls ++ [c]) = ((s.run calls).call c).2 := by
  rw [run_append]
  rfl

theorem table_call (s : Session) (c : Call) : (s.call c).2.table = s.table := by
  cases c with
  | copy kept =>
    rw [call, copy_eq, ite_self]
  | _ => rfl

theorem call_of_ask (s : Session) (h : c.expression? = none) : (s.call c).2 = s := by
  cases c with
  | parse e => cases h
  | copy kept => rw [call, copy_eq, ite_self]
  | _ => rfl

theorem table_run (s : Session) (calls : List Call) : (s.run calls).table = s.table := by
  induction calls using List.reverseRecOn with
  | nil => rfl
  | append_singleton calls c ih => rw [run_concat, table_call, ih]

theorem run_of_asks (s : Session) (h : ∀ c ∈ calls, c.expression? = none) : s.run calls = s := by
  induction calls using List.reverseRecOn with
  | nil => rfl
  | append_singleton calls c ih =>
    simp only [List.mem_append, List.mem_singleton, or_imp, forall_and, forall_eq] at h
    rw [run_concat, ih h.1, call_of_ask s h.2]

theorem ParsesLast.run (h : ParsesLast calls before e) (s : Session) :
    s.run calls = ((s.run before).parse e).2 := by
  obtain ⟨after, rfl, hasks⟩ := h
  rw [List.append_cons, run_append, run_of_asks _ hasks, run_concat]
  rfl

/-- The whole history counts for no more than its last parse. -/
theorem run_eq_remembered (t : Priorities) (calls : List Call) :
    (start t).run calls = remembered t calls := by
  induction calls using List.reverseRecOn with
  | nil => rfl
  | append_singleton calls c ih =>
    rw [run_concat, remembered, List.filterMap_append]
    cases hparse : c.expression? with
    | none =>
      rw [call_of_ask _ hparse, List.filterMap_cons_none hparse, List.filterMap_nil,
        List.append_nil, ih]
      rfl
    | some e =>
      rw [List.filterMap_cons_some hparse, List.filterMap_nil, List.getLast?_concat]
      cases c with
      | parse e' =>
        cases hparse
        exact congrArg Prod.snd (parse_congr (table_run (start t) calls) e)
      | _ => cases hparse

theorem Blank.of_tree (h : s.tree = none) : s.Blank := by
  constructor
  · exact h
  · rw [Session.drawing, h]
    rfl
  · rw [Session.solve, h]

theorem Shows.of_tree {tree : Tree} (h : s.tree = some tree) :
    s.Shows (Postfix.text tree.inPostfix) tree := by
  constructor
  · exact h
  · rw [tree.postfixOrder_eq]
  · rw [Session.solve, h]
  · rw [Session.drawing, h]
    rfl

/-- A session remembers its table and its last parse. If there was none or it failed, at whatever
stage, nothing is left of those before. -/
theorem run_remembers (t : Priorities) (calls : List Call) :
    Remembers t calls ((start t).run calls) := by
  constructor
  · exact table_run (start t) calls
  · intro more
    rw [run_eq_remembered]
  · intro hasks
    rw [run_of_asks _ hasks]
    exact .of_tree rfl
  · intro before e error hlast hanswer
    rw [hlast.run]
    rcases parse_cases ((start t).run before) e with ⟨tree, hparse⟩ | ⟨error', hparse⟩
    · rw [hparse] at hanswer
      cases hanswer
    · rw [hparse]
      exact .of_tree rfl
  · intro before e text hlast hanswer
    rw [hlast.run]
    obtain ⟨tree, rfl, hparse⟩ := tree_of_parse hanswer
    rw [hparse]
    exact ⟨tree, .of_tree rfl⟩

example : (start .standard).run [.parse "6*7", .copy true, .parse "6*(7", .solve] =
    start .standard := by
  decide +kernel

end PostfixCalculator.Session
