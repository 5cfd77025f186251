import Mathlib.Data.List.Dedup
import Mathlib.Data.List.Perm.Subperm
import PostfixCalculator.Proofs.Verdict

/-! The stack at each turn of a conversion and when it returns.

Between two turns the stack is one of groups, with as many parentheses as are open in what has been
read. A turn fails only at the look-up of the operator that it has read, before it changes the
stack, so the same holds where a conversion returns. Only a token that is found after the last group
does not count: it is refused, whatever it is. -/
namespace PostfixCalculator

namespace Priorities

/-- The priorities that a table gives, each once. -/
def levels (t : Priorities) : List UInt32 := (t.pairs.map Prod.snd).dedup

theorem rank_mem_levels {t : Priorities} {op : Operator} (h : t.priority? op ≠ none) :
    t.rank op ∈ t.levels.map UInt32.toNat := by
  obtain ⟨p, hp⟩ := Option.ne_none_iff_exists'.mp h
  have hpair : p ∈ t.pairs.map Prod.snd := List.mem_map.mpr ⟨(op, p), mem_pairs.mpr hp, rfl⟩
  rw [rank_of_some hp]
  exact List.mem_map_of_mem (List.mem_dedup.mpr hpair)

end Priorities

theorem Token.weight_eq_count (token : Token) :
    token.weight = ([token].count .opening : Int) - [token].count .closing := by
  cases token <;> simp [weight]

namespace Conversion

/-- The stack, top first, once these tokens have been read. -/
structure Grouped (t : Priorities) (read : List Token) (stack : List Pending) : Prop where
  bottom : stack ≠ [] → stack.getLast? = some .opening
  priority : ∀ op, .operator op ∈ stack → t.priority? op ≠ none
  openings : (stack.count .opening : Int) = 1 + read.count .opening - read.count .closing
  tighter : ∀ ops : List Operator, ops.map .operator ++ [.opening] <:+: stack →
    ops.Pairwise fun upper lower => t.rank lower < t.rank upper
  few : ∀ ops : List Operator, ops.map .operator ++ [.opening] <:+: stack →
    ops.length ≤ t.levels.length

/-- The stack once all tokens of the text before `r` have been read. -/
def GroupedAt (t : Priorities) (s : List Char) (r : Reading) (stack : List Pending) : Prop :=
  ∃ read, (Reading.ofText s).tokens = read ++ r.tokens ∧ Grouped t read stack

/-- The ways in which the conversion of a text returns, each with what has not been read, the stack
that is left and the result. The token that is refused after the last group comes first, if there is
one. -/
inductive Returns (t : Priorities) (s : List Char) :
    Option Token → Reading → List Pending → Except ParseError (List Token) → Prop where
  | fault {e cursor c} : Reached t s (.fault e cursor) c →
      Returns t s none (.fault e cursor) c.stack (.error e)
  | unfinished {cursor c} : Reached t s (.finished cursor) c → c.stack ≠ [] →
      Returns t s none (.finished cursor) c.stack (.error .unbalanced)
  | finished {cursor c} : Reached t s (.finished cursor) c → c.stack = [] →
      Returns t s none (.finished cursor) c.stack (.ok c.written.reverse)
  | leftover {token cursor rest c} : Reached t s (.token token cursor rest) c → c.stack = [] →
      Returns t s (some token) rest c.stack (.error .unbalanced)
  | missing {op cursor rest c} : Reached t s (.token (.operator op) cursor rest) c →
      c.stack ≠ [] → t.priority? op = none →
      Returns t s none rest c.stack (.error (.table (.missing op)))
  /-- The operators above the one that cannot be looked up are written by then. -/
  | missingPending {op p cursor rest q below written} {above : List Operator} :
      Reached t s (.token (.operator op) cursor rest)
        ⟨above.map .operator ++ .operator q :: below, written⟩ →
      t.priority? op = some p → (∀ a ∈ above, ∃ r, t.priority? a = some r ∧ p ≤ r) →
      t.priority? q = none →
      Returns t s none rest (.operator q :: below) (.error (.table (.missing q)))
  | unopened {cursor rest ops written} :
      Reached t s (.token .closing cursor rest) ⟨ops.map .operator, written⟩ → ops ≠ [] →
      Returns t s none rest [] (.error .unbalanced)

/-- The stack that is left, which counts all tokens that have been read but the one that is
refused. -/
structure GroupedOnReturn (t : Priorities) (s : List Char) (refused : Option Token) (r : Reading)
    (stack : List Pending) : Prop where
  counted : ∃ read, (Reading.ofText s).tokens = read ++ refused.toList ++ r.tokens ∧
    Grouped t read stack
  ended : refused ≠ none → stack = []

variable {t : Priorities} {s : List Char} {stack : List Pending}

namespace Stacked

theorem getLast? (h : Stacked t stack) (hne : stack ≠ []) : stack.getLast? = some .opening := by
  induction h with
  | empty => exact absurd rfl hne
  | @opening below _ ih =>
    cases below with
    | nil => rfl
    | cons x below =>
      rw [List.getLast?_cons_cons]
      exact ih (by simp)
  | first _ _ ih =>
    rw [List.getLast?_cons_cons]
    exact ih (by simp)
  | tighter _ _ _ ih =>
    rw [List.getLast?_cons_cons]
    exact ih (by simp)

theorem isChain {ops : List Operator} {below : List Pending}
    (h : Stacked t (ops.map .operator ++ .opening :: below)) :
    ops.IsChain fun upper lower => t.rank lower < t.rank upper := by
  induction ops with
  | nil => exact .nil
  | cons op ops ih =>
    cases ops with
    | nil => exact .singleton op
    | cons q ops =>
      cases h with
      | tighter _ hlt hrest => exact .cons_cons hlt (ih hrest)

theorem pairwise {ops : List Operator} (h : Stacked t stack)
    (hops : ops.map .operator ++ [.opening] <:+: stack) :
    ops.Pairwise fun upper lower => t.rank lower < t.rank upper := by
  obtain ⟨above, below, rfl⟩ := hops
  have hgroup : Stacked t (ops.map .operator ++ .opening :: below) :=
    h.of_suffix ⟨above, by simp⟩
  have htrans : IsTrans Operator fun upper lower => t.rank lower < t.rank upper :=
    ⟨fun _ _ _ h k => Nat.lt_trans k h⟩
  exact hgroup.isChain.pairwise

theorem length_le_levels {ops : List Operator} (h : Stacked t stack)
    (hops : ops.map .operator ++ [.opening] <:+: stack) : ops.length ≤ t.levels.length := by
  have hnodup : (ops.map t.rank).Nodup :=
    List.pairwise_map.mpr ((h.pairwise hops).imp fun hlt => (Nat.ne_of_lt hlt).symm)
  have hsubset : ops.map t.rank ⊆ t.levels.map UInt32.toNat := by
    intro k hk
    obtain ⟨op, hop, rfl⟩ := List.mem_map.mp hk
    have hmem : Pending.operator op ∈ ops.map .operator ++ [.opening] :=
      List.mem_append_left _ (List.mem_map_of_mem hop)
    exact Priorities.rank_mem_levels (h.priority (hops.subset hmem))
  simpa using (List.subperm_of_subset hnodup hsubset).length_le

theorem grouped (h : Stacked t stack) {read : List Token}
    (hcount : (stack.count .opening : Int) = 1 + read.count .opening - read.count .closing) :
    Grouped t read stack where
  bottom := h.getLast?
  priority _ hop := h.priority hop
  openings := hcount
  tighter _ hops := h.pairwise hops
  few _ hops := h.length_le_levels hops

end Stacked

theorem GroupedAt.take {token : Token} {cursor : Nat} {rest : Reading} {left : List Pending}
    (h : GroupedAt t s (.token token cursor rest) stack) (hleft : Stacked t left)
    (hcount : (left.count .opening : Int) = stack.count .opening + token.weight) :
    GroupedAt t s rest left := by
  obtain ⟨read, htokens, hgrouped⟩ := h
  refine ⟨read ++ [token], ?_, hleft.grouped ?_⟩
  · rw [htokens, Reading.tokens, List.append_assoc]
    rfl
  · have hweight := token.weight_eq_count
    have hbefore := hgrouped.openings
    rw [List.count_append, List.count_append]
    omega

theorem groupedAt_of_reached {r : Reading} {c : Conversion} (h : Reached t s r c) :
    GroupedAt t s r c.stack := by
  induction h with
  | start => exact ⟨[], rfl, (Stacked.opening .empty).grouped rfl⟩
  | turn hreached hne hstep ih =>
    have hstacked := stacked_of_reached hreached
    exact ih.take (stacked_of_step hstacked hne hstep) (count_of_step hstacked hne hstep)

theorem exists_returns {r : Reading} {c : Conversion} (h : Reached t s r c) :
    ∃ refused r stack result, Returns t s refused r stack result := by
  induction r generalizing c with
  | fault => exact ⟨_, _, _, _, .fault h⟩
  | finished =>
    by_cases hend : c.stack = []
    · exact ⟨_, _, _, _, .finished h hend⟩
    · exact ⟨_, _, _, _, .unfinished h hend⟩
  | token token cursor rest ih =>
    by_cases hend : c.stack = []
    · exact ⟨_, _, _, _, .leftover h hend⟩
    rcases token.priority_cases t with hp | ⟨op, rfl, hmissing⟩
    · obtain ⟨d, hstep, _⟩ := step_of_stacked (stacked_of_reached h) hend hp
      exact ih (.turn h hend hstep)
    · exact ⟨_, _, _, _, .missing h hend hmissing⟩

theorem GroupedAt.onReturn {r : Reading} (h : GroupedAt t s r stack) :
    GroupedOnReturn t s none r stack where
  counted := by
    obtain ⟨read, htokens, hgrouped⟩ := h
    exact ⟨read, by rw [htokens, Option.toList_none, List.append_nil], hgrouped⟩
  ended := fun hne => absurd rfl hne

theorem GroupedAt.refuse {token : Token} {cursor : Nat} {rest : Reading}
    (h : GroupedAt t s (.token token cursor rest) stack) (hend : stack = []) :
    GroupedOnReturn t s (some token) rest stack where
  counted := by
    obtain ⟨read, htokens, hgrouped⟩ := h
    refine ⟨read, ?_, hgrouped⟩
    rw [htokens, Reading.tokens, Option.toList_some, List.append_assoc]
    rfl
  ended := fun _ => hend

/-- The two failures in the midst of a turn do not occur on a stack of groups. -/
theorem grouped_of_returns {refused : Option Token} {r : Reading}
    {result : Except ParseError (List Token)} (h : Returns t s refused r stack result) :
    result = (Postfix.ofText t s).1 ∧ GroupedOnReturn t s refused r stack := by
  cases h with
  | fault h =>
    refine ⟨?_, (groupedAt_of_reached h).onReturn⟩
    rw [← run_of_reached h, run]
  | unfinished h hne =>
    refine ⟨?_, (groupedAt_of_reached h).onReturn⟩
    obtain ⟨x, below, hstack⟩ := List.exists_cons_of_ne_nil hne
    rw [← run_of_reached h, run, hstack]
  | finished h hend =>
    refine ⟨?_, (groupedAt_of_reached h).onReturn⟩
    rw [← run_of_reached h, run, hend]
  | leftover h hend =>
    refine ⟨?_, (groupedAt_of_reached h).refuse hend⟩
    rw [← run_of_reached h, run, hend]
  | missing h hne hmissing =>
    constructor
    · rw [← run_of_reached h, run_of_turn hne, step_of_missing hmissing]
    · exact ((groupedAt_of_reached h).take (stacked_of_reached h) (Int.add_zero _).symm).onReturn
  | missingPending h _ _ hmissing =>
    exact absurd hmissing ((stacked_of_reached h).priority (by simp))
  | unopened h hne =>
    have hmem := (stacked_of_reached h).opening_mem (by simpa using hne)
    simp at hmem

/-- Wherever a conversion is between two turns, and wherever it returns, its stack is empty or has a
parenthesis at the bottom, with one more parenthesis than are left open by what has been read. The
token that is refused after the last group does not count. The operators on the stack have
priorities, which strictly increase upwards from each parenthesis to the next, so that above each
there are no more of them than the table has different priorities. Each return gives the result of
the conversion, and there is one. -/
theorem stack_grouped (t : Priorities) (s : List Char) :
    (∀ r c, Reached t s r c → GroupedAt t s r c.stack) ∧
    (∃ refused r stack, Returns t s refused r stack (Postfix.ofText t s).1) ∧
    ∀ refused r stack result, Returns t s refused r stack result →
      result = (Postfix.ofText t s).1 ∧ GroupedOnReturn t s refused r stack := by
  refine ⟨fun _ _ h => groupedAt_of_reached h, ?_, fun _ _ _ _ h => grouped_of_returns h⟩
  obtain ⟨refused, r, stack, result, hreturns⟩ := exists_returns (t := t) (s := s) .start
  exact ⟨refused, r, stack, (grouped_of_returns hreturns).1 ▸ hreturns⟩

theorem stack_grouped_unfinished :
    Returns .standard "2*(3+4^".toList none (.finished 7)
      [.operator .power, .operator .plus, .opening, .operator .times, .opening]
      (.error .unbalanced) ∧
    GroupedOnReturn .standard "2*(3+4^".toList none (.finished 7)
      [.operator .power, .operator .plus, .opening, .operator .times, .opening] := by
  have hread : Reading.ofText "2*(3+4^".toList = .token (.number 2) 1 (.token (.operator .times) 2
      (.token .opening 3 (.token (.number 3) 4 (.token (.operator .plus) 5 (.token (.number 4) 6
        (.token (.operator .power) 7 (.finished 7))))))) := by decide +kernel
  have hgroup := (((hread ▸ Reached.start).turn (t := .standard) (by decide) rfl).turn
    (by decide) rfl).turn (by decide) rfl
  have hreached := (((hgroup.turn (by decide) rfl).turn (by decide) rfl).turn
    (by decide) rfl).turn (by decide) rfl
  have hreturns := Returns.unfinished hreached (by decide)
  exact ⟨hreturns, ((stack_grouped _ _).2.2 _ _ _ _ hreturns).2⟩

/-- The parenthesis that is refused has been read, but the empty stack does not count it. -/
theorem stack_miscounts_refused :
    Returns .standard ")(".toList (some .opening) (.finished 2) [] (.error .unbalanced) ∧
    ¬ GroupedAt .standard ")(".toList (.finished 2) [] := by
  have hread : Reading.ofText ")(".toList =
      .token .closing 1 (.token .opening 2 (.finished 2)) := by decide +kernel
  have hreached := (hread ▸ Reached.start).turn (t := .standard) (by decide) rfl
  refine ⟨.leftover hreached rfl, ?_⟩
  rintro ⟨read, htokens, hgrouped⟩
  rw [hread] at htokens
  obtain rfl : read = [.closing, .opening] := by simpa [Reading.tokens] using htokens.symm
  exact absurd hgrouped.openings (by decide)

end Conversion

end PostfixCalculator
