import PostfixCalculator.Proofs.Conservation
import PostfixCalculator.Proofs.Preparation

/-! Tables that order the operators of an expression alike.

A conversion looks up the operators that it reads and those on its stack, which it has read before,
and it only compares their priorities with each other. So two tables that have priorities for the
same ones of these operators and order them alike release the same operators at each step, and lack
one at the same step. -/
namespace PostfixCalculator

/-- The tables have priorities for the same ones of the operators that occur, and order these
alike. -/
structure Priorities.Alike (occurs : Operator → Prop) (t u : Priorities) : Prop where
  defined : ∀ op, occurs op → (t.priority? op = none ↔ u.priority? op = none)
  order : ∀ a b, occurs a → occurs b → t.priority? a ≠ none → t.priority? b ≠ none →
    (t.rank a < t.rank b ↔ u.rank a < u.rank b)

variable {occurs : Operator → Prop} {t u : Priorities}

namespace Priorities.Alike

theorem cases (h : Alike occurs t u) {op : Operator} (hop : occurs op) :
    (t.priority? op = none ∧ u.priority? op = none) ∨
      ∃ p q, t.priority? op = some p ∧ u.priority? op = some q := by
  by_cases ht : t.priority? op = none
  · exact Or.inl ⟨ht, (h.defined op hop).mp ht⟩
  · have hu : u.priority? op ≠ none := mt (h.defined op hop).mpr ht
    obtain ⟨p, hp⟩ := Option.ne_none_iff_exists'.mp ht
    obtain ⟨q, hq⟩ := Option.ne_none_iff_exists'.mp hu
    exact Or.inr ⟨p, q, hp, hq⟩

theorem le_iff (h : Alike occurs t u) {a b : Operator} (ha : occurs a) (hb : occurs b)
    {p q p' q' : UInt32} (hp : t.priority? a = some p) (hq : t.priority? b = some q)
    (hp' : u.priority? a = some p') (hq' : u.priority? b = some q') : p ≤ q ↔ p' ≤ q' := by
  have hlt := h.order b a hb ha (by simp [hq]) (by simp [hp])
  rw [rank_of_some hp, rank_of_some hq, rank_of_some hp', rank_of_some hq'] at hlt
  rw [UInt32.le_iff_toNat_le, UInt32.le_iff_toNat_le]
  omega

end Priorities.Alike

namespace Conversion

theorem release_alike (h : Priorities.Alike occurs t u) {op : Operator} (hop : occurs op)
    {p p' : UInt32} (hp : t.priority? op = some p) (hp' : u.priority? op = some p')
    {stack : List Pending} (hstack : ∀ a, .operator a ∈ stack → occurs a) (written : List Token) :
    release t p stack written = release u p' stack written := by
  induction stack generalizing written with
  | nil => rfl
  | cons x stack ih =>
    cases x with
    | opening => rfl
    | operator a =>
      have ha : occurs a := hstack a List.mem_cons_self
      rcases h.cases ha with ⟨hq, hq'⟩ | ⟨q, q', hq, hq'⟩
      · rw [release, release, Priorities.priority_missing_iff.mpr hq,
          Priorities.priority_missing_iff.mpr hq']
        rfl
      · have hle := h.le_iff hop ha hp hq hp' hq'
        rw [release_operator hq, release_operator hq']
        by_cases hrelease : p ≤ q
        · rw [if_pos hrelease, if_pos (hle.mp hrelease)]
          exact ih (fun b hb => hstack b (List.mem_cons_of_mem _ hb)) _
        · rw [if_neg hrelease, if_neg (mt hle.mpr hrelease)]

def Within (occurs : Operator → Prop) (c : Conversion) : Prop :=
  ∀ op, .operator op ∈ c.held → occurs op

theorem Within.stack {c : Conversion} (h : Within occurs c) :
    ∀ op, .operator op ∈ c.stack → occurs op := by
  intro op hop
  apply h op
  have htoken : Token.operator op ∈ c.stack.map Pending.token :=
    List.mem_map.mpr ⟨.operator op, hop, rfl⟩
  exact List.mem_append_left _ (List.mem_filter.mpr ⟨htoken, rfl⟩)

theorem within_of_step {c d : Conversion} {token : Token} (h : Within occurs c)
    (htoken : ∀ op, token = .operator op → occurs op) (hstep : c.step t token = .ok d) :
    Within occurs d := by
  intro op hop
  rcases List.mem_append.mp ((held_of_step hstep).mem_iff.mp hop) with hread | hheld
  · have heq := List.mem_singleton.mp (List.mem_filter.mp hread).1
    exact htoken op heq.symm
  · exact h op hheld

theorem step_alike (h : Priorities.Alike occurs t u) {c : Conversion} (hc : Within occurs c)
    {token : Token} (htoken : ∀ op, token = .operator op → occurs op) :
    c.step t token = c.step u token := by
  cases token with
  | number value => rfl
  | opening => rfl
  | closing => rfl
  | operator op =>
    have hop := htoken op rfl
    rcases h.cases hop with ⟨hp, hp'⟩ | ⟨p, p', hp, hp'⟩
    · rw [step_of_missing hp, step_of_missing hp']
    · have hrelease := release_alike h hop hp hp' hc.stack c.written
      rw [step, step, pushOperator_of_some hp, pushOperator_of_some hp', hrelease]

/-- The runs under both tables are the same to the end, also when they end in an error. -/
theorem run_alike (h : Priorities.Alike occurs t u) {r : Reading}
    (hr : ∀ op, .operator op ∈ r.tokens → occurs op) {c : Conversion} (hc : Within occurs c) :
    run t r c = run u r c := by
  induction r generalizing c with
  | finished => rfl
  | fault => rfl
  | token token cursor rest ih =>
    by_cases hne : c.stack = []
    · rw [run, run, hne]
    have htoken : ∀ op, token = .operator op → occurs op := by
      rintro op rfl
      exact hr op List.mem_cons_self
    have hrest : ∀ op, .operator op ∈ rest.tokens → occurs op := by
      intro op hop
      exact hr op (List.mem_cons_of_mem _ hop)
    rw [run_of_turn hne, run_of_turn hne, step_alike h hc htoken]
    cases hstep : c.step u token with
    | error e => rfl
    | ok d => exact ih hrest (within_of_step hc htoken hstep)

end Conversion

theorem Reading.Reads.mem_of_operator {s : List Char} {ts : List Token} {e : Option ParseError}
    (h : Reads s ts e) {op : Operator} (hop : .operator op ∈ ts) : op.symbol ∈ s := by
  induction h with
  | finished => cases hop
  | malformed => cases hop
  | stray => cases hop
  | blank _ _ ih => exact List.mem_cons_of_mem _ (ih hop)
  | number _ _ _ _ ih =>
    rcases List.mem_cons.mp hop with heq | hop
    · cases heq
    · exact List.mem_append_right _ (ih hop)
  | symbol hc _ ih =>
    rcases List.mem_cons.mp hop with rfl | hop
    · rcases Token.ofChar?_cases hc with ⟨_, heq⟩ | ⟨_, heq⟩ | ⟨q, rfl, heq⟩
      · cases heq
      · cases heq
      · cases heq
        exact List.mem_cons_self
    · exact List.mem_cons_of_mem _ (ih hop)

theorem Token.operator_of_zeroed {a : Token} {tokens : List Token} {op : Operator}
    (h : .operator op ∈ zeroed a tokens) : .operator op ∈ tokens := by
  induction tokens generalizing a with
  | nil => cases h
  | cons token tokens ih =>
    have hrest : Token.operator op ∈ token :: zeroed token tokens := by
      rw [zeroed] at h
      split at h
      · rcases List.mem_cons.mp h with heq | h
        · cases heq
        · exact h
      · exact h
    rcases List.mem_cons.mp hrest with rfl | hrest
    · exact List.mem_cons_self
    · exact List.mem_cons_of_mem _ (ih hrest)

theorem Attempt.mem_of_operator {e : List Char} {op : Operator}
    (h : .operator op ∈ (Reading.ofText (prepare e)).tokens) : op.symbol ∈ e := by
  have hread : Reading.Reads e (Reading.ofText e).tokens (Reading.ofText e).error? :=
    Reading.reads_iff.mpr ⟨rfl, rfl⟩
  rw [(Reading.reads_prepare e).sound.1] at h
  rcases List.mem_append.mp h with h | h
  · exact hread.mem_of_operator (Token.operator_of_zeroed h)
  · cases herror : (Reading.ofText e).error? <;> simp [herror, Reading.ending] at h

theorem Attempt.make_alike {e : String}
    (h : Priorities.Alike (fun op => op.symbol ∈ e.toList) t u) : make t e = make u e := by
  have hstart : Conversion.Within (fun op => op.symbol ∈ e.toList) .start := by
    intro op hop
    cases hop
  have hrun : Postfix.ofText t (prepare e.toList) = Postfix.ofText u (prepare e.toList) :=
    Conversion.run_alike h (fun _ hop => mem_of_operator hop) hstart
  rw [make, make, hrun]

namespace Session

/-- Only the order of the priorities of the operators that stand in an expression matters. Under two
tables that have the same of them and order them alike it has the same postfix order or the same
error, and leaves the same tree. -/
theorem parse_alike {s u : Session} {e : String}
    (h : Priorities.Alike (fun op => op.symbol ∈ e.toList) s.table u.table) :
    (s.parse e).1 = (u.parse e).1 ∧ (s.parse e).2.tree = (u.parse e).2.tree := by
  rw [parse, parse, Attempt.make_alike h]
  exact ⟨rfl, rfl⟩

def sparse : Priorities :=
  ((Priorities.empty.set .plus 7 (by decide)).set .minus 7 (by decide)).set .times 4000 (by decide)

def sparseTree : Tree :=
  .node .plus
    (.node .minus (.leaf 0) (.node .times (.leaf 2) (.node .minus (.leaf 3) (.leaf 4))))
    (.node .times (.leaf 1) (.leaf 5))

theorem parse_alike_sparse :
    Priorities.Alike (fun op => op.symbol ∈ "-2*(3-4)+1*5".toList) .standard sparse ∧
      ((start .standard).parse "-2*(3-4)+1*5").1 = .ok "0 2 3 4 - * - 1 5 * +" ∧
      ((start sparse).parse "-2*(3-4)+1*5").1 = .ok "0 2 3 4 - * - 1 5 * +" ∧
      ((start .standard).parse "-2*(3-4)+1*5").2.tree = some sparseTree ∧
      ((start sparse).parse "-2*(3-4)+1*5").2.tree = some sparseTree := by
  have halike : Priorities.Alike (fun op => op.symbol ∈ "-2*(3-4)+1*5".toList) .standard sparse := by
    constructor
    · intro op hop
      revert hop
      cases op <;> decide +kernel
    · intro a b ha hb
      revert ha hb
      cases a <;> cases b <;> decide +kernel
  have hanswer : ((start .standard).parse "-2*(3-4)+1*5").1 = .ok "0 2 3 4 - * - 1 5 * +" := by
    decide +kernel
  have htree : ((start .standard).parse "-2*(3-4)+1*5").2.tree = some sparseTree := by
    decide +kernel
  obtain ⟨hsame, hsametree⟩ := parse_alike (s := start .standard) (u := start sparse) halike
  exact ⟨halike, hanswer, hsame ▸ hanswer, htree, hsametree ▸ htree⟩

end Session

end PostfixCalculator
