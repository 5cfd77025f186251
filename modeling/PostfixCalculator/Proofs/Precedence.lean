import PostfixCalculator.Grammar
import PostfixCalculator.Proofs.Parsing

/-! Parsing meets the grammar: the tree of a sentence divides every chain at the last of its
operators of least priority.

Read from the left, a chain leaves the operators that still wait for the end of their right
operand, each with its left one. Such a spine is what a conversion has on its stack and has
written, and it closes to the tree that the grammar gives from the top. -/
namespace PostfixCalculator

namespace Links

/-- The operators that wait for their right operand, the last one first, each with its left one. -/
abbrev Spine := List (Operator × Tree)

/-- Ends the operators at the end of the spine whose rank is at least `p`, with `operand` on the
right of the first of them. -/
def reduce (t : Priorities) (p : Nat) : Tree → Spine → Tree × Spine
  | operand, [] => (operand, [])
  | operand, (op, left) :: spine =>
    if p ≤ t.rank op then reduce t p (.node op left operand) spine
    else (operand, (op, left) :: spine)

def close : Tree → Spine → Tree
  | operand, [] => operand
  | operand, (op, left) :: spine => close (.node op left operand) spine

def extend (t : Priorities) (s : Tree × Spine) (link : Operator × Tree) : Tree × Spine :=
  let r := reduce t (t.rank link.1) s.1 s.2
  (link.2, (link.1, r.1) :: r.2)

variable {t : Priorities}

theorem close_append (operand : Tree) (above below : Spine) :
    close operand (above ++ below) = close (close operand above) below := by
  induction above generalizing operand with
  | nil => rfl
  | cons x above ih => exact ih _

theorem reduce_of_le {p : Nat} {spine : Spine} (h : ∀ x ∈ spine, p ≤ t.rank x.1) (operand : Tree) :
    reduce t p operand spine = (close operand spine, []) := by
  induction spine generalizing operand with
  | nil => rfl
  | cons x spine ih =>
    rw [reduce, if_pos (h x (by simp)), ih (fun y hy => h y (by simp [hy]))]
    rfl

theorem reduce_append {p : Nat} {below : Spine} (h : ∀ x ∈ below, t.rank x.1 < p)
    (operand : Tree) (spine : Spine) : reduce t p operand (spine ++ below) =
      ((reduce t p operand spine).1, (reduce t p operand spine).2 ++ below) := by
  induction spine generalizing operand with
  | nil =>
    cases below with
    | nil => rfl
    | cons x below =>
      obtain ⟨op, left⟩ := x
      have hlt : t.rank op < p := h (op, left) (by simp)
      simp [reduce, Nat.not_le.mpr hlt]
  | cons x spine ih =>
    rw [List.cons_append, reduce, reduce]
    split
    · exact ih _
    · rfl

theorem reduce_suffix (p : Nat) (operand : Tree) (spine : Spine) :
    (reduce t p operand spine).2 <:+ spine := by
  induction spine generalizing operand with
  | nil => exact List.suffix_rfl
  | cons x spine ih =>
    rw [reduce]
    split
    · exact (ih _).trans (List.suffix_cons _ _)
    · exact List.suffix_rfl

theorem foldl_extend_append {xs : Links} {below : Spine}
    (h : ∀ x ∈ xs, ∀ y ∈ below, t.rank y.1 < t.rank x.1) (operand : Tree) (spine : Spine) :
    xs.foldl (extend t) (operand, spine ++ below) =
      ((xs.foldl (extend t) (operand, spine)).1,
        (xs.foldl (extend t) (operand, spine)).2 ++ below) := by
  induction xs generalizing operand spine with
  | nil => rfl
  | cons x xs ih =>
    have hreduce := reduce_append (h x (by simp)) operand spine
    rw [List.foldl_cons, List.foldl_cons, extend, hreduce]
    exact ih (fun y hy => h y (by simp [hy])) x.2 ((x.1, _) :: _)

theorem spine_of_foldl {P : Operator → Prop} {xs : Links} (h : ∀ x ∈ xs, P x.1)
    (operand : Tree) {spine : Spine} (hspine : ∀ y ∈ spine, P y.1) :
    ∀ y ∈ (xs.foldl (extend t) (operand, spine)).2, P y.1 := by
  induction xs generalizing operand spine with
  | nil => exact hspine
  | cons x xs ih =>
    refine ih (fun y hy => h y (by simp [hy])) x.2 ?_
    intro y hy
    rcases List.mem_cons.mp hy with rfl | hy
    · exact h x (by simp)
    · exact hspine y ((reduce_suffix _ _ _).mem hy)

theorem divide_of_ne_nil {xs : Links} (h : xs ≠ []) : divide t xs ≠ none := by
  cases xs with
  | nil => exact absurd rfl h
  | cons x xs =>
    rw [divide]
    split
    · simp
    · split <;> simp

/-- The operator at which a chain is divided has the least priority, and those after it have
greater ones. -/
theorem divide_least {xs before after : Links} {y : Operator × Tree}
    (h : divide t xs = some (before, y, after)) :
    (∀ x ∈ before, t.rank y.1 ≤ t.rank x.1) ∧ ∀ x ∈ after, t.rank y.1 < t.rank x.1 := by
  induction xs generalizing before y after with
  | nil => cases h
  | cons x xs ih =>
    rw [divide] at h
    split at h
    next hnone =>
      cases h
      simp
    next before' z after' hsome =>
      obtain ⟨hbefore, hafter⟩ := ih hsome
      split at h
      next hle =>
        cases h
        exact ⟨List.forall_mem_cons.mpr ⟨hle, hbefore⟩, hafter⟩
      next hlt =>
        cases h
        refine ⟨by simp, ?_⟩
        rw [divide_eq hsome]
        intro w hw
        rcases List.mem_append.mp hw with hw | hw
        · have := hbefore w hw
          omega
        · rcases List.mem_cons.mp hw with rfl | hw
          · omega
          · have := hafter w hw
            omega

theorem tree_nil (first : Tree) : tree t first [] = first := by
  rw [tree]
  rfl

theorem tree_of_divide {xs before after : Links} {op : Operator} {next : Tree}
    (h : divide t xs = some (before, (op, next), after)) (first : Tree) :
    tree t first xs = .node op (tree t first before) (tree t next after) := by
  rw [tree]
  split
  next hnone => simp [h] at hnone
  next hsome =>
    rw [h] at hsome
    cases hsome
    rfl

/-- The chain read from the left closes to its tree. -/
theorem tree_eq_close (first : Tree) (xs : Links) :
    tree t first xs =
      close (xs.foldl (extend t) (first, [])).1 (xs.foldl (extend t) (first, [])).2 := by
  induction hn : xs.length using Nat.strong_induction_on generalizing first xs with
  | h n ih =>
    subst hn
    by_cases hne : xs = []
    · subst hne
      exact tree_nil first
    obtain ⟨⟨before, ⟨op, next⟩, after⟩, hdivide⟩ :=
      Option.ne_none_iff_exists'.mp (divide_of_ne_nil (t := t) hne)
    obtain ⟨hbefore, hafter⟩ := divide_least hdivide
    have hsplit := divide_eq hdivide
    have hlength : xs.length = before.length + (after.length + 1) := by simp [hsplit]
    -- All operators before `op` are ended by it, and none of those after it ends it.
    have hpending : ∀ y ∈ (before.foldl (extend t) (first, [])).2, t.rank op ≤ t.rank y.1 :=
      spine_of_foldl (P := fun q => t.rank op ≤ t.rank q) hbefore first (by simp)
    have hextend : extend t (before.foldl (extend t) (first, [])) (op, next) =
        (next, [] ++ [(op, tree t first before)]) := by
      rw [extend, reduce_of_le hpending, ih _ (by omega) first before rfl]
      rfl
    have hfold : xs.foldl (extend t) (first, []) =
        ((after.foldl (extend t) (next, [])).1,
          (after.foldl (extend t) (next, [])).2 ++ [(op, tree t first before)]) := by
      rw [hsplit, List.foldl_append, List.foldl_cons, hextend]
      exact foldl_extend_append (by simpa using hafter) next []
    rw [tree_of_divide hdivide, hfold, close_append, ih _ (by omega) next after rfl]
    rfl

/-- The conversion at a place for an operand: the operators of the spine are on the stack, above the
parenthesis of their group, and what stands to the left of them is written. -/
def beforeOperand (spine : Spine) (base : List Pending) (written : List Token) : Conversion :=
  ⟨spine.map (.operator ·.1) ++ .opening :: base,
    spine.flatMap (·.2.inPostfix.reverse) ++ written⟩

def afterOperand (s : Tree × Spine) (base : List Pending) (written : List Token) : Conversion :=
  { beforeOperand s.2 base written with
    written := s.1.inPostfix.reverse ++ (beforeOperand s.2 base written).written }

theorem release_afterOperand {spine : Spine} (h : ∀ x ∈ spine, t.priority? x.1 ≠ none) (p : UInt32)
    (operand : Tree) (base : List Pending) (written : List Token) :
    Conversion.release t p (afterOperand (operand, spine) base written).stack
        (afterOperand (operand, spine) base written).written =
      .ok (afterOperand (reduce t p.toNat operand spine) base written) := by
  induction spine generalizing operand with
  | nil => rfl
  | cons x spine ih =>
    obtain ⟨op, left⟩ := x
    obtain ⟨q, hq⟩ := Option.ne_none_iff_exists'.mp (h (op, left) (by simp))
    have hle : p ≤ q ↔ p.toNat ≤ t.rank op := by
      rw [Priorities.rank_of_some hq, UInt32.le_iff_toNat_le]
    change Conversion.release t p (.operator op :: _) _ = _
    rw [Conversion.release_operator hq, reduce]
    by_cases hp : p ≤ q
    · have hnode := ih (fun y hy => h y (by simp [hy])) (.node op left operand)
      rw [if_pos hp, if_pos (hle.mp hp), ← hnode]
      simp [afterOperand, beforeOperand, Tree.inPostfix]
    · rw [if_neg hp, if_neg (mt hle.mpr hp)]
      rfl

theorem closeGroup_afterOperand (s : Tree × Spine) (base : List Pending) (written : List Token) :
    Conversion.closeGroup (afterOperand s base written).stack
        (afterOperand s base written).written =
      .ok ⟨base, (close s.1 s.2).inPostfix.reverse ++ written⟩ := by
  obtain ⟨operand, spine⟩ := s
  induction spine generalizing operand with
  | nil => simp [afterOperand, beforeOperand, Conversion.closeGroup, close]
  | cons x spine ih =>
    have hnode := ih (.node x.1 x.2 operand)
    rw [close, ← hnode]
    simp [afterOperand, beforeOperand, Conversion.closeGroup, Tree.inPostfix]

end Links

namespace Conversion

def advance (t : Priorities) (c : Conversion) (token : Token) : Except ParseError Conversion :=
  if c.stack = [] then .error .unbalanced else c.step t token

variable {t : Priorities}

theorem run_of_foldlM {r : Reading} {c c' : Conversion} (hr : r.error? = none)
    (h : r.tokens.foldlM (advance t) c = .ok c') (hend : c'.stack = []) :
    (run t r c).1 = .ok c'.written.reverse := by
  induction r generalizing c with
  | fault => cases hr
  | finished cursor =>
    cases h
    simp [run, hend]
  | token token cursor rest ih =>
    obtain ⟨d, hfirst, hrest⟩ := foldlM_cons_ok_iff.mp h
    by_cases hne : c.stack = []
    · rw [advance, if_pos hne] at hfirst
      cases hfirst
    rw [advance, if_neg hne] at hfirst
    rw [run_of_turn hne, hfirst]
    exact ih hr hrest

theorem foldlM_of_run {r : Reading} {c : Conversion} {out : List Token}
    (h : (run t r c).1 = .ok out) :
    r.error? = none ∧ r.tokens.foldlM (advance t) c = .ok ⟨[], out.reverse⟩ := by
  induction r generalizing c with
  | fault => cases h
  | finished cursor =>
    obtain ⟨stack, written⟩ := c
    cases stack with
    | nil =>
      cases h
      simp [Reading.error?, Reading.tokens, pure, Except.pure]
    | cons x stack => cases h
  | token token cursor rest ih =>
    by_cases hne : c.stack = []
    · simp [run, hne] at h
    rw [run_of_turn hne] at h
    cases hstep : c.step t token with
    | error e =>
      rw [hstep] at h
      cases h
    | ok d =>
      rw [hstep] at h
      obtain ⟨herror, hrest⟩ := ih h
      refine ⟨herror, foldlM_cons_ok_iff.mpr ⟨d, ?_, hrest⟩⟩
      rw [advance, if_neg hne, hstep]

/-- Between parentheses, these tokens are written as `out`. -/
def Encloses (t : Priorities) (tokens out : List Token) : Prop :=
  (tokens ++ [Token.closing]).foldlM (advance t) .start = .ok ⟨[], out.reverse⟩

theorem ofText_closing_iff {s : List Char} {out : List Token} :
    (Postfix.ofText t (s ++ [')'])).1 = .ok out ↔
      ∃ tokens, Reading.Spells s tokens ∧ Encloses t tokens out := by
  obtain ⟨herror, htokens⟩ := Reading.ofText_append_closing s
  constructor
  · intro h
    obtain ⟨hread, hrun⟩ := foldlM_of_run h
    rw [herror] at hread
    rw [htokens hread] at hrun
    exact ⟨_, ⟨hread, rfl⟩, hrun⟩
  · rintro ⟨tokens, ⟨hread, rfl⟩, hrun⟩
    rw [Encloses, ← htokens hread] at hrun
    have hout := run_of_foldlM (herror.trans hread) hrun rfl
    rwa [List.reverse_reverse] at hout

theorem advance_number {c : Conversion} (h : c.stack ≠ []) (value : Float) :
    advance t c (.number value) = .ok { c with written := .number value :: c.written } := by
  rw [advance, if_neg h]
  rfl

theorem advance_opening {c : Conversion} (h : c.stack ≠ []) :
    advance t c .opening = .ok (Links.beforeOperand [] c.stack c.written) := by
  rw [advance, if_neg h]
  rfl

theorem advance_closing (s : Tree × Links.Spine) (base : List Pending) (written : List Token) :
    advance t (Links.afterOperand s base written) .closing =
      .ok ⟨base, (Links.close s.1 s.2).inPostfix.reverse ++ written⟩ := by
  rw [advance, if_neg (by simp [Links.afterOperand, Links.beforeOperand])]
  exact Links.closeGroup_afterOperand s base written

theorem advance_operator {s : Tree × Links.Spine} (h : ∀ x ∈ s.2, t.priority? x.1 ≠ none)
    {op : Operator} (hop : t.priority? op ≠ none) (next : Tree) (base : List Pending)
    (written : List Token) :
    advance t (Links.afterOperand s base written) (.operator op) =
      .ok (Links.beforeOperand (Links.extend t s (op, next)).2 base written) := by
  obtain ⟨p, hp⟩ := Option.ne_none_iff_exists'.mp hop
  have hrelease := Links.release_afterOperand h p s.1 base written
  rw [← Priorities.rank_of_some hp] at hrelease
  rw [advance, if_neg (by simp [Links.afterOperand, Links.beforeOperand]), step,
    pushOperator_of_some hp, hrelease]
  simp [Links.extend, Links.afterOperand, Links.beforeOperand, Except.map, Except.mapError]

end Conversion

mutual

/-- An operand is written in the postfix order of its tree, whatever is on the stack. -/
theorem Operand.foldlM_advance {t : Priorities} (operand : Operand)
    (h : ∀ op ∈ operand.operators, t.priority? op ≠ none) {c : Conversion} (hne : c.stack ≠ []) :
    operand.tokens.foldlM (Conversion.advance t) c =
      .ok { c with written := (operand.tree t).inPostfix.reverse ++ c.written } := by
  match operand with
  | .number value =>
    rw [Operand.tokens]
    exact foldlM_cons_ok_iff.mpr ⟨_, Conversion.advance_number hne value, rfl⟩
  | .group chain =>
    have hopening := Conversion.advance_opening (t := t) hne
    have hchain := chain.foldlM_advance h [] c.stack c.written (by simp)
    have hclosing := Conversion.advance_closing (t := t)
      ((chain.links t).foldl (Links.extend t) (chain.first t, [])) c.stack c.written
    rw [Operand.tokens, Operand.tree, Links.tree_eq_close, List.cons_append]
    refine foldlM_cons_ok_iff.mpr ⟨_, hopening, foldlM_append_ok_iff.mpr ⟨_, hchain, ?_⟩⟩
    exact foldlM_cons_ok_iff.mpr ⟨_, hclosing, rfl⟩

theorem Chain.foldlM_advance {t : Priorities} (chain : Chain)
    (h : ∀ op ∈ chain.operators, t.priority? op ≠ none) (spine : Links.Spine)
    (base : List Pending) (written : List Token) (hspine : ∀ x ∈ spine, t.priority? x.1 ≠ none) :
    chain.tokens.foldlM (Conversion.advance t) (Links.beforeOperand spine base written) =
      .ok (Links.afterOperand ((chain.links t).foldl (Links.extend t) (chain.first t, spine))
        base written) := by
  match chain with
  | .last operand =>
    rw [Chain.tokens, operand.foldlM_advance h (by simp [Links.beforeOperand])]
    rfl
  | .link operand op rest =>
    simp only [Chain.operators, List.mem_append, List.mem_cons] at h
    have hop : t.priority? op ≠ none := h op (Or.inr (Or.inl rfl))
    have hspine' : ∀ x ∈ (Links.extend t (operand.tree t, spine) (op, rest.first t)).2,
        t.priority? x.1 ≠ none := by
      intro x hx
      rcases List.mem_cons.mp hx with rfl | hx
      · exact hop
      · exact hspine x ((Links.reduce_suffix _ _ _).mem hx)
    have hfirst : operand.tokens.foldlM (Conversion.advance t)
        (Links.beforeOperand spine base written) =
          .ok (Links.afterOperand (operand.tree t, spine) base written) :=
      operand.foldlM_advance (fun q hq => h q (Or.inl hq)) (by simp [Links.beforeOperand])
    have hlink := Conversion.advance_operator (s := (operand.tree t, spine)) hspine hop
      (rest.first t) base written
    have hrest := rest.foldlM_advance (fun q hq => h q (Or.inr (Or.inr hq))) _ base written hspine'
    rw [Chain.tokens]
    refine foldlM_append_ok_iff.mpr ⟨_, hfirst, ?_⟩
    exact foldlM_cons_ok_iff.mpr ⟨_, hlink, hrest⟩

end

theorem Chain.encloses {t : Priorities} {chain : Chain}
    (h : ∀ op ∈ chain.operators, t.priority? op ≠ none) :
    Conversion.Encloses t chain.tokens (chain.tree t).inPostfix := by
  have hchain : chain.tokens.foldlM (Conversion.advance t) .start =
      .ok (Links.afterOperand ((chain.links t).foldl (Links.extend t) (chain.first t, [])) [] []) :=
    chain.foldlM_advance h [] [] [] (by simp)
  have hclosing := Conversion.advance_closing (t := t)
    ((chain.links t).foldl (Links.extend t) (chain.first t, [])) [] []
  rw [← Links.tree_eq_close, List.append_nil] at hclosing
  exact foldlM_append_ok_iff.mpr ⟨_, hchain, foldlM_cons_ok_iff.mpr ⟨_, hclosing, rfl⟩⟩

theorem Chain.ofText_closing {t : Priorities} {chain : Chain}
    (h : ∀ op ∈ chain.operators, t.priority? op ≠ none) {s : List Char}
    (herror : (Reading.ofText s).error? = none)
    (htokens : (Reading.ofText s).tokens = chain.tokens) :
    (Postfix.ofText t (s ++ [')'])).1 = .ok (chain.tree t).inPostfix :=
  Conversion.ofText_closing_iff.mpr ⟨_, ⟨herror, htokens⟩, Chain.encloses h⟩

namespace Session

/-- Parsing a sentence gives the tree that the grammar has for it, and its postfix order as text:
the root of a chain is the last of its operators of least priority. -/
theorem parse_sentence (session : Session) (e : String) (chain : Chain)
    (herror : (Reading.ofText (ImplicitZero.insert e.toList)).error? = none)
    (htokens : (Reading.ofText (ImplicitZero.insert e.toList)).tokens = chain.tokens)
    (hpriority : ∀ op ∈ chain.operators, session.table.priority? op ≠ none) :
    session.parse e = (.ok (Postfix.text (chain.tree session.table).inPostfix),
      ⟨session.table, some (chain.tree session.table)⟩) :=
  parse_of_postfix (Chain.ofText_closing hpriority herror htokens)

/-- The sentence `8-3-2*(1+4)`. -/
def differences : Chain :=
  .link (.number 8) .minus (.link (.number 3) .minus (.link (.number 2) .times
    (.last (.group (.link (.number 1) .plus (.last (.number 4)))))))

theorem parse_sentence_differences :
    (start .standard).parse "8-3-2*(1+4)" = (.ok "8 3 - 2 1 4 + * -",
      ⟨.standard, some (.node .minus (.node .minus (.leaf 8) (.leaf 3))
        (.node .times (.leaf 2) (.node .plus (.leaf 1) (.leaf 4))))⟩) := by
  have hparse := parse_sentence (start .standard) "8-3-2*(1+4)" differences (by decide +kernel)
    (by decide +kernel) (by decide)
  rw [hparse]
  decide +kernel

end Session

end PostfixCalculator
