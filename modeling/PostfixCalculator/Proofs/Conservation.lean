import PostfixCalculator.Proofs.Conversion

/-! A conversion writes what it reads, the parentheses apart.

Whatever the priorities are, a token is read and then either written or kept on the stack, from which
operators are only ever written. So every token that was read is written or pending, once, and what
is written before a number had been read before it. -/
namespace PostfixCalculator

def Token.isWritten : Token → Bool
  | .number _ | .operator _ => true
  | .opening | .closing => false

namespace Token

def isNumber : Token → Bool
  | .number _ => true
  | _ => false

def isOperator : Token → Bool
  | .operator _ => true
  | _ => false

theorem isWritten_of_isNumber {token : Token} (h : token.isNumber) : token.isWritten := by
  cases token with
  | number => rfl
  | operator | opening | closing => cases h

end Token

namespace Conversion

def held (c : Conversion) : List Token :=
  (c.stack.map Pending.token).filter Token.isWritten ++ c.written

/-- Operators go from the top of the stack to what is written. -/
inductive Writes : Conversion → Conversion → Prop where
  | none {c} : Writes c c
  | operator {op stack written d} : Writes ⟨stack, .operator op :: written⟩ d →
      Writes ⟨.operator op :: stack, written⟩ d

/-- What becomes of a token itself, once the operators that it makes way for are written. -/
inductive Takes : Token → Conversion → Conversion → Prop where
  | number {x stack written} : Takes (.number x) ⟨stack, written⟩ ⟨stack, .number x :: written⟩
  | operator {op stack written} :
      Takes (.operator op) ⟨stack, written⟩ ⟨.operator op :: stack, written⟩
  | opening {stack written} : Takes .opening ⟨stack, written⟩ ⟨.opening :: stack, written⟩
  | closing {stack written} : Takes .closing ⟨.opening :: stack, written⟩ ⟨stack, written⟩

/-- The tokens `read`, each with its place among them, are accounted for by the operators `pending`
on the stack and by what is `written`, last token first. -/
structure Accounts (read pending written : List (Token × Nat)) (c : Conversion) : Prop where
  pending_eq : pending.map Prod.fst = (c.stack.map Pending.token).filter Token.isWritten
  written_eq : written.map Prod.fst = c.written
  once : (pending ++ written).Perm (read.filter fun x => x.1.isWritten)
  numbers : (written.filter fun x => x.1.isNumber).reverse = read.filter fun x => x.1.isNumber
  order : written.Pairwise fun y x => x.1.isOperator → y.1.isNumber → x.2 < y.2

def Accounted (read : List (Token × Nat)) (c : Conversion) : Prop :=
  ∃ pending written, Accounts read pending written c

/-- The tokens of `out` have these places among the `tokens` of a text. -/
structure Placed (tokens out : List Token) (placed : List (Token × Nat)) : Prop where
  out_eq : placed.map Prod.fst = out
  once : placed.Perm (tokens.zipIdx.filter fun x => x.1.isWritten)
  numbers : (placed.filter fun x => x.1.isNumber) = tokens.zipIdx.filter fun x => x.1.isNumber
  /-- An operator comes after all numbers that precede it in the text. -/
  operators : ∀ front y back, placed = front ++ y :: back → y.1.isOperator →
    ∀ x ∈ tokens.zipIdx, x.1.isNumber → x.2 < y.2 → x ∈ front

variable {t : Priorities} {c d : Conversion} {token : Token}

theorem writes_of_release {p : UInt32} {stack : List Pending} {written : List Token}
    (h : release t p stack written = .ok d) : Writes ⟨stack, written⟩ d := by
  induction stack generalizing written with
  | nil =>
    cases h
    exact .none
  | cons x stack ih =>
    cases x with
    | opening =>
      cases h
      exact .none
    | operator op =>
      cases hp : t.priority? op with
      | none =>
        rw [release, Priorities.priority_missing_iff.mpr hp] at h
        cases h
      | some q =>
        rw [release_operator hp] at h
        by_cases hle : p ≤ q
        · rw [if_pos hle] at h
          exact .operator (ih h)
        · rw [if_neg hle] at h
          cases h
          exact .none

theorem writes_of_closeGroup {stack : List Pending} {written : List Token}
    (h : closeGroup stack written = .ok d) :
    Writes ⟨stack, written⟩ ⟨.opening :: d.stack, d.written⟩ := by
  induction stack generalizing written with
  | nil => cases h
  | cons x stack ih =>
    cases x with
    | opening =>
      cases h
      exact .none
    | operator op => exact .operator (ih h)

/-- A step writes operators and then takes its token. -/
theorem exists_takes (h : c.step t token = .ok d) : ∃ e, Writes c e ∧ Takes token e d := by
  cases token with
  | number value =>
    cases h
    exact ⟨c, .none, .number⟩
  | opening =>
    cases h
    exact ⟨c, .none, .opening⟩
  | closing => exact ⟨_, writes_of_closeGroup h, .closing⟩
  | operator op =>
    cases hp : t.priority? op with
    | none =>
      rw [step_of_missing hp] at h
      cases h
    | some p =>
      rw [step, pushOperator_of_some hp] at h
      cases hrelease : release t p c.stack c.written with
      | error e =>
        rw [hrelease] at h
        cases h
      | ok e =>
        rw [hrelease] at h
        cases h
        exact ⟨e, writes_of_release hrelease, .operator⟩

theorem held_of_writes (h : Writes c d) : d.held.Perm c.held := by
  induction h with
  | none => rfl
  | operator _ ih => exact ih.trans List.perm_middle

theorem held_of_takes (h : Takes token c d) :
    d.held.Perm ([token].filter Token.isWritten ++ c.held) := by
  cases h with
  | number => exact List.perm_middle
  | operator | opening | closing => rfl

theorem held_of_step (h : c.step t token = .ok d) :
    d.held.Perm ([token].filter Token.isWritten ++ c.held) := by
  obtain ⟨e, hwrites, htakes⟩ := exists_takes h
  exact (held_of_takes htakes).trans ((held_of_writes hwrites).append_left _)

section Accounts

variable {read pending written : List (Token × Nat)} {k : Nat}

theorem accounted_start : Accounted [] start := by
  refine ⟨[], [], ?_⟩
  constructor
  · rfl
  · rfl
  · exact .nil
  · rfl
  · exact .nil

theorem Accounts.mem_read (h : Accounts read pending written c) {x : Token × Nat}
    (hx : x ∈ written) : x ∈ read := by
  have hfilter := h.once.mem_iff.mp (List.mem_append_right pending hx)
  exact (List.mem_filter.mp hfilter).1

theorem Accounts.write {op : Operator} {stack : List Pending} {out : List Token}
    (h : Accounts read pending written ⟨.operator op :: stack, out⟩) :
    Accounted read ⟨stack, .operator op :: out⟩ := by
  obtain ⟨x, rest, rfl, hx, hrest⟩ := List.map_eq_cons_iff.mp h.pending_eq
  have hnumber : x.1.isNumber = false := by
    rw [hx]
    rfl
  refine ⟨rest, x :: written, ?_⟩
  constructor
  · exact hrest
  · rw [List.map_cons, hx, h.written_eq]
    rfl
  · exact List.perm_middle.trans h.once
  · rw [List.filter_cons_of_neg (by simp [hnumber])]
    exact h.numbers
  · refine .cons ?_ h.order
    intro y _ _ hy
    rw [hnumber] at hy
    cases hy

theorem accounted_of_writes (h : Accounted read c) (hwrites : Writes c d) : Accounted read d := by
  induction hwrites with
  | none => exact h
  | operator _ ih =>
    obtain ⟨pending, written, h⟩ := h
    exact ih h.write

theorem accounted_of_takes (h : Accounted read c) (hk : ∀ x ∈ read, x.2 < k)
    (htakes : Takes token c d) : Accounted (read ++ [(token, k)]) d := by
  obtain ⟨pending, written, h⟩ := h
  cases htakes with
  | @number x stack out =>
    refine ⟨pending, (.number x, k) :: written, ?_⟩
    constructor
    · exact h.pending_eq
    · rw [List.map_cons, h.written_eq]
    · rw [List.filter_append]
      exact List.perm_middle.trans ((h.once.cons _).trans (List.perm_append_singleton _ _).symm)
    · rw [List.filter_append, List.filter_cons_of_pos rfl, List.reverse_cons, h.numbers]
      rfl
    · refine .cons ?_ h.order
      intro y hy _ _
      exact hk y (h.mem_read hy)
  | @operator op stack out =>
    refine ⟨(.operator op, k) :: pending, written, ?_⟩
    constructor
    · rw [List.map_cons, h.pending_eq]
      rfl
    · exact h.written_eq
    · rw [List.filter_append]
      exact (h.once.cons _).trans (List.perm_append_singleton _ _).symm
    · rw [List.filter_append, h.numbers]
      exact (List.append_nil _).symm
    · exact h.order
  | opening | closing =>
    refine ⟨pending, written, ?_⟩
    constructor
    · exact h.pending_eq
    · exact h.written_eq
    · rw [List.filter_append]
      exact (List.append_nil _).symm ▸ h.once
    · rw [List.filter_append, h.numbers]
      exact (List.append_nil _).symm
    · exact h.order

theorem accounted_of_run {r : Reading} {out : List Token} (hrun : (run t r c).1 = .ok out)
    (h : Accounted read c) (hk : ∀ x ∈ read, x.2 < k) :
    Accounted (read ++ r.tokens.zipIdx k) ⟨[], out.reverse⟩ := by
  induction r generalizing c read k with
  | fault => cases hrun
  | finished cursor =>
    rw [run] at hrun
    split at hrun
    next hend =>
      cases hrun
      obtain ⟨stack, out⟩ := c
      obtain rfl : stack = [] := hend
      simpa [Reading.tokens] using h
    next => cases hrun
  | token token cursor rest ih =>
    by_cases hne : c.stack = []
    · simp [run, hne] at hrun
    rw [run_of_turn hne] at hrun
    cases hstep : c.step t token with
    | error e => simp [hstep] at hrun
    | ok d =>
      rw [hstep] at hrun
      obtain ⟨e, hwrites, htakes⟩ := exists_takes hstep
      have hnext := accounted_of_takes (accounted_of_writes h hwrites) hk htakes
      have hlater : ∀ x ∈ read ++ [(token, k)], x.2 < k + 1 := by
        intro x hx
        rcases List.mem_append.mp hx with hx | hx
        · exact Nat.lt_succ_of_lt (hk x hx)
        · rw [List.mem_singleton.mp hx]
          exact Nat.lt_succ_self k
      rw [Reading.tokens, List.zipIdx_cons, List.append_cons]
      exact ih hrun hnext hlater

end Accounts

theorem exists_placed {s : List Char} {out : List Token} (h : (Postfix.ofText t s).1 = .ok out) :
    ∃ placed, Placed (Reading.ofText s).tokens out placed := by
  obtain ⟨pending, written, haccounts⟩ := accounted_of_run h accounted_start (k := 0) (by simp)
  rw [List.nil_append] at haccounts
  obtain rfl : pending = [] := List.map_eq_nil_iff.mp haccounts.pending_eq
  have hperm := (List.reverse_perm written).trans haccounts.once
  refine ⟨written.reverse, ?_⟩
  constructor
  · rw [List.map_reverse, haccounts.written_eq, List.reverse_reverse]
  · exact hperm
  · rw [List.filter_reverse]
    exact haccounts.numbers
  · intro front y back hsplit hy x hx hnumber hlt
    have horder := List.pairwise_reverse.mpr haccounts.order
    have hmem := hperm.mem_iff.mpr (List.mem_filter.mpr ⟨hx, Token.isWritten_of_isNumber hnumber⟩)
    rw [hsplit] at horder hmem
    rcases List.mem_append.mp hmem with hfront | hlast
    · exact hfront
    rcases List.mem_cons.mp hlast with rfl | hback
    · exact absurd hlt (Nat.lt_irrefl _)
    · have hafter := (List.pairwise_cons.mp (List.pairwise_append.mp horder).2.1).1 x hback hy hnumber
      exact absurd hlt (Nat.lt_asymm hafter)

theorem map_filter_zipIdx (p : Token → Bool) (tokens : List Token) :
    (tokens.zipIdx.filter fun x => p x.1).map Prod.fst = tokens.filter p := by
  have hmap := List.filter_map (p := p) (f := Prod.fst) (l := tokens.zipIdx)
  rw [List.zipIdx_map_fst] at hmap
  exact hmap.symm

theorem perm_of_ofText {s : List Char} {out : List Token}
    (h : (Postfix.ofText t s).1 = .ok out) :
    out.Perm ((Reading.ofText s).tokens.filter Token.isWritten) := by
  obtain ⟨placed, hplaced⟩ := exists_placed h
  rw [← hplaced.out_eq, ← map_filter_zipIdx]
  exact hplaced.once.map Prod.fst

/-- No token is lost, doubled or made up. The numbers keep their order, each operator is written as
often as it is read, and it comes after all the numbers that precede it in the text. -/
theorem ofText_conserves {s : List Char} {out : List Token}
    (h : (Postfix.ofText t s).1 = .ok out) :
    (∀ token ∈ out, token.isWritten) ∧
    out.filter Token.isNumber = (Reading.ofText s).tokens.filter Token.isNumber ∧
    (∀ op, out.count (.operator op) = (Reading.ofText s).tokens.count (.operator op)) ∧
    ∃ placed, Placed (Reading.ofText s).tokens out placed := by
  have hperm := perm_of_ofText h
  obtain ⟨placed, hplaced⟩ := exists_placed h
  refine ⟨?_, ?_, ?_, placed, hplaced⟩
  · intro token htoken
    exact (List.mem_filter.mp (hperm.mem_iff.mp htoken)).2
  · calc out.filter Token.isNumber
      _ = (placed.filter fun x => x.1.isNumber).map Prod.fst := by
        rw [← hplaced.out_eq, List.filter_map]
        rfl
      _ = (Reading.ofText s).tokens.filter Token.isNumber := by
        rw [hplaced.numbers, map_filter_zipIdx]
  · intro op
    rw [hperm.count_eq, List.count_filter rfl]

theorem ofText_conserves_loose :
    (Postfix.ofText .standard "(1+2*3)4-^)".toList).1 = .ok [.number 1, .number 2, .number 3,
      .operator .times, .operator .plus, .number 4, .operator .power, .operator .minus] ∧
    ∃ placed, Placed (Reading.ofText "(1+2*3)4-^)".toList).tokens [.number 1, .number 2, .number 3,
      .operator .times, .operator .plus, .number 4, .operator .power, .operator .minus] placed := by
  have hout : (Postfix.ofText .standard "(1+2*3)4-^)".toList).1 = .ok [.number 1, .number 2,
      .number 3, .operator .times, .operator .plus, .number 4, .operator .power,
      .operator .minus] := by decide +kernel
  exact ⟨hout, (ofText_conserves hout).2.2.2⟩

end Conversion

end PostfixCalculator
