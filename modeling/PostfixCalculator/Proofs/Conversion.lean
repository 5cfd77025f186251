import PostfixCalculator.Postfix
import PostfixCalculator.Proofs.Reading

/-! The stack of a conversion.

A conversion keeps its pending operators in groups, each above the parenthesis that opened it. In
such a stack every operator can be looked up and every parenthesis can be closed, so only what is
read next decides how the conversion goes on. -/
namespace PostfixCalculator

namespace Pending

def token : Pending → Token
  | .operator op => .operator op
  | .opening => .opening

/-- The operators that are written before one of priority `p` is put on top of them. -/
def yields (t : Priorities) (p : Nat) : Pending → Bool
  | .operator op => p ≤ t.rank op
  | .opening => false

def isOperator : Pending → Bool
  | .operator _ => true
  | .opening => false

end Pending

/-- The effect of a token on the number of open groups. -/
def Token.weight : Token → Int
  | .opening => 1
  | .closing => -1
  | _ => 0

namespace Conversion

/-- A stack of groups: every operator has a priority and stands above a parenthesis, and within a
group those that stand higher bind tighter. -/
inductive Stacked (t : Priorities) : List Pending → Prop where
  | empty : Stacked t []
  | opening {stack} : Stacked t stack → Stacked t (.opening :: stack)
  | first {op stack} : t.priority? op ≠ none → Stacked t (.opening :: stack) →
      Stacked t (.operator op :: .opening :: stack)
  | tighter {op q stack} : t.priority? op ≠ none → t.rank q < t.rank op →
      Stacked t (.operator q :: stack) → Stacked t (.operator op :: .operator q :: stack)

variable {t : Priorities}

namespace Stacked

theorem tail {x : Pending} {stack : List Pending} (h : Stacked t (x :: stack)) :
    Stacked t stack := by
  cases h with
  | opening h => exact h
  | first _ h => exact h
  | tighter _ _ h => exact h

theorem of_suffix {stack below : List Pending} (h : Stacked t stack) (hs : below <:+ stack) :
    Stacked t below := by
  obtain ⟨above, rfl⟩ := hs
  induction above with
  | nil => exact h
  | cons x above ih => exact ih h.tail

theorem priority {stack : List Pending} (h : Stacked t stack) {op : Operator}
    (ho : .operator op ∈ stack) : t.priority? op ≠ none := by
  induction h with
  | empty => cases ho
  | opening _ ih => exact ih (by simpa using ho)
  | first hp _ ih =>
    rcases List.mem_cons.mp ho with he | ho
    · cases he
      exact hp
    · exact ih ho
  | tighter hp _ _ ih =>
    rcases List.mem_cons.mp ho with he | ho
    · cases he
      exact hp
    · exact ih ho

theorem opening_mem {stack : List Pending} (h : Stacked t stack) (hne : stack ≠ []) :
    .opening ∈ stack := by
  induction h with
  | empty => exact absurd rfl hne
  | opening => simp
  | first => simp
  | tighter _ _ _ ih => exact List.mem_cons_of_mem _ (ih (by simp))

theorem count_pos {stack : List Pending} (h : Stacked t stack) (hne : stack ≠ []) :
    0 < stack.count .opening :=
  List.count_pos_iff.mpr (h.opening_mem hne)

theorem push {stack : List Pending} {op : Operator} (h : Stacked t stack) (hne : stack ≠ [])
    (hp : t.priority? op ≠ none)
    (htop : ∀ x, stack.head? = some x → x.yields t (t.rank op) = false) :
    Stacked t (.operator op :: stack) := by
  cases stack with
  | nil => exact absurd rfl hne
  | cons x stack =>
    cases x with
    | opening => exact .first hp h
    | operator q =>
      have hq := htop _ rfl
      simp only [Pending.yields, decide_eq_false_iff_not, Nat.not_le] at hq
      exact .tighter hp hq h

end Stacked

theorem release_operator {op : Operator} {q : UInt32} (h : t.priority? op = some q) (p : UInt32)
    (stack : List Pending) (written : List Token) :
    release t p (.operator op :: stack) written =
      if p ≤ q then release t p stack (.operator op :: written)
      else .ok ⟨.operator op :: stack, written⟩ := by
  rw [release, Priorities.priority_ok_iff.mpr h]
  rfl

theorem release_eq {stack : List Pending} (h : Stacked t stack) (p : UInt32)
    (written : List Token) :
    release t p stack written = .ok ⟨stack.dropWhile (Pending.yields t p.toNat),
      ((stack.takeWhile (Pending.yields t p.toNat)).map Pending.token).reverse ++ written⟩ := by
  induction stack generalizing written with
  | nil => rfl
  | cons x stack ih =>
    cases x with
    | opening => rfl
    | operator op =>
      have hop : t.priority? op ≠ none := h.priority List.mem_cons_self
      obtain ⟨q, hq⟩ := Option.ne_none_iff_exists'.mp hop
      have hyields : Pending.yields t p.toNat (.operator op) = decide (p ≤ q) := by
        simp [Pending.yields, Priorities.rank_of_some hq, UInt32.le_iff_toNat_le]
      rw [release_operator hq]
      by_cases hle : p ≤ q
      · simp [hle, hyields, ih h.tail, Pending.token]
      · simp [hle, hyields]

theorem closeGroup_eq {stack : List Pending} (h : .opening ∈ stack) (written : List Token) :
    closeGroup stack written = .ok ⟨(stack.dropWhile Pending.isOperator).tail,
      ((stack.takeWhile Pending.isOperator).map Pending.token).reverse ++ written⟩ := by
  induction stack generalizing written with
  | nil => cases h
  | cons x stack ih =>
    cases x with
    | opening => rfl
    | operator op =>
      have hop : Pending.isOperator (.operator op) = true := rfl
      simp [closeGroup, hop, Pending.token, ih (by simpa using h)]

theorem pushOperator_of_some {op : Operator} {p : UInt32} (h : t.priority? op = some p)
    (c : Conversion) : c.pushOperator t op =
      (release t p c.stack c.written).map fun d => ⟨.operator op :: d.stack, d.written⟩ := by
  rw [pushOperator, Priorities.priority_ok_iff.mpr h]
  change (do
    let d ← release t p c.stack c.written
    return (⟨.operator op :: d.stack, d.written⟩ : Conversion)) = _
  cases release t p c.stack c.written <;> rfl

theorem pushOperator_eq {c : Conversion} (h : Stacked t c.stack) {op : Operator}
    (hp : t.priority? op ≠ none) :
    c.pushOperator t op = .ok ⟨.operator op :: c.stack.dropWhile (Pending.yields t (t.rank op)),
      ((c.stack.takeWhile (Pending.yields t (t.rank op))).map Pending.token).reverse ++
        c.written⟩ := by
  obtain ⟨p, hp⟩ := Option.ne_none_iff_exists'.mp hp
  rw [pushOperator_of_some hp, release_eq h, Priorities.rank_of_some hp]
  rfl

theorem count_dropWhile {p : Pending → Bool} (hp : p .opening = false) (stack : List Pending) :
    (stack.dropWhile p).count .opening = stack.count .opening := by
  induction stack with
  | nil => rfl
  | cons x stack ih =>
    by_cases hx : p x
    · have hne : x ≠ .opening := by
        rintro rfl
        simp [hp] at hx
      simp [hx, ih, hne]
    · simp [hx]

theorem exists_dropWhile_isOperator {stack : List Pending} (h : .opening ∈ stack) :
    ∃ below, stack.dropWhile Pending.isOperator = .opening :: below := by
  induction stack with
  | nil => cases h
  | cons x stack ih =>
    cases x with
    | opening => exact ⟨stack, rfl⟩
    | operator op => exact ih (by simpa using h)

theorem step_of_stacked {c : Conversion} (h : Stacked t c.stack) (hne : c.stack ≠ [])
    {token : Token} (hp : ∀ op, token = .operator op → t.priority? op ≠ none) :
    ∃ c', c.step t token = .ok c' ∧ Stacked t c'.stack ∧
      (c'.stack.count .opening : Int) = c.stack.count .opening + token.weight := by
  have hmem := h.opening_mem hne
  cases token with
  | number value => exact ⟨_, rfl, h, by simp [Token.weight]⟩
  | opening => exact ⟨_, rfl, .opening h, by simp [Token.weight]⟩
  | closing =>
    refine ⟨_, closeGroup_eq hmem _, ?_, ?_⟩
    · exact h.of_suffix ((List.tail_suffix _).trans (List.dropWhile_suffix _))
    · obtain ⟨below, hbelow⟩ := exists_dropWhile_isOperator hmem
      have hcount := count_dropWhile (p := Pending.isOperator) rfl c.stack
      rw [hbelow, List.count_cons_self] at hcount
      simp only [hbelow, List.tail_cons, Token.weight]
      omega
  | operator op =>
    have hop := hp op rfl
    have hcount := count_dropWhile (p := Pending.yields t (t.rank op)) rfl c.stack
    refine ⟨_, by rw [step, pushOperator_eq h hop]; rfl, ?_, by simp [Token.weight, hcount]⟩
    refine (h.of_suffix (List.dropWhile_suffix _)).push ?_ hop ?_
    · intro hnil
      have hpos := h.count_pos hne
      simp [← hcount, hnil] at hpos
    · intro x hx
      have hhead := List.head?_dropWhile_not (Pending.yields t (t.rank op)) c.stack
      rw [hx] at hhead
      exact hhead

theorem step_of_missing {c : Conversion} {op : Operator} (h : t.priority? op = none) :
    c.step t (.operator op) = .error (.table (.missing op)) := by
  rw [step, pushOperator, Priorities.priority_missing_iff.mpr h]
  rfl

theorem priority_of_step {c c' : Conversion} {token : Token} (hstep : c.step t token = .ok c') :
    ∀ op, token = .operator op → t.priority? op ≠ none := by
  rintro op rfl hmissing
  rw [step_of_missing hmissing] at hstep
  cases hstep

theorem stacked_of_step {c c' : Conversion} {token : Token} (h : Stacked t c.stack)
    (hne : c.stack ≠ []) (hstep : c.step t token = .ok c') : Stacked t c'.stack := by
  obtain ⟨d, hd, hstacked, _⟩ := step_of_stacked h hne (priority_of_step hstep)
  rw [hd] at hstep
  cases hstep
  exact hstacked

theorem count_of_step {c c' : Conversion} {token : Token} (h : Stacked t c.stack)
    (hne : c.stack ≠ []) (hstep : c.step t token = .ok c') :
    (c'.stack.count .opening : Int) = c.stack.count .opening + token.weight := by
  obtain ⟨d, hd, _, hcount⟩ := step_of_stacked h hne (priority_of_step hstep)
  rw [hd] at hstep
  cases hstep
  exact hcount

/-- What the conversion of a text comes by: what is still to be read, and the conversion so far. -/
inductive Reached (t : Priorities) (s : List Char) : Reading → Conversion → Prop where
  | start : Reached t s (.ofText s) .start
  | turn {token cursor rest c c'} : Reached t s (.token token cursor rest) c → c.stack ≠ [] →
      c.step t token = .ok c' → Reached t s rest c'

theorem run_of_turn {token : Token} {cursor : Nat} {rest : Reading} {c : Conversion}
    (hne : c.stack ≠ []) : run t (.token token cursor rest) c =
      match c.step t token with
      | .ok c' => run t rest c'
      | .error e => (.error e, cursor) := by
  rw [run]
  split
  · contradiction
  · rfl

theorem run_of_reached {s : List Char} {r : Reading} {c : Conversion} (h : Reached t s r c) :
    run t r c = Postfix.ofText t s := by
  induction h with
  | start => rfl
  | turn _ hne hstep ih => rw [← ih, run_of_turn hne, hstep]

theorem stacked_of_reached {s : List Char} {r : Reading} {c : Conversion} (h : Reached t s r c) :
    Stacked t c.stack := by
  induction h with
  | start => exact .opening .empty
  | turn _ hne hstep ih => exact stacked_of_step ih hne hstep

end Conversion

end PostfixCalculator
