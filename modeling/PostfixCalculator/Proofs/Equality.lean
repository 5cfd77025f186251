import PostfixCalculator.Proofs.Operands
import PostfixCalculator.Proofs.Pattern

/-! Trees that are equal by their postfix orders.

A postfix order read from its end is an operator and then the orders of its right and left operands,
so two of them are compared operand by operand, whatever stands before them. The comparison of two
numbers looks at their patterns, only that it finds no difference between the two zeros and nothing
equal to what is no number. -/
namespace PostfixCalculator

namespace Binary64

open Float.Model (UnpackedFloat)
open Float.Model.UnpackedFloat (Sign)

theorem compare_sign_iff (s t : Sign) : compare s t = .eq ↔ s = t := by
  cases s <;> cases t <;> simp [compare]

theorem compare_unpacked_iff {u v : UnpackedFloat} : u.compare v = some .eq ↔
    u ≠ .notANumber ∧ v ≠ .notANumber ∧ (u = v ∨ (∃ s, u = .zero s) ∧ ∃ s, v = .zero s) := by
  cases u with
  | notANumber => simp [UnpackedFloat.compare]
  | infinity s => cases v <;> cases s <;> simp [UnpackedFloat.compare, compare_sign_iff]
  | zero s =>
    cases v with
    | notANumber | zero => simp [UnpackedFloat.compare]
    | infinity t | finite t => cases t <;> simp [UnpackedFloat.compare]
  | finite s =>
    cases v with
    | notANumber => simp [UnpackedFloat.compare]
    | zero => cases s <;> simp [UnpackedFloat.compare]
    | infinity t => cases t <;> simp [UnpackedFloat.compare]
    | finite t => cases s <;> cases t <;> simp [UnpackedFloat.compare, Ordering.then_eq_eq, and_comm]

theorem pack_unpack_toModel (x : Float) : ⟨.pack x.toModel.unpack⟩ = x := by
  obtain ⟨⟨bits, hvalid⟩⟩ := x
  have hpack := pack_unpack hvalid
  simp [Float.Model.pack, Float.Model.unpack, hpack]

theorem unpack_injective {x y : Float} (h : x.toModel.unpack = y.toModel.unpack) : x = y := by
  rw [← pack_unpack_toModel x, h, pack_unpack_toModel]

theorem isNaN_iff {x : Float} : x.isNaN ↔ x.toModel.unpack = .notANumber := by
  change x.toModel.unpack.isNaN ↔ _
  cases x.toModel.unpack <;> simp [UnpackedFloat.isNaN]

def IsZero (x : Float) : Prop := x = .ofBits 0 ∨ x = .ofBits 0x8000000000000000

theorem unpack_zero_iff {x : Float} : (∃ s, x.toModel.unpack = .zero s) ↔ IsZero x := by
  constructor
  · rintro ⟨s, hs⟩
    have hx := pack_unpack_toModel x
    rw [hs] at hx
    cases s with
    | positive => exact Or.inl (hx.symm.trans (by decide))
    | negative => exact Or.inr (hx.symm.trans (by decide))
  · rintro (rfl | rfl)
    · exact ⟨.positive, rfl⟩
    · exact ⟨.negative, rfl⟩

/-- The number, without its sign if it is negative zero. -/
def plainZero (x : Float) : Float := if x = .ofBits 0x8000000000000000 then .ofBits 0 else x

theorem plainZero_of_isZero {x : Float} (h : IsZero x) : plainZero x = .ofBits 0 := by
  rcases h with rfl | rfl <;> decide

theorem plainZero_of_not_isZero {x : Float} (h : ¬ IsZero x) : plainZero x = x :=
  if_neg fun hx => h (Or.inr hx)

theorem plainZero_eq_zero_iff {x : Float} : plainZero x = .ofBits 0 ↔ IsZero x := by
  by_cases hx : IsZero x
  · simp [plainZero_of_isZero hx, hx]
  · rw [plainZero_of_not_isZero hx]
    exact ⟨Or.inl, fun h => absurd h hx⟩

theorem plainZero_eq_iff {x y : Float} :
    plainZero x = plainZero y ↔ x = y ∨ IsZero x ∧ IsZero y := by
  by_cases hx : IsZero x
  · rw [plainZero_of_isZero hx, eq_comm, plainZero_eq_zero_iff]
    constructor
    · exact fun hy => Or.inr ⟨hx, hy⟩
    · rintro (rfl | ⟨-, hy⟩)
      · exact hx
      · exact hy
  · by_cases hy : IsZero y
    · rw [plainZero_of_isZero hy, plainZero_eq_zero_iff]
      constructor
      · exact fun h => absurd h hx
      · rintro (rfl | ⟨h, -⟩)
        · exact hy
        · exact h
    · simp [plainZero_of_not_isZero hx, plainZero_of_not_isZero hy, hx]

theorem beq_iff {x y : Float} :
    x == y ↔ x.isNaN = false ∧ y.isNaN = false ∧ plainZero x = plainZero y := by
  have hcompare : x == y ↔ x.toModel.unpack.compare y.toModel.unpack = some .eq := by
    change (x.toModel.unpack.compare y.toModel.unpack == some .eq) = true ↔ _
    exact beq_iff_eq
  have hunpack : x.toModel.unpack = y.toModel.unpack ↔ x = y :=
    ⟨unpack_injective, fun h => by rw [h]⟩
  rw [hcompare, compare_unpacked_iff, plainZero_eq_iff, hunpack, unpack_zero_iff, unpack_zero_iff,
    ← Bool.not_eq_true, ← Bool.not_eq_true, isNaN_iff, isNaN_iff]

end Binary64

open Binary64 (plainZero)

theorem isEqv_concat {α : Type} (eqv : α → α → Bool) (as bs : List α) (a b : α) :
    (as ++ [a]).isEqv (bs ++ [b]) eqv = (as.isEqv bs eqv && eqv a b) := by
  induction as generalizing bs with
  | nil =>
    cases bs with
    | nil => simp [List.isEqv]
    | cons c bs => cases bs <;> simp [List.isEqv]
  | cons c as ih =>
    cases bs with
    | nil => cases as <;> simp [List.isEqv]
    | cons d bs => simp [List.isEqv, ih, Bool.and_assoc]

namespace Tree

def map (f : Float → Float) : Tree → Tree
  | .leaf x => .leaf (f x)
  | .node op l r => .node op (l.map f) (r.map f)

theorem append_inPostfix_node (as : List Token) (op : Operator) (l r : Tree) :
    as ++ (node op l r).inPostfix = as ++ l.inPostfix ++ r.inPostfix ++ [.operator op] := by
  simp [inPostfix]

/-- What is compared last are the trees themselves, and what is before them does not matter. -/
theorem isEqv_append_inPostfix (t u : Tree) (as bs : List Token) :
    (as ++ t.inPostfix).isEqv (bs ++ u.inPostfix) Token.same =
      (as.isEqv bs Token.same && t.alike u) := by
  induction t generalizing u as bs with
  | leaf x =>
    cases u with
    | leaf y => exact isEqv_concat ..
    | node op l r =>
      rw [append_inPostfix_node, inPostfix, isEqv_concat]
      simp [Token.same, alike]
  | node op l r ihl ihr =>
    cases u with
    | leaf y =>
      rw [append_inPostfix_node, inPostfix, isEqv_concat]
      simp [Token.same, alike]
    | node op' l' r' =>
      rw [append_inPostfix_node, append_inPostfix_node, isEqv_concat, ihr, ihl, Token.same, alike]
      ac_rfl

theorem same_eq_alike (t u : Tree) : t.same u = t.alike u := by
  have happend := isEqv_append_inPostfix t u [] []
  rw [List.nil_append, List.nil_append, ← postfixOrder_eq, ← postfixOrder_eq] at happend
  exact happend

theorem alike_iff (t u : Tree) : t.alike u ↔
    (∀ x ∈ t.leaves ++ u.leaves, x.isNaN = false) ∧ t.map plainZero = u.map plainZero := by
  induction t generalizing u with
  | leaf x =>
    cases u with
    | leaf y => simp [alike, leaves, map, Binary64.beq_iff, and_assoc]
    | node op l r => simp [alike, map]
  | node op l r ihl ihr =>
    cases u with
    | leaf y => simp [alike, map]
    | node op' l' r' =>
      simp only [alike, leaves, map, Bool.and_eq_true, decide_eq_true_eq, ihl, ihr, node.injEq,
        List.forall_mem_append]
      tauto

/-- Comparing the postfix orders is comparing the trees: the shapes, the operators and the numbers
in the leaves. So trees are equal if they are the same once negative zeros are replaced by zeros,
unless a leaf of theirs is no number. Such a tree is not even equal to itself. -/
theorem same_structural (t u : Tree) :
    t.same u = t.alike u ∧
    (t.same u ↔ (∀ x ∈ t.leaves ++ u.leaves, x.isNaN = false) ∧
      t.map plainZero = u.map plainZero) ∧
    (t.same t ↔ ∀ x ∈ t.leaves, x.isNaN = false) := by
  refine ⟨same_eq_alike t u, ?_, ?_⟩
  · rw [same_eq_alike]
    exact alike_iff t u
  · rw [same_eq_alike, alike_iff]
    simp

example : (node .plus (.leaf 0) (.leaf 1)).same (node .plus (.leaf (-0)) (.leaf 1)) := by
  decide +kernel

end Tree

end PostfixCalculator
