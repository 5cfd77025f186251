import PostfixCalculator.Proofs.Equality
import PostfixCalculator.Proofs.Fields
import PostfixCalculator.Proofs.Memory
import PostfixCalculator.Proofs.Words

/-! The numbers in the leaves of a parsed tree.

A sign is never read as a part of a number, so no leaf has one, and what is no number is not read at
all. Hence a parsed tree is equal to its copy, which trees in general are not, and in its postfix
text a minus sign is an operator. -/
namespace PostfixCalculator

namespace Binary64

theorem isNaN_iff_magnitude {x : Float} : x.isNaN ↔ infinity < magnitude x := by
  constructor
  · intro h
    rw [isNaN_iff] at h
    rw [← pack_unpack_toModel x, h]
    decide
  · intro h
    rw [eq_of_infinity_lt h]
    decide

/-- The float is a number without a sign, infinity included. -/
structure IsMagnitude (x : Float) : Prop where
  isNumber : x.isNaN = false
  unsigned : isNegative x = false

theorem isMagnitude_ofDecimal (d : Decimal) : IsMagnitude (ofDecimal d) := by
  have hle : nearest d ≤ infinity := nearest_le d
  have hbits : (ofDecimal d).toBits.toNat = nearest d := toBits_ofBits hle
  have hlt : infinity < signBit := by decide
  constructor
  · rw [← Bool.not_eq_true, isNaN_iff_magnitude, magnitude, hbits, Nat.mod_eq_of_lt (by omega)]
    omega
  · rw [isNegative, hbits]
    exact decide_eq_false (by omega)

example : ofDecimal ⟨1, 309⟩ = .ofBits 0x7FF0000000000000 := by decide +kernel

end Binary64

open Binary64 (IsMagnitude)

theorem Reading.Reads.isMagnitude {s : List Char} {ts : List Token} {e : Option ParseError}
    (h : Reads s ts e) {x : Float} (hx : .number x ∈ ts) : IsMagnitude x := by
  induction h with
  | finished | malformed | stray => cases hx
  | blank _ _ ih => exact ih hx
  | symbol hc _ ih =>
    rcases List.mem_cons.mp hx with rfl | hx
    · rcases Token.ofChar?_cases hc with ⟨-, h⟩ | ⟨-, h⟩ | ⟨op, -, h⟩ <;> cases h
    · exact ih hx
  | number _ hy _ _ ih =>
    rcases List.mem_cons.mp hx with hxy | hx
    · obtain ⟨-, rfl⟩ := Numeral.value?_eq_some_iff.mp hy
      cases hxy
      exact Binary64.isMagnitude_ofDecimal _
    · exact ih hx

namespace Tree

variable {tree : Tree} {x : Float}

theorem number_mem_inPostfix_iff : .number x ∈ tree.inPostfix ↔ x ∈ tree.leaves := by
  induction tree with
  | leaf y => simp [inPostfix, leaves]
  | node op l r ihl ihr => simp [inPostfix, leaves, ihl, ihr]

def Unsigned (tree : Tree) : Prop := ∀ x ∈ tree.leaves, IsMagnitude x

theorem Unsigned.same_copy (h : tree.Unsigned) : tree.same tree.copy := by
  rw [copy_eq, same_eq_alike, alike_iff]
  refine ⟨?_, rfl⟩
  intro x hx
  have hleaf : x ∈ tree.leaves := by simpa using hx
  exact (h x hleaf).isNumber

end Tree

namespace Postfix

/-- What stands between the spaces of a postfix text for a token. With a minus sign at its front it
is the operator. -/
structure Stands (field : List Char) (token : Token) : Prop where
  text : field = token.text.toList
  minus : field.head? = some '-' → token = .operator .minus

theorem stands_text {token : Token} (h : ∀ x, token = .number x → IsMagnitude x) :
    Stands token.text.toList token where
  text := rfl
  minus hminus := by
    cases token with
    | operator op => cases op <;> first | rfl | cases hminus
    | opening | closing => cases hminus
    | number x =>
      have hx := h x rfl
      rw [Token.text, String.toList_ofList] at hminus
      rcases Layout.number_cases x with ⟨rfl, -⟩ | ⟨-, hnumber⟩
      · cases hx.isNumber
      · obtain ⟨c, s, hbegin, hc⟩ := Layout.unsigned_begin (Binary64.magnitude x)
        rw [hnumber, hx.unsigned, hbegin] at hminus
        cases hminus
        simp at hc

theorem forall₂_stands {tree : Tree} (h : tree.Unsigned) :
    List.Forall₂ Stands ((text tree.inPostfix).toList.splitOn ' ') tree.inPostfix := by
  rw [splitOn_text tree.inPostfix_ne_nil, List.forall₂_map_left_iff, List.forall₂_same]
  intro token htoken
  apply stands_text
  rintro x rfl
  exact h x (Tree.number_mem_inPostfix_iff.mp htoken)

end Postfix

namespace Session

variable {session : Session}

/-- The tree that is held, if there is one, has numbers without a sign in its leaves. -/
def HoldsUnsigned (session : Session) : Prop := ∀ tree, session.tree = some tree → tree.Unsigned

theorem holdsUnsigned_parse (session : Session) (e : String) :
    (session.parse e).2.HoldsUnsigned := by
  intro tree htree x hx
  rcases session.parse_cases e with ⟨u, hparse⟩ | ⟨error, hparse⟩
  · rw [hparse] at htree
    cases htree
    have hconverted := (parse_ok_iff.mp hparse).1
    have hmem := (Conversion.perm_of_ofText hconverted).mem_iff.mp
      (Tree.number_mem_inPostfix_iff.mpr hx)
    exact (Reading.reads_iff.mpr ⟨rfl, rfl⟩).isMagnitude (List.mem_filter.mp hmem).1
  · rw [hparse] at htree
    cases htree

theorem HoldsUnsigned.call (h : session.HoldsUnsigned) (c : Call) :
    (session.call c).2.HoldsUnsigned := by
  cases c with
  | parse e => exact holdsUnsigned_parse session e
  | copy kept =>
    rw [Session.call, copy_eq, ite_self]
    exact h
  | solve | drawing | tree | table => exact h

theorem holdsUnsigned_run (t : Priorities) (calls : List Call) :
    ((start t).run calls).HoldsUnsigned := by
  induction calls using List.reverseRecOn with
  | nil => nofun
  | append_singleton calls c ih =>
    rw [run_concat]
    exact ih.call c

/-- A tree that is held has numbers without a sign in its leaves, so it is equal to its copy. In a
text that is returned each field stands for a token of the tree, and one that begins with a minus
sign is the operator. -/
theorem run_unsigned (t : Priorities) (calls : List Call) :
    let s := (start t).run calls
    (∀ tree, s.tree = some tree → tree.Unsigned ∧ tree.same tree.copy) ∧
      ∀ e text, (s.parse e).1 = .ok text → ∃ tree, (s.parse e).2.tree = some tree ∧
        List.Forall₂ Postfix.Stands (text.toList.splitOn ' ') tree.postfixOrder := by
  intro s
  constructor
  · intro tree htree
    have hunsigned : tree.Unsigned := holdsUnsigned_run t calls tree htree
    exact ⟨hunsigned, hunsigned.same_copy⟩
  · intro e text htext
    obtain ⟨tree, rfl, hparse⟩ := tree_of_parse htext
    have htree : (s.parse e).2.tree = some tree := by rw [hparse]
    refine ⟨tree, htree, ?_⟩
    rw [tree.postfixOrder_eq]
    exact Postfix.forall₂_stands (holdsUnsigned_parse s e tree htree)

end Session

end PostfixCalculator
