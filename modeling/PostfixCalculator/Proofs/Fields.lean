import PostfixCalculator.Proofs.Conservation
import PostfixCalculator.Proofs.Numerals
import PostfixCalculator.Proofs.Parsing

/-! The text of a postfix expression gives its tokens back, and these give its tree.

No token has a space in its text, so the text is cut where it was joined. A minus sign by itself is
an operator, and before digits it is a sign. -/
namespace PostfixCalculator

namespace Binary64

def signed (negative : Bool) (b : Nat) : Float :=
  Float.ofBits (UInt64.ofNat (if negative then signBit + b else b))

theorem signed_magnitude (x : Float) : signed (isNegative x) (magnitude x) = x := by
  have hlt : x.toBits.toNat < 2 ^ 64 := x.toBits.toNat_lt
  have hparts : (if isNegative x then signBit + magnitude x else magnitude x) =
      x.toBits.toNat := by
    by_cases hsign : signBit ≤ x.toBits.toNat
    · rw [isNegative, if_pos (decide_eq_true hsign), magnitude]
      simp only [signBit] at hsign ⊢
      omega
    · rw [isNegative, if_neg (by simpa using hsign), magnitude, Nat.mod_eq_of_lt (by omega)]
  rw [signed, hparts, UInt64.ofNat_toNat, ofBits_toBits]

end Binary64

namespace Field

def magnitude? (s : List Char) : Option Nat :=
  if s = ['i', 'n', 'f'] then some Binary64.infinity
  else if s.head?.any Char.isDigit && s.all Numeral.isMember &&
      s.countP Numeral.isSeparator ≤ 1 then
    some (Binary64.nearest (Numeral.decimal s))
  else none

def number? (s : List Char) : Option Float :=
  if s = ['N', 'a', 'N'] then some Tree.undefined
  else if s.head? = some '-' then (magnitude? s.tail).map (Binary64.signed true)
  else (magnitude? s).map (Binary64.signed false)

/-- A field is the symbol of an operator or the text of a number. -/
def token? (s : List Char) : Option Token :=
  match Operator.ofSymbol? (String.ofList s) with
  | some op => some (.operator op)
  | none => (number? s).map .number

end Field

/-- The tokens that a text has between its spaces. -/
def Postfix.read? (text : String) : Option (List Token) :=
  (text.toList.splitOn ' ').mapM Field.token?

namespace Layout

theorem magnitude?_unsigned {b : Nat} (h : b ≤ Binary64.infinity) :
    Field.magnitude? (unsigned b) = some b := by
  by_cases hinfinity : b = Binary64.infinity
  · rw [hinfinity]
    rfl
  have hplain := plain_spread (Binary64.shortest b)
  obtain ⟨⟨c, hhead, hdigit⟩, hmember⟩ := hplain.isRun
  have hinf : plain.spread (Binary64.shortest b) ≠ ['i', 'n', 'f'] := by
    intro hinf
    rw [hinf] at hhead
    cases hhead
    cases hdigit
  have hnearest : Binary64.nearest (Numeral.decimal (plain.spread (Binary64.shortest b))) = b := by
    rw [Binary64.nearest_congr (toRat_decimal_spread _),
      Binary64.nearest_shortest (Nat.lt_of_le_of_ne h hinfinity)]
  rw [unsigned, if_neg hinfinity, Field.magnitude?, if_neg hinf, if_pos, hnearest]
  simpa [hhead, hdigit, hplain.countP_le] using hmember

theorem number?_number (x : Float) : Field.number? (plain.number x) = some x := by
  rcases number_cases x with ⟨rfl, hnumber⟩ | ⟨hle, hnumber⟩
  · rw [hnumber]
    rfl
  have hread := magnitude?_unsigned hle
  have hsigned := Binary64.signed_magnitude x
  obtain ⟨c, s, hbegin, hc⟩ := unsigned_begin (Binary64.magnitude x)
  rw [hnumber]
  cases hsign : Binary64.isNegative x with
  | true =>
    rw [hsign] at hsigned
    simp [Field.number?, hread, hsigned]
  | false =>
    have hletter : c ≠ 'N' := by
      rintro rfl
      simp at hc
    have hminus : c ≠ '-' := by
      rintro rfl
      simp at hc
    rw [hsign] at hsigned
    rw [hbegin] at hread ⊢
    simp [Field.number?, hletter, hminus, hread, hsigned]

theorem ofSymbol?_number (x : Float) :
    Operator.ofSymbol? (String.ofList (plain.number x)) = none := by
  rcases number_cases x with ⟨-, hnumber⟩ | ⟨-, hnumber⟩
  · rw [hnumber]
    rfl
  obtain ⟨c, s, hbegin, hc⟩ := unsigned_begin (Binary64.magnitude x)
  rw [hnumber, hbegin, Operator.ofSymbol?, String.toList_ofList]
  cases Binary64.isNegative x with
  | true => rfl
  | false =>
    cases s with
    | cons d s => rfl
    | nil =>
      change Operator.ofChar? c = none
      by_contra hop
      obtain ⟨op, hop⟩ := Option.ne_none_iff_exists'.mp hop
      rw [← Operator.symbol_of_ofChar? hop] at hc
      cases op <;> simp [Operator.symbol] at hc

theorem not_mem_number {c : Char} (hmember : Numeral.isMember c = false)
    (hword : c ∉ ['-', 'i', 'n', 'f', 'N', 'a']) (x : Float) : c ∉ plain.number x := by
  have hwords {s : List Char} (hs : s ⊆ ['-', 'i', 'n', 'f', 'N', 'a']) : c ∉ s :=
    fun hc => hword (hs hc)
  have hunsigned : c ∉ unsigned (Binary64.magnitude x) := by
    rcases unsigned_cases (Binary64.magnitude x) with hinf | hplain
    · rw [hinf]
      exact hwords (by decide)
    · intro hc
      simp [hplain.isMember c hc] at hmember
  rcases number_cases x with ⟨-, hnumber⟩ | ⟨-, hnumber⟩
  · rw [hnumber]
    exact hwords (by decide)
  · rw [hnumber, List.mem_append, not_or]
    refine ⟨?_, hunsigned⟩
    split
    · exact hwords (by decide)
    · exact List.not_mem_nil

end Layout

namespace Token

variable {token : Token}

theorem token?_text (h : token.isWritten) : Field.token? token.text.toList = some token := by
  cases token with
  | number x =>
    rw [text, String.toList_ofList, Field.token?, Layout.ofSymbol?_number]
    simp [Layout.number?_number]
  | operator op => cases op <;> decide
  | opening | closing => cases h

theorem not_mem_text {c : Char} (hmember : Numeral.isMember c = false)
    (hword : c ∉ ['-', 'i', 'n', 'f', 'N', 'a']) (hsymbol : ofChar? c = none) (token : Token) :
    c ∉ token.text.toList := by
  have hsymbols {d : Char} (hd : ofChar? d ≠ none) : c ∉ [d] := by
    intro hc
    rw [List.mem_singleton.mp hc] at hsymbol
    exact hd hsymbol
  cases token with
  | number x =>
    rw [text, String.toList_ofList]
    exact Layout.not_mem_number hmember hword x
  | operator op => cases op <;> exact hsymbols (by decide)
  | opening | closing => exact hsymbols (by decide)

end Token

namespace Postfix

theorem mapM_token? {tokens : List Token} (h : ∀ token ∈ tokens, token.isWritten) :
    (tokens.map (·.text.toList)).mapM Field.token? = some tokens := by
  induction tokens with
  | nil => rfl
  | cons token tokens ih =>
    obtain ⟨hfirst, hrest⟩ := List.forall_mem_cons.mp h
    rw [List.map_cons, List.mapM_cons, Token.token?_text hfirst, ih hrest]
    rfl

theorem splitOn_text {tokens : List Token} (hne : tokens ≠ []) :
    (text tokens).toList.splitOn ' ' = tokens.map (·.text.toList) := by
  have hspaces : ∀ field ∈ tokens.map (·.text.toList), ' ' ∉ field := by
    intro field hfield
    obtain ⟨token, -, rfl⟩ := List.mem_map.mp hfield
    exact token.not_mem_text (by decide) (by decide) (by decide)
  rw [text, String.toList_intercalate, List.map_map]
  exact List.splitOn_intercalate ' ' hspaces (by simpa using hne)

theorem read?_text {tokens : List Token} (hne : tokens ≠ [])
    (h : ∀ token ∈ tokens, token.isWritten) : read? (text tokens) = some tokens := by
  rw [read?, splitOn_text hne, mapM_token? h]

end Postfix

theorem Tree.isWritten_of_mem (tree : Tree) : ∀ token ∈ tree.inPostfix, token.isWritten := by
  induction tree with
  | leaf x => simp [inPostfix, Token.isWritten]
  | node op l r ihl ihr =>
    intro token hmem
    rw [inPostfix, List.mem_append, List.mem_append, List.mem_singleton] at hmem
    rcases hmem with (hmem | hmem) | rfl
    · exact ihl token hmem
    · exact ihr token hmem
    · rfl

theorem Tree.eq_of_text {t u : Tree} (h : Postfix.text t.inPostfix = Postfix.text u.inPostfix) :
    t = u := by
  have hread := Postfix.read?_text t.inPostfix_ne_nil t.isWritten_of_mem
  rw [h, Postfix.read?_text u.inPostfix_ne_nil u.isWritten_of_mem] at hread
  have hbuilt := Tree.ofPostfix_inPostfix t
  rw [← Option.some.inj hread, Tree.ofPostfix_inPostfix] at hbuilt
  exact (Except.ok.inj hbuilt).symm

namespace Session

/-- The tokens of a postfix text are found again by cutting it at its spaces and reading each field.
So expressions that are parsed to one text have one tree, whatever the tables. All that is not a
number counts as one in its leaves. -/
theorem text_identifies :
    (∀ tokens, tokens ≠ [] → (∀ token ∈ tokens, token.isWritten) →
      Postfix.read? (Postfix.text tokens) = some tokens) ∧
    ∀ (s u : Session) (e f text : String), (s.parse e).1 = .ok text → (u.parse f).1 = .ok text →
      ∃ tree, (s.parse e).2.tree = some tree ∧ (u.parse f).2.tree = some tree ∧
        (s.parse e).2.solve = (u.parse f).2.solve ∧
        (s.parse e).2.drawing = (u.parse f).2.drawing := by
  refine ⟨fun tokens hne h => Postfix.read?_text hne h, ?_⟩
  intro s u e f text he hf
  obtain ⟨tree, rfl, hs⟩ := tree_of_parse he
  obtain ⟨tree', htext, hu⟩ := tree_of_parse hf
  cases Tree.eq_of_text htext
  rw [hs, hu]
  exact ⟨tree, rfl, rfl, rfl, rfl⟩

def flat : Priorities := (Priorities.empty.set .minus 1 (by decide)).set .times 1 (by decide)

theorem text_identifies_flat :
    Postfix.read? "NaN -0 -inf - -2.5" = some
      [.number (.ofBits 0x7FF8000000000000), .number (.ofBits 0x8000000000000000),
        .number (.ofBits 0xFFF0000000000000), .operator .minus,
        .number (.ofBits 0xC004000000000000)] ∧
    ∃ tree, ((start .standard).parse "(1-2)*3").2.tree = some tree ∧
      ((start flat).parse "1-2*3").2.tree = some tree ∧
      ((start .standard).parse "(1-2)*3").2.solve = ((start flat).parse "1-2*3").2.solve ∧
      ((start .standard).parse "(1-2)*3").2.drawing = ((start flat).parse "1-2*3").2.drawing := by
  constructor
  · exact text_identifies.1
      [.number (.ofBits 0x7FF8000000000000), .number (.ofBits 0x8000000000000000),
        .number (.ofBits 0xFFF0000000000000), .operator .minus,
        .number (.ofBits 0xC004000000000000)] (by simp) (by decide +kernel)
  · exact text_identifies.2 (start .standard) (start flat) "(1-2)*3" "1-2*3" "1 2 - 3 *"
      (by decide +kernel) (by decide +kernel)

end Session

end PostfixCalculator
