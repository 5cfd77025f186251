import PostfixCalculator.Decimal.Layout

/-! The words of an expression. -/
namespace PostfixCalculator

inductive Operator where
  | plus
  | minus
  | times
  | divide
  | power
  deriving DecidableEq, Repr

namespace Operator

def all : List Operator := [.plus, .minus, .times, .divide, .power]

def index (op : Operator) : Nat := all.idxOf op

def symbol : Operator → Char
  | .plus => '+'
  | .minus => '-'
  | .times => '*'
  | .divide => '/'
  | .power => '^'

def ofChar? : Char → Option Operator
  | '+' => some .plus
  | '-' => some .minus
  | '*' => some .times
  | '/' => some .divide
  | '^' => some .power
  | _ => none

def ofSymbol? (s : String) : Option Operator :=
  match s.toList with
  | [c] => ofChar? c
  | _ => none

def name : Operator → String
  | .plus => "Plus"
  | .minus => "Minus"
  | .times => "Star"
  | .divide => "Slash"
  | .power => "Caret"

def text (op : Operator) : String := op.symbol.toString

theorem mem_all (op : Operator) : op ∈ all := by cases op <;> decide

theorem index_inj {op op' : Operator} : op.index = op'.index ↔ op = op' := by
  cases op <;> cases op' <;> decide

@[simp] theorem ofChar?_symbol (op : Operator) : ofChar? op.symbol = some op := by
  cases op <;> rfl

@[simp] theorem toList_text (op : Operator) : op.text.toList = [op.symbol] := by cases op <;> rfl

@[simp] theorem ofSymbol?_text (op : Operator) : ofSymbol? op.text = some op := by
  rw [ofSymbol?, toList_text]
  exact ofChar?_symbol op

theorem symbol_of_ofChar? {c : Char} {op : Operator} (h : ofChar? c = some op) :
    op.symbol = c := by
  unfold ofChar? at h
  split at h <;> cases h <;> rfl

end Operator

def isOperator (c : Char) : Bool := (Operator.ofChar? c).isSome

/-- The words, with numbers of any type. -/
inductive Token (α : Type := Float) where
  | number (value : α)
  | operator (op : Operator)
  | opening
  | closing
  deriving DecidableEq

namespace Token

def ofChar? (c : Char) : Option Token :=
  if c = '(' then some .opening
  else if c = ')' then some .closing
  else (Operator.ofChar? c).map .operator

def text : Token → String
  | .number value => String.ofList (Layout.plain.number value)
  | .operator op => op.text
  | .opening => "("
  | .closing => ")"

def debugText : Token → String
  | .number value => "Num(" ++ String.ofList (Layout.pointed.number value) ++ ")"
  | .operator op => "Op(" ++ op.name ++ ")"
  | .opening => "LPar"
  | .closing => "RPar"

/-- Equality that compares numbers as numbers: the two zeros are the same, and what is not a
number differs from itself. -/
def same : Token → Token → Bool
  | .number x, .number y => x == y
  | .operator p, .operator q => p = q
  | .opening, .opening => true
  | .closing, .closing => true
  | _, _ => false

end Token
end PostfixCalculator
