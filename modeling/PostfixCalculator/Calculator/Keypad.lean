import PostfixCalculator.Calculator.State

/-! The buttons of the calculator. -/
namespace PostfixCalculator

inductive Key where
  | digit (n : Fin 10)
  | point
  | comma
  | operator (op : Operator)
  | opening
  | closing
  deriving DecidableEq, Repr

namespace Key

def char : Key → Char
  | .digit n => Nat.digitChar n
  | .point => '.'
  | .comma => ','
  | .operator op => op.symbol
  | .opening => '('
  | .closing => ')'

def trimSpaces (entry : List Char) : List Char := Text.trimRight (· == ' ') entry

/-- After this character a group is set off by a space. -/
def endsOperand (c : Char) : Bool := c.isDigit || c == ')'

/-- The entry after the key was pressed. Operators have a space on both sides, and no spaces are
left before a closing parenthesis. -/
def press (k : Key) (entry : List Char) : List Char :=
  match k with
  | .closing => trimSpaces entry ++ [')']
  | .opening =>
    if (entry.reverse.find? (!Text.isBlank ·)).any endsOperand then entry ++ [' ', '(']
    else entry ++ ['(']
  | .operator op =>
    let kept := trimSpaces entry
    kept ++ (if kept = [] then [] else [' ']) ++ [op.symbol, ' ']
  | .digit _ | .point | .comma => entry ++ [k.char]

def delete (entry : List Char) : List Char := trimSpaces (trimSpaces entry).dropLast

end Key

inductive Button where
  | key (k : Key)
  | clearEntry
  | clearResults
  | reset
  | delete
  | evaluate
  deriving DecidableEq, Repr

namespace Button

def label : Button → String
  | .key k => k.char.toString
  | .clearEntry => "C"
  | .clearResults => "CLR"
  | .reset => "AC"
  | .delete => "DEL"
  | .evaluate => "="

def all : List Button :=
  [.clearEntry, .clearResults, .reset, .delete, .key .opening, .key .closing] ++
    Operator.all.map (fun op => .key (.operator op)) ++ [.evaluate] ++
    [7, 8, 9, 4, 5, 6, 1, 2, 3, 0].map (fun n => .key (.digit n)) ++ [.key .point, .key .comma]

end Button

def Calculator.press (c : Calculator) : Button → Calculator
  | .key k => { c with entry := String.ofList (k.press c.entry.toList), wantsFocus := true }
  | .clearEntry => c.clearEntry
  | .clearResults => c.clearResults
  | .reset => c.reset
  | .delete => { c with entry := String.ofList (Key.delete c.entry.toList), wantsFocus := true }
  | .evaluate => c.evaluate

end PostfixCalculator
