import PostfixCalculator.Log

/-! The calculator: an entry, and what was made of the last one that was evaluated. -/
namespace PostfixCalculator

structure Steps where
  normalised : String := ""
  postfixText : String := ""
  drawing : String := ""
  deriving DecidableEq, Repr

structure Calculator where
  session : Session
  entry : String := ""
  result : String := ""
  error : String := ""
  steps : Steps := {}
  /-- The entry field is to get the focus when it is next drawn. -/
  wantsFocus : Bool := true
  deriving DecidableEq

namespace Calculator

def start (table : Priorities) : Calculator := { session := .start table }

def clearEntry (c : Calculator) : Calculator := { c with entry := "", wantsFocus := true }

def clearResults (c : Calculator) : Calculator :=
  { c with result := "", error := "", steps := {}, wantsFocus := true }

def reset (c : Calculator) : Calculator := { c with entry := "" }.clearResults

/-- Shows an error. The last result stays, but its steps do not. -/
def fail (c : Calculator) (message : String) : Calculator :=
  { c with error := message, steps := {}, wantsFocus := true }

def maxDrawnDepth : Nat := 64

def drawing (tree : Tree) : String :=
  if maxDrawnDepth < tree.depth then
    "(arbre de profondeur " ++ toString tree.depth ++ " : trop profond pour être dessiné)"
  else tree.drawing

def expression (c : Calculator) : String := String.ofList (Text.trim c.entry.toList)

def evaluate (c : Calculator) : Calculator :=
  let e := c.expression
  if e = "" then c.fail "Entrée vide"
  else
    let (answer, session) := c.session.parse e
    let c := { c with session }
    match answer with
    | .ok text =>
      { c with
        steps := ⟨String.ofList (ImplicitZero.insert e.toList), text,
          (session.tree.map drawing).getD ""⟩
        result := valueText session.solve
        error := ""
        wantsFocus := true }
    | .error error => c.fail error.message

def reports (c : Calculator) : List Report :=
  let e := c.expression
  if e = "" then []
  else
    let attempt := Attempt.make c.session.table e
    attempt.reports e ++
      match attempt.answer with
      | .ok _ => []
      | .error error =>
        [⟨.debug, .calculator,
          "évaluation refusée (" ++ error.category.name ++ ") : " ++ error.message⟩]

def copy (c : Calculator) : Calculator := { c with session := c.session.copy }

end Calculator

inductive Action where
  | setEntry (entry : String)
  | setFocus (wanted : Bool)
  | fail (message : String)
  | evaluate
  | clearEntry
  | clearResults
  | reset
  | copy
  deriving DecidableEq, Repr

def Calculator.perform (c : Calculator) : Action → Calculator
  | .setEntry entry => { c with entry }
  | .setFocus wanted => { c with wantsFocus := wanted }
  | .fail message => c.fail message
  | .evaluate => c.evaluate
  | .clearEntry => c.clearEntry
  | .clearResults => c.clearResults
  | .reset => c.reset
  | .copy => c.copy

end PostfixCalculator
