import PostfixCalculator.Calculator.Keypad
import PostfixCalculator.Priorities.File

/-! The calculator behind its display, which is drawn in frames. -/
namespace PostfixCalculator

inductive Fold where
  | steps
  | priorities
  deriving DecidableEq, Repr

def Fold.title : Fold → String
  | .steps => "Démarche"
  | .priorities => "Priorités"

def Fold.all : List Fold := [.steps, .priorities]

structure Panel where
  calculator : Calculator
  stepsOpen : Bool := true
  prioritiesOpen : Bool := false
  focused : Bool := false
  deriving DecidableEq

namespace Panel

/-- Draws the entry field, in a frame in which the Enter key is pressed or not. The field gives the
focus up on Enter, then gets it back if the calculator asks for it, and only then Enter evaluates
the entry of a focused field. -/
def frame (enter : Bool) (p : Panel) : Panel :=
  let focused := (p.focused && !enter) || p.calculator.wantsFocus
  let c := { p.calculator with wantsFocus := false }
  { p with focused, calculator := if focused && enter then c.evaluate else c }

def start (table : Priorities) : Panel := frame false { calculator := .start table }

inductive Event where
  | press (b : Button)
  | toggle (f : Fold)
  | edit (entry : String)
  | escape
  | enter
  /-- Enter in the very frame in which the calculator asks for the focus. -/
  | enterOnRequest
  deriving DecidableEq, Repr

/-- A click anywhere takes the focus from the entry field. -/
def respond (p : Panel) : Event → Panel
  | .press b => { p with focused := false, calculator := p.calculator.press b }
  | .toggle .steps => { p with focused := false, stepsOpen := !p.stepsOpen }
  | .toggle .priorities => { p with focused := false, prioritiesOpen := !p.prioritiesOpen }
  | .edit entry => { p with calculator.entry := entry }
  | .escape => { p with calculator := p.calculator.clearEntry }
  | .enter => p.frame true
  | .enterOnRequest => { p with calculator.wantsFocus := true }.frame true

def next (p : Panel) (e : Event) : Panel := (p.respond e).frame false

def texts (p : Panel) : List String :=
  let c := p.calculator
  ["Calculatrice RPN", "Entrée :"] ++ (if c.error = "" then [] else [c.error]) ++
    ["Résultat :", if c.result = "" then "—" else c.result] ++
    (if p.stepsOpen then
      ["Forme normalisée :", c.steps.normalised, "RPN :", c.steps.postfixText, "Arbre :",
        c.steps.drawing]
    else []) ++
    if p.prioritiesOpen then [c.session.table.listing] else []

def labels : List String := Button.all.map Button.label ++ Fold.all.map Fold.title

def click? (label : String) : Option Event :=
  ((Button.all.find? (·.label == label)).map .press).or
    ((Fold.all.find? (·.title == label)).map .toggle)

end Panel
end PostfixCalculator
