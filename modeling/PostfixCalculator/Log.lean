import PostfixCalculator.Session

/-! The log: what is reported, from where, and how it is written. -/
namespace PostfixCalculator

inductive Level where
  | error
  | warn
  | info
  | debug
  | trace
  deriving DecidableEq, Repr

namespace Level

def rank : Level → Nat
  | .error => 1
  | .warn => 2
  | .info => 3
  | .debug => 4
  | .trace => 5

def name : Level → String
  | .error => "ERROR"
  | .warn => "WARN"
  | .info => "INFO"
  | .debug => "DEBUG"
  | .trace => "TRACE"

def all : List Level := [.error, .warn, .info, .debug, .trace]

end Level

inductive Source where
  | configuration
  | conversion
  | session
  | calculator
  deriving DecidableEq, Repr

def Source.path : Source → String
  | .configuration => "calculatrice_rpn::config"
  | .conversion => "calculatrice_rpn::noyau::rpn"
  | .session => "calculatrice_rpn::noyau::session"
  | .calculator => "calculatrice_rpn::app::etat"

structure Report where
  level : Level
  source : Source
  message : String
  deriving DecidableEq, Repr

def Report.line (r : Report) : String :=
  let padding := String.ofList (List.replicate (5 - r.level.name.length) ' ')
  "[" ++ r.level.name ++ padding ++ "] " ++ r.source.path ++ ": " ++ r.message

abbrev Threshold := Option Level

namespace Threshold

def admits (t : Threshold) (r : Report) : Bool :=
  match t with
  | none => false
  | some level => r.level.rank ≤ level.rank

def name (t : Threshold) : String :=
  match t with
  | none => "OFF"
  | some level => level.name

/-- The threshold of the given name, in either case and with white space around it. Without a
name, and under any other, warnings are written. -/
def ofName (name? : Option String) : Threshold :=
  match name? with
  | none => some .warn
  | some text =>
    let wanted := (Text.trim text.toList).map Char.toUpper
    let thresholds : List Threshold := none :: Level.all.map some
    (thresholds.find? fun t => (Threshold.name t).toList == wanted).getD (some .warn)

end Threshold

def written (t : Threshold) (reports : List Report) : List String :=
  (reports.filter t.admits).map Report.line

def Attempt.reports (e : String) (a : Attempt) : List Report :=
  let converted (tokens : List Token) (cursor : Nat) : Report :=
    ⟨.trace, .conversion, "rpn: " ++ toString tokens.length ++ " jetons, " ++ toString cursor ++
      " octets lus"⟩
  let subject := "parse(" ++ Text.quoted e.toList ++ ")"
  match a with
  | .notConverted error =>
    [⟨.debug, .session, subject ++ " échoue en conversion: " ++ error.message⟩]
  | .notBuilt tokens cursor error =>
    [converted tokens cursor,
      ⟨.debug, .session, subject ++ " échoue en construction: " ++ error.message⟩]
  | .built tokens cursor tree =>
    [converted tokens cursor,
      ⟨.debug, .session, subject ++ " -> [" ++ Postfix.text tokens ++ "] (profondeur " ++
        toString tree.depth ++ ")"⟩]

end PostfixCalculator
