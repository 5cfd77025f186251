import PostfixCalculator.Priorities.Basic
import PostfixCalculator.Text.Blank

/-! Priority tables as files: on each line the symbol of an operator and its priority, with blank
lines and comments between them. -/
namespace PostfixCalculator

namespace Priorities

/-- A natural number below `2 ^ 32`, with an optional plus sign. -/
def readPriority? (field : List Char) : Option UInt32 :=
  let digits := match field with
    | '+' :: rest => rest
    | _ => field
  if digits ≠ [] ∧ digits.all Char.isDigit then
    let n := Nat.ofDigitChars 10 digits 0
    if n < UInt32.size then some (UInt32.ofNat n) else none
  else none

def isSignificant (line : List Char) : Bool :=
  match line with
  | [] => false
  | c :: _ => c != '#'

/-- The entry on a significant line, given trimmed and with its number. -/
def readLine (number : Nat) (line : List Char) : Except TableError (String × UInt32) :=
  match Text.fields line with
  | [symbol, field] =>
    match readPriority? field with
    | some p => .ok (String.ofList symbol, p)
    | none => .error (.badLine number (.notAPriority field))
  | _ => .error (.badLine number (.notTwoFields line))

def significantLines (text : List Char) : List (Nat × List Char) :=
  (((Text.lines text).map Text.trim).zipIdx 1).filterMap fun (line, number) =>
    if isSignificant line then some (number, line) else none

/-- Every line is read before the first entry is added. -/
def ofText (text : List Char) : Except TableError Priorities := do
  let entries ← (significantLines text).mapM fun (number, line) => readLine number line
  ofPairs entries

def listing (t : Priorities) : String :=
  "\n".intercalate (t.pairs.map fun (op, p) => op.text ++ "  " ++ toString p.toNat)

end Priorities

inductive LoadError where
  | absent
  | notUnicode
  | table (error : TableError)
  deriving DecidableEq, Repr

def LoadError.message : LoadError → String
  | .absent => "lecture impossible : No such file or directory (os error 2)"
  | .notUnicode => "lecture impossible : stream did not contain valid UTF-8"
  | .table error => "table invalide : " ++ error.message

def Priorities.load (content : Option ByteArray) : Except LoadError Priorities :=
  match content with
  | none => .error .absent
  | some bytes =>
    match String.fromUTF8? bytes with
    | none => .error .notUnicode
    | some text => (ofText text.toList).mapError .table

end PostfixCalculator
