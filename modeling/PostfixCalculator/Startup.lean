import PostfixCalculator.Calculator.State
import PostfixCalculator.Priorities.File

/-! The start of the program: its log, its table, and the first entries. -/
namespace PostfixCalculator

/-- A file that is to hold a priority table. It has no content if it does not exist. -/
structure TableFile where
  name : String
  content : Option ByteArray

namespace Startup

/-- The table to use, with what is reported about it. Without a file, or without a table in it, it
is the standard one. -/
def table (file : Option TableFile) : Priorities × List Report :=
  match file with
  | none =>
    (.standard,
      [⟨.info, .configuration, "CALC_RPN_PRIORITES absent : table de priorités standard"⟩])
  | some file =>
    match Priorities.load file.content with
    | .ok table =>
      (table,
        (if table.isEmpty then
          [⟨.warn, .configuration,
            file.name ++ " : table vide, tout opérateur sera refusé"⟩]
        else []) ++
          [⟨.info, .configuration, "table de priorités chargée depuis " ++ file.name ++ " (" ++
            toString table.size ++ " opérateurs)"⟩])
    | .error error =>
      (.standard,
        [⟨.warn, .configuration,
          file.name ++ " : " ++ error.message ++ " ; repli sur la table standard"⟩])

def evaluateAll (c : Calculator) : List String → List Calculator × List Report
  | [] => ([], [])
  | entry :: entries =>
    let c := { c with entry }
    let next := c.evaluate
    let (states, reports) := evaluateAll next entries
    (next :: states, c.reports ++ reports)

def run (level : Option String) (file : Option TableFile) (entries : List String) :
    List String × List Calculator :=
  let (table, reports) := table file
  let (states, more) := evaluateAll (.start table) entries
  (written (.ofName level) (reports ++ more), states)

end Startup
end PostfixCalculator
