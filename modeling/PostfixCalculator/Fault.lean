import PostfixCalculator.Text.Quoted
import PostfixCalculator.Token.Basic

/-! What can be wrong with a priority table and with an expression, and how it is said. -/
namespace PostfixCalculator

inductive LineFault where
  | notTwoFields (line : List Char)
  | notAPriority (field : List Char)
  deriving DecidableEq, Repr

inductive TableError where
  | missing (op : Operator)
  | duplicate (op : Operator)
  | unknownSymbol (symbol : String)
  | zeroPriority (op : Operator)
  | badLine (number : Nat) (fault : LineFault)
  deriving DecidableEq, Repr

inductive ParseError where
  | table (error : TableError)
  | unexpected (found : Char) (position : Nat)
  | badNumber (text : List Char)
  | unbalanced
  | missingOperand (op : Operator)
  | leftover (count : Nat)
  deriving DecidableEq, Repr

inductive Category where
  | configuration
  | lexical
  | structural
  deriving DecidableEq, Repr

def LineFault.message : LineFault → String
  | .notTwoFields line => "attendu « symbole priorité », lu " ++ Text.quoted line
  | .notAPriority field => "priorité invalide " ++ Text.quoted field

def TableError.message : TableError → String
  | .missing op => "aucune priorité définie pour l’opérateur '" ++ op.text ++ "'"
  | .duplicate op => "opérateur '" ++ op.text ++ "' déclaré plusieurs fois"
  | .unknownSymbol symbol =>
    "symbole non supporté : " ++ Text.quoted symbol.toList ++ " (attendu: + - * / ^)"
  | .zeroPriority op =>
    "priorité nulle pour '" ++ op.text ++ "' (entier strictement positif attendu)"
  | .badLine number fault => "ligne " ++ toString number ++ " : " ++ fault.message

def ParseError.message : ParseError → String
  | .table error => "configuration : " ++ error.message
  | .unexpected found position =>
    "caractère inattendu '" ++ found.toString ++ "' (position " ++ toString position ++ ")"
  | .badNumber text => "nombre mal formé : " ++ Text.quoted text
  | .unbalanced => "parenthèses non appariées"
  | .missingOperand op => "opérandes insuffisants pour '" ++ op.text ++ "'"
  | .leftover count =>
    "expression mal formée (" ++ toString count ++ " termes restants au lieu de 1)"

def ParseError.category : ParseError → Category
  | .table _ => .configuration
  | .unexpected _ _ | .badNumber _ => .lexical
  | .unbalanced | .missingOperand _ | .leftover _ => .structural

def Category.name : Category → String
  | .configuration => "Config"
  | .lexical => "Lexicale"
  | .structural => "Syntaxe"

end PostfixCalculator
