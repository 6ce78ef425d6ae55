import GrammarKit.Description.Datum
import GrammarKit.WordBuilder

/-!
# Errors of descriptions

Why data does not make up a rule, a grammar or a word builder.

## Main Definitions

* `Error`, `Error.message` — the errors and their wording
* `Error.label` — the family that an error belongs to
-/

namespace GrammarKit.Description

/-- Why a description is refused. -/
inductive Error where
  | unknownKind (kind : Datum)
  | valueNotText (value : Datum)
  | inverseNotBool (inverse : Datum)
  | badRuleName (name : Datum)
  | noAlternatives (rule : String)
  | emptyReference (rule : String)
  | invalidElement (rule : String) (element : Datum)
  | directLeftRecursion (rule : String)
  | notAnEvaluator (rule : String)
  | notARule (entry : Datum)
  | rootNotAName (root : Datum)
  /-- A list or a record stands in the place of a name. -/
  | notAKey (d : Datum)
  /-- No rule has the name that is looked up. -/
  | undeclared (name : Datum)
  /-- No rule at all can be applied within the limit. -/
  | tooDeep (limit : Int) (name : Datum)
  | grammar (e : Grammar.Error)
  | words (d : WordBuilder.Defect)

/-- The wording of an error. -/
def Error.message : Error → String
  | .unknownKind kind => "Unknown match kind " ++ kind.render
  | .valueNotText value => "The type of value should be str, got " ++ value.typeName
  | .inverseNotBool inverse => "The type of inverse should be bool, got " ++ inverse.typeName
  | .badRuleName name => "Rule name should be a non-empty str, got " ++ name.render
  | .noAlternatives rule => "No rule defined in syntax rule " ++ rule
  | .emptyReference rule => "Empty rule reference in syntax rule " ++ rule
  | .invalidElement rule element =>
    "Invalid type of element in syntax rule " ++ rule ++ ": " ++ element.render
  | .directLeftRecursion rule => "Left recursion is found in syntax rule " ++ rule
  | .notAnEvaluator rule => "Evaluator of syntax rule " ++ rule ++ " is not callable"
  | .notARule entry => "Grammar expects Rule objects, got " ++ entry.typeName
  | .rootNotAName root => "Root rule " ++ root.render ++ " is not declared"
  | .undeclared name => "FATAL: No syntax rule for " ++ name.render
  | .tooDeep limit name =>
    "Rule nesting exceeds max_depth=" ++ toString limit ++ " at rule " ++ name.render
  | .notAKey d => "unhashable type: '" ++ d.typeName ++ "'"
  | .grammar e => e.message
  | .words d => d.message

/-- The name of the family an error belongs to. -/
def Error.label : Error → String
  | .notAKey _ => "TypeError"
  | .tooDeep _ _ => "ParseDepthError"
  | _ => "GrammarError"

/-- Why a datum that is not the name of a rule cannot be looked up. -/
def lookupError (name : Datum) : Error :=
  if name.isKey then .undeclared name else .notAKey name

/-- Why a datum that is not the name of a rule cannot be applied as one within a nesting
limit. -/
def applyError (limit : Int) (name : Datum) : Error :=
  if limit < 0 then .tooDeep limit name else lookupError name

end GrammarKit.Description
