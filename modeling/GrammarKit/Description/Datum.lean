import GrammarKit.Number.Basic
import GrammarKit.Text.Quoted

/-!
# Data

The values that a grammar description is written in before it is checked: text, numbers,
truth values, nothing, and lists and records of these.

## Main Definitions

* `Datum` — a value of a description
* `Datum.typeName`, `Datum.render` — how messages call and show it
* `Datum.equals` — whether two values are equal, where truth values count as numbers
-/

namespace GrammarKit

/-- A value of a description. -/
inductive Datum where
  | null
  | bool (b : Bool)
  | int (n : Int)
  | float (x : Float)
  | text (s : String)
  | list (items : List Datum)
  | record (fields : List (String × Datum))
deriving Inhabited

namespace Datum

/-- The name of a value's type. -/
def typeName : Datum → String
  | .null => "NoneType"
  | .bool _ => "bool"
  | .int _ => "int"
  | .float _ => "float"
  | .text _ => "str"
  | .list _ => "list"
  | .record _ => "dict"

mutual

/-- A value as it is shown in messages. -/
def render : Datum → String
  | .null => "None"
  | .bool b => if b then "True" else "False"
  | .int n => toString n
  | .float x => Number.floatText x
  | .text s => Text.quoted s
  | .list items => "[" ++ ", ".intercalate (renderAll items) ++ "]"
  | .record fields => "\x7b" ++ ", ".intercalate (renderFields fields) ++ "\x7d"

/-- Each value of a list as it is shown in messages. -/
def renderAll : List Datum → List String
  | [] => []
  | d :: rest => render d :: renderAll rest

/-- Each field of a record as it is shown in messages. -/
def renderFields : List (String × Datum) → List String
  | [] => []
  | (name, d) :: rest => (Text.quoted name ++ ": " ++ render d) :: renderFields rest

end

/-- Whether a value is nothing: null, false, zero, or empty. -/
def isNothing : Datum → Bool
  | .null => true
  | .bool b => !b
  | .int n => n == 0
  | .float x => x == 0
  | .text s => s == ""
  | .list items => items.isEmpty
  | .record fields => fields.isEmpty

/-- A value as it is shown on its own: a text stands without quotes. -/
def plain : Datum → String
  | .text s => s
  | d => d.render

/-- Whether a value can be looked up among names; a list or a record cannot. -/
def isKey : Datum → Bool
  | .list _ | .record _ => false
  | _ => true

/-- The number that a value counts as; a truth value counts as one or zero. -/
def number? : Datum → Option Number
  | .bool b => some (.int (if b then 1 else 0))
  | .int n => some (.int n)
  | .float x => some (.float x)
  | _ => none

/-- Whether two values count as numbers and have the same value. -/
def sameNumber (d e : Datum) : Bool :=
  match d.number?, e.number? with
  | some m, some n => m.sameValue n
  | _, _ => false

mutual

/-- Whether two values are equal.  Numbers are equal if their values are, and records if
they have the same fields in any order. -/
def equals : Datum → Datum → Bool
  | .null, .null => true
  | .text s, .text t => s == t
  | .list items, .list others => allEqual items others
  | .record fields, .record others =>
    fields.length == others.length && fieldsEqual fields others
  | d, e => sameNumber d e

/-- Whether two lists have equal values at all places. -/
def allEqual : List Datum → List Datum → Bool
  | [], [] => true
  | d :: rest, e :: others => equals d e && allEqual rest others
  | _, _ => false

/-- Whether each field has an equal one of the same name among others. -/
def fieldsEqual : List (String × Datum) → List (String × Datum) → Bool
  | [], _ => true
  | (name, d) :: rest, others =>
    (match others.lookup name with
      | some e => equals d e
      | none => false) && fieldsEqual rest others

end

/-- Values without repetitions, in order of first occurrence. -/
def distinct (values : List Datum) : List Datum :=
  values.foldl (fun seen d => if seen.any (·.equals d) then seen else seen ++ [d]) []

end Datum

end GrammarKit
