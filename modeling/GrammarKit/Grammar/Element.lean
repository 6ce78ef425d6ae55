import GrammarKit.Grammar.Terminal

/-!
# Elements

What a production is made of: references to rules, which may be optional or repeatable,
and terminals, which may be optional.  A reference has a short written form, `name`,
`[name]` or `name*`.

## Main Definitions

* `Element` — a reference or a terminal
* `Element.render` — the text of an element
* `Element.ofShorthand?` — reads a reference from its short form
-/

namespace GrammarKit

/-- One place of a production. -/
inductive Element where
  /-- A reference to a rule.  A repeatable one stands for any number of matches. -/
  | reference (name : String) (optional repeatable : Bool)
  /-- A terminal. -/
  | terminal (t : Terminal) (optional : Bool)
deriving DecidableEq, Repr

/-- Elements that are matched one after the other. -/
abbrev Production := List Element

namespace Element

/-- A reference that must match once. -/
def rule (name : String) : Element := .reference name false false

/-- A reference that may be left out. -/
def optionalRule (name : String) : Element := .reference name true false

/-- A reference that matches any number of times. -/
def many (name : String) : Element := .reference name false true

/-- A terminal that must match. -/
def one (t : Terminal) : Element := .terminal t false

/-- A terminal that may be left out. -/
def optionalOne (t : Terminal) : Element := .terminal t true

/-- A token with the given text. -/
def literal (text : String) : Element := one (.literal text)

/-- A token of the given type. -/
def ofType (type : String) : Element := one (.ofType type)

/-- The rule that an element refers to, if it is a reference. -/
def target? : Element → Option String
  | .reference name _ _ => some name
  | .terminal _ _ => none

/-- An element as it is shown in grammars. -/
def render : Element → String
  | .reference name optional repeatable =>
    if repeatable then name ++ "*" else if optional then "[" ++ name ++ "]" else name
  | .terminal t optional => if optional then "[" ++ t.render ++ "]" else t.render

/-- The characters between brackets: an opening bracket, one or more characters other
than line feed, a closing bracket, and possibly one line feed after it. -/
def bracketed? : List Char → Option (List Char)
  | '[' :: rest =>
    let body := if rest.getLast? = some '\n' then rest.dropLast else rest
    if body.getLast? = some ']' then
      let inner := body.dropLast
      if inner.isEmpty || inner.contains '\n' then none else some inner
    else none
  | _ => none

/-- Reads a reference from its short form. -/
def ofShorthand? (text : String) : Option Element :=
  match bracketed? text.toList with
  | some inner => some (optionalRule (String.ofList inner))
  | none =>
    if text.toList.getLast? = some '*' then
      if text.length > 1 then some (many (String.ofList text.toList.dropLast)) else none
    else if text = "" then none
    else some (rule text)

end Element

end GrammarKit
