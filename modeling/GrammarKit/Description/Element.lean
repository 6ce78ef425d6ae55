import GrammarKit.Description.Error

/-!
# Described elements

An element of a described rule is a terminal, a reference or some other datum.
Terminals are checked on their own.  A reference may name any datum that is not nothing,
and its marks may be any data: the rule takes it as it is, and it is for the grammar to
find that no rule has such a name.

## Main Definitions

* `TerminalDraft`, `ElementDraft` — terminals and elements before they are checked
* `DescribedElement` — an element that a rule has accepted
* `DescribedElement.resolve` — the element of a grammar that declares its reference
-/

namespace GrammarKit.Description

/-- A terminal before it is checked. -/
structure TerminalDraft where
  kind : Datum
  value : Datum
  inverse : Datum := .bool false

/-- The kind of terminal that a datum names. -/
def kind? : Datum → Option Terminal.Kind
  | .text "lit" => some .literal
  | .text "lex" => some .tokenType
  | _ => none

/-- The terminal of a draft: the kind is checked first, then the value, then the inverse
mark. -/
def TerminalDraft.check (d : TerminalDraft) : Except Error Terminal :=
  match kind? d.kind with
  | none => .error (.unknownKind d.kind)
  | some kind =>
    match d.value with
    | .text value =>
      match d.inverse with
      | .bool inverse => .ok ⟨kind, value, inverse⟩
      | other => .error (.inverseNotBool other)
    | other => .error (.valueNotText other)

/-- An element that a rule has accepted.  Whether its marks are set is seen from their
data. -/
inductive DescribedElement where
  | reference (name optional repeatable : Datum)
  | terminal (t : Terminal) (optional : Datum)

namespace DescribedElement

/-- An element as a described one. -/
def ofElement : Element → DescribedElement
  | .reference name optional repeatable =>
    .reference (.text name) (.bool optional) (.bool repeatable)
  | .terminal t optional => .terminal t (.bool optional)

/-- What an element refers to, if it is a reference. -/
def target? : DescribedElement → Option Datum
  | .reference name _ _ => some name
  | .terminal _ _ => none

/-- An element with its reference by what it is shown as. -/
def shown : DescribedElement → Element
  | .reference name optional repeatable =>
    .reference name.plain (!optional.isNothing) (!repeatable.isNothing)
  | .terminal t optional => .terminal t (!optional.isNothing)

/-- The name of a reference, if it is declared.  The source is the rule that makes
it. -/
def declaredName (declared : List String) (source : String) (name : Datum) : Except Error String :=
  match name with
  | .text s => if s ∈ declared then .ok s else .error (.grammar (.undeclaredReference s source))
  | _ =>
    .error (if name.isKey then .grammar (.undeclaredReference name.plain source) else .notAKey name)

/-- The element of a rule in a grammar with the declared names. -/
def resolve (declared : List String) (source : String) : DescribedElement → Except Error Element
  | .reference name optional repeatable => do
    let name ← declaredName declared source name
    return .reference name (!optional.isNothing) (!repeatable.isNothing)
  | .terminal t optional => .ok (.terminal t (!optional.isNothing))

end DescribedElement

/-- An element before it is checked. -/
inductive ElementDraft where
  /-- A datum: the short form of a reference, or no element at all. -/
  | datum (d : Datum)
  | terminal (t : TerminalDraft) (optional : Datum := .bool false)
  | reference (name : Datum) (optional : Datum := .bool false) (repeatable : Datum := .bool false)

/-- An element whose terminal has been checked, or a datum that may be a short form. -/
inductive Piece where
  | datum (d : Datum)
  | element (e : DescribedElement)

/-- Checks the terminal of an element. -/
def ElementDraft.piece : ElementDraft → Except Error Piece
  | .datum d => .ok (.datum d)
  | .terminal t optional => return .element (.terminal (← t.check) optional)
  | .reference name optional repeatable => .ok (.element (.reference name optional repeatable))

/-- The element of a piece in the rule of the given name. -/
def Piece.element? (rule : String) : Piece → Except Error DescribedElement
  | .element e =>
    if (e.target?.map Datum.isNothing).getD false then .error (.emptyReference rule) else .ok e
  | .datum (.text s) =>
    match Element.ofShorthand? s with
    | some e => .ok (.ofElement e)
    | none => .error (.invalidElement rule (.text s))
  | .datum d => .error (.invalidElement rule d)

end GrammarKit.Description
