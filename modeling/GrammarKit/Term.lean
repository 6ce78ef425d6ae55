import GrammarKit.Text.Lines
import GrammarKit.Token

/-!
# Terms

A term is one application of a rule: its children are tokens and further terms in source
order, blanks included.  A failed term has a failure instead, which says where and why.

## Main Definitions

* `Tree` — a leaf with a token, or a node with a rule name, children and possibly a
  failure
* `Term` — a node on its own
* `Term.tokens`, `Term.text` — the leaves and their text
* `Term.find?`, `Term.findAll`, `Term.words` — queries by rule name
* `Term.pretty`, `Term.report` — the outline of a term, and its failure in words

## Design Notes

Each query is a pair of functions, one on a tree and one, named with `In`, on a list of
trees; the two call each other and recurse on the structure of trees.
-/

namespace GrammarKit

/-- What kind of failure a term has. -/
inductive Failure.Kind where
  /-- No alternative matched, or input was left over. -/
  | mismatch
  /-- The end of a literal or comment was not found. -/
  | unterminated
  /-- A kind given by its name. -/
  | named (label : String)
deriving DecidableEq, Repr

/-- The name of a kind. -/
def Failure.Kind.label : Failure.Kind → String
  | .mismatch => "syntax"
  | .unterminated => "unterminated"
  | .named label => label

/-- Where and why a rule failed. -/
structure Failure where
  kind : Failure.Kind
  message : String
  /-- The token at which the rule failed; nothing at the end of the input. -/
  token? : Option Token := none
  /-- What would have been accepted there. -/
  expected : List String := []
deriving DecidableEq, Repr

/-- A token, or a rule with what it matched. -/
inductive Tree where
  | leaf (token : Token)
  | node (rule : String) (children : List Tree) (failure : Option Failure)
deriving Repr

/-- One application of a rule. -/
structure Term where
  rule : String
  children : List Tree := []
  failure : Option Failure := none
deriving Repr

namespace Tree

mutual

/-- Whether two trees are equal, decided child by child. -/
def decEq : (a b : Tree) → Decidable (a = b)
  | .leaf s, .leaf t =>
    if h : s = t then isTrue (congrArg leaf h) else isFalse fun e => h (leaf.inj e)
  | .node r cs f, .node s ds g =>
    if hr : r = s then
      match decEqIn cs ds with
      | isTrue hc =>
        if hf : f = g then isTrue (by rw [hr, hc, hf])
        else isFalse fun e => hf (node.inj e).2.2
      | isFalse hc => isFalse fun e => hc (node.inj e).2.1
    else isFalse fun e => hr (node.inj e).1
  | .leaf _, .node _ _ _ => isFalse nofun
  | .node _ _ _, .leaf _ => isFalse nofun

/-- Whether two lists of trees are equal. -/
def decEqIn : (as bs : List Tree) → Decidable (as = bs)
  | [], [] => isTrue rfl
  | a :: as, b :: bs =>
    match decEq a b with
    | isTrue h =>
      match decEqIn as bs with
      | isTrue hs => isTrue (by rw [h, hs])
      | isFalse hs => isFalse fun e => hs (List.cons.inj e).2
    | isFalse h => isFalse fun e => h (List.cons.inj e).1
  | [], _ :: _ => isFalse nofun
  | _ :: _, [] => isFalse nofun

end

instance : DecidableEq Tree := decEq

mutual

/-- The tokens at the leaves, from left to right. -/
def tokens : Tree → List Token
  | .leaf t => [t]
  | .node _ children _ => tokensIn children

/-- The tokens at the leaves of trees, from left to right. -/
def tokensIn : List Tree → List Token
  | [] => []
  | t :: rest => tokens t ++ tokensIn rest

end

mutual

/-- All nodes with a rule name, each before the nodes below it. -/
def findAll (name : String) : Tree → List Term
  | .leaf _ => []
  | .node rule children failure =>
    (if rule = name then [⟨rule, children, failure⟩] else []) ++ findAllIn name children

/-- All nodes with a rule name in trees, from left to right. -/
def findAllIn (name : String) : List Tree → List Term
  | [] => []
  | t :: rest => findAll name t ++ findAllIn name rest

end

mutual

/-- The first node with a rule name. -/
def find? (name : String) : Tree → Option Term
  | .leaf _ => none
  | .node rule children failure =>
    if rule = name then some ⟨rule, children, failure⟩ else findIn? name children

/-- The first node with a rule name in trees. -/
def findIn? (name : String) : List Tree → Option Term
  | [] => none
  | t :: rest =>
    match find? name t with
    | some term => some term
    | none => findIn? name rest

end

/-- The texts of tokens that are not blank. -/
def solidTexts (blanks : List String) (tokens : List Token) : List String :=
  (tokens.filter fun t => !t.isBlank blanks).map Token.text

mutual

/-- The texts at the leaves of each outermost node with a rule name, without blanks. -/
def words (blanks : List String) (name : String) : Tree → List (List String)
  | .leaf _ => []
  | .node rule children _ =>
    if rule = name then [solidTexts blanks (tokensIn children)] else wordsIn blanks name children

/-- The texts at the leaves of each outermost node with a rule name in trees. -/
def wordsIn (blanks : List String) (name : String) : List Tree → List (List String)
  | [] => []
  | t :: rest => words blanks name t ++ wordsIn blanks name rest

end

/-- The texts at the leaves of a tree, without blanks; a blank leaf gives nothing at
all. -/
def directWords (blanks : List String) : Tree → List (List String)
  | .leaf t => if t.isBlank blanks then [] else [[t.text]]
  | .node _ children _ => [solidTexts blanks (tokensIn children)]

/-- The line about a node's failure in an outline. -/
def failureLine (rule : String) : Option Failure → List String
  | none => []
  | some failure =>
    ["ERROR at " ++ (failure.token?.map Token.render).getD "None" ++ " in term " ++ rule]

/-- The beginning of an outline line: the depth and the number among the siblings. -/
def outlineMark (depth index : Nat) : String :=
  String.join (List.replicate depth ".   ") ++ "[" ++ toString index ++ "]"

mutual

/-- The outline of a child of a rule: a line for a leaf, and for a node also what is
below it. -/
def outline (rule : String) (depth index : Nat) : Tree → List String
  | .leaf t => [outlineMark depth index ++ Text.quoted t.text ++ ":" ++ rule]
  | .node inner children failure =>
    (outlineMark depth index ++ inner) ::
      (outlineIn inner (depth + 1) 0 children ++ failureLine inner failure)

/-- The outline of a rule's children from a given number on. -/
def outlineIn (rule : String) (depth index : Nat) : List Tree → List String
  | [] => []
  | t :: rest => outline rule depth index t ++ outlineIn rule depth (index + 1) rest

end

/-- The leaves of trees are those of each tree in turn. -/
theorem tokensIn_eq_flatMap (ts : List Tree) : tokensIn ts = ts.flatMap tokens := by
  induction ts with
  | nil => rfl
  | cons t rest ih => rw [tokensIn, ih, List.flatMap_cons]

@[simp] theorem tokensIn_append (ts us : List Tree) :
    tokensIn (ts ++ us) = tokensIn ts ++ tokensIn us := by
  simp only [tokensIn_eq_flatMap, List.flatMap_append]

/-- The leaves of leaves. -/
@[simp] theorem tokensIn_map_leaf (tokens : List Token) :
    tokensIn (tokens.map leaf) = tokens := by
  induction tokens with
  | nil => rfl
  | cons t rest ih => rw [List.map_cons, tokensIn, ih]; rfl

/-- The nodes in trees are those in each tree in turn. -/
theorem findAllIn_eq_flatMap (name : String) (ts : List Tree) :
    findAllIn name ts = ts.flatMap (findAll name) := by
  induction ts with
  | nil => rfl
  | cons t rest ih => rw [findAllIn, ih, List.flatMap_cons]

end Tree

deriving instance DecidableEq for Term

namespace Term

/-- Whether a term has no failure. -/
def ok (t : Term) : Bool := t.failure.isNone

/-- The tree of a term. -/
def toTree (t : Term) : Tree := .node t.rule t.children t.failure

/-- The tokens at the leaves, from left to right. -/
def tokens (t : Term) : List Token := Tree.tokensIn t.children

/-- The text of all leaves, blanks included. -/
def text (t : Term) : String := Token.join t.tokens

/-- All terms below this one with a rule name, each before the terms below it. -/
def findAll (t : Term) (name : String) : List Term := Tree.findAllIn name t.children

/-- The first term below this one with a rule name. -/
def find? (t : Term) (name : String) : Option Term := Tree.findIn? name t.children

/-- The name that stands for all direct children in `Term.words`. -/
def anyName : String := "*"

/-- The texts of the outermost terms with a rule name, or of the direct children, each
as the list of its tokens that are not blank. -/
def words (t : Term) (blanks : List String) (name : String) : List (List String) :=
  if name = anyName then t.children.flatMap (Tree.directWords blanks)
  else Tree.wordsIn blanks name t.children

/-- The outline of a term: a line for each leaf and node below it, and one for each
failure. -/
def pretty (t : Term) : String :=
  "\n".intercalate (Tree.outlineIn t.rule 0 0 t.children ++ Tree.failureLine t.rule t.failure)

end Term

namespace Failure

/-- Where the failure is. -/
def place (f : Failure) : String :=
  match f.token? with
  | none => "EOF"
  | some t =>
    let text := Text.quoted t.text
    s!"{text} ({t.line}, {t.column})"

/-- What would have been accepted. -/
def hint (f : Failure) : String :=
  if f.expected.isEmpty then ""
  else ", expected one of \x7b" ++ ", ".intercalate f.expected ++ "\x7d"

/-- The line of the source where the failure is, with a caret under it. -/
def snippet (f : Failure) (source : String) : String :=
  match f.token? with
  | none =>
    let (line, column) := Text.endPosition source
    Text.caretSnippet source line column
  | some t => Text.caretSnippet source t.line t.column

/-- A failure in words, with a snippet if the source is given. -/
def report (f : Failure) (source : Option String) : String :=
  f.message ++ ": stopped at " ++ f.place ++ f.hint ++
    match source with
    | none => ""
    | some text => "\n" ++ f.snippet text

end Failure

/-- A term's failure in words; nothing for a term without one. -/
def Term.report (t : Term) (source : Option String) : String :=
  match t.failure with
  | none => ""
  | some failure => failure.report source

end GrammarKit
