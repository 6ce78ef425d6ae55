import GrammarKit.Grammar.Basic
import GrammarKit.Parser.Frontier
import GrammarKit.Term
import GrammarKit.Traced

/-!
# The parser

Recursive descent with backtracking over a list of tokens.  The alternatives of a rule
are tried in order and the first that matches is taken.  Blanks before an element go
into the tree if the element matches and are given back if it does not.

## Main Definitions

* `Parser` — a grammar with the options of a parse
* `Parser.matchElement`, `Parser.matchProduction`, `Parser.matchAlternatives` — the
  parts of a rule, given how to apply the rules they refer to
* `Parser.applyRule` — a rule at an index, with a bound on the nesting of rules
* `Parser.parse`, `Parser.parseRule` — all tokens under the root rule, and one rule from
  an index on

## Design Notes

Everything below a rule is a function of the way `apply` in which rules are applied, and
`applyRule` ties the knot by recursion on the levels of nesting that are left.  A
repetition goes on only after a round that consumed a token, so it ends after at most as
many rounds as there are tokens.
-/

namespace GrammarKit

/-- A grammar with the options of a parse. -/
structure Parser where
  grammar : Grammar
  /-- Whether blank tokens may stand before any element. -/
  skipBlanks : Bool := true
  /-- The token types that count as blank. -/
  blankTypes : List String := Token.blankTypes
  /-- How deeply rules may nest. -/
  maxDepth : Int := 256
  /-- Whether a trace is written. -/
  debug : Bool := false

/-- Why a parse has no answer. -/
inductive Parser.Fault where
  /-- A rule is applied that the grammar does not declare. -/
  | undeclared (rule : String)
  /-- Rules nest more deeply than the limit allows. -/
  | tooDeep (limit : Int) (rule : String)
deriving DecidableEq, Repr

/-- The wording of a fault. -/
def Parser.Fault.message : Parser.Fault → String
  | .undeclared rule => Grammar.undeclaredMessage rule
  | .tooDeep limit rule =>
    "Rule nesting exceeds max_depth=" ++ toString limit ++ " at rule " ++ Text.quoted rule

/-- What ends a parse at once, whatever alternatives are left. -/
inductive Parser.Interrupt where
  | fault (f : Parser.Fault)
  /-- The tokens from an index on hold none that the terminal accepts. -/
  | unterminated (start : Nat) (terminator : Terminal)
deriving DecidableEq, Repr

/-- What was matched: the trees and the index after the last token. -/
structure Parser.Segment where
  children : List Tree
  stop : Nat

/-- The answer of a part of a parse: what was matched, if it matched, and the
frontier. -/
structure Parser.Attempt where
  segment? : Option Parser.Segment
  frontier : Frontier

namespace Parser

/-- A match that is not known to have failed anywhere. -/
def Attempt.success (children : List Tree) (stop : Nat) : Attempt :=
  ⟨some ⟨children, stop⟩, .unreached⟩

/-- Puts what came before in front of an attempt. -/
def Attempt.after (a : Attempt) (children : List Tree) (frontier : Frontier) : Attempt :=
  ⟨a.segment?.map fun s => ⟨children ++ s.children, s.stop⟩, frontier.join a.frontier⟩

/-- Stays at an index if the attempt did not match. -/
def Attempt.orStay (a : Attempt) (position : Nat) : Attempt :=
  ⟨some (a.segment?.getD ⟨[], position⟩), a.frontier⟩

/-- A way to apply a rule at an index. -/
abbrev Apply := String → Nat → Traced Interrupt Attempt

/-- The blank tokens from an index on that may be skipped. -/
def blanksAt (p : Parser) (tokens : List Token) (position : Nat) : List Token :=
  if p.skipBlanks then (tokens.drop position).takeWhile (Token.isBlank p.blankTypes) else []

section Matching

variable (p : Parser) (tokens : List Token)

/-- One match of a rule, with the blanks before it. -/
def matchOnce (apply : Apply) (name : String) (position : Nat) : Traced Interrupt Attempt := do
  let blanks := p.blanksAt tokens position
  let inner ← apply name (position + blanks.length)
  return ⟨inner.segment?.map fun s =>
    ⟨blanks.map Tree.leaf ++ [.node name s.children none], s.stop⟩, inner.frontier⟩

/-- Matches of a rule until one fails or consumes nothing. -/
def matchMany (apply : Apply) (name : String) (position : Nat) : Traced Interrupt Attempt := do
  let start := position + (p.blanksAt tokens position).length
  let round ← p.matchOnce tokens apply name position
  match round.segment? with
  | none => return ⟨some ⟨[], position⟩, round.frontier⟩
  | some s =>
    if start < s.stop ∧ start < tokens.length then
      let more ← matchMany apply name s.stop
      return more.after s.children round.frontier
    else return round
termination_by tokens.length - position
decreasing_by omega

/-- A reference. -/
def matchReference (apply : Apply) (name : String) (optional repeatable : Bool) (position : Nat) :
    Traced Interrupt Attempt := do
  if repeatable then p.matchMany tokens apply name position
  else
    let round ← p.matchOnce tokens apply name position
    return if optional then round.orStay position else round

/-- A terminal that accepts one token, with the blanks before it. -/
def matchToken (t : Terminal) (position : Nat) : Attempt :=
  let blanks := p.blanksAt tokens position
  let start := position + blanks.length
  match tokens[start]? with
  | some token =>
    if t.accepts token then .success (blanks.map Tree.leaf ++ [.leaf token]) (start + 1)
    else ⟨none, .reached start [t]⟩
  | none => ⟨none, .reached start [t]⟩

/-- All tokens up to the first that an inverse terminal accepts; that one is not
consumed. -/
def matchUntil (t : Terminal) (position : Nat) : Traced Interrupt Attempt :=
  let body := (tokens.drop position).takeWhile fun token => !t.accepts token
  if position + body.length < tokens.length then
    return .success (body.map Tree.leaf) (position + body.length)
  else Traced.fail (.unterminated position t)

/-- One element of a production. -/
def matchElement (apply : Apply) (element : Element) (position : Nat) :
    Traced Interrupt Attempt :=
  match element with
  | .reference name optional repeatable =>
    p.matchReference tokens apply name optional repeatable position
  | .terminal t optional =>
    if t.inverse then matchUntil tokens t position
    else
      let attempt := p.matchToken tokens t position
      return if optional then attempt.orStay position else attempt

/-- The elements of a production, one after the other. -/
def matchProduction (apply : Apply) : Production → Nat → Traced Interrupt Attempt
  | [], position => return .success [] position
  | element :: rest, position => do
    let first ← p.matchElement tokens apply element position
    match first.segment? with
    | none => return first
    | some s => do
      let others ← matchProduction apply rest s.stop
      return others.after s.children first.frontier

/-- The first of some alternatives that matches.  `label` gives the trace line of an
alternative. -/
def matchAlternatives (apply : Apply) (label : Nat → String) (start : Nat) :
    Nat → List Production → Traced Interrupt Attempt
  | _, [] => return ⟨none, .unreached⟩
  | number, production :: rest => do
    Traced.note p.debug fun _ => label number
    let first ← p.matchProduction tokens apply production start
    match first.segment? with
    | some _ => return first
    | none => do
      let others ← matchAlternatives apply label start (number + 1) rest
      return ⟨others.segment?, first.frontier.join others.frontier⟩

/-- The beginning of a trace line: two blanks a level, and the rule. -/
def traceMark (depth : Nat) (name : String) : String :=
  String.join (List.replicate depth "  ") ++ name

/-- The trace line of an alternative that is tried. -/
def tryLine (depth : Nat) (name : String) (total start number : Nat) : String :=
  let mark := traceMark depth name
  s!"{mark}[{number}/{total}] @{start}"

/-- The trace line of an answer. -/
def answerLine (depth : Nat) (name : String) (start : Nat) (answer : Attempt) : String :=
  let mark := traceMark depth name
  match answer.segment? with
  | some s => s!"{mark} MATCH {start}..{s.stop}"
  | none =>
    let index := answer.frontier.indexText
    s!"{mark} UNMATCH (furthest @{index})"

/-- A rule at an index.  `levels` is how many more rules may nest, `depth` how many do
already. -/
def applyRule (levels depth : Nat) (name : String) (start : Nat) : Traced Interrupt Attempt :=
  match levels with
  | 0 => Traced.fail (.fault (.tooDeep p.maxDepth name))
  | levels + 1 =>
    match p.grammar.rule? name with
    | none => Traced.fail (.fault (.undeclared name))
    | some rule => do
      let label := tryLine depth name rule.alternatives.length start
      let answer ← p.matchAlternatives tokens (applyRule levels (depth + 1)) label start 1
        rule.alternatives
      Traced.note p.debug fun _ => answerLine depth name start answer
      return answer

/-- A rule at an index with all levels of nesting left. -/
def attempt (name : String) (start : Nat) : Traced Interrupt Attempt :=
  p.applyRule tokens (p.maxDepth + 1).toNat 0 name start

end Matching

/-- The failed term of a rule that did not match, at the frontier. -/
def mismatchTerm (tokens : List Token) (name : String) (frontier : Frontier) : Term :=
  { rule := name
    failure := some
      { kind := .mismatch
        message := "syntax error"
        token? := frontier.index?.bind fun index => tokens[index]?
        expected := frontier.expected } }

/-- The token that a search for a terminator is blamed on: the one before it, or else
the first. -/
def opener? (tokens : List Token) (start : Nat) : Option Token :=
  if 0 < start ∧ start ≤ tokens.length then tokens[start - 1]? else tokens.head?

/-- The failed term of a rule in which a terminator is missing. -/
def unterminatedTerm (tokens : List Token) (name : String) (start : Nat) (terminator : Terminal) :
    Term :=
  { rule := name
    failure := some
      { kind := .unterminated
        message := "unterminated literal (missing " ++ Text.quoted terminator.value ++ ")"
        token? := opener? tokens start } }

/-- Goes on with the answer to a rule; a missing terminator gives a failed term
instead. -/
def conclude {α : Type} (p : Parser) (tokens : List Token) (name : String)
    (x : Traced Interrupt Attempt) (answer : Attempt → Traced Fault α) (failed : Term → α) :
    Traced Fault α :=
  x.recover fun
    | .ok a => answer a
    | .error (.fault f) => Traced.fail f
    | .error (.unterminated start terminator) => do
      Traced.note p.debug fun _ =>
        "parse " ++ name ++ ": unterminated literal, missing " ++ Text.quoted terminator.value
      return failed (unterminatedTerm tokens name start terminator)

/-- A rule from an index on, with the number of tokens it consumed.  Input may be left
over. -/
def parseRule (p : Parser) (name : String) (tokens : List Token) (start : Nat) :
    Traced Fault (Term × Nat) :=
  p.conclude tokens name (p.attempt tokens name start)
    (fun a => return match a.segment? with
      | some s => (⟨name, s.children, none⟩, s.stop - start)
      | none => (mismatchTerm tokens name a.frontier, 0))
    fun term => (term, 0)

/-- The root rule over all tokens: blanks after it belong to it, and other input that is
left over is a failure at the frontier, which is never before the left-over input. -/
def finish (p : Parser) (tokens : List Token) (a : Attempt) : Traced Fault Term := do
  let root := p.grammar.root
  match a.segment? with
  | none => return mismatchTerm tokens root a.frontier
  | some s =>
    let blanks := p.blanksAt tokens s.stop
    let stop := s.stop + blanks.length
    match tokens[stop]? with
    | none => return ⟨root, s.children ++ blanks.map Tree.leaf, none⟩
    | some token => do
      Traced.note p.debug fun _ => "parse " ++ root ++ ": unconsumed input at " ++ token.render
      return mismatchTerm tokens root (a.frontier.join (.reached stop []))

/-- All tokens under the root rule. -/
def parse (p : Parser) (tokens : List Token) : Traced Fault Term :=
  p.conclude tokens p.grammar.root (p.attempt tokens p.grammar.root 0) (p.finish tokens) id

end Parser

end GrammarKit
