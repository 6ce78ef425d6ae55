import GrammarKit.Grammar.Terminal
import GrammarKit.Text.SortedSet

/-!
# The frontier of a parse

The furthest token index at which a terminal was tried in vain, with the terminals tried
there.

## Main Definitions

* `Frontier` — an index with its terminals, if there is one
* `Frontier.join` — of two frontiers the further one, and equal ones pool their
  terminals
* `Frontier.expected` — the terminals as messages show them
-/

namespace GrammarKit

/-- The furthest failed tries of a parse. -/
inductive Frontier where
  /-- No terminal has failed. -/
  | unreached
  /-- The furthest index and the terminals that failed there. -/
  | reached (index : Nat) (terminals : List Terminal)
deriving DecidableEq, Repr

namespace Frontier

/-- Adds the terminals that are not there yet. -/
def pool (known more : List Terminal) : List Terminal :=
  known ++ more.filter fun t => t ∉ known

/-- The further of two frontiers; equal ones pool their terminals. -/
def join : Frontier → Frontier → Frontier
  | .unreached, other => other
  | first, .unreached => first
  | .reached i ts, .reached j us =>
    if i < j then .reached j us
    else if j < i then .reached i ts
    else .reached i (pool ts us)

/-- The index of a frontier. -/
def index? : Frontier → Option Nat
  | .unreached => none
  | .reached index _ => some index

/-- The terminals of a frontier. -/
def terminals : Frontier → List Terminal
  | .unreached => []
  | .reached _ terminals => terminals

/-- The terminals of a frontier as text, in code point order and each once. -/
def expected (f : Frontier) : List String :=
  Text.sortedSet (f.terminals.map Terminal.render)

/-- The index of a frontier as text; minus one if there is none. -/
def indexText (f : Frontier) : String :=
  match f.index? with
  | none => "-1"
  | some index => toString index

@[simp] theorem unreached_join (f : Frontier) : unreached.join f = f := by
  cases f <;> rfl

@[simp] theorem join_unreached (f : Frontier) : f.join unreached = f := by
  cases f <;> rfl

end Frontier

end GrammarKit
