import GrammarKit.Grammar.Basic
import GrammarKit.Grammar.Sign

/-!
# The grammar of the calculator

Sums of products of literals and parenthesised expressions.  Left associativity is
written as a repetition.  A literal is put together from primitive tokens: an optional
sign, digits, a point, and an exponent after the letter `e`.

## Main Definitions

* `Calculator.rules`, `Calculator.grammar` — the rules, and the grammar with its root
-/

namespace GrammarKit.Calculator

open Element (rule optionalRule many literal)

/-- A numeral. -/
def number : Element := .ofType Token.numberType

/-- The rules of the calculator; the first is the root. -/
def rules : List Rule :=
  [{ name := "calc", alternatives := [[rule "expression"]] },
   { name := "expression", alternatives := [[rule "additive-expression"]] },
   { name := "additive-expression"
     alternatives := [[rule "multiplicative-expression", many "additive-expression-rest"]] },
   { name := "additive-expression-rest"
     alternatives :=
       [[literal "+", rule "multiplicative-expression"],
        [literal "-", rule "multiplicative-expression"]] },
   { name := "multiplicative-expression"
     alternatives := [[rule "unary-expression", many "multiplicative-expression-rest"]] },
   { name := "multiplicative-expression-rest"
     alternatives :=
       [[literal "*", rule "unary-expression"],
        [literal "/", rule "unary-expression"]] },
   { name := "unary-expression", alternatives := [[rule "primary-expression"]] },
   { name := "primary-expression"
     alternatives := [[rule "literal"], [literal "(", rule "expression", literal ")"]] },
   { name := "literal", alternatives := [[rule "floating-constant"], [rule "integer-constant"]] },
   { name := "floating-constant"
     alternatives :=
       [[rule "floating-real-part", literal "e", rule "integer-constant"],
        [rule "floating-real-part"]] },
   { name := "floating-real-part"
     alternatives :=
       [[optionalRule "sign", number, literal ".", number],
        [optionalRule "sign", number, literal "."],
        [optionalRule "sign", literal ".", number]] },
   { name := "integer-constant", alternatives := [[optionalRule "sign", number]] },
   Rule.sign]

/-- The grammar of the calculator. -/
def grammar : Grammar where
  rules := rules
  root := "calc"

end GrammarKit.Calculator
