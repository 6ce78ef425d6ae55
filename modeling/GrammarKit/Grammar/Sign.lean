import GrammarKit.Grammar.Rule

/-!
# Signs

The rule of a sign before a number, which languages with numerals share.
-/

namespace GrammarKit.Rule

/-- A plus or a minus. -/
def sign : Rule where
  name := "sign"
  alternatives := [[.literal "+"], [.literal "-"]]

end GrammarKit.Rule
