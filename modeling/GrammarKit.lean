import GrammarKit.Calculator.Evaluation
import GrammarKit.Calculator.Grammar
import GrammarKit.Calculator.Value
import GrammarKit.CommandLine.Arguments
import GrammarKit.CommandLine.Command
import GrammarKit.Description.Datum
import GrammarKit.Description.Element
import GrammarKit.Description.Error
import GrammarKit.Description.Language
import GrammarKit.Description.Rule
import GrammarKit.Description.Value
import GrammarKit.Evaluation
import GrammarKit.Grammar.Basic
import GrammarKit.Grammar.Element
import GrammarKit.Grammar.LeftRecursion
import GrammarKit.Grammar.Nullable
import GrammarKit.Grammar.Rule
import GrammarKit.Grammar.Sign
import GrammarKit.Grammar.Terminal
import GrammarKit.Language
import GrammarKit.Main
import GrammarKit.Number.Basic
import GrammarKit.Number.Binary64
import GrammarKit.Number.Decimal
import GrammarKit.Number.Numeral
import GrammarKit.Parser.Basic
import GrammarKit.Parser.Frontier
import GrammarKit.Proofs.Acceptance
import GrammarKit.Proofs.Adequacy
import GrammarKit.Proofs.BlankRemoval
import GrammarKit.Proofs.CalculatorSymbols
import GrammarKit.Proofs.Coarsening
import GrammarKit.Proofs.Conservation
import GrammarKit.Proofs.FurthestFailure
import GrammarKit.Proofs.LeftOrder
import GrammarKit.Proofs.Lexing
import GrammarKit.Proofs.Locality
import GrammarKit.Proofs.Lockstep
import GrammarKit.Proofs.Lookahead
import GrammarKit.Proofs.MaximalMunch
import GrammarKit.Proofs.NestingLimit
import GrammarKit.Proofs.NullableClosure
import GrammarKit.Proofs.NullableDerivations
import GrammarKit.Proofs.NullableOrder
import GrammarKit.Proofs.Numerals
import GrammarKit.Proofs.OrderedChoice
import GrammarKit.Proofs.ParseTrees
import GrammarKit.Proofs.Passes
import GrammarKit.Proofs.QueryClauses
import GrammarKit.Proofs.QueryLayout
import GrammarKit.Proofs.QueryPieces
import GrammarKit.Proofs.QueryRefolding
import GrammarKit.Proofs.QueryRendering
import GrammarKit.Proofs.QueryRoles
import GrammarKit.Proofs.QueryRoundTrip
import GrammarKit.Proofs.QuerySpelling
import GrammarKit.Proofs.QueryStages
import GrammarKit.Proofs.QuerySweep
import GrammarKit.Proofs.QueryTokens
import GrammarKit.Proofs.QueryWords
import GrammarKit.Proofs.Recognition
import GrammarKit.Proofs.SubParses
import GrammarKit.Proofs.Termination
import GrammarKit.Proofs.TokenPositions
import GrammarKit.Proofs.TokensAhead
import GrammarKit.Proofs.WellFormed
import GrammarKit.Proofs.Yield
import GrammarKit.Query.Clauses
import GrammarKit.Query.Projection
import GrammarKit.Query.Words
import GrammarKit.Term
import GrammarKit.Text.Blank
import GrammarKit.Text.DecimalDigit
import GrammarKit.Text.JsonString
import GrammarKit.Text.Lines
import GrammarKit.Text.Printable
import GrammarKit.Text.Quoted
import GrammarKit.Text.SortedSet
import GrammarKit.Text.UpperCase
import GrammarKit.Token
import GrammarKit.Token.Lexer
import GrammarKit.Traced
import GrammarKit.WordBuilder
import GrammarKit.Proofs.CalculatorRuns
import GrammarKit.Proofs.CalculatorSentences
import GrammarKit.Proofs.CalculatorArithmetic
import GrammarKit.Proofs.Conformance
import GrammarKit.Proofs.TokenClasses
import GrammarKit.Proofs.Tracing
import GrammarKit.Proofs.Commands
import GrammarKit.Proofs.EmptyMatches
import GrammarKit.Proofs.QueryLiterals
import GrammarKit.Proofs.QueryWording
import GrammarKit.Proofs.QueryComments
import GrammarKit.Proofs.FoldingRuns
import GrammarKit.Proofs.CaretPositions
import GrammarKit.Proofs.RuleSuccesses
import GrammarKit.Proofs.AliasRules
import GrammarKit.Proofs.CalculatorFailures
import GrammarKit.Proofs.CalculatorLiterals
import GrammarKit.Proofs.TreeQueries
import GrammarKit.Proofs.Rebinding
import GrammarKit.Proofs.Shorthand
