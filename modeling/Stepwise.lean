import Stepwise.Main
import Stepwise.Proofs.Expr.Grammar
import Stepwise.Proofs.Expr.Reading
import Stepwise.Proofs.Expr.Nodes
import Stepwise.Proofs.Expr.Precedence
import Stepwise.Proofs.Derivation.Value
import Stepwise.Proofs.Derivation.Order
import Stepwise.Proofs.Double.Defined
import Stepwise.Proofs.Double.Rounding
import Stepwise.Proofs.Decimal.Shortest
import Stepwise.Proofs.Decimal.Numeral
import Stepwise.Proofs.Expr.Token
import Stepwise.Proofs.Expr.Text
import Stepwise.Proofs.Expr.Zeros
import Stepwise.Proofs.Derivation.Steps
import Stepwise.Proofs.Double.Exact
import Stepwise.Proofs.Decimal.ReadBack
import Stepwise.Proofs.Analysis.Sample
import Stepwise.Proofs.Equation.Side
import Stepwise.Proofs.Equation.Linear
import Stepwise.Proofs.Polynomial.Sample
import Stepwise.Proofs.Problem.Defined
import Stepwise.Proofs.Problem.Spelling
import Stepwise.Proofs.Equation.Solutions
import Stepwise.Proofs.Equation.Divisors
import Stepwise.Proofs.Equation.RationalRoot
import Stepwise.Proofs.Decimal.Places
import Stepwise.Proofs.Polynomial.Powers
import Stepwise.Proofs.Problem.Contained
import Stepwise.Proofs.Double.Near
import Stepwise.Proofs.Equation.Search
import Stepwise.Proofs.Equation.Deflation
import Stepwise.Proofs.Equation.CubicRoots
import Stepwise.Proofs.Equation.Remainder
import Stepwise.Proofs.Analysis.Place
import Stepwise.Proofs.Analysis.Surroundings
import Stepwise.Proofs.CommandLine.Batch
import Stepwise.Proofs.Problem.Listed
import Stepwise.Proofs.Decimal.Positional
import Stepwise.Proofs.Expr.RoundTrip
import Stepwise.Proofs.Derivation.Count
import Stepwise.Proofs.Analysis.Uniform
import Stepwise.Proofs.Polynomial.WrittenSum
import Stepwise.Proofs.Polynomial.WrittenTerm
import Stepwise.Proofs.Analysis.PowerRule
import Stepwise.Proofs.Polynomial.Readers
import Stepwise.Proofs.Polynomial.Codec
import Stepwise.Proofs.Equation.Delegation
import Stepwise.Proofs.Analysis.Simpson
import Stepwise.Proofs.Analysis.Definite
import Stepwise.Proofs.Double.Mirrored
import Stepwise.Proofs.Equation.RootOrder
import Stepwise.Proofs.Equation.Symmetry
import Stepwise.Proofs.Polynomial.Reread
import Stepwise.Proofs.Equation.Displayed
import Stepwise.Proofs.Problem.Balance
import Stepwise.Proofs.Equation.Trichotomy
import Stepwise.Proofs.Expr.Context
import Stepwise.Proofs.Expr.Identity
import Stepwise.Proofs.Derivation.Edits
import Stepwise.Proofs.Double.Overflow
import Stepwise.Proofs.Equation.Overflow
import Stepwise.Proofs.Problem.Misplaced
import Stepwise.Proofs.Expr.Viable
import Stepwise.Proofs.Expr.Juxtaposition
import Stepwise.Proofs.Analysis.Bounds
import Stepwise.Proofs.Expr.Rounds
import Stepwise.Proofs.Text.Lowercase
import Stepwise.Proofs.Problem.Normal
import Stepwise.Proofs.Equation.Candidates
import Stepwise.Proofs.Expr.Offsets
import Stepwise.Proofs.Equation.RootText
