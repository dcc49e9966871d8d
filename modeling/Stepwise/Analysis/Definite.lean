/-
# Definite integrals

The bounds are arithmetic expressions of their own.  The integrand is evaluated at every sample
point by writing the point in place of `x`, and the samples are added up by Simpson's rule.  A
sample that cannot be evaluated is undefined, and so is then the whole integral.
-/
import Stepwise.Analysis.Call
import Stepwise.Analysis.Simpson
import Stepwise.Decimal.Rounding
import Stepwise.Derivation.Steps

namespace Stepwise.Definite

/-! ## Samples -/

/-- The text with a number, in parentheses and without exponent, in place of every `x`. -/
def substitute (s : List Char) (x : Double) : List Char :=
  s.flatMap fun c => if c = 'x' then '(' :: x.positional ++ [')'] else [c]

/-- The value of an integrand at a point; undefined where it cannot be evaluated. -/
def sample (settings : Settings) (integrand : List Char) (x : Double) : Traced Double :=
  let s := substitute integrand x
  match Arithmetic.value settings s with
  | .ok y => Traced.pure y
  | .error f => ⟨[.notEvaluable (String.ofList s) f], .ok .nan⟩

/-- The values of an integrand at points. -/
def sampleAll (settings : Settings) (integrand : List Char) (xs : List Double) :
    Traced (List Double) :=
  let samples := xs.map (sample settings integrand)
  ⟨samples.flatMap Traced.events, samples.mapM Traced.outcome⟩

/-- The points at which the integrand is sampled, for `n` subintervals. -/
def samplePoints (a b : Double) (n : Int) : List Double :=
  if n < 0 then [] else Simpson.points Double.ofNat Double.isZero a b n.toNat

/-- The integral over `n` subintervals.  Their number must not be zero or negative. -/
def approximate (settings : Settings) (integrand : List Char) (a b : Double) (n : Int) :
    Traced Double := do
  if n < -1 then Traced.fail (Breakdown.badValue : Fault)
  else
    let samples ← sampleAll settings integrand (samplePoints a b n)
    if n = 0 then Traced.fail (Breakdown.zeroDivision : Fault)
    else if n < 0 then pure ((b - a) / Double.ofInt n / 3 * 0)
    else pure (Simpson.integral Double.ofNat a b n.toNat samples)

/-! ## Solution -/

/-- The number that a text shows; a text that is no number breaks down. -/
def shownNumber (s : String) : Except Breakdown Double :=
  match Numeral.readDouble? s.toList with
  | some x => .ok x
  | none => .error .badValue

/-- The value of a bound, and the step that shows it unless the bound is its own value. -/
def evaluateBound (settings : Settings) (label : String) (s : List Char) :
    Traced (Double × List Step) := do
  let source := String.ofList s
  let answer ← Arithmetic.solve settings source
  let value ← Traced.ofBreakdown (shownNumber answer.final)
  let steps : List Step :=
    if answer.steps.isEmpty then []
    else [⟨s!"{source} = {value.text}", s!"Evaluate the {label} bound.", "Bounds Evaluation"⟩]
  pure (value, steps)

/-- The width of one of `n` subintervals. -/
def width (a b : Double) (n : Int) : Except Breakdown Double :=
  if n = 0 then .error .zeroDivision else .ok ((b - a) / Double.ofInt n)

/-- Solves a definite integral. -/
def solve (settings : Settings) (problem : String) : Traced Answer := do
  match Call.definiteIntegral? problem.toList with
  | none => Traced.fail (Failure.notDefiniteIntegral : Fault)
  | some parts => do
    let integrand := String.ofList parts.integrand
    let opening : List Step := [
      ⟨problem, "Starting with the definite integral expression.", "Initial Expression"⟩,
      ⟨s!"∫({integrand}) dx from {String.ofList parts.lower} to {String.ofList parts.upper}",
        "Identify the expression and the lower and upper bounds of integration.",
        "Parse Integral"⟩]
    let (a, lowerSteps) ← evaluateBound settings "lower" parts.lower
    let (b, upperSteps) ← evaluateBound settings "upper" parts.upper
    if !(a.isFinite && b.isFinite) then Traced.fail (Failure.invalidBounds : Fault)
    else do
      let n := settings.simpsonIntervals
      let h ← Traced.ofBreakdown (width a b n)
      let value ← approximate settings parts.integrand a b n
      if !value.isFinite then Traced.fail (Failure.nonFiniteIntegral : Fault)
      else do
        let digits ← Traced.ofBreakdown (value.fixed? settings.integralDecimals)
        let final := String.ofList digits
        pure {
          final := final
          steps := opening ++ lowerSteps ++ upperSteps ++ [
            ⟨s!"h = ({b.text} - {a.text})/{n} = {String.ofList (h.general 4)}",
              s!"Using Simpson's Rule for numerical integration with n={n} intervals. " ++
                "The step size $h$ is calculated.", "Numerical Method Setup"⟩,
            ⟨"∫ ≈ (h/3) * [f(a) + 4f(a+h) + 2f(a+2h) + ... + f(b)]",
              "The integral is approximated by calculating the weighted sum of the function at " ++
                s!"{n + 1} points.", "Apply Simpson's Rule"⟩,
            ⟨s!"Result ≈ {final}", "The final calculated value of the definite integral.",
              "Final Answer"⟩] }

end Stepwise.Definite
