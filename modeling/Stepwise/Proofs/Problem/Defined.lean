/-
# Answers without undefined numbers

No undefined number is shown in the final answer of a problem if the numbers that its solver starts
from are finite.  The solvers of expressions and of integrals with bounds check this themselves.  Of
the others each starts from numbers that were read leniently, and these are the ones that have to be
finite.

* `Arithmetic.defined_final`, `Definite.defined_final` : solvers that check their numbers;
* `Derivative.defined_final`, `Antiderivative.defined_final` : terms with finite numbers;
* `Problem.Kind.InRange` : the numbers that a solver starts from are finite;
* `Problem.defined_of_solve` : the final answer of a problem.
-/
import Stepwise.Proofs.Equation.Defined

namespace Stepwise

/-! ## Expressions and integrals -/

theorem Arithmetic.defined_final {settings : Settings} {text : String} {answer : Answer}
    (h : (solve settings text).outcome = .ok answer) : Defined answer.final := by
  obtain ⟨r, hr, hfinal, -⟩ := of_solve h
  obtain ⟨e, -, hfits, hreduce⟩ := of_reduce hr
  rw [hfinal]
  exact defined_of_notMem (Double.notMem_text (Expr.value_of_reduce hfits hreduce).2)

/-- An integral that is not finite is not answered. -/
theorem Definite.defined_final {settings : Settings} {problem : String} {answer : Answer}
    (h : (solve settings problem).outcome = .ok answer) : Defined answer.final := by
  rw [solve] at h
  split at h
  · cases h
  · next parts _ =>
    obtain ⟨⟨a, lowerSteps⟩, -, h⟩ := Traced.outcome_bind_eq_ok.mp h
    obtain ⟨⟨b, upperSteps⟩, -, h⟩ := Traced.outcome_bind_eq_ok.mp h
    simp only at h
    split at h
    · cases h
    · obtain ⟨width, -, h⟩ := Traced.outcome_bind_eq_ok.mp h
      obtain ⟨value, -, h⟩ := Traced.outcome_bind_eq_ok.mp h
      split at h
      · cases h
      · next hfinite =>
        obtain ⟨digits, hdigits, h⟩ := Traced.outcome_bind_eq_ok.mp h
        rw [Traced.outcome_ofBreakdown, liftBreakdown_eq_ok, Double.fixed?] at hdigits
        cases h
        split at hdigits
        · cases hdigits
        · cases hdigits
          apply defined_of_notMem
          rw [String.toList_ofList]
          exact Double.notMem_fixed (by simpa using hfinite) _

/-! ## Derivatives and antiderivatives -/

/-- The numbers of a term are finite. -/
def Term.Finite (t : Term) : Prop := t.coefficient.isFinite = true ∧ t.power.isFinite = true

/-- Derivatives of terms with finite numbers are shown as numbers. -/
theorem Derivative.defined_final {problem : String} {inner : List Char} {answer : Answer}
    (hcall : Call.derivative? problem.toList = some inner)
    (hterms : ∀ t ∈ Polynomial.readTerms inner, t.Finite) (h : solve problem = .ok answer) :
    Defined answer.final := by
  rw [solve, hcall] at h
  cases h
  apply defined_of_notMem
  rw [String.toList_ofList]
  refine Polynomial.notMem_writeSum fun chars hchars => ?_
  obtain ⟨t, ht, hshown⟩ := List.mem_filterMap.mp hchars
  obtain ⟨hcoefficient, hpower⟩ := hterms t ht
  simp only [shownTerm?] at hshown
  split at hshown
  · cases hshown
  · split at hshown
    · cases hshown
    · cases hshown
      refine Term.notMem_chars (Double.isNaN_mul hcoefficient hpower) ?_
      exact Double.isNaN_add (y := -1) hpower rfl

/-- Antiderivatives of terms with finite numbers are shown as numbers. -/
theorem Antiderivative.defined_final {settings : Settings} {problem : String}
    {inner : List Char} {answer : Answer} (hcall : Call.integral? problem.toList = some inner)
    (hterms : ∀ t ∈ Polynomial.readTerms inner, t.Finite)
    (h : solve settings problem = .ok answer) : Defined answer.final := by
  simp only [solve, hcall] at h
  obtain ⟨integrals, hintegrals, hanswer⟩ := bind_eq_ok.mp h
  rw [liftBreakdown_eq_ok] at hintegrals
  cases hanswer
  apply defined_of_notMem
  rw [String.toList_append, String.toList_ofList]
  intro hmem
  rcases List.mem_append.mp hmem with hmem | hmem
  · refine Polynomial.notMem_writeSum (fun chars hchars => ?_) hmem
    obtain ⟨u, hu, rfl⟩ := List.mem_map.mp hchars
    obtain ⟨t, ht, hterm⟩ := exists_of_mem_mapM hintegrals (List.mem_filter.mp hu).1
    obtain ⟨hcoefficient, hpower⟩ := hterms t ht
    have hsum : (t.power + 1).isNaN = false := Double.isNaN_add hpower rfl
    simp only [ofTerm] at hterm
    split at hterm
    · cases hterm
    · next hzero =>
      obtain ⟨coefficient, hrounded, hterm⟩ := bind_eq_ok.mp hterm
      cases hterm
      refine Term.notMem_chars (Double.isNaN_roundForDisplay ?_ hrounded) hsum
      exact Double.isNaN_div_of_finite hcoefficient hsum (by simpa using hzero)
  · exact absurd hmem (by decide)

/-! ## Whole problems -/

namespace Problem

/-- The numbers that the solver of a kind starts from are finite.  Expressions and integrals with
bounds are checked by their solvers. -/
def Kind.InRange (kind : Kind) (problem : List Char) : Prop :=
  match kind with
  | .arithmetic | .definiteIntegral => True
  | .derivative => ∀ inner, Call.derivative? problem = some inner →
      ∀ t ∈ Polynomial.readTerms inner, t.Finite
  | .indefiniteIntegral => ∀ inner, Call.integral? problem = some inner →
      ∀ t ∈ Polynomial.readTerms inner, t.Finite
  | .cubic | .quadratic | .linear => ∀ left right, Text.splitAtChar '=' problem = [left, right] →
      (Coefficients.read left - Coefficients.read right).InRange (kind != .linear)

/-- The numbers that the problem is solved with are finite. -/
def InRange (text : String) : Prop :=
  let problem := asEquation (normalize text.toList)
  (classify problem).InRange problem

/-- The solver of an equation shows numbers. -/
theorem Kind.defined_equation {settings : Settings} {kind : Kind} {problem : List Char}
    {shown : String} (hkind : kind ∈ [.cubic, .quadratic, .linear])
    (htolerance : settings.rootTolerance.isFinite = true)
    (hrange : ∀ left right, Text.splitAtChar '=' problem = [left, right] →
      (Coefficients.read left - Coefficients.read right).InRange (kind != .linear))
    (h : kind.final settings (String.ofList problem) = .ok shown) : Defined shown := by
  obtain ⟨answer, hsolve, -⟩ := Kind.of_final h
  obtain ⟨left, right, hsplit⟩ := Kind.exists_split hkind hsolve
  rw [Kind.final_of_split hsplit hkind] at h
  rw [String.toList_ofList] at hsplit
  cases hfinal : Equation.final settings (kind != .linear) (Coefficients.read left)
      (Coefficients.read right) with
  | error fault =>
    rw [hfinal] at h
    cases h
  | ok text =>
    rw [hfinal] at h
    cases h
    exact Equation.defined_final htolerance (hrange left right hsplit) hfinal

/-- The solver of each kind shows numbers. -/
theorem Kind.defined_final {settings : Settings} {kind : Kind} {problem : List Char}
    {shown : String} (htolerance : settings.rootTolerance.isFinite = true)
    (hrange : kind.InRange problem)
    (h : kind.final settings (String.ofList problem) = .ok shown) : Defined shown := by
  cases kind with
  | cubic | quadratic | linear => exact Kind.defined_equation (by simp) htolerance hrange h
  | arithmetic =>
    obtain ⟨answer, hsolve, rfl⟩ := Kind.of_final h
    exact Arithmetic.defined_final hsolve
  | definiteIntegral =>
    obtain ⟨answer, hsolve, rfl⟩ := Kind.of_final h
    exact Definite.defined_final hsolve
  | derivative =>
    obtain ⟨answer, hsolve, rfl⟩ := Kind.of_final h
    replace hsolve : liftFailure (Derivative.solve (String.ofList problem)) = .ok answer := hsolve
    rw [liftFailure_eq_ok] at hsolve
    cases hcall : Call.derivative? problem with
    | none =>
      rw [Derivative.solve, String.toList_ofList, hcall] at hsolve
      cases hsolve
    | some inner =>
      exact Derivative.defined_final (by rw [String.toList_ofList, hcall])
        (hrange inner hcall) hsolve
  | indefiniteIntegral =>
    obtain ⟨answer, hsolve, rfl⟩ := Kind.of_final h
    replace hsolve : Antiderivative.solve settings (String.ofList problem) = .ok answer := hsolve
    cases hcall : Call.integral? problem with
    | none =>
      simp only [Antiderivative.solve, String.toList_ofList, hcall] at hsolve
      cases hsolve
    | some inner =>
      exact Antiderivative.defined_final (by rw [String.toList_ofList, hcall])
        (hrange inner hcall) hsolve

/-- **No undefined number is shown in a final answer**, if the problem is solved with finite
numbers. -/
theorem defined_of_solve {settings : Settings} {text : String} {answer : Answer}
    (htolerance : settings.rootTolerance.isFinite = true) (hrange : InRange text)
    (h : (solve settings text).outcome = .ok answer) : Defined answer.final :=
  Kind.defined_final htolerance hrange (of_final (final_of_solve h))

/-- The roots of `x^2 - 5x + 6 = 0` are shown as numbers. -/
theorem defined_integer_roots : ∃ answer,
    (solve {} "x^2 - 5x + 6 = 0").outcome = .ok answer ∧
      answer.final = "x \\in \\\x7b2, 3\\\x7d" ∧ Defined answer.final := by
  have hshown : (final {} "x^2 - 5x + 6 = 0").toOption = some "x \\in \\\x7b2, 3\\\x7d" := by
    decide +kernel
  obtain ⟨answer, hsolve, hfinal⟩ := exists_of_final hshown
  have hkind : classify (asEquation (normalize "x^2 - 5x + 6 = 0".toList)) = .quadratic := by
    decide +kernel
  have hrange : InRange "x^2 - 5x + 6 = 0" := by
    simp only [InRange, hkind]
    intro left right hsplit
    have hsides : Text.splitAtChar '=' (asEquation (normalize "x^2 - 5x + 6 = 0".toList)) =
        ["x^2 - 5x + 6 ".toList, " 0".toList] := by decide +kernel
    rw [hsides] at hsplit
    cases hsplit
    constructor <;> intros <;> decide +kernel
  exact ⟨answer, hsolve, hfinal, defined_of_solve (by decide +kernel) hrange hsolve⟩

/-- The coefficient of `ax` is no number, and neither is the answer. -/
theorem undefined_coefficient : ∃ answer, (solve {} "ax = 2").outcome = .ok answer ∧
    answer.final = "x = nan" ∧ ¬ Defined answer.final := by
  have hshown : (final {} "ax = 2").toOption = some "x = nan" := by decide +kernel
  obtain ⟨answer, hsolve, hfinal⟩ := exists_of_final hshown
  refine ⟨answer, hsolve, hfinal, ?_⟩
  rw [hfinal]
  decide

end Problem

end Stepwise
