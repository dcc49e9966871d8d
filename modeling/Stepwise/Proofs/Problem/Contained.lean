/-
# Contained breakdowns

No solver but that of cubic equations breaks down: each of their partial operations is safe for what
it can be given, undefined and infinite numbers among it.  A whole problem that does not reach the
solver of cubic equations therefore ends in an answer or in a failure with a code of its own.

* `Fault.Specific` : failures with a code of their own;
* `Roots.exists_text`, `Antiderivative.exists_ofTerm` : partial operations that succeed;
* `Problem.Kind.failsOnly_solve` : the solvers fail only in this way;
* `Problem.EntersCubic` : problems that reach the solver of cubic equations;
* `Problem.answered_or_refused` : all other problems are answered or refused.
-/
import Stepwise.Proofs.Analysis.Bounds
import Stepwise.Proofs.Decimal.Places
import Stepwise.Proofs.Double.Power
import Stepwise.Proofs.Equation.RootOrder
import Stepwise.Proofs.Polynomial.Powers
import Stepwise.Proofs.Problem.Failures

namespace Stepwise

/-! ## Faults -/

/-- The fault is a failure with a code of its own. -/
def Fault.Specific : Fault → Prop
  | .failure f => f.code ≠ Failure.unsolvable.code
  | .breakdown _ => False

open Fault (Specific)

instance : DecidablePred Specific
  | .failure f => inferInstanceAs (Decidable (f.code ≠ Failure.unsolvable.code))
  | .breakdown _ => inferInstanceAs (Decidable False)

/-- Only failures of solvers have the code of an unsolvable problem. -/
theorem Failure.code_ne_of_kind {f : Failure} (h : f.kind ≠ .solver) :
    f.code ≠ Failure.unsolvable.code := by
  cases f with
  | noRationalRoot | remainderLeft | invalidBounds | nonFiniteIntegral | unsolvable =>
    exact absurd rfl h
  | _ => simp [code]

theorem failsOnly_liftFailure {α : Type} {r : Except Failure α}
    (h : FailsOnly (fun f : Failure => f.kind ≠ .solver) r) :
    FailsOnly Specific (liftFailure r) := by
  cases r with
  | ok a => exact .ok a
  | error f => exact .error (Failure.code_ne_of_kind (h f rfl))

theorem failsOnly_liftBreakdown_of_ok {α : Type} {P : Fault → Prop} {r : Except Breakdown α}
    (h : ∃ a, r = .ok a) : FailsOnly P (liftBreakdown r) := by
  obtain ⟨a, rfl⟩ := h
  exact .ok a

/-- A computation for each member of a list succeeds if it does for every one of them. -/
theorem exists_mapM {ε α β : Type} {f : α → Except ε β} (xs : List α)
    (h : ∀ x ∈ xs, ∃ y, f x = .ok y) : ∃ ys, xs.mapM f = .ok ys ∧ ys.length = xs.length := by
  induction xs with
  | nil => exact ⟨[], rfl, rfl⟩
  | cons x xs ih =>
    obtain ⟨y, hy⟩ := h x List.mem_cons_self
    obtain ⟨ys, hys, hlength⟩ := ih fun x' hx' => h x' (List.mem_cons_of_mem x hx')
    refine ⟨y :: ys, ?_, by rw [List.length_cons, List.length_cons, hlength]⟩
    rw [List.mapM_cons, hy, hys]
    rfl

/-! ## Settings -/

/-- The settings ask for places after the point and for some subintervals. -/
structure Settings.Sensible (settings : Settings) : Prop where
  displayDecimals : 0 ≤ settings.displayDecimals
  integralDecimals : 0 ≤ settings.integralDecimals
  integralDecimals_le : settings.integralDecimals ≤ Double.mostWrittenPlaces
  simpsonIntervals : 0 < settings.simpsonIntervals

theorem Settings.sensible_default : Settings.Sensible {} :=
  ⟨by decide, by decide, by decide, by decide⟩

/-! ## Roots -/

namespace Roots

/-- The text of roots succeeds if there are any. -/
theorem exists_text {places : Int} (hplaces : 0 ≤ places) {roots : List Double} (h : roots ≠ [])
    (A : Arrangement) : ∃ s, text places roots A = .ok s := by
  obtain ⟨rounded, hrounded, hlength⟩ := exists_mapM roots fun x _ =>
    Double.exists_roundForDisplay hplaces x
  have hne : rounded ≠ [] := by
    rintro rfl
    exact h (List.length_eq_zero_iff.mp hlength.symm)
  rw [text, hrounded]
  show ∃ s, write (ascending A rounded) = .ok s
  have hascending := ascending_ne_nil (A := A) hne
  unfold write
  split
  · next heq => exact absurd heq hascending
  · exact ⟨_, rfl⟩
  · exact ⟨_, rfl⟩

end Roots

/-! ## Equations -/

theorem Equation.failsOnly_sides (wording : String) (s : List Char) :
    FailsOnly (fun f : Failure => f.kind ≠ .solver) (sides wording s) := by
  unfold sides
  split
  · exact .ok _
  · exact .error (by simp [Failure.kind])

theorem Equation.failsOnly_netCoefficients (wording : String) (s : List Char) :
    FailsOnly (fun f : Failure => f.kind ≠ .solver) (netCoefficients wording s) :=
  (failsOnly_sides wording s).bind fun _ _ => .ok _

theorem Linear.failsOnly_solve (equation : String) :
    FailsOnly Specific (liftFailure (solve equation)) :=
  failsOnly_liftFailure ((Equation.failsOnly_sides _ _).bind fun _ _ => .ok _)

/-- Twice a number that is not zero is not zero. -/
theorem Double.isZero_two_mul {x : Double} (h : x.isZero = false) : (2 * x).isZero = false := by
  have htwo : (2 : Double).Represents 2 := by decide +kernel
  have hnonzero : (2 : Double).isZero = false := by decide +kernel
  cases x with
  | nan => rfl
  | infinity negative =>
    obtain ⟨⟨s, hs⟩, -⟩ := exists_mul_infinity htwo.isNaN_eq_false hnonzero negative
    rw [hs]
    rfl
  | finite negative m e hc =>
    obtain ⟨s, t, f, hd, heq⟩ : ∃ s t f hd, (2 : Double) = finite s t f hd :=
      ⟨false, 0x10000000000000, -51, by decide, by decide +kernel⟩
    have hvalue : (finite s t f hd).value = 2 := by
      rw [← heq]
      exact htwo.2
    rw [heq]
    refine isZero_round _ ?_
    rw [hvalue, abs_mul, abs_two]
    linarith only [le_abs_value (x := finite negative m e hc) rfl h,
      abs_nonneg (finite negative m e hc).value]

namespace Quadratic

/-- The quadratic formula succeeds if the leading coefficient is not zero. -/
theorem exists_solveCoefficients {a : Double} (ha : a.isZero = false) (b c : Double) :
    ∃ solution, solveCoefficients a b c = .ok solution := by
  have hdivide (x : Double) : divide x (2 * a) = .ok (x / (2 * a)) := by
    rw [divide, Double.isZero_two_mul ha]
    rfl
  unfold solveCoefficients
  simp only [hdivide]
  split
  · exact ⟨_, rfl⟩
  · split
    · exact ⟨_, rfl⟩
    · exact ⟨_, rfl⟩

variable {settings : Settings} (hs : settings.Sensible)

include hs

theorem exists_answer {a : Double} (ha : a.isZero = false) (equation : String) (b c : Double) :
    ∃ result, answer settings equation a b c = .ok result := by
  obtain ⟨solution, hsolution⟩ := exists_solveCoefficients ha b c
  simp only [answer, hsolution]
  show ∃ result, (if solution.roots.isEmpty then _ else _) = Except.ok result
  split
  · exact ⟨_, rfl⟩
  · next hroots =>
    obtain ⟨final, hfinal⟩ := Roots.exists_text hs.displayDecimals (by simpa using hroots)
      settings.arrangement
    exact ⟨_, bind_eq_ok.mpr ⟨final, hfinal, rfl⟩⟩

theorem failsOnly_solveWithoutCube (equation : String) (k : Coefficients) :
    FailsOnly Specific (solveWithoutCube settings equation k).outcome := by
  unfold solveWithoutCube
  split
  · exact Linear.failsOnly_solve equation
  · next hsquare =>
    exact failsOnly_liftBreakdown_of_ok
      (exists_answer hs (Bool.eq_false_iff.mpr hsquare) equation _ _)

end Quadratic

/-! ## Arithmetic and integrals -/

theorem Arithmetic.failsOnly_solve (settings : Settings) (text : String) :
    FailsOnly Specific (solve settings text).outcome := by
  refine Traced.failsOnly_bind (failsOnly_liftFailure (failsOnly_reduce settings _)) fun r _ => ?_
  rw [Traced.outcome_log_bind]
  exact .ok _

theorem Derivative.failsOnly_solve (problem : String) :
    FailsOnly Specific (liftFailure (solve problem)) := by
  refine failsOnly_liftFailure ?_
  unfold solve
  split
  · exact .error (by decide)
  · exact .ok _

namespace Antiderivative

/-- The antiderivative of a term that is read can be formed. -/
theorem exists_ofTerm {places : Int} (hplaces : 0 ≤ places) {s : List Char} {t : Term}
    (h : t ∈ Polynomial.readTerms s) : ∃ u, ofTerm places t = .ok u := by
  obtain ⟨coefficient, hcoefficient⟩ :=
    Double.exists_roundForDisplay hplaces (t.coefficient / (t.power + 1))
  refine ⟨⟨coefficient, t.power + 1⟩, ?_⟩
  simp only [ofTerm, Polynomial.isZero_power_add_one h, hcoefficient]
  rfl

theorem failsOnly_solve {settings : Settings} (hs : settings.Sensible) (problem : String) :
    FailsOnly Specific (solve settings problem) := by
  unfold solve
  split
  · exact .error (by decide)
  · next inner _ =>
    obtain ⟨integrals, hintegrals, -⟩ := exists_mapM (Polynomial.readTerms inner) fun t ht =>
      exists_ofTerm hs.displayDecimals ht
    exact (failsOnly_liftBreakdown_of_ok ⟨integrals, hintegrals⟩).bind fun _ _ => .ok _

end Antiderivative

namespace Definite

/-- The answer of an arithmetic problem shows a number. -/
theorem exists_shownNumber {settings : Settings} {text : String} {a : Answer}
    (h : (Arithmetic.solve settings text).outcome = .ok a) :
    ∃ x, shownNumber a.final = .ok x := by
  obtain ⟨r, hr, hfinal, -⟩ := Arithmetic.of_solve h
  obtain ⟨e, -, -, hreduce⟩ := Arithmetic.of_reduce hr
  exact ⟨r.value.shown, hfinal ▸ shownNumber_text (Derivation.of_conclude hreduce).2.2.1⟩

theorem failsOnly_evaluateBound (settings : Settings) (label : String) (s : List Char) :
    FailsOnly Specific (evaluateBound settings label s).outcome := by
  unfold evaluateBound
  refine Traced.failsOnly_bind (Arithmetic.failsOnly_solve settings _) fun a ha => ?_
  refine Traced.failsOnly_bind (failsOnly_liftBreakdown_of_ok (exists_shownNumber ha)) fun x _ => ?_
  exact .ok _

/-- The rule can be applied if there are subintervals. -/
theorem exists_approximate {n : Int} (hn : 0 < n) (settings : Settings) (integrand : List Char)
    (a b : Double) : ∃ y, (approximate settings integrand a b n).outcome = .ok y := by
  refine ⟨Simpson.integral Double.ofNat a b n.toNat
    ((samplePoints a b n).map (sampleValue settings integrand)), ?_⟩
  rw [approximate, if_neg (by omega)]
  simp only [if_neg (show ¬ n < 0 by omega), if_neg (show ¬ n = 0 by omega)]
  exact Traced.outcome_bind_eq_ok.mpr ⟨_, outcome_sampleAll settings integrand _, rfl⟩

theorem failsOnly_solve {settings : Settings} (hs : settings.Sensible) (problem : String) :
    FailsOnly Specific (solve settings problem).outcome := by
  have hn : settings.simpsonIntervals ≠ 0 := hs.simpsonIntervals.ne'
  unfold solve
  split
  · exact .error (by decide)
  · next parts _ =>
    refine Traced.failsOnly_bind (failsOnly_evaluateBound settings _ _) fun lower _ => ?_
    refine Traced.failsOnly_bind (failsOnly_evaluateBound settings _ _) fun upper _ => ?_
    dsimp only
    split
    · exact .error (by decide)
    · have hwidth : ∃ h, width lower.1 upper.1 settings.simpsonIntervals = .ok h := ⟨_, if_neg hn⟩
      refine Traced.failsOnly_bind (failsOnly_liftBreakdown_of_ok hwidth) fun h _ => ?_
      obtain ⟨y, hy⟩ :=
        exists_approximate hs.simpsonIntervals settings parts.integrand lower.1 upper.1
      refine Traced.failsOnly_bind (by rw [hy]; exact .ok y) fun value _ => ?_
      split
      · exact .error (by decide)
      · have hdigits : ∃ digits, value.fixed? settings.integralDecimals = .ok digits := by
          refine ⟨_, if_neg ?_⟩
          have hlow := hs.integralDecimals
          have hhigh := hs.integralDecimals_le
          omega
        exact Traced.failsOnly_bind (failsOnly_liftBreakdown_of_ok hdigits) fun _ _ => .ok _

end Definite

/-! ## Whole problems -/

/-- Without a cubic term a quadratic equation is solved by its formula, or as a linear equation. -/
theorem Quadratic.failsOnly_solve {settings : Settings} (hs : settings.Sensible) {equation : String}
    (hcube : ∀ k, Equation.netCoefficients wording equation.toList = .ok k → k.a.isZero = true) :
    FailsOnly Specific (solve settings equation).outcome := by
  unfold solve
  refine Traced.failsOnly_bind
    (failsOnly_liftFailure (Equation.failsOnly_netCoefficients _ _)) fun k hk => ?_
  rw [Traced.outcome_ofFailure, liftFailure_eq_ok] at hk
  rw [if_pos (hcube k hk)]
  exact failsOnly_solveWithoutCube hs equation k

namespace Problem

/-- The solvers of all kinds but cubic equations fail only with a code of their own. -/
theorem Kind.failsOnly_solve {settings : Settings} (hs : settings.Sensible) {kind : Kind}
    {problem : String} (hkind : kind ≠ .cubic)
    (hcube : kind = .quadratic →
      ∀ k, Equation.netCoefficients Quadratic.wording problem.toList = .ok k → k.a.isZero = true) :
    FailsOnly Specific (kind.solve settings problem).outcome := by
  cases kind with
  | definiteIntegral => exact Definite.failsOnly_solve hs problem
  | indefiniteIntegral => exact Antiderivative.failsOnly_solve hs problem
  | derivative => exact Derivative.failsOnly_solve problem
  | cubic => exact absurd rfl hkind
  | quadratic => exact Quadratic.failsOnly_solve hs (hcube rfl)
  | linear => exact Linear.failsOnly_solve problem
  | arithmetic => exact Arithmetic.failsOnly_solve settings problem

/-- The problem reaches the solver of cubic equations: it has that kind, or it is of the quadratic
kind and has a cubic term. -/
def EntersCubic (settings : Settings) (text : String) : Prop :=
  ∃ normal, accept settings text.toList = .ok normal ∧ checkBalance normal = .ok () ∧
    (classify (asEquation normal) = .cubic ∨
      classify (asEquation normal) = .quadratic ∧
        ∃ k, Equation.netCoefficients Quadratic.wording (asEquation normal) = .ok k ∧
          k.a.isZero = false)

variable {settings : Settings} {text : String}

/-- Where the solver of cubic equations is not reached, the solver that is fails only with a code of
its own. -/
theorem failsOnly_of_not_entersCubic (hs : settings.Sensible) (h : ¬ EntersCubic settings text)
    {normal : List Char} (haccept : accept settings text.toList = .ok normal)
    (hbalance : checkBalance normal = .ok ()) :
    FailsOnly Specific ((classify (asEquation normal)).solve settings
      (String.ofList (asEquation normal))).outcome := by
  refine Kind.failsOnly_solve hs (fun hcubic => h ⟨normal, haccept, hbalance, .inl hcubic⟩) ?_
  intro hquadratic k hk
  rw [String.toList_ofList] at hk
  cases hzero : k.a.isZero with
  | true => rfl
  | false => exact absurd ⟨normal, haccept, hbalance, .inr ⟨hquadratic, k, hk, hzero⟩⟩ h

theorem failsOnly_accept (settings : Settings) (s : List Char) :
    FailsOnly (fun f : Failure => f.kind ≠ .solver) (accept settings s) :=
  .ite (fun _ => .error (by simp [Failure.kind])) fun _ =>
    .ite (fun _ => .error (by decide)) fun _ => .ok _

theorem failsOnly_checkBalance (s : List Char) :
    FailsOnly (fun f : Failure => f.kind ≠ .solver) (checkBalance s) := by
  unfold checkBalance
  split
  · exact .error (by simp [Failure.kind])
  · exact .ok _

/-- A failure with a code of its own stays what it is. -/
theorem failsOnly_mapError {α : Type} {x : Except Fault α} (h : FailsOnly Specific x) :
    FailsOnly Specific (x.mapError Fault.foreseen) := by
  cases x with
  | ok a => exact .ok a
  | error fault =>
    cases fault with
    | failure f => exact h
    | breakdown b => exact absurd (h _ rfl) id

theorem failsOnly_solve (hs : settings.Sensible) (h : ¬ EntersCubic settings text) :
    FailsOnly Specific (solve settings text).outcome := by
  unfold solve
  refine Traced.failsOnly_bind (failsOnly_liftFailure (failsOnly_accept _ _))
    fun normal hnormal => ?_
  refine Traced.failsOnly_bind (failsOnly_liftFailure (failsOnly_checkBalance _))
    fun _ hbalance => ?_
  rw [Traced.outcome_ofFailure, liftFailure_eq_ok] at hnormal hbalance
  rw [Traced.outcome_log_bind]
  refine Traced.failsOnly_bind ?_ fun _ _ => .ok _
  rw [Kind.outcome_solveOrFail]
  exact failsOnly_mapError (failsOnly_of_not_entersCubic hs h hnormal hbalance)

/-- **A problem that does not reach the solver of cubic equations is answered or refused.**  The
failure has a code other than that of a problem that could not be solved, and no breakdown ends the
solver that the problem is handed to. -/
theorem answered_or_refused {text : String} (h : ¬ EntersCubic {} text) :
    ((∃ answer, (solve {} text).outcome = .ok answer) ∨
      ∃ f : Failure, (solve {} text).outcome = .error (.failure f) ∧
        f.code ≠ "OFFLINE_UNSOLVABLE") ∧
    ∀ normal, accept {} text.toList = .ok normal → checkBalance normal = .ok () →
      ∀ b, ((classify (asEquation normal)).solve {} (String.ofList (asEquation normal))).outcome ≠
        .error (.breakdown b) := by
  constructor
  · cases houtcome : (solve {} text).outcome with
    | ok answer => exact .inl ⟨answer, rfl⟩
    | error fault =>
      have hspecific := failsOnly_solve Settings.sensible_default h fault houtcome
      cases fault with
      | failure f => exact .inr ⟨f, rfl, hspecific⟩
      | breakdown b => exact absurd hspecific id
  · intro normal haccept hbalance b hb
    exact failsOnly_of_not_entersCubic Settings.sensible_default h haccept hbalance _ hb

/-- The antiderivative of `x^-1` is not that of a reciprocal: the minus ends the term before it, and
the power is read as an undefined number, which does no harm. -/
theorem answered_or_refused_reciprocal : ¬ EntersCubic {} "integrate(x^-1)" ∧
    ((∃ answer, (solve {} "integrate(x^-1)").outcome = .ok answer) ∨
      ∃ f : Failure, (solve {} "integrate(x^-1)").outcome = .error (.failure f) ∧
        f.code ≠ "OFFLINE_UNSOLVABLE") := by
  have hkind : ¬ EntersCubic {} "integrate(x^-1)" := by
    rintro ⟨normal, haccept, -, hcubic⟩
    have hnormal : accept {} "integrate(x^-1)".toList = .ok "integrate(x^-1)".toList := by
      rfl
    rw [hnormal] at haccept
    cases haccept
    have hintegral : classify (asEquation "integrate(x^-1)".toList) = .indefiniteIntegral := by
      rfl
    rw [hintegral] at hcubic
    rcases hcubic with hcubic | ⟨hquadratic, -⟩
    · cases hcubic
    · cases hquadratic
  exact ⟨hkind, (answered_or_refused hkind).1⟩

end Problem

end Stepwise
