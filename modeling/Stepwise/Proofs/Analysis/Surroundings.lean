/-
# The surroundings of a call

The solvers of derivatives and integrals look for a call anywhere in the text.  What stands before
the call or after it does not count: a text is refused only if no part of it is a call, and
otherwise the final answer is that for such a part alone.

* `Call.LooksFor` : the solver does not look at anything but a call;
* `Derivative.looksFor`, `Antiderivative.looksFor`, `Definite.looksFor` : the three solvers;
* `Call.surroundings_ignored` : what surrounds a call is ignored;
* `Call.Whole` : a text that is a call and nothing else.
-/
import Stepwise.Problem.Parentheses
import Stepwise.Analysis.PowerRule
import Stepwise.Proofs.Analysis.Definite
import Stepwise.Proofs.Analysis.Place
import Stepwise.Proofs.Problem.Failures

namespace Stepwise

namespace Call

/-! ## Solvers -/

/-- The solver looks for a call of the word: it refuses a text if no part of it is one, and
otherwise its final answer, or what it ends in, is that for such a part alone. -/
structure LooksFor (solver : String → Except Fault Answer) (refusal : Failure) (word : List Char)
    (Argument : List Char → Prop) : Prop where
  refused_iff : ∀ text, solver text = .error (.failure refusal) ↔
    ∀ argument, Stands word argument text.toList → ¬ Argument argument
  as_alone : ∀ text, solver text ≠ .error (.failure refusal) →
    ∃ argument, Stands word argument text.toList ∧ Argument argument ∧
      (solver text).map Answer.final =
        (solver (String.ofList (word ++ '(' :: (argument ++ [')'])))).map Answer.final

/-- A solver looks for a call if it refuses a text for want of one only, and if its final answer
depends on nothing but what is read from the call. -/
theorem LooksFor.of_reads {α : Type} {solver : String → Except Fault Answer} {refusal : Failure}
    {word : List Char} {read : List Char → Option α} {Argument : List Char → Prop}
    (hreads : Reads read Argument) (hword : word ≠ [])
    (hnone : ∀ text, findCall? word read text.toList = none →
      solver text = .error (.failure refusal))
    (hsome : ∀ text a, findCall? word read text.toList = some a →
      solver text ≠ .error (.failure refusal))
    (hfinal : ∀ text text' a, findCall? word read text.toList = some a →
      findCall? word read text'.toList = some a →
        (solver text).map Answer.final = (solver text').map Answer.final) :
    LooksFor solver refusal word Argument := by
  refine ⟨fun text => ?_, fun text h => ?_⟩
  · rw [← hreads.findCall?_eq_none_iff hword]
    constructor
    · intro hrefused
      cases hcall : findCall? word read text.toList with
      | none => rfl
      | some a => exact absurd hrefused (hsome text a hcall)
    · exact hnone text
  · cases hcall : findCall? word read text.toList with
    | none => exact absurd (hnone text hcall) h
    | some a =>
      obtain ⟨argument, hstands, hargument, halone⟩ := hreads.exists_stands hword hcall
      exact ⟨argument, hstands, hargument,
        hfinal text _ a hcall (by rwa [String.toList_ofList])⟩

end Call

open Call

/-! ## Derivatives and antiderivatives -/

theorem Derivative.looksFor :
    LooksFor (fun text => liftFailure (solve text)) .notDerivative derivativeWord
      (FreeOf '\n') := by
  refine LooksFor.of_reads (reads_freeOf (by decide)) (by decide) ?_ ?_ ?_
  · intro text h
    replace h : derivative? text.toList = none := h
    rw [solve, h]
    rfl
  · intro text a h
    replace h : derivative? text.toList = some a := h
    rw [solve, h]
    rintro ⟨⟩
  · intro text text' a h h'
    replace h : derivative? text.toList = some a := h
    replace h' : derivative? text'.toList = some a := h'
    rw [solve, solve, h, h']
    rfl

theorem Antiderivative.looksFor (settings : Settings) :
    LooksFor (solve settings) .notIntegral integralWord (FreeOf ',') := by
  refine LooksFor.of_reads (reads_freeOf (by decide)) (by decide) ?_ ?_ ?_
  · intro text h
    replace h : integral? text.toList = none := h
    rw [solve, h]
  · intro text a h
    replace h : integral? text.toList = some a := h
    suffices hfails : FailsOnly (· ≠ .failure .notIntegral) (solve settings text) by
      exact fun hrefused => hfails _ hrefused rfl
    rw [solve, h]
    exact (failsOnly_liftBreakdown _ _).bind fun _ _ => .ok _
  · intro text text' a h h'
    replace h : integral? text.toList = some a := h
    replace h' : integral? text'.toList = some a := h'
    rw [solve, solve, h, h']
    simp only [map_bind_except]
    rfl

/-! ## Definite integrals -/

namespace Definite

variable {settings : Settings}

/-- A bound is not refused as an integral is. -/
theorem failsOnly_bound (label : String) (s : List Char) :
    FailsOnly (· ≠ .failure .notDefiniteIntegral) (evaluateBound settings label s).outcome := by
  have hreduce : FailsOnly (· ≠ Fault.failure .notDefiniteIntegral)
      (liftFailure (Arithmetic.reduce settings (String.ofList s).toList)) := by
    refine fun fault hfault => ?_
    cases hresult : Arithmetic.reduce settings (String.ofList s).toList with
    | ok r =>
      rw [hresult] at hfault
      cases hfault
    | error f =>
      rw [hresult] at hfault
      cases hfault
      have hform := Arithmetic.failsOnly_reduce_form settings _ f hresult
      rintro ⟨⟩
      rcases hform with hform | hform
      · exact hform
      · cases hform
  refine Traced.failsOnly_bind (Traced.failsOnly_bind hreduce fun r _ => ?_) fun a _ => ?_
  · rw [Traced.outcome_log_bind]
    exact .ok _
  · exact Traced.failsOnly_bind (failsOnly_liftBreakdown _ _) fun x _ => .ok _

theorem failsOnly_approximate (integrand : List Char) (a b : Double) (n : Int) :
    FailsOnly (· ≠ .failure .notDefiniteIntegral)
      (approximate settings integrand a b n).outcome := by
  unfold approximate
  split
  · exact .error (by simp)
  · refine Traced.failsOnly_bind ?_ fun samples _ => ?_
    · rw [outcome_sampleAll]
      exact .ok _
    · split
      · exact .error (by simp)
      · split
        · exact .ok _
        · exact .ok _

/-- The final answer of a definite integral depends on what is read from the call only. -/
theorem map_final_congr {text text' : String} {parts : DefiniteIntegral}
    (h : definiteIntegral? text.toList = some parts)
    (h' : definiteIntegral? text'.toList = some parts) :
    (solve settings text).outcome.map Answer.final =
      (solve settings text').outcome.map Answer.final := by
  simp only [solve, h, h']
  refine Traced.map_bind_congr Answer.final fun lower => ?_
  refine Traced.map_bind_congr Answer.final fun upper => ?_
  split
  · rfl
  · refine Traced.map_bind_congr Answer.final fun h => ?_
    refine Traced.map_bind_congr Answer.final fun value => ?_
    split
    · rfl
    · exact Traced.map_bind_congr Answer.final fun digits => rfl

theorem looksFor (settings : Settings) :
    LooksFor (fun text => (solve settings text).outcome) .notDefiniteIntegral integralWord
      Bounded := by
  refine LooksFor.of_reads reads_bounded (by decide) ?_ ?_ ?_
  · intro text h
    replace h : definiteIntegral? text.toList = none := h
    simp only [solve, h]
    rfl
  · intro text a h
    replace h : definiteIntegral? text.toList = some a := h
    suffices hfails : FailsOnly (· ≠ .failure .notDefiniteIntegral) (solve settings text).outcome by
      exact fun hrefused => hfails _ hrefused rfl
    simp only [solve, h]
    refine Traced.failsOnly_bind (failsOnly_bound _ _) fun lower _ => ?_
    refine Traced.failsOnly_bind (failsOnly_bound _ _) fun upper _ => ?_
    split
    · exact .error (by simp)
    · refine Traced.failsOnly_bind (failsOnly_liftBreakdown _ _) fun h _ => ?_
      refine Traced.failsOnly_bind (failsOnly_approximate _ _ _ _) fun value _ => ?_
      split
      · exact .error (by simp)
      · exact Traced.failsOnly_bind (failsOnly_liftBreakdown _ _) fun _ _ => .ok _
  · exact fun text text' a h h' => map_final_congr h h'

end Definite

namespace Call

/-- **What surrounds a call is ignored.**  The solvers of derivatives, of indefinite and of definite
integrals refuse a text exactly if no part of it is a call, and any other text has the final answer
of such a part. -/
theorem surroundings_ignored (settings : Settings) :
    LooksFor (fun text => liftFailure (Derivative.solve text)) .notDerivative derivativeWord
      (FreeOf '\n') ∧
    LooksFor (Antiderivative.solve settings) .notIntegral integralWord (FreeOf ',') ∧
    LooksFor (fun text => (Definite.solve settings text).outcome) .notDefiniteIntegral integralWord
      Bounded :=
  ⟨Derivative.looksFor, Antiderivative.looksFor settings, Definite.looksFor settings⟩

/-- The text is a call of the word and nothing else: white space around it apart, its last character
closes the parenthesis after the word. -/
def Whole (word s : List Char) : Prop :=
  ∃ blanks argument, Text.trim s = word ++ (blanks ++ '(' :: (argument ++ [')'])) ∧
    (∀ c ∈ blanks, Text.isBlank c = true) ∧ Parentheses.unmatched? argument = none

/-- A summand after a derivative is dropped, and a factor before an integral changes nothing. -/
theorem summand_and_factor_ignored :
    ¬ Whole derivativeWord "d/dx(x^2) + 3".toList ∧
      (∃ answer, Derivative.solve "d/dx(x^2) + 3" = .ok answer ∧ answer.final = "2x") ∧
    ¬ Whole integralWord "2*integrate(x, 0, 1)".toList ∧
      (Definite.solve {} "2*integrate(x, 0, 1)").outcome.map Answer.final =
        (Definite.solve {} "integrate(x, 0, 1)").outcome.map Answer.final := by
  refine ⟨?_, ?_, ?_, ?_⟩
  · rintro ⟨blanks, argument, htext, -⟩
    rw [show Text.trim "d/dx(x^2) + 3".toList = "d/dx(x^2) + 3".toList by decide,
      ← List.cons_append, ← List.append_assoc, ← List.append_assoc] at htext
    have hlast := congrArg List.getLast? htext
    rw [List.getLast?_concat] at hlast
    exact absurd hlast (by decide)
  · have hfinal : ((Derivative.solve "d/dx(x^2) + 3").map Answer.final).toOption = some "2x" := by
      decide +kernel
    cases hsolve : Derivative.solve "d/dx(x^2) + 3" with
    | error f =>
      rw [hsolve] at hfinal
      cases hfinal
    | ok answer =>
      rw [hsolve] at hfinal
      exact ⟨answer, rfl, Option.some.inj hfinal⟩
  · rintro ⟨blanks, argument, htext, -⟩
    have hfirst := congrArg List.head? htext
    rw [show Text.trim "2*integrate(x, 0, 1)".toList = "2*integrate(x, 0, 1)".toList by decide]
      at hfirst
    simp [integralWord] at hfirst
  · have hfactor :
        definiteIntegral? "2*integrate(x, 0, 1)".toList = some ⟨['x'], ['0'], ['1']⟩ := by
      decide
    exact Definite.map_final_congr hfactor (by decide)

end Call

end Stepwise
