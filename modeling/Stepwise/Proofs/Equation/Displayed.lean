/-
# Displayed equations

Some steps of a solution show an equation that stands for the whole problem.  Solving the displayed
equation instead leads to the same final answer, because its sides are read as the numbers that were
displayed, and the answer depends on these only up to the signs of zeros.

* `Equation.Shows` : texts that show two sides;
* `Problem.Kind.final_standardForm` : the standard form stands for its equation, also where it has
  no answer;
* `Linear.final_identified`, `Linear.final_isolated` : the steps of linear equations;
* `Problem.Kind.final_of_displayed` : the displayed equations of every solution.
-/
import Stepwise.Proofs.Equation.Delegation
import Stepwise.Proofs.Polynomial.Reread

namespace Stepwise

open Double Stepwise.Polynomial

/-! ## Moderate numbers -/

/-- Zero, or of a size from `10 ^ -4` to below `10 ^ 16`. -/
def Double.Moderate (x : Double) : Prop :=
  x.isFinite = true ∧ (x.value = 0 ∨ (10 : ℚ) ^ (-4 : ℤ) ≤ |x.value| ∧ |x.value| < 10 ^ 16)

theorem Double.Moderate.plain {x : Double} (h : x.Moderate) : x.Plain := plain_of_size h.1 h.2

/-- Every coefficient is zero or of a moderate size. -/
def Coefficients.Moderate (k : Coefficients) : Prop := ∀ n, (k.coefficient n).Moderate

theorem Coefficients.Moderate.plain {k : Coefficients} (h : k.Moderate) : k.Plain :=
  fun n => (h n).plain

/-- Mirrored numbers are of the same size. -/
theorem Double.Moderate.of_mirrored {s : Bool} {x y : Double} (h : x.Moderate)
    (hmirrored : Mirrored s x y) : y.Moderate := by
  have hfinite : y.isFinite = x.isFinite := by
    rw [← Same.isFinite_eq hmirrored]
    cases s with
    | false => rfl
    | true => exact isFinite_neg x
  have hsize : y.value = x.value ∨ y.value = -x.value := by
    rw [← Same.value_eq hmirrored]
    cases s with
    | false => exact .inl rfl
    | true => exact .inr (value_neg x)
  rw [Moderate, hfinite]
  rcases hsize with hvalue | hvalue
  · rw [hvalue]
    exact h
  · rw [hvalue, neg_eq_zero, abs_neg]
    exact h

/-! ## Texts with two sides -/

/-- The text shows two sides. -/
structure Equation.Shows (text : String) (s t : List Char) : Prop where
  chars : text.toList = s ++ ' ' :: '=' :: ' ' :: t
  left : '=' ∉ s
  right : '=' ∉ t

/-- The spaces around the equals sign are not read. -/
theorem Equation.Shows.exists_split {text : String} {s t : List Char} (h : Shows text s t) :
    ∃ left right, Text.splitAtChar '=' text.toList = [left, right] ∧
      Coefficients.read left = Coefficients.read s ∧
      Coefficients.read right = Coefficients.read t := by
  have hleft : '=' ∉ s ++ [' '] := by
    intro hmem
    rcases List.mem_append.mp hmem with hmem | hmem
    · exact h.left hmem
    · exact absurd hmem (by decide)
  have hright : '=' ∉ ' ' :: t := by
    intro hmem
    rcases List.mem_cons.mp hmem with heq | hmem
    · exact absurd heq (by decide)
    · exact h.right hmem
  refine ⟨s ++ [' '], ' ' :: t, ?_, ?_, rfl⟩
  · have hchars : s ++ ' ' :: '=' :: ' ' :: t = s ++ [' '] ++ '=' :: ' ' :: t := by simp
    rw [h.chars, hchars, Text.splitAtChar_append hleft, Text.splitAtChar_of_notMem hright]
  · rw [Coefficients.read, termTexts_append_blank]
    rfl

variable {settings : Settings} {left right : Coefficients}

/-! ## Linear equations -/

namespace Linear

/-- The sides of a linear equation. -/
def identifiedText (left right : Coefficients) : String :=
  s!"{sideText left.c left.d} = {sideText right.c right.d}"

/-- The equation with the terms in `x` on the left side and the constants on the right side. -/
def isolatedText (left right : Coefficients) : String :=
  s!"{(left.c - right.c).text}x = {(right.d - left.d).text}"

/-- The final answer to the text of a linear equation. -/
theorem final_of_shows {text : String} {s t : List Char} (h : Equation.Shows text s t) :
    (liftFailure (solve text)).map Answer.final =
      .ok (final (Coefficients.read s) (Coefficients.read t)) := by
  obtain ⟨_, _, hsplit, hleft, hright⟩ := h.exists_split
  rw [map_final_solve hsplit, hleft, hright]

theorem notMem_sideText {c d : Double} (hc : c.Plain) (hd : d.Plain) :
    '=' ∉ mergeSigns (c.display ++ 'x' :: ' ' :: '+' :: ' ' :: d.display) := by
  intro hmem
  rcases Text.mem_of_mem_replaceFrom hmem with hmem | hmem
  · exact absurd hmem (by decide)
  · rcases List.mem_append.mp hmem with hmem | hmem
    · exact notMem_display_of_plain (by simp) hc hmem
    · simp only [List.mem_cons, Char.reduceEq, false_or] at hmem
      exact notMem_display_of_plain (by simp) hd hmem

/-- **The identified sides have the answer of the equation.** -/
theorem final_identified (hleft : left.Plain) (hright : right.Plain) :
    (liftFailure (solve (identifiedText left right))).map Answer.final =
      .ok (final left right) := by
  have hshows : Equation.Shows (identifiedText left right)
      (mergeSigns (left.c.display ++ 'x' :: ' ' :: '+' :: ' ' :: left.d.display))
      (mergeSigns (right.c.display ++ 'x' :: ' ' :: '+' :: ' ' :: right.d.display)) := by
    refine ⟨?_, notMem_sideText (hleft 1) (hleft 0), notMem_sideText (hright 1) (hright 0)⟩
    show (sideText _ _ ++ " = " ++ sideText _ _).toList = _
    simp only [String.toList_append, sideText, String.toList_ofList, List.append_assoc]
    rfl
  have hl := read_side (hleft 1) (hleft 0)
  have hr := read_side (hright 1) (hright 0)
  rw [final_of_shows hshows]
  exact congrArg Except.ok (final_congr (hl.c.sub hr.c) (hl.d.sub hr.d))

/-- **The isolated term has the answer of the equation.** -/
theorem final_isolated (hslope : (left.c - right.c).Plain) (hconstant : (right.d - left.d).Plain) :
    (liftFailure (solve (isolatedText left right))).map Answer.final =
      .ok (final left right) := by
  have hshows : Equation.Shows (isolatedText left right)
      ((left.c - right.c).display ++ ['x']) (right.d - left.d).display := by
    refine ⟨?_, ?_, notMem_display_of_plain (by simp) hconstant⟩
    · show ((left.c - right.c).text ++ "x = " ++ (right.d - left.d).text).toList = _
      simp only [String.toList_append, Double.text, String.toList_ofList, List.append_assoc]
      rfl
    · intro hmem
      rcases List.mem_append.mp hmem with hmem | hmem
      · exact notMem_display_of_plain (by simp) hslope hmem
      · exact absurd hmem (by decide)
  have hl := read_variable hslope
  have hr := read_constant hconstant
  rw [final_of_shows hshows]
  refine congrArg Except.ok (final_congr (s := false) ?_ ?_)
  · exact (same_sub hl.c hr.c).trans (same_sub_zero _)
  · -- The constant was moved to the right side, and is on neither side now.
    have hmoved : Same (0 - (right.d - left.d)) (-(right.d - left.d)) := same_zero_add _
    exact ((same_sub hl.d hr.d).trans hmoved).trans (mirrored_sub_swap right.d left.d)

/-- **The displayed equations of a linear equation have its answer.** -/
theorem final_of_mem {text : String} (hleft : left.Moderate) (hright : right.Moderate)
    (hnet : (left - right).Moderate)
    (h : text ∈ [identifiedText left right, isolatedText left right]) :
    ((Problem.Kind.linear).solve settings text).outcome.map Answer.final =
      .ok (final left right) := by
  show (liftFailure (solve text)).map Answer.final = _
  have hslope : (left.c - right.c).Moderate := hnet 1
  have hdifference : (left.d - right.d).Moderate := hnet 0
  have hconstant : (right.d - left.d).Moderate :=
    hdifference.of_mirrored (mirrored_sub_swap left.d right.d)
  simp only [List.mem_cons, List.not_mem_nil, or_false] at h
  rcases h with rfl | rfl
  · exact final_identified hleft.plain hright.plain
  · exact final_isolated hslope.plain hconstant.plain

end Linear

/-! ## Standard form -/

/-- The standard form of an equation with given coefficients. -/
def Equation.standardForm (k : Coefficients) : String := Quadratic.standardForm [k.a, k.b, k.c, k.d]

theorem Equation.standardForm_of_isZero {k : Coefficients} (h : k.a.isZero = true) :
    standardForm k = Quadratic.standardForm [k.b, k.c, k.d] := by
  rw [standardForm, Quadratic.standardForm, denseChars_of_isZero h]
  rfl

/-- The standard form shows the coefficients on the left side and zero on the right side. -/
theorem Equation.shows_standardForm {k : Coefficients} (h : k.Plain) :
    Shows (standardForm k) (denseChars [k.a, k.b, k.c, k.d]) ['0'] := by
  refine ⟨?_, notMem_dense h, by decide⟩
  show (String.ofList _ ++ " = 0").toList = _
  rw [String.toList_append, String.toList_ofList]
  rfl

/-- **The standard form stands for its equation**: each solver ends in the same for both. -/
theorem Problem.Kind.final_standardForm {equation : String} {left right : List Char}
    (hfallback : settings.numericFallback = false)
    (hsplit : Text.splitAtChar '=' equation.toList = [left, right])
    (hnet : (Coefficients.read left - Coefficients.read right).Plain) {kind : Kind}
    (hkind : kind ∈ [.cubic, .quadratic, .linear]) :
    (kind.solve settings
      (Equation.standardForm (Coefficients.read left - Coefficients.read right))).outcome.map
        Answer.final = (kind.solve settings equation).outcome.map Answer.final := by
  obtain ⟨_, _, hsplit', hleft, hright⟩ := (Equation.shows_standardForm hnet).exists_split
  have hzero : Coefficients.read ['0'] = {} := by decide +kernel
  rw [map_final_solve hsplit' hkind, map_final_solve hsplit hkind, hleft, hright, hzero]
  exact Equation.final_congr hfallback (read_dense hnet).sub_zero _

/-! ## The steps of a solution -/

/-- The rules of the steps that show a linear equation. -/
def linearRules : List String := ["Identify Terms", "Isolate Variable Term", "Simplification"]

/-- The rule of the step that shows the standard form. -/
def standardRule : String := "Standard Form"

/-- A step that shows an equation shows that of the problem: in the solution of a linear equation
its sides or the isolated term, and otherwise, if higher powers are looked at, the standard form. -/
def Answer.Displays (answer : Answer) (higher : Bool) (left right : Coefficients) (step : Step) :
    Prop :=
  (step.rule ∈ linearRules → answer.final = Linear.final left right ∧
    step.expression ∈ [Linear.identifiedText left right, Linear.isolatedText left right]) ∧
  (step.rule = standardRule →
    higher = true ∧ step.expression = Equation.standardForm (left - right))

/-- Steps with other rules show no equations. -/
theorem Answer.displays_of_rule {answer : Answer} {higher : Bool} {step : Step}
    (h : step.rule ∉ standardRule :: linearRules) : answer.Displays higher left right step :=
  ⟨fun hrule => absurd (List.mem_cons_of_mem _ hrule) h,
    fun hrule => absurd (List.mem_cons.mpr (.inl hrule)) h⟩

/-- The steps of a linear solution show the identified sides, the isolated term, or no equation. -/
theorem Linear.cases_of_mem_steps {equation : String} {step : Step}
    (h : step ∈ (answer equation left right).steps) : step.rule ∉ standardRule :: linearRules ∨
      step.rule ≠ standardRule ∧
        step.expression ∈ [identifiedText left right, isolatedText left right] := by
  revert step
  rw [answer]
  split <;> simp [standardRule, linearRules, identifiedText, isolatedText]

theorem Linear.displays_answer {equation : String} (higher : Bool) {step : Step}
    (h : step ∈ (answer equation left right).steps) :
    (answer equation left right).Displays higher left right step := by
  rcases cases_of_mem_steps h with hrule | ⟨hrule, hexpression⟩
  · exact Answer.displays_of_rule hrule
  · exact ⟨fun _ => ⟨final_answer equation left right, hexpression⟩, fun h => absurd h hrule⟩

theorem Quadratic.rule_of_mem_steps {a b c : Double} {solution : Solution}
    (h : solveCoefficients a b c = .ok solution) {step : Step} (hstep : step ∈ solution.steps) :
    step.rule ∉ standardRule :: linearRules := by
  have hrules : ∀ rule ∈ solution.steps.map Step.rule, rule ∉ standardRule :: linearRules := by
    simp only [solveCoefficients] at h
    split at h
    · obtain ⟨x, -, h⟩ := bind_eq_ok.mp h
      obtain ⟨y, -, h⟩ := bind_eq_ok.mp h
      cases h
      show ∀ rule ∈ ["Calculate Discriminant", "Quadratic Formula", "Calculate Roots"], _
      decide
    · split at h
      · obtain ⟨x, -, h⟩ := bind_eq_ok.mp h
        cases h
        show ∀ rule ∈
          ["Calculate Discriminant", "Quadratic Formula (One Root)", "Calculate Root"], _
        decide
      · cases h
        show ∀ rule ∈ ["Calculate Discriminant", "No Real Roots"], _
        decide
  exact hrules _ (List.mem_map_of_mem hstep)

theorem Quadratic.displays_answer {equation : String} {answer : Answer}
    (hcube : (left - right).a.isZero = true)
    (h : Quadratic.answer settings equation (left - right).b (left - right).c (left - right).d =
      .ok answer) {step : Step} (hstep : step ∈ answer.steps) :
    answer.Displays true left right step := by
  obtain ⟨solution, hsolution, h⟩ := bind_eq_ok.mp h
  have hsteps : ∃ explanation, answer.steps =
      [⟨equation, "Starting with the quadratic equation.", "Initial Equation"⟩,
        ⟨standardForm [(left - right).b, (left - right).c, (left - right).d], explanation,
          standardRule⟩] ++ solution.steps := by
    simp only at h
    split at h
    · cases h
      exact ⟨_, rfl⟩
    · obtain ⟨final, -, h⟩ := bind_eq_ok.mp h
      cases h
      exact ⟨_, rfl⟩
  obtain ⟨explanation, hsteps⟩ := hsteps
  rw [hsteps] at hstep
  simp only [List.cons_append, List.nil_append, List.mem_cons] at hstep
  rcases hstep with rfl | rfl | hstep
  · exact Answer.displays_of_rule (by simp [standardRule, linearRules])
  · exact ⟨by simp [standardRule, linearRules],
      fun _ => ⟨rfl, (Equation.standardForm_of_isZero hcube).symm⟩⟩
  · exact Answer.displays_of_rule (rule_of_mem_steps hsolution hstep)

theorem Cubic.displays_answerFromRoot {equation : String} {answer : Answer} {root : Double}
    (h : answerFromRoot settings equation (left - right) root = .ok answer) {step : Step}
    (hstep : step ∈ answer.steps) : answer.Displays true left right step := by
  simp only [answerFromRoot] at h
  split at h
  · cases h
  · obtain ⟨solution, hsolution, h⟩ := bind_eq_ok.mp h
    obtain ⟨final, -, h⟩ := bind_eq_ok.mp h
    cases h
    simp only [openingSteps, List.cons_append, List.nil_append, List.mem_cons] at hstep
    rcases hstep with rfl | rfl | rfl | rfl | rfl | hstep
    · exact Answer.displays_of_rule (by simp [standardRule, linearRules])
    · exact ⟨by simp [linearRules], fun _ => ⟨rfl, rfl⟩⟩
    · exact Answer.displays_of_rule (by simp [standardRule, linearRules])
    · exact Answer.displays_of_rule (by simp [standardRule, linearRules])
    · exact Answer.displays_of_rule (by simp [standardRule, linearRules])
    · exact Answer.displays_of_rule
        (Quadratic.rule_of_mem_steps (liftBreakdown_eq_ok.mp hsolution) hstep)

theorem Cubic.displays_solveWithCube {equation : String} {answer : Answer}
    (hfallback : settings.numericFallback = false)
    (h : (solveWithCube settings equation (left - right)).outcome = .ok answer) {step : Step}
    (hstep : step ∈ answer.steps) : answer.Displays true left right step := by
  obtain ⟨root, hroot, h⟩ := Traced.outcome_bind_eq_ok.mp h
  cases root with
  | some root => exact displays_answerFromRoot h hstep
  | none =>
    -- Without a rational root there is no answer.
    obtain ⟨found, -, hfound⟩ := bind_eq_ok.mp hroot
    rw [hfallback] at hfound
    cases found <;> cases hfound

section Sides

variable {equation : String} {answer : Answer} {step : Step} {l r : List Char}
  (hsplit : Text.splitAtChar '=' equation.toList = [l, r])

include hsplit

theorem Linear.displays_solve (higher : Bool) (h : liftFailure (solve equation) = .ok answer)
    (hstep : step ∈ answer.steps) :
    answer.Displays higher (Coefficients.read l) (Coefficients.read r) step := by
  rw [solve, Equation.sides_of_split hsplit] at h
  cases h
  exact displays_answer higher hstep

theorem Quadratic.displays_solveWithoutCube {k : Coefficients}
    (hk : k = Coefficients.read l - Coefficients.read r) (hcube : k.a.isZero = true)
    (h : (solveWithoutCube settings equation k).outcome = .ok answer)
    (hstep : step ∈ answer.steps) :
    answer.Displays true (Coefficients.read l) (Coefficients.read r) step := by
  rw [solveWithoutCube] at h
  split at h
  · rw [Traced.outcome_log_bind] at h
    exact Linear.displays_solve hsplit true h hstep
  · rw [Traced.outcome_ofBreakdown, liftBreakdown_eq_ok] at h
    subst hk
    exact displays_answer hcube h hstep

/-- Both solvers of higher powers display the equations of the problem. -/
theorem HigherSolver.displays_solve {s : HigherSolver}
    (hfallback : settings.numericFallback = false)
    (h : (s.solve settings equation).outcome = .ok answer) (hstep : step ∈ answer.steps) :
    answer.Displays true (Coefficients.read l) (Coefficients.read r) step := by
  rw [outcome_solve (Equation.netCoefficients_of_split hsplit _), target] at h
  split at h
  · next hcube => exact Quadratic.displays_solveWithoutCube hsplit rfl hcube h hstep
  · exact Cubic.displays_solveWithCube hfallback h hstep

theorem Problem.Kind.displays_solve {kind : Kind} (hkind : kind ∈ [.cubic, .quadratic, .linear])
    (hfallback : settings.numericFallback = false)
    (h : (kind.solve settings equation).outcome = .ok answer) (hstep : step ∈ answer.steps) :
    answer.Displays (kind != .linear) (Coefficients.read l) (Coefficients.read r) step := by
  simp only [List.mem_cons, List.not_mem_nil, or_false] at hkind
  rcases hkind with rfl | rfl | rfl
  · exact HigherSolver.displays_solve (s := .cubic) hsplit hfallback h hstep
  · exact HigherSolver.displays_solve (s := .quadratic) hsplit hfallback h hstep
  · exact Linear.displays_solve hsplit false h hstep

end Sides

/-! ## Displayed equations -/

/-- Whole numbers below `2 ^ 53` are zero or of a moderate size. -/
theorem Coefficients.Moderate.of_represents {k : Coefficients} (f : Fin 4 → ℤ)
    (h : ∀ n, (k.coefficient n).Represents (f n)) (hf : ∀ n, (f n).natAbs < 2 ^ 53) :
    k.Moderate :=
  fun n => ⟨(h n).1, (plain_iff_size (h n).1).mp ((h n).plain (hf n))⟩

/-- A step of a solution can be computed. -/
theorem Answer.exists_step_of_any (outcome : Except Fault Answer) (final rule expression : String)
    (h : (outcome.toOption.any fun a => a.final == final &&
      a.steps.any fun s => s.rule == rule && s.expression == expression) = true) :
    ∃ answer, outcome = .ok answer ∧ answer.final = final ∧
      ∃ step ∈ answer.steps, step.rule = rule ∧ step.expression = expression := by
  cases outcome with
  | error fault => cases h
  | ok answer =>
    obtain ⟨hfinal, hstep⟩ := Bool.and_eq_true_iff.mp h
    obtain ⟨step, hmem, hentry⟩ := List.any_eq_true.mp hstep
    obtain ⟨hrule, hexpression⟩ := Bool.and_eq_true_iff.mp hentry
    exact ⟨answer, rfl, eq_of_beq hfinal, step, hmem, eq_of_beq hrule, eq_of_beq hexpression⟩

/-- **Displayed equations stand for the problem.**  If the coefficients of both sides and their
differences are zero or of a moderate size, solving a displayed equation leads to the final answer
of the problem.  The standard form also ends in the same failure where the problem has no answer. -/
theorem Problem.Kind.final_of_displayed (settings : Settings)
    (hfallback : settings.numericFallback = false) {equation : String} {left right : List Char}
    (hsplit : Text.splitAtChar '=' equation.toList = [left, right])
    (hleft : (Coefficients.read left).Moderate) (hright : (Coefficients.read right).Moderate)
    (hnet : (Coefficients.read left - Coefficients.read right).Moderate) (kind : Kind)
    (hkind : kind ∈ [.linear, .quadratic, .cubic]) :
    (∀ answer, (kind.solve settings equation).outcome = .ok answer → ∀ step ∈ answer.steps,
      (step.rule ∈ ["Identify Terms", "Isolate Variable Term", "Simplification"] →
        (Kind.linear.solve settings step.expression).outcome.map Answer.final =
          .ok answer.final) ∧
      (step.rule = "Standard Form" → ∀ solver ∈ [Kind.quadratic, .cubic],
        (solver.solve settings step.expression).outcome.map Answer.final = .ok answer.final)) ∧
    (kind ≠ .linear → ∀ solver ∈ [Kind.quadratic, .cubic],
      (solver.solve settings
        (Equation.standardForm (Coefficients.read left - Coefficients.read right))).outcome.map
          Answer.final = (kind.solve settings equation).outcome.map Answer.final) := by
  have hkind' : kind ∈ [Kind.cubic, .quadratic, .linear] := by
    simp only [List.mem_cons, List.not_mem_nil, or_false] at hkind ⊢
    tauto
  have hstandard (hhigher : (kind != .linear) = true) (solver : Kind)
      (hsolver : solver ∈ [Kind.quadratic, .cubic]) :
      (solver.solve settings
        (Equation.standardForm (Coefficients.read left - Coefficients.read right))).outcome.map
          Answer.final = (kind.solve settings equation).outcome.map Answer.final := by
    have hsolver' : solver ∈ [Kind.cubic, .quadratic, .linear] ∧ (solver != .linear) = true := by
      simp only [List.mem_cons, List.not_mem_nil, or_false] at hsolver
      rcases hsolver with rfl | rfl <;> decide
    rw [final_standardForm hfallback hsplit hnet.plain hsolver'.1,
      map_final_solve hsplit hsolver'.1, map_final_solve hsplit hkind', hsolver'.2, hhigher]
  refine ⟨fun answer hanswer step hstep => ?_, fun hne => hstandard (by simpa using hne)⟩
  have hfinal : (kind.solve settings equation).outcome.map Answer.final = .ok answer.final := by
    rw [hanswer]
    rfl
  obtain ⟨hlinear, hform⟩ := displays_solve hsplit hkind' hfallback hanswer hstep
  refine ⟨fun hrule => ?_, fun hrule solver hsolver => ?_⟩
  · obtain ⟨hanswer, hexpression⟩ := hlinear hrule
    rw [hanswer]
    exact Linear.final_of_mem hleft hright hnet hexpression
  · obtain ⟨hhigher, hexpression⟩ := hform hrule
    rw [hexpression, hstandard hhigher solver hsolver, hfinal]

/-- The standard form of `x^2 + 6 = 5x` has its two roots, and the identified sides of `3x - 4 = x`
have its solution. -/
theorem Problem.Kind.final_of_displayed_forms :
    (∃ answer, (Kind.quadratic.solve {} "x^2 + 6 = 5x").outcome = .ok answer ∧
      answer.final = "x \\in \\\x7b2, 3\\\x7d" ∧
      (Kind.cubic.solve {} "x^2 - 5x + 6 = 0").outcome.map Answer.final = .ok answer.final) ∧
    ∃ answer, (Kind.linear.solve {} "3x - 4 = x").outcome = .ok answer ∧
      answer.final = "x = 2" ∧
      (Kind.linear.solve {} "3x - 4 = 1x + 0").outcome.map Answer.final = .ok answer.final := by
  constructor
  · have hsplit : Text.splitAtChar '=' "x^2 + 6 = 5x".toList =
        ["x^2 + 6 ".toList, " 5x".toList] := by decide
    obtain ⟨answer, hanswer, hfinal, step, hstep, hrule, hexpression⟩ :=
      Answer.exists_step_of_any (Kind.quadratic.solve {} "x^2 + 6 = 5x").outcome
        "x \\in \\\x7b2, 3\\\x7d" "Standard Form" "x^2 - 5x + 6 = 0" (by decide +kernel)
    obtain ⟨hsteps, -⟩ := final_of_displayed {} rfl hsplit
      (.of_represents ![6, 0, 1, 0] (by decide +kernel) (by decide))
      (.of_represents ![0, 5, 0, 0] (by decide +kernel) (by decide))
      (.of_represents ![6, -5, 1, 0] (by decide +kernel) (by decide)) .quadratic (by decide)
    have hform := (hsteps answer hanswer step hstep).2 hrule .cubic (by decide)
    rw [hexpression] at hform
    exact ⟨answer, hanswer, hfinal, hform⟩
  · have hsplit : Text.splitAtChar '=' "3x - 4 = x".toList = ["3x - 4 ".toList, " x".toList] := by
      decide
    obtain ⟨answer, hanswer, hfinal, step, hstep, hrule, hexpression⟩ :=
      Answer.exists_step_of_any (Kind.linear.solve {} "3x - 4 = x").outcome "x = 2"
        "Identify Terms" "3x - 4 = 1x + 0" (by decide +kernel)
    obtain ⟨hsteps, -⟩ := final_of_displayed {} rfl hsplit
      (.of_represents ![-4, 3, 0, 0] (by decide +kernel) (by decide))
      (.of_represents ![0, 1, 0, 0] (by decide +kernel) (by decide))
      (.of_represents ![-4, 2, 0, 0] (by decide +kernel) (by decide)) .linear (by decide)
    have hsides := (hsteps answer hanswer step hstep).1 (by rw [hrule]; decide)
    rw [hexpression] at hsides
    exact ⟨answer, hanswer, hfinal, hsides⟩

end Stepwise
