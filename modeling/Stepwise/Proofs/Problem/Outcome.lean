/-
# Outcomes of whole problems

What a whole problem ends in, without the events on the way.  The final answer of an equation does
not depend on its wording, but on what is read from its two sides and on whether its kind is one
that looks at higher powers.

* `FailsOnly` : the ways in which a computation can fail;
* `Traced.outcome_bind` : the outcome of a result that is continued;
* `Problem.final_eq`, `Problem.of_final` : the final answer is that of the solver of the kind;
* `Equation.final` : the final answer for what is read from two sides;
* `Problem.Kind.map_final_solve` : every solver of equations gives this answer.
-/
import Stepwise.Problem.Solve
import Stepwise.Proofs.Derivation.Value

namespace Stepwise

/-! ## Ways to fail -/

/-- Every failure of the computation has the property. -/
def FailsOnly {ε α : Type} (P : ε → Prop) (x : Except ε α) : Prop := ∀ e, x = .error e → P e

namespace FailsOnly

variable {ε α β : Type} {P Q : ε → Prop} {x : Except ε α}

theorem ok (a : α) : FailsOnly P (.ok a) := by
  intro e he
  cases he

theorem error {e : ε} (h : P e) : FailsOnly P (.error e : Except ε α) := by
  rintro _ ⟨⟩
  exact h

theorem mono (h : FailsOnly P x) (hmono : ∀ e, P e → Q e) : FailsOnly Q x := by
  intro e he
  exact hmono e (h e he)

/-- What follows a computation counts only for its result. -/
theorem bind {f : α → Except ε β} (hx : FailsOnly P x) (hf : ∀ a, x = .ok a → FailsOnly P (f a)) :
    FailsOnly P (x >>= f) := by
  intro e he
  cases h : x with
  | error e' =>
    rw [h] at he
    cases he
    exact hx e h
  | ok a =>
    rw [h] at he
    exact hf a h e he

theorem ite {c : Prop} [Decidable c] {y : Except ε α} (hx : c → FailsOnly P x)
    (hy : ¬ c → FailsOnly P y) : FailsOnly P (if c then x else y) := by
  by_cases h : c
  · rw [if_pos h]
    exact hx h
  · rw [if_neg h]
    exact hy h

end FailsOnly

/-! ## Traced results -/

namespace Traced

variable {α β : Type}

@[simp] theorem outcome_ofFailure (r : Except Failure α) :
    (ofFailure r).outcome = liftFailure r := rfl

@[simp] theorem outcome_ofBreakdown (r : Except Breakdown α) :
    (ofBreakdown r).outcome = liftBreakdown r := rfl

theorem outcome_bind (t : Traced α) (f : α → Traced β) :
    (t >>= f).outcome = t.outcome.bind fun a => (f a).outcome := by
  show (Traced.bind t f).outcome = _
  unfold Traced.bind
  cases t.outcome <;> rfl

theorem outcome_bind_eq_ok {t : Traced α} {f : α → Traced β} {b : β} :
    (t >>= f).outcome = .ok b ↔ ∃ a, t.outcome = .ok a ∧ (f a).outcome = .ok b := by
  rw [outcome_bind]
  cases t.outcome with
  | error fault => simp [Except.bind]
  | ok a => simp [Except.bind]

/-- An event does not count. -/
@[simp] theorem outcome_log_bind (event : Event) (f : Unit → Traced β) :
    (log event >>= f).outcome = (f ()).outcome := outcome_bind _ _

theorem failsOnly_bind {P : Fault → Prop} {t : Traced α} {f : α → Traced β}
    (ht : FailsOnly P t.outcome) (hf : ∀ a, t.outcome = .ok a → FailsOnly P (f a).outcome) :
    FailsOnly P (t >>= f).outcome := by
  rw [outcome_bind]
  exact ht.bind hf

/-- The part of the outcome that counts does not depend on how the rest of it is calculated. -/
theorem map_bind_congr {γ : Type} {t : Traced α} {f g : α → Traced β} (φ : β → γ)
    (h : ∀ a, (f a).outcome.map φ = (g a).outcome.map φ) :
    (t >>= f).outcome.map φ = (t >>= g).outcome.map φ := by
  rw [outcome_bind, outcome_bind]
  cases t.outcome with
  | error fault => rfl
  | ok a => exact h a

end Traced

theorem liftFailure_eq_ok {α : Type} {r : Except Failure α} {a : α} :
    liftFailure r = .ok a ↔ r = .ok a := by
  cases r <;> simp [liftFailure]

/-- A breakdown is no foreseen failure. -/
theorem failsOnly_liftBreakdown {α : Type} (f : Failure) (r : Except Breakdown α) :
    FailsOnly (· ≠ .failure f) (liftBreakdown r) := by
  cases r with
  | ok a => exact .ok a
  | error b => exact .error (by simp)

theorem liftBreakdown_eq_ok {α : Type} {r : Except Breakdown α} {a : α} :
    liftBreakdown r = .ok a ↔ r = .ok a := by
  cases r <;> simp [liftBreakdown]

/-! ## Whole problems -/

/-- A fault as a whole problem ends in it: a breakdown becomes a failure. -/
def Fault.foreseen : Fault → Fault
  | .breakdown _ => .failure .unsolvable
  | .failure f => .failure f

namespace Problem

variable {settings : Settings} {text : String} {a : Answer}

theorem Kind.outcome_solveOrFail (kind : Kind) (problem : String) :
    (kind.solveOrFail settings problem).outcome =
      (kind.solve settings problem).outcome.mapError Fault.foreseen := by
  simp only [Kind.solveOrFail]
  split
  · next b h =>
    rw [h]
    rfl
  · next hnone =>
    cases h : (kind.solve settings problem).outcome with
    | ok a => rfl
    | error fault =>
      cases fault with
      | failure f => rfl
      | breakdown b => exact absurd h (hnone b)

/-- The final answer, or what the problem ends in. -/
def final (settings : Settings) (text : String) : Except Fault String :=
  (solve settings text).outcome.map Answer.final

/-- The final answer of a solver, or what a whole problem of its kind ends in. -/
def Kind.final (settings : Settings) (kind : Kind) (problem : String) : Except Fault String :=
  ((kind.solve settings problem).outcome.map Answer.final).mapError Fault.foreseen

/-- **The final answer of a problem** is that of the solver of its kind, unless the text is refused
before that. -/
theorem final_eq (settings : Settings) (text : String) :
    final settings text =
      (liftFailure (do
        let normal ← accept settings text.toList
        checkBalance normal
        pure (asEquation normal))).bind fun stated =>
          (classify stated).final settings (String.ofList stated) := by
  unfold final solve
  rw [Traced.outcome_bind]
  cases haccept : accept settings text.toList with
  | error f => rfl
  | ok normal =>
    rw [Traced.outcome_ofFailure]
    show Except.map _ ((Traced.ofFailure (checkBalance normal) >>= _).outcome) = _
    rw [Traced.outcome_bind]
    cases hbalance : checkBalance normal with
    | error f =>
      show _ = (liftFailure (checkBalance normal >>= fun _ => pure (asEquation normal))).bind _
      rw [hbalance]
      rfl
    | ok u =>
      show Except.map _ ((Traced.log _ >>= _).outcome) =
        (liftFailure (checkBalance normal >>= fun _ => pure (asEquation normal))).bind _
      rw [hbalance, Traced.outcome_log_bind, Traced.outcome_bind, Kind.outcome_solveOrFail]
      show _ = (classify (asEquation normal)).final settings (String.ofList (asEquation normal))
      rw [Kind.final]
      cases ((classify (asEquation normal)).solve settings
        (String.ofList (asEquation normal))).outcome with
      | error fault => rfl
      | ok answer => rfl

/-- What is accepted is the normal form, and there is something in it. -/
theorem of_accept {s normal : List Char} (h : accept settings s = .ok normal) :
    normal = normalize s ∧ normal ≠ [] := by
  simp only [accept] at h
  split at h
  · cases h
  · split at h
    · cases h
    · next hne =>
      cases h
      exact ⟨rfl, by simpa using hne⟩

/-- An answer is one of the solver of the kind, for the normal form of the text. -/
theorem of_final {shown : String} (h : final settings text = .ok shown) :
    (classify (asEquation (normalize text.toList))).final settings
      (String.ofList (asEquation (normalize text.toList))) = .ok shown := by
  rw [final_eq] at h
  cases haccept : accept settings text.toList with
  | error f =>
    rw [haccept] at h
    cases h
  | ok normal =>
    obtain ⟨rfl, -⟩ := of_accept haccept
    rw [haccept] at h
    cases hbalance : checkBalance (normalize text.toList) with
    | error f =>
      replace h : (liftFailure (checkBalance (normalize text.toList) >>= fun _ =>
        pure (asEquation (normalize text.toList)))).bind _ = .ok shown := h
      rw [hbalance] at h
      cases h
    | ok u =>
      replace h : (liftFailure (checkBalance (normalize text.toList) >>= fun _ =>
        pure (asEquation (normalize text.toList)))).bind _ = .ok shown := h
      rw [hbalance] at h
      exact h

/-- A text that is too long is refused. -/
theorem final_of_tooLong (h : settings.maxInputLength < (text.toList.length : Int)) :
    final settings text = .error (.failure (.tooLong settings.maxInputLength)) := by
  rw [final_eq, accept, if_pos h]
  rfl

theorem length_le_of_final {shown : String} (h : final settings text = .ok shown) :
    (text.toList.length : Int) ≤ settings.maxInputLength := by
  refine Int.not_lt.mp fun hlong => ?_
  rw [final_of_tooLong hlong] at h
  cases h

theorem final_of_solve (h : (solve settings text).outcome = .ok a) :
    final settings text = .ok a.final := by
  rw [final, h]
  rfl

/-- A final answer can be computed. -/
theorem exists_of_final {shown : String} (h : (final settings text).toOption = some shown) :
    ∃ answer, (solve settings text).outcome = .ok answer ∧ answer.final = shown := by
  rw [final] at h
  cases hsolve : (solve settings text).outcome with
  | error fault =>
    rw [hsolve] at h
    cases h
  | ok answer =>
    rw [hsolve] at h
    exact ⟨answer, rfl, Option.some.inj h⟩

theorem Kind.of_final {kind : Kind} {problem shown : String}
    (h : kind.final settings problem = .ok shown) :
    ∃ answer, (kind.solve settings problem).outcome = .ok answer ∧ answer.final = shown := by
  rw [Kind.final] at h
  cases hsolve : (kind.solve settings problem).outcome with
  | error fault =>
    rw [hsolve] at h
    cases h
  | ok answer =>
    rw [hsolve] at h
    exact ⟨answer, rfl, Except.ok.inj h⟩

end Problem

/-! ## Equations -/

theorem Equation.sides_of_split {s left right : List Char}
    (h : Text.splitAtChar '=' s = [left, right]) (wording : String) :
    sides wording s = .ok (left, right) := by
  rw [sides, h]

theorem Equation.split_of_sides {wording : String} {s left right : List Char}
    (h : sides wording s = .ok (left, right)) : Text.splitAtChar '=' s = [left, right] := by
  unfold sides at h
  split at h
  · next heq =>
    cases h
    exact heq
  · cases h

/-- What is solved as an equation has two sides. -/
theorem Problem.Kind.exists_split {settings : Settings} {kind : Kind} {problem : String}
    {answer : Answer} (hkind : kind ∈ [.cubic, .quadratic, .linear])
    (h : (kind.solve settings problem).outcome = .ok answer) :
    ∃ left right, Text.splitAtChar '=' problem.toList = [left, right] := by
  have hsides : ∃ wording sides, Equation.sides wording problem.toList = .ok sides := by
    simp only [List.mem_cons, List.not_mem_nil, or_false] at hkind
    rcases hkind with rfl | rfl | rfl
    · obtain ⟨k, hk, -⟩ := Traced.outcome_bind_eq_ok.mp h
      rw [Traced.outcome_ofFailure, liftFailure_eq_ok] at hk
      obtain ⟨sides, hsides, -⟩ := bind_eq_ok.mp hk
      exact ⟨_, sides, hsides⟩
    · obtain ⟨k, hk, -⟩ := Traced.outcome_bind_eq_ok.mp h
      rw [Traced.outcome_ofFailure, liftFailure_eq_ok] at hk
      obtain ⟨sides, hsides, -⟩ := bind_eq_ok.mp hk
      exact ⟨_, sides, hsides⟩
    · replace h : liftFailure (Linear.solve problem) = .ok answer := h
      rw [liftFailure_eq_ok] at h
      obtain ⟨sides, hsides, -⟩ := bind_eq_ok.mp h
      exact ⟨_, sides, hsides⟩
  obtain ⟨wording, ⟨left, right⟩, hsides⟩ := hsides
  exact ⟨left, right, Equation.split_of_sides hsides⟩

section Except

variable {ε α β γ : Type}

theorem map_bind_except (x : Except ε α) (f : α → Except ε β) (g : β → γ) :
    (x >>= f).map g = x >>= fun a => (f a).map g := by
  cases x <;> rfl

theorem map_pure_except (a : α) (g : α → β) :
    (pure a : Except ε α).map g = pure (g a) := rfl

end Except

variable {settings : Settings} {k : Coefficients}

/-- The final answer of a linear equation. -/
def Linear.final (left right : Coefficients) : String :=
  let slope := left.c - right.c
  let constant := right.d - left.d
  if slope.isZero then (if constant.isZero then "Infinite solutions" else "No solution")
  else s!"x = {(constant / slope).text}"

theorem Linear.final_answer (equation : String) (left right : Coefficients) :
    (answer equation left right).final = final left right := by
  simp only [answer, final]
  split <;> rfl

/-- The final answer of a quadratic equation with given coefficients. -/
def Quadratic.final (settings : Settings) (a b c : Double) : Except Breakdown String := do
  let solution ← solveCoefficients a b c
  if solution.roots.isEmpty then pure noRoots
  else Roots.text settings.displayDecimals solution.roots settings.arrangement

theorem Quadratic.map_final_answer (equation : String) (a b c : Double) :
    (answer settings equation a b c).map Answer.final = final settings a b c := by
  simp only [answer, final, map_bind_except]
  congr 1
  funext solution
  split
  · rfl
  · simp only [map_bind_except, map_pure_except, bind_pure]

theorem Quadratic.divide_eq_ok {x y z : Double} :
    divide x y = .ok z ↔ y.isZero = false ∧ x / y = z := by
  rw [divide]
  cases y.isZero <;> simp

/-- **The roots that the quadratic formula yields**, by the sign of the discriminant. -/
theorem Quadratic.roots_of_solveCoefficients {a b c : Double} {solution : Solution}
    (h : solveCoefficients a b c = .ok solution) :
    (Double.lt 0 (discriminant a b c) = true ∧ (2 * a).isZero = false ∧
      solution.roots = [(-b + (discriminant a b c).sqrt) / (2 * a),
        (-b - (discriminant a b c).sqrt) / (2 * a)]) ∨
    (Double.lt 0 (discriminant a b c) = false ∧ (discriminant a b c).isZero = true ∧
      (2 * a).isZero = false ∧ solution.roots = [-b / (2 * a)]) ∨
    (Double.lt 0 (discriminant a b c) = false ∧ (discriminant a b c).isZero = false ∧
      solution.roots = []) := by
  simp only [solveCoefficients] at h
  split at h
  · next hpos =>
    obtain ⟨x, hx, hrest⟩ := bind_eq_ok.mp h
    obtain ⟨y, hy, hsolution⟩ := bind_eq_ok.mp hrest
    cases hsolution
    obtain ⟨hnonzero, rfl⟩ := divide_eq_ok.mp hx
    obtain ⟨-, rfl⟩ := divide_eq_ok.mp hy
    exact .inl ⟨hpos, hnonzero, rfl⟩
  · next hpos =>
    rw [Bool.not_eq_true] at hpos
    split at h
    · next hzero =>
      obtain ⟨x, hx, hsolution⟩ := bind_eq_ok.mp h
      cases hsolution
      obtain ⟨hnonzero, rfl⟩ := divide_eq_ok.mp hx
      exact .inr (.inl ⟨hpos, hzero, hnonzero, rfl⟩)
    · next hzero =>
      cases h
      exact .inr (.inr ⟨hpos, by simpa using hzero, rfl⟩)

/-- The final answer that a root of a cubic equation leads to. -/
def Cubic.finalFromRoot (settings : Settings) (k : Coefficients) (root : Double) :
    Except Fault String := do
  let b := k.b + root * k.a
  let c := k.c + root * b
  let remainder := k.d + root * c
  if settings.rootTolerance.lt remainder.abs then throw (Failure.remainderLeft : Fault)
  let solution ← liftBreakdown (Quadratic.solveCoefficients k.a b c)
  liftBreakdown <|
    Roots.text settings.rootDecimals (root :: solution.roots) settings.arrangement

theorem Cubic.map_final_answerFromRoot (equation : String) (root : Double) :
    (answerFromRoot settings equation k root).map Answer.final =
      finalFromRoot settings k root := by
  simp only [answerFromRoot, finalFromRoot]
  split
  · rfl
  · simp only [map_bind_except, map_pure_except, bind_pure]

/-- The final answer with approximated roots. -/
def Cubic.approximateFinal (settings : Settings) (k : Coefficients) : Except Breakdown String := do
  let found ← Approximation.cubicRoots k.a k.b k.c k.d
  Roots.text settings.displayDecimals (nearlyReal settings.numericTolerance found)
    settings.arrangement

theorem Cubic.map_final_approximateAnswer (equation : String) :
    (approximateAnswer settings equation k).map Answer.final = approximateFinal settings k := by
  simp only [approximateAnswer, approximateFinal, map_bind_except, map_pure_except, bind_pure]

/-- The final answer of an equation whose cubic term is not zero. -/
def Cubic.final (settings : Settings) (k : Coefficients) : Except Fault String := do
  let root ← liftBreakdown <|
    firstRoot? (doubleArithmetic settings.rootTolerance) k.a k.b k.c k.d (candidates k.a k.d)
  match root with
  | some root => finalFromRoot settings k root
  | none =>
    if settings.numericFallback then liftBreakdown (approximateFinal settings k)
    else throw (Failure.noRationalRoot : Fault)

theorem Cubic.map_final_solveWithCube (equation : String) :
    (solveWithCube settings equation k).outcome.map Answer.final = final settings k := by
  rw [solveWithCube, solveFrom, final, Traced.outcome_bind]
  show Except.map Answer.final ((root? (doubleArithmetic settings.rootTolerance)
    settings.numericFallback k.a k.b k.c k.d (candidates k.a k.d)).bind _) = _
  rw [root?]
  cases firstRoot? (doubleArithmetic settings.rootTolerance) k.a k.b k.c k.d
      (candidates k.a k.d) with
  | error b => rfl
  | ok root =>
    cases root with
    | some root => exact map_final_answerFromRoot equation root
    | none =>
      simp only [liftBreakdown]
      cases settings.numericFallback with
      | false => rfl
      | true =>
        show Except.map Answer.final
          (Traced.log _ >>= fun _ =>
            Traced.ofBreakdown (approximateAnswer settings equation k)).outcome = _
        rw [Traced.outcome_log_bind, Traced.outcome_ofBreakdown]
        show _ = liftBreakdown (approximateFinal settings k)
        rw [← map_final_approximateAnswer equation]
        cases approximateAnswer settings equation k <;> rfl

/-- The final answer of an equation for what is read from its two sides.  The wording does not
matter, but only some kinds look at the higher powers. -/
def Equation.final (settings : Settings) (higher : Bool) (left right : Coefficients) :
    Except Fault String :=
  let k := left - right
  if higher && !k.a.isZero then Cubic.final settings k
  else if higher && !k.b.isZero then liftBreakdown (Quadratic.final settings k.b k.c k.d)
  else .ok (Linear.final left right)

theorem Cubic.map_final_of_cube {equation : String} {left right : Coefficients}
    (h : k = left - right) (hcube : k.a.isZero = false) :
    (solveWithCube settings equation k).outcome.map Answer.final =
      Equation.final settings true left right := by
  simp only [Equation.final, ← h, hcube]
  exact map_final_solveWithCube equation

section Sides

variable {equation : String} {left right : List Char}
  (hsplit : Text.splitAtChar '=' equation.toList = [left, right])

include hsplit

theorem Linear.map_final_solve :
    (liftFailure (solve equation)).map Answer.final =
      .ok (final (Coefficients.read left) (Coefficients.read right)) := by
  rw [solve, Equation.sides_of_split hsplit]
  exact congrArg Except.ok (final_answer _ _ _)

theorem Equation.netCoefficients_of_split (wording : String) :
    netCoefficients wording equation.toList =
      .ok (Coefficients.read left - Coefficients.read right) := by
  rw [netCoefficients, sides_of_split hsplit]
  rfl

/-- Without a cubic term the equation is a quadratic or a linear one. -/
theorem Quadratic.map_final_solveWithoutCube
    (h : k = Coefficients.read left - Coefficients.read right) (hcube : k.a.isZero = true) :
    (solveWithoutCube settings equation k).outcome.map Answer.final =
      Equation.final settings true (Coefficients.read left) (Coefficients.read right) := by
  simp only [Equation.final, ← h, hcube, solveWithoutCube]
  cases hsquare : k.b.isZero with
  | true =>
    rw [if_pos rfl, Traced.outcome_log_bind, Traced.outcome_ofFailure]
    exact Linear.map_final_solve hsplit
  | false =>
    rw [if_neg Bool.false_ne_true, Traced.outcome_ofBreakdown]
    show _ = liftBreakdown (final settings k.b k.c k.d)
    rw [← map_final_answer equation]
    cases answer settings equation k.b k.c k.d <;> rfl

/-- **The final answer of an equation**, whichever solver is asked. -/
theorem Problem.Kind.map_final_solve {kind : Kind} (hkind : kind ∈ [.cubic, .quadratic, .linear]) :
    (kind.solve settings equation).outcome.map Answer.final =
      Equation.final settings (kind != .linear) (Coefficients.read left)
        (Coefficients.read right) := by
  obtain ⟨k, hk⟩ : ∃ k, k = Coefficients.read left - Coefficients.read right := ⟨_, rfl⟩
  simp only [List.mem_cons, List.not_mem_nil, or_false] at hkind
  rcases hkind with rfl | rfl | rfl
  · show (Cubic.solve settings equation).outcome.map Answer.final = _
    rw [Cubic.solve, Traced.outcome_bind, Traced.outcome_ofFailure,
      Equation.netCoefficients_of_split hsplit, ← hk]
    show Except.map Answer.final (if k.a.isZero = true then _ else _ : Traced Answer).outcome = _
    cases hcube : k.a.isZero with
    | true =>
      rw [if_pos rfl, Traced.outcome_log_bind]
      exact Quadratic.map_final_solveWithoutCube hsplit hk hcube
    | false => exact Cubic.map_final_of_cube hk hcube
  · show (Quadratic.solve settings equation).outcome.map Answer.final = _
    rw [Quadratic.solve, Traced.outcome_bind, Traced.outcome_ofFailure,
      Equation.netCoefficients_of_split hsplit, ← hk]
    show Except.map Answer.final (if k.a.isZero = true then _ else _ : Traced Answer).outcome = _
    cases hcube : k.a.isZero with
    | true => exact Quadratic.map_final_solveWithoutCube hsplit hk hcube
    | false =>
      rw [if_neg Bool.false_ne_true, Traced.outcome_log_bind]
      exact Cubic.map_final_of_cube hk hcube
  · exact Linear.map_final_solve hsplit

theorem Problem.Kind.final_of_split {kind : Kind} (hkind : kind ∈ [.cubic, .quadratic, .linear]) :
    kind.final settings equation =
      (Equation.final settings (kind != .linear) (Coefficients.read left)
        (Coefficients.read right)).mapError Fault.foreseen := by
  rw [Kind.final, Kind.map_final_solve hsplit hkind]

end Sides

end Stepwise
