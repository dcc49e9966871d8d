/-
# What the steps of a derivation show

Every step of an arithmetic answer shows an expression that is worth the answer.  Its text is read
back as that expression exactly when the expression is legible; a negative number that has become
the base of a power, or one shown with letters, is not read back as it was meant.

* `Reduced.mem_steps` : where the steps come from;
* `Arithmetic.value_of_legible` : a legible text is worth what its expression is worth;
* `Arithmetic.Shows` : a text that shows an expression of a given value;
* `Arithmetic.steps_of_solve` : what is true of every step.
-/
import Stepwise.Derivation.Steps
import Stepwise.Proofs.Derivation.Value
import Stepwise.Proofs.Expr.Zeros

namespace Stepwise

/-! ## The number at the end and the trees before it -/

/-- A derivation that concludes has reached the number it yields, and keeps its trace. -/
theorem Derivation.of_conclude {d : Derivation} {r : Reduced} (h : d.conclude = .ok r) :
    d.failure = none ∧ d.tree = .literal r.value ∧ r.value.isNaN = false ∧ r.trace = d.trace := by
  obtain ⟨tree, trace, failure⟩ := d
  cases failure with
  | some f => cases h
  | none =>
    cases tree with
    | literal value =>
      simp only [conclude] at h
      split at h
      · cases h
      · next hdefined =>
        cases h
        exact ⟨rfl, rfl, by simpa using hdefined, rfl⟩
    | constant name | percent value | negation operand | binary op left right | call f argument
    | group inner => cases h

namespace Expr

variable {ops : Operations} {e : Expr} {r : Reduced}

/-- The value of an expression is a number, which is what its derivation reaches. -/
theorem value_of_reduce (hfits : e.Fits .sum) (h : e.reduce ops = .ok r) :
    e.value ops = .ok r.value ∧ r.value.isNaN = false :=
  ⟨(settles_of_fits 0 hfits r.value).mp ⟨r, h, rfl⟩, (Derivation.of_conclude h).2.2.1⟩

/-- Every tree of a derivation keeps to the precedences and has the value that is reached. -/
theorem trace_of_reduce (hfits : e.Fits .sum) (h : e.reduce ops = .ok r) {entry : Entry}
    (hentry : entry ∈ r.trace) : entry.tree.Fits .sum ∧ entry.tree.value ops = .ok r.value := by
  have hvalue := (value_of_reduce hfits h).1
  obtain ⟨-, -, -, htrace⟩ := Derivation.of_conclude h
  rw [htrace] at hentry
  obtain ⟨htree, hsame⟩ := (sound_derivation 0 hfits).trace entry hentry
  refine ⟨htree, ?_⟩
  rw [value, hsame]
  exact hvalue

end Expr

/-! ## Texts of steps -/

theorem mem_withResult {text : String} {steps : List Step} {step : Step}
    (h : step ∈ withResult text steps) : step ∈ steps ∨ step = resultStep text := by
  unfold withResult at h
  split at h
  · split at h
    · exact .inl h
    · exact (List.mem_append.mp h).imp_right List.mem_singleton.mp
  · exact .inr (List.mem_singleton.mp h)

/-- A step is that of the problem, of an entry of the trace or of the bare result. -/
theorem Reduced.mem_steps {text : String} {r : Reduced} {step : Step} (h : step ∈ r.steps text) :
    step = initialStep text ∨ (∃ entry ∈ r.trace, step = entry.step) ∨
      step = resultStep (Expr.literal r.value).text := by
  unfold steps at h
  split at h
  · cases h
  · rcases mem_withResult h with h | h
    · rcases List.mem_cons.mp h with rfl | h
      · exact .inl rfl
      · obtain ⟨entry, hentry, rfl⟩ := List.mem_map.mp h
        exact .inr (.inl ⟨entry, hentry, rfl⟩)
    · exact .inr (.inr h)

namespace Arithmetic

variable {settings : Settings}

theorem of_solve {text : String} {answer : Answer}
    (h : (solve settings text).outcome = .ok answer) :
    ∃ r, reduce settings text.toList = .ok r ∧ answer.final = r.value.text ∧
      answer.steps = r.steps text := by
  cases hreduce : reduce settings text.toList with
  | error f =>
    simp only [solve, hreduce] at h
    cases h
  | ok r =>
    simp only [solve, hreduce] at h
    cases h
    exact ⟨r, rfl, rfl, rfl⟩

/-- What is reduced has been read, and what has been read keeps to the precedences. -/
theorem of_reduce {s : List Char} {r : Reduced} (h : reduce settings s = .ok r) :
    ∃ e, Expr.ofChars s = .ok e ∧ e.Fits .sum ∧
      e.reduce (standardOperations settings.maxFactorial) = .ok r := by
  obtain ⟨e, hread, hreduce⟩ := bind_eq_ok.mp h
  have hfits : e.Fits .sum := by
    obtain ⟨phrase, rfl⟩ := Phrase.exists_of_ofChars hread
    exact phrase.fits_tree
  exact ⟨e, hread, hfits, hreduce⟩

/-- An expression that can be read has the value that its derivation reaches. -/
theorem value_of_read {s : List Char} {e : Expr} {v : Double} (hread : Expr.ofChars s = .ok e)
    (hfits : e.Fits .sum) (hv : e.value (standardOperations settings.maxFactorial) = .ok v) :
    value settings s = .ok v := by
  obtain ⟨r, hr, rfl⟩ := (Expr.settles_of_fits 0 hfits v).mpr hv
  have hreduce : reduce settings s = .ok r := bind_eq_ok.mpr ⟨e, hread, hr⟩
  rw [value, hreduce]
  rfl

/-- A legible text is worth what its expression is worth. -/
theorem value_of_legible {tree : Expr} {v : Double} (hfits : tree.Fits .sum)
    (hlegible : tree.Legible .sum)
    (hv : tree.value (standardOperations settings.maxFactorial) = .ok v) :
    ∃ w, value settings tree.chars = .ok w ∧ v.Same w := by
  obtain ⟨w, hw, hsame⟩ := tree.follows_value (standardOperations_ignoresSigns _) v hv
  exact ⟨w, value_of_read (Expr.ofChars_chars hfits hlegible) hfits.shown hw, hsame⟩

/-- A text shows an expression that is worth `v`.  It is read back as the expression, up to the
signs of zeros, exactly when the expression is legible, and then it is itself worth `v`. -/
structure Shows (settings : Settings) (v : Double) (text : String) (tree : Expr) : Prop where
  written : text = tree.text
  value : tree.value (standardOperations settings.maxFactorial) = .ok v
  readBack : Expr.read text = .ok tree.shown ↔ tree.Legible .sum
  worth : tree.Legible .sum →
    ∃ w, Arithmetic.value settings text.toList = .ok w ∧ v.numericEq w = true

theorem shows_text {tree : Expr} {v : Double} (hfits : tree.Fits .sum)
    (hv : tree.value (standardOperations settings.maxFactorial) = .ok v)
    (hdefined : v.isNaN = false) : Shows settings v tree.text tree where
  written := rfl
  value := hv
  readBack := by
    rw [Expr.read, Expr.text, String.toList_ofList]
    exact Expr.ofChars_chars_iff hfits
  worth := by
    intro hlegible
    obtain ⟨w, hw, hsame⟩ := value_of_legible hfits hlegible hv
    rw [Expr.text, String.toList_ofList]
    exact ⟨w, hw, hsame.numericEq hdefined⟩

/-- An answer can be computed through the texts of its steps. -/
theorem exists_of_expressions (settings : Settings) (text : String) (expressions : List String)
    (h : ((solve settings text).outcome.toOption.map fun answer =>
      answer.steps.map Step.expression) = some expressions) :
    ∃ answer, (solve settings text).outcome = .ok answer ∧
      answer.steps.map Step.expression = expressions := by
  cases hsolve : (solve settings text).outcome with
  | error fault =>
    rw [hsolve] at h
    cases h
  | ok answer =>
    rw [hsolve] at h
    exact ⟨answer, rfl, Option.some.inj h⟩

/-- **Every step of an arithmetic answer** but the first, which repeats the problem, is that of an
entry of the trace and shows the tree of this entry, or it is that of the bare result; the trees and
the result are worth the answer. -/
theorem steps_of_solve {text : String} {answer : Answer}
    (h : (solve settings text).outcome = .ok answer) :
    ∃ r, reduce settings text.toList = .ok r ∧ value settings text.toList = .ok r.value ∧
      answer.final = r.value.text ∧ ∀ step ∈ answer.steps,
        step = initialStep text ∨
        (∃ entry ∈ r.trace, step = entry.step ∧
          Shows settings r.value step.expression entry.tree) ∨
        step = resultStep r.value.text ∧
          Shows settings r.value step.expression (.literal r.value) := by
  obtain ⟨r, hr, hfinal, hsteps⟩ := of_solve h
  obtain ⟨e, hread, hfits, hreduce⟩ := of_reduce hr
  obtain ⟨hvalue, hdefined⟩ := Expr.value_of_reduce hfits hreduce
  refine ⟨r, hr, value_of_read hread hfits hvalue, hfinal, fun step hstep => ?_⟩
  rw [hsteps] at hstep
  rcases r.mem_steps hstep with rfl | ⟨entry, hentry, rfl⟩ | rfl
  · exact .inl rfl
  · obtain ⟨htree, hv⟩ := Expr.trace_of_reduce hfits hreduce hentry
    exact .inr (.inl ⟨entry, hentry, rfl, shows_text htree hv hdefined⟩)
  · have hliteral : (Expr.literal r.value).value (standardOperations settings.maxFactorial) =
        .ok r.value := by
      change defined r.value = _
      rw [defined, hdefined]
      rfl
    exact .inr (.inr ⟨rfl, shows_text trivial hliteral hdefined⟩)

/-- The steps of `(1+2)*4` are all legible. -/
theorem steps_of_grouped_sum : ∃ answer, (solve {} "(1+2)*4").outcome = .ok answer ∧
    answer.steps.map Step.expression = ["(1+2)*4", "3 * 4", "12"] ∧
    ∃ r, reduce {} "(1+2)*4".toList = .ok r ∧ value {} "(1+2)*4".toList = .ok r.value ∧
      answer.final = r.value.text ∧ ∀ step ∈ answer.steps,
        step = initialStep "(1+2)*4" ∨
        (∃ entry ∈ r.trace, step = entry.step ∧
          Shows {} r.value step.expression entry.tree) ∨
        step = resultStep r.value.text ∧ Shows {} r.value step.expression (.literal r.value) := by
  obtain ⟨answer, hsolve, hsteps⟩ := exists_of_expressions {} "(1+2)*4" ["(1+2)*4", "3 * 4", "12"]
    (by decide +kernel)
  exact ⟨answer, hsolve, hsteps, steps_of_solve hsolve⟩

/-- The answer to `(-2)^2` has a step that shows `-2 ^ 2`, which is worth the opposite. -/
theorem squared_negative_step : value {} "(-2)^2".toList = .ok (.ofInt 4) ∧
    (∃ answer, (solve {} "(-2)^2").outcome = .ok answer ∧
      answer.steps.map Step.expression = ["(-2)^2", "-2 ^ 2", "4"]) ∧
    value {} "-2 ^ 2".toList = .ok (.ofInt (-4)) :=
  ⟨eq_ok_of_toOption (by decide +kernel), exists_of_expressions _ _ _ (by decide +kernel),
    eq_ok_of_toOption (by decide +kernel)⟩

end Arithmetic

end Stepwise
