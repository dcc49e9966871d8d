/-
# Bounds read back from their answers

The bounds of a definite integral are arithmetic problems of their own, and are read again from the
texts of their answers.  Since every shown number is read back, nothing is lost on the way but the
sign of a zero.

* `Definite.shownNumber_text` : the number that a text of a number shows;
* `Definite.map_outcome_evaluateBound` : a bound is the value of its text;
* `Double.display_reads_back` : shown numbers read back, alone, before other text and as bounds.
-/
import Stepwise.Proofs.Analysis.Definite
import Stepwise.Proofs.Decimal.ReadBack

namespace Stepwise

namespace Definite

/-! ## Bounds -/

/-- The text of a number shows the number, up to the sign of zero. -/
theorem shownNumber_text {x : Double} (h : x.isNaN = false) :
    shownNumber x.text = .ok x.shown := by
  rw [shownNumber, Double.text, String.toList_ofList, Double.readDouble?_display h]

/-- **A bound is the value of its text**, up to the sign of zero, though it is read from the answer
that shows the value; and it has no value where its text has none. -/
theorem map_outcome_evaluateBound (settings : Settings) (label : String) (s : List Char) :
    (evaluateBound settings label s).outcome.map Prod.fst =
      liftFailure ((Arithmetic.value settings s).map Double.shown) := by
  cases hreduce : Arithmetic.reduce settings s with
  | error f =>
    simp only [evaluateBound, Arithmetic.solve, Arithmetic.value, String.toList_ofList, hreduce]
    rfl
  | ok r =>
    have hvalue : Arithmetic.value settings s = .ok r.value := by
      rw [Arithmetic.value, hreduce]
      rfl
    have hshown := shownNumber_text (Arithmetic.isNaN_of_value hvalue)
    have hsolve : (Arithmetic.solve settings (String.ofList s)).outcome =
        .ok { final := r.value.text, steps := r.steps (String.ofList s) } := by
      simp only [Arithmetic.solve, String.toList_ofList, hreduce]
      rfl
    simp only [evaluateBound, Traced.outcome_bind, hsolve, Except.bind, Traced.outcome_ofBreakdown,
      hshown, hvalue]
    rfl

/-- A bound is some number exactly if its text is worth one that is shown alike. -/
theorem exists_evaluateBound_iff {settings : Settings} {label : String} {s : List Char}
    {y : Double} : (∃ steps, (evaluateBound settings label s).outcome = .ok (y, steps)) ↔
      ∃ x, Arithmetic.value settings s = .ok x ∧ x.shown = y := by
  have hmap := map_outcome_evaluateBound settings label s
  calc (∃ steps, (evaluateBound settings label s).outcome = .ok (y, steps))
      ↔ (evaluateBound settings label s).outcome.map Prod.fst = .ok y := by simp [map_eq_ok]
    _ ↔ (Arithmetic.value settings s).map Double.shown = .ok y := by
      rw [hmap, liftFailure_eq_ok]
    _ ↔ ∃ x, Arithmetic.value settings s = .ok x ∧ x.shown = y := map_eq_ok

end Definite

/-! ## Shown numbers -/

/-- **Shown numbers read back.**  The text of every number is read strictly as the number, up to the
sign of zero; the text of a finite number is read leniently as the number also where the text goes
on, unless the next character is a digit, a point or the letter of an exponent.  A bound of an
integral that is read from its answer is therefore the one that was evaluated. -/
theorem Double.display_reads_back :
    (∀ x : Double, x.isNaN = false →
      Numeral.readDouble? x.display = some x.shown ∧ x.shown.numericEq x = true) ∧
    (∀ x : Double, x.isZero = true → x.display = ['0']) ∧
    (∀ x : Double, x.isFinite = true → ∀ rest : List Char,
      (∀ c ∈ rest.head?, Text.isDigit c = false ∧ c ≠ '.' ∧ c ≠ 'e' ∧ c ≠ 'E') →
        Numeral.prefixValue (x.display ++ rest) = x.shown ∧
        Numeral.readSigned? (x.display ++ rest) = some (x.shown, rest)) ∧
    ∀ settings label s y,
      (∃ steps, (Definite.evaluateBound settings label s).outcome = .ok (y, steps)) ↔
        ∃ x, Arithmetic.value settings s = .ok x ∧ x.shown = y ∧ y.numericEq x = true := by
  have hequal {x : Double} (hx : x.isNaN = false) : x.shown.numericEq x = true := by
    have hsame := same_shown x
    exact hsame.symm.numericEq (hsame.isNaN_eq ▸ hx)
  refine ⟨fun x hx => ⟨readDouble?_display hx, hequal hx⟩, fun x hzero => ?_,
    fun x hx rest hrest => ⟨Numeral.prefixValue_display_append hx hrest,
      readSigned?_display hx hrest⟩, fun settings label s y => ?_⟩
  · obtain ⟨negative, rfl⟩ := eq_zero_of_isZero hzero
    cases negative <;> decide +kernel
  · rw [Definite.exists_evaluateBound_iff]
    constructor
    · rintro ⟨x, hx, rfl⟩
      exact ⟨x, hx, rfl, hequal (Arithmetic.isNaN_of_value hx)⟩
    · rintro ⟨x, hx, hshown, -⟩
      exact ⟨x, hx, hshown⟩

/-- Ten to the sixteenth is the least power of ten shown with an exponent; it is read up to the `x`
after it.  The negative zero comes back as zero, and an infinity as itself.  The bound `1/10` is
the tenth that was evaluated. -/
theorem Double.display_reads_back_exponent :
    (ofInt (10 ^ 16)).display = "1e+16".toList ∧
    Numeral.prefixValue "1e+16x".toList = ofInt (10 ^ 16) ∧
    Numeral.readDouble? (zero true).display = some (zero false) ∧
    Numeral.readDouble? "-inf".toList = some (infinity true) ∧
    ∃ steps, (Definite.evaluateBound {} "upper" "1/10".toList).outcome =
      .ok (round false (1 / 10), steps) := by
  have hdisplay : (ofInt (10 ^ 16)).display = "1e+16".toList := by decide +kernel
  have hend : ∀ c ∈ ['x'].head?, Text.isDigit c = false ∧ c ≠ '.' ∧ c ≠ 'e' ∧ c ≠ 'E' := by
    rintro c ⟨⟩
    decide
  have hprefix := (display_reads_back.2.2.1 (ofInt (10 ^ 16)) (by decide +kernel) ['x'] hend).1
  have hshown : (ofInt (10 ^ 16)).shown = ofInt (10 ^ 16) := by decide +kernel
  rw [hdisplay, hshown] at hprefix
  refine ⟨hdisplay, hprefix, (display_reads_back.1 (zero true) rfl).1,
    (display_reads_back.1 (infinity true) rfl).1, ?_⟩
  have hvalue : Arithmetic.value {} "1/10".toList = .ok (round false (1 / 10)) :=
    eq_ok_of_toOption (by decide +kernel)
  exact (display_reads_back.2.2.2 {} "upper" "1/10".toList _).mpr
    ⟨_, hvalue, by decide +kernel, by decide +kernel⟩

end Stepwise
