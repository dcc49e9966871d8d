/-
# Derivatives undo antiderivatives

A polynomial with whole coefficients, each a multiple of one more than its power, has a whole
antiderivative.  The doubles in both computations are then exact and none of them is rounded for
display, so that the derivative of the antiderivative is the polynomial itself, written term by
term as it was.

* `WholeTerm.Divisible`, `WholeTerm.integral` : whole terms with a whole antiderivative;
* `Antiderivative.ofTerm_whole`, `WholeTerm.Divisible.derivative_integral` : the two rules undo each
  other;
* `Derivative.final_of_antiderivative` : so do the two solvers.
-/
import Stepwise.Proofs.Analysis.Derivative
import Stepwise.Proofs.Decimal.Places

namespace Stepwise

/-! ## Whole antiderivatives -/

namespace WholeTerm

/-- The antiderivative of a whole term, if it is whole. -/
def integral (t : WholeTerm) : WholeTerm := ⟨t.coefficient / (t.power + 1), t.power + 1⟩

/-- The coefficient is a multiple of the next power, it is not zero, and it is exact. -/
structure Divisible (t : WholeTerm) : Prop where
  ne_zero : t.coefficient ≠ 0
  dvd : ((t.power : Int) + 1) ∣ t.coefficient
  small : t.coefficient.natAbs < 2 ^ 53

instance : DecidablePred Divisible := fun t =>
  decidable_of_iff (t.coefficient ≠ 0 ∧ ((t.power : Int) + 1) ∣ t.coefficient ∧
      t.coefficient.natAbs < 2 ^ 53)
    ⟨fun ⟨hne, hdvd, hsmall⟩ => ⟨hne, hdvd, hsmall⟩,
      fun ⟨hne, hdvd, hsmall⟩ => ⟨hne, hdvd, hsmall⟩⟩

namespace Divisible

variable {t : WholeTerm}

/-- The quotient is not zero, and neither it nor the next power is too large. -/
theorem exists_eq (h : t.Divisible) :
    ∃ k : Int, t.coefficient = (t.power + 1) * k ∧ k ≠ 0 ∧ t.integral = ⟨k, t.power + 1⟩ ∧
      k.natAbs < 2 ^ 53 ∧ t.power + 1 < 2 ^ 53 := by
  obtain ⟨k, hk⟩ := h.dvd
  have hne : k ≠ 0 := by
    rintro rfl
    exact h.ne_zero (by rw [hk, mul_zero])
  have habs : t.coefficient.natAbs = (t.power + 1) * k.natAbs := by
    rw [hk, Int.natAbs_mul]
    rfl
  have hsmall := h.small
  rw [habs] at hsmall
  refine ⟨k, hk, hne, ?_, ?_, ?_⟩
  · rw [integral, hk, Int.mul_ediv_cancel_left _ (by omega)]
  · exact lt_of_le_of_lt (Nat.le_mul_of_pos_left _ (Nat.succ_pos _)) hsmall
  · exact lt_of_le_of_lt (Nat.le_mul_of_pos_right _ (Int.natAbs_pos.mpr hne)) hsmall

theorem exact (h : t.Divisible) : t.Exact := by
  obtain ⟨-, -, -, -, -, hpower⟩ := h.exists_eq
  exact ⟨h.small, by omega⟩

theorem exact_integral (h : t.Divisible) : t.integral.Exact := by
  obtain ⟨k, -, -, hintegral, hk, hpower⟩ := h.exists_eq
  rw [hintegral]
  exact ⟨hk, hpower⟩

theorem represents (h : t.Divisible) : t.term.coefficient.Represents t.coefficient :=
  Double.represents_ofInt (Double.abs_cast_lt h.small)

/-- A whole antiderivative is left out of no sum. -/
theorem isZero_integral (h : t.Divisible) : t.integral.term.coefficient.isZero = false := by
  obtain ⟨k, -, hne, hintegral, hk, -⟩ := h.exists_eq
  rw [hintegral]
  exact (Double.represents_ofInt (Double.abs_cast_lt hk)).isZero_eq_false (by exact_mod_cast hne)

/-- The derivative of a whole antiderivative is the term. -/
theorem derivative_integral (h : t.Divisible) : t.integral.derivative = t := by
  obtain ⟨k, hcoefficient, -, hintegral, -, -⟩ := h.exists_eq
  have hproduct : k * (t.power + 1 : ℕ) = t.coefficient := by
    rw [hcoefficient]
    push_cast
    ring
  rw [hintegral, derivative, hproduct, Nat.add_sub_cancel]

theorem differentiable_integral (h : t.Divisible) : t.integral.Differentiable where
  ne_zero := by
    obtain ⟨k, -, hne, hintegral, -, -⟩ := h.exists_eq
    rwa [hintegral]
  exact := h.exact_integral
  product := by
    have hsame : t.integral.coefficient * t.integral.power = t.coefficient :=
      congrArg coefficient h.derivative_integral
    rw [hsame]
    exact h.small

end Divisible

end WholeTerm

/-! ## The two rules -/

variable {t : WholeTerm}

/-- **The antiderivative of a whole term is exact.** -/
theorem Antiderivative.ofTerm_whole {places : Int} (hplaces : 0 ≤ places) (h : t.Divisible) :
    ofTerm places t.term = .ok t.integral.term := by
  obtain ⟨k, hcoefficient, hne, hintegral, hk, hpower⟩ := h.exists_eq
  have hq : ((t.power + 1 : ℕ) : ℚ) ≠ 0 := by positivity
  have hnext := Double.represents_ofNat hpower
  have hsum : Double.ofNat t.power + 1 = Double.ofNat (t.power + 1) := by
    have hrepresents := (Double.represents_ofNat h.exact.power).add Double.represents_one
      (by exact_mod_cast representable_natCast hpower)
    exact Double.Represents.eq_of_ne_zero (by exact_mod_cast hrepresents) hnext hq
  have hwhole := Double.represents_ofInt (Double.abs_cast_lt hk)
  have hquotient : Double.ofInt t.coefficient / Double.ofNat (t.power + 1) = Double.ofInt k := by
    have hvalue : (t.coefficient : ℚ) / ((t.power + 1 : ℕ) : ℚ) = k := by
      rw [hcoefficient]
      push_cast
      field_simp
    have hrepresents := h.represents.div hnext hq (by rw [hvalue]; exact ⟨_, hwhole⟩)
    rw [hvalue] at hrepresents
    exact hrepresents.eq_of_ne_zero hwhole (by exact_mod_cast hne)
  rw [hintegral]
  simp only [ofTerm, WholeTerm.term, hsum, hnext.isZero_eq_false hq, hquotient,
    Double.roundForDisplay_of_whole hplaces hwhole hne]
  rfl

/-- The antiderivative of zero is zero. -/
theorem Antiderivative.ofTerm_zero {places : Int} (hplaces : 0 ≤ places) :
    ofTerm places ⟨0, 0⟩ = .ok ⟨0, 1⟩ := by
  have hpower : (0 + 1 : Double) = 1 := by decide +kernel
  have hone : (1 : Double).isZero = false := by decide +kernel
  have hquotient : (0 : Double) / 1 = 0 := by decide +kernel
  simp only [ofTerm, hpower, hone, hquotient, Double.roundForDisplay_zero hplaces]
  rfl

/-- **The derivative of a whole antiderivative is shown as the term.** -/
theorem Derivative.shownTerm?_whole (h : t.Divisible) :
    shownTerm? t.integral.term = some t.term.chars := by
  obtain ⟨k, -, -, hintegral, -, -⟩ := h.exists_eq
  have hpower : t.integral.power ≠ 0 := by
    rw [hintegral]
    exact Nat.succ_ne_zero t.power
  rw [shownTerm?_exact h.differentiable_integral, if_neg hpower, h.derivative_integral]

/-! ## The two solvers -/

open Stepwise.Polynomial

/-- The answer to the integral of a polynomial whose terms have antiderivatives. -/
theorem Antiderivative.exists_solve {settings : Settings} {inner : List Char} (hne : inner ≠ [])
    (h : ',' ∉ inner) {us : List Term}
    (hus : (readTerms inner).mapM (ofTerm settings.displayDecimals) = .ok us) :
    ∃ a, solve settings ("integrate(" ++ String.ofList inner ++ ")") = .ok a ∧
      a.final = String.ofList
        (writeSum ((us.filter fun u => !u.coefficient.isZero).map Term.chars)) ++ " + C" := by
  rw [solve, Call.integral?_call hne h]
  simp only [hus]
  exact ⟨_, rfl, rfl⟩

section Solvers

variable {settings : Settings} {terms : List WholeTerm}

/-- **The antiderivative of a polynomial of whole terms.** -/
theorem Antiderivative.exists_solve_whole (hplaces : 0 ≤ settings.displayDecimals)
    (h : ∀ t ∈ terms, t.Divisible) :
    ∃ a, solve settings ("integrate(" ++ String.ofList (wholeChars terms) ++ ")") = .ok a ∧
      a.final = String.ofList (wholeChars (terms.map WholeTerm.integral)) ++ " + C" := by
  have hexact : ∀ t ∈ terms, t.Exact := fun t ht => (h t ht).exact
  have hcomma : ',' ∉ wholeChars terms := fun hmem =>
    absurd (of_mem_wholeChars hexact hmem) (by decide)
  by_cases hempty : terms = []
  · -- The empty sum is written as a zero, whose antiderivative is left out.
    subst hempty
    have hread : readTerms (wholeChars []) = [⟨0, 0⟩] := by decide +kernel
    have hall : (readTerms (wholeChars [])).mapM (ofTerm settings.displayDecimals) =
        .ok [⟨0, 1⟩] := by
      rw [hread, List.mapM_cons, ofTerm_zero hplaces]
      rfl
    have hdrop : [Term.mk 0 1].filter (fun u => !u.coefficient.isZero) = [] := by decide +kernel
    obtain ⟨a, ha, hfinal⟩ := exists_solve (wholeChars_ne_nil []) hcomma hall
    refine ⟨a, ha, ?_⟩
    rw [hfinal, hdrop]
    rfl
  · have hall : (readTerms (wholeChars terms)).mapM (ofTerm settings.displayDecimals) =
        .ok (terms.map fun t => t.integral.term) := by
      rw [readTerms_whole hempty hexact]
      exact mapM_map_eq_ok fun t ht => ofTerm_whole hplaces (h t ht)
    have hkeep : (terms.map fun t => t.integral.term).filter (fun u => !u.coefficient.isZero) =
        terms.map fun t => t.integral.term := by
      refine List.filter_eq_self.mpr ?_
      intro u hu
      obtain ⟨t, ht, rfl⟩ := List.mem_map.mp hu
      rw [(h t ht).isZero_integral]
      rfl
    obtain ⟨a, ha, hfinal⟩ := exists_solve (wholeChars_ne_nil terms) hcomma hall
    refine ⟨a, ha, ?_⟩
    rw [hfinal, hkeep, wholeChars, List.map_map, List.map_map]
    rfl

/-- **The derivative of the antiderivative is the polynomial**, written as it was, if its
coefficients are whole and multiples of the next powers. -/
theorem Derivative.final_of_antiderivative (hplaces : 0 ≤ settings.displayDecimals)
    (h : ∀ t ∈ terms, t.Divisible) :
    ∃ a d, Antiderivative.solve settings
        ("integrate(" ++ String.ofList (wholeChars terms) ++ ")") = .ok a ∧
      a.final = String.ofList (wholeChars (terms.map WholeTerm.integral)) ++ " + C" ∧
      solve ("d/dx(" ++ a.final ++ ")") = .ok d ∧
      d.final = String.ofList (wholeChars terms) := by
  obtain ⟨a, ha, hfinal⟩ := Antiderivative.exists_solve_whole hplaces h
  have hexact : ∀ t ∈ terms.map WholeTerm.integral, t.Exact := by
    intro u hu
    obtain ⟨t, ht, rfl⟩ := List.mem_map.mp hu
    exact (h t ht).exact_integral
  obtain ⟨inner, hinner⟩ : ∃ inner, inner =
      wholeChars (terms.map WholeTerm.integral) ++ [' ', '+', ' ', 'C'] := ⟨_, rfl⟩
  have htext : a.final = String.ofList inner := by
    rw [hfinal, hinner, String.ofList_append]
  have hne : inner ≠ [] := by
    rw [hinner]
    simp
  have hline : '\n' ∉ inner := by
    rw [hinner]
    intro hmem
    rcases List.mem_append.mp hmem with hmem | hmem
    · exact absurd (of_mem_wholeChars hexact hmem) (by decide)
    · exact absurd hmem (by decide)
  obtain ⟨d, hd, hderivative⟩ := exists_solve hne hline
  refine ⟨a, d, ha, hfinal, by rw [htext]; exact hd, ?_⟩
  rw [hderivative, hinner]
  by_cases hempty : terms = []
  · subst hempty
    decide +kernel
  · have hshown : ∀ t ∈ terms, (shownTerm? ∘ WholeTerm.term ∘ WholeTerm.integral) t =
        some t.term.chars := fun t ht => shownTerm?_whole (h t ht)
    rw [readTerms_whole_constant (by simpa using hempty) hexact, List.map_map,
      List.filterMap_map, List.filterMap_congr hshown, List.filterMap_eq_map']
    rfl

/-- Repeated and unsorted powers, units and constants. -/
theorem Derivative.final_of_antiderivative_unsorted : ∃ a d,
    Antiderivative.solve {} "integrate(-6x + 1 + 7x^6 - 2x + 4x^3 - 1)" = .ok a ∧
      a.final = "-3x^2 + x + x^7 - x^2 + x^4 - x + C" ∧
      solve ("d/dx(" ++ a.final ++ ")") = .ok d ∧
      d.final = "-6x + 1 + 7x^6 - 2x + 4x^3 - 1" := by
  have h : ∀ t ∈ [WholeTerm.mk (-6) 1, ⟨1, 0⟩, ⟨7, 6⟩, ⟨-2, 1⟩, ⟨4, 3⟩, ⟨-1, 0⟩], t.Divisible := by
    decide
  have hplaces : 0 ≤ ({} : Settings).displayDecimals := by decide
  obtain ⟨a, d, ha, hfinal, hd, hderivative⟩ := final_of_antiderivative hplaces h
  have htext : String.ofList (wholeChars
      [WholeTerm.mk (-6) 1, ⟨1, 0⟩, ⟨7, 6⟩, ⟨-2, 1⟩, ⟨4, 3⟩, ⟨-1, 0⟩]) =
      "-6x + 1 + 7x^6 - 2x + 4x^3 - 1" := by decide +kernel
  rw [htext] at ha hderivative
  exact ⟨a, d, ha, hfinal.trans (by decide +kernel), hd, hderivative⟩

end Solvers

end Stepwise
