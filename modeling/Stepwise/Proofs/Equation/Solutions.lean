/-
# Answers without roots

An equation between written polynomials up to the third power that is answered with no solution has
none, and one that is answered with infinitely many is true of every number, if nothing is rounded
on the way and the terms are written in one piece.

* `Equation.negative_of_final` : where a final answer without roots comes from;
* `Equation.Exact` : every number on the way to such an answer is a double;
* `Equation.exact_of_small` : this holds for whole numbers that are small enough;
* `Equation.InPieces`, `Equation.final_of_pieces` : the powers that count are seen;
* `Equation.solutions_of_solve` : answers without roots are true;
* `Equation.zeroth_power_misread` : an equation with a power that the reader does not know.
-/
import Stepwise.Proofs.Double.Power
import Stepwise.Proofs.Equation.Degrees
import Stepwise.Proofs.Problem.Spelling

namespace Stepwise

/-! ## Answers without roots -/

namespace Roots

/-- What is written for roots starts with `x`. -/
theorem head?_write {xs : List Double} {text : String} (h : write xs = .ok text) :
    text.toList.head? = some 'x' := by
  cases xs with
  | nil => cases h
  | cons x xs =>
    cases xs with
    | nil =>
      cases h
      show ("x = " ++ x.text).toList.head? = some 'x'
      rw [String.toList_append]
      rfl
    | cons y ys =>
      cases h
      rw [String.toList_append, String.toList_append]
      rfl

theorem head?_text {places : Int} {roots : List Double} {A : Arrangement} {final : String}
    (h : text places roots A = .ok final) : final.toList.head? = some 'x' := by
  obtain ⟨rounded, -, hwrite⟩ := bind_eq_ok.mp h
  exact head?_write hwrite

end Roots

/-- A cubic equation is answered with roots. -/
theorem Cubic.head?_final {settings : Settings} {k : Coefficients} {shown : String}
    (h : final settings k = .ok shown) : shown.toList.head? = some 'x' := by
  obtain ⟨root, -, hfinal⟩ := bind_eq_ok.mp h
  cases root with
  | some root =>
    simp only [finalFromRoot] at hfinal
    split at hfinal
    · cases hfinal
    · obtain ⟨solution, -, htext⟩ := bind_eq_ok.mp hfinal
      exact Roots.head?_text (liftBreakdown_eq_ok.mp htext)
  | none =>
    simp only at hfinal
    split at hfinal
    · obtain ⟨roots, -, htext⟩ := bind_eq_ok.mp (liftBreakdown_eq_ok.mp hfinal)
      exact Roots.head?_text htext
    · cases hfinal

/-- The formula yields no roots only where the discriminant is neither positive nor zero. -/
theorem Quadratic.discriminant_of_isEmpty {a b c : Double} {solution : Solution}
    (h : solveCoefficients a b c = .ok solution) (hempty : solution.roots.isEmpty = true) :
    Double.lt 0 (discriminant a b c) = false ∧ (discriminant a b c).isZero = false := by
  rcases roots_of_solveCoefficients h with ⟨-, -, hroots⟩ | ⟨-, -, -, hroots⟩ | ⟨hpos, hzero, -⟩
  · rw [hroots] at hempty
    cases hempty
  · rw [hroots] at hempty
    cases hempty
  · exact ⟨hpos, hzero⟩

namespace Equation

/-- **Where a final answer without roots comes from**: from a quadratic equation without a real
root, or from an equation whose powers have all gone. -/
theorem negative_of_final {settings : Settings} {left right : Coefficients} {shown : String}
    (h : final settings true left right = .ok shown) (hshown : shown.toList.head? ≠ some 'x') :
    (left - right).a.isZero = true ∧
      ((left - right).b.isZero = false ∧ shown = Quadratic.noRoots ∧
        Double.lt 0 (Quadratic.discriminant (left - right).b (left - right).c (left - right).d) =
          false ∧
        (Quadratic.discriminant (left - right).b (left - right).c (left - right).d).isZero = false ∨
      (left - right).b.isZero = true ∧ (left - right).c.isZero = true ∧
        shown = if (right.d - left.d).isZero then "Infinite solutions" else "No solution") := by
  simp only [final, Bool.true_and] at h
  split at h
  · exact absurd (Cubic.head?_final h) hshown
  · next hcube =>
    refine ⟨by simpa using hcube, ?_⟩
    split at h
    · next hsquare =>
      refine .inl ⟨by simpa using hsquare, ?_⟩
      obtain ⟨solution, hsolution, hfinal⟩ := bind_eq_ok.mp (liftBreakdown_eq_ok.mp h)
      split at hfinal
      · next hempty =>
        exact ⟨(Except.ok.inj hfinal).symm, Quadratic.discriminant_of_isEmpty hsolution hempty⟩
      · exact absurd (Roots.head?_text hfinal) hshown
    · next hsquare =>
      refine .inr ⟨by simpa using hsquare, ?_⟩
      have hlinear := Except.ok.inj h
      simp only [Linear.final] at hlinear
      split at hlinear
      · next hslope => exact ⟨hslope, hlinear.symm⟩
      · refine absurd ?_ hshown
        rw [← hlinear]
        show ("x = " ++ _).toList.head? = some 'x'
        rw [String.toList_append]
        rfl

/-! ## Exact coefficients -/

open Stepwise.Polynomial (Monomial sumAt)
open SignedSum (units magnitude)

/-- The coefficient of a power in the difference of the sides. -/
def net (n : Fin 4) (l r : SignedSum Monomial) : ℚ := units n l.terms - units n r.terms

/-- The numbers of both sides are doubles, and so is every number on the way to the differences of
their coefficients and to the discriminant. -/
structure Exact (l r : SignedSum Monomial) : Prop where
  left : l.Exact
  right : r.Exact
  differences : ∀ n, Representable (net n l r)
  square : Representable (net 1 l r * net 1 l r)
  fourfold : Representable (4 * net 2 l r)
  product : Representable (4 * net 2 l r * net 0 l r)
  discriminant : Representable (net 1 l r * net 1 l r - 4 * net 2 l r * net 0 l r)

variable {l r : SignedSum Monomial}

theorem net_whole (h : ∀ t ∈ l.terms ++ r.terms, ∃ k : ℤ, t.term.coefficient.value = k)
    (n : Fin 4) : ∃ k : ℤ, net n l r = k := by
  obtain ⟨hleft, hright⟩ := List.forall_mem_append.mp h
  obtain ⟨i, hi⟩ := SignedSum.units_whole hleft n
  obtain ⟨j, hj⟩ := SignedSum.units_whole hright n
  exact ⟨i - j, by rw [net, hi, hj, Int.cast_sub]⟩

/-- The coefficients of the difference together are not greater than the numbers of both sides. -/
theorem sum_abs_net_le (l r : SignedSum Monomial) :
    ∑ n, |net n l r| ≤ magnitude (l.terms ++ r.terms) :=
  calc ∑ n, |net n l r|
      ≤ ∑ n, (|units n l.terms| + |units n r.terms|) :=
        Finset.sum_le_sum fun n _ => abs_sub _ _
    _ ≤ magnitude (l.terms ++ r.terms) := by
        rw [Finset.sum_add_distrib, SignedSum.magnitude_append]
        exact add_le_add (SignedSum.sum_abs_units_le _) (SignedSum.sum_abs_units_le _)

theorem abs_net_le (n : Fin 4) : |net n l r| ≤ magnitude (l.terms ++ r.terms) :=
  (Finset.single_le_sum (fun n _ => abs_nonneg (net n l r)) (Finset.mem_univ n)).trans
    (sum_abs_net_le l r)

/-- The parts of the discriminant together are not greater than the square of all numbers. -/
theorem abs_square_add_product_le :
    |net 1 l r * net 1 l r| + |4 * net 2 l r * net 0 l r| ≤
      magnitude (l.terms ++ r.terms) ^ 2 := by
  have hsum := sum_abs_net_le l r
  rw [Fin.sum_univ_four] at hsum
  have hzero := abs_nonneg (net 0 l r)
  have hone := abs_nonneg (net 1 l r)
  have htwo := abs_nonneg (net 2 l r)
  have hthree := abs_nonneg (net 3 l r)
  rw [abs_mul, abs_mul, abs_mul, abs_of_pos (by norm_num : (0 : ℚ) < 4)]
  -- Four times a product is at most the square of the sum of its factors.
  calc |net 1 l r| * |net 1 l r| + 4 * |net 2 l r| * |net 0 l r|
      ≤ |net 1 l r| ^ 2 + (|net 2 l r| + |net 0 l r|) ^ 2 := by
        nlinarith [sq_nonneg (|net 2 l r| - |net 0 l r|)]
    _ ≤ (|net 1 l r| + (|net 2 l r| + |net 0 l r|)) ^ 2 := by
        nlinarith [mul_nonneg hone (add_nonneg htwo hzero)]
    _ ≤ magnitude (l.terms ++ r.terms) ^ 2 := pow_le_pow_left₀ (by linarith) (by linarith) 2

/-- **Nothing is rounded** where the numbers are whole and the square of their sum is below
`2 ^ 53`. -/
theorem exact_of_small (hwhole : ∀ t ∈ l.terms ++ r.terms, ∃ k : ℤ, t.term.coefficient.Represents k)
    (hsmall : magnitude (l.terms ++ r.terms) ^ 2 < 2 ^ 53) : Exact l r := by
  have hbound : magnitude (l.terms ++ r.terms) < 2 ^ 27 :=
    lt_of_pow_lt_pow_left₀ 2 (by norm_num) (hsmall.trans (by norm_num))
  have hparts := SignedSum.magnitude_append l.terms r.terms
  have hleft := SignedSum.magnitude_nonneg l.terms
  have hright := SignedSum.magnitude_nonneg r.terms
  have hproducts := abs_square_add_product_le (l := l) (r := r)
  have hsquare := abs_nonneg (net 1 l r * net 1 l r)
  have hproduct := abs_nonneg (4 * net 2 l r * net 0 l r)
  have hnet := net_whole fun t ht => (hwhole t ht).imp fun _ h => h.2
  obtain ⟨i, hi⟩ := hnet 0
  obtain ⟨j, hj⟩ := hnet 1
  obtain ⟨k, hk⟩ := hnet 2
  constructor
  · exact SignedSum.exact_of_small (fun t ht => hwhole t (List.mem_append_left _ ht))
      (by linarith)
  · exact SignedSum.exact_of_small (fun t ht => hwhole t (List.mem_append_right _ ht))
      (by linarith)
  · exact fun n => representable_of_whole (hnet n) (by linarith [abs_net_le (l := l) (r := r) n])
  · refine representable_of_whole ⟨j * j, ?_⟩ (by linarith)
    rw [hj, Int.cast_mul]
  · refine representable_of_whole ⟨4 * k, ?_⟩ ?_
    · rw [hk]
      push_cast
      rfl
    · rw [abs_mul, abs_of_pos (by norm_num : (0 : ℚ) < 4)]
      linarith [abs_net_le (l := l) (r := r) 2]
  · refine representable_of_whole ⟨4 * k * i, ?_⟩ (by linarith)
    rw [hk, hi]
    push_cast
    rfl
  · refine representable_of_whole ⟨j * j - 4 * k * i, ?_⟩ ((abs_sub _ _).trans_lt (by linarith))
    rw [hj, hk, hi]
    push_cast
    rfl

/-! ## Values of the sides -/

/-- The difference of the sides by its coefficients. -/
theorem sumAt_sub (hdegrees : ∀ t ∈ l.terms ++ r.terms, t.body.degree?.isSome = true) (ρ : ℝ) :
    sumAt ρ l - sumAt ρ r =
      net 3 l r * ρ ^ 3 + net 2 l r * ρ ^ 2 + net 1 l r * ρ + net 0 l r := by
  obtain ⟨hleft, hright⟩ := List.forall_mem_append.mp hdegrees
  rw [Polynomial.sumAt_eq hleft, Polynomial.sumAt_eq hright]
  simp only [net]
  push_cast
  ring

/-- Without real roots the sides differ everywhere. -/
theorem sumAt_ne_of_discriminant
    (hdegrees : ∀ t ∈ l.terms ++ r.terms, t.body.degree?.isSome = true) (hcube : net 3 l r = 0)
    (hnegative : net 1 l r * net 1 l r - 4 * net 2 l r * net 0 l r < 0) (ρ : ℝ) :
    sumAt ρ l ≠ sumAt ρ r := by
  intro heq
  have hzero := sumAt_sub hdegrees ρ
  rw [sub_eq_zero.mpr heq, hcube, Rat.cast_zero, zero_mul, zero_add] at hzero
  have hreal : (net 1 l r : ℝ) * net 1 l r - 4 * net 2 l r * net 0 l r < 0 := by
    exact_mod_cast hnegative
  -- The square of the derivative at a root would be the discriminant.
  have hsquare : (2 * (net 2 l r : ℝ) * ρ + net 1 l r) ^ 2 =
      (net 1 l r : ℝ) * net 1 l r - 4 * net 2 l r * net 0 l r := by
    linear_combination -(4 * (net 2 l r : ℝ)) * hzero
  have hnonneg := sq_nonneg (2 * (net 2 l r : ℝ) * ρ + net 1 l r)
  linarith

/-! ## Powers in one piece -/

/-- The terms are written without white space in them. -/
def InPieces (s : List Char) (ts : List (Signed Monomial)) : Prop :=
  ∀ t ∈ ts, t.body.tokens.flatMap Token.chars <:+: s

/-- A higher power that is written in one piece is seen. -/
theorem contains_of_degree? {s : List Char} {m : Monomial}
    (h : m.tokens.flatMap Token.chars <:+: s) {n : Fin 4} (hdegree : m.degree? = some n)
    (hn : 2 ≤ n) :
    (Text.contains ['x', '^', '3'] s || Text.contains ['x', '^', '2'] s) = true := by
  cases m with
  | constant numeral =>
    obtain rfl : 0 = n := Option.some.inj hdegree
    exact absurd hn (by decide)
  | power multiplier exponent =>
    have hpiece {numeral : List Char} (hnumeral : exponent = some numeral) :
        Text.contains ('x' :: '^' :: numeral) s = true := by
      refine Text.contains_of_infix (List.IsInfix.trans (List.IsSuffix.isInfix ?_) h)
      rw [hnumeral, Monomial.tokens, List.flatMap_append]
      refine ⟨(multiplier.elim [] Polynomial.Multiplier.tokens).flatMap Token.chars, ?_⟩
      simp [Polynomial.exponentTokens, Token.chars, Operator.symbol]
    rcases Monomial.exponent_of_degree? hdegree with ⟨-, rfl⟩ | ⟨-, -, rfl⟩ | ⟨htwo, -⟩ |
      ⟨hthree, -⟩
    · exact absurd hn (by decide)
    · exact absurd hn (by decide)
    · rw [hpiece htwo, Bool.or_true]
    · rw [hpiece hthree, Bool.true_or]

/-! ## Sides that are read -/

section Sides

variable {settings : Settings} {left right : List Char}
  (hl : Token.ofChars left = .ok (l.tokens Monomial.tokens))
  (hr : Token.ofChars right = .ok (r.tokens Monomial.tokens))
  (hdegrees : ∀ t ∈ l.terms ++ r.terms, t.body.degree?.isSome = true) (h : Exact l r)

include hl hr hdegrees h

/-- The differences of the coefficients that are read. -/
theorem net_represents (n : Fin 4) :
    ((Coefficients.read left - Coefficients.read right).coefficient n).Represents (net n l r) := by
  obtain ⟨hleft, hright⟩ := List.forall_mem_append.mp hdegrees
  rw [Coefficients.coefficient_sub]
  exact (SignedSum.read_represents hl hleft h.left n).sub
    (SignedSum.read_represents hr hright h.right n) (h.differences n)

theorem isZero_iff_net (n : Fin 4) :
    ((Coefficients.read left - Coefficients.read right).coefficient n).isZero = true ↔
      net n l r = 0 := by
  have hnet := net_represents hl hr hdegrees h n
  rw [← Double.value_eq_zero_iff hnet.1, hnet.2]

/-- The difference of the constants, with the sides exchanged. -/
theorem isZero_constant_iff :
    ((Coefficients.read right).d - (Coefficients.read left).d).isZero = true ↔
      net 0 l r = 0 := by
  obtain ⟨hleft, hright⟩ := List.forall_mem_append.mp hdegrees
  have hneg : units 0 r.terms - units 0 l.terms = -net 0 l r := (neg_sub _ _).symm
  have hconstant := (SignedSum.read_represents hr hright h.right 0).sub
    (SignedSum.read_represents hl hleft h.left 0) (hneg ▸ (h.differences 0).neg)
  rw [hneg] at hconstant
  have hvalue := Double.value_eq_zero_iff hconstant.1
  rw [hconstant.2, neg_eq_zero] at hvalue
  exact hvalue.symm

/-- The discriminant that is computed is the exact one. -/
theorem discriminant_represents :
    (Quadratic.discriminant (Coefficients.read left - Coefficients.read right).b
      (Coefficients.read left - Coefficients.read right).c
      (Coefficients.read left - Coefficients.read right).d).Represents
        (net 1 l r * net 1 l r - 4 * net 2 l r * net 0 l r) := by
  have hnet := net_represents hl hr hdegrees h
  have hfour : (4 : Double).Represents 4 := by decide +kernel
  have hproduct := (hfour.mul (hnet 2) h.fourfold).mul (hnet 0) h.product
  exact ((hnet 1).mul (hnet 1) h.square).sub hproduct h.discriminant

/-- In an equation that is written in pieces, the powers that count are seen. -/
theorem final_of_pieces {s : List Char} (hpieces : InPieces s (l.terms ++ r.terms)) :
    final settings (Text.contains ['x', '^', '3'] s || Text.contains ['x', '^', '2'] s)
        (Coefficients.read left) (Coefficients.read right) =
      final settings true (Coefficients.read left) (Coefficients.read right) := by
  cases hseen : Text.contains ['x', '^', '3'] s || Text.contains ['x', '^', '2'] s with
  | true => rfl
  | false =>
    have hzero {n : Fin 4} (hn : 2 ≤ n) :
        ((Coefficients.read left - Coefficients.read right).coefficient n).isZero = true := by
      have hne : ∀ t ∈ l.terms ++ r.terms, t.body.degree? ≠ some n := by
        intro t ht hdegree
        rw [contains_of_degree? (hpieces t ht) hdegree hn] at hseen
        cases hseen
      obtain ⟨hleft, hright⟩ := List.forall_mem_append.mp hne
      rw [isZero_iff_net hl hr hdegrees h, net, SignedSum.units_eq_zero hleft,
        SignedSum.units_eq_zero hright, sub_zero]
    have ha := hzero (n := 3) (by decide)
    have hb := hzero (n := 2) (by decide)
    rw [final_of_isZero ha hb, final_of_isZero ha hb]

/-- **What answers without roots say** about the sides, where the powers are looked at. -/
theorem solutions_of_final {shown : String}
    (hfinal : final settings true (Coefficients.read left) (Coefficients.read right) = .ok shown) :
    (shown = "No real solutions" ∨ shown = "No solution" → ∀ ρ : ℝ, sumAt ρ l ≠ sumAt ρ r) ∧
      (shown = "Infinite solutions" → ∀ ρ : ℝ, sumAt ρ l = sumAt ρ r) := by
  have hiff := isZero_iff_net hl hr hdegrees h
  by_cases hroots : shown.toList.head? = some 'x'
  · refine ⟨?_, ?_⟩
    · rintro (rfl | rfl) <;> exact absurd hroots (by decide)
    · rintro rfl
      exact absurd hroots (by decide)
  obtain ⟨ha, ⟨-, rfl, hpositive, hzero⟩ | ⟨hb, hc, hshown⟩⟩ := negative_of_final hfinal hroots
  · -- A quadratic equation without real roots
    have hdiscriminant := discriminant_represents hl hr hdegrees h
    have hnegative : net 1 l r * net 1 l r - 4 * net 2 l r * net 0 l r < 0 := by
      rw [← hdiscriminant.2]
      refine lt_of_le_of_ne (not_lt.mp fun hlt => ?_) fun heq => ?_
      · rw [(Double.zero_lt_iff hdiscriminant.1).mpr hlt] at hpositive
        cases hpositive
      · rw [(Double.value_eq_zero_iff hdiscriminant.1).mp heq] at hzero
        cases hzero
    exact ⟨fun _ => sumAt_ne_of_discriminant hdegrees ((hiff 3).mp ha) hnegative, fun heq =>
      absurd heq (by decide)⟩
  · -- An equation between constants
    have hsub (ρ : ℝ) : sumAt ρ l - sumAt ρ r = net 0 l r := by
      rw [sumAt_sub hdegrees, (hiff 3).mp ha, (hiff 2).mp hb, (hiff 1).mp hc]
      simp
    have hconstant := isZero_constant_iff hl hr hdegrees h
    by_cases hzero : net 0 l r = 0
    · rw [if_pos (hconstant.mpr hzero)] at hshown
      subst hshown
      refine ⟨?_, fun _ ρ => ?_⟩
      · rintro (heq | heq) <;> exact absurd heq (by decide)
      · rw [← sub_eq_zero, hsub, hzero, Rat.cast_zero]
    · rw [if_neg fun heq => hzero (hconstant.mp heq)] at hshown
      subst hshown
      refine ⟨fun _ ρ => ?_, fun heq => absurd heq (by decide)⟩
      rw [← sub_ne_zero, hsub]
      exact_mod_cast hzero

end Sides

/-! ## Solutions -/

/-- The tokens of written polynomials are plain. -/
theorem plain_of_mem_tokens {sum : SignedSum Monomial} {token : Token}
    (h : token ∈ sum.tokens Monomial.tokens) : token.Plain := by
  rcases SignedSum.of_mem_tokens h with rfl | rfl | ⟨t, -, hmem⟩
  · trivial
  · trivial
  · rcases Monomial.mem_tokens hmem with ⟨n, rfl⟩ | hother
    · trivial
    · simp only [List.mem_cons, List.not_mem_nil, or_false] at hother
      rcases hother with rfl | rfl | rfl
      · rfl
      · trivial
      · trivial

/-- **Answers without roots are true**: an equation that is answered with no solution has none, and
one that is answered with infinitely many is true of every number. -/
theorem solutions_of_solve {settings : Settings} {text : String} {answer : Answer}
    (htext : Spells (Problem.normalize text.toList) (l.tokens Monomial.tokens)
      (r.tokens Monomial.tokens))
    (hpieces : InPieces (Problem.normalize text.toList) (l.terms ++ r.terms))
    (hdegrees : ∀ t ∈ l.terms ++ r.terms, t.body.degree?.isSome = true) (hexact : Exact l r)
    (hsolve : (Problem.solve settings text).outcome = .ok answer) :
    (answer.final = "No real solutions" ∨ answer.final = "No solution" →
        ∀ ρ : ℝ, sumAt ρ l ≠ sumAt ρ r) ∧
      (answer.final = "Infinite solutions" → ∀ ρ : ℝ, sumAt ρ l = sumAt ρ r) := by
  have hfinal := Problem.final_of_solve hsolve
  have hplain : ∀ token ∈ l.tokens Monomial.tokens ++ r.tokens Monomial.tokens, token.Plain :=
    fun token ht => (List.mem_append.mp ht).elim plain_of_mem_tokens plain_of_mem_tokens
  obtain ⟨left, right, -, hl, hr, hstated⟩ :=
    Problem.final_of_spells hplain (Problem.length_le_of_final hfinal) htext
  rw [hfinal, final_of_pieces hl hr hdegrees hexact hpieces] at hstated
  split at hstated
  · cases hequation : final settings true (Coefficients.read left) (Coefficients.read right) with
    | error fault =>
      rw [hequation] at hstated
      cases hstated
    | ok shown =>
      rw [hequation] at hstated
      obtain rfl := Except.ok.inj hstated
      exact solutions_of_final hl hr hdegrees hexact hequation
  · cases hstated

/-- The equation `2x^2 + 3 = 1x` has no real solution. -/
theorem no_solution_of_parabola :
    ∃ answer, (Problem.solve {} "2x^2 + 3 = 1x").outcome = .ok answer ∧
      answer.final = "No real solutions" ∧ ∀ ρ : ℝ, 2 * ρ ^ 2 + 3 ≠ 1 * ρ := by
  let l : SignedSum Monomial :=
    ⟨⟨0, false, .power (some ⟨['2'], false⟩) (some ['2'])⟩, [⟨0, false, .constant ['3']⟩]⟩
  let r : SignedSum Monomial := ⟨⟨0, false, .power (some ⟨['1'], false⟩) none⟩, []⟩
  have hshown : (Problem.final {} "2x^2 + 3 = 1x").toOption = some "No real solutions" := by
    decide +kernel
  obtain ⟨answer, hsolve, hfinal⟩ := Problem.exists_of_final hshown
  have hspells : Spells (Problem.normalize "2x^2 + 3 = 1x".toList) (l.tokens Monomial.tokens)
      (r.tokens Monomial.tokens) :=
    ⟨"2x^2 + 3 ".toList, " 1x".toList, by decide +kernel, eq_ok_of_toOption (by decide +kernel),
      eq_ok_of_toOption (by decide +kernel)⟩
  have hpieces : InPieces (Problem.normalize "2x^2 + 3 = 1x".toList) (l.terms ++ r.terms) := by
    show ∀ t ∈ l.terms ++ r.terms, t.body.tokens.flatMap Token.chars <:+: _
    decide +kernel
  have hexact : Exact l r := exact_of_small
    (fun t ht => ⟨t.term.coefficient.value.num, by revert t; decide +kernel⟩) (by decide +kernel)
  have hsides := (solutions_of_solve hspells hpieces (by decide) hexact hsolve).1 (.inl hfinal)
  have hleft : (units 3 l.terms, units 2 l.terms, units 1 l.terms, units 0 l.terms) =
      (0, 2, 0, 3) := by decide +kernel
  have hright : (units 3 r.terms, units 2 r.terms, units 1 r.terms, units 0 r.terms) =
      (0, 0, 1, 0) := by decide +kernel
  simp only [Prod.mk.injEq] at hleft hright
  refine ⟨answer, hsolve, hfinal, fun ρ => ?_⟩
  have hne := hsides ρ
  rw [Polynomial.sumAt_eq (by decide), Polynomial.sumAt_eq (by decide)] at hne
  simpa [hleft, hright] using hne

/-- The zeroth power is read as `x` itself, so that `1x = 1x^0` seems to be true of every number. -/
theorem zeroth_power_misread : ∃ (l r : SignedSum Monomial) (answer : Answer),
    Spells (Problem.normalize "1x = 1x^0".toList) (l.tokens Monomial.tokens)
      (r.tokens Monomial.tokens) ∧
    (Problem.solve {} "1x = 1x^0").outcome = .ok answer ∧
      answer.final = "Infinite solutions" ∧ sumAt 2 l ≠ sumAt 2 r := by
  let l : SignedSum Monomial := ⟨⟨0, false, .power (some ⟨['1'], false⟩) none⟩, []⟩
  let r : SignedSum Monomial := ⟨⟨0, false, .power (some ⟨['1'], false⟩) (some ['0'])⟩, []⟩
  have hshown : (Problem.final {} "1x = 1x^0").toOption = some "Infinite solutions" := by
    decide +kernel
  obtain ⟨answer, hsolve, hfinal⟩ := Problem.exists_of_final hshown
  have hspells : Spells (Problem.normalize "1x = 1x^0".toList) (l.tokens Monomial.tokens)
      (r.tokens Monomial.tokens) :=
    ⟨"1x ".toList, " 1x^0".toList, by decide +kernel, eq_ok_of_toOption (by decide +kernel),
      eq_ok_of_toOption (by decide +kernel)⟩
  have hone : (Numeral.unsignedValue ['1']).value = 1 ∧ (1 : Double).value = 1 ∧
      (Numeral.unsignedValue ['0']).value = 0 := by decide +kernel
  refine ⟨l, r, answer, hspells, hsolve, hfinal, ?_⟩
  simp [sumAt, l, r, SignedSum.terms, Signed.term, Monomial.term, Term.valueAt, hone]

end Equation

end Stepwise
