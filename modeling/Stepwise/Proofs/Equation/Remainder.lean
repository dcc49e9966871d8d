/-
# The remainder of the division by a root

The remainder is calculated in another order than the value at the candidate that is divided out, so
that the two are rounded differently.  A root that is a double is divided out without any rounding,
because all products are whole numbers.  Elsewhere the errors grow with the cubic term at the root:
as long as it is at most a million, the remainder stays below the tolerance.

* `Cubic.Short.represents_remainder` : a root that is a double leaves no remainder;
* `Cubic.remainder_near` : the error of the remainder;
* `Cubic.Short.quotient_sizes` : the cubic term bounds the coefficients of the quotient;
* `Cubic.Tame` : coefficients at which no remainder is left;
* `Cubic.remainder_of_accepted` : accepted candidates leave no remainder;
* `Cubic.divided_out` : what is accepted is divided out without a failure.
-/
import Stepwise.Proofs.Equation.CubicRoots
import Stepwise.Proofs.Problem.Contained

namespace Stepwise

namespace Cubic

/-- The calculated remainder of the division by a root. -/
def remainderOf (k : Coefficients) (x' : Double) : Double := k.d + x' * lastOf k x'

/-! ## Roots that are doubles -/

namespace Short

variable {k : Coefficients} {a b c d : ℤ} {x : ℚ}

theorem abs_rational_root_le (h : Short k a b c d) (hroot : polynomialAt a b c d x = 0) :
    |x| ≤ 10001 := by
  have hreal : polynomialAt a b c d (x : ℝ) = 0 := by
    rw [← polynomialAt_cast, hroot, Rat.cast_zero]
  exact_mod_cast h.abs_root_le_of_root hreal

/-- **A root that is a double leaves no remainder**: every product with it is a whole number of few
digits. -/
theorem represents_remainder (h : Short k a b c d) (hroot : polynomialAt a b c d x = 0)
    (hx : Representable x) : (remainderOf k (Double.round false x)).Represents 0 := by
  obtain ⟨m, n, hm, hn, hd⟩ := exists_quotient hroot
  have hxle := h.abs_rational_root_le hroot
  have hcast {p : ℤ} (hp : |p| ≤ 10000) : |(p : ℚ)| ≤ 10000 := by exact_mod_cast hp
  have hwhole {q : ℚ} {p : ℤ} (hq : q = p) (hle : |q| ≤ 10 ^ 13) : Representable q :=
    representable_of_whole ⟨p, hq⟩ (hle.trans_lt (by norm_num))
  have hproduct {q s : ℚ} (hq : |q| ≤ s) : |x * q| ≤ 10001 * s := by
    rw [abs_mul]
    exact mul_le_mul hxle hq (abs_nonneg q) (by norm_num)
  have hfirst := hproduct (hcast h.size_a)
  have hmle : |(m : ℚ)| ≤ 10001 * 10000 + 10000 := by
    rw [hm]
    exact (abs_add_le _ _).trans (by linarith only [hcast h.size_b, hfirst])
  have hsecond := hproduct hmle
  have hnle : |(n : ℚ)| ≤ 10001 * (10001 * 10000 + 10000) + 10000 := by
    rw [hn]
    exact (abs_add_le _ _).trans (by linarith only [hcast h.size_c, hsecond])
  have hx' := Double.represents_round false hx
  have hmiddle : (middleOf k (Double.round false x)).Represents (b + x * a) := by
    refine h.represents_b.add (hx'.mul h.represents_a (hwhole (p := m - b) ?_ ?_)) ?_
    · push_cast
      linear_combination -hm
    · linarith only [hfirst]
    · exact hwhole hm.symm (by rw [← hm]; linarith only [hmle])
  have hlast : (lastOf k (Double.round false x)).Represents (c + x * m) := by
    rw [← hm] at hmiddle
    refine h.represents_c.add (hx'.mul hmiddle (hwhole (p := n - c) ?_ ?_)) ?_
    · push_cast
      linear_combination -hn
    · linarith only [hsecond]
    · exact hwhole hn.symm (by rw [← hn]; linarith only [hnle])
  rw [← hn] at hlast
  have hthird : x * n = (-d : ℤ) := by
    push_cast
    linear_combination hd
  have hremainder := h.represents_d.add (hx'.mul hlast (hwhole hthird ?_)) ?_
  · rwa [hd] at hremainder
  · rw [hthird, Int.cast_neg, abs_neg]
    linarith only [hcast h.size_d]
  · rw [hd]
    exact ⟨_, Double.represents_zero false⟩

end Short

/-! ## Rounded roots -/

/-- **The error of the remainder**, where the leading coefficient, the middle and the last one of
the quotient are small beside the powers of the root. -/
theorem remainder_near {k : Coefficients} {a b c d m n : ℤ} (h : Short k a b c d) {x' : Double}
    {x r : ℝ} (hx : x'.Near x (101 / 100) r) (hr : 1 ≤ r) (hm : (m : ℝ) = b + x * a)
    (hn : (n : ℝ) = c + x * m) (hd : (d : ℝ) + x * n = 0) (ha : |(a : ℝ)| * r ^ 3 ≤ 10 ^ 6)
    (hmiddle : |(m : ℝ)| * r ^ 2 ≤ 10 ^ 6) (hlast : |(n : ℝ)| * r ≤ 10 ^ 6) :
    (remainderOf k x').isFinite = true ∧ |((remainderOf k x').value : ℝ)| ≤ 99 / 10 ^ 11 := by
  have hpos : 0 < r := zero_lt_one.trans_le hr
  -- The sizes of the quotient's coefficients, which become a million with the powers of the root.
  obtain ⟨s, hs⟩ : ∃ s : ℝ, s = 10 ^ 6 / r ^ 2 := ⟨_, rfl⟩
  have hsquare : s * r ^ 2 = 10 ^ 6 := by
    rw [hs]
    field_simp
  have hsr : s * r * r = 10 ^ 6 := by
    rw [← hsquare]
    ring
  have hfirst : r * |(a : ℝ)| ≤ s := by
    rw [hs, le_div_iff₀ (by positivity)]
    linarith only [ha]
  have hsecond : |(m : ℝ)| ≤ s := by
    rwa [hs, le_div_iff₀ (by positivity)]
  have hthird : |(n : ℝ)| ≤ s * r := by
    refine le_of_mul_le_mul_right ?_ hpos
    rwa [hsr]
  have hone : 1 ≤ s := by
    have hleading := h.one_le_abs_leading
    exact (hr.trans (le_mul_of_one_le_right hpos.le hleading)).trans hfirst
  have hsrone : 1 ≤ s * r := one_le_mul_of_one_le_of_one_le hone hr
  have hsle : s ≤ s * r := le_mul_of_one_le_right (zero_le_one.trans hone) hr
  have hsrle : s * r ≤ 10 ^ 6 := by
    rw [← hsr]
    exact le_mul_of_one_le_right (zero_le_one.trans hsrone) hr
  have hrange {t : ℝ} (hlow : 1 ≤ t) (hhigh : t ≤ 10 ^ 6) : Double.InRange t :=
    ⟨hlow, hhigh.trans (by norm_num)⟩
  -- Each step adds one rounding for the root, one for the product and one for the sum.
  have hmiddle' : (middleOf k x').Near m (304 / 100) s := by
    have hproduct := hx.mul (Double.Near.of_whole h.represents_a) (l := 203 / 100)
      ⟨by norm_num, by norm_num⟩ ⟨le_rfl, by norm_num⟩ (hrange hone (hsle.trans hsrle)) hfirst
      (by norm_num) (by norm_num)
    rw [hm, middleOf]
    exact (Double.Near.of_whole h.represents_b).add hproduct (hrange hone (hsle.trans hsrle))
      (by rwa [← hm]) (by linarith only [hone]) (by norm_num)
  have hlast' : (lastOf k x').Near n (608 / 100) (s * r) := by
    have hproduct := hx.mul hmiddle' (t := s * r) (l := 507 / 100)
      ⟨by norm_num, by norm_num⟩ ⟨by norm_num, by norm_num⟩ (hrange hsrone hsrle)
      (mul_comm r s).le (by norm_num) (by norm_num)
    rw [hn, lastOf]
    exact (Double.Near.of_whole h.represents_c).add hproduct (hrange hsrone hsrle)
      (by rwa [← hn]) (by linarith only [hsrone]) (by norm_num)
  have hproduct := hx.mul hlast' (t := 10 ^ 6) (l := 811 / 100)
    ⟨by norm_num, by norm_num⟩ ⟨by norm_num, by norm_num⟩ (hrange (by norm_num) le_rfl)
    (by rw [mul_comm r, hsr]) (by norm_num) (by norm_num)
  have hremainder : (remainderOf k x').Near (d + x * n) 8110002 1 :=
    (Double.Near.of_whole h.represents_d).add hproduct (hrange le_rfl (by norm_num))
      (by rw [hd, abs_zero]; exact zero_le_one) (by norm_num) (by norm_num)
  refine ⟨hremainder.finite, ?_⟩
  have herror := hremainder.close.error
  rw [hd, sub_zero] at herror
  exact herror.trans (by norm_num [roundoff])

namespace Short

variable {k : Coefficients} {a b c d m n : ℤ} {x : ℚ}

/-- A rational root that is no double is not whole. -/
theorem two_le_den (h : Short k a b c d) (hroot : polynomialAt a b c d x = 0)
    (hx : ¬ Representable x) : 2 ≤ x.den := by
  have hone : x.den ≠ 1 := by
    intro hone
    refine hx (representable_of_whole ⟨x.num, (Rat.coe_int_num_of_den_eq_one hone).symm⟩ ?_)
    exact (h.abs_rational_root_le hroot).trans_lt (by norm_num)
  have hpos := x.den_pos
  omega

/-- Its denominator divides the leading coefficient. -/
theorem two_le_abs_leading (h : Short k a b c d) (hroot : polynomialAt a b c d x = 0)
    (hx : ¬ Representable x) : 2 ≤ |(a : ℝ)| := by
  have hle : (x.den : ℤ) ≤ |a| :=
    Int.le_of_dvd (abs_pos.mpr h.leading) ((dvd_abs _ _).mpr (den_dvd_of_root hroot))
  have htwo : (2 : ℤ) ≤ |a| := by
    have hden := h.two_le_den hroot hx
    omega
  exact_mod_cast htwo

/-- **The cubic term bounds the quotient.**  Above one, the last coefficient is that of the constant
term, and the middle one comes from the linear term; the root is at most `80`. -/
theorem quotient_sizes (h : Short k a b c d) (htwo : 2 ≤ |(a : ℝ)|) (hm : (m : ℝ) = b + x * a)
    (hn : (n : ℝ) = c + x * m) (hd : (d : ℝ) + x * n = 0)
    (hterm : |(a : ℝ)| * |(x : ℝ)| ^ 3 ≤ 10 ^ 6) :
    |(a : ℝ)| * max 1 |(x : ℝ)| ^ 3 ≤ 10 ^ 6 ∧ |(m : ℝ)| * max 1 |(x : ℝ)| ^ 2 ≤ 10 ^ 6 ∧
      |(n : ℝ)| * max 1 |(x : ℝ)| ≤ 10 ^ 6 := by
  rcases le_total |(x : ℝ)| 1 with hle | hge
  · have hmiddle := abs_middle_le hm
    have hproduct : |(x : ℝ)| * |(a : ℝ)| ≤ |(a : ℝ)| := mul_le_of_le_one_left (abs_nonneg _) hle
    have hlast := h.abs_last_le hm hn hd
    have hsize_a := abs_cast_le h.size_a
    have hsize_b := abs_cast_le h.size_b
    simp only [max_eq_left hle, one_pow, mul_one]
    exact ⟨by linarith only [hsize_a], by linarith only [hmiddle, hproduct, hsize_a, hsize_b],
      by linarith only [hlast, hsize_a]⟩
  · have hroot : |(x : ℝ)| ≤ 80 := by
      by_contra hfar
      have hcube : (80 : ℝ) ^ 3 ≤ |(x : ℝ)| ^ 3 := by
        gcongr
        exact (not_le.mp hfar).le
      have hlarge : 2 * (80 : ℝ) ^ 3 ≤ |(a : ℝ)| * |(x : ℝ)| ^ 3 := by gcongr
      linarith only [hterm, hlarge]
    have hlast : |(n : ℝ)| * |(x : ℝ)| ≤ 10000 := by
      rw [← abs_mul, mul_comm, ← neg_eq_of_add_eq_zero_right hd, abs_neg]
      exact abs_cast_le h.size_d
    have hmiddle : |(m : ℝ)| * |(x : ℝ)| ≤ |(n : ℝ)| + 10000 := by
      have hproduct : (m : ℝ) * x = n - c := by linarith only [hn]
      rw [← abs_mul, hproduct]
      exact (abs_sub _ _).trans (by linarith only [abs_cast_le h.size_c])
    have hsquare : |(m : ℝ)| * |(x : ℝ)| ^ 2 ≤ (|(n : ℝ)| + 10000) * |(x : ℝ)| := by
      rw [pow_two, ← mul_assoc]
      gcongr
    rw [max_eq_right hge]
    exact ⟨hterm, by linarith only [hsquare, hlast, hroot], by linarith only [hlast]⟩

end Short

end Cubic

/-! ## Remainders beside the tolerance -/

namespace Double

/-- A product with zero is zero or undefined. -/
theorem zero_mul_cases (s : Bool) (y : Double) :
    zero s * y = .nan ∨ (zero s * y).Represents 0 := by
  by_cases hy : y.isFinite = true
  · have hproduct := (represents_zero s).mul (show y.Represents y.value from ⟨hy, rfl⟩)
      (by rw [zero_mul]; exact ⟨_, represents_zero s⟩)
    rw [zero_mul] at hproduct
    exact .inr hproduct
  · left
    cases y with
    | nan | infinity negative => rfl
    | finite negative m e hc => exact absurd rfl hy

theorem lt_nan (x : Double) : x.lt .nan = false := by
  cases x <;> rfl

end Double

namespace Cubic

/-- A remainder that is small enough does not exceed the tolerance. -/
theorem rootTolerance_lt_eq_false {y : Double} (hy : y.isFinite = true)
    (hsmall : |(y.value : ℝ)| ≤ 99 / 10 ^ 11) :
    ({} : Settings).rootTolerance.lt y.abs = false := by
  have habs : y.abs.isFinite = true := (Double.isFinite_abs y).trans hy
  have htolerance : 99 / 10 ^ 11 ≤ ({} : Settings).rootTolerance.value := by decide +kernel
  have hsmall' : |y.value| ≤ 99 / 10 ^ 11 := by
    have hcast : ((|y.value| : ℚ) : ℝ) ≤ ((99 / 10 ^ 11 : ℚ) : ℝ) := by
      push_cast
      exact hsmall
    exact Rat.cast_le.mp hcast
  rw [← Bool.not_eq_true, Double.lt_iff rootTolerance_bounds.1 habs, Double.value_abs, not_lt]
  exact hsmall'.trans htolerance

theorem rootTolerance_lt_zero {y : Double} (hy : y.Represents 0) :
    ({} : Settings).rootTolerance.lt y.abs = false := by
  refine rootTolerance_lt_eq_false hy.1 ?_
  rw [hy.2, Rat.cast_zero, abs_zero]
  norm_num

/-- If the constant term is zero, so is the candidate, and whatever the other coefficients are,
there is no remainder. -/
theorem remainder_of_zero {k : Coefficients} (hd : k.d.Represents 0) (s : Bool) :
    ({} : Settings).rootTolerance.lt (remainderOf k (.zero s)).abs = false := by
  rcases Double.zero_mul_cases s (lastOf k (.zero s)) with hnan | hzero
  · rw [remainderOf, hnan, Double.add_nan]
    exact Double.lt_nan _
  · have hsum := hd.add hzero (by rw [add_zero]; exact ⟨_, Double.represents_zero s⟩)
    rw [add_zero] at hsum
    exact rootTolerance_lt_zero hsum

namespace Short

variable {k : Coefficients} {a b c d : ℤ} {x : ℚ}

/-- A root leaves no remainder if it is a double or its cubic term is at most a million. -/
theorem remainder_of_root (h : Short k a b c d) (hroot : polynomialAt a b c d x = 0)
    (hx : Representable x ∨ |a * x ^ 3| ≤ 10 ^ 6) :
    ({} : Settings).rootTolerance.lt (remainderOf k (Double.round false x)).abs = false := by
  by_cases hdouble : Representable x
  · exact rootTolerance_lt_zero (h.represents_remainder hroot hdouble)
  have hterm : |(a : ℝ)| * |(x : ℝ)| ^ 3 ≤ 10 ^ 6 := by
    rw [← abs_pow, ← abs_mul]
    exact_mod_cast hx.resolve_left hdouble
  obtain ⟨m, n, hm, hn, hd⟩ := exists_quotient hroot
  replace hm : (m : ℝ) = b + x * a := by exact_mod_cast congrArg (Rat.cast (K := ℝ)) hm
  replace hn : (n : ℝ) = c + x * m := by exact_mod_cast congrArg (Rat.cast (K := ℝ)) hn
  replace hd : (d : ℝ) + x * n = 0 := by exact_mod_cast congrArg (Rat.cast (K := ℝ)) hd
  obtain ⟨ha, hmiddle, hlast⟩ :=
    h.quotient_sizes (h.two_le_abs_leading hroot hdouble) hm hn hd hterm
  have hxle : |(x : ℝ)| ≤ 10001 := by exact_mod_cast h.abs_rational_root_le hroot
  obtain ⟨hfinite, hsmall⟩ :=
    remainder_near h (near_candidate hxle) (le_max_left _ _) hm hn hd ha hmiddle hlast
  exact rootTolerance_lt_eq_false hfinite hsmall

end Short

/-! ## Accepted candidates -/

/-- Coefficients at which no candidate leaves a remainder.  Where there are candidates other than
zero, which takes whole outer coefficients, all coefficients are short, and each rational root is a
double or has a cubic term of at most a million. -/
def Tame (k : Coefficients) : Prop :=
  ∀ a d : ℤ, a ≠ 0 → d ≠ 0 → k.a.Represents a → k.d.Represents d →
    ∃ b c : ℤ, Short k a b c d ∧
      ∀ x : ℚ, polynomialAt a b c d x = 0 → Representable x ∨ |a * x ^ 3| ≤ 10 ^ 6

/-- Short coefficients of which all but the leading one are at most `150` are tame: a root that is
no double has a denominator above one, so that it is at most `75`. -/
theorem Short.tame {k : Coefficients} {a b c d : ℤ} (h : Short k a b c d) (hb : |b| ≤ 150)
    (hc : |c| ≤ 150) (hd : |d| ≤ 150) : Tame k := by
  intro a' d' ha hd' hka hkd
  obtain rfl : a' = a := by exact_mod_cast hka.2.symm.trans h.represents_a.2
  obtain rfl : d' = d := by exact_mod_cast hkd.2.symm.trans h.represents_d.2
  refine ⟨b, c, h, fun x hroot => ?_⟩
  by_cases hdouble : Representable x
  · exact .inl hdouble
  right
  have hcast {p : ℤ} (hp : |p| ≤ 150) : |(p : ℚ)| ≤ 150 := by exact_mod_cast hp
  have hxle : |x| ≤ 75 := by
    have hden : (2 : ℚ) ≤ x.den := by exact_mod_cast h.two_le_den hroot hdouble
    have hnum : |x.num| ≤ 150 :=
      (Int.le_of_dvd (abs_pos.mpr hd') ((abs_dvd_abs _ _).mpr (num_dvd_of_root hroot))).trans hd
    have hproduct : |x| * x.den = |(x.num : ℚ)| := by
      rw [← Nat.abs_cast x.den, ← abs_mul, Rat.mul_den_eq_num]
    have hdouble : |x| * 2 ≤ |x| * x.den := by gcongr
    linarith only [hdouble, hproduct, hcast hnum]
  have hcubic : a' * x ^ 3 = -(b * x ^ 2 + c * x + d') := by
    rw [polynomialAt] at hroot
    linear_combination hroot
  calc |a' * x ^ 3| = |b * x ^ 2 + c * x + d'| := by rw [hcubic, abs_neg]
    _ ≤ |(b : ℚ)| * |x| ^ 2 + |(c : ℚ)| * |x| + |(d' : ℚ)| := by
        rw [← abs_pow, ← abs_mul, ← abs_mul]
        exact abs_add_three _ _ _
    _ ≤ 150 * 75 ^ 2 + 150 * 75 + 150 := by
        have hsquare : |x| ^ 2 ≤ 75 ^ 2 := by gcongr
        have hb' := hcast hb
        have hc' := hcast hc
        have hd' := hcast hd
        gcongr
    _ ≤ 10 ^ 6 := by norm_num

/-- **An accepted candidate leaves no remainder.** -/
theorem remainder_of_accepted {k : Coefficients} (h : Tame k) {x' : Double}
    (hmem : x' ∈ candidates k.a k.d)
    (haccepts : Accepts standardArithmetic k.a k.b k.c k.d x') :
    ({} : Settings).rootTolerance.lt (remainderOf k x').abs = false := by
  have hcandidates := hmem
  unfold candidates at hcandidates
  split at hcandidates
  · next a d ha hd =>
    have ha' := Double.represents_of_toInt? ha
    have hd' := Double.represents_of_toInt? hd
    by_cases ha0 : a = 0
    · simp [candidatesOf, ha0] at hcandidates
    by_cases hd0 : d = 0
    · subst hd0
      rw [candidatesOf_zero ha0, List.mem_singleton] at hcandidates
      rw [hcandidates]
      exact remainder_of_zero (by simpa using hd') false
    obtain ⟨b, c, hshort, hroots⟩ := h a d ha0 hd0 ha' hd'
    obtain ⟨x, rfl, hroot, -⟩ := hshort.accepted_root hmem haccepts
    exact hshort.remainder_of_root hroot (hroots x hroot)
  · cases hcandidates

/-! ## Equations -/

/-- Only a remainder has the code of an internal error. -/
theorem code_ne_of_ne_remainderLeft {f : Failure} (h : f ≠ .remainderLeft) :
    f.code ≠ Failure.remainderLeft.code := by
  cases f with
  | remainderLeft => exact absurd rfl h
  | _ => simp [Failure.code]

/-- A failure that is none of a solver is no remainder. -/
theorem ne_remainderLeft_of_kind {α : Type} {r : Except Failure α}
    (h : FailsOnly (fun f : Failure => f.kind ≠ .solver) r) :
    FailsOnly (· ≠ .failure .remainderLeft) (liftFailure r) := by
  cases r with
  | ok a => exact .ok a
  | error f =>
    refine .error ?_
    rintro ⟨⟩
    exact h _ rfl rfl

/-- Without a remainder, the division by a root fails only by a breakdown. -/
theorem failsOnly_divide {settings : Settings} {equation : String} {k : Coefficients}
    {x' : Double} (h : settings.rootTolerance.lt (remainderOf k x').abs = false) :
    FailsOnly (· ≠ .failure .remainderLeft) (answerFromRoot settings equation k x') := by
  unfold answerFromRoot
  refine .ite (fun hlarge => ?_) fun _ => ?_
  · exact absurd hlarge (Bool.eq_false_iff.mp h)
  · refine .bind (failsOnly_liftBreakdown _ _) fun solution _ => ?_
    exact .bind (failsOnly_liftBreakdown _ _) fun final _ => .ok _

section Search

variable {α : Type} {n : Arithmetic α} {mayApproximate : Bool} {a b c d x : α} {xs : List α}

theorem failsOnly_root? :
    FailsOnly (· ≠ .failure .remainderLeft) (root? n mayApproximate a b c d xs) := by
  refine .bind (failsOnly_liftBreakdown _ _) fun found _ => ?_
  split
  · exact .error (by simp)
  · exact .ok _

/-- What is divided out was found. -/
theorem found_of_root? (h : root? n mayApproximate a b c d xs = .ok (some x)) :
    firstRoot? n a b c d xs = .ok (some x) := by
  obtain ⟨found, hsearch, hrest⟩ := bind_eq_ok.mp h
  rw [liftBreakdown_eq_ok] at hsearch
  rw [hsearch]
  split at hrest
  · cases hrest
  · exact congrArg Except.ok (Except.ok.inj hrest)

end Search

/-- Where accepted candidates leave no remainder, no division fails. -/
theorem failsOnly_solveWithCube {equation : String} {k : Coefficients} (h : Tame k) :
    FailsOnly (· ≠ .failure .remainderLeft) (solveWithCube {} equation k).outcome := by
  refine Traced.failsOnly_bind failsOnly_root? fun found hfound => ?_
  cases found with
  | none => exact failsOnly_liftBreakdown _ _
  | some x' =>
    obtain ⟨haccepts, before, after, hsplit, -⟩ := firstRoot?_first (found_of_root? hfound)
    exact failsOnly_divide (remainder_of_accepted h (by rw [hsplit]; simp) haccepts)

theorem failsOnly_solve {equation : String}
    (h : ∀ k, Equation.netCoefficients wording equation.toList = .ok k → Tame k) :
    FailsOnly (· ≠ .failure .remainderLeft) (solve {} equation).outcome := by
  refine Traced.failsOnly_bind
    (ne_remainderLeft_of_kind (Equation.failsOnly_netCoefficients _ _)) fun k hk => ?_
  rw [Traced.outcome_ofFailure, liftFailure_eq_ok] at hk
  split
  · rw [Traced.outcome_log_bind, Quadratic.solveWithoutCube]
    split
    · exact ne_remainderLeft_of_kind ((Equation.failsOnly_sides _ _).bind fun _ _ => .ok _)
    · exact failsOnly_liftBreakdown _ _
  · exact failsOnly_solveWithCube (h k hk)

/-- **Accepted candidates are divided out** under the standard settings, if the coefficients are
tame: none leaves a remainder, and no equation ends in an internal error. -/
theorem divided_out {equation : String}
    (h : ∀ k, Equation.netCoefficients wording equation.toList = .ok k → Tame k) :
    (∀ k, Equation.netCoefficients wording equation.toList = .ok k →
      ∀ x' ∈ candidates k.a k.d, Accepts standardArithmetic k.a k.b k.c k.d x' →
        ({} : Settings).rootTolerance.lt (remainderOf k x').abs = false) ∧
    ∀ f : Failure, (solve {} equation).outcome = .error (.failure f) →
      f.code ≠ "INTERNAL_ERROR" := by
  refine ⟨fun k hk x' hmem haccepts => remainder_of_accepted (h k hk) hmem haccepts, fun f hf => ?_⟩
  refine code_ne_of_ne_remainderLeft ?_
  rintro rfl
  exact failsOnly_solve h _ hf rfl

/-- The root `1/3` of `3x^3 - x^2 + 3x - 1` is divided out. -/
theorem divided_out_third : ∃ k : Coefficients,
    Equation.netCoefficients wording "3x^3 - x^2 + 3x - 1 = 0".toList = .ok k ∧
      Short k 3 (-1) 3 (-1) ∧ polynomialAt 3 (-1) 3 (-1) (1 / 3 : ℚ) = 0 ∧
      ∀ f : Failure, (solve {} "3x^3 - x^2 + 3x - 1 = 0").outcome = .error (.failure f) →
        f.code ≠ "INTERNAL_ERROR" := by
  have hk : Equation.netCoefficients wording "3x^3 - x^2 + 3x - 1 = 0".toList =
      .ok ⟨3, -1, 3, -1⟩ := eq_ok_of_toOption (by decide +kernel)
  have hshort : Short ⟨3, -1, 3, -1⟩ 3 (-1) 3 (-1) := by
    refine ⟨?_, ?_, ?_, ?_, ?_, ?_, ?_, ?_, ?_⟩ <;> decide +kernel
  refine ⟨_, hk, hshort, by norm_num [polynomialAt], (divided_out fun k hk' => ?_).2⟩
  obtain rfl := Except.ok.inj (hk.symm.trans hk')
  exact hshort.tame (by decide) (by decide) (by decide)

/-- The equation `(7x - 899) (x^2 + 1) = 0`, written out. -/
def spreading : String := "7x^3 - 899x^2 + 7x - 899 = 0"

theorem candidates_spreading : candidates 7 (-899) =
    [Double.roundQuotient false 1 7, -Double.roundQuotient false 1 7, 1, -1,
      Double.roundQuotient false 29 7, -Double.roundQuotient false 29 7,
      Double.roundQuotient false 31 7, -Double.roundQuotient false 31 7, 29, -29, 31, -31,
      Double.roundQuotient false 899 7, -Double.roundQuotient false 899 7, 899, -899] := by
  have hdivisors : divisors 899 = [1, 29, 31, 899] := by
    rw [divisors_of_odd [1, 29, 31, 899] (by decide +kernel) (by decide +kernel)]
    cbv
  have hquotients : quotients 7 899 =
      [(1, 7), (1, 1), (29, 7), (31, 7), (29, 1), (31, 1), (899, 7), (899, 1)] := by
    rw [quotients, hdivisors]
    cbv
  have ha : Double.toInt? 7 = some 7 := by decide +kernel
  have hd : Double.toInt? (-899) = some (-899) := by decide +kernel
  rw [candidates, ha, hd]
  show candidatesOf _ _ _ = _
  rw [candidatesOf, if_neg (by decide), if_neg (by decide)]
  show List.flatMap _ ((quotients 7 899).map _).eraseReps = _
  rw [hquotients]
  decide +kernel

/-- **With a root of more than a hundred** and the denominator seven, the remainder exceeds the
tolerance: an equation with a rational root ends in an internal error. -/
theorem remainder_left :
    polynomialAt 7 (-899) 7 (-899) (899 / 7 : ℚ) = 0 ∧
      (solve {} spreading).outcome = .error (.failure .remainderLeft) ∧
      Failure.remainderLeft.code = "INTERNAL_ERROR" := by
  have hk : Equation.netCoefficients wording spreading.toList = .ok ⟨7, -899, 7, -899⟩ :=
    eq_ok_of_toOption (by decide +kernel)
  have hfound : firstRoot? (doubleArithmetic ({} : Settings).rootTolerance) 7 (-899) 7 (-899)
      (candidates 7 (-899)) = .ok (some (Double.roundQuotient false 899 7)) := by
    rw [candidates_spreading]
    exact eq_ok_of_toOption (by decide +kernel)
  have hlarge : ({} : Settings).rootTolerance.lt
      (remainderOf ⟨7, -899, 7, -899⟩ (Double.roundQuotient false 899 7)).abs = true := by
    decide +kernel
  have hfinal : final {} ⟨7, -899, 7, -899⟩ = .error (.failure .remainderLeft) := by
    rw [final]
    change (liftBreakdown (firstRoot? _ 7 (-899) 7 (-899) (candidates 7 (-899)))).bind _ = _
    rw [hfound]
    change finalFromRoot {} _ _ = _
    rw [finalFromRoot]
    exact if_pos hlarge
  refine ⟨by norm_num [polynomialAt], ?_, rfl⟩
  rw [← map_final_solve hk (by decide +kernel)] at hfinal
  cases hsolve : (solve {} spreading).outcome with
  | ok answer =>
    rw [hsolve] at hfinal
    cases hfinal
  | error fault =>
    rw [hsolve] at hfinal
    exact congrArg Except.error (Except.error.inj hfinal)

end Cubic

end Stepwise
