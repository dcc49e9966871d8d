/-
# The quotient by a root

A root `x` of the cubic polynomial leaves the quotient `a z ^ 2 + m z + n` with whole coefficients,
so that its discriminant is zero or at least one in magnitude.  The coefficients are calculated from
the rounded root.  Where the discriminant is not zero, its sign is found correctly and the root of
the quotient is well conditioned; where it is zero, the two calculated roots may part or vanish, but
stay near the double root, since the root that was divided out is not much larger.

* `Cubic.exists_quotient` : the quotient and its coefficients;
* `Cubic.exists_double_root` : the double root of a quotient without discriminant;
* `Cubic.Quotient` : a calculated quotient whose coefficients have bounded size;
* `Cubic.Quotient.discriminant_near` : the error of the discriminant;
* `Cubic.Quotient.formula_near` : the error of the quadratic formula;
* `Cubic.Short.simple_quotient`, `Cubic.Short.double_quotient` : the size of the coefficients.
-/
import Mathlib.Algebra.QuadraticDiscriminant
import Stepwise.Proofs.Equation.Search

namespace Stepwise.Cubic

/-! ## The exact quotient -/

/-- The coefficients of the quotient by a rational root are whole. -/
theorem exists_quotient {a b c d : ℤ} {x : ℚ} (hroot : polynomialAt a b c d x = 0) :
    ∃ m n : ℤ, (m : ℚ) = b + x * a ∧ (n : ℚ) = c + x * m ∧ d + x * n = 0 := by
  obtain ⟨d', hd⟩ := num_dvd_of_root hroot
  obtain ⟨a', ha⟩ := den_dvd_of_root hroot
  have hx : x * x.den = x.num := Rat.mul_den_eq_num x
  have hmiddle : ((b + x.num * a' : ℤ) : ℚ) = b + x * a := by
    rw [ha]
    push_cast
    rw [← hx]
    ring
  have hlast : d + x * (c + x * (b + x * a)) = 0 := by
    rw [← hroot, polynomialAt]
    ring
  rcases eq_or_ne x 0 with rfl | hne
  · refine ⟨b, c, by simp, by simp, ?_⟩
    simpa using hlast
  · have hquotient : ((-(d' * x.den) : ℤ) : ℚ) = c + x * (b + x * a) := by
      refine mul_left_cancel₀ hne ?_
      have hd' : (d : ℚ) = x * x.den * d' := by
        rw [hx]
        exact_mod_cast hd
      push_cast
      linear_combination hd' - hlast
    refine ⟨b + x.num * a', -(d' * x.den), hmiddle, ?_, ?_⟩
    · rw [hmiddle, hquotient]
    · rw [hquotient, hlast]

/-- A root of the quotient is a root of the cubic polynomial. -/
theorem root_of_quotient {a b c d m n : ℤ} {x z : ℝ} (hm : (m : ℝ) = b + x * a)
    (hn : (n : ℝ) = c + x * m) (hd : d + x * n = 0) (hz : a * (z * z) + m * z + n = 0) :
    polynomialAt a b c d z = 0 := by
  rw [polynomialAt]
  linear_combination (z - x) * hz + hd - z * hn - z ^ 2 * hm

/-- A quotient without discriminant has a rational double root, which with the root that was divided
out makes up the coefficients. -/
theorem exists_double_root {a b c d m n : ℤ} {x : ℝ} (hne : a ≠ 0) (hm : (m : ℝ) = b + x * a)
    (hn : (n : ℝ) = c + x * m) (hd : d + x * n = 0) (hdiscriminant : m ^ 2 - 4 * a * n = 0) :
    ∃ z : ℚ, (z : ℝ) = -m / (2 * a) ∧ (m : ℝ) = -(2 * a * z) ∧ (n : ℝ) = a * z ^ 2 ∧
      (b : ℝ) = -(a * (x + 2 * z)) ∧ (c : ℝ) = a * (z ^ 2 + 2 * x * z) ∧
      (d : ℝ) = -(a * (x * z ^ 2)) := by
  have hne' : (a : ℝ) ≠ 0 := by exact_mod_cast hne
  obtain ⟨z, hz⟩ : ∃ z : ℚ, (z : ℝ) = -m / (2 * a) := ⟨-m / (2 * a), by push_cast; rfl⟩
  have hmz : (m : ℝ) = -(2 * a * z) := by
    rw [hz]
    field_simp
  have hnz : (n : ℝ) = a * z ^ 2 := by
    have hcast : (m : ℝ) ^ 2 - 4 * a * n = 0 := by exact_mod_cast hdiscriminant
    refine mul_left_cancel₀ hne' ?_
    rw [hmz] at hcast
    linear_combination -1 / 4 * hcast
  exact ⟨z, hz, hmz, hnz, by linear_combination -hm + hmz,
    by linear_combination -hn + hnz - x * hmz, by linear_combination hd - x * hnz⟩

/-! ## The calculated quotient -/

/-- The quotient `a z ^ 2 + m z + n` by the root `x`, which is calculated from `x'`.  Its
coefficients are not larger than if all roots were at most `r`. -/
structure Quotient (k : Coefficients) (x' : Double) (a b c m n : ℤ) (x r : ℝ) : Prop where
  represents_a : k.a.Represents a
  represents_b : k.b.Represents b
  represents_c : k.c.Represents c
  near : x'.Near x (101 / 100) r
  middle : (m : ℝ) = b + x * a
  last : (n : ℝ) = c + x * m
  leading : a ≠ 0
  one_le : 1 ≤ r
  size : |(a : ℝ)| * r ≤ 40000
  size_middle : |(m : ℝ)| ≤ 2 * (|(a : ℝ)| * r)
  size_last : |(n : ℝ)| ≤ |(a : ℝ)| * r * r

/-- The calculated middle coefficient of the quotient. -/
def middleOf (k : Coefficients) (x' : Double) : Double := k.b + x' * k.a

/-- The calculated last coefficient of the quotient. -/
def lastOf (k : Coefficients) (x' : Double) : Double := k.c + x' * middleOf k x'

/-- The calculated discriminant of the quotient. -/
def discriminantOf (k : Coefficients) (x' : Double) : Double :=
  Quadratic.discriminant k.a (middleOf k x') (lastOf k x')

namespace Quotient

variable {k : Coefficients} {x' : Double} {a b c m n : ℤ} {x r : ℝ}

theorem one_le_abs_leading (h : Quotient k x' a b c m n x r) : 1 ≤ |(a : ℝ)| := by
  exact_mod_cast Int.one_le_abs h.leading

theorem le_size (h : Quotient k x' a b c m n x r) : r ≤ |(a : ℝ)| * r :=
  le_mul_of_one_le_left (zero_le_one.trans h.one_le) h.one_le_abs_leading

/-- All sizes are small multiples of the size of the quotient or its square. -/
theorem inRange (h : Quotient k x' a b c m n x r) {s : ℝ} (hs : 1 ≤ s)
    (hle : s ≤ 8 * (|(a : ℝ)| * r) ^ 2) : Double.InRange s := by
  refine ⟨hs, hle.trans ?_⟩
  have hsize := h.size
  have hnonneg : 0 ≤ |(a : ℝ)| * r := (zero_le_one.trans h.one_le).trans h.le_size
  calc 8 * (|(a : ℝ)| * r) ^ 2 ≤ 8 * 40000 ^ 2 := by gcongr
    _ ≤ 2 ^ 190 := by norm_num

theorem middle_near (h : Quotient k x' a b c m n x r) :
    (middleOf k x').Near m (81 / 40) (2 * (|(a : ℝ)| * r)) := by
  have hone := h.one_le.trans h.le_size
  have hsquare : |(a : ℝ)| * r ≤ (|(a : ℝ)| * r) ^ 2 := le_self_pow₀ hone (by norm_num)
  have hproduct := h.near.mul (Double.Near.of_whole h.represents_a) (l := 203 / 100)
    ⟨by norm_num, by norm_num⟩ ⟨le_rfl, by norm_num⟩
    (h.inRange hone (by linarith only [hsquare, hone])) (mul_comm r |(a : ℝ)|).le
    (by norm_num) (by norm_num)
  rw [h.middle, middleOf]
  exact (Double.Near.of_whole h.represents_b).add hproduct
    (h.inRange (by linarith only [hone]) (by linarith only [hsquare, hone]))
    (by rw [← h.middle]; exact h.size_middle) (by linarith only [hone]) (by norm_num)

theorem last_near (h : Quotient k x' a b c m n x r) :
    (lastOf k x').Near n (913 / 100) (|(a : ℝ)| * r * r) := by
  have hr := h.one_le
  have hone := hr.trans h.le_size
  have hlow : 1 ≤ |(a : ℝ)| * r * r := one_le_mul_of_one_le_of_one_le hone hr
  have hhigh : |(a : ℝ)| * r * r ≤ (|(a : ℝ)| * r) ^ 2 := by
    rw [pow_two]
    exact mul_le_mul_of_nonneg_left h.le_size (zero_le_one.trans hone)
  have hproduct := h.near.mul h.middle_near (t := 2 * (|(a : ℝ)| * r * r)) (l := 406 / 100)
    ⟨by norm_num, by norm_num⟩ ⟨by norm_num, by norm_num⟩
    (h.inRange (by linarith only [hlow]) (by linarith only [hlow, hhigh]))
    (le_of_eq (by ring)) (by norm_num) (by norm_num)
  rw [h.last, lastOf]
  exact (Double.Near.of_whole h.represents_c).add hproduct
    (h.inRange hlow (by linarith only [hlow, hhigh]))
    (by rw [← h.last]; exact h.size_last) (by linarith only [hlow]) (by norm_num)

theorem represents_mul {p : ℕ} (hp : (Double.ofNat p).Represents p) (hsmall : p ≤ 4)
    (h : Quotient k x' a b c m n x r) : (Double.ofNat p * k.a).Represents (p * a : ℤ) := by
  have hr := h.one_le
  have hle : |(a : ℝ)| ≤ 40000 :=
    (le_mul_of_one_le_right (abs_nonneg _) hr).trans h.size
  have hrepresentable : Representable ((p * a : ℤ) : ℚ) := by
    refine representable_intCast ?_
    have hcast : |(a : ℚ)| ≤ 40000 := by exact_mod_cast hle
    have hfour : (p : ℚ) ≤ 4 := by exact_mod_cast hsmall
    rw [Int.cast_mul, Int.cast_natCast, abs_mul, Nat.abs_cast]
    calc (p : ℚ) * |(a : ℚ)| ≤ 4 * 40000 := by gcongr
      _ < 2 ^ 53 := by norm_num
  push_cast at hrepresentable ⊢
  exact hp.mul h.represents_a hrepresentable

/-- **The error of the discriminant.** -/
theorem discriminant_near (h : Quotient k x' a b c m n x r) :
    (discriminantOf k x').isFinite = true ∧
      |((discriminantOf k x').value : ℝ) - (m ^ 2 - 4 * a * n)| ≤
        69 * roundoff * (|(a : ℝ)| * r) ^ 2 := by
  have hone := h.one_le.trans h.le_size
  have hlow : 1 ≤ (|(a : ℝ)| * r) ^ 2 := one_le_pow₀ hone
  have hsquare := h.middle_near.mul h.middle_near (t := 4 * (|(a : ℝ)| * r) ^ 2) (l := 507 / 100)
    ⟨by norm_num, by norm_num⟩ ⟨by norm_num, by norm_num⟩
    (h.inRange (by linarith only [hlow]) (by linarith only [hlow])) (le_of_eq (by ring))
    (by norm_num) (by norm_num)
  have hproduct := (Double.Near.of_whole
      (represents_mul (p := 4) (by decide +kernel) le_rfl h)).mul h.last_near
    (t := 4 * (|(a : ℝ)| * r) ^ 2) (l := 1015 / 100)
    ⟨le_rfl, by norm_num⟩ ⟨by norm_num, by norm_num⟩
    (h.inRange (by linarith only [hlow]) (by linarith only [hlow]))
    (le_of_eq (by push_cast; rw [abs_mul, abs_of_pos (by norm_num : (0 : ℝ) < 4)]; ring))
    (by norm_num) (by norm_num)
  have hdifference := hsquare.sub hproduct (t := 8 * (|(a : ℝ)| * r) ^ 2) (l := 862 / 100)
    (h.inRange (by linarith only [hlow]) le_rfl)
    ((abs_sub _ _).trans (by linarith only [hsquare.close.size, hproduct.close.size]))
    (by linarith only [hlow]) (by norm_num)
  refine ⟨hdifference.finite, ?_⟩
  have herror := hdifference.close.error
  have hpositive : 0 ≤ roundoff * (|(a : ℝ)| * r) ^ 2 := mul_nonneg roundoff_pos.le (by positivity)
  have hvalue : ((m : ℝ) * m - ((4 : ℕ) * a : ℤ) * n) = m ^ 2 - 4 * a * n := by
    push_cast
    ring
  rw [hvalue] at herror
  exact herror.trans (by linarith only [hpositive])

/-- The error of a division by twice the leading coefficient. -/
theorem divide_near (h : Quotient k x' a b c m n x r) {y : Double} {p l : ℝ}
    (hy : y.Near p l (5 * (|(a : ℝ)| * r))) (hmany : l ≤ 2 ^ 39) :
    (y / (2 * k.a)).isFinite = true ∧
      |((y / (2 * k.a)).value : ℝ) - p / (2 * a)| ≤ (3 + 5 / 2 * l) * roundoff * r := by
  have hone := h.one_le.trans h.le_size
  have hr := h.one_le
  have hsquare : |(a : ℝ)| * r ≤ (|(a : ℝ)| * r) ^ 2 := le_self_pow₀ hone (by norm_num)
  have htwice : (((2 : ℕ) * a : ℤ) : ℚ) ≠ 0 := by
    exact_mod_cast mul_ne_zero two_ne_zero h.leading
  have hpos : 0 < |(a : ℝ)| := zero_lt_one.trans_le h.one_le_abs_leading
  have hscale : 5 * (|(a : ℝ)| * r) / |((((2 : ℕ) * a : ℤ) : ℚ) : ℝ)| = 5 / 2 * r := by
    push_cast
    rw [abs_mul, abs_of_pos (by norm_num : (0 : ℝ) < 2)]
    field_simp
  have hquotient := hy.div (t := 5 / 2 * r) (l := l + 6 / 5)
    (represents_mul (p := 2) (by decide +kernel) (by norm_num) h) htwice
    (h.inRange (by linarith only [hr]) (by linarith only [hr, h.le_size, hsquare]))
    (by rw [abs_div, ← hscale]; exact div_le_div_of_nonneg_right hy.close.size (abs_nonneg _))
    (by rw [hscale]; linarith only [hr]) (by linarith only [hmany])
  refine ⟨hquotient.finite, ?_⟩
  have herror := hquotient.close.error
  push_cast at herror
  refine herror.trans (le_of_eq ?_)
  ring

/-- **The error of the quadratic formula**, with a root of the discriminant that is `l` roundings
away. -/
theorem formula_near (h : Quotient k x' a b c m n x r) {s' : Double} {s l : ℝ}
    (hs : s'.Near s l (3 * (|(a : ℝ)| * r))) (hmany : l ≤ 2 ^ 38) :
    ((-middleOf k x' + s') / (2 * k.a)).isFinite = true ∧
      |(((-middleOf k x' + s') / (2 * k.a)).value : ℝ) - (-m + s) / (2 * a)| ≤
        (8 + 3 / 2 * l) * roundoff * r := by
  have hone := h.one_le.trans h.le_size
  have hsquare : |(a : ℝ)| * r ≤ (|(a : ℝ)| * r) ^ 2 := le_self_pow₀ hone (by norm_num)
  have hmiddle := h.middle_near.neg
  have hsum := hmiddle.add hs (t := 5 * (|(a : ℝ)| * r)) (l := 2 + 3 / 5 * l)
    (h.inRange (by linarith only [hone]) (by linarith only [hsquare, hone]))
    ((abs_add_le _ _).trans (by linarith only [hmiddle.close.size, hs.close.size]))
    (by linarith only [hone]) (by linarith only [hmany])
  obtain ⟨hfinite, herror⟩ := h.divide_near hsum (by linarith only [hmany])
  refine ⟨hfinite, herror.trans (le_of_eq ?_)⟩
  ring

end Quotient

/-! ## Roots of the quotient -/

/-- Square roots of numbers from one on are not further apart than the numbers. -/
theorem abs_sqrt_sub_sqrt_le {p q : ℝ} (hp : 0 ≤ p) (hq : 1 ≤ q) : |√p - √q| ≤ |p - q| := by
  have hsum : 1 ≤ √p + √q := by
    have hone : 1 ≤ √q := Real.one_le_sqrt.mpr hq
    linarith only [hone, Real.sqrt_nonneg p]
  have hproduct : (√p - √q) * (√p + √q) = p - q := by
    have hp' := Real.mul_self_sqrt hp
    have hq' := Real.mul_self_sqrt (zero_le_one.trans hq)
    linear_combination hp' - hq'
  rw [← hproduct, abs_mul]
  exact le_mul_of_one_le_right (abs_nonneg _) (hsum.trans (le_abs_self _))

/-- A finite number whose error is below `4 / 10 ^ 7`, relative to numbers above one. -/
def Approximates (y : Double) (z : ℝ) : Prop :=
  y.isFinite = true ∧ |(y.value : ℝ) - z| ≤ 4 / 10 ^ 7 * max 1 |z|

namespace Quotient

variable {k : Coefficients} {x' : Double} {a b c m n : ℤ} {x r : ℝ}

theorem root_of_formula (h : Quotient k x' a b c m n x r) {s : ℝ}
    (hs : (m : ℝ) ^ 2 - 4 * a * n = s * s) :
    (a : ℝ) * ((-m + s) / (2 * a) * ((-m + s) / (2 * a))) + m * ((-m + s) / (2 * a)) + n = 0 :=
  (quadratic_eq_zero_iff (by exact_mod_cast h.leading) hs _).mpr (.inl rfl)

/-- The roots that the formula yields, by the value of the discriminant. -/
theorem roots_of_value (h : Quotient k x' a b c m n x r) {solution : Quadratic.Solution}
    (hsolution : Quadratic.solveCoefficients k.a (middleOf k x') (lastOf k x') = .ok solution) :
    (0 < (discriminantOf k x').value ∧
      solution.roots = [(-middleOf k x' + (discriminantOf k x').sqrt) / (2 * k.a),
        (-middleOf k x' + -(discriminantOf k x').sqrt) / (2 * k.a)]) ∨
    ((discriminantOf k x').value = 0 ∧ solution.roots = [-middleOf k x' / (2 * k.a)]) ∨
    ((discriminantOf k x').value < 0 ∧ solution.roots = []) := by
  obtain ⟨hfinite, -⟩ := h.discriminant_near
  rcases Quadratic.roots_of_solveCoefficients hsolution with ⟨hpos, -, hroots⟩ |
    ⟨-, hzero, -, hroots⟩ | ⟨hpos, hzero, hroots⟩
  · exact .inl ⟨(Double.zero_lt_iff hfinite).mp hpos, hroots⟩
  · exact .inr (.inl ⟨(Double.value_eq_zero_iff hfinite).mpr hzero, hroots⟩)
  · refine .inr (.inr ⟨lt_of_le_of_ne (not_lt.mp fun hlt => ?_) fun heq => ?_, hroots⟩)
    · have hlt' := (Double.zero_lt_iff hfinite).mpr hlt
      exact Bool.false_ne_true (hpos.symm.trans hlt')
    · have heq' := (Double.value_eq_zero_iff hfinite).mp heq
      exact Bool.false_ne_true (hzero.symm.trans heq')

/-- The calculated root of the discriminant, near another number. -/
theorem sqrt_near (h : Quotient k x' a b c m n x r) (hpos : 0 < (discriminantOf k x').value)
    {s l : ℝ} (hs : |s| ≤ 3 * (|(a : ℝ)| * r))
    (hvalue : √((discriminantOf k x').value : ℝ) ≤ 3 * (|(a : ℝ)| * r))
    (herror : |√((discriminantOf k x').value : ℝ) - s| ≤
      (l - 51 / 50) * roundoff * (3 * (|(a : ℝ)| * r))) :
    (discriminantOf k x').sqrt.Near s l (3 * (|(a : ℝ)| * r)) := by
  obtain ⟨hfinite, -⟩ := h.discriminant_near
  have hone := h.one_le.trans h.le_size
  have hsquare : |(a : ℝ)| * r ≤ (|(a : ℝ)| * r) ^ 2 := le_self_pow₀ hone (by norm_num)
  have hroot := Double.near_sqrt hfinite hpos
    (h.inRange (by linarith only [hone]) (by linarith only [hone, hsquare])) hvalue
  refine ⟨hroot.finite, hs, ?_⟩
  have hsum := abs_sub_le ((discriminantOf k x').sqrt.value : ℝ)
    √((discriminantOf k x').value : ℝ) s
  linarith only [hsum, herror, hroot.close.error]

/-- The square of the size of the quotient bounds its discriminant. -/
theorem discriminant_le (h : Quotient k x' a b c m n x r) :
    (m : ℝ) ^ 2 - 4 * a * n ≤ 8 * (|(a : ℝ)| * r) ^ 2 := by
  have hmiddle : (m : ℝ) ^ 2 ≤ (2 * (|(a : ℝ)| * r)) ^ 2 :=
    sq_le_sq' (neg_le_of_abs_le h.size_middle) (le_of_abs_le h.size_middle)
  have hlast : |(a : ℝ)| * |(n : ℝ)| ≤ |(a : ℝ)| * (|(a : ℝ)| * r * r) :=
    mul_le_mul_of_nonneg_left h.size_last (abs_nonneg _)
  have habs := neg_abs_le ((a : ℝ) * n)
  rw [abs_mul] at habs
  linarith only [hmiddle, hlast, habs]

/-- Where the quotient is small, the error of the discriminant is below its distance from zero. -/
theorem discriminant_error_le (h : Quotient k x' a b c m n x r) (hsmall : |(a : ℝ)| * r ≤ 20000) :
    |((discriminantOf k x').value : ℝ) - (m ^ 2 - 4 * a * n)| ≤ 1 / 10 := by
  have hu := roundoff_pos
  have hlow : 0 ≤ |(a : ℝ)| * r := zero_le_one.trans (h.one_le.trans h.le_size)
  calc |((discriminantOf k x').value : ℝ) - (m ^ 2 - 4 * a * n)|
      ≤ 69 * roundoff * (|(a : ℝ)| * r) ^ 2 := h.discriminant_near.2
    _ ≤ 69 * roundoff * 20000 ^ 2 := by gcongr
    _ ≤ 1 / 10 := by norm_num [roundoff]

/-- A negative discriminant is calculated as negative. -/
theorem discriminant_neg (h : Quotient k x' a b c m n x r) (hsmall : |(a : ℝ)| * r ≤ 20000)
    (hnegative : m ^ 2 - 4 * a * n < 0) : (discriminantOf k x').value < 0 := by
  have hcast : (m : ℝ) ^ 2 - 4 * a * n ≤ -1 := by exact_mod_cast Int.le_sub_one_of_lt hnegative
  have hvalue : ((discriminantOf k x').value : ℝ) < 0 := by
    linarith only [hcast, le_of_abs_le (h.discriminant_error_le hsmall)]
  rwa [Rat.cast_lt_zero] at hvalue

/-- A positive discriminant is calculated as positive. -/
theorem discriminant_pos (h : Quotient k x' a b c m n x r) (hsmall : |(a : ℝ)| * r ≤ 20000)
    (hpositive : 0 < m ^ 2 - 4 * a * n) : 0 < (discriminantOf k x').value := by
  have hcast : 1 ≤ (m : ℝ) ^ 2 - 4 * a * n := by exact_mod_cast hpositive
  have hvalue : 0 < ((discriminantOf k x').value : ℝ) := by
    linarith only [hcast, neg_le_of_abs_le (h.discriminant_error_le hsmall)]
  rwa [Rat.cast_pos] at hvalue

/-- The root of a positive discriminant is well conditioned, as the discriminant is at least one. -/
theorem sqrt_near_of_pos (h : Quotient k x' a b c m n x r) (hsmall : |(a : ℝ)| * r ≤ 20000)
    (hpositive : 0 < m ^ 2 - 4 * a * n) :
    (discriminantOf k x').sqrt.Near √((m : ℝ) ^ 2 - 4 * a * n) (51 / 50 + 23 * (|(a : ℝ)| * r))
      (3 * (|(a : ℝ)| * r)) := by
  have hone := h.one_le.trans h.le_size
  have hlow : 0 ≤ |(a : ℝ)| * r := zero_le_one.trans hone
  have hvalue := h.discriminant_pos hsmall hpositive
  have hcast : 1 ≤ (m : ℝ) ^ 2 - 4 * a * n := by exact_mod_cast hpositive
  have hexact : √((m : ℝ) ^ 2 - 4 * a * n) ≤ 3 * (|(a : ℝ)| * r) := by
    refine Real.sqrt_le_iff.mpr ⟨by positivity, ?_⟩
    linarith only [h.discriminant_le, sq_nonneg (|(a : ℝ)| * r)]
  have hcalculated : √((discriminantOf k x').value : ℝ) ≤ 3 * (|(a : ℝ)| * r) := by
    refine Real.sqrt_le_iff.mpr ⟨by positivity, ?_⟩
    have hlarge : 1 ≤ (|(a : ℝ)| * r) ^ 2 := one_le_pow₀ hone
    linarith only [h.discriminant_le, le_of_abs_le (h.discriminant_error_le hsmall), hlarge]
  have hmoved : |√((discriminantOf k x').value : ℝ) - √((m : ℝ) ^ 2 - 4 * a * n)| ≤
      69 * roundoff * (|(a : ℝ)| * r) ^ 2 :=
    (abs_sqrt_sub_sqrt_le (by exact_mod_cast hvalue.le) hcast).trans h.discriminant_near.2
  exact h.sqrt_near hvalue (by rwa [abs_of_nonneg (Real.sqrt_nonneg _)]) hcalculated
    (hmoved.trans (le_of_eq (by ring)))

/-- The formula approximates a root of the quotient where the discriminant is positive. -/
theorem approximates_of_near (h : Quotient k x' a b c m n x r) (hsmall : |(a : ℝ)| * r ≤ 20000)
    (hcondition : |(a : ℝ)| * r * r ≤ 10001 ^ 2) {s' : Double} {s : ℝ}
    (hs : s'.Near s (51 / 50 + 23 * (|(a : ℝ)| * r)) (3 * (|(a : ℝ)| * r))) :
    Approximates ((-middleOf k x' + s') / (2 * k.a)) ((-m + s) / (2 * a)) := by
  have hu := roundoff_pos
  have hr : r ≤ 20000 := h.le_size.trans hsmall
  obtain ⟨hfinite, herror⟩ := h.formula_near hs (by linarith only [hsmall])
  refine ⟨hfinite, herror.trans ?_⟩
  calc (8 + 3 / 2 * (51 / 50 + 23 * (|(a : ℝ)| * r))) * roundoff * r
      = (953 / 100 * r + 69 / 2 * (|(a : ℝ)| * r * r)) * roundoff := by ring
    _ ≤ (953 / 100 * 20000 + 69 / 2 * 10001 ^ 2) * roundoff := by gcongr
    _ ≤ 4 / 10 ^ 7 := by norm_num [roundoff]
    _ ≤ 4 / 10 ^ 7 * max 1 |(-m + s) / (2 * a)| :=
      le_mul_of_one_le_right (by norm_num) (le_max_left _ _)

/-- **Simple roots of the quotient** are found, and no others. -/
theorem simple_roots (h : Quotient k x' a b c m n x r) (hsmall : |(a : ℝ)| * r ≤ 20000)
    (hcondition : |(a : ℝ)| * r * r ≤ 10001 ^ 2) (hdiscriminant : m ^ 2 - 4 * a * n ≠ 0)
    {solution : Quadratic.Solution}
    (hsolution : Quadratic.solveCoefficients k.a (middleOf k x') (lastOf k x') = .ok solution) :
    ∀ y ∈ solution.roots, ∃ z : ℝ, a * (z * z) + m * z + n = 0 ∧ Approximates y z := by
  -- The calculated discriminant has the sign of the exact one.
  rcases hdiscriminant.lt_or_gt with hnegative | hpositive
  · have hvalue := h.discriminant_neg hsmall hnegative
    rcases h.roots_of_value hsolution with ⟨hpos, -⟩ | ⟨hzero, -⟩ | ⟨-, hroots⟩
    · exact absurd hpos hvalue.not_gt
    · exact absurd hzero hvalue.ne
    · rw [hroots]
      intro y hy
      cases hy
  · have hvalue := h.discriminant_pos hsmall hpositive
    rcases h.roots_of_value hsolution with ⟨-, hroots⟩ | ⟨hzero, -⟩ | ⟨hneg, -⟩
    · have hsqrt := h.sqrt_near_of_pos hsmall hpositive
      have hroot := Real.mul_self_sqrt
        (show (0 : ℝ) ≤ (m : ℝ) ^ 2 - 4 * a * n by exact_mod_cast hpositive.le)
      rw [hroots]
      intro y hy
      rcases List.mem_pair.mp hy with rfl | rfl
      · exact ⟨_, h.root_of_formula hroot.symm,
          h.approximates_of_near hsmall hcondition hsqrt⟩
      · exact ⟨_, h.root_of_formula ((neg_mul_neg _ _).trans hroot).symm,
          h.approximates_of_near hsmall hcondition hsqrt.neg⟩
    · exact absurd hzero hvalue.ne'
    · exact absurd hneg hvalue.not_gt

/-- Where the discriminant is zero, the root of its error is still small. -/
theorem sqrt_near_zero (h : Quotient k x' a b c m n x r) (hzero : (m : ℝ) ^ 2 - 4 * a * n = 0)
    (hpos : 0 < (discriminantOf k x').value) :
    (discriminantOf k x').sqrt.Near 0 310000000 (3 * (|(a : ℝ)| * r)) := by
  have hlow : 0 ≤ |(a : ℝ)| * r := zero_le_one.trans (h.one_le.trans h.le_size)
  have hsmall : √((discriminantOf k x').value : ℝ) ≤ 1 / 10 ^ 7 * (|(a : ℝ)| * r) := by
    refine Real.sqrt_le_iff.mpr ⟨by positivity, ?_⟩
    have hnear := h.discriminant_near.2
    rw [hzero, sub_zero] at hnear
    calc ((discriminantOf k x').value : ℝ) ≤ 69 * roundoff * (|(a : ℝ)| * r) ^ 2 :=
          (le_abs_self _).trans hnear
      _ ≤ (1 / 10 ^ 7) ^ 2 * (|(a : ℝ)| * r) ^ 2 := by
          gcongr
          norm_num [roundoff]
      _ = (1 / 10 ^ 7 * (|(a : ℝ)| * r)) ^ 2 := by ring
  refine h.sqrt_near hpos (by rw [abs_zero]; positivity) (hsmall.trans (by linarith only [hlow])) ?_
  rw [sub_zero, abs_of_nonneg (Real.sqrt_nonneg _)]
  calc √((discriminantOf k x').value : ℝ) ≤ 1 / 10 ^ 7 * (|(a : ℝ)| * r) := hsmall
    _ ≤ (310000000 - 51 / 50) * roundoff * 3 * (|(a : ℝ)| * r) := by
        gcongr
        norm_num [roundoff]
    _ = (310000000 - 51 / 50) * roundoff * (3 * (|(a : ℝ)| * r)) := by ring

/-- An error of a few hundred million roundings keeps a number near the double root. -/
theorem approximates_of_error (h : Quotient k x' a b c m n x r)
    (hr : r ≤ 2 * max 1 |(-m : ℝ) / (2 * a)|) {y : Double} {e : ℝ}
    (he : e * roundoff ≤ 2 / 10 ^ 7)
    (hy : y.isFinite = true ∧ |(y.value : ℝ) - -m / (2 * a)| ≤ e * roundoff * r) :
    Approximates y (-m / (2 * a)) := by
  refine ⟨hy.1, hy.2.trans ?_⟩
  have hr0 : 0 ≤ r := zero_le_one.trans h.one_le
  calc e * roundoff * r ≤ 2 / 10 ^ 7 * (2 * max 1 |(-m : ℝ) / (2 * a)|) := by gcongr
    _ = 4 / 10 ^ 7 * max 1 |(-m : ℝ) / (2 * a)| := by ring

/-- **A double root of the quotient** may be found twice, once or not at all, but nothing else
is. -/
theorem double_root (h : Quotient k x' a b c m n x r)
    (hr : r ≤ 2 * max 1 |(-m : ℝ) / (2 * a)|) (hdiscriminant : m ^ 2 - 4 * a * n = 0)
    {solution : Quadratic.Solution}
    (hsolution : Quadratic.solveCoefficients k.a (middleOf k x') (lastOf k x') = .ok solution) :
    ∀ y ∈ solution.roots, ∃ z : ℝ, a * (z * z) + m * z + n = 0 ∧ Approximates y z := by
  have hlow : 0 ≤ |(a : ℝ)| * r := zero_le_one.trans (h.one_le.trans h.le_size)
  have hzero : (m : ℝ) ^ 2 - 4 * a * n = 0 := by exact_mod_cast hdiscriminant
  have hroot : (a : ℝ) * (-m / (2 * a) * (-m / (2 * a))) + m * (-m / (2 * a)) + n = 0 := by
    have hformula := h.root_of_formula (s := 0) (by rw [hzero, mul_zero])
    rwa [add_zero] at hformula
  rcases h.roots_of_value hsolution with ⟨hpos, hroots⟩ | ⟨-, hroots⟩ | ⟨-, hroots⟩
  · have hsqrt := h.sqrt_near_zero hzero hpos
    have hformula {s' : Double} (hs : s'.Near 0 310000000 (3 * (|(a : ℝ)| * r))) :
        Approximates ((-middleOf k x' + s') / (2 * k.a)) (-m / (2 * a)) := by
      have hnear := h.formula_near hs (by norm_num)
      rw [add_zero] at hnear
      exact h.approximates_of_error hr (by norm_num [roundoff]) hnear
    rw [hroots]
    intro y hy
    rcases List.mem_pair.mp hy with rfl | rfl
    · exact ⟨_, hroot, hformula hsqrt⟩
    · exact ⟨_, hroot, hformula (by simpa using hsqrt.neg)⟩
  · have hmiddle := h.middle_near.neg.resize (t := 5 * (|(a : ℝ)| * r)) (l := 81 / 100)
      (h.middle_near.neg.close.size.trans (by linarith only [hlow])) (le_of_eq (by ring))
    rw [hroots]
    intro y hy
    obtain rfl := List.mem_singleton.mp hy
    exact ⟨_, hroot, h.approximates_of_error hr (by norm_num [roundoff])
      (h.divide_near hmiddle (by norm_num))⟩
  · rw [hroots]
    intro y hy
    cases hy

end Quotient

/-! ## The size of the coefficients -/

/-- The sum of a root and two smaller ones. -/
theorem abs_add_two_mul_le {x z : ℝ} (hle : |z| ≤ |x|) : |x + 2 * z| ≤ 3 * |x| := by
  have htriangle := abs_add_le x (2 * z)
  rw [abs_mul, abs_of_pos (by norm_num : (0 : ℝ) < 2)] at htriangle
  linarith only [htriangle, hle]

/-- The sum of the products of two of them. -/
theorem abs_sq_add_two_mul_le {x z : ℝ} (hle : |z| ≤ |x|) :
    |z ^ 2 + 2 * x * z| ≤ 3 * |x| * |z| := by
  have hfactor : z ^ 2 + 2 * x * z = (z + 2 * x) * z := by ring
  have htriangle := abs_add_le z (2 * x)
  rw [abs_mul, abs_of_pos (by norm_num : (0 : ℝ) < 2)] at htriangle
  rw [hfactor, abs_mul]
  gcongr
  linarith only [htriangle, hle]

/-- The middle coefficient of a quotient. -/
theorem abs_middle_le {a b m : ℤ} {x : ℝ} (hm : (m : ℝ) = b + x * a) :
    |(m : ℝ)| ≤ |(b : ℝ)| + |x| * |(a : ℝ)| := by
  rw [hm, ← abs_mul]
  exact abs_add_le _ _

namespace Short

variable {k : Coefficients} {a b c d m n : ℤ} {x : ℚ}

/-- The last coefficient of a quotient, by the constant term where the root is large and by the
other coefficients where it is small. -/
theorem abs_last_le (h : Short k a b c d) (hm : (m : ℝ) = b + x * a) (hn : (n : ℝ) = c + x * m)
    (hd : (d : ℝ) + x * n = 0) : |(n : ℝ)| ≤ |(a : ℝ)| + 20000 := by
  have hone := h.one_le_abs_leading
  have hmiddle := abs_middle_le hm
  rcases le_total 1 |(x : ℝ)| with hge | hle
  · have hproduct : |(x : ℝ)| * |(n : ℝ)| ≤ 10000 := by
      rw [← abs_mul, ← neg_eq_of_add_eq_zero_right hd, abs_neg]
      exact abs_cast_le h.size_d
    have hgrow : |(n : ℝ)| ≤ |(x : ℝ)| * |(n : ℝ)| := le_mul_of_one_le_left (abs_nonneg _) hge
    linarith only [hgrow, hproduct, hone]
  · have hsum : |(n : ℝ)| ≤ |(c : ℝ)| + |(x : ℝ)| * |(m : ℝ)| := by
      rw [hn, ← abs_mul]
      exact abs_add_le _ _
    have hm' : |(x : ℝ)| * |(m : ℝ)| ≤ |(m : ℝ)| := mul_le_of_le_one_left (abs_nonneg _) hle
    have ha' : |(x : ℝ)| * |(a : ℝ)| ≤ |(a : ℝ)| := mul_le_of_le_one_left (abs_nonneg _) hle
    linarith only [hsum, hm', hmiddle, ha', abs_cast_le h.size_b, abs_cast_le h.size_c]

/-- **The size of a quotient**, by the bound for all roots. -/
theorem simple_quotient (h : Short k a b c d) (hroot : polynomialAt a b c d (x : ℝ) = 0)
    (hm : (m : ℝ) = b + x * a) (hn : (n : ℝ) = c + x * m) (hd : (d : ℝ) + x * n = 0) :
    Quotient k (Double.round false x) a b c m n x (rootBound a) := by
  have hone := h.one_le_abs_leading
  have hbound := one_le_rootBound a
  have hxr := h.abs_root_le hroot
  have hsize := h.abs_mul_rootBound
  have hmiddle := abs_middle_le hm
  have hlast := h.abs_last_le hm hn hd
  refine ⟨h.represents_a, h.represents_b, h.represents_c, ?_, hm, hn, h.leading, hbound, ?_, ?_, ?_⟩
  · refine (near_candidate (h.abs_root_le_of_root hroot)).resize hxr ?_
    have hmax : max 1 |(x : ℝ)| ≤ rootBound a := max_le hbound hxr
    linarith only [hmax]
  · rw [hsize]
    linarith only [abs_cast_le h.size_a]
  · have hproduct : |(x : ℝ)| * |(a : ℝ)| ≤ |(a : ℝ)| * rootBound a := by
      rw [mul_comm]
      exact mul_le_mul_of_nonneg_left hxr (abs_nonneg _)
    linarith only [hmiddle, hproduct, hsize, abs_cast_le h.size_b, hone]
  · -- The bound is at least one, and `10000` over the leading coefficient above it.
    have hgrow : 10000 ≤ 10000 * rootBound a := le_mul_of_one_le_right (by norm_num) hbound
    rw [hsize, add_mul, hsize]
    linarith only [hlast, hgrow]

/-- The bound and the size of the quotient do not both become large. -/
theorem size_mul_rootBound_le (h : Short k a b c d) :
    |(a : ℝ)| * rootBound a * rootBound a ≤ 10001 ^ 2 := by
  have hone := h.one_le_abs_leading
  have hpos : 0 < |(a : ℝ)| := zero_lt_one.trans_le hone
  have hsize := h.abs_mul_rootBound
  refine le_of_mul_le_mul_left ?_ hpos
  calc |(a : ℝ)| * (|(a : ℝ)| * rootBound a * rootBound a)
      = (|(a : ℝ)| * rootBound a) * (|(a : ℝ)| * rootBound a) := by ring
    _ = (|(a : ℝ)| + 10000) * (|(a : ℝ)| + 10000) := by rw [hsize]
    _ ≤ |(a : ℝ)| * 10001 ^ 2 := by
      have hproduct := mul_nonneg (sub_nonneg.mpr hone) (sub_nonneg.mpr (abs_cast_le h.size_a))
      linarith only [hproduct, hone]

/-- Where a double root `z` is smaller than the third root, no term is large at `z`. -/
theorem terms_at_double_root (h : Short k a b c d) {z : ℝ} (hb : (b : ℝ) = -(a * (x + 2 * z)))
    (hc : (c : ℝ) = a * (z ^ 2 + 2 * x * z)) (hd : (d : ℝ) = -(a * (x * z ^ 2)))
    (hle : |z| ≤ |(x : ℝ)|) :
    |(a : ℝ)| * max 1 |z| ^ 3 ≤ 30000 ∧ |(b : ℝ)| * max 1 |z| ^ 2 ≤ 30000 ∧
      |(c : ℝ)| * max 1 |z| ≤ 30000 := by
  rcases le_total |z| 1 with hsmall | hlarge
  · rw [max_eq_left hsmall, one_pow, one_pow, mul_one, mul_one, mul_one]
    refine ⟨(abs_cast_le h.size_a).trans (by norm_num), (abs_cast_le h.size_b).trans (by norm_num),
      (abs_cast_le h.size_c).trans (by norm_num)⟩
  · -- The constant term bounds all others.
    have hconstant : |(a : ℝ)| * (|(x : ℝ)| * |z| ^ 2) ≤ 10000 := by
      rw [← abs_pow, ← abs_mul, ← abs_mul, ← abs_neg, ← hd]
      exact abs_cast_le h.size_d
    have hcube : |z| ^ 3 ≤ |(x : ℝ)| * |z| ^ 2 := by
      rw [pow_succ']
      gcongr
    have hsquare : |(x : ℝ) + 2 * z| * |z| ^ 2 ≤ 3 * (|(x : ℝ)| * |z| ^ 2) := by
      rw [← mul_assoc]
      gcongr
      exact abs_add_two_mul_le hle
    have hlinear : |z ^ 2 + 2 * x * z| * |z| ≤ 3 * (|(x : ℝ)| * |z| ^ 2) := by
      calc |z ^ 2 + 2 * x * z| * |z| ≤ 3 * |(x : ℝ)| * |z| * |z| := by
            gcongr
            exact abs_sq_add_two_mul_le hle
        _ = 3 * (|(x : ℝ)| * |z| ^ 2) := by ring
    rw [max_eq_right hlarge, hb, hc, abs_neg, abs_mul, abs_mul, mul_assoc, mul_assoc]
    have hscale {s t : ℝ} (hst : s ≤ 3 * t) (ht : |(a : ℝ)| * t ≤ 10000) :
        |(a : ℝ)| * s ≤ 30000 := by
      have hmul := mul_le_mul_of_nonneg_left hst (abs_nonneg (a : ℝ))
      linarith only [hmul, ht]
    have hpositive : 0 ≤ |(x : ℝ)| * |z| ^ 2 := by positivity
    exact ⟨hscale (by linarith only [hcube, hpositive]) hconstant, hscale hsquare hconstant,
      hscale hlinear hconstant⟩

/-- **A double root is not much smaller than the root that is found**: it would have been found
before. -/
theorem found_le_double_root (h : Short k a b c d) {z : ℚ}
    (hfound : firstRoot? standardArithmetic k.a k.b k.c k.d (candidates k.a k.d) =
      .ok (some (Double.round false x)))
    (hx : polynomialAt a b c d (x : ℝ) = 0) (hz : polynomialAt a b c d (z : ℝ) = 0)
    (hzero : d = 0 → x = 0) (hb : (b : ℝ) = -(a * (x + 2 * z)))
    (hc : (c : ℝ) = a * (z ^ 2 + 2 * x * z)) (hd : (d : ℝ) = -(a * (x * z ^ 2))) :
    |(x : ℝ)| ≤ 2 * max 1 |(z : ℝ)| := by
  have hone : 1 ≤ max 1 |(z : ℝ)| := le_max_left _ _
  rcases le_or_gt |(x : ℝ)| |(z : ℝ)| with hle | hlt
  · linarith only [hle, hone, le_max_right 1 |(z : ℝ)|]
  rcases le_total |(x : ℝ)| 1 with hsmall | hlarge
  · linarith only [hsmall, hone]
  have hne : d ≠ 0 := by
    intro hd0
    rw [hzero hd0, Rat.cast_zero, abs_zero] at hlarge
    exact absurd hlarge (by norm_num)
  have hroot : polynomialAt a b c d z = 0 := by
    rw [← polynomialAt_cast] at hz
    exact_mod_cast hz
  obtain ⟨hta, htb, htc⟩ := h.terms_at_double_root hb hc hd hlt.le
  have hfirst := h.abs_found_le hfound hne hroot
    (h.accepts_root hroot (h.abs_root_le_of_root hz) hta htb htc)
  have hcast : |((Double.round false x).value : ℝ)| ≤ |((Double.round false z).value : ℝ)| := by
    exact_mod_cast hfirst
  -- Both are rounded by less than a tenth of their size.
  have hmove {q : ℚ} (hq : polynomialAt a b c d (q : ℝ) = 0) :
      |((Double.round false q).value : ℝ) - q| ≤ 1 / 10 * max 1 |(q : ℝ)| := by
    refine (near_candidate (h.abs_root_le_of_root hq)).close.error.trans ?_
    gcongr
    norm_num [roundoff]
  have hxmove := hmove hx
  have hzmove := hmove hz
  rw [max_eq_right hlarge] at hxmove
  have hxnear := abs_sub_abs_le_abs_sub (x : ℝ) (Double.round false x).value
  rw [abs_sub_comm] at hxnear
  have hznear := abs_sub_abs_le_abs_sub ((Double.round false z).value : ℝ) z
  linarith only [hcast, hxmove, hzmove, hxnear, hznear, hone, le_max_right 1 |(z : ℝ)|]

/-- **The size of a quotient with a double root.** -/
theorem double_quotient (h : Short k a b c d)
    (hfound : firstRoot? standardArithmetic k.a k.b k.c k.d (candidates k.a k.d) =
      .ok (some (Double.round false x)))
    (hx : polynomialAt a b c d (x : ℝ) = 0) (hzero : d = 0 → x = 0) (hm : (m : ℝ) = b + x * a)
    (hn : (n : ℝ) = c + x * m) (hd : (d : ℝ) + x * n = 0) (hdiscriminant : m ^ 2 - 4 * a * n = 0) :
    Quotient k (Double.round false x) a b c m n x (2 * max 1 |(-m : ℝ) / (2 * a)|) := by
  have hone := h.one_le_abs_leading
  have hpos : 0 < |(a : ℝ)| := zero_lt_one.trans_le hone
  obtain ⟨z, hz, hmz, hnz, hb, hc, hd'⟩ := exists_double_root h.leading hm hn hd hdiscriminant
  rw [← hz]
  have hroot : polynomialAt a b c d (z : ℝ) = 0 := by
    rw [polynomialAt, hb, hc, hd']
    ring
  have hxr := h.found_le_double_root hfound hx hroot hzero hb hc hd'
  have hmax : 1 ≤ max 1 |(z : ℝ)| := le_max_left _ _
  have hzmax : |(z : ℝ)| ≤ max 1 |(z : ℝ)| := le_max_right _ _
  have hcauchy : max 1 |(z : ℝ)| ≤ rootBound a :=
    max_le (one_le_rootBound a) (h.abs_root_le hroot)
  refine ⟨h.represents_a, h.represents_b, h.represents_c, ?_, hm, hn, h.leading,
    by linarith only [hmax], ?_, ?_, ?_⟩
  · refine (near_candidate (h.abs_root_le_of_root hx)).resize hxr ?_
    have hxmax : max 1 |(x : ℝ)| ≤ 2 * max 1 |(z : ℝ)| := max_le (by linarith only [hmax]) hxr
    linarith only [hxmax]
  · have hscaled := mul_le_mul_of_nonneg_left hcauchy hpos.le
    rw [h.abs_mul_rootBound] at hscaled
    linarith only [hscaled, abs_cast_le h.size_a]
  · rw [hmz, abs_neg, abs_mul, abs_mul, abs_of_pos (by norm_num : (0 : ℝ) < 2)]
    have hscaled := mul_le_mul_of_nonneg_left hzmax hpos.le
    have hnonneg : 0 ≤ |(a : ℝ)| * max 1 |(z : ℝ)| := by positivity
    linarith only [hscaled, hnonneg]
  · rw [hnz, abs_mul, abs_pow]
    calc |(a : ℝ)| * |(z : ℝ)| ^ 2 ≤ |(a : ℝ)| * (2 * max 1 |(z : ℝ)|) ^ 2 := by
          gcongr
          linarith only [hzmax, hmax]
      _ = |(a : ℝ)| * (2 * max 1 |(z : ℝ)|) * (2 * max 1 |(z : ℝ)|) := by ring

end Short

end Stepwise.Cubic
