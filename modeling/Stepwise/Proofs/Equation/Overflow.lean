/-
# Candidates whose cube is too large

Each candidate for a rational root is cubed, and a cube may be too large for a double.  Candidates
come by ascending magnitude and the constant term is the largest, so that the search breaks down
exactly if the cube of the constant term is too large and no candidate is accepted.  Nothing else in
the solver of cubic equations breaks down.

* `Cubic.TooLarge` : the cube of a number is too large;
* `Cubic.firstRoot?_error_iff` : where a search breaks down;
* `Cubic.abs_le_of_mem_candidates`, `Cubic.exists_tooLarge_iff` : the largest candidate;
* `Cubic.Overruns` : equations whose search goes too far;
* `Cubic.firstRoot?_overflow_iff` : only their search breaks down;
* `Cubic.overruns_two_pow` : some of these equations;
* `Cubic.solve_overflow_iff` : all others are answered or refused by the solver.
-/
import Stepwise.Proofs.Equation.Delegation
import Stepwise.Proofs.Equation.Remainder
import Stepwise.Proofs.Problem.Contained

namespace Stepwise

open Double (overflowThreshold representable_two_pow represents_two_pow)

namespace Cubic

/-! ## Cubes -/

/-- The cube of the number is too large for a double. -/
def TooLarge (x : Double) : Prop := overflowThreshold ≤ |x.value ^ 3|

/-- A larger number has a larger cube. -/
theorem TooLarge.mono {x y : Double} (hx : TooLarge x) (h : |x.value| ≤ |y.value|) :
    TooLarge y := by
  unfold TooLarge at *
  rw [abs_pow] at *
  exact hx.trans (by gcongr)

theorem not_tooLarge_zero (s : Bool) : ¬ TooLarge (.zero s) := by
  have hpos := zero_lt_one.trans Double.one_lt_overflowThreshold
  simpa [TooLarge, Double.value_zero] using hpos

section Value

variable {x : Double} (hx : x.isFinite = true)

include hx

theorem doublePower_of_large {n : ℕ} (hn : (Double.ofNat n).Represents n)
    (hmost : n ≤ Double.maxExactExponent) (h : overflowThreshold ≤ |x.value ^ n|) :
    doublePower x n = .error .overflow := by
  rw [doublePower, Double.power_overflow hx hn hmost h]

theorem exists_doublePower {n : ℕ} (hn : (Double.ofNat n).Represents n)
    (hmost : n ≤ Double.maxExactExponent) (h : |x.value ^ n| < overflowThreshold) :
    ∃ y, doublePower x n = .ok y := by
  obtain ⟨y, hy⟩ := Double.exists_power hx hn hmost h
  exact ⟨y, by rw [doublePower, hy]⟩

variable (tolerance a b c d : Double)

theorem valueAt_of_tooLarge (h : TooLarge x) :
    valueAt (doubleArithmetic tolerance) a b c d x = .error .overflow := by
  have hcube : doublePower x 3 = .error .overflow :=
    doublePower_of_large hx (by decide +kernel) (by decide) h
  simp only [valueAt, doubleArithmetic, hcube]
  rfl

/-- Where the cube is a double, so is the square. -/
theorem exists_valueAt (h : ¬ TooLarge x) :
    ∃ value, valueAt (doubleArithmetic tolerance) a b c d x = .ok value := by
  have hcube : |x.value ^ 3| < overflowThreshold := not_le.mp h
  have hsquare : |x.value ^ 2| < overflowThreshold := by
    rw [abs_pow] at *
    rcases le_total |x.value| 1 with hle | hge
    · exact (pow_le_one₀ (abs_nonneg _) hle).trans_lt Double.one_lt_overflowThreshold
    · exact (pow_le_pow_right₀ hge (by norm_num)).trans_lt hcube
  obtain ⟨cube, hcubeResult⟩ := exists_doublePower (n := 3) hx (by decide +kernel) (by decide) hcube
  obtain ⟨square, hsquareResult⟩ :=
    exists_doublePower (n := 2) hx (by decide +kernel) (by decide) hsquare
  simp only [valueAt, doubleArithmetic, hcubeResult, hsquareResult]
  exact ⟨_, rfl⟩

end Value

/-! ## Where a search breaks down -/

section Search

variable {α : Type} {n : Arithmetic α} {a b c d x : α} {e : Breakdown}

theorem not_accepts_of_error (h : valueAt n a b c d x = .error e) : ¬ Accepts n a b c d x := by
  rintro ⟨value, hvalue, -⟩
  rw [h] at hvalue
  cases hvalue

theorem accepts_iff {value : α} (h : valueAt n a b c d x = .ok value) :
    Accepts n a b c d x ↔ n.isSmall value = true := by
  constructor
  · rintro ⟨value', hvalue', hsmall⟩
    rw [h] at hvalue'
    cases hvalue'
    exact hsmall
  · exact fun hsmall => ⟨value, h, hsmall⟩

variable {xs : List α} {L : α → Prop}
  (herror : ∀ x ∈ xs, L x → valueAt n a b c d x = .error e)
  (hok : ∀ x ∈ xs, ¬ L x → ∃ value, valueAt n a b c d x = .ok value)

include herror hok

/-- A search breaks down only in the way its candidates do. -/
theorem failsOnly_firstRoot? : FailsOnly (· = e) (firstRoot? n a b c d xs) := by
  induction xs with
  | nil => exact .ok _
  | cons x xs ih =>
    rw [List.forall_mem_cons] at herror hok
    simp only [firstRoot?]
    by_cases hx : L x
    · rw [herror.1 hx]
      exact .error rfl
    · obtain ⟨value, hvalue⟩ := hok.1 hx
      rw [hvalue]
      exact .ite (fun _ => .ok _) fun _ => ih herror.2 hok.2

/-- **Where a search breaks down**: if the candidates that are too large come last, then where there
is one of them and none of the candidates is accepted. -/
theorem firstRoot?_error_iff (hlast : xs.Pairwise fun x y => L x → L y) :
    firstRoot? n a b c d xs = .error e ↔
      (∃ x ∈ xs, L x) ∧ ∀ x ∈ xs, ¬ Accepts n a b c d x := by
  induction xs with
  | nil => simp [firstRoot?]
  | cons x xs ih =>
    rw [List.pairwise_cons] at hlast
    by_cases hx : L x
    · -- All later candidates are too large as well.
      have hall : ∀ y ∈ x :: xs, L y :=
        List.forall_mem_cons.mpr ⟨hx, fun y hy => hlast.1 y hy hx⟩
      have hfirst : firstRoot? n a b c d (x :: xs) = .error e := by
        rw [firstRoot?, herror x List.mem_cons_self hx]
      exact iff_of_true hfirst
        ⟨⟨x, List.mem_cons_self, hx⟩, fun y hy => not_accepts_of_error (herror y hy (hall y hy))⟩
    · obtain ⟨value, hvalue⟩ := hok x List.mem_cons_self hx
      rw [List.forall_mem_cons] at herror hok
      simp only [firstRoot?, hvalue, List.exists_mem_cons_iff, List.forall_mem_cons, hx, false_or,
        accepts_iff hvalue]
      by_cases hsmall : n.isSmall value = true
      · simp [hsmall]
      · rw [if_neg hsmall]
        simpa [hsmall] using ih herror.2 hok.2 hlast.2

end Search

/-! ## The largest candidate -/

section Candidates

variable {a d : ℤ} {a' d' x : Double}

theorem magnitude_eq (hd : d'.Represents d) : ((d.natAbs : ℕ) : ℚ) = |d'.value| := by
  rw [hd.2, ← Int.cast_abs, Int.abs_eq_natAbs, Int.cast_natCast]

variable (ha : a'.Represents a) (hd : d'.Represents d)

include ha hd

/-- **No candidate exceeds the constant term.** -/
theorem abs_le_of_mem_candidates (hx : x ∈ candidates a' d') :
    x.isFinite = true ∧ |x.value| ≤ |d'.value| := by
  rw [candidates_of_represents ha hd] at hx
  by_cases ha0 : a = 0
  · simp [candidatesOf, ha0] at hx
  by_cases hd0 : d = 0
  · subst hd0
    rw [candidatesOf_zero ha0, List.mem_singleton] at hx
    subst hx
    refine ⟨rfl, ?_⟩
    rw [show Double.roundQuotient false 0 1 = .zero false from rfl, Double.value_zero, abs_zero]
    exact abs_nonneg _
  obtain ⟨p, q, hp, hq, hx⟩ := (mem_candidatesOf ha0 hd0).mp hx
  have hsize := Double.abs_value_lt hd.1
  have hmagnitude := magnitude_eq hd
  have hpos : 0 < d.natAbs := Int.natAbs_pos.mpr hd0
  have hle : (p : ℚ) ≤ |d'.value| := by
    rw [← hmagnitude]
    exact_mod_cast Nat.le_of_dvd hpos hp
  have hppos : 0 < p := Nat.pos_of_dvd_of_pos hp hpos
  have hqpos : 0 < q := Nat.pos_of_dvd_of_pos hq (Int.natAbs_pos.mpr ha0)
  obtain ⟨hfinite, hvalue⟩ := abs_value_roundQuotient hppos hqpos (hle.trans_lt hsize)
  have hratio : 0 < ratio p q ∧ ratio p q ≤ |d'.value| := by
    unfold ratio
    refine ⟨by positivity, (div_le_self (by positivity) ?_).trans hle⟩
    exact_mod_cast hqpos
  have hbound : |(Double.roundQuotient false p q).value| ≤ |d'.value| := by
    calc |(Double.roundQuotient false p q).value| = Double.nearest (ratio p q) := hvalue
      _ ≤ Double.nearest |d'.value| := Double.nearest_mono hratio.1 hratio.2
      _ = |d'.value| := Double.nearest_abs_value hd.1 (abs_pos.mp (hratio.1.trans_le hratio.2))
  rcases hx with rfl | rfl
  · exact ⟨hfinite, hbound⟩
  · rw [Double.isFinite_neg, Double.value_neg, abs_neg]
    exact ⟨hfinite, hbound⟩

/-- The constant term is a candidate, up to its sign. -/
theorem exists_candidate_eq (ha0 : a ≠ 0) (hd0 : d ≠ 0) :
    ∃ x ∈ candidates a' d', |x.value| = |d'.value| := by
  have hmagnitude := magnitude_eq hd
  have hne : d'.value ≠ 0 := by
    rw [hd.2]
    exact_mod_cast hd0
  refine ⟨Double.roundQuotient false d.natAbs 1, ?_, ?_⟩
  · rw [candidates_of_represents ha hd, mem_candidatesOf ha0 hd0]
    exact ⟨d.natAbs, 1, dvd_rfl, one_dvd _, .inl rfl⟩
  · rw [(abs_value_roundQuotient (Int.natAbs_pos.mpr hd0) one_pos
      (hmagnitude.trans_lt (Double.abs_value_lt hd.1))).2, ratio, hmagnitude, Nat.cast_one, div_one,
      Double.nearest_abs_value hd.1 hne]

/-- The cube of a candidate is too large only if that of the constant term is. -/
theorem exists_tooLarge_iff (ha0 : a ≠ 0) :
    (∃ x ∈ candidates a' d', TooLarge x) ↔ TooLarge d' := by
  constructor
  · rintro ⟨x, hx, hlarge⟩
    exact hlarge.mono (abs_le_of_mem_candidates ha hd hx).2
  · intro hlarge
    have hd0 : d ≠ 0 := by
      rintro rfl
      refine not_tooLarge_zero false (hlarge.mono ?_)
      rw [hd.2, Int.cast_zero, Double.value_zero]
    obtain ⟨x, hx, hvalue⟩ := exists_candidate_eq ha hd ha0 hd0
    exact ⟨x, hx, hlarge.mono hvalue.ge⟩

end Candidates

/-! ## Equations whose search goes too far -/

theorem TooLarge.isFinite {x : Double} (h : TooLarge x) : x.isFinite = true := by
  cases x with
  | nan | infinity negative =>
    have hpos := zero_lt_one.trans Double.one_lt_overflowThreshold
    exact absurd h (by simpa [TooLarge, Double.value] using hpos)
  | finite negative m e hc => rfl

/-- What has too large a cube is a whole number. -/
theorem TooLarge.exists_represents {x : Double} (h : TooLarge x) : ∃ n : ℤ, x.Represents n := by
  refine Double.exists_represents_of_large h.isFinite ?_
  by_contra hsmall
  have hcube : |x.value ^ 3| < overflowThreshold := by
    rw [abs_pow]
    calc |x.value| ^ 3 ≤ (2 ^ 53) ^ 3 := by
          have hlt := not_le.mp hsmall
          gcongr
      _ = 2 ^ 52 * 2 ^ (107 : ℤ) := by norm_num
      _ ≤ 2 ^ 52 * 2 ^ (971 : ℤ) := by
          gcongr
          · norm_num
          · norm_num
      _ < overflowThreshold := mul_lt_mul_of_pos_right (by norm_num) (by positivity)
  exact not_le.mpr hcube h

/-- The search for a rational root goes too far: the leading coefficient is a whole number and not
zero, so that there are candidates; the cube of the constant term, which is the largest of them, is
too large; and none of them is accepted. -/
structure Overruns (tolerance : Double) (k : Coefficients) : Prop where
  leading : ∃ a : ℤ, a ≠ 0 ∧ k.a.Represents a
  large : TooLarge k.d
  refused : ∀ x ∈ candidates k.a k.d,
    ¬ Accepts (doubleArithmetic tolerance) k.a k.b k.c k.d x

/-- Only whole outer coefficients have candidates. -/
theorem represents_of_mem_candidates {a d x : Double} (hx : x ∈ candidates a d) :
    ∃ m n : ℤ, m ≠ 0 ∧ a.Represents m ∧ d.Represents n := by
  unfold candidates at hx
  split at hx
  · next m n hm hn =>
    refine ⟨m, n, ?_, Double.represents_of_toInt? hm, Double.represents_of_toInt? hn⟩
    rintro rfl
    simp [candidatesOf] at hx
  · cases hx

/-- A quotient of divisors is never too large for a double. -/
theorem isFinite_of_mem_candidates {a d x : Double} (hx : x ∈ candidates a d) :
    x.isFinite = true := by
  obtain ⟨m, n, -, ha, hd⟩ := represents_of_mem_candidates hx
  exact (abs_le_of_mem_candidates ha hd hx).1

theorem candidates_pairwise (a d : Double) :
    (candidates a d).Pairwise fun x y => |x.value| ≤ |y.value| := by
  unfold candidates
  split
  · next m n hm hn =>
    have hd := Double.represents_of_toInt? hn
    refine candidates_sorted ?_
    rw [← hd.2]
    exact Double.abs_value_lt hd.1
  · exact .nil

section Equations

variable (tolerance : Double) (k : Coefficients)

theorem failsOnly_search :
    FailsOnly (· = .overflow)
      (firstRoot? (doubleArithmetic tolerance) k.a k.b k.c k.d (candidates k.a k.d)) :=
  failsOnly_firstRoot? (L := TooLarge)
    (fun _ hx => valueAt_of_tooLarge (isFinite_of_mem_candidates hx) tolerance _ _ _ _)
    fun _ hx => exists_valueAt (isFinite_of_mem_candidates hx) tolerance _ _ _ _

/-- **The search breaks down** exactly if it goes too far. -/
theorem firstRoot?_overflow_iff :
    firstRoot? (doubleArithmetic tolerance) k.a k.b k.c k.d (candidates k.a k.d) =
      .error .overflow ↔ Overruns tolerance k := by
  rw [firstRoot?_error_iff (L := TooLarge)
    (fun _ hx => valueAt_of_tooLarge (isFinite_of_mem_candidates hx) tolerance _ _ _ _)
    (fun _ hx => exists_valueAt (isFinite_of_mem_candidates hx) tolerance _ _ _ _)
    ((candidates_pairwise k.a k.d).imp fun h hx => hx.mono h)]
  constructor
  · rintro ⟨⟨x, hx, hlarge⟩, hrefused⟩
    obtain ⟨m, n, hm, ha, hd⟩ := represents_of_mem_candidates hx
    exact ⟨⟨m, hm, ha⟩, (exists_tooLarge_iff ha hd hm).mp ⟨x, hx, hlarge⟩, hrefused⟩
  · intro h
    obtain ⟨m, hm, ha⟩ := h.leading
    obtain ⟨n, hd⟩ := h.large.exists_represents
    exact ⟨(exists_tooLarge_iff ha hd hm).mpr h.large, h.refused⟩

end Equations

/-! ## Pure cubic equations -/

/-- The value of `x^3 + d` is rounded only when `d` is added, if the powers of `x` are doubles. -/
theorem exists_valueAt_pure (tolerance : Double) {x d : Double} {q : ℚ} (hx : x.Represents q)
    (hd : d.isFinite = true) (hsquare : Representable (q ^ 2)) (hcube : Representable (q ^ 3)) :
    ∃ s, valueAt (doubleArithmetic tolerance) 1 0 0 d x =
      .ok (Double.round s (q ^ 3 + d.value)) := by
  obtain ⟨hfinite, rfl⟩ := hx
  obtain ⟨cube, hcubeResult, hcubeValue⟩ :=
    Double.power_of_whole (p := .ofNat 3) (n := 3) hfinite (by decide +kernel) (by decide) hcube
  obtain ⟨square, hsquareResult, hsquareValue⟩ :=
    Double.power_of_whole (p := .ofNat 2) (n := 2) hfinite (by decide +kernel) (by decide) hsquare
  have hzero {y : Double} {r : ℚ} (hy : y.Represents r) : (0 * y).Represents 0 := by
    have hproduct := (Double.represents_zero false).mul hy
      (by rw [zero_mul]; exact ⟨_, Double.represents_zero false⟩)
    rwa [zero_mul] at hproduct
  have hone : (1 * cube).Represents (x.value ^ 3) := by
    have hproduct := Double.represents_one.mul hcubeValue (by rwa [one_mul])
    rwa [one_mul] at hproduct
  have hterms : (1 * cube + 0 * square + 0 * x).Represents (x.value ^ 3) := by
    have hsum := hone.add (hzero hsquareValue) (by rwa [add_zero])
    rw [add_zero] at hsum
    have hsum' := hsum.add (hzero (r := x.value) ⟨hfinite, rfl⟩) (by rwa [add_zero])
    rwa [add_zero] at hsum'
  obtain ⟨s, hround⟩ := Double.exists_add_eq_round hterms.1 hd
  refine ⟨s, ?_⟩
  rw [hterms.2] at hround
  simp only [valueAt, doubleArithmetic, doublePower, hcubeResult, hsquareResult]
  exact congrArg Except.ok hround

/-- Whole numbers other than zero are not small. -/
theorem isSmall_round_eq_false (s : Bool) {n : ℤ} (hn : n ≠ 0) :
    standardArithmetic.isSmall (Double.round s n) = false := by
  rw [← Bool.not_eq_true]
  by_cases hfinite : (Double.round s n).isFinite = true
  · rw [standardArithmetic_isSmall hfinite, not_lt]
    have hlarge := Double.one_le_abs_value_round s hn hfinite
    have hsmall : ({} : Settings).rootTolerance.value ≤ 1 :=
      rootTolerance_bounds.2.2.trans (by norm_num)
    exact_mod_cast hsmall.trans hlarge
  · obtain ⟨t, hinfinite⟩ := Double.exists_infinity (Double.isNaN_round s n) hfinite
    rw [hinfinite]
    cases t <;> decide +kernel

section TwoPow

variable {x : Double} {e : ℤ} {i m : ℕ} (he : e = 1 ∨ e = -1) (hx : x.Represents (e * 2 ^ i))

include he hx

theorem tooLarge_two_pow (hi : 342 ≤ i) : TooLarge x := by
  have hvalue : |x.value| = 2 ^ i := by
    rw [hx.2]
    rcases he with rfl | rfl <;> simp
  unfold TooLarge
  rw [abs_pow, hvalue, ← pow_mul]
  refine Double.overflowThreshold_lt.le.trans ?_
  rw [← zpow_natCast]
  exact zpow_le_zpow_right₀ (by norm_num) (by push_cast; omega)

/-- A power of two, or its opposite, is not accepted as a root of `x^3 + 2^m` if `m` is no multiple
of three. -/
theorem not_accepts_two_pow (hthree : ¬ 3 ∣ m) (hm : m ≤ 1023) :
    ¬ Accepts standardArithmetic 1 0 0 (.ofNat (2 ^ m)) x := by
  have hconstant := represents_two_pow hm
  rcases le_or_gt 342 i with hlarge | hsmall
  · exact not_accepts_of_error (valueAt_of_tooLarge hx.1 _ _ _ _ _ (tooLarge_two_pow he hx hlarge))
  have hpow (n : ℕ) (hn : i * n ≤ 1023) : Representable ((e * 2 ^ i) ^ n) := by
    have hpositive := representable_two_pow hn
    rw [pow_mul] at hpositive
    rw [mul_pow]
    rcases he with rfl | rfl
    · simpa using hpositive
    · rcases neg_one_pow_eq_or ℚ n with heven | hodd
      · simpa [heven] using hpositive
      · simpa [hodd] using hpositive.neg
  obtain ⟨s, hresult⟩ := exists_valueAt_pure ({} : Settings).rootTolerance hx hconstant.1
    (hpow 2 (by omega)) (hpow 3 (by omega))
  have hwhole : ((e : ℚ) * 2 ^ i) ^ 3 + (Double.ofNat (2 ^ m)).value =
      (((e * 2 ^ i) ^ 3 + 2 ^ m : ℤ) : ℚ) := by
    rw [hconstant.2]
    push_cast
    rfl
  have hne : (e * 2 ^ i) ^ 3 + 2 ^ m ≠ 0 := by
    rcases he with rfl | rfl
    · positivity
    · intro hzero
      have hequal : (2 : ℤ) ^ m = 2 ^ (i * 3) := by
        rw [pow_mul]
        linarith only [hzero]
      exact hthree ⟨i, by rw [pow_right_injective₀ (by norm_num) (by norm_num) hequal, mul_comm]⟩
  rw [standardArithmetic, accepts_iff hresult, hwhole, Bool.not_eq_true]
  exact isSmall_round_eq_false s hne

end TwoPow

/-- **The search of `x^3 + 2^m = 0` goes too far** if `m` is no multiple of three, so that there is
no rational root, and the cube of `2^m` is too large. -/
theorem overruns_two_pow {m : ℕ} (hthree : ¬ 3 ∣ m) (hlow : 342 ≤ m) (hhigh : m ≤ 1023) :
    Overruns ({} : Settings).rootTolerance ⟨1, 0, 0, .ofNat (2 ^ m)⟩ := by
  have hone : (1 : Double).Represents ((1 : ℤ) : ℚ) := by
    rw [Int.cast_one]
    exact Double.represents_one
  have hconstant : (Double.ofNat (2 ^ m)).Represents ((2 ^ m : ℤ) : ℚ) := by
    rw [Int.cast_pow, Int.cast_ofNat]
    exact represents_two_pow hhigh
  refine ⟨⟨1, one_ne_zero, hone⟩,
    tooLarge_two_pow (.inl rfl) (by simpa using represents_two_pow hhigh) hlow, fun x hx => ?_⟩
  rw [candidates_of_represents hone hconstant, mem_candidatesOf one_ne_zero (by positivity)] at hx
  obtain ⟨p, q, hp, hq, hx⟩ := hx
  obtain rfl := Nat.dvd_one.mp hq
  rw [Int.natAbs_pow] at hp
  obtain ⟨i, hi, rfl⟩ := (Nat.dvd_prime_pow Nat.prime_two).mp hp
  have hpower : (Double.roundQuotient false (2 ^ i) 1).Represents (2 ^ i) :=
    represents_two_pow (hi.trans hhigh)
  rcases hx with rfl | rfl
  · exact not_accepts_two_pow (.inl rfl) (by simpa using hpower) hthree hhigh
  · exact not_accepts_two_pow (.inr rfl) (by simpa using hpower.neg) hthree hhigh

/-- The equation `x^3 + 2^343 = 0`, written out. -/
def tooFar : String :=
  "x^3 + 179179579374224336844595382445475542249731639778771962791999" ++
    "12807710334969441287563047019946172856926208 = 0"

theorem netCoefficients_tooFar :
    Equation.netCoefficients wording tooFar.toList = .ok ⟨1, 0, 0, .ofNat (2 ^ 343)⟩ :=
  eq_ok_of_toOption (by decide +kernel)

end Cubic

/-! ## Whole equations -/

/-- The fault is a failure of a solver. -/
def Fault.OfSolver : Fault → Prop
  | .failure f => f.kind = .solver
  | .breakdown _ => False

open Fault (OfSolver)

variable {settings : Settings} {equation : String} {k : Coefficients}

/-- An equation with two sides and without a cubic term is answered. -/
theorem Quadratic.exists_solveWithoutCube (hs : settings.Sensible) {left right : List Char}
    (hsplit : Text.splitAtChar '=' equation.toList = [left, right]) (k : Coefficients) :
    ∃ result, (solveWithoutCube settings equation k).outcome = .ok result := by
  unfold solveWithoutCube
  split
  · rw [Traced.outcome_log_bind, Traced.outcome_ofFailure, Linear.solve,
      Equation.sides_of_split hsplit]
    exact ⟨_, rfl⟩
  · next hsquare =>
    obtain ⟨result, hresult⟩ := exists_answer hs (Bool.eq_false_iff.mpr hsquare) equation k.c k.d
    rw [Traced.outcome_ofBreakdown, hresult]
    exact ⟨result, rfl⟩

namespace Cubic

/-- A root that has been found leads to an answer, or leaves a remainder. -/
theorem failsOnly_ofSolver_answerFromRoot (hdecimals : 0 ≤ settings.rootDecimals)
    (hcube : k.a.isZero = false) (root : Double) :
    FailsOnly OfSolver (answerFromRoot settings equation k root) := by
  unfold answerFromRoot
  refine .ite (fun _ => .error rfl) fun _ => ?_
  refine .bind (failsOnly_liftBreakdown_of_ok (Quadratic.exists_solveCoefficients hcube _ _))
    fun solution _ => ?_
  refine .bind (failsOnly_liftBreakdown_of_ok
    (Roots.exists_text hdecimals (List.cons_ne_nil _ _) _)) fun final _ => ?_
  exact .ok _

theorem outcome_solve_of_cube (hk : Equation.netCoefficients wording equation.toList = .ok k)
    (hcube : k.a.isZero = false) :
    (solve settings equation).outcome = (solveWithCube settings equation k).outcome := by
  have hend : (solve settings equation).outcome = _ := HigherSolver.outcome_solve (s := .cubic) hk
  rwa [HigherSolver.target, if_neg (by simp [hcube])] at hend

/-- An equation whose search goes too far breaks down. -/
theorem outcome_of_overruns (hk : Equation.netCoefficients wording equation.toList = .ok k)
    (h : Overruns settings.rootTolerance k) :
    (solve settings equation).outcome = .error (.breakdown .overflow) := by
  obtain ⟨a, ha0, ha⟩ := h.leading
  rw [outcome_solve_of_cube hk (ha.isZero_eq_false (by exact_mod_cast ha0)), solveWithCube, root?,
    (firstRoot?_overflow_iff _ _).mpr h]
  rfl

/-- Without a root that may be divided out the search ends in a failure of the solver. -/
theorem failsOnly_solveWithCube_of_not_overruns (hdecimals : 0 ≤ settings.rootDecimals)
    (hfallback : settings.numericFallback = false) (hcube : k.a.isZero = false)
    (h : ¬ Overruns settings.rootTolerance k) :
    FailsOnly OfSolver (solveWithCube settings equation k).outcome := by
  rw [← firstRoot?_overflow_iff] at h
  have hsearch := failsOnly_search settings.rootTolerance k
  rw [solveWithCube, root?, hfallback]
  cases hfound : firstRoot? (doubleArithmetic settings.rootTolerance) k.a k.b k.c k.d
      (candidates k.a k.d) with
  | error e =>
    obtain rfl := hsearch e hfound
    exact absurd hfound h
  | ok found =>
    cases found with
    | none => exact .error rfl
    | some root => exact failsOnly_ofSolver_answerFromRoot hdecimals hcube root

/-- **Only the search for a root breaks down**, and only where it goes too far: an equation with one
equals sign is answered or refused with a failure of the solver, unless the cube of the constant
term is too large and no candidate is accepted.  No candidate itself is too large. -/
theorem solve_overflow_iff (hs : settings.Sensible) (hdecimals : 0 ≤ settings.rootDecimals)
    (hfallback : settings.numericFallback = false) (hone : equation.toList.count '=' = 1) :
    ∃ k, Equation.netCoefficients wording equation.toList = .ok k ∧
      (∀ x ∈ candidates k.a k.d, x.isFinite = true) ∧
      ((solve settings equation).outcome = .error (.breakdown .overflow) ↔
        Overruns settings.rootTolerance k) ∧
      FailsOnly (fun fault => fault.OfSolver ∨ fault = .breakdown .overflow)
        (solve settings equation).outcome := by
  obtain ⟨left, right, hsplit⟩ := Text.exists_splitAtChar_pair hone
  obtain ⟨k, hk⟩ : ∃ k, Equation.netCoefficients wording equation.toList = .ok k :=
    ⟨_, Equation.netCoefficients_of_split hsplit wording⟩
  refine ⟨k, hk, fun x hx => isFinite_of_mem_candidates hx, ?_⟩
  by_cases h : Overruns settings.rootTolerance k
  · rw [outcome_of_overruns hk h]
    exact ⟨iff_of_true rfl h, .error (.inr rfl)⟩
  · have hfails : FailsOnly OfSolver (solve settings equation).outcome := by
      cases hcube : k.a.isZero with
      | true =>
        obtain ⟨result, hresult⟩ := Quadratic.exists_solveWithoutCube hs hsplit k
        have hend : (solve settings equation).outcome = _ :=
          HigherSolver.outcome_solve (s := .cubic) hk
        rw [HigherSolver.target, if_pos hcube] at hend
        rw [hend.trans hresult]
        exact .ok result
      | false =>
        rw [outcome_solve_of_cube hk hcube]
        exact failsOnly_solveWithCube_of_not_overruns hdecimals hfallback hcube h
    refine ⟨iff_of_false (fun hoverflow => ?_) h, hfails.mono fun fault hfault => .inl hfault⟩
    exact hfails _ hoverflow

/-- The equation `x^3 + 2 = 0` has no rational root either, but its search does not go too far. -/
theorem solve_overflow_iff_each :
    Settings.Sensible {} ∧ 0 ≤ ({} : Settings).rootDecimals ∧
      ({} : Settings).numericFallback = false ∧
      tooFar.toList.count '=' = 1 ∧ "x^3 + 2 = 0".toList.count '=' = 1 ∧
      Overruns ({} : Settings).rootTolerance ⟨1, 0, 0, .ofNat (2 ^ 343)⟩ ∧
      (solve {} tooFar).outcome = .error (.breakdown .overflow) ∧
      ¬ Overruns ({} : Settings).rootTolerance ⟨1, 0, 0, 2⟩ ∧
      FailsOnly OfSolver (solve {} "x^3 + 2 = 0").outcome := by
  have hsensible := Settings.sensible_default
  have hdecimals : 0 ≤ ({} : Settings).rootDecimals := by decide
  have hfar : tooFar.toList.count '=' = 1 := by decide +kernel
  have hnear : "x^3 + 2 = 0".toList.count '=' = 1 := by decide +kernel
  have hoverruns : Overruns ({} : Settings).rootTolerance ⟨1, 0, 0, .ofNat (2 ^ 343)⟩ :=
    overruns_two_pow (by norm_num) (by norm_num) (by norm_num)
  have hstays : ¬ Overruns ({} : Settings).rootTolerance ⟨1, 0, 0, 2⟩ := by
    intro h
    have hlarge := h.large
    unfold TooLarge at hlarge
    revert hlarge
    decide +kernel
  obtain ⟨k, hk, -, hiff, -⟩ := solve_overflow_iff hsensible hdecimals rfl hfar
  obtain rfl := Except.ok.inj (hk.symm.trans netCoefficients_tooFar)
  have hread : Equation.netCoefficients wording "x^3 + 2 = 0".toList = .ok ⟨1, 0, 0, 2⟩ :=
    eq_ok_of_toOption (by decide +kernel)
  obtain ⟨k', hk', -, hiff', hfails⟩ := solve_overflow_iff hsensible hdecimals rfl hnear
  obtain rfl := Except.ok.inj (hk'.symm.trans hread)
  refine ⟨hsensible, hdecimals, rfl, hfar, hnear, hoverruns, hiff.mpr hoverruns, hstays, ?_⟩
  intro fault hfault
  rcases hfails fault hfault with hsolver | rfl
  · exact hsolver
  · exact absurd (hiff'.mp hfault) hstays

/-- **The search can go too far**: the equation has one equals sign, and the solver breaks down. -/
theorem search_breaks_down :
    tooFar.toList.count '=' = 1 ∧ ({} : Settings).numericFallback = false ∧
      (solve {} tooFar).outcome = .error (.breakdown .overflow) :=
  ⟨by decide +kernel, rfl, outcome_of_overruns netCoefficients_tooFar
    (overruns_two_pow (by norm_num) (by norm_num) (by norm_num))⟩

end Cubic

end Stepwise
