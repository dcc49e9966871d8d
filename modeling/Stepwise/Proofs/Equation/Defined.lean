/-
# Equations without undefined roots

The roots that are answered for an equation are numbers if its coefficients are finite, and with
them the divisors of the quadratic formula.

* `Roots.defined_text` : roots that are shown;
* `Coefficients.InRange` : the coefficients that a solver starts from are finite;
* `Quadratic.isNaN_of_solveCoefficients` : roots of the quadratic formula;
* `Cubic.isNaN_of_firstRoot?`, `Cubic.isFinite_of_remainder` : a root that is divided by;
* `Equation.defined_final` : the final answer of an equation.
-/
import Stepwise.Proofs.Double.Power
import Stepwise.Proofs.Equation.RootOrder
import Stepwise.Proofs.Polynomial.Shown
import Stepwise.Proofs.Problem.Outcome

namespace Stepwise

/-! ## Roots -/

namespace Roots

/-- What is written for numbers consists of their texts and of fixed pieces. -/
theorem defined_write {xs : List Double} {text : String} (hxs : ∀ x ∈ xs, x.isNaN = false)
    (h : write xs = .ok text) : Defined text := by
  apply defined_of_notMem
  cases xs with
  | nil => cases h
  | cons x xs =>
    cases xs with
    | nil =>
      cases h
      have hx := Double.notMem_text (hxs x (by simp))
      show 'a' ∉ ("x = " ++ x.text).toList
      rw [String.toList_append]
      exact fun hmem => (List.mem_append.mp hmem).elim (by decide) hx
    | cons y ys =>
      cases h
      rw [String.toList_append, String.toList_append, String.toList_intercalate]
      intro hmem
      rcases List.mem_append.mp hmem with hmem | hmem
      · rcases List.mem_append.mp hmem with hmem | hmem
        · exact absurd hmem (by decide)
        · rcases mem_of_mem_intercalate hmem with hmem | ⟨s, hs, hmem⟩
          · exact absurd hmem (by decide)
          · rw [List.map_map] at hs
            obtain ⟨z, hz, rfl⟩ := List.mem_map.mp hs
            exact Double.notMem_text (hxs z hz) hmem
      · exact absurd hmem (by decide)

/-- What is shown are the rounded roots. -/
theorem exists_of_text {places : Int} {roots : List Double} {A : Arrangement} {final : String}
    (h : text places roots A = .ok final) :
    ∃ shown, write shown = .ok final ∧
      ∀ y ∈ shown, ∃ x ∈ roots, x.roundForDisplay places = .ok y := by
  obtain ⟨rounded, hrounded, hwrite⟩ := bind_eq_ok.mp h
  exact ⟨_, hwrite, fun y hy => exists_of_mem_mapM hrounded (mem_of_mem_ascending hy)⟩

/-- Roots that are numbers are shown as numbers. -/
theorem defined_text {places : Int} {roots : List Double} {A : Arrangement} {final : String}
    (hroots : ∀ x ∈ roots, x.isNaN = false) (h : text places roots A = .ok final) :
    Defined final := by
  obtain ⟨shown, hwrite, hshown⟩ := exists_of_text h
  refine defined_write (fun y hy => ?_) hwrite
  obtain ⟨x, hx, hxy⟩ := hshown y hy
  exact Double.isNaN_roundForDisplay (hroots x hx) hxy

end Roots

/-! ## Equations -/

/-- The coefficients that count are finite, and so are the divisors of the quadratic formula. -/
structure Coefficients.InRange (k : Coefficients) (higher : Bool) : Prop where
  c : k.c.isFinite = true
  d : k.d.isFinite = true
  a : higher = true → k.a.isFinite = true
  b : higher = true → k.b.isFinite = true
  twiceA : higher = true → (2 * k.a).isFinite = true
  twiceB : higher = true → (2 * k.b).isFinite = true

/-- The quotient of coefficients is a number. -/
theorem Linear.defined_final {left right : Coefficients} (hc : (left - right).c.isFinite = true)
    (hd : (left - right).d.isFinite = true) : Defined (final left right) := by
  have hconstant : (right.d - left.d).isNaN = false := Double.isNaN_sub_swap hd
  simp only [final]
  split
  · split <;> decide
  · next hslope =>
    rw [Bool.not_eq_true] at hslope
    have hx := Double.notMem_text (Double.isNaN_div hconstant hc hslope)
    apply defined_of_notMem
    show 'a' ∉ ("x = " ++ ((right.d - left.d) / (left.c - right.c)).text).toList
    rw [String.toList_append]
    exact fun hmem => (List.mem_append.mp hmem).elim (by decide) hx

/-- The roots that the formula yields are numbers, even where the discriminant is not finite. -/
theorem Quadratic.isNaN_of_solveCoefficients {a b c : Double} {solution : Solution}
    (ha : (2 * a).isFinite = true) (hb : b.isFinite = true)
    (h : solveCoefficients a b c = .ok solution) : ∀ x ∈ solution.roots, x.isNaN = false := by
  have hminus : (-b).isFinite = true := by simpa using hb
  rcases roots_of_solveCoefficients h with ⟨hpos, hnonzero, hroots⟩ | ⟨-, -, hnonzero, hroots⟩ |
    ⟨-, -, hroots⟩
  · have hroot := Double.isNaN_sqrt hpos
    rw [hroots]
    intro z hz
    rcases List.mem_pair.mp hz with rfl | rfl
    · exact Double.isNaN_div (Double.isNaN_add hminus hroot) ha hnonzero
    · exact Double.isNaN_div (Double.isNaN_add hminus (by rwa [Double.isNaN_neg])) ha hnonzero
  · rw [hroots]
    intro z hz
    obtain rfl := List.mem_singleton.mp hz
    exact Double.isNaN_div (Double.isNaN_of_isFinite hminus) ha hnonzero
  · rw [hroots]
    intro z hz
    cases hz

theorem Quadratic.defined_final {settings : Settings} {a b c : Double} {text : String}
    (ha : (2 * a).isFinite = true) (hb : b.isFinite = true)
    (h : final settings a b c = .ok text) : Defined text := by
  obtain ⟨solution, hsolution, hfinal⟩ := bind_eq_ok.mp h
  split at hfinal
  · cases hfinal
    decide
  · exact Roots.defined_text (isNaN_of_solveCoefficients ha hb hsolution) hfinal

namespace Cubic

/-- An accepted root is a number, because the polynomial is not small anywhere else. -/
theorem isNaN_of_firstRoot? {tolerance a b c d x : Double} {xs : List Double}
    (h : firstRoot? (doubleArithmetic tolerance) a b c d xs = .ok (some x)) : x.isNaN = false := by
  induction xs with
  | nil => cases h
  | cons y ys ih =>
    rw [firstRoot?] at h
    cases hvalue : valueAt (doubleArithmetic tolerance) a b c d y with
    | error e =>
      rw [hvalue] at h
      cases h
    | ok value =>
      rw [hvalue] at h
      simp only at h
      split at h
      · next hsmall =>
        cases h
        cases x with
        | infinity negative | finite negative m e hc => rfl
        | nan =>
          obtain ⟨cube, -, hrest⟩ := bind_eq_ok.mp hvalue
          obtain ⟨square, -, hsum⟩ := bind_eq_ok.mp hrest
          have hnan : value = .nan := by
            rw [← Except.ok.inj hsum]
            show a * cube + b * square + c * .nan + d = .nan
            rw [Double.mul_nan, Double.add_nan]
            rfl
          rw [hnan] at hsmall
          cases hsmall
      · exact ih h

/-- The division by a root leaves a finite coefficient, because an infinite one would make the
remainder infinite. -/
theorem isFinite_of_remainder {tolerance root : Double} {k : Coefficients}
    (htolerance : tolerance.isFinite = true) (hroot : root.isNaN = false) (hk : k.InRange true)
    (hcube : k.a.isZero = false)
    (h : tolerance.lt (k.d + root * (k.c + root * (k.b + root * k.a))).abs = false) :
    (k.b + root * k.a).isFinite = true := by
  cases hzero : root.isZero with
  | true =>
    obtain ⟨s, rfl⟩ := Double.eq_zero_of_isZero hzero
    have hproduct := (Double.represents_zero s).mul ⟨hk.a rfl, rfl⟩
      (by rw [zero_mul]; exact ⟨_, Double.represents_zero s⟩)
    rw [zero_mul] at hproduct
    have hsum := (show k.b.Represents k.b.value from ⟨hk.b rfl, rfl⟩).add hproduct
      (by rw [add_zero]; exact ⟨k.b, hk.b rfl, rfl⟩)
    exact hsum.1
  | false =>
    by_contra hnot
    have hproduct : (root * k.a).isNaN = false := by
      by_cases hfinite : root.isFinite = true
      · exact Double.isNaN_mul hfinite (hk.a rfl)
      · obtain ⟨s, rfl⟩ := Double.exists_infinity hroot hfinite
        have hdefined := Double.isNaN_of_isFinite (hk.a rfl)
        obtain ⟨t, ht⟩ := (Double.exists_mul_infinity hdefined hcube s).2
        rw [ht]
        rfl
    -- From the first infinite coefficient on every one is infinite, and so is the remainder.
    obtain ⟨s, hs⟩ := Double.exists_infinity (Double.isNaN_add (hk.b rfl) hproduct) hnot
    obtain ⟨t, ht⟩ := (Double.exists_mul_infinity hroot hzero s).1
    obtain ⟨u, hu⟩ := (Double.exists_mul_infinity hroot hzero t).1
    rw [hs, ht, Double.add_infinity hk.c, hu, Double.add_infinity hk.d] at h
    cases tolerance with
    | nan | infinity negative => cases htolerance
    | finite negative m e hcanonical => cases h

variable {settings : Settings} {k : Coefficients} {text : String}

theorem defined_finalFromRoot {root : Double} (htolerance : settings.rootTolerance.isFinite = true)
    (hk : k.InRange true) (hcube : k.a.isZero = false) (hroot : root.isNaN = false)
    (h : finalFromRoot settings k root = .ok text) : Defined text := by
  simp only [finalFromRoot] at h
  split at h
  · cases h
  · next hremainder =>
    obtain ⟨solution, hsolution, hfinal⟩ := bind_eq_ok.mp h
    rw [liftBreakdown_eq_ok] at hsolution hfinal
    have hb := isFinite_of_remainder htolerance hroot hk hcube (by simpa using hremainder)
    refine Roots.defined_text (fun x hx => ?_) hfinal
    rcases List.mem_cons.mp hx with rfl | hx
    · exact hroot
    · exact Quadratic.isNaN_of_solveCoefficients (hk.twiceA rfl) hb hsolution x hx

/-- Whatever roots are found, their real parts are rounded, and so they are numbers. -/
theorem defined_approximateFinal (h : approximateFinal settings k = .ok text) : Defined text := by
  obtain ⟨found, -, hfinal⟩ := bind_eq_ok.mp h
  refine Roots.defined_text (fun x hx => ?_) hfinal
  obtain ⟨z, -, rfl⟩ := List.mem_map.mp hx
  exact Double.isNaN_round ..

theorem defined_final (htolerance : settings.rootTolerance.isFinite = true) (hk : k.InRange true)
    (hcube : k.a.isZero = false) (h : final settings k = .ok text) : Defined text := by
  obtain ⟨root, hroot, hfinal⟩ := bind_eq_ok.mp h
  rw [liftBreakdown_eq_ok] at hroot
  cases root with
  | some root => exact defined_finalFromRoot htolerance hk hcube (isNaN_of_firstRoot? hroot) hfinal
  | none =>
    simp only at hfinal
    split at hfinal
    · rw [liftBreakdown_eq_ok] at hfinal
      exact defined_approximateFinal hfinal
    · cases hfinal

end Cubic

/-- The final answer of an equation whose coefficients are in range. -/
theorem Equation.defined_final {settings : Settings} {higher : Bool} {left right : Coefficients}
    {text : String} (htolerance : settings.rootTolerance.isFinite = true)
    (hk : (left - right).InRange higher) (h : final settings higher left right = .ok text) :
    Defined text := by
  simp only [final] at h
  split at h
  · next hcube =>
    obtain ⟨rfl, ha⟩ : higher = true ∧ (left - right).a.isZero = false := by simpa using hcube
    exact Cubic.defined_final htolerance hk ha h
  · split at h
    · next hsquare =>
      obtain ⟨rfl, -⟩ : higher = true ∧ (left - right).b.isZero = false := by simpa using hsquare
      rw [liftBreakdown_eq_ok] at h
      exact Quadratic.defined_final (hk.twiceB rfl) hk.c h
    · cases h
      exact Linear.defined_final hk.c hk.d

end Stepwise
