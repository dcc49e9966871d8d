/-
# The displayed roots of a cubic equation

Where the coefficients are short, every displayed number is near a real root: the root that was
found is exact up to its rounding, the roots of the quotient are calculated closely, and rounding to
six places moves a number by less than `10 ^ -6`.

* `Cubic.displayed_near` : the error of what is displayed;
* `Cubic.roots_of_solve` : displayed numbers are near real roots.
-/
import Stepwise.Proofs.Equation.Deflation
import Stepwise.Proofs.Equation.Defined

namespace Stepwise

/-! ## Displayed numbers -/

namespace Roots

/-- The number is one of those whose texts make up the answer. -/
def Displays (final : String) (v : Double) : Prop :=
  ∃ shown, write shown = .ok final ∧ v ∈ shown

/-- No comma occurs in the text of a number. -/
theorem comma_notMem_display (x : Double) : ',' ∉ x.display := by
  cases x with
  | nan => decide
  | infinity negative => cases negative <;> decide
  | finite negative m e h =>
    intro hmem
    exact absurd (Double.figure_of_mem_display rfl hmem) (by decide)

/-- At the commas, the texts of the numbers come apart, each but the first with a blank. -/
theorem splitAtChar_intercalate {s : List Char} (hs : ',' ∉ s) (xs : List Double) :
    Text.splitAtChar ',' ([',', ' '].intercalate (s :: xs.map Double.display)) =
      s :: xs.map (' ' :: Double.display ·) := by
  induction xs generalizing s with
  | nil => simpa [List.intercalate] using Text.splitAtChar_of_notMem hs
  | cons x xs ih =>
    have hblank : ',' ∉ ' ' :: x.display := by simpa using comma_notMem_display x
    have hjoin : [',', ' '].intercalate (s :: (x :: xs).map Double.display) =
        s ++ ',' :: [',', ' '].intercalate ((' ' :: x.display) :: xs.map Double.display) := by
      cases xs <;> simp [List.intercalate]
    rw [hjoin, Text.splitAtChar_append hs, ih hblank, List.map_cons]

theorem map_display_of_intercalate {x y : Double} {xs ys : List Double}
    (h : [',', ' '].intercalate ((x :: xs).map Double.display) =
      [',', ' '].intercalate ((y :: ys).map Double.display)) :
    (x :: xs).map Double.display = (y :: ys).map Double.display := by
  have hsplit := congrArg (Text.splitAtChar ',') h
  simp only [List.map_cons, splitAtChar_intercalate (comma_notMem_display _)] at hsplit
  obtain ⟨hfirst, hrest⟩ := List.cons.inj hsplit
  have htails := congrArg (List.map List.tail) hrest
  simp only [List.map_map, Function.comp_def, List.tail_cons] at htails
  rw [List.map_cons, List.map_cons, hfirst, htails]

theorem toList_write_single (x : Double) :
    (write [x]).map String.toList = .ok ("x = ".toList ++ x.display) := by
  refine congrArg Except.ok ((String.toList_append ..).trans ?_)
  exact congrArg ("x = ".toList ++ ·) String.toList_ofList

theorem toList_write_several (x y : Double) (xs : List Double) :
    (write (x :: y :: xs)).map String.toList =
      .ok ("x \\in \\\x7b".toList ++ [',', ' '].intercalate ((x :: y :: xs).map Double.display) ++
        "\\\x7d".toList) := by
  have htexts : ((x :: y :: xs).map Double.text).map String.toList =
      (x :: y :: xs).map Double.display := by
    rw [List.map_map]
    exact List.map_congr_left fun z _ => String.toList_ofList
  refine congrArg Except.ok ?_
  rw [String.toList_append, String.toList_append, String.toList_intercalate, htexts]
  rfl

/-- **An answer displays its numbers only**, up to the sign of zero. -/
theorem Displays.same {xs : List Double} {final : String} (hwrite : write xs = .ok final)
    (hfinite : ∀ x ∈ xs, x.isFinite = true) {v : Double} (hv : Displays final v) :
    ∃ x ∈ xs, x.Same v := by
  obtain ⟨shown, hshown, hmem⟩ := hv
  suffices hdisplay : xs.map Double.display = shown.map Double.display by
    have hdisplayed : v.display ∈ xs.map Double.display :=
      hdisplay ▸ List.mem_map_of_mem hmem
    obtain ⟨x, hx, heq⟩ := List.mem_map.mp hdisplayed
    exact ⟨x, hx, Double.same_of_display_eq (hfinite x hx) heq⟩
  have htexts : (write xs).map String.toList = (write shown).map String.toList := by
    rw [hwrite, hshown]
  match xs, shown with
  | [], _ => cases hwrite
  | _, [] => cases hshown
  | [x], [y] =>
    rw [toList_write_single, toList_write_single] at htexts
    have hequal := List.append_cancel_left (Except.ok.inj htexts)
    rw [List.map_singleton, List.map_singleton, hequal]
  | [x], y :: z :: ys =>
    rw [toList_write_single, toList_write_several] at htexts
    exact absurd (congrArg (·[2]?) (Except.ok.inj htexts)) (by simp)
  | x :: y :: xs, [z] =>
    rw [toList_write_single, toList_write_several] at htexts
    exact absurd (congrArg (·[2]?) (Except.ok.inj htexts)) (by simp)
  | x :: x' :: xs, y :: y' :: ys =>
    rw [toList_write_several, toList_write_several] at htexts
    exact map_display_of_intercalate
      (List.append_cancel_left (List.append_cancel_right (Except.ok.inj htexts)))

end Roots

namespace Cubic

/-- What is displayed of a close number is close, too. -/
theorem displayed_near {y v : Double} {z : ℝ} (hy : Approximates y z)
    (hv : y.roundForDisplay ({} : Settings).rootDecimals = .ok v) :
    v.isFinite = true ∧ |(v.value : ℝ) - z| ≤ 1 / 10 ^ 6 * max 1 |z| := by
  obtain ⟨hfinite, hclose⟩ := hy
  have hplaces : 0 ≤ ({} : Settings).rootDecimals := by decide
  obtain ⟨w, hw, hwfinite, hnear⟩ := Double.roundForDisplay_near hplaces hfinite
  obtain rfl : w = v := by
    rw [hv] at hw
    exact (Except.ok.inj hw).symm
  refine ⟨hwfinite, ?_⟩
  have hcast := (Rat.cast_le (K := ℝ)).mpr hnear
  simp only [Rat.cast_abs, Rat.cast_sub, Rat.cast_add, Rat.cast_mul, Rat.cast_div, Rat.cast_zpow,
    Rat.cast_ofNat, Rat.cast_one] at hcast
  have hhalf : (10 : ℝ) ^ (-({} : Settings).rootDecimals) / 2 = 1 / 2 / 10 ^ 6 := by
    show (10 : ℝ) ^ (-6 : ℤ) / 2 = 1 / 2 / 10 ^ 6
    norm_num
  have hunit : (2 : ℝ) ^ (-53 : ℤ) = roundoff := by norm_num [roundoff]
  rw [hhalf, hunit] at hcast
  have hsize : |(y.value : ℝ)| ≤ 2 * max 1 |z| := by
    have htriangle := abs_sub_abs_le_abs_sub (y.value : ℝ) z
    linarith only [htriangle, hclose, le_max_left 1 |z|, le_max_right 1 |z|]
  have hrounding : (|(y.value : ℝ)| + 1) * roundoff ≤ 1 / 10 ^ 10 * max 1 |z| := by
    calc (|(y.value : ℝ)| + 1) * roundoff ≤ 3 * max 1 |z| * roundoff := by
          have := roundoff_pos
          gcongr
          linarith only [hsize, le_max_left 1 |z|]
      _ = 3 * roundoff * max 1 |z| := by ring
      _ ≤ 1 / 10 ^ 10 * max 1 |z| := by
          gcongr
          norm_num [roundoff]
  have htiny : (2 : ℝ) ^ (-1075 : ℤ) ≤ 1 / 10 ^ 10 := Double.tiny_le.trans (by norm_num [roundoff])
  have htriangle := abs_sub_le (w.value : ℝ) y.value z
  linarith only [htriangle, hcast, hrounding, htiny, hclose, le_max_left 1 |z|]

/-- The root that is found and the roots of the quotient are close to roots. -/
theorem Short.approximates {k : Coefficients} {a b c d : ℤ} (h : Short k a b c d) {x' : Double}
    (hfound : firstRoot? standardArithmetic k.a k.b k.c k.d (candidates k.a k.d) = .ok (some x'))
    {solution : Quadratic.Solution}
    (hsolution : Quadratic.solveCoefficients k.a (middleOf k x') (lastOf k x') = .ok solution) :
    ∀ y ∈ x' :: solution.roots, ∃ z : ℝ, polynomialAt a b c d z = 0 ∧ Approximates y z := by
  obtain ⟨x, rfl, hroot, hzero⟩ := h.found_root hfound
  obtain ⟨m, n, hm, hn, hd⟩ := exists_quotient hroot
  have hx : polynomialAt a b c d (x : ℝ) = 0 := by
    rw [← polynomialAt_cast, hroot, Rat.cast_zero]
  replace hm : (m : ℝ) = b + x * a := by exact_mod_cast congrArg (Rat.cast (K := ℝ)) hm
  replace hn : (n : ℝ) = c + x * m := by exact_mod_cast congrArg (Rat.cast (K := ℝ)) hn
  replace hd : (d : ℝ) + x * n = 0 := by exact_mod_cast congrArg (Rat.cast (K := ℝ)) hd
  have hquotient : ∀ y ∈ solution.roots, ∃ z : ℝ, a * (z * z) + m * z + n = 0 ∧
      Approximates y z := by
    by_cases hdiscriminant : m ^ 2 - 4 * a * n = 0
    · exact (h.double_quotient hfound hx hzero hm hn hd hdiscriminant).double_root le_rfl
        hdiscriminant hsolution
    · refine (h.simple_quotient hx hm hn hd).simple_roots ?_ h.size_mul_rootBound_le hdiscriminant
        hsolution
      rw [h.abs_mul_rootBound]
      linarith only [Short.abs_cast_le h.size_a]
  intro y hy
  rcases List.mem_cons.mp hy with rfl | hy
  · refine ⟨x, hx, ?_⟩
    have hnear := near_candidate (h.abs_root_le_of_root hx)
    refine ⟨hnear.finite, hnear.close.error.trans ?_⟩
    gcongr
    norm_num [roundoff]
  · obtain ⟨z, hz, happroximates⟩ := hquotient y hy
    exact ⟨z, root_of_quotient hm hn hd hz, happroximates⟩

/-- The final answer of a cubic equation is the text of the root that was found and of the roots of
its quotient. -/
theorem exists_of_final {k : Coefficients} {shown : String} (h : final {} k = .ok shown) :
    ∃ x' solution,
      firstRoot? standardArithmetic k.a k.b k.c k.d (candidates k.a k.d) = .ok (some x') ∧
      Quadratic.solveCoefficients k.a (middleOf k x') (lastOf k x') = .ok solution ∧
      Roots.text ({} : Settings).rootDecimals (x' :: solution.roots) = .ok shown := by
  obtain ⟨root, hroot, hfinal⟩ := bind_eq_ok.mp h
  rw [liftBreakdown_eq_ok] at hroot
  cases root with
  | none => cases hfinal
  | some x' =>
    simp only [finalFromRoot] at hfinal
    split at hfinal
    · cases hfinal
    · obtain ⟨solution, hsolution, htext⟩ := bind_eq_ok.mp hfinal
      exact ⟨x', solution, hroot, liftBreakdown_eq_ok.mp hsolution, liftBreakdown_eq_ok.mp htext⟩

/-- The final answer of an equation with a cubic term. -/
theorem map_final_solve {settings : Settings} {equation : String} {k : Coefficients}
    (hk : Equation.netCoefficients wording equation.toList = .ok k) (hcube : k.a.isZero = false) :
    (solve settings equation).outcome.map Answer.final = final settings k := by
  rw [solve, Traced.outcome_bind, Traced.outcome_ofFailure, hk,
    ← map_final_solveWithCube equation]
  change (if k.a.isZero = true then _ else solveWithCube settings equation k :
    Traced Answer).outcome.map Answer.final = _
  rw [if_neg (by simp [hcube])]

/-- **Displayed numbers are near real roots**, where the coefficients are whole and at most `10000`
in magnitude: an answer under the standard settings displays finite numbers only, and the error of
each is at most `10 ^ -6`, relative to roots above one. -/
theorem roots_of_solve {equation : String} {k : Coefficients} {a b c d : ℤ}
    (hk : Equation.netCoefficients wording equation.toList = .ok k) (h : Short k a b c d)
    {answer : Answer} (hsolve : (solve {} equation).outcome = .ok answer) :
    ∀ v, Roots.Displays answer.final v → v.isFinite = true ∧
      ∃ z : ℝ, polynomialAt a b c d z = 0 ∧ |(v.value : ℝ) - z| ≤ 1 / 10 ^ 6 * max 1 |z| := by
  have hcube : k.a.isZero = false :=
    h.represents_a.isZero_eq_false (by exact_mod_cast h.leading)
  have hfinal : final {} k = .ok answer.final := by
    rw [← map_final_solve hk hcube, hsolve]
    rfl
  obtain ⟨x', solution, hfound, hsolution, htext⟩ := exists_of_final hfinal
  obtain ⟨shown, hwrite, hshown⟩ := Roots.exists_of_text htext
  have hnear : ∀ w ∈ shown, w.isFinite = true ∧
      ∃ z : ℝ, polynomialAt a b c d z = 0 ∧ |(w.value : ℝ) - z| ≤ 1 / 10 ^ 6 * max 1 |z| := by
    intro w hw
    obtain ⟨y, hy, hround⟩ := hshown w hw
    obtain ⟨z, hz, happroximates⟩ := h.approximates hfound hsolution y hy
    obtain ⟨hfinite, hdisplayed⟩ := displayed_near happroximates hround
    exact ⟨hfinite, z, hz, hdisplayed⟩
  intro v hv
  obtain ⟨w, hw, hsame⟩ := Roots.Displays.same hwrite (fun w hw => (hnear w hw).1) hv
  rw [← hsame.isFinite_eq, ← hsame.value_eq]
  exact hnear w hw

/-! ## Two equations -/

/-- The answer of an equation whose candidates are known. -/
theorem exists_answer {equation shown : String} {k : Coefficients} {xs : List Double} {x : Double}
    (hk : Equation.netCoefficients wording equation.toList = .ok k) (hcube : k.a.isZero = false)
    (hcandidates : candidates k.a k.d = xs)
    (hfound : firstRoot? standardArithmetic k.a k.b k.c k.d xs = .ok (some x))
    (hshown : finalFromRoot {} k x = .ok shown) :
    ∃ answer, (solve {} equation).outcome = .ok answer ∧ answer.final = shown := by
  have hfinal : final {} k = .ok shown := by
    subst hcandidates
    rw [final]
    change (liftBreakdown (firstRoot? standardArithmetic k.a k.b k.c k.d
      (candidates k.a k.d))).bind _ = _
    rw [hfound]
    exact hshown
  rw [← map_final_solve hk hcube] at hfinal
  cases hsolve : (solve {} equation).outcome with
  | error fault =>
    rw [hsolve] at hfinal
    cases hfinal
  | ok answer =>
    rw [hsolve] at hfinal
    exact ⟨answer, rfl, Except.ok.inj hfinal⟩

/-- The displayed `1.414214` is near a root of `x^3 - x^2 - 2x + 2`. -/
theorem roots_near_sqrt_two : ∃ (k : Coefficients) (answer : Answer),
    Equation.netCoefficients wording "x^3 - x^2 - 2x + 2 = 0".toList = .ok k ∧
      Short k 1 (-1) (-2) 2 ∧
      (solve {} "x^3 - x^2 - 2x + 2 = 0").outcome = .ok answer ∧
      Roots.Displays answer.final (Double.ofDecimal false 1414214 (-6)) ∧
      ∃ z : ℝ, polynomialAt 1 (-1) (-2) 2 z = 0 ∧
        |((Double.ofDecimal false 1414214 (-6)).value : ℝ) - z| ≤ 1 / 10 ^ 6 * max 1 |z| := by
  have hk : Equation.netCoefficients wording "x^3 - x^2 - 2x + 2 = 0".toList =
      .ok ⟨1, -1, -2, 2⟩ := eq_ok_of_toOption (by decide +kernel)
  have hshort : Short ⟨1, -1, -2, 2⟩ 1 (-1) (-2) 2 := by
    refine ⟨?_, ?_, ?_, ?_, ?_, ?_, ?_, ?_, ?_⟩ <;> decide +kernel
  have hquotients : quotients 1 2 = [(1, 1), (2, 1)] := by cbv
  have hcandidates : candidates 1 2 = [1, -1, 2, -2] := by
    rw [hshort.candidates_eq, candidatesOf, if_neg (by decide), if_neg (by decide)]
    show List.flatMap _ ((quotients 1 2).map _).eraseReps = _
    rw [hquotients]
    decide +kernel
  have hfound : firstRoot? standardArithmetic 1 (-1) (-2) 2 [1, -1, 2, -2] = .ok (some 1) :=
    eq_ok_of_toOption (by decide +kernel)
  have hfinal : finalFromRoot {} ⟨1, -1, -2, 2⟩ 1 =
      .ok "x \\in \\\x7b-1.414214, 1, 1.414214\\\x7d" := eq_ok_of_toOption (by decide +kernel)
  obtain ⟨answer, hsolve, hshown⟩ :=
    exists_answer hk (by decide +kernel) hcandidates hfound hfinal
  have hdisplays : Roots.Displays answer.final (Double.ofDecimal false 1414214 (-6)) := by
    refine ⟨[Double.ofDecimal true 1414214 (-6), 1, Double.ofDecimal false 1414214 (-6)], ?_,
      by simp⟩
    rw [hshown]
    exact eq_ok_of_toOption (by decide +kernel)
  obtain ⟨-, hroot⟩ := roots_of_solve hk hshort hsolve _ hdisplays
  exact ⟨_, answer, hk, hshort, hsolve, hdisplays, hroot⟩

/-- The equation `p x^3 + (p x - 1)^2 = 0` with `p = 100003`, written out. -/
def deceptive : String := "100003x^3 + 10000600009x^2 - 200006x + 1 = 0"

/-- Its polynomial is positive at positive numbers. -/
theorem deceptive_pos {z : ℝ} (hz : 0 < z) :
    0 < polynomialAt 100003 10000600009 (-200006) 1 z := by
  have hvalue : polynomialAt 100003 10000600009 (-200006) 1 z =
      100003 * z ^ 3 + (100003 * z - 1) ^ 2 := by
    rw [polynomialAt]
    push_cast
    ring
  rw [hvalue]
  positivity

/-- An odd number has odd divisors only. -/
theorem divisors_of_odd {n : Nat} (ds : List Nat) (hodd : splitTwos n.log2 n = (0, n))
    (hds : oddDivisors n = ds) : divisors n = ds.mergeSort (· ≤ ·) := by
  simp [divisors, hodd, hds]

/-- The candidates by ascending magnitude. -/
theorem candidates_deceptive : candidates 100003 1 =
    [Double.roundQuotient false 1 100003, -Double.roundQuotient false 1 100003, 1, -1] := by
  have hdivisors : divisors 100003 = [1, 100003] := by
    rw [divisors_of_odd [1, 100003] (by decide +kernel) (by decide +kernel)]
    cbv
  have hquotients : quotients 100003 1 = [(1, 100003), (1, 1)] := by
    rw [quotients, hdivisors]
    cbv
  have ha : Double.toInt? 100003 = some 100003 := by decide +kernel
  have hd : Double.toInt? 1 = some 1 := by decide +kernel
  rw [candidates, ha, hd]
  show candidatesOf _ _ _ = _
  rw [candidatesOf, if_neg (by decide), if_neg (by decide)]
  show List.flatMap _ ((quotients 100003 1).map _).eraseReps = _
  rw [hquotients]
  decide +kernel

/-- **With large coefficients** a number at which the value is merely small is taken for a root: the
displayed `1e-05` is not near any real root. -/
theorem false_root_displayed : ∃ (k : Coefficients) (answer : Answer) (v : Double),
    Equation.netCoefficients wording deceptive.toList = .ok k ∧
      k.a.Represents (100003 : ℤ) ∧ k.b.Represents (10000600009 : ℤ) ∧
      k.c.Represents (-200006 : ℤ) ∧ k.d.Represents (1 : ℤ) ∧
      (solve {} deceptive).outcome = .ok answer ∧ Roots.Displays answer.final v ∧
      ∀ z : ℝ, polynomialAt 100003 10000600009 (-200006) 1 z = 0 →
        ¬ |(v.value : ℝ) - z| ≤ 1 / 10 ^ 6 * max 1 |z| := by
  have hk : Equation.netCoefficients wording deceptive.toList =
      .ok ⟨100003, 10000600009, -200006, 1⟩ := eq_ok_of_toOption (by decide +kernel)
  have hfound : firstRoot? standardArithmetic 100003 10000600009 (-200006) 1
      [Double.roundQuotient false 1 100003, -Double.roundQuotient false 1 100003, 1, -1] =
        .ok (some (Double.roundQuotient false 1 100003)) := eq_ok_of_toOption (by decide +kernel)
  have hfinal : finalFromRoot {} ⟨100003, 10000600009, -200006, 1⟩
      (Double.roundQuotient false 1 100003) =
        .ok "x \\in \\\x7b-100003.00002, 1e-05\\\x7d" := eq_ok_of_toOption (by decide +kernel)
  obtain ⟨answer, hsolve, hshown⟩ :=
    exists_answer hk (by decide +kernel) candidates_deceptive hfound hfinal
  refine ⟨_, answer, Double.ofDecimal false 1 (-5), hk, by decide +kernel, by decide +kernel,
    by decide +kernel, by decide +kernel, hsolve, ?_, ?_⟩
  · refine ⟨[Double.ofDecimal true 10000300002 (-5), Double.ofDecimal false 1 (-5)], ?_, by simp⟩
    rw [hshown]
    exact eq_ok_of_toOption (by decide +kernel)
  · intro z hz hnear
    have hnonpos : z ≤ 0 := not_lt.mp fun hpos => (deceptive_pos hpos).ne' hz
    have hvalue : 9 / 10 ^ 6 ≤ (Double.ofDecimal false 1 (-5)).value := by decide +kernel
    have hcast := (Rat.cast_le (K := ℝ)).mpr hvalue
    push_cast at hcast
    rw [abs_of_nonpos hnonpos, abs_of_nonneg (by linarith)] at hnear
    rcases le_total 1 (-z) with hfar | hclose
    · rw [max_eq_right hfar] at hnear
      linarith
    · rw [max_eq_left hclose] at hnear
      linarith

end Cubic

end Stepwise
