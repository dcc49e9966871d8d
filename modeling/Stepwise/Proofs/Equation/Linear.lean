/-
# Answers of linear equations

A number that is answered for a linear equation makes both sides equal, for equations between signed
sums of numbers and of multiples of `x`, if nothing is rounded on the way.

* `Linear.same_of_final` : an answer with a number shows the quotient of the coefficients;
* `Linear.Exact` : every number on the way to the answer and to the sides there is a double;
* `Linear.sides_equal_of_solve` : the answer makes both sides equal;
* `Linear.product_misread` : a side with a product of numbers.
-/
import Stepwise.Proofs.Decimal.ReadBack
import Stepwise.Proofs.Equation.Side

namespace Stepwise.Linear

open SignedSum (units)

theorem solve_of_sides {equation : String} {left right : List Char}
    (h : Equation.sides wording equation.toList = .ok (left, right)) :
    solve equation =
      .ok (answer equation (Coefficients.read left) (Coefficients.read right)) := by
  rw [solve, h]
  rfl

/-- The numbers of both sides are doubles, and so is every number on the way to the answer and to
the values of the sides there. -/
structure Exact (l r : SignedSum Monomial) (ρ : ℚ) : Prop where
  left : ExactAt l ρ
  right : ExactAt r ρ
  slope : Representable (units 1 l.terms - units 1 r.terms)
  constant : Representable (units 0 r.terms - units 0 l.terms)
  quotient : Representable
    ((units 0 r.terms - units 0 l.terms) / (units 1 l.terms - units 1 r.terms))

/-- An answer is the number that is shown only if that is the quotient of the coefficients. -/
theorem same_of_final {equation : String} {k l : Coefficients} {x : Double}
    (hfinite : x.isFinite = true) (h : (answer equation k l).final = "x = " ++ x.text) :
    (k.c - l.c).isZero = false ∧ x.Same ((l.d - k.d) / (k.c - l.c)) := by
  rw [answer] at h
  cases hslope : (k.c - l.c).isZero with
  | true =>
    rw [hslope, if_pos rfl] at h
    -- The other two answers do not start with `x`.
    have hstart : ∀ text ∈ ["Infinite solutions", "No solution"], text.toList.head? ≠ some 'x' := by
      decide
    have hhead : ("x = " ++ x.text).toList.head? = some 'x' := by
      rw [String.toList_append]
      rfl
    rw [← h] at hhead
    split at hhead
    · exact absurd hhead (hstart _ (by simp))
    · exact absurd hhead (hstart _ (by simp))
  | false =>
    rw [hslope, if_neg Bool.false_ne_true] at h
    have htext : "x = " ++ ((l.d - k.d) / (k.c - l.c)).text = "x = " ++ x.text := h
    have hdisplay : x.display = ((l.d - k.d) / (k.c - l.c)).display := by
      have hlist := congrArg String.toList htext
      rw [String.toList_append, String.toList_append, List.append_cancel_left_eq, Double.text,
        Double.text, String.toList_ofList, String.toList_ofList] at hlist
      exact hlist.symm
    exact ⟨rfl, Double.same_of_display_eq hfinite hdisplay⟩

/-- **The answer of a linear equation makes both sides equal.** -/
theorem sides_equal_of_solve {settings : Settings} {equation : String} {left right : List Char}
    {l r : SignedSum Monomial} {a : Answer} {x : Double}
    (hsides : Equation.sides wording equation.toList = .ok (left, right))
    (hleft : Token.ofChars left = .ok (l.tokens Monomial.tokens))
    (hright : Token.ofChars right = .ok (r.tokens Monomial.tokens))
    (hsolve : solve equation = .ok a) (hfinal : a.final = "x = " ++ x.text)
    (hfinite : x.isFinite = true) (h : Exact l r x.value) :
    ∃ y z, (Definite.sample settings left x).outcome = .ok y ∧
      (Definite.sample settings right x).outcome = .ok z ∧ y.numericEq z = true := by
  obtain ⟨y, hy, hyvalue⟩ := sample_eq hleft hfinite h.left
  obtain ⟨z, hz, hzvalue⟩ := sample_eq hright hfinite h.right
  have hl := SignedSum.read_represents hleft (fun t _ => isSome_degree? t.body)
    h.left.coefficients
  have hr := SignedSum.read_represents hright (fun t _ => isSome_degree? t.body)
    h.right.coefficients
  rw [solve_of_sides hsides] at hsolve
  cases hsolve
  obtain ⟨hzero, hsame⟩ := same_of_final hfinite hfinal
  have hslope := (hl 1).sub (hr 1) h.slope
  have hconstant := (hr 0).sub (hl 0) h.constant
  have hne : units 1 l.terms - units 1 r.terms ≠ 0 := by
    rw [← hslope.2, ne_eq, Double.value_eq_zero_iff hslope.1]
    exact Bool.eq_false_iff.mp hzero
  -- The answer is the quotient of the coefficients, and so is every number shown like it.
  have hquotient := hconstant.div hslope hne h.quotient
  have hx : x.value =
      (units 0 r.terms - units 0 l.terms) / (units 1 l.terms - units 1 r.terms) := by
    rw [← hquotient.2]
    exact hsame.value_eq
  have hequal : (l.terms.map (Signed.value (Summand.valueAt x.value))).sum =
      (r.terms.map (Signed.value (Summand.valueAt x.value))).sum := by
    rw [value_eq, value_eq, hx]
    field_simp
    ring
  refine ⟨y, z, hy, hz, ?_⟩
  rw [hequal] at hyvalue
  exact (hyvalue.same hzvalue).numericEq hyvalue.isNaN_eq_false

/-- The equation `2x + 1 = 7` with its answer `3`. -/
theorem three_solves_equation : ∃ a, solve "2x + 1 = 7" = .ok a ∧
    a.final = "x = " ++ (3 : Double).text ∧
    ∃ y z, (Definite.sample {} "2x + 1 ".toList 3).outcome = .ok y ∧
      (Definite.sample {} " 7".toList 3).outcome = .ok z ∧ y.numericEq z = true := by
  let l : SignedSum Monomial :=
    ⟨⟨0, false, .multiple (some ⟨['2'], false⟩)⟩, [⟨0, false, .constant ['1']⟩]⟩
  let r : SignedSum Monomial := ⟨⟨0, false, .constant ['7']⟩, []⟩
  have hsides : Equation.sides wording "2x + 1 = 7".toList =
      .ok ("2x + 1 ".toList, " 7".toList) := eq_ok_of_toOption (by decide +kernel)
  have hthree : (3 : Double).value = ((3 : ℤ) : ℚ) := by decide +kernel
  have hexact : Exact l r (3 : Double).value := by
    rw [hthree]
    constructor
    · refine exactAt_of_small ?_ (by decide +kernel)
      intro t ht
      rcases List.mem_pair.mp ht with rfl | rfl
      · exact ⟨2, by decide +kernel, by decide +kernel⟩
      · exact ⟨1, by decide +kernel, by decide +kernel⟩
    · refine exactAt_of_small ?_ (by decide +kernel)
      intro t ht
      obtain rfl := List.mem_singleton.mp ht
      exact ⟨7, by decide +kernel, by decide +kernel⟩
    · exact ⟨2, by decide +kernel, by decide +kernel⟩
    · exact ⟨6, by decide +kernel, by decide +kernel⟩
    · exact ⟨3, by decide +kernel, by decide +kernel⟩
  have hsolve := solve_of_sides hsides
  have hfinal : (answer "2x + 1 = 7" (Coefficients.read "2x + 1 ".toList)
      (Coefficients.read " 7".toList)).final = "x = " ++ (3 : Double).text := by decide +kernel
  exact ⟨_, hsolve, hfinal, sides_equal_of_solve (l := l) (r := r) hsides
    (eq_ok_of_toOption (by decide +kernel)) (eq_ok_of_toOption (by decide +kernel)) hsolve hfinal
    (by decide +kernel) hexact⟩

/-- Only the first factor of a product of numbers is read, so that the answer is wrong. -/
theorem product_misread : ∃ a, solve "x = 2*3" = .ok a ∧ a.final = "x = " ++ (2 : Double).text ∧
    Equation.sides wording "x = 2*3".toList = .ok ("x ".toList, " 2*3".toList) ∧
    Coefficients.read "x ".toList = ⟨0, 0, 1, 0⟩ ∧
    Coefficients.read " 2*3".toList = ⟨0, 0, 0, 2⟩ ∧
    (Definite.sample {} "x ".toList 2).outcome = .ok 2 ∧
    (Definite.sample {} " 2*3".toList 2).outcome = .ok 6 ∧
    (2 : Double).numericEq 6 = false := by
  have hsides : Equation.sides wording "x = 2*3".toList = .ok ("x ".toList, " 2*3".toList) :=
    eq_ok_of_toOption (by decide +kernel)
  have hleft : Arithmetic.value {} (Definite.substitute "x ".toList 2) = .ok 2 :=
    eq_ok_of_toOption (by decide +kernel)
  have hright : Arithmetic.value {} (Definite.substitute " 2*3".toList 2) = .ok 6 :=
    eq_ok_of_toOption (by decide +kernel)
  refine ⟨_, solve_of_sides hsides, by decide +kernel, hsides, by decide +kernel,
    by decide +kernel, ?_, ?_, by decide +kernel⟩
  · rw [Definite.sample, hleft]
    rfl
  · rw [Definite.sample, hright]
    rfl

end Stepwise.Linear
