/-
# Equations with mirrored coefficients

When all coefficients of an equation change their sign, and zeros theirs as they like, the final
answer stays.  The discriminant and the candidates do not change at all, the two roots of the
quadratic formula change places, and what is left of a synthetic division changes its sign.

Only where an undefined root stands beside a defined one the answer may change: it shows the same
roots, but their order is that of a set, which may depend on the order in which they were found.

* `Coefficients.Mirrored` : the same or the opposite coefficients, up to the signs of zeros;
* `Quadratic.alike_roots` : the roots of the quadratic formula;
* `Cubic.firstRoot?_eq` : the first rational root;
* `Equation.final_matches` : the final answer;
* `Problem.Kind.final_swap` : an equation with its sides swapped;
* `Problem.Kind.final_swap_undefined` : an equation whose answer changes.
-/
import Stepwise.Proofs.Equation.RootOrder
import Stepwise.Proofs.Polynomial.Cut
import Stepwise.Proofs.Problem.Outcome

namespace Stepwise

open Double

/-- The coefficients are the same, or all opposite, up to the signs of zeros. -/
structure Coefficients.Mirrored (s : Bool) (k l : Coefficients) : Prop where
  a : Double.Mirrored s k.a l.a
  b : Double.Mirrored s k.b l.b
  c : Double.Mirrored s k.c l.c
  d : Double.Mirrored s k.d l.d

/-- Differences with swapped operands are opposite. -/
theorem Coefficients.mirrored_sub_swap (k l : Coefficients) : (k - l).Mirrored true (l - k) :=
  ⟨Double.mirrored_sub_swap _ _, Double.mirrored_sub_swap _ _, Double.mirrored_sub_swap _ _,
    Double.mirrored_sub_swap _ _⟩

variable {settings : Settings} {s : Bool} (A : Arrangement)

/-! ## Linear equations -/

/-- The answer of a linear equation depends on the two differences only. -/
theorem Linear.final_congr {left right left' right' : Coefficients}
    (hc : Double.Mirrored s (left.c - right.c) (left'.c - right'.c))
    (hd : Double.Mirrored s (left.d - right.d) (left'.d - right'.d)) :
    final left right = final left' right' := by
  have hconstant : Double.Mirrored s (right.d - left.d) (right'.d - left'.d) := by
    have h := ((Double.mirrored_sub_swap right.d left.d).trans hd).trans
      (Double.mirrored_sub_swap left'.d right'.d)
    rwa [Bool.true_xor, Bool.xor_true, Bool.not_not] at h
  simp only [final, ← hc.isZero_eq, ← hconstant.isZero_eq]
  cases hslope : (left.c - right.c).isZero with
  | true => rfl
  | false =>
    have hquotient : Same _ _ := hconstant.div_same hc hslope
    rw [if_neg Bool.false_ne_true, if_neg Bool.false_ne_true, hquotient.text_eq]

/-! ## Quadratic equations -/

namespace Quadratic

variable {a b c a' b' c' : Double}

/-- The quadratic formula breaks down only where it divides by zero. -/
theorem solveCoefficients_eq_error {f : Breakdown} : solveCoefficients a b c = .error f ↔
    f = .zeroDivision ∧ (2 * a).isZero = true ∧
      (Double.lt 0 (discriminant a b c) = true ∨ (discriminant a b c).isZero = true) := by
  simp only [solveCoefficients, divide]
  cases hpos : Double.lt 0 (discriminant a b c) <;> cases hzero : (discriminant a b c).isZero <;>
    cases htwice : (2 * a).isZero <;> simp [bind, Except.bind, pure, Except.pure, eq_comm]

variable (ha : Mirrored s a a') (hb : Mirrored s b b') (hc : Mirrored s c c')

include ha hb hc

theorem same_discriminant : Same (discriminant a b c) (discriminant a' b' c') :=
  same_sub (hb.mul_same hb) ((ha.const_mul 4).mul_same hc)

/-- **The roots of the quadratic formula** are those of the mirrored coefficients, which yield them
in the other order if they are opposite. -/
theorem alike_roots :
    (∃ f, solveCoefficients a b c = .error f ∧ solveCoefficients a' b' c' = .error f) ∨
      ∃ solution solution', solveCoefficients a b c = .ok solution ∧
        solveCoefficients a' b' c' = .ok solution' ∧
          Roots.Alike s solution.roots solution'.roots := by
  have htwice : Mirrored s (2 * a) (2 * a') := ha.const_mul 2
  have hsame := same_discriminant ha hb hc
  have hpos := hsame.lt_eq 0
  have hzero := hsame.isZero_eq
  have herror (f : Breakdown) :
      solveCoefficients a b c = .error f ↔ solveCoefficients a' b' c' = .error f := by
    rw [solveCoefficients_eq_error, solveCoefficients_eq_error, htwice.isZero_eq, hpos, hzero]
  cases hsolution : solveCoefficients a b c with
  | error f => exact .inl ⟨f, rfl, (herror f).mp hsolution⟩
  | ok solution =>
    obtain ⟨solution', hsolution'⟩ : ∃ solution', solveCoefficients a' b' c' = .ok solution' := by
      cases hsolution' : solveCoefficients a' b' c' with
      | ok solution' => exact ⟨solution', rfl⟩
      | error f =>
        rw [← herror f, hsolution] at hsolution'
        cases hsolution'
    refine .inr ⟨solution, solution', rfl, hsolution', ?_⟩
    have hroots' := roots_of_solveCoefficients hsolution'
    rw [← hpos, ← hzero] at hroots'
    rcases roots_of_solveCoefficients hsolution with
      ⟨hsign, hdivisor, hroots⟩ | ⟨hsign, hvanishes, hdivisor, hroots⟩ | ⟨hsign, hvanishes, hroots⟩
    · obtain ⟨-, hroots'⟩ := by simpa [hsign] using hroots'
      rw [hroots, hroots']
      have hsqrt := hsame.sqrt
      cases s with
      | false =>
        have hplus : Mirrored false _ _ := hb.neg.add hsqrt
        have hminus : Mirrored false _ _ := hb.neg.sub hsqrt
        exact .cons (hplus.div_same htwice hdivisor) (.cons (hminus.div_same htwice hdivisor) .nil)
      | true =>
        -- The sign of the square root stays, so that the sums are opposite crosswise.
        have hplus : Mirrored true (discriminant a b c).sqrt (-(discriminant a' b' c').sqrt) :=
          hsqrt.neg
        have hminus : Mirrored true (-(discriminant a b c).sqrt) (discriminant a' b' c').sqrt := by
          rwa [Mirrored, mirror, if_pos rfl, Double.neg_neg]
        exact .swap ((hb.neg.add hplus).div_same htwice hdivisor)
          ((hb.neg.add hminus).div_same htwice hdivisor)
    · obtain ⟨-, hroots'⟩ := by simpa [hsign, hvanishes] using hroots'
      rw [hroots, hroots']
      exact .cons (hb.neg.div_same htwice hdivisor) .nil
    · have hroots' : solution'.roots = [] := by simpa [hsign, hvanishes] using hroots'
      rw [hroots, hroots']
      exact .nil

theorem final_matches (settings : Settings) :
    Roots.Matches s settings.arrangement A (final settings a b c)
      (final { settings with arrangement := A } a' b' c') := by
  rw [final, final]
  rcases alike_roots ha hb hc with ⟨f, h, h'⟩ | ⟨solution, solution', h, h', halike⟩
  · rw [h, h']
    exact .same ..
  · rw [h, h']
    show Roots.Matches s _ _ (if solution.roots.isEmpty then _ else _)
      (if solution'.roots.isEmpty then _ else _)
    rw [halike.isEmpty_eq]
    split
    · exact .same ..
    · exact .text halike ..

end Quadratic

/-! ## Cubic equations -/

namespace Cubic

/-- The candidates depend on magnitudes only. -/
theorem candidates_eq {a a' d d' : Double} (ha : Mirrored s a a') (hd : Mirrored s d d') :
    candidates a d = candidates a' d' := by
  rw [candidates, candidates, ha.toInt?_eq, hd.toInt?_eq]
  cases a.toInt? with
  | none => rfl
  | some m =>
    cases d.toInt? with
    | none => rfl
    | some n => cases s <;> simp [candidatesOf]

variable {k l : Coefficients} (h : k.Mirrored s l)

include h

/-- The values at a candidate are mirrored, and the powers break down alike. -/
theorem valueAt_cases (tolerance x : Double) :
    (∃ f, valueAt (doubleArithmetic tolerance) k.a k.b k.c k.d x = .error f ∧
      valueAt (doubleArithmetic tolerance) l.a l.b l.c l.d x = .error f) ∨
    ∃ y z, valueAt (doubleArithmetic tolerance) k.a k.b k.c k.d x = .ok y ∧
      valueAt (doubleArithmetic tolerance) l.a l.b l.c l.d x = .ok z ∧ Mirrored s y z := by
  simp only [valueAt, doubleArithmetic]
  cases doublePower x 3 with
  | error f => exact .inl ⟨f, rfl, rfl⟩
  | ok cube =>
    cases doublePower x 2 with
    | error f => exact .inl ⟨f, rfl, rfl⟩
    | ok square =>
      exact .inr ⟨_, _, rfl, rfl,
        (((h.a.mul_const cube).add (h.b.mul_const square)).add (h.c.mul_const x)).add h.d⟩

/-- **The same candidate is the first root.** -/
theorem firstRoot?_eq (tolerance : Double) (xs : List Double) :
    firstRoot? (doubleArithmetic tolerance) k.a k.b k.c k.d xs =
      firstRoot? (doubleArithmetic tolerance) l.a l.b l.c l.d xs := by
  induction xs with
  | nil => rfl
  | cons x xs ih =>
    rw [firstRoot?, firstRoot?]
    rcases valueAt_cases h tolerance x with ⟨f, hk, hl⟩ | ⟨y, z, hk, hl, hmirrored⟩
    · rw [hk, hl]
    · have hsmall : (doubleArithmetic tolerance).isSmall y =
          (doubleArithmetic tolerance).isSmall z :=
        congrArg (Double.lt · tolerance) hmirrored.abs_eq
      simp only [hk, hl, hsmall, ih]

/-- What is left of a synthetic division is mirrored. -/
theorem finalFromRoot_matches (settings : Settings) (root : Double) :
    Roots.Matches s settings.arrangement A (finalFromRoot settings k root)
      (finalFromRoot { settings with arrangement := A } l root) := by
  have hb : Mirrored s (k.b + root * k.a) (l.b + root * l.a) := h.b.add (h.a.const_mul root)
  have hc : Mirrored s (k.c + root * (k.b + root * k.a)) (l.c + root * (l.b + root * l.a)) :=
    h.c.add (hb.const_mul root)
  have hremainder := h.d.add (hc.const_mul root)
  simp only [finalFromRoot, hremainder.abs_eq]
  split
  · exact .same ..
  · rcases Quadratic.alike_roots h.a hb hc with ⟨f, hk, hl⟩ | ⟨solution, solution', hk, hl, halike⟩
    · rw [hk, hl]
      exact .same ..
    · rw [hk, hl]
      exact .liftBreakdown (.text (halike.cons (.refl root)) ..)

theorem final_matches (hfallback : settings.numericFallback = false) :
    Roots.Matches s settings.arrangement A (final settings k)
      (final { settings with arrangement := A } l) := by
  rw [final, final, firstRoot?_eq h, candidates_eq h.a h.d]
  cases liftBreakdown (firstRoot? (doubleArithmetic settings.rootTolerance) l.a l.b l.c l.d
      (candidates l.a l.d)) with
  | error fault => exact .same ..
  | ok root =>
    cases root with
    | some root => exact finalFromRoot_matches A h settings root
    | none =>
      show Roots.Matches s _ _ (if settings.numericFallback then _ else _)
        (if settings.numericFallback then _ else _)
      rw [hfallback, if_neg Bool.false_ne_true, if_neg Bool.false_ne_true]
      exact .same ..

end Cubic

/-! ## All equations -/

/-- **The final answer stays when all coefficients change their sign**, up to the order of undefined
roots. -/
theorem Equation.final_matches {left right left' right' : Coefficients}
    (hfallback : settings.numericFallback = false)
    (h : (left - right).Mirrored s (left' - right')) (higher : Bool) :
    Roots.Matches s settings.arrangement A (final settings higher left right)
      (final { settings with arrangement := A } higher left' right') := by
  simp only [final, h.a.isZero_eq, h.b.isZero_eq, Linear.final_congr h.c h.d]
  split
  · exact Cubic.final_matches A h hfallback
  · split
    · exact (Quadratic.final_matches A h.b h.c h.d settings).liftBreakdown
    · exact .same ..

/-- The final answer stays when only zeros change their sign. -/
theorem Equation.final_congr {left right left' right' : Coefficients}
    (hfallback : settings.numericFallback = false)
    (h : (left - right).Mirrored false (left' - right')) (higher : Bool) :
    final settings higher left right = final settings higher left' right' :=
  (final_matches settings.arrangement hfallback h higher).eq rfl rfl

/-- A text with one equals sign is split at it. -/
theorem Text.splitAtChar_equation {left right : String} (hleft : '=' ∉ left.toList)
    (hright : '=' ∉ right.toList) :
    splitAtChar '=' (left ++ "=" ++ right).toList = [left.toList, right.toList] := by
  rw [String.toList_append, String.toList_append]
  show splitAtChar '=' (left.toList ++ ['='] ++ right.toList) = _
  rw [List.append_assoc, List.singleton_append, splitAtChar_append hleft,
    splitAtChar_of_notMem hright]

/-- **An equation keeps its final answer, or its fault, when its sides are swapped**, on any two
machines.  Only where an undefined root is shown beside a defined one the order may differ. -/
theorem Problem.Kind.final_swap (settings : Settings) (hfallback : settings.numericFallback = false)
    (left right : String) (hleft : '=' ∉ left.toList) (hright : '=' ∉ right.toList) (kind : Kind)
    (hkind : kind ∈ [.linear, .quadratic, .cubic]) :
    Roots.Agree ((kind.solve settings (left ++ "=" ++ right)).outcome.map Answer.final)
      ((kind.solve { settings with arrangement := A } (right ++ "=" ++ left)).outcome.map
        Answer.final) := by
  have hkind' : kind ∈ [Kind.cubic, .quadratic, .linear] := by
    simp only [List.mem_cons, List.not_mem_nil, or_false] at hkind ⊢
    tauto
  rw [Kind.map_final_solve (Text.splitAtChar_equation hleft hright) hkind',
    Kind.map_final_solve (Text.splitAtChar_equation hright hleft) hkind']
  exact (Equation.final_matches A hfallback (Coefficients.mirrored_sub_swap _ _) _).agree

/-- Both roots of a quadratic equation are found from either side. -/
theorem Problem.Kind.final_swap_quadratic :
    '=' ∉ "x^2 + 6".toList ∧ '=' ∉ "5x".toList ∧
    ((Kind.quadratic.solve {} "5x=x^2 + 6").outcome.map Answer.final).toOption =
      some "x \\in \\\x7b2, 3\\\x7d" ∧
    Roots.Agree ((Kind.quadratic.solve {} "x^2 + 6=5x").outcome.map Answer.final)
      ((Kind.quadratic.solve {} "5x=x^2 + 6").outcome.map Answer.final) := by
  have hleft : '=' ∉ "x^2 + 6".toList := by decide
  have hright : '=' ∉ "5x".toList := by decide
  exact ⟨hleft, hright, by decide +kernel,
    final_swap .usual {} rfl _ _ hleft hright .quadratic (by decide)⟩

/-- A machine that lists numbers the last one first. -/
def Arrangement.reversed : Arrangement := ⟨List.reverse, List.reverse_perm⟩

/-- The roots of `x^2 - 1e999x = 0` are infinity and an undefined number, in this order from the
left side and in the other one from the right side. -/
theorem Problem.Kind.final_swap_undefined :
    '=' ∉ "x^2 - 1e999x".toList ∧ '=' ∉ "0".toList ∧
    ((Kind.quadratic.solve { arrangement := .reversed } "x^2 - 1e999x=0").outcome.map
      Answer.final).toOption = some "x \\in \\\x7bnan, inf\\\x7d" ∧
    ((Kind.quadratic.solve { arrangement := .reversed } "0=x^2 - 1e999x").outcome.map
      Answer.final).toOption = some "x \\in \\\x7binf, nan\\\x7d" :=
  ⟨by decide, by decide, by decide +kernel, by decide +kernel⟩

end Stepwise
