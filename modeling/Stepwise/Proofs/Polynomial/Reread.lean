/-
# Displayed sides read again

The sides of a displayed equation are read as the coefficients that they were written from, up to
the signs of zeros, if none of these numbers is shown with an exponent.  Terms that are left out and
units that are not written make no difference.

* `Polynomial.read_variable`, `Polynomial.read_constant` : a single term;
* `Polynomial.read_side` : a linear term and a constant, also where they are not needed;
* `Polynomial.read_dense` : a polynomial without its zero terms.
-/
import Stepwise.Proofs.Equation.Symmetry
import Stepwise.Proofs.Polynomial.Readers

namespace Stepwise

open Double

/-- Every coefficient is shown without letters. -/
def Coefficients.Plain (k : Coefficients) : Prop := ∀ n, (k.coefficient n).Plain

/-- Coefficients are the same if they are so for every power. -/
theorem Coefficients.Mirrored.of_coefficient {k l : Coefficients}
    (h : ∀ n, Same (k.coefficient n) (l.coefficient n)) : k.Mirrored false l :=
  ⟨h 3, h 2, h 1, h 0⟩

/-- Zero on the other side makes no difference. -/
theorem Coefficients.Mirrored.sub_zero {k l : Coefficients} (h : k.Mirrored false l) :
    (k - {}).Mirrored false l :=
  ⟨(same_sub_zero _).trans h.a, (same_sub_zero _).trans h.b, (same_sub_zero _).trans h.c,
    (same_sub_zero _).trans h.d⟩

namespace Polynomial

variable {c d x : Double}

/-! ## Numbers -/

/-- A number that is read and added to zero is the same. -/
theorem same_zero_add_shown (x : Double) : Same (0 + x.shown) x :=
  (same_zero_add x.shown).trans (same_shown x).symm

theorem notMem_display_of_plain {a : Char} (ha : a ∈ ['x', '*', '=']) (h : x.Plain) :
    a ∉ x.display := by
  intro hmem
  have hfigure := x.figure_of_mem_display h.exists_written.1 hmem
  simp only [List.mem_cons, List.not_mem_nil, or_false] at ha
  rcases ha with rfl | rfl | rfl <;> exact absurd hfigure (by decide)

/-- A number shown without letters stays whole when a sum is cut, also in front of an `x`. -/
theorem uncut_display (h : x.Plain) {back : List Char} (hback : back = [] ∨ back = ['x']) :
    Uncut (x.display ++ back) := by
  obtain ⟨-, s, hdisplay, hs⟩ := h.exists_written
  obtain ⟨c, u, rfl, -⟩ := Numeral.written_start hs
  rw [hdisplay, List.append_assoc]
  refine .of_sign x.shownSign_cases (List.cons_ne_nil _ _) ?_
  refine List.forall_mem_append.mpr ⟨Term.Plain.of_mem_written hs, ?_⟩
  rcases hback with rfl | rfl
  · exact List.forall_mem_nil _
  · rw [List.forall_mem_singleton]
    decide

/-! ## Single terms -/

/-- A number in front of `x` is added to the coefficient of `x`. -/
theorem addTerm_display_variable (h : c.Plain) (k : Coefficients) :
    k.addTerm (c.display ++ ['x']) = k.addAt 1 c.shown := by
  have hone : Term.variableChars (.ofNat 1) = ['x'] := by decide +kernel
  have hadd := addTerm_variable (notMem_display_of_plain (by simp) h)
    (notMem_display_of_plain (by simp) h) (n := 1) (by decide) k
  rw [factorValue_display h.exists_written.1] at hadd
  exact hone ▸ hadd

/-- A number is added to the constant. -/
theorem addTerm_display (h : d.Plain) (k : Coefficients) :
    k.addTerm d.display = k.addAt 0 d.shown := by
  have hfinite := h.exists_written.1
  have hdefined : d.shown.isNaN = false := by
    rw [← (same_shown d).isNaN_eq]
    exact isNaN_of_isFinite hfinite
  rw [addTerm_of_notMem (notMem_display_of_plain (by simp) h),
    Numeral.prefixValue_display hfinite, hdefined, if_neg Bool.false_ne_true]

theorem read_variable (h : c.Plain) :
    (Coefficients.read (c.display ++ ['x'])).Mirrored false ⟨0, 0, c, 0⟩ := by
  rw [Coefficients.read, (uncut_display h (.inr rfl)).termTexts_eq, List.foldl_cons,
    addTerm_display_variable h]
  exact ⟨.refl _, .refl _, same_zero_add_shown c, .refl _⟩

theorem read_constant (h : d.Plain) :
    (Coefficients.read d.display).Mirrored false ⟨0, 0, 0, d⟩ := by
  have huncut := uncut_display h (.inl rfl)
  rw [List.append_nil] at huncut
  rw [Coefficients.read, huncut.termTexts_eq, List.foldl_cons, addTerm_display h]
  exact ⟨.refl _, .refl _, .refl _, same_zero_add_shown d⟩

/-- A linear term and a constant, with a coefficient of one or zero written out. -/
theorem read_side (hc : c.Plain) (hd : d.Plain) :
    (Coefficients.read
      (mergeSigns (c.display ++ 'x' :: ' ' :: '+' :: ' ' :: d.display))).Mirrored false
        ⟨0, 0, c, d⟩ := by
  have huncut := uncut_display hd (.inl rfl)
  rw [List.append_nil] at huncut
  have hterms : termTexts (mergeSigns (c.display ++ 'x' :: ' ' :: '+' :: ' ' :: d.display)) =
      [c.display ++ ['x'], d.display] := by
    have hsides : c.display ++ 'x' :: ' ' :: '+' :: ' ' :: d.display =
        c.display ++ ['x'] ++ [' '] ++ '+' :: ' ' :: d.display := by simp
    rw [termTexts_mergeSigns, hsides, termTexts_append_plus, termTexts_append_blank,
      (uncut_display hc (.inr rfl)).termTexts_eq]
    exact congrArg _ huncut.termTexts_eq
  rw [Coefficients.read, hterms, List.foldl_cons, List.foldl_cons, addTerm_display_variable hc,
    addTerm_display hd]
  exact ⟨.refl _, .refl _, same_zero_add_shown c, same_zero_add_shown d⟩

/-! ## Polynomials -/

/-- The terms of a polynomial from the highest power down. -/
def denseTerms (k : Coefficients) : List CubicTerm :=
  (List.finRange 4).reverse.map fun n => ⟨k.coefficient n, n⟩

/-- Terms that are zero are left out. -/
theorem denseChars_eq (k : Coefficients) : denseChars [k.a, k.b, k.c, k.d] =
    cubicChars ((denseTerms k).filter fun t => !t.coefficient.isZero) := by
  have hentries : [k.a, k.b, k.c, k.d].zip (List.range 4).reverse =
      (denseTerms k).map fun t => (t.coefficient, (t.power : ℕ)) := rfl
  show writeSum ((([k.a, k.b, k.c, k.d].zip (List.range 4).reverse).filter _).map _) = _
  rw [hentries, List.filter_map, List.map_map]
  rfl

/-- What a term adds up to, when it is read as it is displayed. -/
def addShown (n : Fin 4) (x : Double) (ts : List CubicTerm) : Double :=
  addCoefficients n x (ts.map fun t => ⟨t.coefficient.shown, (Double.ofNat t.power).shown⟩)

theorem addShown_cons (n : Fin 4) (x : Double) (t : CubicTerm) (ts : List CubicTerm) :
    addShown n x (t :: ts) =
      addShown n (if t.power = n then x + t.coefficient.shown else x) ts := by
  rw [addShown, List.map_cons, ← List.singleton_append, addCoefficients_append,
    shown_ofNat (t.power.isLt.trans (by norm_num)), addCoefficients_singleton]
  rfl

/-- Zero terms may be left out. -/
theorem same_addShown_filter {n : Fin 4} {x y : Double} (h : Same x y) (ts : List CubicTerm) :
    Same (addShown n x (ts.filter fun t => !t.coefficient.isZero)) (addShown n y ts) := by
  induction ts generalizing x y with
  | nil => exact h
  | cons t ts ih =>
    rw [addShown_cons]
    cases hzero : t.coefficient.isZero with
    | true =>
      rw [List.filter_cons_of_neg (by simp [hzero])]
      refine ih ?_
      split
      · have hshown : t.coefficient.shown = 0 := by rw [shown, if_pos hzero]; rfl
        rw [hshown, add_zero_eq_shown]
        exact h.trans (same_shown y)
      · exact h
    | false =>
      rw [List.filter_cons_of_pos (by simp [hzero]), addShown_cons]
      refine ih ?_
      split
      · exact same_add h (.refl _)
      · exact h

/-- Each power occurs once. -/
theorem addShown_denseTerms (k : Coefficients) (n : Fin 4) :
    addShown n 0 (denseTerms k) = 0 + (k.coefficient n).shown := by
  have hterms : denseTerms k = [⟨k.a, 3⟩, ⟨k.b, 2⟩, ⟨k.c, 1⟩, ⟨k.d, 0⟩] := rfl
  simp only [hterms, addShown_cons]
  fin_cases n <;> rfl

/-- Terms up to the third power are plain if their coefficients are. -/
theorem plain_term {t : CubicTerm} (h : t.coefficient.Plain) : t.term.Plain where
  coefficient := h
  power := by
    have hsmall : (t.power : ℕ) < 2 ^ 53 := t.power.isLt.trans (by norm_num)
    exact (WholeTerm.Exact.plain (t := ⟨0, t.power⟩) ⟨Nat.two_pow_pos 53, hsmall⟩).power
  unsigned := shownSign_ofNat t.power

/-- A sum of plain terms is read as what its terms add up to. -/
theorem coefficient_read_plain {ts : List CubicTerm} (h : ∀ t ∈ ts, t.coefficient.Plain)
    (n : Fin 4) : (Coefficients.read (cubicChars ts)).coefficient n = addShown n 0 ts := by
  by_cases hempty : ts = []
  · have hread : Coefficients.read (cubicChars []) = {} := by decide +kernel
    rw [hempty, hread]
    fin_cases n <;> rfl
  have hplain : ∀ u ∈ ts.map CubicTerm.term, u.Plain := by
    intro u hu
    obtain ⟨t, ht, rfl⟩ := List.mem_map.mp hu
    exact plain_term (h t ht)
  have hread := readTerms_writeSum (by simpa using hempty) hplain
  have huncut : ∀ s ∈ ts.map fun t => t.term.chars, Uncut s := by
    intro s hs
    obtain ⟨t, ht, rfl⟩ := List.mem_map.mp hs
    exact (plain_term (h t ht)).uncut_chars
  have halike : ∀ s ∈ termTexts (cubicChars ts), ReadAlike s := by
    intro s hs
    rw [cubicChars, Uncut.termTexts_writeSum (by simpa using hempty) huncut] at hs
    obtain ⟨t, ht, rfl⟩ := List.mem_map.mp hs
    refine readAlike_of_mem_termTexts (t := t) ?_
    rw [(plain_term (h t ht)).uncut_chars.termTexts_eq]
    exact List.mem_singleton_self _
  rw [List.map_map, List.map_map] at hread
  rw [coefficient_read halike, cubicChars]
  exact congrArg (addCoefficients n 0) hread

/-- No equals sign stands in a sum of plain terms. -/
theorem notMem_cubicChars {ts : List CubicTerm} (h : ∀ t ∈ ts, t.coefficient.Plain) :
    '=' ∉ cubicChars ts := by
  intro hmem
  rcases of_mem_writeSum hmem with hmem | ⟨s, hs, hmem⟩
  · exact absurd hmem (by decide)
  · obtain ⟨t, ht, rfl⟩ := List.mem_map.mp hs
    have hplain := plain_term (h t ht)
    rcases Term.of_mem_chars hmem with hmem | hmem | hmem
    · exact notMem_display_of_plain (by simp) hplain.coefficient hmem
    · exact notMem_display_of_plain (by simp) hplain.power hmem
    · exact absurd hmem (by decide)

theorem plain_of_mem_denseTerms {k : Coefficients} (h : k.Plain) {t : CubicTerm}
    (ht : t ∈ denseTerms k) : t.coefficient.Plain := by
  obtain ⟨n, -, rfl⟩ := List.mem_map.mp ht
  exact h n

/-- **A displayed polynomial is read as its coefficients**, up to the signs of zeros. -/
theorem read_dense {k : Coefficients} (h : k.Plain) :
    (Coefficients.read (denseChars [k.a, k.b, k.c, k.d])).Mirrored false k := by
  refine .of_coefficient fun n => ?_
  rw [denseChars_eq,
    coefficient_read_plain fun t ht => plain_of_mem_denseTerms h (List.mem_filter.mp ht).1]
  refine (same_addShown_filter (.refl 0) (denseTerms k)).trans ?_
  rw [addShown_denseTerms]
  exact same_zero_add_shown _

/-- No equals sign is displayed. -/
theorem notMem_dense {k : Coefficients} (h : k.Plain) :
    '=' ∉ denseChars [k.a, k.b, k.c, k.d] := by
  rw [denseChars_eq]
  exact notMem_cubicChars fun t ht => plain_of_mem_denseTerms h (List.mem_filter.mp ht).1

/-- A leading zero is left out. -/
theorem denseChars_of_isZero {k : Coefficients} (h : k.a.isZero = true) :
    denseChars [k.a, k.b, k.c, k.d] = denseChars [k.b, k.c, k.d] := by
  show writeSum ((((k.a, 3) :: [k.b, k.c, k.d].zip (List.range 3).reverse).filter _).map _) = _
  rw [List.filter_cons_of_neg (by simp [h])]
  rfl

end Polynomial

end Stepwise
