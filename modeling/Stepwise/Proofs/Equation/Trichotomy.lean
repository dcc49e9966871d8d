/-
# Three kinds of answers

A linear equation between sums of whole terms has one solution, none, or every number as a solution.
The answer follows from the net coefficient of `x` and the net constant, however the terms are
distributed over the two sides, as long as the numbers are shown in full and no sum is rounded.

* `Linear.Small` : the numbers of an equation are small enough for this;
* `Linear.small_of_total` : so they are if their magnitudes add up to at most `2 ^ 53`;
* `Linear.represents_read` : what is read from a written side;
* `Linear.solve_trichotomy` : the answer of a written equation.
-/
import Stepwise.Proofs.Equation.Linear
import Stepwise.Proofs.Polynomial.Reread
import Stepwise.Proofs.Problem.Spelling

namespace Stepwise

open Double

/-! ## Whole numbers -/

theorem Double.Represents.shown {x : Double} {q : ℚ} (h : x.Represents q) :
    x.shown.Represents q :=
  ⟨(same_shown x).isFinite_eq.symm.trans h.1, (same_shown x).value_eq.symm.trans h.2⟩

/-- Whole numbers up to `2 ^ 53` are doubles. -/
theorem representable_of_le {n : ℤ} (h : |n| ≤ 2 ^ 53) : Representable n := by
  rcases h.lt_or_eq with hlt | heq
  · refine representable_intCast ?_
    rw [← Int.cast_abs]
    exact_mod_cast hlt
  · rcases eq_or_eq_neg_of_abs_eq heq with rfl | rfl
    · decide +kernel
    · decide +kernel

open Stepwise.Polynomial

namespace Linear

/-! ## Sums of whole terms -/

/-- The coefficients of a power, added up. -/
def total (p : ℕ) (ts : List WholeTerm) : ℤ :=
  ((ts.filter fun t => t.power = p).map WholeTerm.coefficient).sum

/-- The magnitudes of the coefficients, added up. -/
def size (ts : List WholeTerm) : ℤ := (ts.map fun t => |t.coefficient|).sum

theorem total_append (p : ℕ) (ts us : List WholeTerm) :
    total p (ts ++ us) = total p ts + total p us := by
  simp [total]

theorem total_singleton (p : ℕ) (t : WholeTerm) :
    total p [t] = if t.power = p then t.coefficient else 0 := by
  by_cases h : t.power = p <;> simp [total, h]

theorem size_append (ts us : List WholeTerm) : size (ts ++ us) = size ts + size us := by
  simp [size]

theorem size_nonneg (ts : List WholeTerm) : 0 ≤ size ts := by
  refine List.sum_nonneg fun n hn => ?_
  obtain ⟨t, -, rfl⟩ := List.mem_map.mp hn
  exact abs_nonneg _

theorem abs_total_le (p : ℕ) (ts : List WholeTerm) : |total p ts| ≤ size ts := by
  induction ts with
  | nil => rfl
  | cons t ts ih =>
    have hterm : |total p [t]| ≤ |t.coefficient| := by
      rw [total_singleton]
      split
      · exact le_rfl
      · simp
    calc |total p (t :: ts)|
        = |total p [t] + total p ts| := by rw [← total_append, List.singleton_append]
      _ ≤ |total p [t]| + |total p ts| := abs_add_le _ _
      _ ≤ |t.coefficient| + size ts := add_le_add hterm ih
      _ = size (t :: ts) := by simp [size]

/-! ## Small numbers -/

/-- The numbers of a side are shown in full, and every sum on the way to its coefficients is a
double. -/
structure SmallSide (ts : List WholeTerm) : Prop where
  linear : ∀ t ∈ ts, t.power ≤ 1
  bounded : ∀ t ∈ ts, |t.coefficient| < 10 ^ 16
  coefficients : ∀ t ∈ ts, Representable t.coefficient
  sums : ∀ p us, us <+: ts → Representable (total p us)

/-- The numbers of an equation are small enough to be shown in full and added exactly. -/
structure Small (l r : List WholeTerm) : Prop where
  left : SmallSide l
  right : SmallSide r
  slope : Representable (total 1 l - total 1 r : ℤ)
  constant : Representable (total 0 r - total 0 l : ℤ)

theorem smallSide_of_size {ts : List WholeTerm} (hlinear : ∀ t ∈ ts, t.power ≤ 1)
    (hsize : size ts ≤ 2 ^ 53) : SmallSide ts := by
  have hterm : ∀ t ∈ ts, |t.coefficient| ≤ 2 ^ 53 := by
    intro t ht
    refine le_trans ?_ hsize
    refine List.single_le_sum ?_ _ (List.mem_map_of_mem ht)
    intro n hn
    obtain ⟨u, -, rfl⟩ := List.mem_map.mp hn
    exact abs_nonneg _
  refine ⟨hlinear, fun t ht => (hterm t ht).trans_lt (by norm_num),
    fun t ht => representable_of_le (hterm t ht), ?_⟩
  rintro p us ⟨vs, rfl⟩
  refine representable_of_le ((abs_total_le p us).trans ?_)
  rw [size_append] at hsize
  have hrest := size_nonneg vs
  omega

/-- **Whole numbers are small enough** if their magnitudes add up to at most `2 ^ 53`. -/
theorem small_of_total {l r : List WholeTerm} (hlinear : ∀ t ∈ l ++ r, t.power ≤ 1)
    (hsize : size (l ++ r) ≤ 2 ^ 53) : Small l r := by
  obtain ⟨hl, hr⟩ := List.forall_mem_append.mp hlinear
  rw [size_append] at hsize
  have hleft := size_nonneg l
  have hright := size_nonneg r
  have hdifference (p : ℕ) (ts us : List WholeTerm) (h : size ts + size us ≤ 2 ^ 53) :
      Representable (total p ts - total p us : ℤ) :=
    representable_of_le <|
      calc |total p ts - total p us|
          ≤ |total p ts| + |total p us| := abs_sub _ _
        _ ≤ size ts + size us := add_le_add (abs_total_le p ts) (abs_total_le p us)
        _ ≤ 2 ^ 53 := h
  exact ⟨smallSide_of_size hl (by omega), smallSide_of_size hr (by omega),
    hdifference 1 l r hsize, hdifference 0 r l (by omega)⟩

/-! ## Reading -/

/-- A whole term as a term up to the third power. -/
def cubicTerm (t : WholeTerm) : CubicTerm :=
  ⟨.ofInt t.coefficient, t.power % 4, Nat.mod_lt _ (by decide)⟩

variable {ts : List WholeTerm}

theorem val_power_cubicTerm {t : WholeTerm} (h : t.power ≤ 1) :
    ((cubicTerm t).power : ℕ) = t.power :=
  Nat.mod_eq_of_lt (by omega)

theorem represents_coefficient {t : WholeTerm} (h : Representable t.coefficient) :
    (cubicTerm t).coefficient.Represents t.coefficient := by
  show (Double.ofInt t.coefficient).Represents _
  rw [ofInt, Rat.mkRat_one]
  exact represents_round false h

theorem wholeChars_eq (h : ∀ t ∈ ts, t.power ≤ 1) :
    wholeChars ts = cubicChars (ts.map cubicTerm) := by
  rw [wholeChars, cubicChars, List.map_map]
  refine congrArg writeSum (List.map_congr_left fun t ht => ?_)
  show t.term.chars = (cubicTerm t).term.chars
  rw [CubicTerm.term, val_power_cubicTerm (h t ht)]
  rfl

/-- Small whole numbers are shown in full. -/
theorem SmallSide.plain (h : SmallSide ts) : ∀ t ∈ ts.map cubicTerm, t.coefficient.Plain := by
  intro u hu
  obtain ⟨t, ht, rfl⟩ := List.mem_map.mp hu
  obtain ⟨hfinite, hvalue⟩ := represents_coefficient (h.coefficients t ht)
  refine plain_of_size hfinite ?_
  rw [hvalue]
  by_cases hzero : t.coefficient = 0
  · exact .inl (by rw [hzero, Int.cast_zero])
  · have hone : (1 : ℚ) ≤ |(t.coefficient : ℚ)| := by exact_mod_cast Int.one_le_abs hzero
    refine .inr ⟨le_trans (by norm_num) hone, ?_⟩
    rw [← Int.cast_abs]
    exact_mod_cast h.bounded t ht

/-- Each term is added to the sum of those before it. -/
theorem represents_addShown {n : Fin 4} {x : Double} {before : List WholeTerm}
    (hx : x.Represents (total n before)) (h : SmallSide (before ++ ts)) :
    (addShown n x (ts.map cubicTerm)).Represents (total n (before ++ ts)) := by
  induction ts generalizing before x with
  | nil =>
    rw [List.append_nil]
    exact hx
  | cons t ts ih =>
    have happend : before ++ t :: ts = before ++ [t] ++ ts := by simp
    have hmem : t ∈ before ++ t :: ts := by simp
    have hsum := h.sums n (before ++ [t]) ⟨ts, happend.symm⟩
    have hpower : (cubicTerm t).power = n ↔ t.power = n := by
      rw [Fin.ext_iff, val_power_cubicTerm (h.linear t hmem)]
    rw [List.map_cons, addShown_cons]
    rw [total_append, total_singleton] at hsum
    have hcoefficient := (represents_coefficient (h.coefficients t hmem)).shown
    rw [happend] at h ⊢
    refine ih ?_ h
    rw [total_append, total_singleton]
    by_cases hn : t.power = n
    · rw [if_pos hn, Int.cast_add] at hsum
      rw [if_pos (hpower.mpr hn), if_pos hn, Int.cast_add]
      exact hx.add hcoefficient hsum
    · rw [if_neg (mt hpower.mp hn), if_neg hn, add_zero]
      exact hx

/-- **What is read from a written side** are the totals of its powers. -/
theorem represents_read {s : List Char} (h : SmallSide ts)
    (hs : Text.removeBlanks s = Text.removeBlanks (wholeChars ts)) (n : Fin 4) :
    ((Coefficients.read s).coefficient n).Represents (total n ts) := by
  rw [Coefficients.read_congr hs, wholeChars_eq h.linear, coefficient_read_plain h.plain]
  have hstart : (0 : Double).Represents (total n []) := represents_zero false
  exact represents_addShown hstart h

/-- No equals sign stands in a written side. -/
theorem notMem_side {s : List Char} (h : SmallSide ts)
    (hs : Text.removeBlanks s = Text.removeBlanks (wholeChars ts)) : '=' ∉ s := by
  have hkept {t : List Char} (ht : '=' ∈ t) : '=' ∈ Text.removeBlanks t :=
    List.mem_filter.mpr ⟨ht, by decide⟩
  intro hmem
  have hmem := hkept hmem
  rw [hs] at hmem
  have hwritten := (List.mem_filter.mp hmem).1
  rw [wholeChars_eq h.linear] at hwritten
  exact notMem_cubicChars h.plain hwritten

/-! ## Answers -/

/-- The net coefficient of `x`, on the left side. -/
def netSlope (l r : List WholeTerm) : ℤ := total 1 l - total 1 r

/-- The net constant, on the right side. -/
def netConstant (l r : List WholeTerm) : ℤ := total 0 r - total 0 l

section Net

variable {left right : List Char} {l r : List WholeTerm}

/-- **The difference of the coefficients** of `x` is exact. -/
theorem represents_slope (h : Small l r)
    (hleft : Text.removeBlanks left = Text.removeBlanks (wholeChars l))
    (hright : Text.removeBlanks right = Text.removeBlanks (wholeChars r)) :
    ((Coefficients.read left).c - (Coefficients.read right).c).Represents (netSlope l r) := by
  have hsub := h.slope
  rw [Int.cast_sub] at hsub
  rw [netSlope, Int.cast_sub]
  exact (represents_read h.left hleft 1).sub (represents_read h.right hright 1) hsub

/-- **The difference of the constants** is exact. -/
theorem represents_constant (h : Small l r)
    (hleft : Text.removeBlanks left = Text.removeBlanks (wholeChars l))
    (hright : Text.removeBlanks right = Text.removeBlanks (wholeChars r)) :
    ((Coefficients.read right).d - (Coefficients.read left).d).Represents (netConstant l r) := by
  have hsub := h.constant
  rw [Int.cast_sub] at hsub
  rw [netConstant, Int.cast_sub]
  exact (represents_read h.right hright 0).sub (represents_read h.left hleft 0) hsub

end Net

/-- A solution starts with `x`. -/
theorem ne_solution {answer : String} (h : answer ∈ ["Infinite solutions", "No solution"])
    (x : Double) : answer ≠ "x = " ++ x.text := by
  rintro rfl
  have hstart : ∀ text ∈ ["Infinite solutions", "No solution"], text.toList.head? ≠ some 'x' := by
    decide
  refine hstart _ h ?_
  rw [String.toList_append]
  rfl

/-- The last step shows the solution. -/
theorem getLast?_steps (equation : String) {left right : Coefficients}
    (h : (left.c - right.c).isZero = false) :
    ∃ step, (answer equation left right).steps.getLast? = some step ∧
      step.expression = (answer equation left right).final := by
  rw [answer]
  simp only [h, Bool.false_eq_true, if_false]
  exact ⟨_, List.getLast?_append_cons .., rfl⟩

/-- **Three kinds of answers.**  An equation between two written sums of whole terms, with any white
space, is always answered: that every number is a solution exactly if the net coefficient of `x` and
the net constant are zero, that there is no solution exactly if only the former is zero, and else
with their rounded quotient, in the last step too. -/
theorem solve_trichotomy {equation : String} {left right : List Char} {l r : List WholeTerm}
    (hequation : equation.toList = left ++ '=' :: right)
    (hleft : Text.removeBlanks left = Text.removeBlanks (wholeChars l))
    (hright : Text.removeBlanks right = Text.removeBlanks (wholeChars r)) (h : Small l r) :
    ∃ a, solve equation = .ok a ∧
      (a.final = "Infinite solutions" ↔ netSlope l r = 0 ∧ netConstant l r = 0) ∧
      (a.final = "No solution" ↔ netSlope l r = 0 ∧ netConstant l r ≠ 0) ∧
      (netSlope l r ≠ 0 →
        a.final = "x = " ++ (Double.round false (netConstant l r / netSlope l r)).text ∧
        ∃ step, a.steps.getLast? = some step ∧ step.expression = a.final) := by
  have hsplit : Text.splitAtChar '=' equation.toList = [left, right] := by
    rw [hequation, Text.splitAtChar_append (notMem_side h.left hleft),
      Text.splitAtChar_of_notMem (notMem_side h.right hright)]
  refine ⟨_, solve_of_sides (Equation.sides_of_split hsplit wording), ?_⟩
  have hslope := represents_slope h hleft hright
  have hconstant := represents_constant h hleft hright
  have hiff {x : Double} {n : ℤ} (hx : x.Represents n) : x.isZero = true ↔ n = 0 := by
    rw [← value_eq_zero_iff hx.1, hx.2, Int.cast_eq_zero]
  obtain ⟨a, ha⟩ : ∃ a, a = answer equation (Coefficients.read left) (Coefficients.read right) :=
    ⟨_, rfl⟩
  have hfinal : a.final = final (Coefficients.read left) (Coefficients.read right) := by
    rw [ha, final_answer]
  rw [← ha]
  by_cases hA : netSlope l r = 0
  · rw [final, if_pos ((hiff hslope).mpr hA)] at hfinal
    by_cases hB : netConstant l r = 0
    · rw [if_pos ((hiff hconstant).mpr hB)] at hfinal
      simp [hfinal, hA, hB]
    · rw [if_neg (mt (hiff hconstant).mp hB)] at hfinal
      simp [hfinal, hA, hB]
  · have hne := hslope.isZero_eq_false (by exact_mod_cast hA)
    rw [final, if_neg (mt (hiff hslope).mp hA)] at hfinal
    obtain ⟨s, hquotient⟩ := exists_div_eq_round hconstant.1 hslope.1 hne
    rw [hquotient, hconstant.2, hslope.2] at hfinal
    have hsolution : a.final =
        "x = " ++ (Double.round false (netConstant l r / netSlope l r)).text :=
      hfinal.trans (congrArg ("x = " ++ ·) (same_round s false _).text_eq)
    have hother {text : String} (htext : text ∈ ["Infinite solutions", "No solution"]) :
        a.final ≠ text := by
      rw [hsolution]
      exact (ne_solution htext _).symm
    refine ⟨iff_of_false (hother (by simp)) fun hzero => hA hzero.1,
      iff_of_false (hother (by simp)) fun hzero => hA hzero.1, fun _ => ⟨hsolution, ?_⟩⟩
    rw [ha]
    exact getLast?_steps equation hne

/-- Equations with one solution, with none, and without `x` after all. -/
theorem solve_trichotomy_each :
    (∃ a, solve "3x - x + 2 = 0x + 7" = .ok a ∧
      a.final = "x = " ++ (Double.round false (5 / 2)).text) ∧
    (∃ a, solve "x + x=2x - 4" = .ok a ∧ a.final = "No solution") ∧
    ∃ a, solve "0 = -x + 1 + x - 1" = .ok a ∧ a.final = "Infinite solutions" := by
  refine ⟨?_, ?_, ?_⟩
  · have htext :
        "3x - x + 2 = 0x + 7".toList = "3x - x + 2 ".toList ++ '=' :: " 0x + 7".toList := by
      decide
    obtain ⟨a, ha, -, -, hone⟩ := solve_trichotomy (l := [⟨3, 1⟩, ⟨-1, 1⟩, ⟨2, 0⟩])
      (r := [⟨0, 1⟩, ⟨7, 0⟩]) htext (by decide +kernel) (by decide +kernel)
      (small_of_total (by decide) (by decide))
    exact ⟨a, ha, (hone (by decide)).1⟩
  · have htext : "x + x=2x - 4".toList = "x + x".toList ++ '=' :: "2x - 4".toList := by decide
    obtain ⟨a, ha, -, hnone, -⟩ := solve_trichotomy (l := [⟨1, 1⟩, ⟨1, 1⟩])
      (r := [⟨2, 1⟩, ⟨-4, 0⟩]) htext (by decide +kernel) (by decide +kernel)
      (small_of_total (by decide) (by decide))
    exact ⟨a, ha, hnone.mpr (by decide)⟩
  · have htext : "0 = -x + 1 + x - 1".toList = "0 ".toList ++ '=' :: " -x + 1 + x - 1".toList := by
      decide
    obtain ⟨a, ha, hall, -, -⟩ := solve_trichotomy (l := [])
      (r := [⟨-1, 1⟩, ⟨1, 0⟩, ⟨1, 1⟩, ⟨-1, 0⟩]) htext (by decide +kernel) (by decide +kernel)
      (small_of_total (by decide) (by decide))
    exact ⟨a, ha, hall.mpr (by decide)⟩

end Linear

end Stepwise
