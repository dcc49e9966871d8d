/-
# Two readers of written polynomials

The reader of terms divides a term at its first `x`.  The reader of coefficients looks for `x^3`,
`x^2` and `x` in the term and takes what it has found out of it.  From a term that is written with a
power up to the third both take the same, and so they do from the pieces of a number that is cut at
the sign of its exponent.  The coefficients of a written polynomial are therefore the coefficients
of the terms that are read, added up from the left.

* `Polynomial.addCoefficients` : the coefficients of the terms of a power, added up;
* `Polynomial.ReadAlike` : texts from which both readers take the same;
* `Polynomial.coefficient_read` : the coefficients of a text that is cut into such texts;
* `CubicTerm`, `Polynomial.cubicChars` : terms up to the third power, and their sum as written;
* `Polynomial.coefficient_read_cubicChars` : the two readers agree on such a sum.
-/
import Stepwise.Proofs.Equation.Sums
import Stepwise.Proofs.Polynomial.Whole

namespace Stepwise

namespace Polynomial

/-! ## Coefficients added up -/

/-- A number and the coefficients of the terms of a power, added up from the left. -/
def addCoefficients (n : Fin 4) (x : Double) (ts : List Term) : Double :=
  (ts.filter fun t => t.power.numericEq (.ofNat n)).foldl (fun sum t => sum + t.coefficient) x

theorem addCoefficients_append (n : Fin 4) (x : Double) (ts us : List Term) :
    addCoefficients n x (ts ++ us) = addCoefficients n (addCoefficients n x ts) us := by
  rw [addCoefficients, List.filter_append, List.foldl_append]
  rfl

/-- Powers up to the third are told apart. -/
theorem numericEq_power : ∀ n m : Fin 4,
    (Double.ofNat n).numericEq (.ofNat m) = decide (n = m) := by
  decide +kernel

theorem addCoefficients_singleton (n m : Fin 4) (x c : Double) :
    addCoefficients m x [⟨c, .ofNat n⟩] = if n = m then x + c else x := by
  by_cases h : n = m <;> simp [addCoefficients, numericEq_power, h]

/-! ## Texts that are read alike -/

/-- Both readers take the same from a text. -/
def ReadAlike (s : List Char) : Prop :=
  ∀ (k : Coefficients) (n : Fin 4),
    (k.addTerm s).coefficient n = addCoefficients n (k.coefficient n) (readTerm? s).toList

/-- The coefficients grow by those of the terms that are read. -/
theorem coefficient_foldl {ss : List (List Char)} (h : ∀ s ∈ ss, ReadAlike s) (k : Coefficients)
    (n : Fin 4) :
    (ss.foldl Coefficients.addTerm k).coefficient n =
      addCoefficients n (k.coefficient n) (ss.filterMap readTerm?) := by
  induction ss generalizing k with
  | nil => rfl
  | cons s ss ih =>
    have hcons : (s :: ss).filterMap readTerm? =
        (readTerm? s).toList ++ ss.filterMap readTerm? := by
      rw [List.filterMap_cons]
      cases readTerm? s <;> rfl
    rw [List.foldl_cons, ih fun t ht => h t (List.mem_cons_of_mem s ht), h s List.mem_cons_self,
      hcons, addCoefficients_append]

/-- **The coefficients of a text are those of its terms added up**, if the text is cut into terms
that are read alike. -/
theorem coefficient_read {s : List Char} (h : ∀ t ∈ termTexts s, ReadAlike t) (n : Fin 4) :
    (Coefficients.read s).coefficient n = addCoefficients n 0 (readTerms s) := by
  have hzero : ({} : Coefficients).coefficient n = 0 := by
    fin_cases n <;> rfl
  rw [Coefficients.read, coefficient_foldl h, hzero]
  rfl

/-- A term that one reader finds and the other one adds is read alike. -/
theorem ReadAlike.of_addAt {s : List Char} {c : Double} {n : Fin 4}
    (hread : readTerm? s = some ⟨c, .ofNat n⟩)
    (hadd : ∀ k : Coefficients, k.addTerm s = k.addAt n c) : ReadAlike s := by
  intro k m
  rw [hadd, Coefficients.coefficient_addAt, hread, Option.toList_some, addCoefficients_singleton]

/-- A text without `x` is added as a constant, or not at all. -/
theorem addTerm_of_notMem {s : List Char} (h : 'x' ∉ s) (k : Coefficients) : k.addTerm s =
    if (Numeral.prefixValue s).isNaN then k else k.addAt 0 (Numeral.prefixValue s) := by
  have hnone (piece : List Char) (hx : 'x' ∈ piece) : Text.contains piece s = false :=
    Text.contains_eq_false hx h
  rw [Coefficients.addTerm, hnone _ (by simp), hnone _ (by simp), hnone _ (by simp)]
  rfl

/-- A text without `x` is a constant to both readers, or nothing. -/
theorem readAlike_of_notMem {s : List Char} (h : 'x' ∉ s) : ReadAlike s := by
  have hletter : s.contains 'x' = false := by simpa using h
  have hread : readTerm? s = if (Numeral.prefixValue s).isNaN then none
      else some ⟨Numeral.prefixValue s, 0⟩ := by
    rw [readTerm?, hletter, if_neg Bool.false_ne_true]
  cases hnan : (Numeral.prefixValue s).isNaN with
  | true =>
    intro k n
    rw [addTerm_of_notMem h, hread, hnan]
    rfl
  | false =>
    rw [hnan, if_neg Bool.false_ne_true] at hread
    refine .of_addAt (n := 0) hread fun k => ?_
    rw [addTerm_of_notMem h, hnan, if_neg Bool.false_ne_true]

/-- A power of `x` behind a text without it goes to its own coefficient. -/
theorem addTerm_variable {front : List Char} (hx : 'x' ∉ front) (hstar : '*' ∉ front) {n : Fin 4}
    (hn : n ≠ 0) (k : Coefficients) :
    k.addTerm (front ++ Term.variableChars (.ofNat n)) = k.addAt n (factorValue front) := by
  have hcontains (piece : List Char) {back : List Char} (hback : 'x' ∉ back) :
      Text.contains ('x' :: piece) (front ++ 'x' :: back) = piece.isPrefixOf back :=
    Text.contains_append hx hback
  have hread (piece : List Char) :
      Coefficients.readFactor ('x' :: piece) (front ++ 'x' :: piece) = factorValue front := by
    have hfront := Text.removeFirst_piece hx piece []
    rw [List.append_nil, List.append_nil] at hfront
    rw [Coefficients.readFactor, hfront, Text.removeFirst_of_notMem hstar]
  have hone : Term.variableChars (.ofNat 1) = ['x'] := by decide +kernel
  have htwo : Term.variableChars (.ofNat 2) = ['x', '^', '2'] := by decide +kernel
  have hthree : Term.variableChars (.ofNat 3) = ['x', '^', '3'] := by decide +kernel
  have hcases : n = 1 ∨ n = 2 ∨ n = 3 := by
    fin_cases n <;> simp_all
  rcases hcases with rfl | rfl | rfl
  · show k.addTerm (front ++ Term.variableChars (.ofNat 1)) = _
    rw [hone, ← hread [], Coefficients.addTerm, hcontains _ (by decide), hcontains _ (by decide),
      hcontains _ (by decide)]
    rfl
  · show k.addTerm (front ++ Term.variableChars (.ofNat 2)) = _
    rw [htwo, ← hread ['^', '2'], Coefficients.addTerm, hcontains _ (by decide),
      hcontains _ (by decide)]
    rfl
  · show k.addTerm (front ++ Term.variableChars (.ofNat 3)) = _
    rw [hthree, ← hread ['^', '3'], Coefficients.addTerm, hcontains _ (by decide)]
    rfl

/-- A power of `x` behind a text without it and without a multiplication sign is read alike. -/
theorem readAlike_variable {front : List Char} (hx : 'x' ∉ front) (hstar : '*' ∉ front) {n : Fin 4}
    (hn : n ≠ 0) : ReadAlike (front ++ Term.variableChars (.ofNat n)) := by
  have hsmall : (n : ℕ) < 2 ^ 53 := n.isLt.trans (by norm_num)
  have hread := readTerm?_variable hx (Double.represents_ofNat hsmall).1
  rw [Double.shown_ofNat hsmall] at hread
  exact .of_addAt hread (addTerm_variable hx hstar hn)

end Polynomial

/-! ## Terms up to the third power -/

/-- The product of a number and a power of `x` up to the third. -/
structure CubicTerm where
  coefficient : Double
  power : Fin 4

namespace CubicTerm

/-- The term as a term of doubles. -/
def term (t : CubicTerm) : Term := ⟨t.coefficient, .ofNat t.power⟩

end CubicTerm

namespace Polynomial

/-- The sum of terms up to the third power as it is written. -/
def cubicChars (ts : List CubicTerm) : List Char := writeSum (ts.map fun t => t.term.chars)

/-- Neither `x` nor a multiplication sign stands in the text of a number, even where it is cut. -/
theorem notMem_marked_display {c : Char} (hc : c ∈ ['x', '*']) (x : Double) :
    c ∉ marked x.display := by
  intro hmem
  have hcases : c ∈ x.display ∨ c = '+' := of_mem_marked hmem
  simp only [List.mem_cons, List.not_mem_nil, or_false] at hc
  rcases hcases with hmem | rfl
  · have hfigure := Double.of_mem_display hmem
    rcases hc with rfl | rfl <;> exact absurd hfigure (by decide)
  · exact absurd hc (by decide)

/-- **The pieces of a written term are read alike.** -/
theorem readAlike_of_mem_termTexts {t : CubicTerm} {s : List Char}
    (hs : s ∈ termTexts t.term.chars) : ReadAlike s := by
  have hisZero : ∀ n : Fin 4, (Double.ofNat n).isZero = decide (n = 0) := by decide +kernel
  have hterm : t.term.power.isZero = decide (t.power = 0) := hisZero t.power
  by_cases hpower : t.power = 0
  · rw [Term.chars, if_pos (by simp [hterm, hpower])] at hs
    exact readAlike_of_notMem fun hmem =>
      notMem_marked_display (by simp) _ (subset_of_mem_pieces hs hmem)
  · obtain ⟨front, hchars, hfront⟩ := Term.exists_front (t := t.term) (by simp [hterm, hpower])
    have hnot {c : Char} (hc : c ∈ ['x', '*']) : c ∉ marked front := by
      simp only [List.mem_cons, List.not_mem_nil, or_false] at hfront hc
      rcases hfront with rfl | rfl | rfl
      · rcases hc with rfl | rfl <;> decide
      · rcases hc with rfl | rfl <;> decide
      · exact notMem_marked_display (by simpa using hc) _
    have hvariable : ∀ n : Fin 4, marked (Term.variableChars (.ofNat n)) =
        Term.variableChars (.ofNat n) ∧ Term.variableChars (.ofNat n) ≠ [] ∧
          '+' ∉ Term.variableChars (.ofNat n) := by decide +kernel
    obtain ⟨hsame, hne, hplus⟩ := hvariable t.power
    -- Only the last piece has the power of `x`.
    obtain ⟨before, last, hpieces, hbefore, hlast⟩ :=
      exists_pieces_append (s := marked front) hne hplus
    rw [hchars, termTexts_eq, ← marked, marked_append, CubicTerm.term, hsame, hpieces] at hs
    rcases List.mem_append.mp hs with hs | hs
    · exact readAlike_of_notMem fun hmem => hnot (by simp) (hbefore s hs hmem)
    · rw [List.mem_singleton.mp hs]
      exact readAlike_variable (fun hmem => hnot (by simp) (hlast hmem))
        (fun hmem => hnot (by simp) (hlast hmem)) hpower

/-- **The two readers agree on written polynomials up to the third power**, whatever their
coefficients are. -/
theorem coefficient_read_cubicChars (ts : List CubicTerm) (n : Fin 4) :
    (Coefficients.read (cubicChars ts)).coefficient n =
      addCoefficients n 0 (readTerms (cubicChars ts)) := by
  refine coefficient_read (fun s hs => ?_) n
  rcases of_mem_termTexts_writeSum hs with rfl | ⟨u, hu, hs⟩
  · exact readAlike_of_notMem (by decide)
  · obtain ⟨t, -, rfl⟩ := List.mem_map.mp hu
    exact readAlike_of_mem_termTexts hs

end Polynomial

end Stepwise
