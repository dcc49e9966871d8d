/-
# Polynomials of whole terms

A term of a whole coefficient and a natural power is exact as long as both have at most 53 bits.
It is shown without letters, so that a sum of such terms is read as it was written, also with a
constant of integration behind it.

* `WholeTerm`, `Polynomial.wholeChars` : whole terms, and their sum as it is written;
* `Polynomial.readTerms_whole` : whole terms are read as they were written;
* `Polynomial.readTerms_whole_constant` : the constant of integration is skipped.
-/
import Stepwise.Proofs.Polynomial.Powers
import Stepwise.Proofs.Polynomial.WrittenTerm

namespace Stepwise

/-! ## Whole numbers -/

namespace Double

variable {n : ℤ} {p : ℕ}

theorem abs_cast_lt (h : n.natAbs < 2 ^ 53) : |(n : ℚ)| < 2 ^ 53 := by
  rw [← Int.cast_abs, ← Nat.cast_natAbs]
  exact_mod_cast h

/-- Whole numbers are shown without letters. -/
theorem Represents.plain {x : Double} (hx : x.Represents n) (h : n.natAbs < 2 ^ 53) : x.Plain := by
  refine plain_of_size hx.1 ?_
  rw [hx.2]
  by_cases hn : n = 0
  · exact .inl (by rw [hn, Int.cast_zero])
  · have hone : (1 : ℚ) ≤ |(n : ℚ)| := by exact_mod_cast Int.one_le_abs hn
    refine .inr ⟨le_trans (by norm_num) hone, (abs_cast_lt h).trans (by norm_num)⟩

theorem shown_ofInt (h : n.natAbs < 2 ^ 53) : (ofInt n).shown = ofInt n := by
  by_cases hn : n = 0
  · rw [hn]
    decide +kernel
  · have hzero := (represents_ofInt (abs_cast_lt h)).isZero_eq_false (by exact_mod_cast hn)
    rw [shown, hzero]
    rfl

theorem shown_ofNat (h : p < 2 ^ 53) : (ofNat p).shown = ofNat p := by
  by_cases hp : p = 0
  · rw [hp]
    decide +kernel
  · have hzero := (represents_ofNat h).isZero_eq_false (by exact_mod_cast hp)
    rw [shown, hzero]
    rfl

/-- A natural number is shown without a sign. -/
theorem shownSign_ofNat (p : ℕ) : (ofNat p).shownSign = [] := by
  have hsign : (ofNat p).signBit = false := signBit_roundQuotient false p 1
  generalize ofNat p = x at hsign
  cases x with
  | nan => rfl
  | infinity negative | finite negative m e h =>
    obtain rfl : negative = false := hsign
    rfl

end Double

/-! ## Whole terms -/

/-- The product of a whole number and a power of `x`. -/
structure WholeTerm where
  coefficient : Int
  power : Nat

namespace WholeTerm

/-- The term as a term of doubles. -/
def term (t : WholeTerm) : Term := ⟨.ofInt t.coefficient, .ofNat t.power⟩

/-- Both numbers have at most 53 bits. -/
structure Exact (t : WholeTerm) : Prop where
  coefficient : t.coefficient.natAbs < 2 ^ 53
  power : t.power < 2 ^ 53

variable {t : WholeTerm}

theorem Exact.plain (h : t.Exact) : t.term.Plain where
  coefficient := (Double.represents_ofInt (Double.abs_cast_lt h.coefficient)).plain h.coefficient
  power := by
    have hpower : (Double.ofNat t.power).Represents ((t.power : ℤ) : ℚ) := by
      rw [Int.cast_natCast]
      exact Double.represents_ofNat h.power
    exact hpower.plain (by simpa using h.power)
  unsigned := Double.shownSign_ofNat t.power

end WholeTerm

namespace Polynomial

/-- The sum of whole terms as it is written. -/
def wholeChars (ts : List WholeTerm) : List Char := writeSum (ts.map fun t => t.term.chars)

theorem wholeChars_ne_nil (ts : List WholeTerm) : wholeChars ts ≠ [] := by
  unfold wholeChars writeSum
  dsimp only
  split
  · decide
  · next h => simpa using h

variable {ts : List WholeTerm}

/-- The characters of a sum of whole terms. -/
theorem of_mem_wholeChars (h : ∀ t ∈ ts, t.Exact) {c : Char} (hc : c ∈ wholeChars ts) :
    Figure c ∨ c ∈ [' ', 'x', '^'] := by
  rcases of_mem_writeSum hc with hc | ⟨s, hs, hc⟩
  · simp only [List.mem_cons, List.not_mem_nil, or_false] at hc
    rcases hc with rfl | rfl | rfl | rfl <;> decide
  · obtain ⟨t, ht, rfl⟩ := List.mem_map.mp hs
    have hplain := (h t ht).plain
    rcases Term.of_mem_chars hc with hc | hc | hc
    · exact .inl (Double.figure_of_mem_display hplain.coefficient.exists_written.1 hc)
    · exact .inl (Double.figure_of_mem_display hplain.power.exists_written.1 hc)
    · simp only [List.mem_cons, List.not_mem_nil, or_false] at hc
      rcases hc with rfl | rfl | rfl <;> decide

/-! ## Reading -/

/-- **Whole terms are read as they were written.** -/
theorem readTerms_whole (hne : ts ≠ []) (h : ∀ t ∈ ts, t.Exact) :
    readTerms (wholeChars ts) = ts.map WholeTerm.term := by
  have hplain : ∀ u ∈ ts.map WholeTerm.term, u.Plain := by
    intro u hu
    obtain ⟨t, ht, rfl⟩ := List.mem_map.mp hu
    exact (h t ht).plain
  have hread := readTerms_writeSum (by simpa using hne) hplain
  rw [List.map_map, List.map_map] at hread
  refine hread.trans (List.map_congr_left fun t ht => ?_)
  show (⟨(Double.ofInt t.coefficient).shown, (Double.ofNat t.power).shown⟩ : Term) = _
  rw [Double.shown_ofInt (h t ht).coefficient, Double.shown_ofNat (h t ht).power]
  rfl

/-- A constant of integration is skipped when a text is read. -/
theorem readTerms_constant (s : List Char) :
    readTerms (s ++ [' ', '+', ' ', 'C']) = readTerms s := by
  have hcut : s ++ [' ', '+', ' ', 'C'] = s ++ [' '] ++ '+' :: [' ', 'C'] := by simp
  have hskip : readTerms [' ', 'C'] = [] := by decide
  rw [hcut, readTerms_append_plus, hskip, List.append_nil, readTerms, termTexts_append_blank]
  rfl

/-- **Whole terms are read as they were written** before a constant of integration. -/
theorem readTerms_whole_constant (hne : ts ≠ []) (h : ∀ t ∈ ts, t.Exact) :
    readTerms (wholeChars ts ++ [' ', '+', ' ', 'C']) = ts.map WholeTerm.term :=
  (readTerms_constant _).trans (readTerms_whole hne h)

end Polynomial

end Stepwise
