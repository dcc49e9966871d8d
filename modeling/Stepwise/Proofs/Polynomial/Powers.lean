/-
# Powers that are read

A polynomial text is cut at its signs, so that no minus is left inside a term.  A power that is read
from a term is therefore not negative, and one more than it is not zero.

* `Polynomial.minus_notMem_tail` : a term has no minus after its start;
* `Polynomial.signBit_powerValue` : no power is negative;
* `Polynomial.isZero_power_add_one` : antiderivatives can be formed.
-/
import Stepwise.Polynomial.Reading
import Stepwise.Proofs.Double.Nearest

namespace Stepwise

/-! ## Numbers without a sign -/

namespace Double

@[simp] theorem signBit_ofParts (negative : Bool) (m : Nat) (e : Int) :
    (ofParts negative m e).signBit = negative := by
  unfold ofParts
  split <;> rfl

@[simp] theorem signBit_roundQuotient (negative : Bool) (n d : Nat) :
    (roundQuotient negative n d).signBit = negative := by
  simp only [roundQuotient]
  split
  · rfl
  · split <;> exact signBit_ofParts ..

@[simp] theorem signBit_ofDecimal (negative : Bool) (digits : Nat) (exponent : Int) :
    (ofDecimal negative digits exponent).signBit = negative := by
  cases exponent <;> exact signBit_roundQuotient ..

/-- One more than a number without a minus is not zero. -/
theorem isZero_add_one {x : Double} (h : x.signBit = false) : (x + 1).isZero = false := by
  obtain ⟨hc, hone⟩ : ∃ hc, (1 : Double) = finite false 0x10000000000000 (-52) hc :=
    ⟨by decide, by decide +kernel⟩
  have hvalue : (finite false 0x10000000000000 (-52) hc).value = 1 := by
    rw [← hone]
    exact represents_one.2
  rw [hone]
  cases x with
  | nan => rfl
  | infinity negative => rfl
  | finite negative m e hm =>
    obtain rfl : negative = false := h
    have hnonneg : 0 ≤ (finite false m e hm).value := by
      rw [value_finite, if_neg Bool.false_ne_true, one_mul]
      positivity
    refine isZero_round _ ?_
    rw [hvalue, abs_of_pos (by linarith)]
    calc (2 : ℚ) ^ (-1074 : ℤ) ≤ 1 := zpow_le_one_of_nonpos₀ (by norm_num) (by norm_num)
      _ ≤ (finite false m e hm).value + 1 := by linarith

end Double

theorem Decimal.signBit_toDouble (negative : Bool) (x : Decimal) :
    (x.toDouble negative).signBit = negative := by
  unfold toDouble
  split
  · rfl
  · split
    · rfl
    · split
      · rfl
      · exact Double.signBit_ofDecimal ..

/-- A text without a minus does not start with a negative number. -/
theorem Numeral.signBit_prefixValue {s : List Char} (h : '-' ∉ s) :
    (prefixValue s).signBit = false := by
  have htrimmed : '-' ∉ Text.trimStart s := fun hmem =>
    h ((List.dropWhile_sublist _).subset hmem)
  have hsign : (readSign (Text.trimStart s)).1 = false := by
    unfold readSign
    split
    · next heq =>
      rw [heq] at htrimmed
      exact absurd List.mem_cons_self htrimmed
    · rfl
    · rfl
  unfold prefixValue
  split
  · next x rest hread =>
    simp only [readSigned?, hsign] at hread
    split at hread
    · cases hread
    · split at hread
      · cases hread
        exact Decimal.signBit_toDouble ..
      · cases hread
        exact Decimal.signBit_toDouble ..
  · rfl

/-! ## Terms -/

namespace Polynomial

/-- Of the pieces between plus signs the first has no minus, and the others have none after their
start, if a plus is put before every minus. -/
theorem pieces_signs (s : List Char) :
    ∃ first rest, Text.splitAtChar '+' (s.flatMap fun c => if c = '-' then ['+', '-'] else [c]) =
      first :: rest ∧ '-' ∉ first ∧ ∀ piece ∈ rest, '-' ∉ piece.tail := by
  induction s with
  | nil => exact ⟨[], [], rfl, by simp, by simp⟩
  | cons c s ih =>
    obtain ⟨first, rest, hsplit, hfirst, hrest⟩ := ih
    have htail : ∀ piece ∈ first :: rest, '-' ∉ piece.tail := by
      intro piece hpiece
      rcases List.mem_cons.mp hpiece with rfl | hpiece
      · exact fun hmem => hfirst (List.mem_of_mem_tail hmem)
      · exact hrest piece hpiece
    rw [List.flatMap_cons]
    by_cases hminus : c = '-'
    · subst hminus
      refine ⟨[], ('-' :: first) :: rest, ?_, by simp, ?_⟩
      · simp [Text.splitAtChar, hsplit]
      · intro piece hpiece
        rcases List.mem_cons.mp hpiece with rfl | hpiece
        · exact hfirst
        · exact hrest piece hpiece
    · by_cases hplus : c = '+'
      · subst hplus
        exact ⟨[], first :: rest, by simp [Text.splitAtChar, hsplit], by simp, htail⟩
      · refine ⟨c :: first, rest, by simp [Text.splitAtChar, hsplit, hminus, hplus], ?_, hrest⟩
        intro hmem
        rcases List.mem_cons.mp hmem with heq | hmem
        · exact hminus heq.symm
        · exact hfirst hmem

/-- A term has no minus after its start. -/
theorem minus_notMem_tail {s term : List Char} (h : term ∈ termTexts s) : '-' ∉ term.tail := by
  obtain ⟨first, rest, hsplit, hfirst, hrest⟩ := pieces_signs (Text.removeBlanks s)
  have hpiece : term ∈ first :: rest := by
    rw [← hsplit]
    exact (List.mem_filter.mp h).1
  rcases List.mem_cons.mp hpiece with rfl | hpiece
  · exact fun hmem => hfirst (List.mem_of_mem_tail hmem)
  · exact hrest term hpiece

theorem signBit_powerValue {s : List Char} (h : '-' ∉ s) : (powerValue s).signBit = false := by
  unfold powerValue
  split
  · exact Numeral.signBit_prefixValue fun hmem => h (List.mem_cons_of_mem _ hmem)
  · decide +kernel

/-- No term that is read has a negative power. -/
theorem signBit_power {s : List Char} {t : Term} (h : t ∈ readTerms s) :
    t.power.signBit = false := by
  obtain ⟨term, hterm, hread⟩ := List.mem_filterMap.mp h
  have htail := minus_notMem_tail hterm
  simp only [readTerm?, Text.partitionAt] at hread
  split at hread
  · cases hread
    refine signBit_powerValue fun hmem => htail ?_
    -- What stands after the `x` stands after the start of the term.
    cases term with
    | nil => simp at hmem
    | cons c term =>
      by_cases hc : c = 'x'
      · subst hc
        simpa using hmem
      · have hdrop : ((c :: term).dropWhile (· ≠ 'x')) = term.dropWhile (· ≠ 'x') := by
          simp [hc]
        rw [hdrop] at hmem
        exact (List.dropWhile_sublist _).subset ((List.drop_sublist _ _).subset hmem)
  · split at hread
    · cases hread
    · cases hread
      rfl

/-- **One more than a power that is read is not zero.** -/
theorem isZero_power_add_one {s : List Char} {t : Term} (h : t ∈ readTerms s) :
    (t.power + 1).isZero = false :=
  Double.isZero_add_one (signBit_power h)

end Polynomial

end Stepwise
