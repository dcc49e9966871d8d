/-
# Terms written and read again

A term is written as its coefficient, `x` and its power, with units and the power of zero left out.
The lenient reader restores what was left out, so that a term with finite numbers is read as it was,
up to the sign of zeros.  A sum is read as its terms if no number in it is shown with an exponent
and no power is negative.

* `Polynomial.readTerm?_chars` : a written term is read again;
* `Term.Plain` : terms whose numbers are shown without letters, and whose power has no sign;
* `Term.Plain.uncut_chars` : no sign stands in such a term but at its start;
* `Polynomial.readTerms_writeSum` : a written sum is read again.
-/
import Stepwise.Proofs.Decimal.Positional
import Stepwise.Proofs.Double.Exact
import Stepwise.Proofs.Polynomial.Shown
import Stepwise.Proofs.Polynomial.WrittenSum

namespace Stepwise

/-! ## Numbers in a term -/

namespace Double

variable {x : Double}

/-- A number that is numerically one is shown as one. -/
theorem shown_eq_of_numericEq {y : Double} {q : ℚ} (hx : x.isFinite = true) (hy : y.Represents q)
    (hq : q ≠ 0) (h : x.numericEq y = true) : x.shown = y := by
  have hvalue := (same_of_numericEq hx hy.1 h).value_eq
  obtain rfl : x = y := Represents.eq_of_ne_zero ⟨hx, hvalue.trans hy.2⟩ hy hq
  rw [shown, hy.isZero_eq_false hq]
  rfl

theorem shownSign_cases (x : Double) : x.shownSign = [] ∨ x.shownSign = ['-'] := by
  cases x with
  | nan => exact .inl rfl
  | infinity negative =>
    cases negative with
    | false => exact .inl rfl
    | true => exact .inr rfl
  | finite negative m e h =>
    rw [shownSign]
    split
    · exact .inr rfl
    · exact .inl rfl

/-- A number shown without letters is a numeral behind its sign. -/
theorem Plain.exists_written (h : x.Plain) :
    x.isFinite = true ∧ ∃ s, x.display = x.shownSign ++ s ∧ Numeral.Written s := by
  have hletter {c : Char} (hc : c ∈ x.display) (hletter : Text.isLetter c = true) : False := by
    rw [h c hc] at hletter
    cases hletter
  have hform := x.displays_display
  generalize x.display = text at hform hletter
  cases hform with
  | @plain s hfinite hwritten _ => exact ⟨hfinite, s, rfl, hwritten⟩
  | @scientific d _ _ =>
    obtain ⟨s, c, digits, hchars, -⟩ := d.scientificChars_eq
    rw [hchars] at hletter
    exact (hletter (c := 'e') (by simp) (by decide)).elim
  | infinite _ => exact (hletter (c := 'i') (by simp) (by decide)).elim
  | undefined _ => exact (hletter (c := 'n') (by simp) (by decide)).elim

end Double

/-- A term that is no constant is a factor, a sign or nothing before its power of `x`. -/
theorem Term.exists_front {t : Term} (h : t.power.isZero = false) :
    ∃ front, t.chars = front ++ variableChars t.power ∧
      front ∈ [[], ['-'], t.coefficient.display] := by
  rw [chars, if_neg (by simp [h])]
  split
  · exact ⟨[], rfl, by simp⟩
  · split
    · exact ⟨['-'], rfl, by simp⟩
    · exact ⟨t.coefficient.display, rfl, by simp⟩

namespace Polynomial

variable {x : Double} {t : Term}

/-- A finite number before `x` is read as it is shown. -/
theorem factorValue_display (hx : x.isFinite = true) : factorValue x.display = x.shown := by
  have hread := x.readSigned?_display hx Numeral.ends_nil
  rw [List.append_nil] at hread
  rw [← Numeral.prefixValue_display hx]
  -- The texts that stand for a factor of one are no numbers.
  unfold factorValue
  split
  · next heq =>
    rw [heq] at hread
    cases hread
  · next heq =>
    rw [heq] at hread
    cases hread
  · next heq =>
    rw [heq] at hread
    cases hread
  · rfl

/-- The letter `x` stands in no finite number. -/
theorem notMem_display (hx : x.isFinite = true) : 'x' ∉ x.display := fun hmem =>
  absurd (x.figure_of_mem_display hx hmem) (by decide)

/-! ## Terms -/

/-- A power is read behind a factor without `x`. -/
theorem readTerm?_variable {s : List Char} (hs : 'x' ∉ s) {power : Double}
    (hpower : power.isFinite = true) :
    readTerm? (s ++ Term.variableChars power) = some ⟨factorValue s, power.shown⟩ := by
  have hfront : ∃ rest, Term.variableChars power = 'x' :: rest ∧ powerValue rest = power.shown := by
    rw [Term.variableChars]
    by_cases hone : power.numericEq 1 = true
    · rw [if_pos hone]
      refine ⟨[], rfl, ?_⟩
      exact (Double.shown_eq_of_numericEq hpower Double.represents_one one_ne_zero hone).symm
    · rw [if_neg hone]
      exact ⟨_, rfl, Numeral.prefixValue_display hpower⟩
  obtain ⟨rest, hrest, hvalue⟩ := hfront
  rw [readTerm?, hrest, if_pos (by simp), Text.partitionAt_append hs]
  simp only [hvalue]

/-- **A written term with finite numbers is read again**, up to the sign of zeros. -/
theorem readTerm?_chars (hcoefficient : t.coefficient.isFinite = true)
    (hpower : t.power.isFinite = true) :
    readTerm? t.chars = some ⟨t.coefficient.shown, t.power.shown⟩ := by
  rw [Term.chars]
  by_cases hzero : t.power.isZero = true
  · have hletter : t.coefficient.display.contains 'x' = false := by
      rw [List.contains_eq_mem, decide_eq_false_iff_not]
      exact notMem_display hcoefficient
    have hdefined : t.coefficient.shown.isNaN = false := by
      rw [← (Double.same_shown _).isNaN_eq]
      exact Double.isNaN_of_isFinite hcoefficient
    have hpowerShown : t.power.shown = 0 := by
      rw [Double.shown, if_pos hzero]
      rfl
    rw [if_pos hzero, readTerm?, hletter, if_neg Bool.false_ne_true, hpowerShown]
    simp only [Numeral.prefixValue_display hcoefficient, hdefined, Bool.false_eq_true, if_false]
  · rw [if_neg hzero]
    by_cases hone : t.coefficient.numericEq 1 = true
    · have hshown :=
        Double.shown_eq_of_numericEq hcoefficient Double.represents_one one_ne_zero hone
      rw [if_pos hone, hshown]
      exact readTerm?_variable (s := []) (by simp) hpower
    · rw [if_neg hone]
      by_cases hminus : t.coefficient.numericEq (-1) = true
      · have hshown := Double.shown_eq_of_numericEq hcoefficient Double.represents_one.neg
          (by norm_num) hminus
        rw [if_pos hminus, hshown]
        exact readTerm?_variable (s := ['-']) (by decide) hpower
      · rw [if_neg hminus, readTerm?_variable (notMem_display hcoefficient) hpower,
          factorValue_display hcoefficient]

end Polynomial

/-! ## Sums -/

/-- Both numbers are shown without letters, and the power without a sign. -/
structure Term.Plain (t : Term) : Prop where
  coefficient : t.coefficient.Plain
  power : t.power.Plain
  unsigned : t.power.shownSign = []

namespace Term.Plain

variable {t : Term}

/-- A character of a numeral is neither blank nor a sign. -/
theorem of_mem_written {s : List Char} (h : Numeral.Written s) :
    ∀ c ∈ s, Text.isBlank c = false ∧ c ≠ '+' ∧ c ≠ '-' := by
  intro c hc
  rcases h.isDigit_or_point hc with hdigit | rfl
  · refine ⟨Text.isBlank_of_isDigit hdigit, ?_, ?_⟩
    · rintro rfl
      exact absurd hdigit (by decide)
    · rintro rfl
      exact absurd hdigit (by decide)
  · decide

/-- **A plain term stays whole when a sum is cut.** -/
theorem uncut_chars (h : t.Plain) : Polynomial.Uncut t.chars := by
  obtain ⟨-, s, hcoefficient, hs⟩ := h.coefficient.exists_written
  obtain ⟨-, n, hpower, hn⟩ := h.power.exists_written
  have hsign := t.coefficient.shownSign_cases
  have hbody := of_mem_written hs
  have hne : s ≠ [] := by
    obtain ⟨c, u, rfl, -⟩ := Numeral.written_start hs
    exact List.cons_ne_nil c u
  have hvariable : ∀ c ∈ variableChars t.power, Text.isBlank c = false ∧ c ≠ '+' ∧ c ≠ '-' := by
    intro c hc
    rw [variableChars, hpower, h.unsigned] at hc
    split at hc
    · rw [List.mem_singleton.mp hc]
      decide
    · rcases List.mem_cons.mp hc with rfl | hc
      · decide
      · rcases List.mem_cons.mp hc with rfl | hc
        · decide
        · exact of_mem_written hn c hc
  have hvariable_ne : variableChars t.power ≠ [] := by
    rw [variableChars]
    split <;> exact List.cons_ne_nil _ _
  rw [chars]
  split
  · rw [hcoefficient]
    exact .of_sign hsign hne hbody
  · split
    · exact .of_sign (.inl rfl) hvariable_ne hvariable
    · split
      · exact .of_sign (.inr rfl) hvariable_ne hvariable
      · rw [hcoefficient, List.append_assoc]
        refine .of_sign hsign (by simp [hne]) ?_
        exact List.forall_mem_append.mpr ⟨hbody, hvariable⟩

end Term.Plain

/-- **A written sum of plain terms is read as its terms**, up to the sign of zeros. -/
theorem Polynomial.readTerms_writeSum {ts : List Term} (hne : ts ≠ []) (h : ∀ t ∈ ts, t.Plain) :
    readTerms (writeSum (ts.map Term.chars)) =
      ts.map fun t => ⟨t.coefficient.shown, t.power.shown⟩ := by
  have huncut : ∀ s ∈ ts.map Term.chars, Uncut s := by
    intro s hs
    obtain ⟨t, ht, rfl⟩ := List.mem_map.mp hs
    exact (h t ht).uncut_chars
  have hread : ∀ t ∈ ts, (readTerm? ∘ Term.chars) t =
      some ⟨t.coefficient.shown, t.power.shown⟩ := fun t ht =>
    readTerm?_chars (h t ht).coefficient.exists_written.1 (h t ht).power.exists_written.1
  rw [readTerms, Uncut.termTexts_writeSum (by simpa using hne) huncut, List.filterMap_map,
    List.filterMap_congr hread, List.filterMap_eq_map']

end Stepwise
