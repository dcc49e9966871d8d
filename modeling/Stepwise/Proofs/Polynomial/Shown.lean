/-
# Texts that show numbers

The letter `a` occurs in the text of an undefined number and in no other text of a number.  What is
written for numbers that are defined is put together from such texts and from fixed pieces.

* `Defined` : texts in which no number is shown that is undefined;
* `Double.notMem_text`, `Double.notMem_fixed` : numbers that are shown;
* `Term.notMem_chars`, `Polynomial.notMem_writeSum` : terms and sums that are shown.
-/
import Stepwise.Proofs.Decimal.ReadBack
import Stepwise.Proofs.Derivation.Steps
import Stepwise.Proofs.Expr.Token
import Stepwise.Proofs.Polynomial.Cut

namespace Stepwise

/-! ## Texts -/

/-- The text of an undefined number does not occur. -/
def Defined (text : String) : Prop := Text.contains ['n', 'a', 'n'] text.toList = false

instance (text : String) : Decidable (Defined text) := inferInstanceAs (Decidable (_ = _))

theorem defined_of_notMem {text : String} (h : 'a' ∉ text.toList) : Defined text :=
  Text.contains_eq_false (by simp) h

namespace Text

variable {c : Char}

theorem mem_of_mem_join {separator : List Char} {ss : List (List Char)}
    (h : c ∈ join separator ss) : c ∈ separator ∨ ∃ s ∈ ss, c ∈ s := by
  induction ss with
  | nil => cases h
  | cons s ss ih =>
    cases ss with
    | nil => exact .inr ⟨s, by simp, h⟩
    | cons t ss =>
      rw [join, List.append_assoc] at h
      rcases List.mem_append.mp h with hs | h
      · exact .inr ⟨s, by simp, hs⟩
      · rcases List.mem_append.mp h with hseparator | hrest
        · exact .inl hseparator
        · rcases ih hrest with hseparator | ⟨u, hu, hmem⟩
          · exact .inl hseparator
          · exact .inr ⟨u, List.mem_cons_of_mem _ hu, hmem⟩

theorem mem_of_mem_replaceFrom {piece replacement s : List Char} {skipped : Nat}
    (h : c ∈ replaceFrom piece replacement skipped s) : c ∈ replacement ∨ c ∈ s := by
  induction s generalizing skipped with
  | nil =>
    rw [replaceFrom] at h
    cases h
  | cons d s ih =>
    have hmore {skipped : Nat} (h : c ∈ replaceFrom piece replacement skipped s) :
        c ∈ replacement ∨ c ∈ d :: s :=
      (ih h).imp_right (List.mem_cons_of_mem _)
    cases skipped with
    | succ skipped =>
      rw [replaceFrom] at h
      exact hmore h
    | zero =>
      rw [replaceFrom] at h
      split at h
      · rcases List.mem_append.mp h with h | h
        · exact .inl h
        · exact hmore h
      · rcases List.mem_cons.mp h with rfl | h
        · exact .inr List.mem_cons_self
        · exact hmore h

end Text

theorem mem_of_mem_intercalate {α : Type} {c : α} {separator : List α} {xs : List (List α)}
    (h : c ∈ separator.intercalate xs) : c ∈ separator ∨ ∃ x ∈ xs, c ∈ x := by
  induction xs with
  | nil => simp [List.intercalate] at h
  | cons x xs ih =>
    cases xs with
    | nil => exact .inr ⟨x, by simp, by simpa [List.intercalate] using h⟩
    | cons y ys =>
      rw [List.intercalate_cons_cons, List.append_assoc] at h
      rcases List.mem_append.mp h with hx | h
      · exact .inr ⟨x, by simp, hx⟩
      · rcases List.mem_append.mp h with hseparator | hrest
        · exact .inl hseparator
        · rcases ih hrest with hseparator | ⟨z, hz, hmem⟩
          · exact .inl hseparator
          · exact .inr ⟨z, List.mem_cons_of_mem _ hz, hmem⟩

/-- What a computation yields for a list was yielded for its members. -/
theorem exists_of_mem_mapM {ε α β : Type} {f : α → Except ε β} {xs : List α} {ys : List β}
    (h : xs.mapM f = .ok ys) {y : β} (hy : y ∈ ys) : ∃ x ∈ xs, f x = .ok y := by
  induction xs generalizing ys with
  | nil =>
    cases h
    cases hy
  | cons x xs ih =>
    rw [List.mapM_cons] at h
    obtain ⟨z, hz, hrest⟩ := bind_eq_ok.mp h
    obtain ⟨zs, hzs, hys⟩ := bind_eq_ok.mp hrest
    cases hys
    rcases List.mem_cons.mp hy with rfl | hy
    · exact ⟨x, by simp, hz⟩
    · obtain ⟨w, hw, hwy⟩ := ih hzs hy
      exact ⟨w, List.mem_cons_of_mem _ hw, hwy⟩

/-! ## Numbers -/

/-- The letter that an undefined number is known by does not occur in other numbers. -/
theorem Double.notMem_display {x : Double} (h : x.isNaN = false) : 'a' ∉ x.display := by
  cases x with
  | nan => cases h
  | infinity negative => cases negative <;> decide
  | finite negative m e hc =>
    intro hmem
    exact absurd (figure_of_mem_display rfl hmem) (by decide)

theorem Double.notMem_text {x : Double} (h : x.isNaN = false) : 'a' ∉ x.text.toList := by
  rw [text, String.toList_ofList]
  exact notMem_display h

/-- A text with decimal places has digits and a point. -/
theorem Double.notMem_fixed {x : Double} (h : x.isFinite = true) (places : Nat) :
    'a' ∉ x.fixed places := by
  have hdigits {s : List Char} (hs : Numeral.Digits s) : 'a' ∉ s := fun hmem =>
    absurd (hs.2 _ hmem) (by decide)
  have hwritten := Numeral.digits_digitChars (x.unitsOf places)
  have hmagnitude : 'a' ∉ if places = 0 then digitChars (x.unitsOf places)
      else Decimal.withPoint places (digitChars (x.unitsOf places)) := by
    cases places with
    | zero => exact hdigits hwritten
    | succ places =>
      obtain ⟨whole, fraction, hchars, hwhole, hfraction, -, -⟩ :=
        Decimal.withPoint_eq places hwritten
      rw [if_neg (Nat.succ_ne_zero _), hchars]
      intro hmem
      rcases List.mem_append.mp hmem with hmem | hmem
      · exact hdigits hwhole hmem
      · rcases List.mem_cons.mp hmem with heq | hmem
        · exact absurd heq (by decide)
        · exact hdigits hfraction hmem
  cases x with
  | nan | infinity negative => cases h
  | finite negative m e hc =>
    intro hmem
    rcases List.mem_append.mp hmem with hmem | hmem
    · split at hmem
      · exact absurd (List.mem_singleton.mp hmem) (by decide)
      · cases hmem
    · exact hmagnitude hmem

/-! ## Sums of terms -/

/-- A character of a term stands in one of its numbers, or is its `x`, its power sign or its
minus. -/
theorem Term.of_mem_chars {t : Term} {c : Char} (h : c ∈ t.chars) :
    c ∈ t.coefficient.display ∨ c ∈ t.power.display ∨ c ∈ ['x', '^', '-'] := by
  have hvariable (hmem : c ∈ variableChars t.power) :
      c ∈ t.coefficient.display ∨ c ∈ t.power.display ∨ c ∈ ['x', '^', '-'] := by
    rw [variableChars] at hmem
    split at hmem
    · exact .inr (.inr (List.mem_cons.mpr (.inl (List.mem_singleton.mp hmem))))
    · rcases List.mem_cons.mp hmem with rfl | hmem
      · exact .inr (.inr (by decide))
      · rcases List.mem_cons.mp hmem with rfl | hmem
        · exact .inr (.inr (by decide))
        · exact .inr (.inl hmem)
  rw [chars] at h
  split at h
  · exact .inl h
  · split at h
    · exact hvariable h
    · split at h
      · rcases List.mem_cons.mp h with rfl | h
        · exact .inr (.inr (by decide))
        · exact hvariable h
      · exact (List.mem_append.mp h).elim .inl hvariable

/-- A term whose numbers are defined is shown without an undefined one. -/
theorem Term.notMem_chars {t : Term} (hcoefficient : t.coefficient.isNaN = false)
    (hpower : t.power.isNaN = false) : 'a' ∉ t.chars := by
  intro hmem
  rcases of_mem_chars hmem with hmem | hmem | hmem
  · exact Double.notMem_display hcoefficient hmem
  · exact Double.notMem_display hpower hmem
  · exact absurd hmem (by decide)

/-- A character of a sum stands in one of its terms or between them. -/
theorem Polynomial.of_mem_writeSum {terms : List (List Char)} {c : Char}
    (h : c ∈ writeSum terms) : c ∈ ['0', ' ', '+', '-'] ∨ ∃ t ∈ terms, c ∈ t := by
  simp only [writeSum] at h
  split at h
  · rw [List.mem_singleton.mp h]
    exact .inl (by decide)
  · rcases Text.mem_of_mem_replaceFrom h with hmem | hmem
    · have hminus : ['-', ' '] ⊆ ['0', ' ', '+', '-'] := by simp
      exact .inl (hminus hmem)
    · rcases Text.mem_of_mem_join hmem with hmem | hmem
      · have hplus : [' ', '+', ' '] ⊆ ['0', ' ', '+', '-'] := by simp
        exact .inl (hplus hmem)
      · exact .inr hmem

theorem Polynomial.notMem_writeSum {terms : List (List Char)} (h : ∀ t ∈ terms, 'a' ∉ t) :
    'a' ∉ writeSum terms := by
  intro hmem
  rcases of_mem_writeSum hmem with hmem | ⟨t, ht, hmem⟩
  · exact absurd hmem (by decide)
  · exact h t ht hmem

end Stepwise
