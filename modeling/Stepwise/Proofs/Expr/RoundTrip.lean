/-
# Written and read again

An expression that was read from a text is read from its own text again, as the same tree, if its
numbers are ordinary: finite, not the negative zero, and of a size that is shown without an
exponent.  No parentheses are added when an expression is written; that none are needed is owed to
the places at which the reading of a text can put a node.

* `Double.Ordinary` : the numbers that are shown as they are;
* `Expr.numbers` : the numbers of an expression;
* `Expr.read_text` : reading what was written.
-/
import Stepwise.Proofs.Decimal.Positional
import Stepwise.Proofs.Derivation.Value
import Stepwise.Proofs.Expr.Text

namespace Stepwise

/-! ## Ordinary numbers -/

/-- A number that is shown positionally and with its own sign. -/
structure Double.Ordinary (x : Double) : Prop where
  isFinite : x.isFinite = true
  ne_negativeZero : x ≠ .zero true
  size : x.value = 0 ∨ (10 : ℚ) ^ (-4 : ℤ) ≤ |x.value| ∧ |x.value| < 10 ^ 16

instance : DecidablePred Double.Ordinary := fun x =>
  decidable_of_iff (x.isFinite = true ∧ x ≠ .zero true ∧
      (x.value = 0 ∨ (10 : ℚ) ^ (-4 : ℤ) ≤ |x.value| ∧ |x.value| < 10 ^ 16))
    ⟨fun ⟨hfinite, hzero, hsize⟩ => ⟨hfinite, hzero, hsize⟩,
      fun ⟨hfinite, hzero, hsize⟩ => ⟨hfinite, hzero, hsize⟩⟩

/-- An ordinary number is shown as it is. -/
theorem Double.Ordinary.shown_eq {x : Double} (h : x.Ordinary) : x.shown = x := by
  rw [Double.shown]
  split
  · next hzero =>
    obtain ⟨s, rfl⟩ := Double.eq_zero_of_isZero hzero
    cases s with
    | true => exact absurd rfl h.ne_negativeZero
    | false => rfl
  · rfl

namespace Expr

/-- The numbers of the literals and percentages, from left to right. -/
def numbers : Expr → List Double
  | literal value => [value]
  | constant _ => []
  | percent value => [value]
  | negation operand => operand.numbers
  | binary _ left right => left.numbers ++ right.numbers
  | call _ argument => argument.numbers
  | group inner => inner.numbers

theorem shown_eq_self {e : Expr} (h : ∀ x ∈ e.numbers, x.Ordinary) : e.shown = e := by
  induction e with
  | literal value | percent value =>
    rw [shown, (h value (List.mem_singleton_self value)).shown_eq]
  | constant name => rfl
  | negation operand ih | call f operand ih | group operand ih => rw [shown, ih h]
  | binary op left right ihLeft ihRight =>
    obtain ⟨hleft, hright⟩ := List.forall_mem_append.mp h
    rw [shown, ihLeft hleft, ihRight hright]

theorem lettered_eq_zero {e : Expr} (h : ∀ x ∈ e.numbers, x.Ordinary) : e.lettered = 0 := by
  induction e with
  | literal value | percent value =>
    have hvalue := h value (List.mem_singleton_self value)
    exact if_pos (Double.plain_of_size hvalue.isFinite hvalue.size)
  | constant name => rfl
  | negation operand ih | call f operand ih | group operand ih => exact ih h
  | binary op left right ihLeft ihRight =>
    obtain ⟨hleft, hright⟩ := List.forall_mem_append.mp h
    rw [lettered, ihLeft hleft, ihRight hright]

/-! ## The round trip -/

/-- **What was read and is written is read as the same expression**, if its numbers are
ordinary. -/
theorem read_text {text : String} {e : Expr} (hread : read text = .ok e)
    (hnumbers : ∀ x ∈ e.numbers, x.Ordinary) : read e.text = .ok e := by
  obtain ⟨d, rfl⟩ := Phrase.exists_of_ofChars hread
  -- A number that was read has no sign, and a folded minus is not put before a power.
  have hunsigned : d.tree.Unsigned .sum := d.keeps Unsigned.closed
  have hlegible : d.tree.Legible .sum := legible_iff.mpr ⟨lettered_eq_zero hnumbers, hunsigned⟩
  rw [read, Expr.text, String.toList_ofList, ofChars_chars d.fits_tree hlegible,
    shown_eq_self hnumbers]

/-- An implicit product, a signed exponent and a folded minus. -/
theorem read_text_signed : ∃ e, read "2^-3 - -0.5(50% + pi)" = .ok e ∧
    e.text = "2 ^ -3 - -0.5 * (50% + pi)" ∧ read e.text = .ok e := by
  obtain ⟨e, he⟩ : ∃ e : Expr, e = binary .sub (binary .pow (literal 2) (literal (.ofInt (-3))))
      (binary .mul (literal (.ofDecimal true 5 (-1)))
        (group (binary .add (percent 50) (constant .pi)))) := ⟨_, rfl⟩
  have hread : read "2^-3 - -0.5(50% + pi)" = .ok e := by
    rw [he]
    exact eq_ok_of_toOption (by decide +kernel)
  refine ⟨e, hread, ?_, read_text hread ?_⟩
  · rw [he]
    decide +kernel
  · rw [he]
    decide +kernel

end Expr

end Stepwise
