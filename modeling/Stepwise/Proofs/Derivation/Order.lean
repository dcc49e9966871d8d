/-
# Phases in any order

The usual order of the phases is the one that leaves a number in the end.  The value does not depend
on it: whichever phases are run, how often and in which order, none of them fails on an expression
that has a value, and every tree on the way has the value of the expression.

* `Derivation.Sound.apply` : what a single phase preserves;
* `Derivation.Sound.foldl` : what a run of phases preserves;
* `value_of_phases` : runs of phases from an expression that has been read.
-/
import Stepwise.Proofs.Derivation.Value

namespace Stepwise

variable {ops : Operations}

namespace Derivation

variable {e : Expr} {d : Derivation}

/-- A single phase loses nothing, whatever was run before it.  Nothing is assumed to be gone from
the tree, so that inner derivations have to be right on every tree that keeps to the precedences. -/
theorem Sound.apply (h : d.Sound ops e []) {inner : Expr → Except Failure Reduced}
    (hinner : ∀ n : Expr, n.Fits .sum → Settles ops inner n) (phase : Phase) :
    (phase.apply ops inner d).Sound ops e [] := by
  have hanything {gone : List Expr.Kind} {d' : Derivation} (h' : d'.Sound ops e gone) :
      d'.Sound ops e [] := h'.exchange fun _ => List.forall_mem_nil _
  cases phase with
  | constants => exact hanything (h.apply_constants inner)
  | percentages => exact hanything (h.apply_percentages inner (.inr ⟨by simp, by simp⟩))
  | calls => exact hanything (h.apply_calls inner fun _ n hfits _ => hinner n hfits)
  | groups => exact hanything (h.apply_groups inner fun _ n hfits _ => hinner n hfits)
  | fold operators title =>
    exact h.unlessFailed fun hnone =>
      (h.reduceOperators_any hnone operators title (Nat.le_refl _)).1

/-- A run of phases loses nothing. -/
theorem Sound.foldl (h : d.Sound ops e []) {inner : Expr → Except Failure Reduced}
    (hinner : ∀ n : Expr, n.Fits .sum → Settles ops inner n) (phases : List Phase) :
    (phases.foldl (Phase.apply ops inner) d).Sound ops e [] := by
  induction phases generalizing d with
  | nil => exact h
  | cons phase phases ih => exact ih (h.apply hinner phase)

/-- What loses nothing has not failed on an expression with a value, and has reached that value. -/
theorem Sound.value_eq (h : d.Sound ops e []) {v : Double} (hvalue : e.value ops = .ok v) :
    d.failure = none ∧ d.tree.value ops = .ok v := by
  obtain ⟨x, hx, -⟩ := bind_eq_ok.mp hvalue
  have hnone : d.failure = none := Decidable.of_not_not fun hfailed => h.noValue hfailed x hx
  refine ⟨hnone, ?_⟩
  rw [Expr.value, h.value hnone]
  exact hvalue

end Derivation

/-- **The order of the phases does not matter for the value.**  From an expression that has been
read and has a value, any phases can be run in any order and any number of times; none of them
fails, and the tree after them has the value.  Derivations of arguments and of the contents of
groups may be nested three levels deep, as in `Expr.reduce`, or deeper. -/
theorem value_of_phases (ops : Operations) {text : String} {e : Expr} {v : Double}
    (hread : Expr.read text = .ok e) (hvalue : e.value ops = .ok v) (depth : Nat)
    (phases : List Phase) :
    (phases.foldl (Phase.apply ops (Expr.reduceTo ops (depth + 3))) { tree := e }).failure = none ∧
      (phases.foldl (Phase.apply ops (Expr.reduceTo ops (depth + 3))) { tree := e }).tree.value ops
        = .ok v := by
  obtain ⟨phrase, rfl⟩ := Phrase.exists_of_ofChars hread
  have hstart : Derivation.Sound ops phrase.tree [] { tree := phrase.tree } :=
    .start phrase.fits_tree (List.forall_mem_nil _)
  exact (hstart.foldl (fun n hfits => Expr.settles_of_fits depth hfits) phases).value_eq hvalue

/-- Sums first, then groups, percentages and the root of `50%+sqrt(3+1)*2`, which is `4.5`. -/
theorem value_of_phases_mixed : ∃ e, Expr.read "50%+sqrt(3+1)*2" = .ok e ∧
    e.value (standardOperations 170) = .ok (Double.ofDecimal false 45 (-1)) ∧
    ([Phase.fold [.add] "Sums", .groups, .percentages, .calls, .groups].foldl
      (Phase.apply (standardOperations 170) (Expr.reduce (standardOperations 170)))
      { tree := e }).tree.value (standardOperations 170) =
        .ok (Double.ofDecimal false 45 (-1)) := by
  have hread : Expr.read "50%+sqrt(3+1)*2" = .ok (.binary .add (.percent 50)
      (.binary .mul (.call .sqrt (.binary .add (.literal 3) (.literal 1))) (.literal 2))) := rfl
  have hvalue : (Expr.binary .add (.percent 50)
      (.binary .mul (.call .sqrt (.binary .add (.literal 3) (.literal 1))) (.literal 2))).value
        (standardOperations 170) = .ok (Double.ofDecimal false 45 (-1)) :=
    eq_ok_of_toOption (by decide +kernel)
  exact ⟨_, hread, hvalue, (value_of_phases _ hread hvalue 0 _).2⟩

end Stepwise
