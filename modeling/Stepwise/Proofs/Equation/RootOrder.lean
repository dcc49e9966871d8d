/-
# Roots in any order

The display of roots does not depend on the order in which they were found, nor on the signs of
zeros among them, if all of them are defined or all are undefined.  An undefined root beside a
defined one has no place in the order of display; then the same roots are shown in some order.

* `Roots.rank` : where a defined number stands in the order of display;
* `Roots.insert_comm` : defined numbers can be inserted in any order;
* `Roots.ascending_perm` : numbers that were given in another order;
* `Roots.Alike` : the same roots in another order, up to the signs of zeros;
* `Roots.Agree` : texts that differ at most in the order of an undefined number;
* `Roots.Alike.text_agree`, `Roots.Matches` : roots that are alike are shown alike.
-/
import Mathlib.Data.Prod.Lex
import Stepwise.Equation.Roots
import Stepwise.Proofs.Decimal.Places
import Stepwise.Proofs.Double.Mirrored

namespace Stepwise.Roots

/-! ## The order of display -/

/-- Where a defined number stands in the order of display. -/
def rank : Double → ℕ ×ₗ ℚ
  | .infinity true => toLex (0, 0)
  | .finite s m e hc => toLex (1, (Double.finite s m e hc).value)
  | .infinity false => toLex (2, 0)
  | .nan => toLex (3, 0)

variable {x y : Double}

theorem lt_iff (hx : x.isNaN = false) (hy : y.isNaN = false) :
    x.lt y = true ↔ rank x < rank y := by
  rcases x with _ | ⟨_ | _⟩ | ⟨s, m, e, hc⟩ <;> rcases y with _ | ⟨_ | _⟩ | ⟨t, n, f, hd⟩ <;>
    simp_all [rank, Double.isNaN, Double.lt, Prod.Lex.toLex_lt_toLex]

theorem numericEq_iff (hx : x.isNaN = false) : x.numericEq y = true ↔ rank x = rank y := by
  rcases x with _ | ⟨_ | _⟩ | ⟨s, m, e, hc⟩ <;> rcases y with _ | ⟨_ | _⟩ | ⟨t, n, f, hd⟩ <;>
    simp_all [rank, Double.isNaN, Double.numericEq]

/-- Only zeros share their place. -/
theorem same_of_rank_eq (h : rank x = rank y) : x.Same y := by
  rcases x with _ | ⟨_ | _⟩ | ⟨s, m, e, hc⟩ <;> rcases y with _ | ⟨_ | _⟩ | ⟨t, n, f, hd⟩ <;>
    simp [rank] at h <;> first | exact .refl _ | skip
  exact Double.Represents.same ⟨rfl, h⟩ ⟨rfl, rfl⟩

theorem eq_nan (h : x.isNaN = true) : x = .nan := by
  cases x with
  | nan => rfl
  | infinity negative | finite negative m e hc => cases h

theorem lt_nan (x : Double) : x.lt .nan = false := by cases x <;> rfl

theorem numericEq_nan (x : Double) : x.numericEq .nan = false := by cases x <;> rfl

theorem insert_nan_cons (x : Double) (zs : List Double) :
    insert x (.nan :: zs) = .nan :: insert x zs := by
  rw [insert, lt_nan, numericEq_nan, if_neg Bool.false_ne_true, if_neg Bool.false_ne_true]

/-- **Defined numbers can be inserted in any order.** -/
theorem insert_comm (hx : x.isNaN = false) (hy : y.isNaN = false) (hne : rank x ≠ rank y)
    (zs : List Double) : insert x (insert y zs) = insert y (insert x zs) := by
  -- In terms of ranks, each step compares the two numbers with each other and with the first entry.
  induction zs with
  | nil =>
    simp only [insert, lt_iff hx hy, lt_iff hy hx, numericEq_iff hx, numericEq_iff hy]
    grind
  | cons z zs ih =>
    cases hz : z.isNaN with
    | true =>
      obtain rfl := eq_nan hz
      simp only [insert_nan_cons, ih]
    | false =>
      simp only [insert, lt_iff hx hz, lt_iff hy hz, numericEq_iff hx, numericEq_iff hy]
      grind [insert, lt_iff, numericEq_iff]

end Stepwise.Roots

namespace Stepwise.Double

/-! ## Rounded roots -/

variable {places : Int} {x y : Double}

/-- Zero has no digits at any place. -/
theorem unitsOf_zero (places : Int) (s : Bool) : (zero s).unitsOf places = 0 := by
  rw [unitsOf, value_abs, value_zero, abs_zero]
  refine roundDivision_eq_of_near (scaleQuotient_pos (Rat.den_pos 0) places) ?_
  rw [scaleQuotient_div]
  norm_num

theorem roundPlaces_zero (places : Int) (s : Bool) :
    (zero s).roundPlaces places = .ok (zero s) := by
  have hround : ofDecimal s ((zero s).unitsOf places) (-places) = zero s := by
    rw [unitsOf_zero]
    cases -places with
    | ofNat k => rw [ofDecimal, Nat.zero_mul]; rfl
    | negSucc k => rfl
  change (if mostPlaces < places then Except.ok (zero s)
    else if places < fewestPlaces then .ok (zero s)
    else if (ofDecimal s ((zero s).unitsOf places) (-places)).isFinite then
      .ok (ofDecimal s ((zero s).unitsOf places) (-places))
    else .error Breakdown.overflow) = _
  rw [hround, show (zero s).isFinite = true from rfl, if_pos rfl]
  split_ifs <;> rfl

theorem roundForDisplay_eq (places : Int) (x : Double) :
    x.roundForDisplay places = (x.roundPlaces places).map shown :=
  congrArg (Except.map · _) (funext add_zero_eq_shown)

/-- Rounding for display does not tell the zeros apart. -/
theorem Same.roundForDisplay_eq (h : Same x y) (places : Int) :
    x.roundForDisplay places = y.roundForDisplay places := by
  refine h.map_eq fun s t => ?_
  rw [Double.roundForDisplay_eq, Double.roundForDisplay_eq, roundPlaces_zero, roundPlaces_zero]
  rfl

/-- A zero that is displayed is positive. -/
theorem shown_of_roundForDisplay (h : x.roundForDisplay places = .ok y) : y.shown = y := by
  rw [Double.roundForDisplay_eq] at h
  cases hrounded : x.roundPlaces places with
  | error b =>
    rw [hrounded] at h
    cases h
  | ok z =>
    rw [hrounded] at h
    cases h
    exact shown_shown z

/-- There is only one way in which rounding breaks down. -/
theorem overflow_of_roundForDisplay {b : Breakdown} (h : x.roundForDisplay places = .error b) :
    b = .overflow := by
  rw [roundForDisplay] at h
  have hplaces : x.roundPlaces places = .error b := by
    cases hrounded : x.roundPlaces places with
    | error b' =>
      rw [hrounded] at h
      exact congrArg Except.error (Except.error.inj h)
    | ok z =>
      rw [hrounded] at h
      cases h
  cases x with
  | nan | infinity negative => cases hplaces
  | finite negative m e hc =>
    simp only [roundPlaces] at hplaces
    split_ifs at hplaces
    exact (Except.error.inj hplaces).symm

end Stepwise.Double

namespace Stepwise.Roots

variable {x y : Double} {xs ys : List Double}

/-- Roots are rounded one by one; they break down together. -/
theorem mapM_round_eq (places : Int) (xs : List Double) :
    xs.mapM (Double.roundForDisplay places) =
      if xs.all fun x => (x.roundForDisplay places).isOk then
        .ok (xs.filterMap fun x => (x.roundForDisplay places).toOption)
      else .error .overflow := by
  induction xs with
  | nil => rfl
  | cons x xs ih =>
    rw [List.mapM_cons, ih, List.all_cons, List.filterMap_cons]
    cases hx : x.roundForDisplay places with
    | error b =>
      obtain rfl := Double.overflow_of_roundForDisplay hx
      rfl
    | ok u => cases xs.all fun x => (x.roundForDisplay places).isOk <;> rfl

/-! ## Numbers given in another order -/

/-- Numbers for display are equal only if they are the same. -/
theorem numericEq_iff_eq (hx : x.isNaN = false) (hxshown : x.shown = x) (hyshown : y.shown = y) :
    y.numericEq x = true ↔ y = x := by
  constructor
  · intro h
    have hy : y.isNaN = false := by
      cases y <;> first | rfl | cases h
    exact (same_of_rank_eq ((numericEq_iff hy).mp h)).eq_of_shown hyshown hxshown
  · rintro rfl
    exact (numericEq_iff hx).mpr rfl

/-- Of numbers for display, those that are undefined are all kept, and the others once. -/
theorem count_eraseDupsBy (hshown : ∀ x ∈ xs, x.shown = x) (z : Double) :
    (xs.eraseDupsBy Double.numericEq).count z =
      if z.isNaN then xs.count z else min 1 (xs.count z) := by
  induction hn : xs.length using Nat.strong_induction_on generalizing xs with
  | _ n ih =>
    cases xs with
    | nil => simp
    | cons x xs =>
      rw [List.forall_mem_cons] at hshown
      have hkept := ih (xs.filter fun y => y.numericEq x = false).length
        (by grind [List.length_filter_le]) (fun y hy => hshown.2 y (List.mem_of_mem_filter hy)) rfl
      rw [List.eraseDupsBy_cons, List.count_cons, hkept, List.count_cons]
      cases hx : x.isNaN with
      | true =>
        -- Nothing is dropped for an undefined number.
        obtain rfl := eq_nan hx
        have hall : (xs.filter fun y => y.numericEq .nan = false) = xs := by
          simp [numericEq_nan]
        rw [hall]
        cases z <;> simp [Double.isNaN]
      | false =>
        have hothers : (xs.filter fun y => y.numericEq x = false) = xs.filter (· ≠ x) := by
          refine List.filter_congr fun y hy => ?_
          rw [decide_eq_decide, ← Bool.not_eq_true, numericEq_iff_eq hx hshown.1 (hshown.2 y hy)]
        rw [hothers]
        by_cases hz : z = x
        · subst hz
          simp [hx, List.count_eq_zero]
        · rw [List.count_filter (by simpa using hz)]
          simp [Ne.symm hz]

/-- What is listed for numbers in another order is the same, in some order. -/
theorem list_perm (h : xs.Perm ys) (hshown : ∀ x ∈ xs, x.shown = x) (A B : Arrangement) :
    (A.list (xs.eraseDupsBy Double.numericEq)).Perm
      (B.list (ys.eraseDupsBy Double.numericEq)) := by
  have hkept : (xs.eraseDupsBy Double.numericEq).Perm (ys.eraseDupsBy Double.numericEq) := by
    refine List.perm_iff_count.mpr fun z => ?_
    rw [count_eraseDupsBy hshown, count_eraseDupsBy fun y hy => hshown y (h.mem_iff.mpr hy),
      h.count_eq]
  exact (A.perm _).trans (hkept.trans (B.perm _).symm)

/-- What is kept has been there. -/
theorem mem_of_mem_eraseDupsBy (h : y ∈ xs.eraseDupsBy Double.numericEq) : y ∈ xs := by
  induction hn : xs.length using Nat.strong_induction_on generalizing xs with
  | _ n ih =>
    cases xs with
    | nil => simp at h
    | cons x xs =>
      rw [List.eraseDupsBy_cons] at h
      rcases List.mem_cons.mp h with rfl | h
      · exact List.mem_cons_self
      · have hkept := ih _ (by grind [List.length_filter_le]) h rfl
        exact List.mem_cons_of_mem x (List.mem_of_mem_filter hkept)

theorem ascending_of_defined (h : ∀ x ∈ xs, x.isNaN = false) (A : Arrangement) :
    ascending A xs = xs.foldl (fun sorted x => insert x sorted) [] := by
  have hnone : xs.any Double.isNaN = false := by simpa using h
  rw [ascending, hnone, if_neg Bool.false_ne_true]

theorem ascending_of_undefined (h : ∃ x ∈ xs, x.isNaN = true) (A : Arrangement) :
    ascending A xs = A.list (xs.eraseDupsBy Double.numericEq) := by
  rw [ascending, if_pos (List.any_eq_true.mpr h)]

theorem mem_of_mem_insert (h : y ∈ insert x xs) :
    y = x ∨ y ∈ xs := by
  induction xs with
  | nil => exact .inl (List.mem_singleton.mp h)
  | cons z xs ih =>
    rw [insert] at h
    split at h
    · exact List.mem_cons.mp h
    · split at h
      · exact .inr h
      · rcases List.mem_cons.mp h with rfl | h
        · exact .inr List.mem_cons_self
        · exact (ih h).imp_right (List.mem_cons_of_mem _)

theorem mem_of_mem_foldl_insert {sorted : List Double}
    (h : y ∈ xs.foldl (fun sorted x => insert x sorted) sorted) : y ∈ sorted ∨ y ∈ xs := by
  induction xs generalizing sorted with
  | nil => exact .inl h
  | cons x xs ih =>
    rcases ih h with h | h
    · rcases mem_of_mem_insert h with rfl | h
      · exact .inr List.mem_cons_self
      · exact .inl h
    · exact .inr (List.mem_cons_of_mem _ h)

/-- What is displayed has been given. -/
theorem mem_of_mem_ascending {A : Arrangement} (h : y ∈ ascending A xs) : y ∈ xs := by
  rw [ascending] at h
  split at h
  · exact mem_of_mem_eraseDupsBy ((A.perm _).mem_iff.mp h)
  · exact (mem_of_mem_foldl_insert h).resolve_left List.not_mem_nil

theorem insert_ne_nil (x : Double) (zs : List Double) : insert x zs ≠ [] := by
  cases zs with
  | nil => simp [insert]
  | cons z zs =>
    unfold insert
    split
    · simp
    · split <;> simp

/-- Something is displayed if anything has been given. -/
theorem ascending_ne_nil {A : Arrangement} (h : xs ≠ []) : ascending A xs ≠ [] := by
  rw [ascending]
  split
  · intro hnil
    have hempty := (A.perm _).symm.trans (.of_eq hnil)
    obtain ⟨x, zs, rfl⟩ := List.exists_cons_of_ne_nil h
    rw [List.eraseDupsBy_cons] at hempty
    exact List.cons_ne_nil _ _ hempty.eq_nil
  · obtain ⟨first, last, rfl⟩ := List.eq_nil_or_concat xs |>.resolve_left h
    rw [List.concat_eq_append, List.foldl_append]
    exact insert_ne_nil _ _

/-- Some of the numbers are undefined and others are not. -/
structure Mixed (xs : List Double) : Prop where
  undefined : ∃ x ∈ xs, x.isNaN = true
  defined : ∃ x ∈ xs, x.isNaN = false

/-- **Numbers given in another order** are displayed in the same order, unless some of them are
undefined and others are not. -/
theorem ascending_perm (h : xs.Perm ys) (hshown : ∀ x ∈ xs, x.shown = x) (A B : Arrangement) :
    ascending A xs = ascending B ys ∨
      Mixed (ascending A xs) ∧ (ascending A xs).Perm (ascending B ys) := by
  by_cases hundefined : ∃ x ∈ xs, x.isNaN = true
  · have hundefined' : ∃ y ∈ ys, y.isNaN = true := by simpa [h.mem_iff] using hundefined
    rw [ascending_of_undefined hundefined, ascending_of_undefined hundefined']
    have hperm := list_perm h hshown A B
    have hmem {z : Double} (hz : z ∈ xs) : z ∈ A.list (xs.eraseDupsBy Double.numericEq) := by
      rw [(A.perm _).mem_iff, ← List.count_pos_iff, count_eraseDupsBy hshown]
      have hpos := List.count_pos_iff.mpr hz
      split <;> omega
    by_cases hdefined : ∃ x ∈ xs, x.isNaN = false
    · obtain ⟨x, hx, hxnan⟩ := hundefined
      obtain ⟨y, hy, hynan⟩ := hdefined
      exact .inr ⟨⟨⟨x, hmem hx, hxnan⟩, ⟨y, hmem hy, hynan⟩⟩, hperm⟩
    · -- All of them are the one undefined number.
      have hall : ∀ z ∈ B.list (ys.eraseDupsBy Double.numericEq), z = .nan := by
        intro z hz
        have hmem : z ∈ xs := h.mem_iff.mpr (mem_of_mem_eraseDupsBy ((B.perm _).mem_iff.mp hz))
        exact eq_nan (by simpa using fun hz => hdefined ⟨z, hmem, hz⟩)
      rw [List.eq_replicate_of_mem hall] at hperm ⊢
      exact .inl (List.perm_replicate.mp hperm)
  · have hxs : ∀ x ∈ xs, x.isNaN = false := by simpa using hundefined
    rw [ascending_of_defined hxs, ascending_of_defined fun y hy => hxs y (h.mem_iff.mpr hy)]
    refine .inl (h.foldl_eq' (fun x hx y hy zs => ?_) [])
    by_cases hrank : rank x = rank y
    · rw [(same_of_rank_eq hrank).eq_of_shown (hshown x hx) (hshown y hy)]
    · exact insert_comm (hxs y hy) (hxs x hx) (Ne.symm hrank) zs

/-! ## Texts that agree -/

/-- Two texts list the same numbers, of which some are undefined and others are not. -/
def Rearranged (s t : String) : Prop :=
  ∃ xs ys : List Double, xs.Perm ys ∧ Mixed xs ∧ write xs = .ok s ∧ write ys = .ok t

/-- Two outcomes are the same, or texts of the same numbers whose order is left open. -/
inductive Agree {ε : Type} : Except ε String → Except ε String → Prop
  | same (outcome : Except ε String) : Agree outcome outcome
  | rearranged {s t : String} (h : Rearranged s t) : Agree (.ok s) (.ok t)

/-- Several numbers have a text. -/
theorem exists_write_of_mixed (h : Mixed xs) : ∃ s, write xs = .ok s := by
  obtain ⟨⟨x, hx, hxnan⟩, -⟩ := h
  cases xs with
  | nil => cases hx
  | cons z zs => cases zs <;> exact ⟨_, rfl⟩

theorem Agree.liftBreakdown {o o' : Except Breakdown String} (h : Agree o o') :
    Agree (liftBreakdown o) (liftBreakdown o') := by
  cases h with
  | same => exact .same _
  | rearranged h => exact .rearranged h

/-- Roots in another order have texts that agree. -/
theorem text_perm (h : xs.Perm ys) (places : Int) (A B : Arrangement) :
    Agree (text places xs A) (text places ys B) := by
  rw [text, text, mapM_round_eq, mapM_round_eq, h.all_eq]
  split
  · have hshown : ∀ u ∈ xs.filterMap fun x => (x.roundForDisplay places).toOption,
        u.shown = u := by
      intro u hu
      obtain ⟨x, -, hx⟩ := List.mem_filterMap.mp hu
      cases hround : x.roundForDisplay places with
      | error b =>
        rw [hround] at hx
        cases hx
      | ok v =>
        rw [hround] at hx
        cases hx
        exact Double.shown_of_roundForDisplay hround
    show Agree (write (ascending A _)) (write (ascending B _))
    rcases ascending_perm (h.filterMap _) hshown A B with heq | ⟨hmixed, hperm⟩
    · rw [heq]
      exact .same _
    · obtain ⟨s, hs⟩ := exists_write_of_mixed hmixed
      obtain ⟨t, ht⟩ := exists_write_of_mixed
        ⟨by simpa [hperm.mem_iff] using hmixed.1, by simpa [hperm.mem_iff] using hmixed.2⟩
      rw [hs, ht]
      exact .rearranged ⟨_, _, hperm, hmixed, hs, ht⟩
  · exact .same _

/-! ## Roots that are alike -/

/-- The signs of zeros do not show. -/
theorem text_of_same (h : List.Forall₂ Double.Same xs ys) (places : Int) (A : Arrangement) :
    text places xs A = text places ys A := by
  have hround : xs.mapM (Double.roundForDisplay places) =
      ys.mapM (Double.roundForDisplay places) := by
    induction h with
    | nil => rfl
    | cons hxy _ ih => rw [List.mapM_cons, List.mapM_cons, hxy.roundForDisplay_eq, ih]
  rw [text, text, hround]

/-- The same roots up to the signs of zeros, in another order if the switch is on. -/
def Alike (s : Bool) (xs ys : List Double) : Prop :=
  ∃ zs, xs.Perm zs ∧ (s = false → xs = zs) ∧ List.Forall₂ Double.Same zs ys

namespace Alike

variable {s : Bool}

theorem nil : Alike s [] [] := ⟨[], .nil, fun _ => rfl, .nil⟩

theorem cons (hxy : x.Same y) (h : Alike s xs ys) : Alike s (x :: xs) (y :: ys) := by
  obtain ⟨zs, hperm, heq, hsame⟩ := h
  exact ⟨x :: zs, hperm.cons x, fun hs => by rw [heq hs], .cons hxy hsame⟩

theorem swap {x x' y y' : Double} (hx : x.Same x') (hy : y.Same y') :
    Alike true [x, y] [y', x'] :=
  ⟨[y, x], .swap y x [], nofun, .cons hy (.cons hx .nil)⟩

theorem isEmpty_eq (h : Alike s xs ys) : xs.isEmpty = ys.isEmpty := by
  obtain ⟨zs, hperm, -, hsame⟩ := h
  rw [Bool.eq_iff_iff, List.isEmpty_iff_length_eq_zero, List.isEmpty_iff_length_eq_zero,
    hperm.length_eq, hsame.length_eq]

/-- **Roots that are alike are shown alike**, whatever is left to the machine. -/
theorem text_agree (h : Alike s xs ys) (places : Int) (A B : Arrangement) :
    Agree (text places xs A) (text places ys B) := by
  obtain ⟨zs, hperm, -, hsame⟩ := h
  rw [← text_of_same hsame]
  exact text_perm hperm places A B

/-- Roots in the same order are shown alike. -/
theorem text_eq (h : Alike false xs ys) (places : Int) (A : Arrangement) :
    text places xs A = text places ys A := by
  obtain ⟨zs, -, heq, hsame⟩ := h
  rw [heq rfl, text_of_same hsame]

end Alike

/-- The outcomes agree; they are the same if nothing has changed places and the arrangement is the
same. -/
structure Matches {ε : Type} (s : Bool) (A B : Arrangement) (o o' : Except ε String) : Prop where
  agree : Agree o o'
  eq : s = false → A = B → o = o'

namespace Matches

variable {ε : Type} {s : Bool} {A B : Arrangement}

theorem same (s : Bool) (A B : Arrangement) (o : Except ε String) : Matches s A B o o :=
  ⟨.same o, fun _ _ => rfl⟩

theorem text (h : Alike s xs ys) (places : Int) (A B : Arrangement) :
    Matches s A B (text places xs A) (text places ys B) := by
  refine ⟨h.text_agree places A B, ?_⟩
  rintro rfl rfl
  exact h.text_eq places A

theorem liftBreakdown {o o' : Except Breakdown String} (h : Matches s A B o o') :
    Matches s A B (liftBreakdown o) (liftBreakdown o') :=
  ⟨h.agree.liftBreakdown, fun hs hA => congrArg _ (h.eq hs hA)⟩

end Matches

end Stepwise.Roots
