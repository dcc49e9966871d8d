/-
# The list of candidates

The candidates for a rational root are all rounded quotients of divisors: each magnitude once, in
ascending order, the positive number before its opposite.  The same list comes about when the
quotients of all signed divisors are formed in turn, repetitions are dropped where they occur for a
second time, and the rest is sorted by magnitude without disturbing what is equally large.

* `pairwise_eraseReps`, `nodup_eraseDups` : two ways to drop repetitions;
* `Cubic.magnitudes`, `Cubic.magnitudes_sorted` : the magnitudes of the candidates;
* `Cubic.formed`, `Cubic.Led`, `Cubic.led_formed` : quotients in the order in which they are formed,
  and why a positive one comes before its opposite;
* `Cubic.candidates_eq_sorted` : the two ways to the list;
* `Cubic.Before`, `Cubic.firstRoot?_eq_some_iff` : which candidate a search yields;
* `Cubic.candidates_ordered` : the list as a whole.
-/
import Stepwise.Proofs.Equation.Overflow

namespace Stepwise

/-! ## Repetitions -/

section Repetitions

variable {α : Type}

section Reps

variable [BEq α]

/-- What has been kept stays in front. -/
theorem eraseRepsBy_loop_eq (x : α) (list kept : List α) :
    List.eraseRepsBy.loop (· == ·) x list kept =
      kept.reverse ++ List.eraseRepsBy.loop (· == ·) x list [] := by
  induction list generalizing x kept with
  | nil => simp [List.eraseRepsBy.loop]
  | cons y list ih =>
    simp only [List.eraseRepsBy.loop]
    split
    · exact ih x kept
    · rw [ih y (x :: kept), ih y [x]]
      simp

theorem eraseReps_cons_cons (x y : α) (list : List α) :
    (x :: y :: list).eraseReps =
      if x == y then (x :: list).eraseReps else x :: (y :: list).eraseReps := by
  show List.eraseRepsBy.loop (· == ·) x (y :: list) [] = _
  rw [List.eraseRepsBy.loop]
  cases x == y with
  | true => rfl
  | false => exact eraseRepsBy_loop_eq y list [x]

/-- **In a sorted list, neighbours are the only repetitions.** -/
theorem pairwise_eraseReps [LawfulBEq α] {r : α → α → Prop} {list : List α} (h : list.Pairwise r)
    (hantisymm : ∀ x ∈ list, ∀ y ∈ list, r x y → r y x → x = y) :
    list.eraseReps.Pairwise fun x y => r x y ∧ x ≠ y := by
  induction list with
  | nil => exact .nil
  | cons x list ih =>
    cases list with
    | nil => exact List.pairwise_singleton _ _
    | cons y list =>
      rw [eraseReps_cons_cons]
      split
      · next heq =>
        -- The first of two equal entries can be dropped instead of the second.
        rw [eq_of_beq heq]
        exact ih h.tail fun u hu v hv =>
          hantisymm u (List.mem_cons_of_mem _ hu) v (List.mem_cons_of_mem _ hv)
      · next hne =>
        have hne : x ≠ y := by simpa using hne
        obtain ⟨hx, hrest⟩ := List.pairwise_cons.mp h
        have hxy : r x y := hx y List.mem_cons_self
        refine List.pairwise_cons.mpr ⟨fun z hz => ?_, ih hrest fun u hu v hv =>
          hantisymm u (List.mem_cons_of_mem _ hu) v (List.mem_cons_of_mem _ hv)⟩
        have hz := mem_eraseReps.mp hz
        refine ⟨hx z hz, ?_⟩
        rintro rfl
        rcases List.mem_cons.mp hz with rfl | hmem
        · exact hne rfl
        · exact hne (hantisymm x List.mem_cons_self y (by simp) hxy
            ((List.pairwise_cons.mp hrest).1 x hmem))

end Reps

section Dups

variable [BEq α] [LawfulBEq α]

theorem nodup_eraseDups (list : List α) : list.eraseDups.Nodup := by
  induction hlength : list.length using Nat.strong_induction_on generalizing list with
  | _ n ih =>
    cases list with
    | nil => exact .nil
    | cons x list =>
      rw [List.eraseDups_cons, List.nodup_cons, List.mem_eraseDups]
      refine ⟨by simp, ih _ ?_ _ rfl⟩
      rw [← hlength, List.length_cons]
      exact Nat.lt_succ_of_le (List.length_filter_le _ _)

/-- What stands before the first occurrence of an entry stays before it. -/
theorem pair_sublist_eraseDups {x y : α} {before after : List α} (hx : x ∈ before)
    (hy : y ∉ before) : [x, y].Sublist (before ++ y :: after).eraseDups := by
  have hrest : (y :: after).removeAll before = y :: after.removeAll before := by
    rw [List.cons_removeAll, if_pos (by simpa using hy)]
  rw [List.eraseDups_append, hrest, List.eraseDups_cons]
  have hsingle : [x].Sublist before.eraseDups :=
    List.singleton_sublist.mpr (List.mem_eraseDups.mpr hx)
  exact hsingle.append ((List.nil_sublist _).cons_cons y)

omit [LawfulBEq α] in
/-- Repetitions are the same for all relations that agree with equality on the entries. -/
theorem eraseDupsBy_eq_eraseDups {r : α → α → Bool} {list : List α}
    (h : ∀ x ∈ list, ∀ y ∈ list, r x y = (x == y)) : list.eraseDupsBy r = list.eraseDups := by
  induction hlength : list.length using Nat.strong_induction_on generalizing list with
  | _ n ih =>
    cases list with
    | nil => rfl
    | cons x list =>
      have hfilter : list.filter (fun y => decide (r y x = false)) =
          list.filter fun y => !(y == x) := by
        refine List.filter_congr fun y hy => ?_
        rw [h y (List.mem_cons_of_mem x hy) x List.mem_cons_self]
        cases y == x <;> rfl
      rw [List.eraseDupsBy_cons, List.eraseDups_cons, hfilter]
      refine congrArg (x :: ·) (ih _ ?_ (fun u hu v hv => ?_) rfl)
      · rw [← hlength, List.length_cons]
        exact Nat.lt_succ_of_le (List.length_filter_le _ _)
      · exact h u (List.mem_cons_of_mem x (List.mem_of_mem_filter hu)) v
          (List.mem_cons_of_mem x (List.mem_of_mem_filter hv))

end Dups

/-- Without repetitions, two entries stand in one order only. -/
theorem not_pair_sublist_swap {x y : α} {list : List α} (hnodup : list.Nodup)
    (h : [x, y].Sublist list) : ¬ [y, x].Sublist list := by
  induction list with
  | nil => cases h
  | cons z list ih =>
    obtain ⟨hz, hrest⟩ := List.nodup_cons.mp hnodup
    intro h'
    cases h with
    | cons _ h =>
      cases h' with
      | cons _ h' => exact ih hrest h h'
      | cons_cons _ h' => exact hz (h.subset (by simp))
    | cons_cons _ h =>
      cases h' with
      | cons _ h' => exact hz (h'.subset (by simp))
      | cons_cons _ h' => exact hz (List.singleton_sublist.mp h)

end Repetitions

namespace Cubic

/-! ## Magnitudes -/

/-- The magnitudes of the candidates. -/
def magnitudes (a d : ℤ) : List Double :=
  ((quotients a.natAbs d.natAbs).map fun x => Double.roundQuotient false x.1 x.2).eraseReps

section Magnitudes

variable {a d : ℤ} {x : Double} (ha : a ≠ 0) (hd : d ≠ 0)

include ha hd

theorem candidatesOf_eq_flatMap :
    candidatesOf (Double.roundQuotient false) a d = (magnitudes a d).flatMap fun x => [x, -x] := by
  rw [candidatesOf, if_neg ha, if_neg hd, magnitudes]

/-- The magnitudes are the rounded quotients of divisors. -/
theorem mem_magnitudes : x ∈ magnitudes a d ↔
    ∃ p q : ℕ, p ∣ d.natAbs ∧ q ∣ a.natAbs ∧ x = Double.round false (p / q) := by
  have ha' : 0 < a.natAbs := Int.natAbs_pos.mpr ha
  have hd' : 0 < d.natAbs := Int.natAbs_pos.mpr hd
  simp only [magnitudes, mem_eraseReps, List.mem_map, Prod.exists, mem_quotients ha' hd']
  constructor
  · rintro ⟨p, q, ⟨hp, hq⟩, rfl⟩
    exact ⟨p, q, hp, hq, Double.roundQuotient_eq_round (Nat.pos_of_dvd_of_pos hq ha')⟩
  · rintro ⟨p, q, hp, hq, rfl⟩
    exact ⟨p, q, ⟨hp, hq⟩, Double.roundQuotient_eq_round (Nat.pos_of_dvd_of_pos hq ha')⟩

end Magnitudes

/-- A rounded positive quotient is not negative. -/
theorem value_roundQuotient_nonneg (p q : ℕ) : 0 ≤ (Double.roundQuotient false p q).value := by
  have hparts (m : ℕ) (e : ℤ) : 0 ≤ (Double.ofParts false m e).value := by
    unfold Double.ofParts
    split
    · rw [Double.value_finite, if_neg Bool.false_ne_true]
      positivity
    · exact le_refl _
  simp only [Double.roundQuotient]
  split
  · rw [Double.value_zero]
  · split <;> exact hparts _ _

/-- The least positive double is below the opposite end of the scale. -/
theorem two_pow_mul_overflowThreshold_le :
    (2 : ℚ) ^ (-1074 : ℤ) * Double.overflowThreshold ≤ 1 := by
  calc (2 : ℚ) ^ (-1074 : ℤ) * Double.overflowThreshold ≤ 2 ^ (-1074 : ℤ) * 2 ^ (1024 : ℤ) := by
        have hlt := Double.overflowThreshold_lt.le
        gcongr
    _ = 2 ^ (-50 : ℤ) := by rw [← zpow_add₀ (by norm_num)]; norm_num
    _ ≤ 1 := zpow_le_one_of_nonpos₀ (by norm_num) (by norm_num)

section Represented

variable {a d : ℤ} {a' d' x : Double} (ha' : a'.Represents a) (hd' : d'.Represents d) (ha : a ≠ 0)
  (hd : d ≠ 0)

include ha' hd' ha hd

theorem candidates_eq_flatMap : candidates a' d' = (magnitudes a d).flatMap fun x => [x, -x] := by
  rw [candidates_of_represents ha' hd', candidatesOf_eq_flatMap ha hd]

/-- The magnitudes are finite and positive: no quotient of divisors of doubles is so small that it
would be rounded to zero. -/
theorem pos_of_mem_magnitudes (hx : x ∈ magnitudes a d) : x.isFinite = true ∧ 0 < x.value := by
  have hmem : x ∈ candidates a' d' := by
    rw [candidates_eq_flatMap ha' hd' ha hd]
    exact List.mem_flatMap.mpr ⟨x, hx, List.mem_cons_self⟩
  have hfinite := isFinite_of_mem_candidates hmem
  obtain ⟨p, q, hp, hq, rfl⟩ := (mem_magnitudes ha hd).mp hx
  have hppos : 0 < p := Nat.pos_of_dvd_of_pos hp (Int.natAbs_pos.mpr hd)
  have hqpos : 0 < q := Nat.pos_of_dvd_of_pos hq (Int.natAbs_pos.mpr ha)
  have hqle : (q : ℚ) ≤ Double.overflowThreshold := by
    refine le_trans ?_ (Double.abs_value_lt ha'.1).le
    rw [← magnitude_eq ha']
    exact_mod_cast Nat.le_of_dvd (Int.natAbs_pos.mpr ha) hq
  have hlarge : (2 : ℚ) ^ (-1074 : ℤ) ≤ p / q := by
    have hq0 : (0 : ℚ) < q := by exact_mod_cast hqpos
    rw [le_div_iff₀ hq0]
    calc (2 : ℚ) ^ (-1074 : ℤ) * q ≤ 2 ^ (-1074 : ℤ) * Double.overflowThreshold := by gcongr
      _ ≤ 1 := two_pow_mul_overflowThreshold_le
      _ ≤ p := by exact_mod_cast hppos
  have hzero := Double.isZero_roundQuotient false hqpos hlarge
  rw [← Double.roundQuotient_eq_round hqpos] at hfinite ⊢
  refine ⟨hfinite, lt_of_le_of_ne (value_roundQuotient_nonneg p q) fun heq => ?_⟩
  rw [(Double.value_eq_zero_iff hfinite).mp heq.symm] at hzero
  cases hzero

/-- Magnitudes of one value are equal. -/
theorem eq_of_mem_magnitudes {y : Double} (hx : x ∈ magnitudes a d) (hy : y ∈ magnitudes a d)
    (h : x.value = y.value) : x = y := by
  obtain ⟨hxfinite, hxpos⟩ := pos_of_mem_magnitudes ha' hd' ha hd hx
  obtain ⟨hyfinite, -⟩ := pos_of_mem_magnitudes ha' hd' ha hd hy
  exact Double.Represents.eq_of_ne_zero ⟨hxfinite, rfl⟩ ⟨hyfinite, h.symm⟩ hxpos.ne'

/-- **The magnitudes are in ascending order, each of them once.** -/
theorem magnitudes_sorted : (magnitudes a d).Pairwise fun x y => x.value < y.value := by
  have hmem {z : Double}
      (hz : z ∈ (quotients a.natAbs d.natAbs).map fun x => Double.roundQuotient false x.1 x.2) :
      z ∈ magnitudes a d := mem_eraseReps.mpr hz
  have hsorted : ((quotients a.natAbs d.natAbs).map
      fun x => Double.roundQuotient false x.1 x.2).Pairwise fun x y => x.value ≤ y.value := by
    rw [List.pairwise_map]
    refine (quotients_sorted (Int.natAbs_pos.mpr ha)).imp_of_mem ?_
    rintro ⟨p, q⟩ ⟨p', q'⟩ hx hy hle
    have hvalue {p q : ℕ} (h : (p, q) ∈ quotients a.natAbs d.natAbs) :
        (Double.roundQuotient false p q).value = Double.nearest (ratio p q) ∧ 0 < ratio p q := by
      obtain ⟨hp, hq⟩ := (mem_quotients (Int.natAbs_pos.mpr ha) (Int.natAbs_pos.mpr hd)).mp h
      have hppos := Nat.pos_of_dvd_of_pos hp (Int.natAbs_pos.mpr hd)
      have hqpos := Nat.pos_of_dvd_of_pos hq (Int.natAbs_pos.mpr ha)
      have hsize : (p : ℚ) < Double.overflowThreshold := by
        refine lt_of_le_of_lt ?_ (Double.abs_value_lt hd'.1)
        rw [← magnitude_eq hd']
        exact_mod_cast Nat.le_of_dvd (Int.natAbs_pos.mpr hd) hp
      have hnearest := (abs_value_roundQuotient hppos hqpos hsize).2
      rw [abs_of_nonneg (value_roundQuotient_nonneg p q)] at hnearest
      refine ⟨hnearest, ?_⟩
      unfold ratio
      positivity
    rw [(hvalue hx).1, (hvalue hy).1]
    exact Double.nearest_mono (hvalue hx).2 hle
  have hstrict := pairwise_eraseReps hsorted fun x hx y hy hxy hyx =>
    eq_of_mem_magnitudes ha' hd' ha hd (hmem hx) (hmem hy) (le_antisymm hxy hyx)
  refine List.Pairwise.imp_of_mem ?_ hstrict
  rintro x y hx hy ⟨hle, hne⟩
  exact lt_of_le_of_ne hle fun heq => hne (eq_of_mem_magnitudes ha' hd' ha hd hx hy heq)

end Represented

/-! ## Quotients of signed divisors -/

/-- The quotient of two whole numbers, rounded to a double. -/
def signedQuotient (p q : ℤ) : Double := Double.round (decide (q < 0)) (p / q)

/-- The quotients of the divisors of `d` and `a`, with all signs and in the order of the
divisors. -/
def formed (a d : Double) : List Double :=
  (signedDivisors d).flatMap fun p => ((signedDivisors a).filter (· ≠ 0)).map (signedQuotient p)

/-- In each part of the list from its start, a negative number has its opposite. -/
def Led (xs : List Double) : Prop := ∀ t, t <+: xs → ∀ y ∈ t, y.value < 0 → -y ∈ t

/-- A list is led if one part of it is, and the next part finds its opposites in front. -/
theorem Led.append {xs ys : List Double} (hxs : Led xs)
    (hys : ∀ t, t <+: ys → ∀ y ∈ t, y.value < 0 → -y ∈ xs ++ t) : Led (xs ++ ys) := by
  rintro t ⟨rest, hrest⟩ y hy hneg
  rcases List.append_eq_append_iff.mp hrest with ⟨u, rfl, -⟩ | ⟨u, rfl, rfl⟩
  · exact hxs t ⟨u, rfl⟩ y hy hneg
  · rcases List.mem_append.mp hy with hfirst | hsecond
    · exact List.mem_append_left u (hxs xs List.prefix_rfl y hfirst hneg)
    · exact hys u ⟨rest, rfl⟩ y hsecond hneg

theorem Led.flatMap {β : Type} {f : β → List Double} {l : List β} (h : ∀ b ∈ l, Led (f b)) :
    Led (l.flatMap f) := by
  induction l with
  | nil => exact fun t ht y hy => by simp [List.prefix_nil.mp ht] at hy
  | cons b l ih =>
    rw [List.forall_mem_cons] at h
    rw [List.flatMap_cons]
    exact h.1.append fun t ht y hy hneg => List.mem_append_right _ (ih h.2 t ht y hy hneg)

/-- A number that is not negative leads its opposite. -/
theorem led_pair {x : Double} (hx : 0 ≤ x.value) : Led [x, -x] := by
  intro t ht y hy hneg
  rcases List.mem_cons.mp (ht.mem hy) with rfl | hlast
  · exact absurd hneg hx.not_gt
  · obtain rfl := List.mem_singleton.mp hlast
    rw [Double.neg_neg]
    obtain ⟨u, rfl, -⟩ | rfl : (∃ u, t = x :: u ∧ u <+: [-x]) ∨ t = [] :=
      (List.prefix_cons_iff.mp ht).symm
    · exact List.mem_cons_self
    · cases hy

theorem pos_of_mem_divisors {n : ℤ} (hn : n ≠ 0) {k : ℕ} (hk : k ∈ divisors n.natAbs) : 0 < k :=
  Nat.pos_of_dvd_of_pos ((mem_divisors (Int.natAbs_pos.mpr hn)).mp hk) (Int.natAbs_pos.mpr hn)

section Formed

variable {a d : ℤ} {a' d' x : Double} (ha' : a'.Represents a) (hd' : d'.Represents d) (ha : a ≠ 0)
  (hd : d ≠ 0)

theorem signedDivisors_of_represents (ha' : a'.Represents a) (ha : a ≠ 0) :
    signedDivisors a' = (divisors a.natAbs).flatMap fun q : ℕ => [(q : ℤ), -(q : ℤ)] := by
  simp only [signedDivisors, Double.toInt?_of_represents ha', if_neg ha]

/-- The four quotients of two divisors. -/
theorem signedQuotient_signs {p q : ℕ} (hp : 0 < p) (hq : 0 < q) :
    signedQuotient p q = Double.round false (p / q) ∧
      signedQuotient p (-q) = -Double.round false (p / q) ∧
      signedQuotient (-p) q = -Double.round false (p / q) ∧
      signedQuotient (-p) (-q) = Double.round false (p / q) := by
  have hpos : (0 : ℚ) < p / q := by positivity
  have hround (s : Bool) : Double.round s ((p : ℚ) / q) = Double.round false (p / q) := by
    rw [Double.round_of_ne_zero s hpos.ne', Double.round_of_ne_zero false hpos.ne']
  refine ⟨?_, ?_, ?_, ?_⟩ <;> unfold signedQuotient <;> push_cast
  · exact hround _
  · rw [div_neg, Double.round_neg hpos.ne', hround]
  · rw [neg_div, Double.round_neg hpos.ne', hround]
  · rw [neg_div_neg_eq, hround]

include ha' ha in
/-- The quotients of a divisor and of its opposite. -/
theorem map_signedQuotient {p : ℕ} (hp : 0 < p) :
    ((signedDivisors a').filter (· ≠ 0)).map (signedQuotient p) =
        (divisors a.natAbs).flatMap
          (fun q : ℕ => [Double.round false (p / q), -Double.round false (p / q)]) ∧
      ((signedDivisors a').filter (· ≠ 0)).map (signedQuotient (-p)) =
        (divisors a.natAbs).flatMap
          fun q : ℕ => [-Double.round false (p / q), Double.round false (p / q)] := by
  have hfilter : (signedDivisors a').filter (· ≠ 0) = signedDivisors a' := by
    rw [List.filter_eq_self, signedDivisors_of_represents ha' ha]
    intro q hq
    obtain ⟨k, hk, hmem⟩ := List.mem_flatMap.mp hq
    have hk := pos_of_mem_divisors ha hk
    simp only [List.mem_cons, List.not_mem_nil, or_false] at hmem
    rcases hmem with rfl | rfl <;> simp <;> omega
  rw [hfilter, signedDivisors_of_represents ha' ha, List.map_flatMap, List.map_flatMap]
  constructor
  · refine List.flatMap_congr fun q hq => ?_
    obtain ⟨h₁, h₂, -, -⟩ := signedQuotient_signs hp (pos_of_mem_divisors ha hq)
    simp [h₁, h₂]
  · refine List.flatMap_congr fun q hq => ?_
    obtain ⟨-, -, h₃, h₄⟩ := signedQuotient_signs hp (pos_of_mem_divisors ha hq)
    simp [h₃, h₄]

include ha' hd' ha hd

theorem mem_formed : x ∈ formed a' d' ↔ x ∈ candidates a' d' := by
  rw [candidates_of_represents ha' hd', mem_candidatesOf ha hd, formed,
    signedDivisors_of_represents hd' hd]
  have hround {q : ℕ} (hq : q ∣ a.natAbs) (p : ℕ) :
      Double.roundQuotient false p q = Double.round false (p / q) :=
    Double.roundQuotient_eq_round (Nat.pos_of_dvd_of_pos hq (Int.natAbs_pos.mpr ha))
  simp only [List.mem_flatMap, List.mem_cons, List.not_mem_nil, or_false]
  constructor
  · rintro ⟨_, ⟨p, hp, rfl | rfl⟩, hx⟩
    · rw [(map_signedQuotient ha' ha (pos_of_mem_divisors hd hp)).1] at hx
      obtain ⟨q, hq, hx⟩ := List.mem_flatMap.mp hx
      have hq := (mem_divisors (Int.natAbs_pos.mpr ha)).mp hq
      exact ⟨p, q, (mem_divisors (Int.natAbs_pos.mpr hd)).mp hp, hq, by
        rw [hround hq]
        simpa using hx⟩
    · rw [(map_signedQuotient ha' ha (pos_of_mem_divisors hd hp)).2] at hx
      obtain ⟨q, hq, hx⟩ := List.mem_flatMap.mp hx
      have hq := (mem_divisors (Int.natAbs_pos.mpr ha)).mp hq
      exact ⟨p, q, (mem_divisors (Int.natAbs_pos.mpr hd)).mp hp, hq, by
        rw [hround hq, or_comm]
        simpa using hx⟩
  · rintro ⟨p, q, hp, hq, hx⟩
    have hp := (mem_divisors (Int.natAbs_pos.mpr hd)).mpr hp
    refine ⟨p, ⟨p, hp, .inl rfl⟩, ?_⟩
    rw [(map_signedQuotient ha' ha (pos_of_mem_divisors hd hp)).1]
    refine List.mem_flatMap.mpr ⟨q, (mem_divisors (Int.natAbs_pos.mpr ha)).mpr hq, ?_⟩
    rw [hround hq] at hx
    simpa using hx

/-- **A positive quotient is formed before its opposite.** -/
theorem led_formed : Led (formed a' d') := by
  have hnonneg (p : ℕ) {q : ℕ} (hq : q ∈ divisors a.natAbs) :
      0 ≤ (Double.round false (p / q)).value := by
    rw [← Double.roundQuotient_eq_round (pos_of_mem_divisors ha hq)]
    exact value_roundQuotient_nonneg p q
  rw [formed, signedDivisors_of_represents hd' hd, List.flatMap_assoc]
  refine Led.flatMap fun p hp => ?_
  obtain ⟨hfirst, hsecond⟩ := map_signedQuotient ha' ha (pos_of_mem_divisors hd hp)
  rw [List.flatMap_cons, List.flatMap_cons, List.flatMap_nil, List.append_nil, hfirst, hsecond]
  refine (Led.flatMap fun q hq => led_pair (hnonneg p hq)).append fun t ht y hy hneg => ?_
  -- The opposites of the second part are all in the first one.
  obtain ⟨q, hq, hyq⟩ := List.mem_flatMap.mp (ht.mem hy)
  refine List.mem_append_left t (List.mem_flatMap.mpr ⟨q, hq, ?_⟩)
  simp only [List.mem_cons, List.not_mem_nil, or_false] at hyq
  rcases hyq with rfl | rfl
  · rw [Double.neg_neg]
    exact List.mem_cons_self
  · simp

end Formed

/-! ## The two ways to the list -/

/-- The order by which quotients are sorted. -/
def byMagnitude (x y : Double) : Bool := |x.value| ≤ |y.value|

theorem byMagnitude_iff {x y : Double} : byMagnitude x y = true ↔ |x.value| ≤ |y.value| :=
  decide_eq_true_iff

theorem byMagnitude_trans (x y z : Double) (hxy : byMagnitude x y = true)
    (hyz : byMagnitude y z = true) : byMagnitude x z = true :=
  byMagnitude_iff.mpr ((byMagnitude_iff.mp hxy).trans (byMagnitude_iff.mp hyz))

theorem byMagnitude_total (x y : Double) : (byMagnitude x y || byMagnitude y x) = true := by
  rw [Bool.or_eq_true, byMagnitude_iff, byMagnitude_iff]
  exact le_total _ _

/-- The number is of smaller magnitude, or it is the positive one of two opposite numbers. -/
def Before (x y : Double) : Prop :=
  |x.value| < |y.value| ∨ |x.value| = |y.value| ∧ y.value < x.value

theorem Before.asymm {x y : Double} (h : Before x y) : ¬ Before y x := by
  rcases h with hlt | ⟨heq, hlt⟩ <;> rintro (hlt' | ⟨heq', hlt'⟩)
  · exact hlt.asymm hlt'
  · exact hlt.ne heq'.symm
  · exact hlt'.ne heq.symm
  · exact hlt.asymm hlt'

theorem Before.ne {x y : Double} (h : Before x y) : x ≠ y := by
  rintro rfl
  exact h.asymm h

section Ordered

variable {a d : ℤ} {a' d' x : Double} (ha' : a'.Represents a) (hd' : d'.Represents d) (ha : a ≠ 0)
  (hd : d ≠ 0)

include ha' hd' ha hd

/-- No candidate is zero. -/
theorem ne_zero_of_mem_candidates (hx : x ∈ candidates a' d') :
    x.isFinite = true ∧ x.value ≠ 0 := by
  rw [candidates_eq_flatMap ha' hd' ha hd] at hx
  obtain ⟨y, hy, hxy⟩ := List.mem_flatMap.mp hx
  obtain ⟨hfinite, hpos⟩ := pos_of_mem_magnitudes ha' hd' ha hd hy
  simp only [List.mem_cons, List.not_mem_nil, or_false] at hxy
  rcases hxy with rfl | rfl
  · exact ⟨hfinite, hpos.ne'⟩
  · rw [Double.isFinite_neg, Double.value_neg]
    exact ⟨hfinite, neg_ne_zero.mpr hpos.ne'⟩

/-- Candidates are distinguished by their values. -/
theorem eq_of_value_eq {y : Double} (hx : x ∈ candidates a' d') (hy : y ∈ candidates a' d')
    (h : x.value = y.value) : x = y := by
  obtain ⟨hxfinite, hne⟩ := ne_zero_of_mem_candidates ha' hd' ha hd hx
  obtain ⟨hyfinite, -⟩ := ne_zero_of_mem_candidates ha' hd' ha hd hy
  exact Double.Represents.eq_of_ne_zero ⟨hxfinite, rfl⟩ ⟨hyfinite, h.symm⟩ hne

theorem numericEq_eq_beq {y : Double} (hx : x ∈ candidates a' d') (hy : y ∈ candidates a' d') :
    x.numericEq y = (x == y) := by
  obtain ⟨hxfinite, -⟩ := ne_zero_of_mem_candidates ha' hd' ha hd hx
  obtain ⟨hyfinite, -⟩ := ne_zero_of_mem_candidates ha' hd' ha hd hy
  rw [Bool.eq_iff_iff, beq_iff_eq]
  constructor
  · exact fun h => eq_of_value_eq ha' hd' ha hd hx hy
      (Double.same_of_numericEq hxfinite hyfinite h).value_eq
  · rintro rfl
    exact Double.Same.numericEq (.refl x) (Double.isNaN_of_isFinite hxfinite)

/-- **Candidates come by magnitude, and the positive one of two opposite ones first.** -/
theorem candidates_before : (candidates a' d').Pairwise Before := by
  rw [candidates_eq_flatMap ha' hd' ha hd, List.pairwise_flatMap]
  constructor
  · intro x hx
    obtain ⟨-, hpos⟩ := pos_of_mem_magnitudes ha' hd' ha hd hx
    refine List.pairwise_pair.mpr (.inr ⟨?_, ?_⟩) <;> rw [Double.value_neg]
    · exact (abs_neg _).symm
    · linarith only [hpos]
  · refine (magnitudes_sorted ha' hd' ha hd).imp_of_mem ?_
    intro x y hx hy hlt u hu v hv
    obtain ⟨-, hxpos⟩ := pos_of_mem_magnitudes ha' hd' ha hd hx
    have habs {w z : Double} (hz : z ∈ [w, -w]) : |z.value| = |w.value| := by
      simp only [List.mem_cons, List.not_mem_nil, or_false] at hz
      rcases hz with rfl | rfl
      · rfl
      · rw [Double.value_neg, abs_neg]
    left
    rw [habs hu, habs hv, abs_of_pos hxpos, abs_of_pos (hxpos.trans hlt)]
    exact hlt

/-- Of two opposite quotients, the positive one is kept before the other one. -/
theorem pair_sublist_eraseDups_formed {y : Double} (hy : y ∈ formed a' d') (hneg : y.value < 0) :
    [-y, y].Sublist (formed a' d').eraseDups := by
  obtain ⟨before, after, hsplit, hbefore⟩ := List.eq_append_cons_of_mem hy
  have hopposite : -y ∈ before ++ [y] := by
    refine led_formed ha' hd' ha hd _ ⟨after, ?_⟩ y (by simp) hneg
    rw [hsplit, List.append_assoc, List.singleton_append]
  rw [hsplit]
  refine pair_sublist_eraseDups ?_ hbefore
  rcases List.mem_append.mp hopposite with hmem | hself
  · exact hmem
  · have hvalue := congrArg Double.value (List.mem_singleton.mp hself)
    rw [Double.value_neg] at hvalue
    linarith only [hvalue, hneg]

/-- Candidates of one magnitude are equal or opposite. -/
theorem eq_or_eq_neg {y : Double} (hx : x ∈ candidates a' d') (hy : y ∈ candidates a' d')
    (h : |x.value| = |y.value|) : y = x ∨ y = -x := by
  obtain ⟨hxfinite, hne⟩ := ne_zero_of_mem_candidates ha' hd' ha hd hx
  obtain ⟨hyfinite, -⟩ := ne_zero_of_mem_candidates ha' hd' ha hd hy
  rcases abs_eq_abs.mp h with heq | hopposite
  · exact .inl (eq_of_value_eq ha' hd' ha hd hy hx heq.symm)
  · right
    refine Double.Represents.eq_of_ne_zero (q := -x.value) ⟨hyfinite, ?_⟩ ⟨?_, ?_⟩
      (neg_ne_zero.mpr hne)
    · rw [hopposite, neg_neg]
    · rwa [Double.isFinite_neg]
    · exact Double.value_neg x

/-- **Sorting by magnitude leaves the positive one of two opposite quotients in front**, since it
does not disturb what is equally large. -/
theorem sorted_before : ((formed a' d').eraseDups.mergeSort byMagnitude).Pairwise Before := by
  have hperm := List.mergeSort_perm (formed a' d').eraseDups byMagnitude
  have hnodup := hperm.nodup_iff.mpr (nodup_eraseDups (formed a' d'))
  rw [List.pairwise_iff_forall_sublist]
  intro x y hpair
  have hformed {z : Double} (hz : z ∈ [x, y]) : z ∈ formed a' d' :=
    List.mem_eraseDups.mp (hperm.mem_iff.mp (hpair.subset hz))
  have hx : x ∈ formed a' d' := hformed List.mem_cons_self
  have hxmem := (mem_formed ha' hd' ha hd).mp hx
  have hymem := (mem_formed ha' hd' ha hd).mp (hformed (List.mem_cons_of_mem x List.mem_cons_self))
  have hle : byMagnitude x y = true := List.pairwise_iff_forall_sublist.mp
    (List.pairwise_mergeSort byMagnitude_trans byMagnitude_total _) hpair
  rcases (byMagnitude_iff.mp hle).lt_or_eq with hlt | heq
  · exact .inl hlt
  refine .inr ⟨heq, ?_⟩
  rcases eq_or_eq_neg ha' hd' ha hd hxmem hymem heq with rfl | rfl
  · exact absurd (hnodup.sublist hpair) (by simp)
  · rw [Double.value_neg]
    by_contra hge
    have hneg : x.value < 0 := by
      refine lt_of_le_of_ne ?_ (ne_zero_of_mem_candidates ha' hd' ha hd hxmem).2
      linarith only [hge]
    have hkept := pair_sublist_eraseDups_formed ha' hd' ha hd hx hneg
    refine not_pair_sublist_swap hnodup hpair
      (List.pair_sublist_mergeSort byMagnitude_trans byMagnitude_total ?_ hkept)
    exact byMagnitude_iff.mpr heq.ge

/-- **The two ways to the list**: form all quotients, drop repetitions where they occur for a second
time, and sort by magnitude. -/
theorem candidates_eq_sorted : candidates a' d' =
    ((formed a' d').eraseDupsBy Double.numericEq).mergeSort byMagnitude := by
  have hmem {x : Double} : x ∈ formed a' d' ↔ x ∈ candidates a' d' := mem_formed ha' hd' ha hd
  rw [eraseDupsBy_eq_eraseDups fun x hx y hy =>
    numericEq_eq_beq ha' hd' ha hd (hmem.mp hx) (hmem.mp hy)]
  have hbefore := candidates_before ha' hd' ha hd
  have hsorted := sorted_before ha' hd' ha hd
  refine List.Perm.eq_of_pairwise (fun x y _ _ h h' => absurd h' h.asymm) hbefore hsorted
    ((List.perm_ext_iff_of_nodup (hbefore.imp Before.ne) (hsorted.imp Before.ne)).mpr fun x => ?_)
  rw [List.mem_mergeSort, List.mem_eraseDups, hmem]

end Ordered

/-! ## What a search yields -/

/-- A search without a result has refused all candidates. -/
theorem not_accepts_of_firstRoot?_none {α : Type} {n : Arithmetic α} {a b c d : α} {xs : List α}
    (h : firstRoot? n a b c d xs = .ok none) : ∀ x ∈ xs, ¬ Accepts n a b c d x := by
  induction xs with
  | nil => simp
  | cons x xs ih =>
    simp only [firstRoot?] at h
    cases hvalue : valueAt n a b c d x with
    | error e => rw [hvalue] at h; cases h
    | ok value =>
      rw [hvalue] at h
      by_cases hsmall : n.isSmall value = true
      · simp [hsmall] at h
      · simp only [if_neg hsmall] at h
        refine List.forall_mem_cons.mpr ⟨?_, ih h⟩
        rw [accepts_iff hvalue]
        exact hsmall

/-- **The search yields the candidate of smallest magnitude** among those that are accepted, and the
positive one of two.  It does so although the cubes of large candidates cannot be formed. -/
theorem firstRoot?_eq_some_iff {a d : ℤ} {a' d' : Double} (ha' : a'.Represents a)
    (hd' : d'.Represents d) (ha : a ≠ 0) (hd : d ≠ 0) (tolerance b c x : Double) :
    firstRoot? (doubleArithmetic tolerance) a' b c d' (candidates a' d') = .ok (some x) ↔
      x ∈ candidates a' d' ∧ Accepts (doubleArithmetic tolerance) a' b c d' x ∧
        ∀ y ∈ candidates a' d', Accepts (doubleArithmetic tolerance) a' b c d' y →
          y = x ∨ Before x y := by
  have hsorted : (candidates a' d').Pairwise fun x y => y = x ∨ Before x y :=
    (candidates_before ha' hd' ha hd).imp .inr
  have hleast {x : Double}
      (h : firstRoot? (doubleArithmetic tolerance) a' b c d' (candidates a' d') = .ok (some x)) :=
    fun y hy =>
      firstRoot?_least (y := y) (r := fun x y => y = x ∨ Before x y) (.inl rfl) hsorted h hy
  constructor
  · intro h
    obtain ⟨haccepts, before, after, hsplit, -⟩ := firstRoot?_first h
    exact ⟨by rw [hsplit]; simp, haccepts, hleast h⟩
  · rintro ⟨hx, haccepts, hfirst⟩
    cases hfound : firstRoot? (doubleArithmetic tolerance) a' b c d' (candidates a' d') with
    | error e =>
      obtain rfl := failsOnly_search tolerance ⟨a', b, c, d'⟩ e hfound
      have hoverruns := (firstRoot?_overflow_iff tolerance ⟨a', b, c, d'⟩).mp hfound
      exact absurd haccepts (hoverruns.refused x hx)
    | ok found =>
      cases found with
      | none => exact absurd haccepts (not_accepts_of_firstRoot?_none hfound x hx)
      | some z =>
        obtain ⟨hz, before, after, hsplit, -⟩ := firstRoot?_first hfound
        have hzmem : z ∈ candidates a' d' := by
          rw [hsplit]
          simp
        rcases hfirst z hzmem hz with rfl | hbefore
        · rfl
        · rcases hleast hfound x hx haccepts with rfl | hbefore'
          · rfl
          · exact absurd hbefore' hbefore.asymm

/-- **The candidates for a rational root** of an equation with whole outer coefficients are the
rounded quotients of a divisor of the constant term and a divisor of the leading coefficient: no
value occurs twice, the magnitudes are ascending, and each number comes directly before its
opposite.  They are what is left of the quotients of all signed divisors without repetitions and
sorted by magnitude.  So the search yields the accepted candidate of smallest magnitude, the
positive one first. -/
theorem candidates_ordered {a d : Double} {m n : ℤ} (ha : a.Represents m) (hd : d.Represents n)
    (hm : m ≠ 0) (hn : n ≠ 0) :
    ∃ ms : List Double, candidates a d = (ms.flatMap fun x => [x, -x]) ∧
      (∀ x ∈ ms, x.isFinite = true ∧ 0 < x.value) ∧
      (ms.Pairwise fun x y => x.value < y.value) ∧
      (∀ x, x ∈ ms ↔
        ∃ p q : ℕ, p ∣ n.natAbs ∧ q ∣ m.natAbs ∧ x = Double.round false (p / q)) ∧
      ((candidates a d).Pairwise fun x y => x.numericEq y = false) ∧
      candidates a d = ((formed a d).eraseDupsBy Double.numericEq).mergeSort byMagnitude ∧
      ∀ tolerance b c x,
        firstRoot? (doubleArithmetic tolerance) a b c d (candidates a d) = .ok (some x) ↔
          x ∈ candidates a d ∧ Accepts (doubleArithmetic tolerance) a b c d x ∧
            ∀ y ∈ candidates a d, Accepts (doubleArithmetic tolerance) a b c d y →
              y = x ∨ Before x y := by
  refine ⟨magnitudes m n, candidates_eq_flatMap ha hd hm hn,
    fun x hx => pos_of_mem_magnitudes ha hd hm hn hx, magnitudes_sorted ha hd hm hn,
    fun x => mem_magnitudes hm hn, ?_, candidates_eq_sorted ha hd hm hn,
    firstRoot?_eq_some_iff ha hd hm hn⟩
  refine (candidates_before ha hd hm hn).imp_of_mem fun hx hy hbefore => ?_
  rw [numericEq_eq_beq ha hd hm hn hx hy, beq_eq_false_iff_ne]
  exact hbefore.ne

/-- The quotient `2 / 2` is a repetition. -/
theorem candidates_two : candidates 2 2 = [1 / 2, -(1 / 2), 1, -1, 2, -2] := by
  have hdivisors : divisors 2 = [1, 2] := by cbv
  have hquotients : quotients 2 2 = [(1, 2), (1, 1), (2, 2), (2, 1)] := by
    rw [quotients, hdivisors]
    cbv
  have htwo : Double.toInt? 2 = some 2 := by decide +kernel
  rw [candidates, htwo]
  show candidatesOf _ _ _ = _
  rw [candidatesOf, if_neg (by decide), if_neg (by decide)]
  show List.flatMap _ ((quotients 2 2).map _).eraseReps = _
  rw [hquotients]
  decide +kernel

/-- The equation `2x^3 - 2x^2 - 2x + 2 = 0` has the roots `1` and `-1`, and the first one is
found. -/
theorem candidates_ordered_two :
    (2 : Double).Represents (2 : ℤ) ∧
      candidates 2 2 = [1 / 2, -(1 / 2), 1, -1, 2, -2] ∧
      ((candidates 2 2).Pairwise fun x y => x.numericEq y = false) ∧
      Accepts standardArithmetic 2 (-2) (-2) 2 (-1) ∧
      firstRoot? standardArithmetic 2 (-2) (-2) 2 (candidates 2 2) = .ok (some 1) ∧
      ∀ y ∈ candidates 2 2, Accepts standardArithmetic 2 (-2) (-2) 2 y → y = 1 ∨ Before 1 y := by
  have htwo : (2 : Double).Represents (2 : ℤ) := by decide +kernel
  obtain ⟨ms, -, -, -, -, hdistinct, -, hsearch⟩ :=
    candidates_ordered htwo htwo two_ne_zero two_ne_zero
  have hfound : firstRoot? standardArithmetic 2 (-2) (-2) 2 (candidates 2 2) = .ok (some 1) := by
    rw [candidates_two]
    exact eq_ok_of_toOption (by decide +kernel)
  exact ⟨htwo, candidates_two, hdistinct, ⟨0, eq_ok_of_toOption (by decide +kernel),
    by decide +kernel⟩, hfound, ((hsearch _ _ _ _).mp hfound).2.2⟩

end Cubic

end Stepwise
