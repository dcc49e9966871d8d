/-
# The text of roots

The text of finite roots depends on their rounded values alone, and not on how often or in which
order they were found, nor on anything that is left to the machine.  It shows each of these values
once, in strictly ascending order and without a negative zero, as a set if there are several.

* `Double.Tidy` : a finite number other than the negative zero;
* `Double.text_ne_minusZero`, `Double.Tidy.eq_of_text_eq` : the texts of numbers;
* `Roots.mem_insert`, `Roots.insert_sorted` : one step of putting in order;
* `Roots.mem_ascending`, `Roots.ascending_sorted`, `Roots.ascending_eq` : numbers put in order;
* `Roots.text_congr`, `Roots.text_canonical` : the text of roots.
-/
import Stepwise.Proofs.Decimal.ReadBack
import Stepwise.Proofs.Derivation.Value
import Stepwise.Proofs.Double.Power
import Stepwise.Proofs.Equation.RootOrder

namespace Stepwise

namespace Double

/-! ## Rounded numbers -/

/-- A finite number other than the negative zero. -/
structure Tidy (x : Double) : Prop where
  finite : x.isFinite = true
  shown : x.shown = x

section Tidy

variable {x y z : Double} {places : Int}

/-- Tidy numbers are distinguished by their values. -/
theorem Tidy.eq_of_value_eq (hx : x.Tidy) (hy : y.Tidy) (h : x.value = y.value) : x = y := by
  have hsame : x.Same y := Represents.same ⟨hx.finite, h⟩ ⟨hy.finite, rfl⟩
  exact hsame.eq_of_shown hx.shown hy.shown

theorem Tidy.ne_minusZero (hx : x.Tidy) : x ≠ zero true := by
  rintro rfl
  have hshown := hx.shown
  revert hshown
  decide

theorem isFinite_roundPlaces (hx : x.isFinite = true) (h : x.roundPlaces places = .ok z) :
    z.isFinite = true := by
  cases x with
  | nan | infinity negative => cases hx
  | finite negative m e hc =>
    simp only [roundPlaces] at h
    split_ifs at h with hmost hfewest hfinite
    · cases h
      rfl
    · cases h
      rfl
    · cases h
      exact hfinite

/-- What is rounded for display is tidy. -/
theorem tidy_of_roundForDisplay (hx : x.isFinite = true) (h : x.roundForDisplay places = .ok z) :
    z.Tidy := by
  refine ⟨?_, shown_of_roundForDisplay h⟩
  rw [roundForDisplay_eq] at h
  cases hrounded : x.roundPlaces places with
  | error b =>
    rw [hrounded] at h
    cases h
  | ok y =>
    rw [hrounded] at h
    cases h
    rw [← (same_shown y).isFinite_eq]
    exact isFinite_roundPlaces hx hrounded

/-- Zero is never shown with a sign. -/
theorem text_ne_minusZero (hx : x.isFinite = true) : x.text ≠ "-0" := by
  intro h
  have hdisplay : x.display = ['-', '0'] := String.ofList_injective h
  have hread := readSigned?_display hx Numeral.ends_nil
  have hzero : Numeral.readSigned? ['-', '0'] = some (zero true, []) := by decide +kernel
  rw [hdisplay, List.append_nil, hzero] at hread
  -- A shown number is not the negative zero, which is what the text is read as.
  have hshown : x.shown = zero true := (Prod.mk.inj (Option.some.inj hread)).1.symm
  have hagain := shown_shown x
  rw [hshown] at hagain
  revert hagain
  decide

/-- Tidy numbers are distinguished by their texts. -/
theorem Tidy.eq_of_text_eq (hx : x.Tidy) (hy : y.Tidy) (h : x.text = y.text) : x = y := by
  have hsame : x.Same y := same_of_display_eq hx.finite (String.ofList_injective h)
  exact hsame.eq_of_shown hx.shown hy.shown

end Tidy

end Double

namespace Roots

/-! ## Numbers in ascending order -/

variable {x y z : Double} {xs ys zs : List Double} {A B : Arrangement}

theorem numericEq_iff_of_tidy (hx : x.Tidy) (hy : y.Tidy) : x.numericEq y = true ↔ x = y := by
  constructor
  · exact fun h => hx.eq_of_value_eq hy (Double.same_of_numericEq hx.finite hy.finite h).value_eq
  · rintro rfl
    exact Double.Same.numericEq (.refl x)
      (Double.Represents.isNaN_eq_false ⟨hx.finite, rfl⟩)

/-- A number is inserted unless it is there. -/
theorem mem_insert (hx : x.Tidy) (hzs : ∀ z ∈ zs, z.Tidy) : y ∈ insert x zs ↔ y = x ∨ y ∈ zs := by
  induction zs with
  | nil => simp [insert]
  | cons z zs ih =>
    rw [List.forall_mem_cons] at hzs
    simp only [insert, numericEq_iff_of_tidy hx hzs.1]
    split_ifs with hbefore hequal
    · exact List.mem_cons
    · subst hequal
      simp
    · rw [List.mem_cons, ih hzs.2, List.mem_cons]
      tauto

/-- **What is in order stays in order** when a number is inserted. -/
theorem insert_sorted (hx : x.Tidy) (hzs : ∀ z ∈ zs, z.Tidy)
    (h : zs.Pairwise fun x y => x.value < y.value) :
    (insert x zs).Pairwise fun x y => x.value < y.value := by
  induction zs with
  | nil => exact List.pairwise_singleton _ _
  | cons z zs ih =>
    rw [List.forall_mem_cons] at hzs
    obtain ⟨hz, hrest⟩ := List.pairwise_cons.mp h
    simp only [insert, numericEq_iff_of_tidy hx hzs.1, Double.lt_iff hx.finite hzs.1.finite]
    split_ifs with hbefore hequal
    · refine List.pairwise_cons.mpr ⟨List.forall_mem_cons.mpr ⟨hbefore, fun y hy => ?_⟩, h⟩
      exact hbefore.trans (hz y hy)
    · exact h
    · have hafter : z.value < x.value := lt_of_le_of_ne (not_lt.mp hbefore) fun heq =>
        hequal (hx.eq_of_value_eq hzs.1 heq.symm)
      refine List.pairwise_cons.mpr ⟨fun y hy => ?_, ih hzs.2 hrest⟩
      rcases (mem_insert hx hzs.2).mp hy with rfl | hy
      · exact hafter
      · exact hz y hy

/-- Numbers inserted one after another. -/
theorem foldl_insert (hxs : ∀ x ∈ xs, x.Tidy) (hzs : ∀ z ∈ zs, z.Tidy)
    (h : zs.Pairwise fun x y => x.value < y.value) :
    ((xs.foldl (fun sorted x => insert x sorted) zs).Pairwise fun x y => x.value < y.value) ∧
      ∀ y, y ∈ xs.foldl (fun sorted x => insert x sorted) zs ↔ y ∈ xs ∨ y ∈ zs := by
  induction xs generalizing zs with
  | nil => simpa using h
  | cons x xs ih =>
    rw [List.forall_mem_cons] at hxs
    have htidy : ∀ z ∈ insert x zs, z.Tidy := fun z hz => by
      rcases (mem_insert hxs.1 hzs).mp hz with rfl | hz
      · exact hxs.1
      · exact hzs z hz
    obtain ⟨hsorted, hmem⟩ := ih hxs.2 htidy (insert_sorted hxs.1 hzs h)
    refine ⟨hsorted, fun y => ?_⟩
    rw [List.foldl_cons, hmem, mem_insert hxs.1 hzs, List.mem_cons]
    tauto

/-- Tidy numbers are not left to the machine. -/
theorem ascending_of_tidy (hxs : ∀ x ∈ xs, x.Tidy) (A : Arrangement) :
    ascending A xs = xs.foldl (fun sorted x => insert x sorted) [] :=
  ascending_of_defined (fun x hx => Double.Represents.isNaN_eq_false ⟨(hxs x hx).finite, rfl⟩) A

theorem ascending_sorted (hxs : ∀ x ∈ xs, x.Tidy) :
    (ascending A xs).Pairwise fun x y => x.value < y.value := by
  rw [ascending_of_tidy hxs]
  exact (foldl_insert hxs (List.forall_mem_nil _) .nil).1

theorem mem_ascending (hxs : ∀ x ∈ xs, x.Tidy) : y ∈ ascending A xs ↔ y ∈ xs := by
  have hmem := (foldl_insert hxs (List.forall_mem_nil _) .nil).2 y
  rw [ascending_of_tidy hxs]
  simpa using hmem

/-- **The order does not depend on how often or in which order numbers were given.** -/
theorem ascending_eq (hxs : ∀ x ∈ xs, x.Tidy) (h : ∀ z, z ∈ xs ↔ z ∈ ys) :
    ascending A xs = ascending B ys := by
  have hys : ∀ y ∈ ys, y.Tidy := fun y hy => hxs y ((h y).mpr hy)
  have hsortedXs := ascending_sorted (A := A) hxs
  have hsortedYs := ascending_sorted (A := B) hys
  have hnodup {zs : List Double} (hzs : zs.Pairwise fun x y => x.value < y.value) : zs.Nodup :=
    hzs.imp fun hlt heq => hlt.ne (congrArg Double.value heq)
  refine List.Perm.eq_of_pairwise (fun x y _ _ hlt hgt => absurd hgt hlt.asymm) hsortedXs hsortedYs
    ((List.perm_ext_iff_of_nodup (hnodup hsortedXs) (hnodup hsortedYs)).mpr fun z => ?_)
  rw [mem_ascending hxs, mem_ascending hys, h]

/-! ## Rounded roots -/

variable {places : Int}

/-- The rounded values of roots, as far as rounding succeeds. -/
def rounded (places : Int) (xs : List Double) : List Double :=
  xs.filterMap fun x => (x.roundForDisplay places).toOption

theorem mem_rounded : z ∈ rounded places xs ↔ ∃ x ∈ xs, x.roundForDisplay places = .ok z := by
  have htoOption (x : Double) :
      (x.roundForDisplay places).toOption = some z ↔ x.roundForDisplay places = .ok z := by
    cases x.roundForDisplay places <;> simp [Except.toOption]
  simp only [rounded, List.mem_filterMap, htoOption]

theorem tidy_of_mem_rounded (hxs : ∀ x ∈ xs, x.isFinite = true) (hz : z ∈ rounded places xs) :
    z.Tidy := by
  obtain ⟨x, hx, hround⟩ := mem_rounded.mp hz
  exact Double.tidy_of_roundForDisplay (hxs x hx) hround

/-- Roots are shown, unless rounding breaks down. -/
theorem text_eq_ite (places : Int) (xs : List Double) (A : Arrangement) :
    text places xs A =
      if xs.all fun x => (x.roundForDisplay places).isOk then
        write (ascending A (rounded places xs))
      else .error .overflow := by
  rw [text, mapM_round_eq]
  split <;> rfl

/-- Where no rounding breaks down, the rounded values are written in order. -/
theorem text_eq_write (hok : ∀ x ∈ xs, ∃ z, x.roundForDisplay places = .ok z) :
    text places xs A = write (ascending A (rounded places xs)) := by
  have hall : (xs.all fun x => (x.roundForDisplay places).isOk) = true := by
    refine List.all_eq_true.mpr fun x hx => ?_
    obtain ⟨z, hz⟩ := hok x hx
    rw [hz]
    rfl
  rw [text_eq_ite, if_pos hall]

/-- **The text of roots depends on the set of their rounded values alone.** -/
theorem text_congr (hxs : ∀ x ∈ xs, x.isFinite = true)
    (hset : ∀ r, r ∈ xs.map (Double.roundForDisplay places) ↔
      r ∈ ys.map (Double.roundForDisplay places)) :
    text places xs A = text places ys B := by
  have hall : (xs.all fun x => (x.roundForDisplay places).isOk) =
      ys.all fun y => (y.roundForDisplay places).isOk := by
    have hiff : (∀ r ∈ xs.map (Double.roundForDisplay places), r.isOk = true) ↔
        ∀ r ∈ ys.map (Double.roundForDisplay places), r.isOk = true :=
      forall_congr' fun r => by rw [hset]
    rw [Bool.eq_iff_iff, List.all_eq_true, List.all_eq_true]
    simpa only [List.forall_mem_map] using hiff
  have hmem (z : Double) : z ∈ rounded places xs ↔ z ∈ rounded places ys := by
    have hvalue := hset (.ok z)
    simpa only [mem_rounded, List.mem_map] using hvalue
  rw [text_eq_ite, text_eq_ite, hall, ascending_eq (fun z hz => tidy_of_mem_rounded hxs hz) hmem]

/-- Numbers in strictly ascending order have different texts. -/
theorem nodup_text (hzs : ∀ z ∈ zs, z.Tidy) (h : zs.Pairwise fun x y => x.value < y.value) :
    (zs.map Double.text).Nodup := by
  refine List.pairwise_map.mpr (h.imp_of_mem fun hx hy hlt heq => ?_)
  exact hlt.ne (congrArg Double.value ((hzs _ hx).eq_of_text_eq (hzs _ hy) heq))

/-- Several roots are written as a set, a single one as an equation. -/
theorem write_cases (h : zs ≠ []) :
    (∃ z, zs = [z] ∧ write zs = .ok s!"x = {z.text}") ∨
      (2 ≤ zs.length ∧ write zs =
        .ok ("x \\in \\\x7b" ++ String.intercalate ", " (zs.map Double.text) ++ "\\\x7d")) := by
  match zs, h with
  | [z], _ => exact .inl ⟨z, rfl, rfl⟩
  | x :: y :: zs, _ => exact .inr ⟨by simp, rfl⟩

/-- **The text of finite roots is canonical**: it depends on the set of rounded values alone, and
not on the machine.  If no rounding breaks down, it shows these values, each of them once and in
strictly ascending order; no zero is negative; and it is a set exactly if there are at least two
values. -/
theorem text_canonical (hne : xs ≠ []) (hxs : ∀ x ∈ xs, x.isFinite = true)
    (hset : ∀ r, r ∈ xs.map (Double.roundForDisplay places) ↔
      r ∈ ys.map (Double.roundForDisplay places)) :
    text places xs A = text places ys B ∧
      ((∀ x ∈ xs, ∃ z, x.roundForDisplay places = .ok z) →
        ∃ zs : List Double, (∀ z, z ∈ zs ↔ ∃ x ∈ xs, x.roundForDisplay places = .ok z) ∧
          (zs.Pairwise fun x y => x.value < y.value) ∧ (zs.map Double.text).Nodup ∧
          (∀ z ∈ zs, z.isFinite = true ∧ z ≠ .zero true ∧ z.text ≠ "-0") ∧
          ((∃ z, zs = [z] ∧ text places xs A = .ok s!"x = {z.text}") ∨
            (2 ≤ zs.length ∧ text places xs A =
              .ok ("x \\in \\\x7b" ++ String.intercalate ", " (zs.map Double.text) ++
                "\\\x7d")))) := by
  refine ⟨text_congr hxs hset, fun hok => ?_⟩
  have hrounded : ∀ z ∈ rounded places xs, z.Tidy := fun z hz => tidy_of_mem_rounded hxs hz
  have htidy : ∀ z ∈ ascending A (rounded places xs), z.Tidy := fun z hz =>
    hrounded z ((mem_ascending hrounded).mp hz)
  have hsorted := ascending_sorted (A := A) hrounded
  have hmem (z : Double) : z ∈ ascending A (rounded places xs) ↔
      ∃ x ∈ xs, x.roundForDisplay places = .ok z := by
    rw [mem_ascending hrounded, mem_rounded]
  refine ⟨ascending A (rounded places xs), hmem, hsorted, nodup_text htidy hsorted, fun z hz =>
    ⟨(htidy z hz).finite, (htidy z hz).ne_minusZero, Double.text_ne_minusZero (htidy z hz).finite⟩,
    ?_⟩
  obtain ⟨x, hx⟩ := List.exists_mem_of_ne_nil xs hne
  obtain ⟨z, hz⟩ := hok x hx
  rw [text_eq_write hok]
  exact write_cases (List.ne_nil_of_mem ((hmem z).mpr ⟨x, hx, hz⟩))

/-- Two roots are rounded to one value, one is found twice, and one is the negative zero. -/
def crowded : List Double := [2, .ofDecimal false 10000000001 (-10), .zero true, 1, 2]

theorem map_crowded :
    crowded.map (Double.roundForDisplay 6) = [.ok 2, .ok 1, .ok 0, .ok 1, .ok 2] ∧
      [0, 1, 2].map (Double.roundForDisplay 6) = [.ok 0, .ok 1, .ok 2] := by
  have hzero : (0 : Double).roundForDisplay 6 = .ok 0 := eq_ok_of_toOption (by decide +kernel)
  have hone : (1 : Double).roundForDisplay 6 = .ok 1 := eq_ok_of_toOption (by decide +kernel)
  have htwo : (2 : Double).roundForDisplay 6 = .ok 2 := eq_ok_of_toOption (by decide +kernel)
  have hminus : (Double.zero true).roundForDisplay 6 = .ok 0 :=
    eq_ok_of_toOption (by decide +kernel)
  have hnear : (Double.ofDecimal false 10000000001 (-10)).roundForDisplay 6 = .ok 1 :=
    eq_ok_of_toOption (by decide +kernel)
  exact ⟨by simp only [crowded, List.map_cons, List.map_nil, hone, htwo, hminus, hnear],
    by simp only [List.map_cons, List.map_nil, hzero, hone, htwo]⟩

/-- The roots `2`, `1.0000000001`, `-0`, `1` and `2` have the text of `0`, `1` and `2`. -/
theorem text_canonical_crowded :
    (∀ x ∈ crowded, x.isFinite = true) ∧
      (∀ A B : Arrangement, text 6 crowded A = text 6 [0, 1, 2] B) ∧
      text 6 crowded = .ok "x \\in \\\x7b0, 1, 2\\\x7d" := by
  have hfinite : ∀ x ∈ crowded, x.isFinite = true := by decide +kernel
  have hset : ∀ r, r ∈ crowded.map (Double.roundForDisplay 6) ↔
      r ∈ [0, 1, 2].map (Double.roundForDisplay 6) := by
    intro r
    rw [map_crowded.1, map_crowded.2]
    simp only [List.mem_cons, List.not_mem_nil, or_false]
    tauto
  exact ⟨hfinite, fun A B => (text_canonical (List.cons_ne_nil _ _) hfinite hset).1,
    eq_ok_of_toOption (by decide +kernel)⟩

end Roots

end Stepwise
