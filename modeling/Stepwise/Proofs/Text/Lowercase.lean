/-
# Lower case is final

The tables send every capital to a character that is in none of them, so that lower-casing a text
again changes nothing.  The capital dotted I is the only character that becomes two, and no white
space is made.

* `Text.CaseRun.has`, `Text.CaseRun.target` : a run of capitals and its small letters;
* `Text.lowerChar_eq` : the small letter of a character, read off the runs;
* `Text.IsSmall` : characters that lower-casing leaves alone;
* `Text.isSmall_of_mem_lower`, `Text.lower_lower` : lower-casing is done once;
* `Text.length_lower` : by how much a text grows;
* `Text.head?_lower_cons`, `Text.getLast?_lowerFrom_concat` : the ends of a text.
-/
import Mathlib.Data.List.Basic
import Mathlib.Tactic.SplitIfs
import Stepwise.Text.Basic
import Stepwise.Text.Lowercase

namespace Stepwise.Text

/-! ## Runs of capitals -/

namespace CaseRun

/-- The code point is one of the capitals of the run. -/
def has (run : CaseRun) (n : Nat) : Bool :=
  run.first ≤ n && n ≤ run.last && (n - run.first) % run.step == 0

/-- The code point of the small letter of a capital. -/
def target (run : CaseRun) (n : Nat) : Nat := ((n : Int) + run.shift).toNat

/-- No small letter of the first run is a capital of the second: they lie apart, or alternate with
the capitals. -/
def misses (a b : CaseRun) : Bool :=
  Nat.blt (a.target a.last) b.first || Nat.blt b.last (a.target a.first) ||
    (b.step == 2 && (a.step == 2 || a.first == a.last) && (a.target a.first + b.first) % 2 == 1)

/-- The small letters of the run are characters, and none of them is white space. -/
def lands (run : CaseRun) : Bool :=
  decide (0 ≤ (run.first : Int) + run.shift) &&
    (Nat.blt (run.target run.last) 0xd800 ||
      (Nat.blt 0xdfff (run.target run.first) && Nat.blt (run.target run.last) 0x110000)) &&
    blankRanges.all fun range =>
      Nat.blt (run.target run.last) range.1 || Nat.blt range.2 (run.target run.first)

variable {run a b : CaseRun} {n : Nat}

theorem has_iff : run.has n = true ↔
    run.first ≤ n ∧ n ≤ run.last ∧ (n - run.first) % run.step = 0 := by
  simp [has, and_assoc]

/-- The code point of the capital dotted I, as a run of its own. -/
def dottedI : CaseRun := ⟨0x130, 0x130, 1, 0⟩

/-- A small letter of a run that lands, as a code point. -/
theorem target_eq (hlands : run.lands = true) (hn : run.has n = true) :
    (run.target n : Int) = n + run.shift := by
  simp only [lands, Bool.and_eq_true, decide_eq_true_eq] at hlands
  have hfirst := (has_iff.mp hn).1
  unfold target
  omega

theorem target_mem (hn : run.has n = true) :
    run.target run.first ≤ run.target n ∧ run.target n ≤ run.target run.last := by
  obtain ⟨hfirst, hlast, -⟩ := has_iff.mp hn
  unfold target
  omega

/-- The small letter is a character. -/
theorem toNat_target (hlands : run.lands = true) (hn : run.has n = true) :
    (Char.ofNat (run.target n)).toNat = run.target n := by
  obtain ⟨hfirst, hlast⟩ := target_mem hn
  simp only [lands, Bool.and_eq_true, Bool.or_eq_true, Nat.blt_eq] at hlands
  have hvalid : (run.target n).isValidChar := by
    unfold Nat.isValidChar
    omega
  rw [Char.ofNat, dif_pos hvalid]
  rfl

/-- The small letter is no white space. -/
theorem isBlank_target (hlands : run.lands = true) (hn : run.has n = true) :
    isBlank (Char.ofNat (run.target n)) = false := by
  obtain ⟨hfirst, hlast⟩ := target_mem hn
  rw [isBlank, Ranges.has, List.any_eq_false, toNat_target hlands hn]
  intro range hrange
  simp only [lands, Bool.and_eq_true, List.all_eq_true, Bool.or_eq_true, Nat.blt_eq] at hlands
  have hapart := hlands.2 range hrange
  simp only [Bool.and_eq_true, decide_eq_true_eq]
  omega

/-- The small letters of a run that misses another are none of its capitals. -/
theorem has_target (hlands : a.lands = true) (hmisses : a.misses b = true) (hn : a.has n = true) :
    b.has (a.target n) = false := by
  have htarget := target_eq hlands hn
  obtain ⟨hlower, hupper⟩ := target_mem hn
  have hfirst : (a.target a.first : Int) = a.first + a.shift := by
    simp only [lands, Bool.and_eq_true, decide_eq_true_eq] at hlands
    unfold target
    omega
  obtain ⟨hge, hle, hstep⟩ := has_iff.mp hn
  simp only [misses, Bool.or_eq_true, Bool.and_eq_true, Nat.blt_eq, beq_iff_eq] at hmisses
  rw [Bool.eq_false_iff]
  intro hhas
  obtain ⟨hbge, hble, hbstep⟩ := has_iff.mp hhas
  rcases hmisses with (hbefore | hafter) | ⟨⟨hb, ha⟩, hodd⟩
  · omega
  · omega
  · -- Small letters and capitals differ in parity.
    rw [hb] at hbstep
    have heven : (n - a.first) % 2 = 0 := by
      rcases ha with ha | hsingle
      · rwa [ha] at hstep
      · omega
    omega

end CaseRun

/-- Every run lands, and misses all runs and the capital dotted I. -/
theorem caseRuns_sound : (caseRuns.all fun a => a.lands && a.misses CaseRun.dottedI &&
    caseRuns.all fun b => a.misses b) = true := by
  decide +kernel

variable {c : Char} {s before after : List Char}

/-- The capitals among the first characters are those of the first run. -/
theorem toLower_eq (c : Char) : c.toLower =
    if CaseRun.has ⟨0x41, 0x5a, 1, 32⟩ c.toNat then Char.ofNat (c.toNat + 32) else c := by
  have hcapital : ∀ n < 0x5b, 0x41 ≤ n → (Char.ofNat n).toLower = Char.ofNat (n + 32) := by
    decide
  split_ifs with hhas
  · obtain ⟨hge, hle, -⟩ := CaseRun.has_iff.mp hhas
    have hlower := hcapital c.toNat (Nat.lt_succ_of_le hle) hge
    rwa [Char.ofNat_toNat] at hlower
  · refine dif_neg ?_
    rintro ⟨hge, hle⟩
    exact hhas (CaseRun.has_iff.mpr ⟨hge, hle, Nat.mod_one _⟩)

/-- The small letter of a character, read off the runs. -/
theorem lowerChar_eq (c : Char) : lowerChar c =
    match caseRuns.find? fun run => run.has c.toNat with
    | some run => Char.ofNat (run.target c.toNat)
    | none => c := by
  by_cases hascii : c.toNat < 0x80
  · obtain ⟨runs, hruns, hlate⟩ : ∃ runs, caseRuns = ⟨0x41, 0x5a, 1, 32⟩ :: runs ∧
        runs.all (fun run => Nat.ble 0x80 run.first) = true :=
      ⟨caseRuns.tail, rfl, by decide +kernel⟩
    have hrest : runs.find? (fun run => run.has c.toNat) = none := by
      rw [List.find?_eq_none]
      intro run hrun hhas
      have hfirst := Nat.le_of_ble_eq_true (List.all_eq_true.mp hlate run hrun)
      have hle := (CaseRun.has_iff.mp hhas).1
      omega
    rw [lowerChar, if_pos hascii, toLower_eq, hruns, List.find?_cons]
    cases hhas : CaseRun.has ⟨0x41, 0x5a, 1, 32⟩ c.toNat with
    | true => rfl
    | false =>
      rw [hrest]
      rfl
  · rw [lowerChar, if_neg hascii]
    rfl

/-! ## Small letters -/

/-- The character is no capital. -/
def IsSmall (c : Char) : Prop :=
  c ≠ '\u0130' ∧ ∀ run ∈ caseRuns, run.has c.toNat = false

instance (c : Char) : Decidable (IsSmall c) := inferInstanceAs (Decidable (_ ∧ _))

/-- A character that has a small letter other than itself is not made by lower-casing. -/
theorem of_find?_eq_some {run : CaseRun}
    (h : caseRuns.find? (fun run => run.has c.toNat) = some run) :
    IsSmall (Char.ofNat (run.target c.toNat)) ∧
      isBlank (Char.ofNat (run.target c.toNat)) = false := by
  have hhas : run.has c.toNat = true :=
    List.find?_some (p := fun run : CaseRun => run.has c.toNat) h
  have hsound := List.all_eq_true.mp caseRuns_sound run (List.mem_of_find?_eq_some h)
  simp only [Bool.and_eq_true, List.all_eq_true] at hsound
  obtain ⟨⟨hlands, hdotted⟩, hmisses⟩ := hsound
  have htarget := CaseRun.toNat_target hlands hhas
  refine ⟨⟨?_, fun b hb => ?_⟩, CaseRun.isBlank_target hlands hhas⟩
  · intro heq
    have hnone := CaseRun.has_target hlands hdotted hhas
    rw [← htarget, heq] at hnone
    exact absurd hnone (by decide)
  · rw [htarget]
    exact CaseRun.has_target hlands (hmisses b hb) hhas

/-- What a character becomes: one of the two small sigmas, a part of the dotted I, or what the
tables say. -/
theorem of_mem_lowerAt {d : Char} (h : d ∈ lowerAt before c after) :
    (d = '\u03c2' ∨ d = '\u03c3' ∨ d = 'i' ∨ d = '\u0307') ∨ c ≠ '\u0130' ∧ d = lowerChar c := by
  rw [lowerAt] at h
  split_ifs at h with hsigma hfinal hdotted
  · exact .inl (.inl (List.mem_singleton.mp h))
  · exact .inl (.inr (.inl (List.mem_singleton.mp h)))
  · simp only [List.mem_cons, List.not_mem_nil, or_false] at h
    exact .inl (.inr (.inr h))
  · exact .inr ⟨hdotted, List.mem_singleton.mp h⟩

/-- The small letters of a character are small. -/
theorem isSmall_of_mem_lowerAt {d : Char} (h : d ∈ lowerAt before c after) : IsSmall d := by
  rcases of_mem_lowerAt h with hspecial | ⟨hdotted, rfl⟩
  · rcases hspecial with rfl | rfl | rfl | rfl <;> decide +kernel
  · rw [lowerChar_eq]
    cases hfind : caseRuns.find? fun run => run.has c.toNat with
    | some run => exact (of_find?_eq_some hfind).1
    | none =>
      refine ⟨hdotted, fun run hrun => ?_⟩
      simpa using List.find?_eq_none.mp hfind run hrun

/-- The small letters of what is no white space are no white space. -/
theorem isBlank_of_mem_lowerAt {d : Char} (hc : isBlank c = false)
    (h : d ∈ lowerAt before c after) : isBlank d = false := by
  rcases of_mem_lowerAt h with hspecial | ⟨-, rfl⟩
  · rcases hspecial with rfl | rfl | rfl | rfl <;> decide
  · rw [lowerChar_eq]
    cases hfind : caseRuns.find? fun run => run.has c.toNat with
    | some run => exact (of_find?_eq_some hfind).2
    | none => exact hc

/-- A small letter stays. -/
theorem lowerAt_of_isSmall (h : IsSmall c) (before after : List Char) :
    lowerAt before c after = [c] := by
  obtain ⟨hdotted, hruns⟩ := h
  have hsigma : c ≠ '\u03a3' := by
    rintro rfl
    have hrun : ¬ ∀ run ∈ caseRuns, run.has ('\u03a3').toNat = false := by decide +kernel
    exact hrun hruns
  have hfind : caseRuns.find? (fun run => run.has c.toNat) = none := by
    rw [List.find?_eq_none]
    exact fun run hrun => Bool.eq_false_iff.mp (hruns run hrun)
  rw [lowerAt, if_neg hsigma, if_neg hdotted, lowerChar_eq, hfind]

/-- How many small letters a character has. -/
theorem length_lowerAt (before : List Char) (c : Char) (after : List Char) :
    (lowerAt before c after).length = if c = '\u0130' then 2 else 1 := by
  rw [lowerAt]
  by_cases hsigma : c = '\u03a3'
  · subst hsigma
    rfl
  · rw [if_neg hsigma]
    split <;> rfl

/-! ## Whole texts -/

theorem isSmall_of_mem_lowerFrom {d : Char} (h : d ∈ lowerFrom before s) : IsSmall d := by
  induction s generalizing before with
  | nil => cases h
  | cons c s ih =>
    rcases List.mem_append.mp h with hhead | htail
    · exact isSmall_of_mem_lowerAt hhead
    · exact ih htail

theorem isSmall_of_mem_lower {d : Char} (h : d ∈ lower s) : IsSmall d := isSmall_of_mem_lowerFrom h

theorem lowerFrom_of_isSmall (h : ∀ c ∈ s, IsSmall c) (before : List Char) :
    lowerFrom before s = s := by
  induction s generalizing before with
  | nil => rfl
  | cons c s ih =>
    rw [List.forall_mem_cons] at h
    rw [lowerFrom, lowerAt_of_isSmall h.1, ih h.2]
    rfl

/-- **Lower-casing twice is lower-casing once.** -/
theorem lower_lower (s : List Char) : lower (lower s) = lower s :=
  lowerFrom_of_isSmall (fun _ => isSmall_of_mem_lower) []

theorem length_lowerFrom (before s : List Char) :
    (lowerFrom before s).length = s.length + s.count '\u0130' := by
  induction s generalizing before with
  | nil => rfl
  | cons c s ih =>
    rw [lowerFrom, List.length_append, length_lowerAt, ih, List.length_cons, List.count_cons]
    by_cases hc : c = '\u0130'
    · simp only [hc, beq_self_eq_true, if_true]
      omega
    · simp only [if_neg hc, beq_eq_false_iff_ne.mpr hc, Bool.false_eq_true, if_false]
      omega

/-- A text grows by one character for each capital dotted I. -/
theorem length_lower (s : List Char) : (lower s).length = s.length + s.count '\u0130' :=
  length_lowerFrom [] s

/-! ## The ends of a text -/

theorem lowerAt_ne_nil (before : List Char) (c : Char) (after : List Char) :
    lowerAt before c after ≠ [] := by
  rw [← List.length_pos_iff, length_lowerAt]
  split <;> decide

/-- The first character is lower-cased first. -/
theorem head?_lower_cons (c : Char) (s : List Char) :
    (lower (c :: s)).head? = (lowerAt [] c s).head? := by
  rw [lower, lowerFrom, List.head?_append_of_ne_nil _ (lowerAt_ne_nil _ _ _)]

/-- The last character is lower-cased last. -/
theorem getLast?_lowerFrom_concat (before s : List Char) (c : Char) :
    (lowerFrom before (s ++ [c])).getLast? = (lowerAt (s.reverse ++ before) c []).getLast? := by
  induction s generalizing before with
  | nil =>
    rw [List.nil_append, lowerFrom, lowerFrom, List.append_nil]
    rfl
  | cons d s ih =>
    have hne : lowerFrom (d :: before) (s ++ [c]) ≠ [] := by
      rw [← List.length_pos_iff, length_lowerFrom, List.length_append]
      exact Nat.add_pos_left (Nat.succ_pos _) _
    rw [List.cons_append, lowerFrom, List.getLast?_append_of_ne_nil _ hne, ih, List.reverse_cons,
      List.append_assoc]
    rfl

end Stepwise.Text
