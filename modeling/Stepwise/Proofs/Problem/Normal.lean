/-
# The normal form of a problem

What is accepted of a raw text has no white space at its ends and is its own normal form.  The limit
is put on the raw text, and lower-casing turns a capital dotted I into two characters, so that a
normal form can be longer than a text may be.

* `Text.Trimmed` : texts without white space at their ends;
* `Text.trimmed_trim`, `Text.trim_of_trimmed`, `Text.trimmed_lower` : how they come about;
* `Problem.normalize_normalize` : a normal form is its own normal form;
* `Problem.length_normalize` : the length of a normal form;
* `Problem.accept_normalize` : when a normal form is accepted;
* `Problem.accept_of_accepted` : what is accepted, and what is accepted of that.
-/
import Stepwise.Proofs.Problem.Outcome
import Stepwise.Proofs.Text.Lowercase

namespace Stepwise

namespace Text

variable {s : List Char}

/-! ## White space at the ends -/

/-- The text neither starts nor ends with white space. -/
def Trimmed (s : List Char) : Prop :=
  (∀ c ∈ s.head?, isBlank c = false) ∧ ∀ c ∈ s.getLast?, isBlank c = false

instance (s : List Char) : Decidable (Trimmed s) := inferInstanceAs (Decidable (_ ∧ _))

/-- Where white space has been dropped, none is left in front. -/
theorem isBlank_of_mem_head?_trimStart : ∀ c ∈ (trimStart s).head?, isBlank c = false := by
  intro c hc
  have hnot := List.head?_dropWhile_not isBlank s
  rw [trimStart] at hc
  rwa [Option.mem_def.mp hc] at hnot

/-- Dropping white space at the end keeps the start. -/
theorem trimEnd_isPrefix (s : List Char) : (trimEnd s).IsPrefix s := by
  rw [trimEnd, ← List.reverse_suffix, List.reverse_reverse]
  exact List.dropWhile_suffix isBlank

theorem trim_sublist (s : List Char) : (trim s).Sublist s :=
  (trimEnd_isPrefix _).sublist.trans (List.dropWhile_sublist isBlank)

theorem trimmed_trim (s : List Char) : Trimmed (trim s) := by
  constructor
  · intro c hc
    -- The first character of a prefix is that of the whole.
    obtain ⟨rest, hrest⟩ := trimEnd_isPrefix (trimStart s)
    have hhead : c ∈ (trim s ++ rest).head? := by
      rw [List.head?_append, Option.mem_def, Option.mem_def.mp hc]
      rfl
    rw [trim, hrest] at hhead
    exact isBlank_of_mem_head?_trimStart c hhead
  · intro c hc
    rw [trim, trimEnd, List.getLast?_reverse] at hc
    exact isBlank_of_mem_head?_trimStart c hc

theorem trimStart_of_head? (h : ∀ c ∈ s.head?, isBlank c = false) : trimStart s = s := by
  cases s with
  | nil => rfl
  | cons c s => exact List.dropWhile_cons_of_neg (Bool.eq_false_iff.mp (h c rfl))

theorem trim_of_trimmed (h : Trimmed s) : trim s = s := by
  have hreverse : trimStart s.reverse = s.reverse := by
    refine trimStart_of_head? ?_
    rw [List.head?_reverse]
    exact h.2
  rw [trim, trimStart_of_head? h.1, trimEnd]
  rw [trimStart] at hreverse
  rw [hreverse, List.reverse_reverse]

/-- **Lower-casing makes no white space at the ends of a text.** -/
theorem trimmed_lower (h : Trimmed s) : Trimmed (lower s) := by
  constructor
  · intro d hd
    cases s with
    | nil => cases hd
    | cons c s =>
      rw [head?_lower_cons] at hd
      exact isBlank_of_mem_lowerAt (h.1 c rfl) (List.mem_of_mem_head? hd)
  · intro d hd
    rcases List.eq_nil_or_concat s with rfl | ⟨s, c, rfl⟩
    · cases hd
    · rw [List.concat_eq_append] at h hd
      rw [lower, getLast?_lowerFrom_concat] at hd
      exact isBlank_of_mem_lowerAt (h.2 c (by simp)) (List.mem_of_getLast? hd)

end Text

namespace Problem

open Text

variable {settings : Settings} {s t : List Char}

/-! ## Normal forms -/

theorem trimmed_normalize (s : List Char) : Trimmed (normalize s) := trimmed_lower (trimmed_trim s)

/-- **A normal form is its own normal form.** -/
theorem normalize_normalize (s : List Char) : normalize (normalize s) = normalize s := by
  rw [normalize, trim_of_trimmed (trimmed_normalize s), normalize, lower_lower]

theorem length_normalize (s : List Char) :
    (normalize s).length = (trim s).length + (trim s).count '\u0130' :=
  length_lower (trim s)

/-- A text without capital dotted I does not grow. -/
theorem length_normalize_le (h : '\u0130' ∉ s) : (normalize s).length ≤ s.length := by
  have hcount : (trim s).count '\u0130' = 0 :=
    List.count_eq_zero_of_not_mem fun hmem => h ((trim_sublist s).mem hmem)
  rw [length_normalize, hcount, Nat.add_zero]
  exact (trim_sublist s).length_le

theorem length_le_of_accept (h : accept settings s = .ok t) :
    (s.length : Int) ≤ settings.maxInputLength := by
  refine Int.not_lt.mp fun hlong => ?_
  rw [accept, if_pos hlong] at h
  cases h

theorem accept_of_length_le (hlength : (s.length : Int) ≤ settings.maxInputLength)
    (hne : normalize s ≠ []) : accept settings s = .ok (normalize s) := by
  rw [accept, if_neg (Int.not_lt.mpr hlength)]
  exact if_neg (by simpa using hne)

/-- A normal form is accepted as it is, unless it is too long. -/
theorem accept_normalize (settings : Settings) (hne : normalize s ≠ []) :
    accept settings (normalize s) =
      if settings.maxInputLength < (normalize s).length then
        .error (.tooLong settings.maxInputLength)
      else .ok (normalize s) := by
  split
  · next hlong => rw [accept, if_pos hlong]
  · next hlength =>
    have haccept := accept_of_length_le (s := normalize s) (Int.not_lt.mp hlength)
      (by rwa [normalize_normalize])
    rwa [normalize_normalize] at haccept

/-- **What is accepted is a normal form**: it is not empty, has no white space at its ends and is
its own normal form.  It is longer than the trimmed text by the number of capital dotted I's in it;
as long as that keeps the limit - always, where there are none of them - it is accepted again
unchanged, and otherwise it is refused as too long. -/
theorem accept_of_accepted (h : accept settings s = .ok t) :
    (t ≠ [] ∧ Trimmed t ∧ normalize t = t) ∧
    t.length = (trim s).length + (trim s).count '\u0130' ∧
    ((t.length : Int) ≤ settings.maxInputLength → accept settings t = .ok t) ∧
    (settings.maxInputLength < (t.length : Int) →
      accept settings t = .error (.tooLong settings.maxInputLength)) ∧
    ('\u0130' ∉ s → (t.length : Int) ≤ settings.maxInputLength) := by
  have hlength := length_le_of_accept h
  obtain ⟨rfl, hne⟩ := of_accept h
  have haccept := accept_normalize settings hne
  refine ⟨⟨hne, trimmed_normalize s, normalize_normalize s⟩, length_normalize s, fun hle => ?_,
    fun hlt => ?_, fun hnone => ?_⟩
  · rw [haccept, if_neg (Int.not_lt.mpr hle)]
  · rw [haccept, if_pos hlt]
  · have hle := length_normalize_le hnone
    omega

/-- A text with a tabulator, capitals and a no-break space. -/
theorem accept_of_accepted_mixed :
    accept {} "\t 2X^2 = \u0130\u00a0".toList = .ok "2x^2 = i\u0307".toList ∧
    Trimmed "2x^2 = i\u0307".toList ∧
    accept {} "2x^2 = i\u0307".toList = .ok "2x^2 = i\u0307".toList := by
  have haccept : accept {} "\t 2X^2 = \u0130\u00a0".toList = .ok "2x^2 = i\u0307".toList :=
    eq_ok_of_toOption (by decide +kernel)
  obtain ⟨⟨-, htrimmed, -⟩, -, hagain, -, -⟩ := accept_of_accepted haccept
  exact ⟨haccept, htrimmed, hagain (by decide)⟩

/-- Capital dotted I's alone become twice as many characters. -/
theorem length_normalize_replicate (n : Nat) :
    (normalize (List.replicate n '\u0130')).length = 2 * n := by
  have hblank : ∀ c ∈ List.replicate n '\u0130', isBlank c = false := by
    intro c hc
    rw [List.eq_of_mem_replicate hc]
    decide
  have htrim : trim (List.replicate n '\u0130') = List.replicate n '\u0130' :=
    trim_of_trimmed ⟨fun c hc => hblank c (List.mem_of_mem_head? hc),
      fun c hc => hblank c (List.mem_of_getLast? hc)⟩
  rw [length_normalize, htrim, List.count_replicate_self, List.length_replicate]
  omega

/-- A text of 5001 capital dotted I's is within the limit and accepted.  What is accepted of it has
10002 characters and is refused. -/
theorem accepted_too_long : ∃ t, accept {} (List.replicate 5001 '\u0130') = .ok t ∧
    t.length = 10002 ∧ ({} : Settings).maxInputLength < (t.length : Int) ∧
    accept {} t = .error (.tooLong 10000) := by
  have hlength := length_normalize_replicate 5001
  have hne : normalize (List.replicate 5001 '\u0130') ≠ [] := by
    rw [← List.length_pos_iff, hlength]
    decide
  have hlong : ({} : Settings).maxInputLength <
      ((normalize (List.replicate 5001 '\u0130')).length : Int) := by
    rw [hlength]
    decide
  have haccept : accept {} (List.replicate 5001 '\u0130') =
      .ok (normalize (List.replicate 5001 '\u0130')) :=
    accept_of_length_le (by rw [List.length_replicate]; decide) hne
  refine ⟨_, haccept, hlength, hlong, ?_⟩
  rw [accept_normalize {} hne, if_pos hlong]

end Problem

end Stepwise
