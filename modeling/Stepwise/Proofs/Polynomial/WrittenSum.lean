/-
# Sums written and cut again

A written sum has a plus sign before every term but the first, which is merged with a minus sign at
the start of the term.  A plus sign before a minus sign only adds an empty piece, so that merging
signs does not change how a text is cut.  Hence a written sum is cut into what its terms are cut
into, whatever the terms are.

* `Polynomial.termTexts_mergeSigns` : merged signs do not change how a text is cut;
* `Polynomial.termTexts_writeSum` : the terms of a written sum;
* `Polynomial.Uncut` : texts that stay whole when a sum is cut at its signs.
-/
import Mathlib.Data.List.Basic
import Stepwise.Proofs.Polynomial.Cut

namespace Stepwise.Polynomial

/-! ## Merged signs -/

/-- Where signs are merged from some place on, the text is cut as before. -/
theorem pieces_replaceFrom (s before : List Char) (skipped : Nat) :
    pieces (before ++ marked (Text.replaceFrom ['+', ' ', '-'] ['-', ' '] skipped s)) =
      pieces (before ++ marked (s.drop skipped)) := by
  induction s generalizing before skipped with
  | nil =>
    rw [List.drop_nil, Text.replaceFrom]
  | cons c s ih =>
    cases skipped with
    | succ skipped =>
      rw [Text.replaceFrom, List.drop_succ_cons]
      exact ih before skipped
    | zero =>
      rw [Text.replaceFrom, List.drop_zero]
      split
      · next hfront =>
        -- The plus sign that is dropped stands before the one that marks the minus sign.
        obtain ⟨t, ht⟩ := List.isPrefixOf_iff_prefix.mp hfront
        obtain ⟨rfl, rfl⟩ := List.cons.inj ht
        have hmerged := ih (before ++ ['+', '-']) 2
        rw [List.append_assoc, List.append_assoc] at hmerged
        calc pieces (before ++ '+' :: '-' :: marked
              (Text.replaceFrom ['+', ' ', '-'] ['-', ' '] 2 (' ' :: '-' :: t)))
            = pieces (before ++ '+' :: '-' :: marked t) := hmerged
          _ = pieces (before ++ '+' :: '+' :: '-' :: marked t) := by
              rw [pieces_append_plus, pieces_append_plus, pieces_plus]
      · have hkeep := ih (before ++ marked [c]) 0
        rw [List.append_assoc, List.append_assoc, ← marked_append, ← marked_append] at hkeep
        exact hkeep

/-- **Merged signs do not change how a text is cut.** -/
theorem termTexts_mergeSigns (s : List Char) : termTexts (mergeSigns s) = termTexts s :=
  pieces_replaceFrom s [] 0

/-! ## Written sums -/

/-- Joined terms are cut one by one. -/
theorem termTexts_join (ts : List (List Char)) :
    termTexts (Text.join [' ', '+', ' '] ts) = ts.flatMap termTexts := by
  induction ts with
  | nil => rfl
  | cons t ts ih =>
    cases ts with
    | nil =>
      rw [List.flatMap_singleton]
      rfl
    | cons u ts =>
      have hjoin : Text.join [' ', '+', ' '] (t :: u :: ts) =
          t ++ [' '] ++ '+' :: ' ' :: Text.join [' ', '+', ' '] (u :: ts) := by
        simp [Text.join]
      rw [hjoin, termTexts_append_plus, termTexts_append_blank, List.flatMap_cons, ← ih]
      rfl

/-- A sum in which nothing is written is a zero, and every other one is cut into what its terms are
cut into. -/
theorem termTexts_writeSum_cases (ts : List (List Char)) :
    writeSum ts = ['0'] ∧ ts.flatMap termTexts = [] ∨
      termTexts (writeSum ts) = ts.flatMap termTexts := by
  have hsum := termTexts_mergeSigns (Text.join [' ', '+', ' '] ts)
  rw [termTexts_join] at hsum
  simp only [writeSum]
  split
  · next hempty =>
    rw [List.isEmpty_iff.mp hempty] at hsum
    exact .inl ⟨rfl, hsum.symm⟩
  · exact .inr hsum

/-- **A written sum is cut into what its terms are cut into**, unless nothing is written. -/
theorem termTexts_writeSum {ts : List (List Char)} (h : ts.flatMap termTexts ≠ []) :
    termTexts (writeSum ts) = ts.flatMap termTexts :=
  (termTexts_writeSum_cases ts).resolve_left fun hzero => h hzero.2

/-- A piece of a written sum is a piece of a term, or the zero that stands for no terms. -/
theorem of_mem_termTexts_writeSum {ts : List (List Char)} {s : List Char}
    (h : s ∈ termTexts (writeSum ts)) : s = ['0'] ∨ ∃ t ∈ ts, s ∈ termTexts t := by
  rcases termTexts_writeSum_cases ts with ⟨hzero, -⟩ | hcut
  · rw [hzero] at h
    exact .inl (List.mem_singleton.mp h)
  · rw [hcut] at h
    exact .inr (List.mem_flatMap.mp h)

/-! ## Terms that stay whole -/

/-- A text that stays whole when a sum is cut at its signs. -/
structure Uncut (t : List Char) : Prop where
  ne_nil : t ≠ []
  blank : ∀ c ∈ t, Text.isBlank c = false
  plus : '+' ∉ t
  minus : '-' ∉ t.tail

namespace Uncut

variable {t : List Char}

/-- A text without signs stays whole, with a minus before it or without. -/
theorem of_sign {sign body : List Char} (hsign : sign = [] ∨ sign = ['-'])
    (hne : body ≠ []) (hbody : ∀ c ∈ body, Text.isBlank c = false ∧ c ≠ '+' ∧ c ≠ '-') :
    Uncut (sign ++ body) := by
  have hminus : '-' ∉ body := fun hmem => (hbody _ hmem).2.2 rfl
  have hplus : '+' ∉ body := fun hmem => (hbody _ hmem).2.1 rfl
  rcases hsign with rfl | rfl
  · exact ⟨hne, fun c hc => (hbody c hc).1, hplus, fun hmem => hminus (List.mem_of_mem_tail hmem)⟩
  · refine ⟨by simp, ?_, ?_, hminus⟩
    · intro c hc
      rcases List.mem_cons.mp hc with rfl | hc
      · decide
      · exact (hbody c hc).1
    · intro hmem
      rcases List.mem_cons.mp hmem with heq | hmem
      · exact absurd heq (by decide)
      · exact hplus hmem

theorem removeBlanks_eq (h : Uncut t) : Text.removeBlanks t = t := by
  refine List.filter_eq_self.mpr ?_
  intro c hc
  rw [h.blank c hc]
  rfl

/-- A minus at the start is marked. -/
theorem mark_eq (h : Uncut t) : mark t = t ∨ mark t = '+' :: t := by
  obtain ⟨c, s, rfl⟩ := List.exists_cons_of_ne_nil h.ne_nil
  by_cases hc : c = '-'
  · subst hc
    have hs := mark_of_notMem h.minus
    exact .inr (congrArg ('+' :: '-' :: ·) hs)
  · refine .inl (mark_of_notMem ?_)
    intro hmem
    rcases List.mem_cons.mp hmem with heq | hmem
    · exact hc heq.symm
    · exact h.minus hmem

/-- Cutting yields the text itself. -/
theorem termTexts_eq (h : Uncut t) : termTexts t = [t] := by
  have hwhole := pieces_append (t := []) h.plus h.ne_nil (by simp)
  rw [List.append_nil] at hwhole
  rw [Polynomial.termTexts_eq, h.removeBlanks_eq]
  rcases h.mark_eq with heq | heq
  · rw [heq]
    exact hwhole
  · rw [heq, pieces_plus]
    exact hwhole

/-- Texts that stay whole are the terms of their sum. -/
theorem termTexts_writeSum {ts : List (List Char)} (hne : ts ≠ []) (h : ∀ t ∈ ts, Uncut t) :
    termTexts (writeSum ts) = ts := by
  have hcut : ts.flatMap termTexts = ts := by
    rw [List.flatMap_congr fun t ht => (h t ht).termTexts_eq]
    exact List.flatMap_singleton' ts
  have hsum := Polynomial.termTexts_writeSum (by rwa [hcut])
  rwa [hcut] at hsum

end Uncut

end Stepwise.Polynomial
