/-
# Texts cut at their signs

How a polynomial text is cut into terms, and how `x` and a multiplication sign are taken out of a
term.

* `Text.exists_blanks_append`, `Text.trim_append` : white space at the ends of a text;
* `Text.splitAtChar_separator` : a text is split on both sides of a separator;
* `Text.partitionAt_append` : a text around the first occurrence of a character;
* `Polynomial.pieces` : the pieces between plus signs that are not empty;
* `Polynomial.pieces_append` : terms are cut off one by one;
* `Polynomial.exists_pieces_append` : a text without plus signs is put to the last piece;
* `Polynomial.termTexts_append_plus`, `Polynomial.termTexts_append_minus` : a text is cut at its
  signs;
* `Polynomial.readTerms_append_plus`, `Polynomial.readTerms_append_minus` : what is read on both
  sides of a sign.
-/
import Stepwise.Polynomial.Reading

namespace Stepwise

namespace Text

variable {a : Char} {s t : List Char}

/-! ## White space -/

/-- A text is white space and a text that does not start with any. -/
theorem exists_blanks_append (s : List Char) :
    ∃ blanks t, s = blanks ++ t ∧ (∀ c ∈ blanks, isBlank c = true) ∧
      ∀ c ∈ t.head?, isBlank c = false := by
  induction s with
  | nil => exact ⟨[], [], rfl, by simp, by simp⟩
  | cons c s ih =>
    by_cases hc : isBlank c = true
    · obtain ⟨blanks, t, rfl, hblanks, ht⟩ := ih
      exact ⟨c :: blanks, t, rfl, by simpa [hc] using hblanks, ht⟩
    · exact ⟨[], c :: s, rfl, by simp, by simpa using hc⟩

/-- Without its leading white space, the second part is left. -/
theorem trimStart_append (hs : ∀ c ∈ s, isBlank c = true) (ht : ∀ c ∈ t.head?, isBlank c = false) :
    trimStart (s ++ t) = t := by
  rw [trimStart, List.dropWhile_append_of_pos hs]
  cases t with
  | nil => rfl
  | cons c t => rw [List.dropWhile_cons_of_neg (by simp [ht c rfl])]

/-- White space at the end does not matter. -/
theorem trim_append (h : ∀ c ∈ t, isBlank c = true) :
    trim (s ++ t) = trim s := by
  have hend (u : List Char) : trimEnd (u ++ t) = trimEnd u := by
    have hreverse : ∀ c ∈ t.reverse, isBlank c = true := fun c hc => h c (List.mem_reverse.mp hc)
    rw [trimEnd, List.reverse_append, List.dropWhile_append_of_pos hreverse, trimEnd]
  have hblank : trimStart t = [] := by
    have hnil := trimStart_append h (t := []) (by simp)
    rwa [List.append_nil] at hnil
  rw [trim, trimStart, List.dropWhile_append]
  split
  · next hs =>
    rw [List.isEmpty_iff] at hs
    rw [trim, trimStart, hs]
    exact congrArg trimEnd hblank
  · exact hend _

/-- A character that is no white space is not trimmed. -/
theorem mem_trim (ha : isBlank a = false) (h : a ∈ s) : a ∈ trim s := by
  have hdrop {u : List Char} (hu : a ∈ u) : a ∈ u.dropWhile isBlank := by
    obtain ⟨blanks, t, rfl, hblanks, ht⟩ := exists_blanks_append u
    have htrim := trimStart_append hblanks ht
    rw [trimStart] at htrim
    rw [htrim]
    rcases List.mem_append.mp hu with hu | hu
    · rw [hblanks a hu] at ha
      cases ha
    · exact hu
  exact List.mem_reverse.mpr (hdrop (List.mem_reverse.mpr (hdrop h)))

/-! ## Splitting -/

theorem splitAtChar_of_notMem (h : a ∉ s) : splitAtChar a s = [s] := by
  induction s with
  | nil => rfl
  | cons c s ih =>
    have hc : c ≠ a := fun heq => h (by simp [heq])
    rw [splitAtChar, if_neg hc, ih fun hs => h (List.mem_cons_of_mem _ hs)]

theorem splitAtChar_ne_nil (a : Char) (s : List Char) : splitAtChar a s ≠ [] := by
  cases s with
  | nil => exact List.cons_ne_nil _ _
  | cons c s =>
    rw [splitAtChar]
    split
    · exact List.cons_ne_nil _ _
    · split <;> exact List.cons_ne_nil _ _

/-- A text is split on both sides of a separator. -/
theorem splitAtChar_separator (a : Char) (s t : List Char) :
    splitAtChar a (s ++ a :: t) = splitAtChar a s ++ splitAtChar a t := by
  induction s with
  | nil =>
    show splitAtChar a (a :: t) = [] :: splitAtChar a t
    rw [splitAtChar, if_pos rfl]
  | cons c s ih =>
    obtain ⟨piece, pieces, hs⟩ := List.exists_cons_of_ne_nil (splitAtChar_ne_nil a s)
    rw [List.cons_append, splitAtChar, splitAtChar, ih, hs]
    split <;> rfl

/-- A piece without the separator comes first. -/
theorem splitAtChar_append (h : a ∉ s) (t : List Char) :
    splitAtChar a (s ++ a :: t) = s :: splitAtChar a t := by
  rw [splitAtChar_separator, splitAtChar_of_notMem h]
  rfl

/-- A text without the separator is put to the last piece. -/
theorem exists_splitAtChar_append (a : Char) (s : List Char) :
    ∃ front last, splitAtChar a s = front ++ [last] ∧
      ∀ t, a ∉ t → splitAtChar a (s ++ t) = front ++ [last ++ t] := by
  induction s with
  | nil => exact ⟨[], [], rfl, fun t ht => splitAtChar_of_notMem ht⟩
  | cons c s ih =>
    obtain ⟨front, last, hs, hall⟩ := ih
    by_cases hc : c = a
    · refine ⟨[] :: front, last, ?_, fun t ht => ?_⟩
      · rw [splitAtChar, if_pos hc, hs]
        rfl
      · rw [List.cons_append, splitAtChar, if_pos hc, hall t ht]
        rfl
    · -- The character goes to the first piece, which is the last one if there is no other.
      cases front with
      | nil =>
        refine ⟨[], c :: last, ?_, fun t ht => ?_⟩
        · rw [splitAtChar, if_neg hc, hs]
          rfl
        · rw [List.cons_append, splitAtChar, if_neg hc, hall t ht]
          rfl
      | cons piece front =>
        refine ⟨(c :: piece) :: front, last, ?_, fun t ht => ?_⟩
        · rw [splitAtChar, if_neg hc, hs]
          rfl
        · rw [List.cons_append, splitAtChar, if_neg hc, hall t ht]
          rfl

theorem subset_of_mem_splitAtChar {piece : List Char} (h : piece ∈ splitAtChar a s) :
    piece ⊆ s := by
  induction s generalizing piece with
  | nil =>
    rw [List.mem_singleton.mp h]
    exact List.nil_subset _
  | cons c s ih =>
    obtain ⟨first, rest, hs⟩ := List.exists_cons_of_ne_nil (splitAtChar_ne_nil a s)
    have hmore : ∀ p ∈ first :: rest, p ⊆ c :: s := fun p hp =>
      List.subset_cons_of_subset c (ih (hs ▸ hp))
    rw [splitAtChar, hs] at h
    split at h
    · rcases List.mem_cons.mp h with rfl | h
      · exact List.nil_subset _
      · exact hmore piece h
    · rcases List.mem_cons.mp h with rfl | h
      · exact List.cons_subset_cons c (ih (hs ▸ List.mem_cons_self))
      · exact hmore piece (List.mem_cons_of_mem first h)

/-- The pieces and the separators make up the text. -/
theorem eq_of_splitAtChar {piece : List Char} {pieces : List (List Char)}
    (h : splitAtChar a s = piece :: pieces) : s = piece ++ pieces.flatMap (a :: ·) := by
  induction s generalizing piece pieces with
  | nil =>
    cases h
    rfl
  | cons c s ih =>
    obtain ⟨first, rest, hs⟩ := List.exists_cons_of_ne_nil (splitAtChar_ne_nil a s)
    have htext := ih hs
    rw [splitAtChar, hs] at h
    split at h
    · next hc =>
      cases h
      rw [htext, hc]
      rfl
    · cases h
      rw [List.cons_append, ← htext]

/-- No piece has the separator. -/
theorem notMem_of_mem_splitAtChar {piece : List Char} (h : piece ∈ splitAtChar a s) :
    a ∉ piece := by
  induction s generalizing piece with
  | nil =>
    rw [List.mem_singleton.mp h]
    exact List.not_mem_nil
  | cons c s ih =>
    obtain ⟨first, rest, hs⟩ := List.exists_cons_of_ne_nil (splitAtChar_ne_nil a s)
    rw [splitAtChar, hs] at h
    split at h
    · rcases List.mem_cons.mp h with rfl | h
      · exact List.not_mem_nil
      · exact ih (hs ▸ h)
    · next hc =>
      rcases List.mem_cons.mp h with rfl | h
      · rw [List.mem_cons, not_or]
        exact ⟨Ne.symm hc, ih (hs ▸ List.mem_cons_self)⟩
      · exact ih (hs ▸ List.mem_cons_of_mem first h)

/-- A text without the separator is put to the first piece. -/
theorem splitAtChar_prepend (h : a ∉ s) {piece : List Char} {pieces : List (List Char)}
    (ht : splitAtChar a t = piece :: pieces) : splitAtChar a (s ++ t) = (s ++ piece) :: pieces := by
  induction s with
  | nil => exact ht
  | cons c s ih =>
    rw [List.mem_cons, not_or] at h
    rw [List.cons_append, splitAtChar, if_neg (Ne.symm h.1), ih h.2]
    rfl

/-- What stands before the first occurrence of a character, and what stands after it. -/
theorem partitionAt_append (h : a ∉ s) (t : List Char) : partitionAt a (s ++ a :: t) = (s, t) := by
  have hall : ∀ c ∈ s, decide (c ≠ a) = true := by
    intro c hc
    rw [decide_eq_true_eq]
    rintro rfl
    exact h hc
  rw [partitionAt, List.takeWhile_append_of_pos hall, List.dropWhile_append_of_pos hall]
  simp

/-! ## Fixed pieces -/

/-- A piece does not occur without its characters. -/
theorem contains_eq_false {piece : List Char} (ha : a ∈ piece) (h : a ∉ s) :
    contains piece s = false := by
  induction s with
  | nil =>
    cases piece with
    | nil => cases ha
    | cons b piece => rfl
  | cons c s ih =>
    rw [contains, ih fun hs => h (List.mem_cons_of_mem _ hs), Bool.or_false, ← Bool.not_eq_true]
    intro hfront
    exact h ((List.isPrefixOf_iff_prefix.mp hfront).subset ha)

/-- A piece that stands in the text occurs. -/
theorem contains_of_infix {piece : List Char} (h : piece <:+: s) : contains piece s = true := by
  induction s with
  | nil =>
    rw [List.eq_nil_of_infix_nil h]
    rfl
  | cons c s ih =>
    rw [contains, Bool.or_eq_true, List.isPrefixOf_iff_prefix]
    exact (List.infix_cons_iff.mp h).imp_right ih

/-- A piece is not found where its first character does not occur. -/
theorem contains_skip {t piece : List Char} (h : a ∉ s) :
    contains (a :: piece) (s ++ t) = contains (a :: piece) t := by
  induction s with
  | nil => rfl
  | cons c s ih =>
    rw [List.mem_cons, not_or] at h
    rw [List.cons_append, contains, ih h.2]
    simp [List.isPrefixOf, h.1]

/-- Where a piece is found, its replacement stands. -/
theorem mem_replaceAll {piece replacement : List Char} (hpiece : piece ≠ [])
    (ha : a ∈ replacement) (h : contains piece s = true) :
    a ∈ replaceAll piece replacement s := by
  rw [replaceAll]
  induction s with
  | nil => exact absurd (List.isEmpty_iff.mp h) hpiece
  | cons c s ih =>
    rw [contains, Bool.or_eq_true] at h
    rw [replaceFrom]
    split
    · exact List.mem_append_left _ ha
    · next hprefix => exact List.mem_cons_of_mem c (ih (h.resolve_left hprefix))

theorem contains_singleton (h : a ∈ s) : contains [a] s = true := by
  obtain ⟨before, after, rfl⟩ := List.append_of_mem h
  exact contains_of_infix ⟨before, after, by simp⟩

theorem removeFirst_of_notMem (h : a ∉ s) : removeFirst [a] s = s := by
  induction s with
  | nil => rfl
  | cons c s ih =>
    have hc : a ≠ c := fun heq => h (by simp [heq])
    rw [removeFirst, if_neg (by simpa [List.isPrefixOf] using hc),
      ih fun hs => h (List.mem_cons_of_mem _ hs)]

/-- The first occurrence of a character is taken out. -/
theorem removeFirst_append (h : a ∉ s) (t : List Char) :
    removeFirst [a] (s ++ a :: t) = s ++ t := by
  induction s with
  | nil =>
    rw [List.nil_append, removeFirst, if_pos (by simp [List.isPrefixOf])]
    rfl
  | cons c s ih =>
    have hc : a ≠ c := fun heq => h (by simp [heq])
    rw [List.cons_append, removeFirst, if_neg (by simpa [List.isPrefixOf] using hc),
      ih fun hs => h (List.mem_cons_of_mem _ hs)]
    rfl

/-- A piece that starts with a character occurs where that character does, or not at all. -/
theorem contains_append {t piece : List Char} (hs : a ∉ s) (ht : a ∉ t) :
    contains (a :: piece) (s ++ a :: t) = piece.isPrefixOf t := by
  induction s with
  | nil =>
    rw [List.nil_append, contains, contains_eq_false List.mem_cons_self ht, Bool.or_false]
    simp [List.isPrefixOf]
  | cons c s ih =>
    have hc : a ≠ c := fun heq => hs (by simp [heq])
    rw [List.cons_append, contains, ih fun hmem => hs (List.mem_cons_of_mem _ hmem)]
    simp [List.isPrefixOf, hc]

/-- The first occurrence of a piece is taken out. -/
theorem removeFirst_piece (h : a ∉ s) (piece t : List Char) :
    removeFirst (a :: piece) (s ++ a :: piece ++ t) = s ++ t := by
  induction s with
  | nil =>
    have hfront : (a :: piece).isPrefixOf (a :: (piece ++ t)) = true := by
      rw [List.isPrefixOf_iff_prefix]
      exact List.prefix_append (a :: piece) t
    rw [List.nil_append, List.cons_append, removeFirst, if_pos hfront]
    exact List.drop_left
  | cons c s ih =>
    have hc : a ≠ c := fun heq => h (by simp [heq])
    rw [List.cons_append, List.cons_append, removeFirst,
      if_neg (by simpa [List.isPrefixOf] using fun heq => absurd heq hc),
      ih fun hs => h (List.mem_cons_of_mem _ hs)]
    rfl

end Text

namespace Polynomial

/-! ## Cutting -/

/-- A plus sign in front of every minus sign. -/
def mark (s : List Char) : List Char := s.flatMap fun c => if c = '-' then ['+', '-'] else [c]

theorem mark_append (s t : List Char) : mark (s ++ t) = mark s ++ mark t := List.flatMap_append

theorem mark_of_notMem {s : List Char} (h : '-' ∉ s) : mark s = s := by
  induction s with
  | nil => rfl
  | cons c s ih =>
    have hc : c ≠ '-' := fun heq => h (by simp [heq])
    rw [mark, List.flatMap_cons, if_neg hc, ← mark, ih fun hs => h (List.mem_cons_of_mem _ hs)]
    rfl

/-- The pieces between plus signs that are not empty. -/
def pieces (s : List Char) : List (List Char) :=
  (Text.splitAtChar '+' s).filter fun term => !term.isEmpty

theorem termTexts_eq (s : List Char) : termTexts s = pieces (mark (Text.removeBlanks s)) := rfl

theorem pieces_plus (s : List Char) : pieces ('+' :: s) = pieces s := by
  rw [pieces, Text.splitAtChar, if_pos rfl]
  rfl

/-- A text is cut on both sides of a plus sign. -/
theorem pieces_append_plus (s t : List Char) : pieces (s ++ '+' :: t) = pieces s ++ pieces t := by
  rw [pieces, Text.splitAtChar_separator, List.filter_append]
  rfl

theorem pieces_replicate (k : Nat) (s : List Char) :
    pieces (List.replicate k '+' ++ s) = pieces s := by
  induction k with
  | zero => rfl
  | succ k ih => rw [List.replicate_succ, List.cons_append, pieces_plus, ih]

/-- A term is cut off where a plus sign or nothing follows it. -/
theorem pieces_append {s t : List Char} (hplus : '+' ∉ s) (hne : s ≠ [])
    (ht : ∀ c ∈ t.head?, c = '+') : pieces (s ++ t) = s :: pieces t := by
  have hkeep : (!s.isEmpty) = true := by simpa using hne
  cases t with
  | nil =>
    rw [List.append_nil, pieces, Text.splitAtChar_of_notMem hplus, List.filter_cons, hkeep]
    rfl
  | cons c t =>
    obtain rfl : c = '+' := ht c (by simp)
    rw [pieces_plus, pieces, Text.splitAtChar_append hplus, List.filter_cons, hkeep]
    rfl

theorem subset_of_mem_pieces {s piece : List Char} (h : piece ∈ pieces s) : piece ⊆ s :=
  Text.subset_of_mem_splitAtChar (List.mem_filter.mp h).1

/-- A text without plus signs is put to the last piece. -/
theorem exists_pieces_append {s t : List Char} (hne : t ≠ []) (ht : '+' ∉ t) :
    ∃ front last, pieces (s ++ t) = front ++ [last ++ t] ∧ (∀ piece ∈ front, piece ⊆ s) ∧
      last ⊆ s := by
  obtain ⟨front, last, hs, hall⟩ := Text.exists_splitAtChar_append '+' s
  have hsubset : ∀ piece ∈ front ++ [last], piece ⊆ s := fun piece hpiece =>
    Text.subset_of_mem_splitAtChar (hs ▸ hpiece)
  refine ⟨front.filter fun piece => !piece.isEmpty, last, ?_, ?_, ?_⟩
  · rw [pieces, hall t ht, List.filter_append]
    simp [hne]
  · intro piece hpiece
    exact hsubset piece (List.mem_append_left _ (List.mem_filter.mp hpiece).1)
  · exact hsubset last (by simp)

/-! ## Cutting at signs -/

/-- The text without white space, with a plus sign in front of every minus sign. -/
def marked (s : List Char) : List Char := mark (Text.removeBlanks s)

theorem marked_append (s t : List Char) : marked (s ++ t) = marked s ++ marked t := by
  rw [marked, Text.removeBlanks, List.filter_append, mark_append]
  rfl

/-- Only plus signs are added. -/
theorem of_mem_marked {s : List Char} {c : Char} (h : c ∈ marked s) : c ∈ s ∨ c = '+' := by
  obtain ⟨d, hd, hc⟩ := List.mem_flatMap.mp h
  have hmem := (List.mem_filter.mp hd).1
  split at hc
  · next hminus =>
    subst hminus
    rcases List.mem_cons.mp hc with rfl | hc
    · exact .inr rfl
    · rw [List.mem_singleton.mp hc]
      exact .inl hmem
  · rw [List.mem_singleton.mp hc]
    exact .inl hmem

/-- A text is cut on both sides of a plus sign. -/
theorem termTexts_append_plus (s t : List Char) :
    termTexts (s ++ '+' :: t) = termTexts s ++ termTexts t := by
  have hmarked : marked ('+' :: t) = '+' :: marked t := rfl
  rw [termTexts_eq, ← marked, marked_append, hmarked, pieces_append_plus]
  rfl

/-- A space at the end does not matter. -/
theorem termTexts_append_blank (s : List Char) : termTexts (s ++ [' ']) = termTexts s := by
  rw [termTexts_eq, ← marked, marked_append, termTexts_eq, ← marked]
  exact congrArg pieces (List.append_nil _)

/-- A text is cut in front of a minus sign. -/
theorem termTexts_append_minus (s t : List Char) :
    termTexts (s ++ '-' :: t) = termTexts s ++ termTexts ('-' :: t) := by
  have hmarked : marked ('-' :: t) = '+' :: '-' :: marked t := rfl
  rw [termTexts_eq, ← marked, marked_append, hmarked, pieces_append_plus, termTexts_eq, ← marked,
    termTexts_eq, ← marked, hmarked, pieces_plus]

/-! ## Reading what is cut -/

theorem readTerms_append_plus (s t : List Char) :
    readTerms (s ++ '+' :: t) = readTerms s ++ readTerms t := by
  rw [readTerms, termTexts_append_plus, List.filterMap_append]
  rfl

theorem readTerms_append_minus (s t : List Char) :
    readTerms (s ++ '-' :: t) = readTerms s ++ readTerms ('-' :: t) := by
  rw [readTerms, termTexts_append_minus, List.filterMap_append]
  rfl

end Polynomial

end Stepwise
