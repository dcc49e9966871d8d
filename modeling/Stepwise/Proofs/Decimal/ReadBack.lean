/-
# Shown numbers read back

The text shown for a finite double is read as the double again, up to the sign of zero, wherever the
text after it does not continue a number.

* `Numeral.Ends` : texts that do not continue a number;
* `Numeral.readSigned?_written`, `Numeral.readSigned?_scientificChars` : the two layouts;
* `Double.readSigned?_display` : the text shown for a double;
* `Double.same_of_display_eq` : doubles that are shown alike are the same;
* `Double.figure_of_mem_display`, `Double.of_mem_display` : the characters of shown numbers;
* `Double.readDouble?_display` : the strict reading of a shown number;
* `Numeral.prefixValue_display_append` : the lenient reading of one before other text.
-/
import Stepwise.Proofs.Decimal.Numeral
import Stepwise.Proofs.Double.Same

namespace Stepwise

namespace Numeral

variable {s rest : List Char}

/-! ## The end of a number -/

/-- The text does not continue a number that ends before it. -/
def Ends (rest : List Char) : Prop :=
  ∀ c ∈ rest.head?, Text.isDigit c = false ∧ c ≠ '.' ∧ c ≠ 'e' ∧ c ≠ 'E'

theorem ends_nil : Ends [] := by
  simp [Ends]

theorem readExponent?_of_ends (h : Ends rest) : readExponent? rest = none := by
  cases rest with
  | nil => rfl
  | cons c rest =>
    obtain ⟨-, -, hlower, hupper⟩ := h c (by simp)
    rw [readExponent?, if_neg]
    rintro (rfl | rfl)
    · exact hlower rfl
    · exact hupper rfl

/-! ## Signs -/

/-- The text starts with neither sign. -/
def NoSign (s : List Char) : Prop := ∀ c ∈ s.head?, c ≠ '-' ∧ c ≠ '+'

theorem readSign_of_noSign (h : NoSign s) : readSign s = (false, s) := by
  cases s with
  | nil => rfl
  | cons c s =>
    obtain ⟨hminus, hplus⟩ := h c (by simp)
    unfold readSign
    split
    · next heq => exact absurd (List.cons.inj heq).1 hminus
    · next heq => exact absurd (List.cons.inj heq).1 hplus
    · rfl

theorem noSign_of_isDigit {c : Char} (h : c.isDigit = true) (s : List Char) : NoSign (c :: s) := by
  intro d hd
  obtain rfl : c = d := by simpa using hd
  constructor
  · rintro rfl
    exact absurd h (by decide)
  · rintro rfl
    exact absurd h (by decide)

/-- A minus negates the number after it. -/
theorem readSigned?_minus (h : NoSign s) :
    readSigned? ('-' :: s) = (readSigned? s).map fun r => (-r.1, r.2) := by
  have hminus : readSign ('-' :: s) = (true, s) := rfl
  simp only [readSigned?, hminus, readSign_of_noSign h]
  cases readUnsigned? s with
  | none => rfl
  | some read =>
    obtain ⟨u, rest⟩ := read
    cases hexponent : readExponent? rest with
    | none => simp [hexponent, Decimal.toDouble_true]
    | some exponent => simp [hexponent, Decimal.toDouble_true]

/-! ## Layouts -/

theorem written_start (h : Written s) : ∃ c t, s = c :: t ∧ c.isDigit = true := by
  cases h with
  | whole hs =>
    obtain ⟨c, t, rfl⟩ := List.exists_cons_of_ne_nil hs.1
    exact ⟨c, t, rfl, hs.2 c (by simp)⟩
  | @point whole fraction hwhole hfraction =>
    obtain ⟨c, t, rfl⟩ := List.exists_cons_of_ne_nil hwhole.1
    exact ⟨c, t ++ '.' :: fraction, rfl, hwhole.2 c (by simp)⟩

theorem noSign_written (h : Written s) (rest : List Char) : NoSign (s ++ rest) := by
  obtain ⟨c, t, rfl, hc⟩ := written_start h
  exact noSign_of_isDigit hc _

/-- Without a sign and an exponent a number is an unsigned numeral. -/
theorem readSigned?_of_readUnsigned? (hsign : NoSign s) {u : Unsigned}
    (hread : readUnsigned? s = some (u, rest)) (hrest : readExponent? rest = none) :
    readSigned? s = some (u.toDecimal.toDouble false, rest) := by
  simp only [readSigned?, readSign_of_noSign hsign, hread, hrest]

/-- A written numeral is read up to its end. -/
theorem readSigned?_written (h : Written s) (hrest : Ends rest) :
    readSigned? (s ++ rest) = some (unsignedValue s, rest) := by
  have hsign := noSign_written h rest
  have hexponent := readExponent?_of_ends hrest
  cases h with
  | whole hs =>
    have hread := readUnsigned?_whole hs rest fun c hc => ⟨(hrest c hc).1, (hrest c hc).2.1⟩
    rw [readSigned?_of_readUnsigned? hsign hread hexponent, unsignedValue_whole hs]
    simp [Unsigned.toDecimal]
  | point hwhole hfraction =>
    have hread := readUnsigned?_point hwhole hfraction rest fun c hc => (hrest c hc).1
    rw [readSigned?_of_readUnsigned? hsign hread hexponent, unsignedValue_point hwhole hfraction]
    rfl

/-- A written exponent is read up to its end. -/
theorem readExponent?_exponentChars (k : Int)
    (hrest : ∀ c ∈ rest.head?, Text.isDigit c = false) :
    readExponent? ('e' :: Decimal.exponentChars k ++ rest) = some (k, rest) := by
  have hdigits := digits_padZeros 2 k.natAbs
  have hvalue : natValue (padZeros 2 (digitChars k.natAbs)) = k.natAbs := by
    rw [padZeros, natValue_replicate_append _ fun c => isDigit_of_mem_digitChars,
      natValue_digitChars]
  obtain ⟨htake, hdrop⟩ := takeWhile_digits hdigits rest hrest
  have hnonempty : (padZeros 2 (digitChars k.natAbs)).isEmpty = false := by
    simpa using hdigits.1
  rw [List.cons_append, readExponent?, if_pos (.inl rfl), Decimal.exponentChars]
  by_cases hk : k < 0
  · rw [if_pos hk]
    simp only [List.cons_append, readSign, htake, hdrop, hnonempty, hvalue]
    simp only [Bool.false_eq_true, if_false, if_true]
    congr
    omega
  · rw [if_neg hk]
    simp only [List.cons_append, readSign, htake, hdrop, hnonempty, hvalue]
    simp only [Bool.false_eq_true, if_false]
    congr
    omega

/-- A text with an exponent is read up to its end. -/
theorem readSigned?_scientificChars (d : Decimal)
    (hrest : ∀ c ∈ rest.head?, Text.isDigit c = false) :
    readSigned? (d.scientificChars ++ rest) = some (d.toDouble false, rest) := by
  have hvalue := natValue_digitChars d.digits
  have hexponent := readExponent?_exponentChars d.leading hrest
  -- The digits before the exponent are read as a number with all but one of them after a point.
  have hread {mantissa : List Char} {u : Unsigned}
      (hchars : d.scientificChars = mantissa ++ 'e' :: Decimal.exponentChars d.leading)
      (hmantissa : readUnsigned? (mantissa ++ 'e' :: Decimal.exponentChars d.leading ++ rest) =
        some (u, 'e' :: Decimal.exponentChars d.leading ++ rest))
      (hsign : NoSign (d.scientificChars ++ rest))
      (hu : natValue (u.whole ++ u.fraction) = d.digits)
      (hplaces : u.fraction.length + 1 = (digitChars d.digits).length) :
      readSigned? (d.scientificChars ++ rest) = some (d.toDouble false, rest) := by
    rw [hchars] at hsign ⊢
    simp only [readSigned?, readSign_of_noSign hsign, hmantissa, hexponent, Unsigned.toDecimal, hu]
    have hshift : -(u.fraction.length : Int) + d.leading = d.exponent := by
      rw [Decimal.leading, ← hplaces]
      push_cast
      ring
    rw [hshift]
  have hletter : ∀ c ∈ ('e' :: Decimal.exponentChars d.leading ++ rest).head?,
      Text.isDigit c = false ∧ c ≠ '.' := by
    intro c hc
    obtain rfl : 'e' = c := by simpa using hc
    decide
  rcases d.scientificChars_cases with ⟨first, hlist, hfirst, hchars⟩ |
    ⟨first, fraction, hlist, hfirst, hfraction, hchars⟩
  · rw [hlist] at hvalue
    refine hread hchars ?_ ?_ (u := ⟨[first], []⟩) hvalue (by rw [hlist]; rfl)
    · rw [List.append_assoc]
      exact readUnsigned?_whole hfirst _ hletter
    · rw [hchars]
      exact noSign_of_isDigit (hfirst.2 first (by simp)) _
  · rw [hlist] at hvalue
    refine hread hchars ?_ ?_ (u := ⟨[first], fraction⟩) hvalue (by rw [hlist]; rfl)
    · rw [List.append_assoc]
      exact readUnsigned?_point hfirst hfraction _ fun c hc => (hletter c hc).1
    · rw [hchars]
      exact noSign_of_isDigit (hfirst.2 first (by simp)) _

theorem noSign_scientificChars (d : Decimal) (rest : List Char) :
    NoSign (d.scientificChars ++ rest) := by
  obtain ⟨s, c, digits, hchars, hwritten, -, -⟩ := d.scientificChars_eq
  rw [hchars, List.append_assoc]
  exact noSign_written hwritten _

end Numeral

namespace Double

open Numeral

variable {x y : Double} {rest : List Char}

/-! ## Shown doubles -/

/-- A sign in front of a magnitude that is read up to its end. -/
theorem readSigned?_shownSign (hfinite : x.isFinite = true) {s : List Char}
    (hsign : NoSign (s ++ rest)) (hread : readSigned? (s ++ rest) = some (x.abs, rest)) :
    readSigned? (x.shownSign ++ s ++ rest) = some (x.shown, rest) := by
  cases x with
  | nan | infinity negative => cases hfinite
  | finite negative m e h =>
    by_cases hnegative : negative = true ∧ m ≠ 0
    · obtain ⟨rfl, hm⟩ := hnegative
      have hminus : (finite true m e h).shownSign = ['-'] := by simp [shownSign, hm]
      rw [hminus, List.append_assoc, List.singleton_append, readSigned?_minus hsign, hread,
        shown, isZero, beq_eq_false_iff_ne.mpr hm]
      rfl
    · have hnone : (finite negative m e h).shownSign = [] := by
        rw [shownSign, if_neg (by simpa using hnegative)]
      rw [hnone, List.nil_append, hread, shown, isZero]
      by_cases hm : m = 0
      · subst hm
        rw [eq_zero_of_mantissa]
        rfl
      · obtain rfl : negative = false := by
          cases negative with
          | true => exact absurd ⟨rfl, hm⟩ hnegative
          | false => rfl
        rw [beq_eq_false_iff_ne.mpr hm]
        rfl

/-- **The text shown for a finite double is read as the double**, up to the sign of zero and to the
end of the text. -/
theorem readSigned?_display (hfinite : x.isFinite = true) (hrest : Ends rest) :
    readSigned? (x.display ++ rest) = some (x.shown, rest) := by
  have hform := x.displays_display
  generalize x.display = text at hform
  cases hform with
  | plain _ hwritten hvalue =>
    refine readSigned?_shownSign hfinite (noSign_written hwritten _) ?_
    rw [readSigned?_written hwritten hrest, hvalue]
  | scientific _ hvalue =>
    refine readSigned?_shownSign hfinite (noSign_scientificChars _ _) ?_
    rw [readSigned?_scientificChars _ fun c hc => (hrest c hc).1, hvalue]
  | infinite hinfinite | undefined hinfinite =>
    rw [hfinite] at hinfinite
    cases hinfinite

/-- The other texts are not read as numbers. -/
theorem readSigned?_display_of_not_finite (hinfinite : x.isFinite = false) :
    readSigned? x.display = none := by
  cases x with
  | nan => decide
  | infinity negative => cases negative <;> decide
  | finite negative m e h => cases hinfinite

/-- **Doubles that are shown alike are the same**, if they are finite. -/
theorem same_of_display_eq (hfinite : x.isFinite = true) (h : x.display = y.display) :
    x.Same y := by
  have hx : readSigned? x.display = some (x.shown, []) := by
    have hread := readSigned?_display hfinite ends_nil
    rwa [List.append_nil] at hread
  cases hy : y.isFinite with
  | false =>
    rw [h, readSigned?_display_of_not_finite hy] at hx
    cases hx
  | true =>
    have hread := readSigned?_display hy ends_nil
    rw [List.append_nil, ← h, hx] at hread
    have hshown : x.shown = y.shown := (Prod.mk.inj (Option.some.inj hread)).1
    have hsame := same_shown x
    rw [hshown] at hsame
    exact hsame.trans (same_shown y).symm

end Double

/-! ## Characters of shown numbers -/

/-- A character of the texts of finite numbers. -/
def Figure (c : Char) : Prop := c.isDigit = true ∨ c ∈ ['.', '-', '+', 'e']

instance (c : Char) : Decidable (Figure c) := inferInstanceAs (Decidable (_ ∨ _))

theorem Numeral.figure_of_mem_written {s : List Char} (h : Written s) {c : Char} (hc : c ∈ s) :
    Figure c := by
  rcases h.isDigit_or_point hc with hdigit | rfl
  · exact .inl hdigit
  · decide

theorem Double.figure_of_mem_display {x : Double} (hfinite : x.isFinite = true) {c : Char}
    (hc : c ∈ x.display) : Figure c := by
  have hsign {c : Char} (hc : c ∈ x.shownSign) : Figure c := by
    have hminus : c = '-' := by
      cases x with
      | nan | infinity negative => cases hfinite
      | finite negative m e h =>
        rw [shownSign] at hc
        split at hc
        · exact List.mem_singleton.mp hc
        · cases hc
    rw [hminus]
    decide
  have hform := x.displays_display
  generalize x.display = text at hform hc
  cases hform with
  | plain _ hwritten _ =>
    exact (List.mem_append.mp hc).elim hsign (Numeral.figure_of_mem_written hwritten)
  | @scientific d _ _ =>
    obtain ⟨s, sign, digits, hchars, hwritten, hsigns, hdigits⟩ := d.scientificChars_eq
    rw [hchars] at hc
    rcases List.mem_append.mp hc with hc | hc
    · exact hsign hc
    · rcases List.mem_append.mp hc with hc | hc
      · exact Numeral.figure_of_mem_written hwritten hc
      · rcases List.mem_cons.mp hc with rfl | hc
        · decide
        · rcases List.mem_cons.mp hc with rfl | hc
          · rcases hsigns with rfl | rfl <;> decide
          · exact .inl (hdigits.2 c hc)
  | infinite hinfinite | undefined hinfinite =>
    rw [hfinite] at hinfinite
    cases hinfinite

/-- The characters of shown numbers, also of those that are not finite. -/
theorem Double.of_mem_display {x : Double} {c : Char} (hc : c ∈ x.display) :
    Figure c ∨ c ∈ ['n', 'a', 'i', 'f'] := by
  cases x with
  | nan =>
    have hsubset : Double.nan.display ⊆ ['n', 'a', 'i', 'f'] := by decide
    exact .inr (hsubset hc)
  | infinity negative =>
    have hsubset : (Double.infinity negative).display ⊆ ['-', 'n', 'a', 'i', 'f'] := by
      cases negative <;> decide
    rcases List.mem_cons.mp (hsubset hc) with rfl | hc
    · exact .inl (by decide)
    · exact .inr hc
  | finite negative m e h => exact .inl (figure_of_mem_display rfl hc)

theorem isBlank_of_figure {c : Char} (h : Figure c) : Text.isBlank c = false := by
  rcases h with hdigit | hc
  · exact Text.isBlank_of_isDigit hdigit
  · simp only [List.mem_cons, List.not_mem_nil, or_false] at hc
    rcases hc with rfl | rfl | rfl | rfl <;> decide

theorem ne_underscore_of_figure {c : Char} (h : Figure c) : c ≠ '_' := by
  rintro rfl
  exact absurd h (by decide)

/-! ## Strict reading -/

/-- White space behind other characters stays. -/
theorem Text.trimStart_append_eq_self {s : List Char} (hne : s ≠ [])
    (h : ∀ c ∈ s, isBlank c = false) (rest : List Char) :
    trimStart (s ++ rest) = s ++ rest := by
  cases s with
  | nil => exact absurd rfl hne
  | cons c s => exact List.dropWhile_cons_of_neg (by simp [h c List.mem_cons_self])

theorem Text.trimStart_eq_self {s : List Char} (h : ∀ c ∈ s, isBlank c = false) :
    trimStart s = s := by
  cases s with
  | nil => rfl
  | cons c s => simpa using trimStart_append_eq_self (List.cons_ne_nil c s) h []

/-- A text without white space is its own trimmed form. -/
theorem Text.trim_eq_self {s : List Char} (h : ∀ c ∈ s, isBlank c = false) : trim s = s := by
  have hreverse := trimStart_eq_self (s := s.reverse) (by simpa using h)
  rw [trimStart] at hreverse
  rw [trim, trimStart_eq_self h, trimEnd, hreverse, List.reverse_reverse]

/-- A text without underscores stays as it is. -/
theorem Numeral.dropUnderscores?_eq_self {s : List Char} (h : ∀ c ∈ s, c ≠ '_') :
    dropUnderscores? s = some s := by
  induction s with
  | nil => rfl
  | cons c s ih =>
    have hrest := ih fun d hd => h d (List.mem_cons_of_mem c hd)
    have hc : c ≠ '_' := h c List.mem_cons_self
    unfold dropUnderscores?
    split
    · next heq => cases heq
    · next heq => exact absurd (List.cons.inj heq).1 hc
    · next heq =>
      obtain ⟨-, rfl⟩ := List.cons.inj heq
      exact absurd rfl (h '_' (by simp))
    · next heq =>
      obtain ⟨rfl, rfl⟩ := List.cons.inj heq
      rw [if_neg hc, hrest]
      rfl

/-- **The text shown for a number is read strictly as the number**, up to the sign of zero. -/
theorem Double.readDouble?_display {x : Double} (h : x.isNaN = false) :
    Numeral.readDouble? x.display = some x.shown := by
  cases x with
  | nan => cases h
  | infinity negative => cases negative <;> decide
  | finite negative m e hc =>
    have hfigure : ∀ c ∈ (finite negative m e hc).display, Figure c := fun c =>
      figure_of_mem_display rfl
    have hread := readSigned?_display (x := finite negative m e hc) rfl Numeral.ends_nil
    rw [List.append_nil] at hread
    rw [Numeral.readDouble?, Text.trim_eq_self fun c hc => isBlank_of_figure (hfigure c hc),
      Numeral.dropUnderscores?_eq_self fun c hc => ne_underscore_of_figure (hfigure c hc)]
    simp only [hread]

/-! ## Lenient reading -/

namespace Numeral

variable {x : Double}

/-- **A text that begins with a shown finite number is read leniently as the number**, up to the
sign of zero, if the rest does not continue a number. -/
theorem prefixValue_display_append (hx : x.isFinite = true) {rest : List Char}
    (hrest : Ends rest) : prefixValue (x.display ++ rest) = x.shown := by
  have hne : x.display ≠ [] := by
    intro hempty
    have hread := x.readSigned?_display hx ends_nil
    rw [hempty] at hread
    cases hread
  have htrim := Text.trimStart_append_eq_self hne
    (fun c hc => isBlank_of_figure (x.figure_of_mem_display hx hc)) rest
  simp only [prefixValue, htrim, x.readSigned?_display hx hrest]

/-- The text shown for a finite number starts with the number. -/
theorem prefixValue_display (hx : x.isFinite = true) : prefixValue x.display = x.shown := by
  have hread := prefixValue_display_append hx ends_nil
  rwa [List.append_nil] at hread

end Numeral

end Stepwise
