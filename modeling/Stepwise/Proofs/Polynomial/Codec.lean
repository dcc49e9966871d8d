/-
# Polynomials read as they were written

A written sum is read as what its terms are read as, one after the other.  Something is read of
every term, because a term starts with a numeral or with `x`.  So a sum is read as it was written
only if each of its terms is read as itself.

The reader takes every sign for the start of a term.  A coefficient that is shown with an exponent
is cut at the sign of the exponent, and no power is read as a negative number.  All other terms with
integer powers are read as themselves.

* `Polynomial.Opens` : texts that start as terms do;
* `Polynomial.two_le_length` : a number with an exponent is cut;
* `PowerTerm`, `PowerTerm.Moderate` : terms with integer powers, and those in which no sign is cut;
* `Polynomial.readTerms_chars_iff` : the terms that are read as themselves;
* `Polynomial.readTerms_powerChars_flatMap` : a written sum is read term by term;
* `Polynomial.readTerms_powerChars_iff` : the sums that are read as they were written.
-/
import Stepwise.Proofs.Polynomial.Whole

namespace Stepwise

/-! ## Lists put together -/

section FlatMap

variable {α : Type} {f : α → List α} {xs : List α}

theorem length_le_flatMap (h : ∀ x ∈ xs, f x ≠ []) : xs.length ≤ (xs.flatMap f).length := by
  induction xs with
  | nil => exact Nat.le_refl 0
  | cons x xs ih =>
    have hx := List.length_pos_iff.mpr (h x List.mem_cons_self)
    have hxs := ih fun y hy => h y (List.mem_cons_of_mem x hy)
    rw [List.flatMap_cons, List.length_append, List.length_cons]
    omega

/-- A list is put together from itself only if each of its members is put for itself. -/
theorem flatMap_eq_self_iff (h : ∀ x ∈ xs, f x ≠ []) :
    xs.flatMap f = xs ↔ ∀ x ∈ xs, f x = [x] := by
  induction xs with
  | nil => simp
  | cons x xs ih =>
    have hrest : ∀ y ∈ xs, f y ≠ [] := fun y hy => h y (List.mem_cons_of_mem x hy)
    rw [List.forall_mem_cons, ← ih hrest, List.flatMap_cons]
    constructor
    · intro hall
      obtain ⟨y, s, hy⟩ := List.exists_cons_of_ne_nil (h x List.mem_cons_self)
      rw [hy, List.cons_append] at hall
      obtain ⟨rfl, htail⟩ := List.cons.inj hall
      -- The other members already take up the whole length of the rest.
      have hlength := congrArg List.length htail
      have hle := length_le_flatMap hrest
      rw [List.length_append] at hlength
      have hnil : s = [] := List.length_eq_zero_iff.mp (by omega)
      rw [hnil] at hy htail
      exact ⟨hy, htail⟩
    · rintro ⟨hx, hxs⟩
      rw [hx, hxs]
      rfl

end FlatMap

/-! ## Signs of numbers -/

namespace Double

variable {x : Double}

/-- A number without a minus is not negative. -/
theorem value_nonneg (h : x.signBit = false) : 0 ≤ x.value := by
  cases x with
  | nan | infinity negative => exact le_refl _
  | finite negative m e hc =>
    obtain rfl : negative = false := h
    rw [value_finite, if_neg Bool.false_ne_true, one_mul]
    positivity

/-- A number that is not negative is shown without a sign. -/
theorem shownSign_eq_nil (hfinite : x.isFinite = true) (h : 0 ≤ x.value) : x.shownSign = [] := by
  cases x with
  | nan | infinity negative => cases hfinite
  | finite negative m e hc =>
    refine if_neg fun hsign => ?_
    rw [Bool.and_eq_true, bne_iff_ne] at hsign
    obtain ⟨rfl, hm⟩ := hsign
    rw [value_finite, if_pos rfl, neg_one_mul, Left.nonneg_neg_iff] at h
    have hpos : (0 : ℚ) < m * 2 ^ e := by positivity
    exact absurd h (not_le.mpr hpos)

/-- A finite number is shown as a numeral behind its sign, or with an exponent behind that. -/
theorem display_cases (hfinite : x.isFinite = true) :
    (∃ s, x.display = x.shownSign ++ s ∧ Numeral.Written s) ∨
    ∃ s c digits, x.display = x.shownSign ++ (s ++ 'e' :: c :: digits) ∧ Numeral.Written s ∧
      (c = '+' ∨ c = '-') ∧ Numeral.Digits digits := by
  have hform := x.displays_display
  generalize x.display = text at hform
  cases hform with
  | @plain s _ hwritten _ => exact .inl ⟨s, rfl, hwritten⟩
  | @scientific d _ _ =>
    obtain ⟨s, c, digits, hchars, hs, hc, hdigits⟩ := d.scientificChars_eq
    exact .inr ⟨s, c, digits, by rw [hchars], hs, hc, hdigits⟩
  | infinite hinfinite | undefined hinfinite =>
    rw [hfinite] at hinfinite
    cases hinfinite

/-- Only a number that is shown with an exponent has letters in its text. -/
theorem exists_exponent (hfinite : x.isFinite = true) (h : ¬ x.Plain) :
    ∃ s c digits, x.display = x.shownSign ++ (s ++ 'e' :: c :: digits) ∧ Numeral.Written s ∧
      (c = '+' ∨ c = '-') ∧ Numeral.Digits digits := by
  refine (display_cases hfinite).resolve_left ?_
  rintro ⟨s, hdisplay, hs⟩
  refine h fun c hc => ?_
  rw [hdisplay] at hc
  rcases List.mem_append.mp hc with hc | hc
  · exact Token.isLetter_of_mem_shownSign c hc
  · exact Token.isLetter_of_mem_written hs c hc

end Double

namespace Numeral

variable {c : Char}

/-- A text that starts with a digit starts with a number. -/
theorem isSome_readUnsigned? (hc : Text.isDigit c = true) (s : List Char) :
    (readUnsigned? (c :: s)).isSome = true := by
  have htake : (c :: s).takeWhile Text.isDigit = c :: s.takeWhile Text.isDigit :=
    List.takeWhile_cons_of_pos hc
  simp only [readUnsigned?, htake]
  split
  · next hnil _ => cases hnil
  · next hnil _ => cases hnil
  · rfl
  · rfl

/-- The number that a digit starts, behind a minus or not, is defined. -/
theorem isNaN_prefixValue {sign : List Char} (hsign : sign = [] ∨ sign = ['-'])
    (hc : c.isDigit = true) (s : List Char) : (prefixValue (sign ++ c :: s)).isNaN = false := by
  have htrim : Text.trimStart (sign ++ c :: s) = sign ++ c :: s := by
    rcases hsign with rfl | rfl
    · exact List.dropWhile_cons_of_neg (by simp [Text.isBlank_of_isDigit hc])
    · rfl
  have hread : (readSign (sign ++ c :: s)).2 = c :: s := by
    rcases hsign with rfl | rfl
    · rw [List.nil_append, readSign_of_noSign (noSign_of_isDigit hc s)]
    · rfl
  obtain ⟨⟨u, rest⟩, hu⟩ :=
    Option.isSome_iff_exists.mp (isSome_readUnsigned? (Text.isDigit_of_isDigit hc) s)
  simp only [prefixValue, htrim, readSigned?, hread, hu]
  cases readExponent? rest with
  | none => exact Decimal.isNaN_toDouble _ _
  | some exponent => exact Decimal.isNaN_toDouble _ _

end Numeral

namespace Polynomial

/-! ## Texts that start as terms do -/

/-- The text starts with a digit or with `x`, behind a minus or not. -/
def Opens (s : List Char) : Prop :=
  ∃ sign c rest, s = sign ++ c :: rest ∧ (sign = [] ∨ sign = ['-']) ∧ (c.isDigit = true ∨ c = 'x')

variable {s t : List Char}

theorem opens_of_digits (h : Numeral.Digits s) (t : List Char) : Opens (s ++ t) := by
  obtain ⟨c, s, rfl⟩ := List.exists_cons_of_ne_nil h.1
  exact ⟨[], c, s ++ t, rfl, .inl rfl, .inl (h.2 c List.mem_cons_self)⟩

theorem opens_of_written {sign : List Char} (hsign : sign = [] ∨ sign = ['-'])
    (h : Numeral.Written s) (t : List Char) : Opens (sign ++ (s ++ t)) := by
  obtain ⟨c, s, rfl, hc⟩ := Numeral.written_start h
  exact ⟨sign, c, s ++ t, rfl, hsign, .inl hc⟩

theorem opens_of_variable {sign : List Char} (hsign : sign = [] ∨ sign = ['-']) (power : Double) :
    Opens (sign ++ Term.variableChars power) := by
  have hvariable : ∃ rest, Term.variableChars power = 'x' :: rest := by
    rw [Term.variableChars]
    split
    · exact ⟨_, rfl⟩
    · exact ⟨_, rfl⟩
  obtain ⟨rest, hrest⟩ := hvariable
  exact ⟨sign, 'x', rest, by rw [hrest], hsign, .inr rfl⟩

/-- Something is read of a text that starts as a term does. -/
theorem isSome_readTerm? (h : Opens s) : (readTerm? s).isSome = true := by
  obtain ⟨sign, c, rest, rfl, hsign, hc⟩ := h
  rw [readTerm?]
  by_cases hx : (sign ++ c :: rest).contains 'x' = true
  · rw [if_pos hx]
    rfl
  · have hdigit : c.isDigit = true := by
      refine hc.resolve_right ?_
      rintro rfl
      exact hx (by simp)
    rw [if_neg hx]
    simp [Numeral.isNaN_prefixValue hsign hdigit rest]

/-- The first piece starts with what the text starts with. -/
theorem exists_pieces_front (hne : s ≠ []) (hplus : '+' ∉ s) (t : List Char) :
    ∃ rest others, pieces (s ++ t) = (s ++ rest) :: others := by
  have hsplit : ∃ rest others, Text.splitAtChar '+' (s ++ t) = (s ++ rest) :: others := by
    clear hne
    induction s with
    | nil => exact List.exists_cons_of_ne_nil (Text.splitAtChar_ne_nil '+' t)
    | cons c s ih =>
      have hc : c ≠ '+' := fun heq => hplus (by simp [heq])
      obtain ⟨rest, others, hrest⟩ := ih fun hs => hplus (List.mem_cons_of_mem c hs)
      exact ⟨rest, others, by rw [List.cons_append, Text.splitAtChar, if_neg hc, hrest]; rfl⟩
  obtain ⟨rest, others, hrest⟩ := hsplit
  refine ⟨rest, others.filter fun piece => !piece.isEmpty, ?_⟩
  rw [pieces, hrest, List.filter_cons_of_pos]
  simp [hne]

/-- **Something is read of a text that starts as a term does**, wherever it is cut. -/
theorem readTerms_ne_nil (h : Opens s) : readTerms s ≠ [] := by
  obtain ⟨sign, c, t, rfl, hsign, hc⟩ := h
  have hplain : Text.isBlank c = false ∧ c ≠ '-' ∧ c ≠ '+' := by
    rcases hc with hdigit | rfl
    · exact ⟨Text.isBlank_of_isDigit hdigit, Numeral.noSign_of_isDigit hdigit [] c rfl⟩
    · decide
  have hmarked : marked (c :: t) = c :: marked t := by
    rw [marked, Text.removeBlanks, List.filter_cons, hplain.1]
    simp only [Bool.not_false, if_true, mark, List.flatMap_cons, if_neg hplain.2.1]
    rfl
  have hplus : '+' ∉ sign ++ [c] := by
    rcases hsign with rfl | rfl <;> simp [hplain.2.2.symm]
  obtain ⟨rest, others, hcut⟩ := exists_pieces_front (by simp) hplus (marked t)
  have hpieces : termTexts (sign ++ c :: t) = pieces (sign ++ [c] ++ marked t) := by
    rw [termTexts_eq, ← marked, List.append_assoc, List.singleton_append, ← hmarked]
    rcases hsign with rfl | rfl
    · rfl
    · exact pieces_plus _
  have hopens : Opens (sign ++ [c] ++ rest) := ⟨sign, c, rest, by simp, hsign, hc⟩
  obtain ⟨u, hu⟩ := Option.isSome_iff_exists.mp (isSome_readTerm? hopens)
  rw [readTerms, hpieces, hcut, List.filterMap_cons, hu]
  exact List.cons_ne_nil _ _

/-- A finite number starts as terms do. -/
theorem opens_display {x : Double} (hfinite : x.isFinite = true) (t : List Char) :
    Opens (x.display ++ t) := by
  rcases x.display_cases hfinite with ⟨s, hdisplay, hs⟩ | ⟨s, c, digits, hdisplay, hs, -⟩
  · rw [hdisplay, List.append_assoc]
    exact opens_of_written x.shownSign_cases hs t
  · rw [hdisplay, List.append_assoc, List.append_assoc]
    exact opens_of_written x.shownSign_cases hs _

/-- **A number that is shown with an exponent is cut at the sign of the exponent.** -/
theorem two_le_length {x : Double} (hfinite : x.isFinite = true) (hplain : ¬ x.Plain)
    (t : List Char) : 2 ≤ (readTerms (x.display ++ t)).length := by
  obtain ⟨s, c, digits, hdisplay, hs, hc, hdigits⟩ := Double.exists_exponent hfinite hplain
  have hfront := readTerms_ne_nil (opens_of_written x.shownSign_cases hs ['e'])
  have hcut : x.display ++ t = x.shownSign ++ (s ++ ['e']) ++ c :: (digits ++ t) := by
    rw [hdisplay]
    simp
  rw [← List.length_pos_iff] at hfront
  rw [hcut]
  rcases hc with rfl | rfl
  · have hback := readTerms_ne_nil (opens_of_digits hdigits t)
    rw [← List.length_pos_iff] at hback
    rw [readTerms_append_plus, List.length_append]
    omega
  · have hback := readTerms_ne_nil (opens_of_written (.inr rfl) (.whole hdigits) t)
    rw [← List.length_pos_iff] at hback
    rw [readTerms_append_minus, List.length_append]
    exact Nat.add_le_add hfront hback

end Polynomial

/-! ## Terms with integer powers -/

/-- The product of a number and an integer power of `x`. -/
structure PowerTerm where
  coefficient : Double
  power : Int

namespace PowerTerm

/-- The term as a term of doubles. -/
def term (t : PowerTerm) : Term := ⟨t.coefficient, .ofInt t.power⟩

/-- The coefficient is finite and not zero, and the power has at most 53 bits. -/
structure Proper (t : PowerTerm) : Prop where
  finite : t.coefficient.isFinite = true
  nonzero : t.coefficient.isZero = false
  power : t.power.natAbs < 2 ^ 53

/-- The coefficient is of a size that is shown without an exponent, and the power is not
negative. -/
structure Moderate (t : PowerTerm) : Prop where
  lower : (10 : ℚ) ^ (-4 : ℤ) ≤ |t.coefficient.value|
  upper : |t.coefficient.value| < 10 ^ 16
  power : 0 ≤ t.power

instance (t : PowerTerm) : Decidable t.Proper :=
  decidable_of_iff (t.coefficient.isFinite = true ∧ t.coefficient.isZero = false ∧
    t.power.natAbs < 2 ^ 53) ⟨fun h => ⟨h.1, h.2.1, h.2.2⟩, fun h => ⟨h.1, h.2, h.3⟩⟩

instance (t : PowerTerm) : Decidable t.Moderate :=
  decidable_of_iff ((10 : ℚ) ^ (-4 : ℤ) ≤ |t.coefficient.value| ∧ |t.coefficient.value| < 10 ^ 16 ∧
    0 ≤ t.power) ⟨fun h => ⟨h.1, h.2.1, h.2.2⟩, fun h => ⟨h.1, h.2, h.3⟩⟩

variable {t : PowerTerm}

theorem Proper.represents_power (h : t.Proper) : t.term.power.Represents t.power :=
  Double.represents_ofInt (Double.abs_cast_lt h.power)

theorem Proper.shown_eq (h : t.Proper) :
    (⟨t.term.coefficient.shown, t.term.power.shown⟩ : Term) = t.term := by
  rw [term, Double.shown_ofInt h.power, Double.shown, h.nonzero]
  rfl

/-- A written term starts with a numeral or with `x`. -/
theorem Proper.opens_chars (h : t.Proper) : Polynomial.Opens t.term.chars := by
  rw [Term.chars]
  split
  · rw [← List.append_nil t.term.coefficient.display]
    exact Polynomial.opens_display h.finite []
  · split
    · exact Polynomial.opens_of_variable (.inl rfl) _
    · split
      · exact Polynomial.opens_of_variable (.inr rfl) _
      · exact Polynomial.opens_display h.finite _

/-- A coefficient that is shown with an exponent is no unit, so that it is written out. -/
theorem Proper.exists_chars (h : t.Proper) (hplain : ¬ t.coefficient.Plain) :
    ∃ rest, t.term.chars = t.coefficient.display ++ rest := by
  have hunit {x : Double} {n : ℤ} (hx : x.Represents n) (hn : n.natAbs < 2 ^ 53) :
      ¬ t.term.coefficient.numericEq x = true := by
    intro heq
    have hvalue := (Double.same_of_numericEq h.finite hx.1 heq).value_eq
    exact hplain (Double.Represents.plain ⟨h.finite, hvalue.trans hx.2⟩ hn)
  have hone : (1 : Double).Represents (1 : ℤ) := by
    rw [Int.cast_one]
    exact Double.represents_one
  have hminus : (-1 : Double).Represents (-1 : ℤ) := by
    rw [Int.cast_neg, Int.cast_one]
    exact Double.represents_one.neg
  rw [Term.chars, if_neg (hunit hone (by decide)), if_neg (hunit hminus (by decide))]
  split
  · exact ⟨[], (List.append_nil _).symm⟩
  · exact ⟨_, rfl⟩

/-- A moderate term is plain. -/
theorem Moderate.plain (h : t.Moderate) (hproper : t.Proper) : t.term.Plain := by
  have hpower := hproper.represents_power
  have hnonneg : 0 ≤ t.term.power.value := by
    rw [hpower.2]
    exact_mod_cast h.power
  exact ⟨Double.plain_of_size hproper.finite (.inr ⟨h.lower, h.upper⟩),
    hpower.plain hproper.power, Double.shownSign_eq_nil hpower.1 hnonneg⟩

end PowerTerm

namespace Polynomial

/-- **The terms that are read as themselves** are the moderate ones. -/
theorem readTerms_chars_iff {t : PowerTerm} (h : t.Proper) :
    readTerms t.term.chars = [t.term] ↔ t.Moderate := by
  constructor
  · intro hread
    have hplain : t.coefficient.Plain := by
      by_contra hplain
      obtain ⟨rest, hrest⟩ := h.exists_chars hplain
      have htwo := two_le_length h.finite hplain rest
      rw [← hrest, hread, List.length_singleton] at htwo
      exact absurd htwo (by decide)
    have hsign : t.term.power.signBit = false := signBit_power (hread ▸ List.mem_cons_self)
    have hpower : (0 : ℚ) ≤ t.power := by
      rw [← h.represents_power.2]
      exact Double.value_nonneg hsign
    have hne : ¬ t.coefficient.value = 0 := by
      rw [Double.value_eq_zero_iff h.finite, h.nonzero]
      exact Bool.false_ne_true
    obtain ⟨hlower, hupper⟩ := ((Double.plain_iff_size h.finite).mp hplain).resolve_left hne
    exact ⟨hlower, hupper, by exact_mod_cast hpower⟩
  · intro hmoderate
    have hplain := hmoderate.plain h
    rw [readTerms, hplain.uncut_chars.termTexts_eq, List.filterMap_cons,
      readTerm?_chars h.finite h.represents_power.1, h.shown_eq]
    rfl

/-! ## Sums -/

/-- The sum of terms with integer powers as it is written. -/
def powerChars (ts : List PowerTerm) : List Char := writeSum (ts.map fun t => t.term.chars)

variable {ts : List PowerTerm}

/-- A written sum is read term by term. -/
theorem readTerms_powerChars_flatMap (hne : ts ≠ []) (h : ∀ t ∈ ts, t.Proper) :
    readTerms (powerChars ts) =
      (ts.map PowerTerm.term).flatMap fun t => readTerms t.chars := by
  have hcut : (ts.map fun t => t.term.chars).flatMap termTexts ≠ [] := by
    obtain ⟨t, us, rfl⟩ := List.exists_cons_of_ne_nil hne
    intro hnil
    rw [List.map_cons, List.flatMap_cons, List.append_eq_nil_iff] at hnil
    refine readTerms_ne_nil (h t List.mem_cons_self).opens_chars ?_
    rw [readTerms, hnil.1]
    rfl
  rw [readTerms, powerChars, termTexts_writeSum hcut, List.flatMap_map, List.filterMap_flatMap,
    List.flatMap_map]
  rfl

/-- **The sums that are read as they were written.**  Without terms a zero is written and read; of
all other sums, those are read as they were written whose terms are moderate. -/
theorem readTerms_powerChars_iff (h : ∀ t ∈ ts, t.Proper) :
    readTerms (powerChars ts) = ts.map PowerTerm.term ↔ ts ≠ [] ∧ ∀ t ∈ ts, t.Moderate := by
  by_cases hne : ts = []
  · subst hne
    exact iff_of_false (by decide +kernel) fun hboth => hboth.1 rfl
  · have hread : ∀ u ∈ ts.map PowerTerm.term, readTerms u.chars ≠ [] := by
      rw [List.forall_mem_map]
      exact fun t ht => readTerms_ne_nil (h t ht).opens_chars
    rw [readTerms_powerChars_flatMap hne h, flatMap_eq_self_iff hread, List.forall_mem_map,
      and_iff_right hne]
    exact forall₂_congr fun t ht => readTerms_chars_iff (h t ht)

/-- A sum with a fraction, units, a constant and a large power is read as it was written. -/
theorem readTerms_powerChars_mixed :
    (∀ t ∈ [⟨-5 / 2, 3⟩, ⟨1, 1⟩, ⟨-1, 12⟩, ⟨7, 0⟩], PowerTerm.Proper t) ∧
    powerChars [⟨-5 / 2, 3⟩, ⟨1, 1⟩, ⟨-1, 12⟩, ⟨7, 0⟩] = "-2.5x^3 + x - x^12 + 7".toList ∧
    readTerms (powerChars [⟨-5 / 2, 3⟩, ⟨1, 1⟩, ⟨-1, 12⟩, ⟨7, 0⟩]) =
      [⟨-5 / 2, 3⟩, ⟨1, 1⟩, ⟨-1, 12⟩, ⟨7, 0⟩] := by
  have hproper : ∀ t ∈ [⟨-5 / 2, 3⟩, ⟨1, 1⟩, ⟨-1, 12⟩, ⟨7, 0⟩], PowerTerm.Proper t := by
    decide +kernel
  have hmoderate : ∀ t ∈ [⟨-5 / 2, 3⟩, ⟨1, 1⟩, ⟨-1, 12⟩, ⟨7, 0⟩], PowerTerm.Moderate t := by
    decide +kernel
  have hterms : [⟨-5 / 2, 3⟩, ⟨1, 1⟩, ⟨-1, 12⟩, ⟨7, 0⟩].map PowerTerm.term =
      [⟨-5 / 2, 3⟩, ⟨1, 1⟩, ⟨-1, 12⟩, ⟨7, 0⟩] := by decide +kernel
  refine ⟨hproper, by decide +kernel, ?_⟩
  rw [← hterms]
  exact (readTerms_powerChars_iff hproper).mpr ⟨List.cons_ne_nil _ _, hmoderate⟩

/-- The sign of an exponent and that of a power start terms of their own. -/
theorem inner_signs_cut :
    PowerTerm.Proper ⟨.ofInt (10 ^ 16), 1⟩ ∧
    powerChars [⟨.ofInt (10 ^ 16), 1⟩] = "1e+16x".toList ∧
    readTerms (powerChars [⟨.ofInt (10 ^ 16), 1⟩]) = [⟨1, 0⟩, ⟨16, 1⟩] ∧
    readTerms (powerChars [⟨.ofInt (10 ^ 16), 1⟩]) ≠
      [⟨.ofInt (10 ^ 16), 1⟩].map PowerTerm.term ∧
    PowerTerm.Proper ⟨1, -1⟩ ∧
    powerChars [⟨1, -1⟩] = "x^-1".toList ∧
    readTerms (powerChars [⟨1, -1⟩]) = [⟨1, .nan⟩, ⟨-1, 0⟩] ∧
    readTerms (powerChars [⟨1, -1⟩]) ≠ [⟨1, -1⟩].map PowerTerm.term := by
  decide +kernel

end Polynomial

end Stepwise
