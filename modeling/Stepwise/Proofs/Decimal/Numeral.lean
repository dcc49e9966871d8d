/-
# Numerals that are written and read

The texts of numbers and what they are read as.

* `Numeral.Written` : the texts of numbers without a sign and an exponent;
* `Decimal.toDouble_congr` : a decimal is read by its value alone;
* `Double.displays_display` : the text shown for a double is a written numeral that reads back, or
  has letters in it.
-/
import Stepwise.Decimal.Numeral
import Stepwise.Decimal.Layout
import Stepwise.Proofs.Decimal.Shortest

namespace Stepwise

/-! ## Digits -/

theorem toNat_of_isDigit {c : Char} (h : c.isDigit = true) : 48 ≤ c.toNat ∧ c.toNat ≤ 57 := by
  simp only [Char.isDigit, Bool.and_eq_true, decide_eq_true_eq] at h
  exact ⟨h.1, h.2⟩

namespace Text

theorem digitValue?_of_isDigit {c : Char} (h : c.isDigit = true) :
    digitValue? c = some (c.toNat - 48) := by
  have hrange := toNat_of_isDigit h
  rw [digitValue?, if_pos (by omega), if_pos h]

theorem isDigit_of_isDigit {c : Char} (h : c.isDigit = true) : isDigit c = true := by
  rw [isDigit, digitValue?_of_isDigit h]
  rfl

theorem digitValue_of_isDigit {c : Char} (h : c.isDigit = true) : digitValue c = c.toNat - 48 := by
  rw [digitValue, digitValue?_of_isDigit h]
  rfl

theorem isBlank_of_isDigit {c : Char} (h : c.isDigit = true) : isBlank c = false := by
  obtain ⟨hlower, hupper⟩ := toNat_of_isDigit h
  simp [isBlank, Ranges.has, blankRanges]
  omega

end Text

theorem isDigit_of_mem_digitChars {n : Nat} {c : Char} (h : c ∈ digitChars n) : c.isDigit = true :=
  Nat.isDigit_of_mem_toDigits (by norm_num) (by norm_num) h

theorem digitChars_ne_nil (n : Nat) : digitChars n ≠ [] := Nat.toDigits_ne_nil

/-- The number of digits bounds a number. -/
theorem length_digitChars_le_iff {n k : Nat} (hk : 0 < k) :
    (digitChars n).length ≤ k ↔ n < 10 ^ k :=
  Nat.length_toDigits_le_iff (by norm_num) hk

namespace Numeral

/-- Digits are read as the library reads them. -/
theorem natValue_eq_ofDigitChars {s : List Char} (h : ∀ c ∈ s, c.isDigit = true) :
    natValue s = Nat.ofDigitChars 10 s 0 := by
  rw [natValue, Nat.ofDigitChars_eq_foldl]
  refine List.foldl_ext _ _ _ fun n c hc => ?_
  rw [Text.digitValue_of_isDigit (h c hc)]
  rfl

theorem natValue_digitChars (n : Nat) : natValue (digitChars n) = n := by
  rw [natValue_eq_ofDigitChars fun c => isDigit_of_mem_digitChars]
  exact Nat.ofDigitChars_ten_toDigits

/-- Zeros in front of digits are digits. -/
theorem isDigit_zeros_append (k : Nat) {s : List Char} (h : ∀ c ∈ s, c.isDigit = true) :
    ∀ c ∈ List.replicate k '0' ++ s, c.isDigit = true := by
  intro c hc
  rcases List.mem_append.mp hc with hc | hc
  · rw [List.eq_of_mem_replicate hc]
    rfl
  · exact h c hc

/-- Zeros behind digits are digits. -/
theorem isDigit_append_zeros (k : Nat) {s : List Char} (h : ∀ c ∈ s, c.isDigit = true) :
    ∀ c ∈ s ++ List.replicate k '0', c.isDigit = true := by
  intro c hc
  rw [List.mem_append, Or.comm, ← List.mem_append] at hc
  exact isDigit_zeros_append k h c hc

theorem natValue_replicate_append (k : Nat) {s : List Char} (h : ∀ c ∈ s, c.isDigit = true) :
    natValue (List.replicate k '0' ++ s) = natValue s := by
  rw [natValue_eq_ofDigitChars (isDigit_zeros_append k h), natValue_eq_ofDigitChars h,
    Nat.ofDigitChars_append, Nat.ofDigitChars_replicate_zero, Nat.mul_zero]

theorem natValue_append_replicate (k : Nat) {s : List Char} (h : ∀ c ∈ s, c.isDigit = true) :
    natValue (s ++ List.replicate k '0') = natValue s * 10 ^ k := by
  rw [natValue_eq_ofDigitChars (isDigit_append_zeros k h), natValue_eq_ofDigitChars h,
    Nat.ofDigitChars_append, Nat.ofDigitChars_replicate_zero, Nat.mul_comm]

/-! ## Written numerals -/

/-- Digits, and at least one. -/
def Digits (s : List Char) : Prop := s ≠ [] ∧ ∀ c ∈ s, c.isDigit = true

theorem digits_digitChars (n : Nat) : Digits (digitChars n) :=
  ⟨digitChars_ne_nil n, fun _ => isDigit_of_mem_digitChars⟩

/-- Digits filled up to a width are digits. -/
theorem digits_padZeros (width n : Nat) : Digits (padZeros width (digitChars n)) :=
  ⟨by simp [padZeros, digitChars_ne_nil],
    isDigit_zeros_append _ fun _ => isDigit_of_mem_digitChars⟩

/-- The texts of unsigned numbers: digits, and digits with a point between them. -/
inductive Written : List Char → Prop where
  | whole {s : List Char} (h : Digits s) : Written s
  | point {whole fraction : List Char} (hwhole : Digits whole) (hfraction : Digits fraction) :
      Written (whole ++ '.' :: fraction)

/-- Nothing but digits and a point stands in a written numeral. -/
theorem Written.isDigit_or_point {s : List Char} (h : Written s) {c : Char} (hc : c ∈ s) :
    c.isDigit = true ∨ c = '.' := by
  cases h with
  | whole hs => exact .inl (hs.2 c hc)
  | point hwhole hfraction =>
    rcases List.mem_append.mp hc with hc | hc
    · exact .inl (hwhole.2 c hc)
    · exact (List.mem_cons.mp hc).symm.imp_left (hfraction.2 c)

theorem takeWhile_digits {s : List Char} (h : Digits s) (rest : List Char)
    (hrest : ∀ c ∈ rest.head?, Text.isDigit c = false) :
    (s ++ rest).takeWhile Text.isDigit = s ∧ (s ++ rest).dropWhile Text.isDigit = rest := by
  have hall : ∀ c ∈ s, Text.isDigit c = true := fun c hc => Text.isDigit_of_isDigit (h.2 c hc)
  have hnone : rest.takeWhile Text.isDigit = [] ∧ rest.dropWhile Text.isDigit = rest := by
    cases rest with
    | nil => exact ⟨rfl, rfl⟩
    | cons c rest =>
      have hc := hrest c (by simp)
      simp [hc]
  constructor
  · rw [List.takeWhile_append_of_pos hall, hnone.1, List.append_nil]
  · rw [List.dropWhile_append_of_pos hall, hnone.2]

/-- Digits are read up to where neither a digit nor a point follows. -/
theorem readUnsigned?_whole {s : List Char} (h : Digits s) (rest : List Char)
    (hrest : ∀ c ∈ rest.head?, Text.isDigit c = false ∧ c ≠ '.') :
    readUnsigned? (s ++ rest) = some (⟨s, []⟩, rest) := by
  obtain ⟨htake, hdrop⟩ := takeWhile_digits h rest fun c hc => (hrest c hc).1
  obtain ⟨c, s', rfl⟩ := List.exists_cons_of_ne_nil h.1
  cases rest with
  | nil => simp only [readUnsigned?, htake, hdrop]
  | cons d rest =>
    have hpoint : d ≠ '.' := (hrest d (by simp)).2
    simp only [readUnsigned?, htake, hdrop]
    split
    · next hnil _ => cases hnil
    · next hnil _ => cases hnil
    · next heq _ => exact absurd (List.cons.inj heq).1 hpoint
    · rfl

/-- Digits around a point are read up to where no digit follows. -/
theorem readUnsigned?_point {whole fraction : List Char} (hwhole : Digits whole)
    (hfraction : Digits fraction) (rest : List Char)
    (hrest : ∀ c ∈ rest.head?, Text.isDigit c = false) :
    readUnsigned? (whole ++ '.' :: fraction ++ rest) = some (⟨whole, fraction⟩, rest) := by
  obtain ⟨htake, hdrop⟩ := takeWhile_digits hwhole ('.' :: fraction ++ rest) (by simp; decide)
  obtain ⟨htake', hdrop'⟩ := takeWhile_digits hfraction rest hrest
  obtain ⟨c, s, rfl⟩ := List.exists_cons_of_ne_nil hwhole.1
  rw [List.append_assoc]
  simp only [readUnsigned?, htake, hdrop]
  simp only [List.cons_append, htake', hdrop']

/-- Digits are read as a whole number. -/
theorem unsignedValue_whole {s : List Char} (h : Digits s) :
    unsignedValue s = Decimal.toDouble false ⟨natValue s, 0⟩ := by
  have hread := readUnsigned?_whole h [] (by simp)
  rw [List.append_nil] at hread
  simp [unsignedValue, hread, Unsigned.toDecimal]

/-- Digits around a point are read as a decimal fraction. -/
theorem unsignedValue_point {whole fraction : List Char} (hwhole : Digits whole)
    (hfraction : Digits fraction) :
    unsignedValue (whole ++ '.' :: fraction) =
      Decimal.toDouble false ⟨natValue (whole ++ fraction), -(fraction.length : Int)⟩ := by
  have hread := readUnsigned?_point hwhole hfraction [] (by simp)
  rw [List.append_nil] at hread
  simp only [unsignedValue, hread, Unsigned.toDecimal]

end Numeral

/-! ## Leading digits -/

namespace Decimal

/-- The exponent of the leading digit is the integer logarithm of the value. -/
theorem leading_eq_log {x : Decimal} (h : x.digits ≠ 0) : x.leading = Int.log 10 x.value := by
  obtain ⟨l, hl⟩ : ∃ l, (digitChars x.digits).length = l + 1 :=
    Nat.exists_eq_succ_of_ne_zero (by simpa using digitChars_ne_nil x.digits)
  have hupper : x.digits < 10 ^ (l + 1) :=
    (length_digitChars_le_iff (Nat.succ_pos l)).mp hl.le
  have hlower : 10 ^ l ≤ x.digits := by
    rcases Nat.eq_zero_or_pos l with rfl | hpos
    · exact Nat.pos_of_ne_zero h
    · by_contra hlt
      have hle := (length_digitChars_le_iff hpos).mpr (Nat.lt_of_not_le hlt)
      omega
  have hunit : (0 : ℚ) < 10 ^ x.exponent := by positivity
  have hvalue : 0 < x.value := by
    have hdigits : (0 : ℚ) < x.digits := by exact_mod_cast Nat.pos_of_ne_zero h
    rw [value]
    positivity
  have hle : (l : Int) + x.exponent ≤ Int.log 10 x.value := by
    refine (Int.zpow_le_iff_le_log (by norm_num) hvalue).mp ?_
    rw [Nat.cast_ofNat, zpow_add₀ (by norm_num), zpow_natCast, value]
    exact mul_le_mul_of_nonneg_right (by exact_mod_cast hlower) hunit.le
  have hlt : Int.log 10 x.value < (l : Int) + 1 + x.exponent := by
    refine (Int.lt_zpow_iff_log_lt (by norm_num) hvalue).mp ?_
    rw [Nat.cast_ofNat, zpow_add₀ (by norm_num), value]
    refine mul_lt_mul_of_pos_right ?_ hunit
    exact_mod_cast hupper
  rw [leading, hl]
  push_cast
  omega

theorem digits_eq_zero_iff (x : Decimal) : x.digits = 0 ↔ x.value = 0 := by
  have hunit : (10 : ℚ) ^ x.exponent ≠ 0 := by positivity
  simp [value, hunit]

/-- **Deciding far decimals by their leading digit is rounding them.** -/
theorem toDouble_eq (negative : Bool) (x : Decimal) :
    x.toDouble negative = .ofDecimal negative x.digits x.exponent := by
  have hquotient := Double.ofDecimal_eq negative x (Rat.den_pos _) x.value_eq_div
  have hnonneg := x.value_nonneg
  unfold toDouble
  by_cases hdigits : x.digits = 0
  · have hvalue : x.value = 0 := (digits_eq_zero_iff x).mp hdigits
    rw [if_pos hdigits, hquotient, hvalue]
    rfl
  · have hpos : 0 < x.value :=
      lt_of_le_of_ne hnonneg fun hzero => hdigits ((digits_eq_zero_iff x).mpr hzero.symm)
    have hnum : 0 < x.value.num.natAbs := Int.natAbs_pos.mpr (Rat.num_ne_zero.mpr hpos.ne')
    rw [if_neg hdigits, leading_eq_log hdigits]
    by_cases hlarge : 400 < Int.log 10 x.value
    · -- From `2 ^ 1024` on everything is rounded to infinity.
      rw [if_pos hlarge, hquotient]
      refine (Double.roundQuotient_of_large negative hnum (Rat.den_pos _) ?_).symm
      rw [← x.value_eq_div]
      refine (Int.zpow_le_iff_le_log (by norm_num) hpos).mp ?_
      have hten : 2 ^ 1024 ≤ 10 ^ 401 := by decide +kernel
      calc ((2 : Nat) : ℚ) ^ (1024 : Int) ≤ ((10 : Nat) : ℚ) ^ (401 : Int) := by exact_mod_cast hten
        _ ≤ x.value := (Int.zpow_le_iff_le_log (by norm_num) hpos).mpr (by omega)
    · by_cases hsmall : Int.log 10 x.value < -400
      · -- Below `2 ^ -1075` everything is rounded to zero.
        rw [if_neg hlarge, if_pos hsmall, hquotient]
        refine (Double.roundQuotient_of_tiny negative (Rat.den_pos _) ?_).symm
        rw [← x.value_eq_div]
        have hten : 2 ^ 1075 < 10 ^ 400 := by decide +kernel
        calc x.value < ((10 : Nat) : ℚ) ^ (-400 : Int) :=
              (Int.lt_zpow_iff_log_lt (by norm_num) hpos).mpr hsmall
          _ < 2 ^ (-1075 : Int) := by
            rw [zpow_neg, zpow_neg]
            refine inv_strictAnti₀ (by positivity) ?_
            exact_mod_cast hten
      · rw [if_neg hlarge, if_neg hsmall]

/-- Decimals of the same value are read alike. -/
theorem toDouble_congr (negative : Bool) {x y : Decimal} (h : x.value = y.value) :
    x.toDouble negative = y.toDouble negative := by
  rw [toDouble_eq, toDouble_eq, Double.ofDecimal_congr negative h]

/-- A negative decimal is read as the negative of its magnitude. -/
theorem toDouble_true (x : Decimal) : x.toDouble true = -x.toDouble false := by
  rw [toDouble_eq, toDouble_eq, Double.ofDecimal_eq true x (Rat.den_pos _) x.value_eq_div,
    Double.ofDecimal_eq false x (Rat.den_pos _) x.value_eq_div, Double.roundQuotient_true]

/-! ## Positional texts -/

/-- A text with a point has digits on both sides of it. -/
theorem withPoint_eq (places : Nat) {s : List Char} (h : Numeral.Digits s) :
    ∃ whole fraction, withPoint (places + 1) s = whole ++ '.' :: fraction ∧ Numeral.Digits whole ∧
      Numeral.Digits fraction ∧ fraction.length = places + 1 ∧
        Numeral.natValue (whole ++ fraction) = Numeral.natValue s := by
  obtain ⟨padded, hpadded⟩ : ∃ padded, padded = padZeros (places + 2) s := ⟨_, rfl⟩
  have hlength : places + 2 ≤ padded.length := by
    rw [hpadded, padZeros, List.length_append, List.length_replicate]
    omega
  have hall : ∀ c ∈ padded, c.isDigit = true := by
    rw [hpadded, padZeros]
    exact Numeral.isDigit_zeros_append _ h.2
  refine ⟨padded.take (padded.length - (places + 1)), padded.drop (padded.length - (places + 1)),
    by rw [withPoint, ← hpadded], ⟨?_, ?_⟩, ⟨?_, ?_⟩, ?_, ?_⟩
  · rw [← List.length_pos_iff, List.length_take]
    omega
  · exact fun c hc => hall c (List.mem_of_mem_take hc)
  · rw [← List.length_pos_iff, List.length_drop]
    omega
  · exact fun c hc => hall c (List.mem_of_mem_drop hc)
  · rw [List.length_drop]
    omega
  · rw [List.take_append_drop, hpadded, padZeros]
    exact Numeral.natValue_replicate_append _ h.2

/-- The digits of a whole number and what marks it as whole are a written numeral. -/
theorem wholeChars_written {mark : List Char} (hmark : mark = [] ∨ mark = ['.', '0'])
    (digits k : Nat) :
    Numeral.Written (digitChars digits ++ List.replicate k '0' ++ mark) ∧
      Numeral.unsignedValue (digitChars digits ++ List.replicate k '0' ++ mark) =
        toDouble false ⟨digits, k⟩ := by
  have hdigits := Numeral.digits_digitChars digits
  have hwhole : Numeral.Digits (digitChars digits ++ List.replicate k '0') :=
    ⟨by simp [digitChars_ne_nil], Numeral.isDigit_append_zeros k hdigits.2⟩
  have hvalue (j : Nat) : Numeral.natValue (digitChars digits ++ List.replicate j '0') =
      digits * 10 ^ j := by
    rw [Numeral.natValue_append_replicate _ hdigits.2, Numeral.natValue_digitChars]
  rcases hmark with rfl | rfl
  · rw [List.append_nil]
    refine ⟨.whole hwhole, ?_⟩
    rw [Numeral.unsignedValue_whole hwhole, hvalue]
    refine toDouble_congr false ?_
    rw [value, value, zpow_natCast]
    push_cast
    rw [mul_one]
  · have hzero : Numeral.Digits ['0'] := ⟨by simp, by simp⟩
    refine ⟨.point hwhole hzero, ?_⟩
    -- The zero after the point is one more zero at the end, and the exponent takes it back.
    have hreplicate : (digitChars digits ++ List.replicate k '0') ++ ['0'] =
        digitChars digits ++ List.replicate (k + 1) '0' := by
      rw [List.append_assoc, List.replicate_succ']
    rw [Numeral.unsignedValue_point hwhole hzero, hreplicate, hvalue]
    refine toDouble_congr false ?_
    rw [value, value, List.length_singleton, zpow_natCast, pow_succ]
    push_cast
    rw [zpow_neg, zpow_one]
    field_simp

/-- The positional text of a decimal is a written numeral of its value. -/
theorem positionalChars_written {mark : List Char} (hmark : mark = [] ∨ mark = ['.', '0'])
    (x : Decimal) :
    Numeral.Written (x.positionalChars mark) ∧
      Numeral.unsignedValue (x.positionalChars mark) = x.toDouble false := by
  obtain ⟨digits, exponent⟩ := x
  cases exponent with
  | ofNat k => exact wholeChars_written hmark digits k
  | negSucc k =>
    obtain ⟨whole, fraction, htext, hwhole, hfraction, hlength, hvalue⟩ :=
      withPoint_eq k (Numeral.digits_digitChars digits)
    have hchars : positionalChars mark ⟨digits, Int.negSucc k⟩ = whole ++ '.' :: fraction := htext
    rw [hchars]
    refine ⟨.point hwhole hfraction, ?_⟩
    rw [Numeral.unsignedValue_point hwhole hfraction, hvalue, Numeral.natValue_digitChars, hlength]
    rfl

/-- A text with an exponent starts with a single digit, or with one digit before a point and the
others after it. -/
theorem scientificChars_cases (x : Decimal) :
    (∃ first, digitChars x.digits = [first] ∧ Numeral.Digits [first] ∧
      x.scientificChars = [first] ++ 'e' :: exponentChars x.leading) ∨
    ∃ first fraction, digitChars x.digits = first :: fraction ∧ Numeral.Digits [first] ∧
      Numeral.Digits fraction ∧
      x.scientificChars = (first :: '.' :: fraction) ++ 'e' :: exponentChars x.leading := by
  have hdigits := Numeral.digits_digitChars x.digits
  cases hlist : digitChars x.digits with
  | nil => exact absurd hlist (digitChars_ne_nil _)
  | cons first others =>
    rw [hlist] at hdigits
    have hfirst : Numeral.Digits [first] := ⟨by simp, by simpa using hdigits.2 first (by simp)⟩
    cases others with
    | nil =>
      refine .inl ⟨first, rfl, hfirst, ?_⟩
      simp only [scientificChars, hlist]
    | cons second others =>
      refine .inr ⟨first, second :: others, rfl, hfirst, ⟨by simp, fun c hc =>
        hdigits.2 c (List.mem_cons_of_mem _ hc)⟩, ?_⟩
      simp only [scientificChars, hlist]

/-- A text with an exponent is a written numeral, `e`, a sign and digits. -/
theorem scientificChars_eq (x : Decimal) :
    ∃ s c digits, x.scientificChars = s ++ 'e' :: c :: digits ∧ Numeral.Written s ∧
      (c = '+' ∨ c = '-') ∧ Numeral.Digits digits := by
  have hexponent := Numeral.digits_padZeros 2 x.leading.natAbs
  have hsign : (if x.leading < 0 then '-' else '+') = '+' ∨
      (if x.leading < 0 then '-' else '+') = '-' := by
    split
    · exact .inr rfl
    · exact .inl rfl
  rcases x.scientificChars_cases with ⟨first, -, hfirst, hchars⟩ |
    ⟨first, fraction, -, hfirst, hfraction, hchars⟩
  · exact ⟨_, _, _, hchars, .whole hfirst, hsign, hexponent⟩
  · exact ⟨_, _, _, hchars, .point hfirst hfraction, hsign, hexponent⟩

end Decimal

/-! ## Texts of doubles -/

namespace Double

/-- The sign that a double is shown with; zeros have none. -/
def shownSign : Double → List Char
  | .nan => []
  | .infinity negative => if negative then ['-'] else []
  | .finite negative m _ _ => if negative && m != 0 then ['-'] else []

/-- The forms of the text shown for a double. -/
inductive Displays (x : Double) : List Char → Prop where
  | plain {s : List Char} (hfinite : x.isFinite = true) (hwritten : Numeral.Written s)
      (hvalue : Numeral.unsignedValue s = x.abs) : Displays x (x.shownSign ++ s)
  | scientific {d : Decimal} (hfinite : x.isFinite = true) (hvalue : d.toDouble false = x.abs) :
      Displays x (x.shownSign ++ d.scientificChars)
  | infinite (hinfinite : x.isFinite = false) : Displays x (x.shownSign ++ ['i', 'n', 'f'])
  | undefined (hundefined : x.isFinite = false) : Displays x ['n', 'a', 'n']

variable {negative : Bool} {m : Nat} {e : Int} {h : Canonical m e}

theorem toInt?_eq_some_iff {n : Int} :
    (finite negative m e h).toInt? = some n ↔ (finite negative m e h).value = n := by
  rw [toInt?]
  constructor
  · intro hsome
    split at hsome
    · next hden =>
      rw [← Option.some.inj hsome]
      exact (Rat.den_eq_one_iff _).mp hden |>.symm
    · cases hsome
  · intro hvalue
    rw [hvalue, if_pos (Rat.den_intCast n), Rat.num_intCast]

/-- A whole number reads back. -/
theorem unsignedValue_digitChars {n : Int} (hvalue : (finite negative m e h).value = n) :
    Numeral.unsignedValue (digitChars n.natAbs) = .finite false m e h := by
  have hmagnitude : (n.natAbs : ℚ) = m * 2 ^ e := by
    rw [← abs_value_finite negative m e h, hvalue, Nat.cast_natAbs, Int.cast_abs]
  rw [Numeral.unsignedValue_whole (Numeral.digits_digitChars _), Numeral.natValue_digitChars]
  rcases Nat.eq_zero_or_pos m with rfl | hm
  · have hzero : n.natAbs = 0 := by
      have hcast : (n.natAbs : ℚ) = 0 := by
        rw [hmagnitude]
        simp
      exact_mod_cast hcast
    rw [hzero, eq_zero_of_mantissa]
    rfl
  · rw [Decimal.toDouble_eq]
    have hquotient : (Decimal.mk n.natAbs 0).value = (n.natAbs : ℚ) / (1 : Nat) := by
      rw [Decimal.value, zpow_zero, Nat.cast_one, div_one, mul_one]
    rw [ofDecimal_eq false ⟨n.natAbs, 0⟩ Nat.one_pos hquotient]
    refine roundQuotient_of_eq false h hm Nat.one_pos ?_
    rw [Nat.cast_one, div_one, hmagnitude]

/-- A shortest positional text reads back. -/
theorem unsignedValue_shortest (hm : 0 < m) {mark : List Char}
    (hmark : mark = [] ∨ mark = ['.', '0']) :
    Numeral.unsignedValue ((finite negative m e h).shortest.positionalChars mark) =
      .finite false m e h := by
  rw [(Decimal.positionalChars_written hmark _).2, Decimal.toDouble_eq,
    ofDecimal_shortest negative h hm]

/-- The text of a nonzero double with its shortest digits. -/
theorem displays_repr (hm : 0 < m) :
    Displays (finite negative m e h) (finite negative m e h).repr := by
  have hsign : (finite negative m e h).shownSign = if negative then ['-'] else [] := by
    have hne : m ≠ 0 := hm.ne'
    cases negative <;> simp [shownSign, hne]
  rw [repr, signed, ← hsign, Decimal.write]
  split
  · exact .plain rfl (Decimal.positionalChars_written (.inr rfl) _).1
      (unsignedValue_shortest hm (.inr rfl))
  · refine .scientific rfl ?_
    rw [Decimal.toDouble_eq]
    exact ofDecimal_shortest negative h hm

/-- The text of a whole number. -/
theorem displays_integerChars {n : Int} (hvalue : (finite negative m e h).value = n) :
    Displays (finite negative m e h) (integerChars n) := by
  have hsign : (finite negative m e h).shownSign = if n < 0 then ['-'] else [] := by
    have hneg : n < 0 ↔ negative = true ∧ m ≠ 0 := by
      have hunit : (0 : ℚ) < 2 ^ e := by positivity
      have hcast : n < 0 ↔ (n : ℚ) < 0 := by exact_mod_cast Iff.rfl
      rw [hcast, ← hvalue, value_finite]
      cases negative <;> simp [hunit, Nat.pos_iff_ne_zero]
    simp only [shownSign, hneg, Bool.and_eq_true, bne_iff_ne]
  have htext : integerChars n = (finite negative m e h).shownSign ++ digitChars n.natAbs := by
    rw [integerChars, hsign]
    split <;> rfl
  rw [htext]
  exact .plain rfl (.whole (Numeral.digits_digitChars _)) (unsignedValue_digitChars hvalue)

/-- **The text shown for a double has one of four forms**, and one without letters reads back. -/
theorem displays_display (x : Double) : Displays x x.display := by
  cases x with
  | nan => exact .undefined rfl
  | infinity negative => exact .infinite rfl
  | finite negative m e h =>
    have hrepr (hzero : (finite negative m e h).toInt? ≠ some 0) :
        Displays (finite negative m e h) (finite negative m e h).repr := by
      refine displays_repr (Nat.pos_of_ne_zero fun hm => hzero ?_)
      subst hm
      rw [toInt?_eq_some_iff, value_finite]
      simp
    rw [display]
    cases hint : (finite negative m e h).toInt? with
    | none => exact hrepr (by simp [hint])
    | some n =>
      change Displays _ (if n.natAbs < tenTo 16 then integerChars n else _)
      by_cases hbound : n.natAbs < tenTo 16
      · rw [if_pos hbound]
        exact displays_integerChars (toInt?_eq_some_iff.mp hint)
      · rw [if_neg hbound]
        refine hrepr ?_
        rw [hint]
        rintro ⟨⟩
        exact hbound (by decide)

end Double

end Stepwise
