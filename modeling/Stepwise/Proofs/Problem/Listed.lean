/-
# Problems that look solvable

Whether a problem looks solvable is decided by its surface: by the shape of a cubic term or a call,
or else by a list of characters.  The list has all characters that expressions are written in, but
for the percent sign and the digits of other scripts; the readers of equations pass over any
character.

* `Expr.mem_of_ofChars` : the characters of expressions;
* `Problem.ShowsForm` : the shapes that are looked for;
* `Problem.asEquation_equals` : a request to find roots becomes an equation;
* `Problem.looksSolvable_of_solve` : which of the problems that are solved look solvable.
-/
import Stepwise.Proofs.Derivation.Steps
import Stepwise.Proofs.Expr.Scan
import Stepwise.Proofs.Polynomial.Cut
import Stepwise.Proofs.Problem.Outcome

namespace Stepwise

/-! ## Characters of expressions -/

/-- The names that expressions may have. -/
def knownNames : List (List Char) :=
  FunctionName.all.map (fun f => f.name.toList) ++ ConstantName.all.map (fun c => c.name.toList)

theorem FunctionName.name_mem_knownNames (f : FunctionName) : f.name.toList ∈ knownNames := by
  cases f <;> decide

theorem ConstantName.name_mem_knownNames (c : ConstantName) : c.name.toList ∈ knownNames := by
  cases c <;> decide

/-- A derivation spells known names only. -/
theorem Phrase.known_of_mem_tokens {κ : Category} (d : Phrase κ) {n : List Char}
    (h : Token.name n ∈ d.tokens) : n ∈ knownNames := by
  induction d with
  | expression first rest ihfirst ihrest | term first rest ihfirst ihrest
  | juxtaposition first rest ihfirst ihrest | power first rest ihfirst ihrest =>
    rcases List.mem_append.mp h with h | h
    · exact ihfirst h
    · exact ihrest h
  | sum sign next rest ihnext ihrest | product scale next rest ihnext ihrest
  | raise next rest ihnext ihrest =>
    simp only [tokens, List.mem_cons, List.mem_append, reduceCtorEq, false_or] at h
    rcases h with h | h
    · exact ihnext h
    · exact ihrest h
  | signed sign operand ih | signedExponent sign operand ih =>
    simp only [tokens, List.mem_cons, reduceCtorEq, false_or] at h
    exact ih h
  | factor operand ih | exponent operand ih => exact ih h
  | endSum | endProduct | endPower | number text | percent text => simp [tokens] at h
  | constant name =>
    simp only [tokens, List.mem_singleton, Token.name.injEq] at h
    rw [h]
    exact name.name_mem_knownNames
  | call f argument ih =>
    simp only [tokens, List.mem_cons, List.mem_append, Token.name.injEq, reduceCtorEq, false_or,
      List.not_mem_nil, or_false] at h
    rcases h with rfl | h
    · exact f.name_mem_knownNames
    · exact ih h
  | group inner ih =>
    simp only [tokens, List.mem_cons, List.mem_append, reduceCtorEq, false_or, List.not_mem_nil,
      or_false] at h
    exact ih h

/-- **The characters of an expression**: white space, digits, signs and the letters of known
names. -/
theorem Expr.mem_of_ofChars {s : List Char} {e : Expr} (h : Expr.ofChars s = .ok e) {c : Char}
    (hc : c ∈ s) : Text.isBlank c = true ∨ Text.isDigit c = true ∨
      c ∈ ['.', '+', '-', '*', '/', '^', '(', ')', '%'] ∨ c ∈ knownNames.flatten := by
  obtain ⟨tokens, htokens, hread⟩ := bind_eq_ok.mp h
  obtain ⟨d, rfl, -⟩ := Phrase.exists_of_ofTokens hread
  cases hblank : Text.isBlank c with
  | true => exact .inl rfl
  | false =>
    right
    have hmem : c ∈ d.tokens.flatMap Token.chars := by
      rw [Token.flatMap_chars_of_ofChars htokens, Text.removeBlanks, List.mem_filter, hblank]
      exact ⟨hc, rfl⟩
    obtain ⟨token, htoken, hmem⟩ := List.mem_flatMap.mp hmem
    cases token with
    | number text =>
      rcases (Token.scanned_of_ofChars htokens text htoken).mem c hmem with hdigit | rfl
      · exact .inl hdigit
      · exact .inr (.inl (by simp))
    | name n => exact .inr (.inr (List.mem_flatten.mpr ⟨n, d.known_of_mem_tokens htoken, hmem⟩))
    | operator op =>
      obtain rfl := List.mem_singleton.mp hmem
      exact .inr (.inl (by cases op <;> decide))
    | opening | closing | percent =>
      obtain rfl := List.mem_singleton.mp hmem
      exact .inr (.inl (by decide))

/-- No expression has the letter of the variable or an equals sign in it. -/
theorem Expr.notMem_of_ofChars {s : List Char} {e : Expr} (h : Expr.ofChars s = .ok e) {c : Char}
    (hc : c ∈ ['x', '=']) : c ∉ s := by
  intro hmem
  have hread := mem_of_ofChars h hmem
  simp only [List.mem_cons, List.not_mem_nil, or_false] at hc
  rcases hc with rfl | rfl <;> exact absurd hread (by decide)

/-! ## Listed characters -/

theorem Text.isDigit_of_ascii {c : Char} (h : c.toNat < 0x80) : isDigit c = c.isDigit := by
  rw [isDigit, digitValue?, if_pos h]
  split
  · next hdigit => rw [hdigit]; rfl
  · next hdigit => rw [Bool.not_eq_true] at hdigit; rw [hdigit]; rfl

namespace Problem

/-- The percent sign and the digits of other scripts, of which an expression may be written. -/
def Unlisted (c : Char) : Prop := c = '%' ∨ Text.isDigit c = true ∧ c.isDigit = false

instance (c : Char) : Decidable (Unlisted c) := inferInstanceAs (Decidable (_ ∨ _))

/-- No character of the list is one of them. -/
theorem not_unlisted_of_isPlain {c : Char} (h : isPlain c = true) : ¬ Unlisted c := by
  rintro (rfl | ⟨hdigit, hascii⟩)
  · exact absurd h (by decide)
  · simp only [isPlain, Bool.or_eq_true, hascii, Bool.false_eq_true, or_false] at h
    rcases h with (hlower | hblank) | hsign
    · have hsmall : c.toNat < 0x80 := by
        have hbound : c.val ≤ 'z'.val := of_decide_eq_true (Bool.and_eq_true_iff.mp hlower).2
        have hle : c.toNat ≤ 0x7a := UInt32.le_iff_toNat_le.mp hbound
        omega
      rw [Text.isDigit_of_ascii hsmall, hascii] at hdigit
      cases hdigit
    · rw [(Text.of_isBlank hblank).1] at hdigit
      cases hdigit
    · have hall : ("+-*/().^=,".toList.all fun c => !Text.isDigit c) = true := by decide
      rw [List.contains_iff_mem] at hsign
      simpa [hdigit] using List.all_eq_true.mp hall c hsign

/-- All other characters of expressions are listed. -/
theorem isPlain_of_ofChars {s : List Char} {e : Expr} (h : Expr.ofChars s = .ok e) {c : Char}
    (hc : c ∈ s) (hlisted : ¬ Unlisted c) : isPlain c = true := by
  rw [Unlisted, not_or, not_and, Bool.not_eq_false] at hlisted
  simp only [isPlain, Bool.or_eq_true]
  rcases Expr.mem_of_ofChars h hc with hblank | hdigit | hsign | hname
  · exact .inl (.inr hblank)
  · exact .inl (.inl (.inr (hlisted.2 hdigit)))
  · right
    simp only [List.mem_cons, List.not_mem_nil, or_false, hlisted.1] at hsign
    rcases hsign with rfl | rfl | rfl | rfl | rfl | rfl | rfl | rfl <;> decide
  · have hall : (knownNames.flatten.all Char.isLower) = true := by decide
    exact .inl (.inl (.inl (List.all_eq_true.mp hall c hname)))

/-! ## Requests to find roots -/

/-- Nothing but the name of a function is dropped. -/
theorem dropFunctionName_cases (c : Char) (s : List Char) :
    dropFunctionName (c :: s) = c :: dropFunctionName s ∨
      ∃ blanks t, (∀ b ∈ blanks, Text.isBlank b = true) ∧
        c :: s = functionName ++ blanks ++ ['='] ++ t ∧ dropFunctionName (c :: s) = t := by
  by_cases hname : functionName <+: c :: s
  · obtain ⟨u, hu⟩ := hname
    obtain ⟨blanks, t, rfl, hblanks, ht⟩ := Text.exists_blanks_append u
    have hrest : Text.trimStart ((c :: s).drop functionName.length) = t := by
      rw [← hu, List.drop_left, Text.trimStart_append hblanks ht]
    by_cases hequals : t.head? = some '='
    · right
      obtain ⟨t, rfl⟩ := List.head?_eq_some_iff.mp hequals
      refine ⟨blanks, t, hblanks, by simp [← hu], ?_⟩
      have hprefix : functionName.isPrefixOf (c :: s) = true :=
        List.isPrefixOf_iff_prefix.mpr ⟨_, hu⟩
      rw [dropFunctionName, hrest, hprefix]
      rfl
    · left
      rw [dropFunctionName, hrest, if_neg]
      simp [hequals]
  · left
    rw [dropFunctionName, if_neg]
    simp [hname]

/-- A piece stays if the name can neither begin in it nor end in it. -/
theorem dropFunctionName_append {piece : List Char} (hparenthesis : '(' ∉ piece)
    (hlast : piece.getLast? ≠ some 'f') (s : List Char) :
    dropFunctionName (piece ++ s) = piece ++ dropFunctionName s := by
  induction piece with
  | nil => rfl
  | cons c piece ih =>
    rcases dropFunctionName_cases c (piece ++ s) with hdrop | ⟨blanks, t, -, hs, -⟩
    · cases piece with
      | nil => exact hdrop
      | cons d piece =>
        have hparenthesis' := fun hmem => hparenthesis (List.mem_cons_of_mem c hmem)
        rw [List.cons_append, hdrop, ih hparenthesis' (by simpa using hlast)]
        rfl
    · simp only [functionName, List.cons_append, List.cons.injEq] at hs
      obtain ⟨hc, hs⟩ := hs
      cases piece with
      | nil => exact absurd (by rw [hc]; rfl) hlast
      | cons d piece =>
        obtain ⟨rfl, -⟩ := List.cons.inj hs
        exact absurd (by simp) hparenthesis

/-- The end of a request stays when the name of a function is dropped. -/
theorem contains_dropFunctionName {s : List Char} (h : Text.contains rootsSuffix s = true) :
    Text.contains rootsSuffix (dropFunctionName s) = true := by
  induction s with
  | nil => exact h
  | cons c s ih =>
    rcases dropFunctionName_cases c s with hdrop | ⟨blanks, t, hblanks, hs, hdrop⟩
    · -- if the end of the request begins here, the name can only come after it
      rw [Text.contains, Bool.or_eq_true] at h
      rcases h with h | h
      · obtain ⟨t, ht⟩ := List.isPrefixOf_iff_prefix.mp h
        refine Text.contains_of_infix ⟨[], dropFunctionName t, ?_⟩
        rw [← ht, dropFunctionName_append (by decide) (by decide), List.nil_append]
      · rw [hdrop, Text.contains, ih h, Bool.or_true]
    · -- the end of the request begins with a comma, and what is dropped has none
      have hcomma : ',' ∉ functionName ++ blanks ++ ['='] := by
        have hblank : ',' ∉ blanks := fun hmem => absurd (hblanks _ hmem) (by decide)
        simp [functionName, hblank]
      have hsuffix : rootsSuffix = ',' :: " find roots".toList := rfl
      rw [hsuffix] at h ⊢
      rwa [hdrop, ← Text.contains_skip hcomma, ← hs]

/-- **A request to find roots becomes an equation.** -/
theorem asEquation_equals {s : List Char} (h : Text.contains rootsSuffix s = true) :
    '=' ∈ asEquation s := by
  rw [asEquation, if_pos h]
  refine Text.mem_trim (by decide) (Text.mem_replaceAll (by decide) (by decide) ?_)
  exact contains_dropFunctionName h

/-! ## Problems that are solved -/

/-- The text shows a cubic term or a call. -/
def ShowsForm (s : List Char) : Prop :=
  Text.contains ['x', '^', '3'] s = true ∨ (Call.definiteIntegral? s).isSome = true ∨
    (Call.integral? s).isSome = true ∨ (Call.derivative? s).isSome = true

theorem looksSolvable_iff {s : List Char} (hne : normalize s ≠ []) :
    looksSolvable s = true ↔ ShowsForm (normalize s) ∨ ∀ c ∈ normalize s, isPlain c = true := by
  simp [looksSolvable, ShowsForm, hne, or_assoc]

/-- The kinds of problems that are recognised by such a form. -/
def Kind.HasForm (kind : Kind) : Prop :=
  kind ∈ [definiteIntegral, indefiniteIntegral, derivative, cubic]

/-- A text shows one of the forms exactly if its kind has one, unless it is taken for an expression
and is none. -/
theorem showsForm_iff {s : List Char} (h : classify s = .arithmetic → ∃ e, Expr.ofChars s = .ok e) :
    ShowsForm s ↔ (classify s).HasForm := by
  by_cases hdefinite : (Call.definiteIntegral? s).isSome = true
  · simp [ShowsForm, classify, Kind.HasForm, hdefinite]
  by_cases hindefinite : (Call.integral? s).isSome = true
  · simp [ShowsForm, classify, Kind.HasForm, hdefinite, hindefinite]
  by_cases hderivative : (Call.derivative? s).isSome = true
  · simp [ShowsForm, classify, Kind.HasForm, hdefinite, hindefinite, hderivative]
  have hform : ShowsForm s ↔ Text.contains ['x', '^', '3'] s = true := by simp [ShowsForm, *]
  have hkind : (classify s).HasForm ↔ isEquationWith ['x', '^', '3'] s = true := by
    rw [classify, if_neg hdefinite, if_neg hindefinite, if_neg hderivative]
    split_ifs with hcubic <;> simp [Kind.HasForm, hcubic]
  rw [hform, hkind, isEquationWith, Bool.and_eq_true, iff_self_and]
  intro hcube
  by_contra hequals
  -- without an equals sign it would be taken for an expression
  rw [Bool.not_eq_true] at hequals
  have harithmetic : classify s = .arithmetic := by
    simp only [classify, isEquationWith, hdefinite, hindefinite, hderivative, hequals,
      Bool.and_false, Bool.false_eq_true, if_false]
  obtain ⟨e, he⟩ := h harithmetic
  have hletter : 'x' ∉ s := Expr.notMem_of_ofChars he (by simp)
  rw [Text.contains_eq_false List.mem_cons_self hletter] at hcube
  cases hcube

variable {settings : Settings} {text : String} {answer : Answer}

/-- The kind of a problem as it is given. -/
def kindOf (text : String) : Kind := classify (asEquation (normalize text.toList))

theorem normalize_ne_nil_of_solve (h : (solve settings text).outcome = .ok answer) :
    normalize text.toList ≠ [] := by
  obtain ⟨normal, haccept, -⟩ := Traced.outcome_bind_eq_ok.mp h
  rw [Traced.outcome_ofFailure, liftFailure_eq_ok] at haccept
  obtain ⟨rfl, hne⟩ := of_accept haccept
  exact hne

/-- What is solved by evaluation is an expression. -/
theorem exists_ofChars_of_solve (h : (solve settings text).outcome = .ok answer)
    (hkind : kindOf text = .arithmetic) :
    ∃ e, Expr.ofChars (asEquation (normalize text.toList)) = .ok e := by
  have hfinal := of_final (final_of_solve h)
  rw [← kindOf, hkind] at hfinal
  obtain ⟨answer', hsolve, -⟩ := Kind.of_final hfinal
  obtain ⟨r, hreduce, -⟩ := Traced.outcome_bind_eq_ok.mp hsolve
  rw [Traced.outcome_ofFailure, liftFailure_eq_ok, String.toList_ofList] at hreduce
  obtain ⟨e, he, -⟩ := Arithmetic.of_reduce hreduce
  exact ⟨e, he⟩

/-- A request to find roots is not solved by evaluation. -/
theorem contains_rootsSuffix_of_solve (h : (solve settings text).outcome = .ok answer)
    (hkind : kindOf text = .arithmetic) :
    Text.contains rootsSuffix (normalize text.toList) = false := by
  obtain ⟨e, he⟩ := exists_ofChars_of_solve h hkind
  by_contra hsuffix
  rw [Bool.not_eq_false] at hsuffix
  exact Expr.notMem_of_ofChars he (by simp) (asEquation_equals hsuffix)

/-- The characters for which a problem of a kind does not look solvable. -/
def Kind.Overlooks (kind : Kind) (c : Char) : Prop :=
  if kind = .arithmetic then Unlisted c else isPlain c = false

instance (kind : Kind) (c : Char) : Decidable (kind.Overlooks c) :=
  inferInstanceAs (Decidable (if kind = .arithmetic then Unlisted c else isPlain c = false))

theorem asEquation_eq_self {s : List Char} (h : Text.contains rootsSuffix s = false) :
    asEquation s = s := by
  rw [asEquation, h]
  rfl

/-- What is solved by evaluation is written in listed characters exactly if it has none of the few
that expressions have beyond the list. -/
theorem isPlain_iff_of_solve (h : (solve settings text).outcome = .ok answer) :
    (∀ c ∈ normalize text.toList, isPlain c = true) ↔
      ∀ c ∈ normalize text.toList, ¬ (kindOf text).Overlooks c := by
  refine forall₂_congr fun c hc => ?_
  rw [Kind.Overlooks]
  split
  · next hkind =>
    obtain ⟨e, he⟩ := exists_ofChars_of_solve h hkind
    rw [asEquation_eq_self (contains_rootsSuffix_of_solve h hkind)] at he
    exact ⟨not_unlisted_of_isPlain, isPlain_of_ofChars he hc⟩
  · rw [Bool.not_eq_false]

/-- **Which of the problems that are solved look solvable**: those that show one of the forms, and
those without a character that is overlooked.  Unless roots are asked for, to show a form is to be
an integral, a derivative or a cubic equation. -/
theorem looksSolvable_of_solve (h : (solve settings text).outcome = .ok answer) :
    (looksSolvable text.toList = true ↔ ShowsForm (normalize text.toList) ∨
      ∀ c ∈ normalize text.toList, ¬ (kindOf text).Overlooks c) ∧
    (Text.contains rootsSuffix (normalize text.toList) = false →
      (ShowsForm (normalize text.toList) ↔ (kindOf text).HasForm)) ∧
    (kindOf text = .arithmetic → Text.contains rootsSuffix (normalize text.toList) = false) := by
  refine ⟨?_, fun hsuffix => ?_, contains_rootsSuffix_of_solve h⟩
  · rw [looksSolvable_iff (normalize_ne_nil_of_solve h), isPlain_iff_of_solve h]
  · have hself := asEquation_eq_self hsuffix
    have hread := exists_ofChars_of_solve h
    rw [kindOf, hself] at hread ⊢
    exact showsForm_iff hread

/-- A product of a sum in parentheses is solved, and it looks solvable because it has no character
that is overlooked. -/
theorem looksSolvable_of_solve_product :
    ∃ answer, (solve {} "2 * (3 + 4)").outcome = .ok answer ∧
      looksSolvable "2 * (3 + 4)".toList = true := by
  have hfinal : (final {} "2 * (3 + 4)").toOption = some "14" := by decide +kernel
  obtain ⟨answer, hsolve, -⟩ := exists_of_final hfinal
  have hall : ((normalize "2 * (3 + 4)".toList).all fun c =>
      !decide ((kindOf "2 * (3 + 4)").Overlooks c)) = true := by decide
  have hnone : ∀ c ∈ normalize "2 * (3 + 4)".toList, ¬ (kindOf "2 * (3 + 4)").Overlooks c := by
    simpa using hall
  exact ⟨answer, hsolve, (looksSolvable_of_solve hsolve).1.mpr (.inr hnone)⟩

/-- A percentage is solved, and it does not look solvable: the percent sign is not on the list. -/
theorem percentage_overlooked :
    ∃ answer, (solve {} "50%").outcome = .ok answer ∧ answer.final = "0.5" ∧
      looksSolvable "50%".toList = false := by
  have hfinal : (final {} "50%").toOption = some "0.5" := by decide +kernel
  obtain ⟨answer, hsolve, hanswer⟩ := exists_of_final hfinal
  exact ⟨answer, hsolve, hanswer, by decide⟩

end Problem

end Stepwise
