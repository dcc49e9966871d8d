/-
# Spelled equations

An equation is spelled by the tokens of its two sides.  The white space between tokens does not
change what is read from the sides, but it can hide a power of `x` from the choice of the solver,
which looks for `x^3` and `x^2` in the text as it stands.

* `Equation.Spells` : a text spells an equation;
* `Equation.ShowsPowers` : the choice of the solver is not misled;
* `Problem.final_of_spells` : the final answer of a spelled equation;
* `Problem.final_of_spacing` : white space does not change the final answer or the failure;
* `Problem.hidden_square` : a text in which white space hides the power.
-/
import Stepwise.Proofs.Expr.Scan
import Stepwise.Proofs.Polynomial.Cut
import Stepwise.Proofs.Problem.Outcome

namespace Stepwise

/-! ## Characters of a side -/

/-- A number, `x` or an operator. -/
def Token.Plain (token : Token) : Prop :=
  match token with
  | .number _ | .operator _ => True
  | .name n => n = ['x']
  | .opening | .closing | .percent => False

instance : DecidablePred Token.Plain
  | .number _ | .operator _ => isTrue trivial
  | .name n => inferInstanceAs (Decidable (n = ['x']))
  | .opening | .closing | .percent => isFalse id

/-- A character that stands neither in plain tokens nor between them. -/
def Token.IsForeign (c : Char) : Prop :=
  Text.isBlank c = false ∧ Text.isDigit c = false ∧ c ∉ ['.', 'x', '+', '-', '*', '/', '^']

instance (c : Char) : Decidable (Token.IsForeign c) :=
  inferInstanceAs (Decidable (_ ∧ _ ∧ _))

section Characters

variable {s : List Char} {tokens : List Token} (hs : Token.ofChars s = .ok tokens)

include hs

theorem Token.mem_of_isBlank_eq_false {c : Char} (hblank : Text.isBlank c = false) :
    c ∈ s ↔ c ∈ tokens.flatMap Token.chars := by
  rw [flatMap_chars_of_ofChars hs, Text.removeBlanks, List.mem_filter, hblank]
  simp

/-- No foreign character stands in a text with plain tokens. -/
theorem Token.notMem_of_plain (hplain : ∀ token ∈ tokens, token.Plain) {c : Char}
    (hc : IsForeign c) : c ∉ s := by
  obtain ⟨hblank, hdigit, hsymbol⟩ := hc
  rw [mem_of_isBlank_eq_false hs hblank]
  intro hmem
  obtain ⟨token, htoken, hmem⟩ := List.mem_flatMap.mp hmem
  have htokenPlain := hplain token htoken
  cases token with
  | number n =>
    rcases (scanned_of_ofChars hs n htoken).mem c hmem with hc | rfl
    · rw [hdigit] at hc
      cases hc
    · exact hsymbol (by simp)
  | name n =>
    obtain rfl : n = ['x'] := htokenPlain
    obtain rfl := List.mem_singleton.mp hmem
    exact hsymbol (by simp)
  | operator op =>
    obtain rfl := List.mem_singleton.mp hmem
    cases op <;> exact hsymbol (by simp [Operator.symbol])
  | opening | closing | percent => exact htokenPlain

end Characters

/-- What is read from a side does not depend on its white space. -/
theorem Coefficients.read_congr {s t : List Char} (h : Text.removeBlanks s = Text.removeBlanks t) :
    read s = read t := by
  rw [read, read, Polynomial.termTexts_eq, Polynomial.termTexts_eq, h]

/-- Nothing is scanned across an equals sign. -/
theorem Token.scan_equals (word : Partial) {s : List Char} (h : '=' ∈ s) :
    scan word s = .error .invalidExpression := by
  induction s generalizing word with
  | nil => cases h
  | cons c s ih =>
    rw [scan]
    by_cases hc : c = '='
    · subst hc
      have hextend : word.extend? '=' = none := by
        cases word <;> rfl
      have hbegin : begin? '=' s = none := rfl
      simp only [hextend, hbegin]
    · have hs : '=' ∈ s := (List.mem_cons.mp h).resolve_left fun heq => hc heq.symm
      cases word.extend? c with
      | some longer => exact ih longer hs
      | none =>
        cases begin? c s with
        | none => rfl
        | some begun =>
          obtain ⟨done, next⟩ := begun
          simp only [ih next hs]
          rfl

/-! ## Spelled equations -/

namespace Equation

/-- The text spells an equation with given tokens on its two sides. -/
def Spells (s : List Char) (l r : List Token) : Prop :=
  ∃ left right, s = left ++ '=' :: right ∧ Token.ofChars left = .ok l ∧ Token.ofChars right = .ok r

/-- Either one of the higher powers is written in one piece, or they do not count. -/
def ShowsPowers (s : List Char) : Prop :=
  Text.contains ['x', '^', '3'] s = true ∨ Text.contains ['x', '^', '2'] s = true ∨
    ∀ left right, Text.splitAtChar '=' s = [left, right] →
      (Coefficients.read left - Coefficients.read right).a.isZero = true ∧
        (Coefficients.read left - Coefficients.read right).b.isZero = true

theorem showsPowers_iff {s left right : List Char}
    (h : Text.splitAtChar '=' s = [left, right]) :
    ShowsPowers s ↔
      (Text.contains ['x', '^', '3'] s || Text.contains ['x', '^', '2'] s) = true ∨
        (Coefficients.read left - Coefficients.read right).a.isZero = true ∧
          (Coefficients.read left - Coefficients.read right).b.isZero = true := by
  rw [ShowsPowers, h, Bool.or_eq_true, or_assoc]
  refine or_congr_right (or_congr_right ⟨fun hall => hall left right rfl, ?_⟩)
  rintro hzero _ _ ⟨⟩
  exact hzero

/-- Where the higher powers do not count, it does not matter whether they are looked at. -/
theorem final_of_isZero {settings : Settings} {left right : Coefficients}
    (ha : (left - right).a.isZero = true) (hb : (left - right).b.isZero = true) (higher : Bool) :
    final settings higher left right = .ok (Linear.final left right) := by
  simp [final, ha, hb]

section Spells

variable {s : List Char} {l r : List Token} (h : Spells s l r)
  (hplain : ∀ token ∈ l ++ r, token.Plain)

include h hplain

theorem Spells.notMem {c : Char} (hc : Token.IsForeign c) (hne : c ≠ '=') : c ∉ s := by
  obtain ⟨left, right, rfl, hl, hr⟩ := h
  intro hmem
  rcases List.mem_append.mp hmem with hmem | hmem
  · exact Token.notMem_of_plain hl (fun token ht => hplain token (List.mem_append_left _ ht)) hc
      hmem
  · rcases List.mem_cons.mp hmem with heq | hmem
    · exact hne heq
    · exact Token.notMem_of_plain hr (fun token ht => hplain token (List.mem_append_right _ ht)) hc
        hmem

/-- The two sides of a spelled equation. -/
theorem Spells.split : ∃ left right, Text.splitAtChar '=' s = [left, right] ∧
    Token.ofChars left = .ok l ∧ Token.ofChars right = .ok r := by
  obtain ⟨left, right, rfl, hl, hr⟩ := h
  have hleft : '=' ∉ left := Token.notMem_of_plain hl
    (fun token ht => hplain token (List.mem_append_left _ ht)) (by decide)
  have hright : '=' ∉ right := Token.notMem_of_plain hr
    (fun token ht => hplain token (List.mem_append_right _ ht)) (by decide)
  refine ⟨left, right, ?_, hl, hr⟩
  rw [Text.splitAtChar_append hleft, Text.splitAtChar_of_notMem hright]

omit hplain in
theorem Spells.mem_equals : '=' ∈ s := by
  obtain ⟨left, right, rfl, -, -⟩ := h
  simp

omit hplain in
theorem Spells.mem_variable : 'x' ∈ s ↔ 'x' ∈ (l ++ r).flatMap Token.chars := by
  obtain ⟨left, right, rfl, hl, hr⟩ := h
  have hleft := Token.mem_of_isBlank_eq_false hl (c := 'x') (by decide)
  have hright := Token.mem_of_isBlank_eq_false hr (c := 'x') (by decide)
  rw [List.mem_append, List.mem_cons, List.flatMap_append, List.mem_append, hleft, hright]
  simp

end Spells

end Equation

/-! ## Choice of the solver -/

theorem Call.findCall?_eq_none {α : Type} {c : Char} {word : List Char} {s : List Char}
    (argument : List Char → Option α) (hc : c ∈ word) (h : c ∉ s) :
    findCall? word argument s = none := by
  induction s with
  | nil => rfl
  | cons d s ih =>
    have hfront : ¬ word.isPrefixOf (d :: s) = true := fun hfront =>
      h ((List.isPrefixOf_iff_prefix.mp hfront).subset hc)
    rw [findCall?, callAt?, if_neg hfront]
    exact ih fun hmem => h (List.mem_cons_of_mem _ hmem)

theorem Parentheses.unmatchedFrom_eq {s : List Char} (hopening : '(' ∉ s) (hclosing : ')' ∉ s)
    (position : Nat) (opened : List Nat) :
    unmatchedFrom position opened s = opened.getLast? := by
  induction s generalizing position with
  | nil => rfl
  | cons c s ih =>
    have hopen : c ≠ '(' := fun heq => hopening (by simp [heq])
    have hclose : c ≠ ')' := fun heq => hclosing (by simp [heq])
    simp only [unmatchedFrom, if_neg hopen, if_neg hclose]
    exact ih (fun hmem => hopening (List.mem_cons_of_mem _ hmem))
      (fun hmem => hclosing (List.mem_cons_of_mem _ hmem)) _

namespace Problem

section

variable {s : List Char} {l r : List Token} (h : Equation.Spells s l r)
  (hplain : ∀ token ∈ l ++ r, token.Plain)

include h hplain

/-- The kind of a spelled equation depends on the powers that are written in one piece. -/
theorem classify_of_spells : classify s =
    if Text.contains ['x', '^', '3'] s then .cubic
    else if Text.contains ['x', '^', '2'] s then .quadratic
    else if Text.contains ['x'] s then .linear
    else .arithmetic := by
  have hequals : '=' ∈ s := h.mem_equals
  have hintegral : 'i' ∉ s := h.notMem hplain (by decide) (by decide)
  have hderivative : 'd' ∉ s := h.notMem hplain (by decide) (by decide)
  have hdefinite : Call.definiteIntegral? s = none :=
    Call.findCall?_eq_none _ (by simp [Call.integralWord]) hintegral
  have hindefinite : Call.integral? s = none :=
    Call.findCall?_eq_none _ (by simp [Call.integralWord]) hintegral
  have hderive : Call.derivative? s = none :=
    Call.findCall?_eq_none _ (by simp [Call.derivativeWord]) hderivative
  simp [classify, hdefinite, hindefinite, hderive, isEquationWith, hequals]

theorem asEquation_of_spells : asEquation s = s := by
  have hcomma : ',' ∉ s := h.notMem hplain (by decide) (by decide)
  have hsuffix : Text.contains rootsSuffix s = false :=
    Text.contains_eq_false (by decide) hcomma
  rw [asEquation, hsuffix]
  rfl

theorem checkBalance_of_spells : checkBalance s = .ok () := by
  have hnone : Parentheses.unmatched? s = none :=
    Parentheses.unmatchedFrom_eq (h.notMem hplain (by decide) (by decide))
      (h.notMem hplain (by decide) (by decide)) 0 []
  rw [checkBalance, hnone]

end

/-- An equation without `x` is taken for an expression, and it is none. -/
theorem Kind.final_arithmetic {settings : Settings} {s : List Char} (h : '=' ∈ s) :
    Kind.arithmetic.final settings (String.ofList s) =
      .error (.failure .invalidExpression) := by
  have hreduce : Arithmetic.reduce settings s = .error .invalidExpression := by
    rw [Arithmetic.reduce, Expr.ofChars, Token.ofChars, Token.scan_equals _ h]
    rfl
  have hsolve : (Arithmetic.solve settings (String.ofList s)).outcome =
      .error (.failure .invalidExpression) := by
    rw [Arithmetic.solve, Traced.outcome_bind, Traced.outcome_ofFailure, String.toList_ofList,
      hreduce]
    rfl
  show ((Arithmetic.solve settings (String.ofList s)).outcome.map _).mapError _ = _
  rw [hsolve]
  rfl

variable {settings : Settings} {text : String} {l r : List Token}

/-- A spelled equation is solved as it stands. -/
theorem final_eq_of_spells (hplain : ∀ token ∈ l ++ r, token.Plain)
    (hshort : (text.toList.length : Int) ≤ settings.maxInputLength)
    (h : Equation.Spells (normalize text.toList) l r) :
    final settings text = (classify (normalize text.toList)).final settings
      (String.ofList (normalize text.toList)) := by
  obtain ⟨s, hs⟩ : ∃ s, s = normalize text.toList := ⟨_, rfl⟩
  have haccept : accept settings text.toList = .ok s := by
    have hnonempty : s.isEmpty = false := by
      rw [List.isEmpty_eq_false_iff]
      rintro rfl
      exact absurd (hs ▸ h.mem_equals) (by simp)
    rw [accept, if_neg (by omega)]
    simp only [← hs, hnonempty, Bool.false_eq_true, if_false]
  rw [← hs] at h ⊢
  rw [final_eq, haccept]
  show (liftFailure (checkBalance s >>= fun _ => pure (asEquation s))).bind _ = _
  rw [checkBalance_of_spells h hplain, asEquation_of_spells h hplain]
  rfl

/-- **The final answer of a spelled equation.** -/
theorem final_of_spells (hplain : ∀ token ∈ l ++ r, token.Plain)
    (hshort : (text.toList.length : Int) ≤ settings.maxInputLength)
    (h : Equation.Spells (normalize text.toList) l r) :
    ∃ left right, Text.splitAtChar '=' (normalize text.toList) = [left, right] ∧
      Token.ofChars left = .ok l ∧ Token.ofChars right = .ok r ∧
      final settings text =
        if 'x' ∈ normalize text.toList then
          (Equation.final settings
            (Text.contains ['x', '^', '3'] (normalize text.toList) ||
              Text.contains ['x', '^', '2'] (normalize text.toList))
            (Coefficients.read left) (Coefficients.read right)).mapError Fault.foreseen
        else .error (.failure .invalidExpression) := by
  obtain ⟨left, right, hsplit, hl, hr⟩ := h.split hplain
  refine ⟨left, right, hsplit, hl, hr, ?_⟩
  rw [final_eq_of_spells hplain hshort h]
  generalize normalize text.toList = s at h hsplit
  have hequation {kind : Kind} (hkind : kind ∈ [.cubic, .quadratic, .linear]) :
      kind.final settings (String.ofList s) =
        (Equation.final settings (kind != .linear) (Coefficients.read left)
          (Coefficients.read right)).mapError Fault.foreseen :=
    Kind.final_of_split (by rw [String.toList_ofList, hsplit]) hkind
  have hvariable {piece : List Char} (hpiece : Text.contains ('x' :: piece) s = true) :
      'x' ∈ s := by
    by_contra hnot
    rw [Text.contains_eq_false List.mem_cons_self hnot] at hpiece
    cases hpiece
  rw [classify_of_spells h hplain]
  cases hcube : Text.contains ['x', '^', '3'] s with
  | true =>
    rw [if_pos rfl, if_pos (hvariable hcube)]
    exact hequation (by simp)
  | false =>
    cases hsquare : Text.contains ['x', '^', '2'] s with
    | true =>
      rw [if_neg Bool.false_ne_true, if_pos rfl, if_pos (hvariable hsquare)]
      exact hequation (by simp)
    | false =>
      rw [if_neg Bool.false_ne_true, if_neg Bool.false_ne_true]
      by_cases hx : 'x' ∈ s
      · rw [if_pos (Text.contains_singleton hx), if_pos hx]
        exact hequation (by simp)
      · rw [if_neg hx, Text.contains_eq_false (List.mem_singleton_self _) hx]
        exact Kind.final_arithmetic h.mem_equals

/-! ## White space -/

/-- **White space between tokens does not change the final answer or the failure**, unless it hides
the higher powers in one of the texts and not in the other, or makes only one of them too long. -/
theorem final_of_spacing {text' : String} (hplain : ∀ token ∈ l ++ r, token.Plain)
    (hlimit : settings.maxInputLength < (text.toList.length : Int) ↔
      settings.maxInputLength < (text'.toList.length : Int))
    (h : Equation.Spells (normalize text.toList) l r)
    (h' : Equation.Spells (normalize text'.toList) l r)
    (hshown : Equation.ShowsPowers (normalize text.toList) ↔
      Equation.ShowsPowers (normalize text'.toList)) :
    final settings text = final settings text' := by
  by_cases hlong : settings.maxInputLength < (text.toList.length : Int)
  · rw [final_of_tooLong hlong, final_of_tooLong (hlimit.mp hlong)]
  obtain ⟨left, right, hsplit, hl, hr, hfinal⟩ :=
    final_of_spells hplain (Int.not_lt.mp hlong) h
  obtain ⟨left', right', hsplit', hl', hr', hfinal'⟩ :=
    final_of_spells hplain (Int.not_lt.mp fun hlong' => hlong (hlimit.mpr hlong')) h'
  have hsides : Coefficients.read left' = Coefficients.read left ∧
      Coefficients.read right' = Coefficients.read right := by
    constructor
    · apply Coefficients.read_congr
      rw [← Token.flatMap_chars_of_ofChars hl, ← Token.flatMap_chars_of_ofChars hl']
    · apply Coefficients.read_congr
      rw [← Token.flatMap_chars_of_ofChars hr, ← Token.flatMap_chars_of_ofChars hr']
  rw [hfinal, hfinal', hsides.1, hsides.2]
  by_cases hx : 'x' ∈ normalize text.toList
  · rw [if_pos hx, if_pos (h'.mem_variable.mpr (h.mem_variable.mp hx))]
    rw [Equation.showsPowers_iff hsplit, Equation.showsPowers_iff hsplit', hsides.1, hsides.2]
      at hshown
    by_cases hzero : (Coefficients.read left - Coefficients.read right).a.isZero = true ∧
        (Coefficients.read left - Coefficients.read right).b.isZero = true
    · rw [Equation.final_of_isZero hzero.1 hzero.2, Equation.final_of_isZero hzero.1 hzero.2]
    · -- The higher powers count, and both texts show them, or neither does.
      simp only [hzero, or_false] at hshown
      rw [Bool.eq_iff_iff.mpr hshown]
  · rw [if_neg hx, if_neg fun hx' => hx (h.mem_variable.mpr (h'.mem_variable.mp hx'))]

/-- The equation `x^2 - 5x + 6 = 0` with other white space. -/
theorem final_of_tight_spacing :
    final {} "x^2 - 5x + 6 = 0" = final {} " x^2-5 x\t+  6=0" := by
  let l : List Token := [.name ['x'], .operator .pow, .number ['2'], .operator .sub, .number ['5'],
    .name ['x'], .operator .add, .number ['6']]
  let r : List Token := [.number ['0']]
  have hspells : Equation.Spells (normalize "x^2 - 5x + 6 = 0".toList) l r :=
    ⟨"x^2 - 5x + 6 ".toList, " 0".toList, by decide +kernel,
      eq_ok_of_toOption (by decide +kernel), eq_ok_of_toOption (by decide +kernel)⟩
  have hspells' : Equation.Spells (normalize " x^2-5 x\t+  6=0".toList) l r :=
    ⟨"x^2-5 x\t+  6".toList, "0".toList, by decide +kernel,
      eq_ok_of_toOption (by decide +kernel), eq_ok_of_toOption (by decide +kernel)⟩
  exact final_of_spacing (l := l) (r := r) (by decide) (by decide) hspells hspells'
    (iff_of_true (.inr (.inl (by decide +kernel))) (.inr (.inl (by decide +kernel))))

/-- A power with white space in it is not found, and so the equation is taken for a linear one. -/
theorem hidden_square :
    (∃ l r, Equation.Spells (normalize "x^2 = 4".toList) l r ∧
      Equation.Spells (normalize "x ^ 2 = 4".toList) l r) ∧
    (final {} "x^2 = 4").toOption = some "x \\in \\\x7b-2, 2\\\x7d" ∧
      (final {} "x ^ 2 = 4").toOption = some "No solution" := by
  refine ⟨⟨[.name ['x'], .operator .pow, .number ['2']], [.number ['4']], ?_, ?_⟩,
    by decide +kernel, by decide +kernel⟩
  · exact ⟨"x^2 ".toList, " 4".toList, by decide +kernel,
      eq_ok_of_toOption (by decide +kernel), eq_ok_of_toOption (by decide +kernel)⟩
  · exact ⟨"x ^ 2 ".toList, " 4".toList, by decide +kernel,
      eq_ok_of_toOption (by decide +kernel), eq_ok_of_toOption (by decide +kernel)⟩

end Problem

end Stepwise
