/-
# Reading written expressions

The text of an expression is read back as the same expression exactly when every number in it is
shown without letters and none is shown with a minus where a minus would belong to more than the
number: before a power.

* `Expr.Legible` : the condition on the numbers of an expression;
* `Expr.shown` : the expression with its negative zeros, which are shown without a sign, positive;
* `Expr.spells_chars` : the tokens of the text of any expression;
* `Expr.ofChars_chars_iff` : the text is read back exactly when it is legible.
-/
import Stepwise.Expr.Text
import Stepwise.Proofs.Double.Same
import Stepwise.Proofs.Expr.Precedence
import Stepwise.Proofs.Expr.Reading
import Stepwise.Proofs.Expr.Token

namespace Stepwise

/-! ## Tokens of written expressions -/

/-- The tokens of the text shown for a double. -/
def Double.tokens (x : Double) : List Token := (Token.ofChars x.display).toOption.getD []

/-- The tokens of a double, by the way it is shown. -/
theorem Double.spells_tokens (x : Double) :
    Token.Spells x.display x.tokens ∧
      ((x.Plain ∧ x.isFinite = true ∧
        ∃ s, x.tokens = Token.signTokens x ++ [.number s] ∧ Numeral.unsignedValue s = x.abs) ∨
      (¬ x.Plain ∧ Token.names x.tokens = 1)) := by
  obtain ⟨tokens, hspells, hcases⟩ := Token.spells_display x
  have htokens : x.tokens = tokens := by
    rw [Double.tokens, hspells.ofChars]
    rfl
  rw [htokens]
  exact ⟨hspells, hcases⟩

namespace Expr

/-- The tokens of the text of an expression. -/
def tokens : Expr → List Token
  | literal value => value.tokens
  | constant name => [.name name.name.toList]
  | percent value => value.tokens ++ [.percent]
  | negation operand => .operator .sub :: operand.tokens
  | binary op left right => left.tokens ++ .operator op :: right.tokens
  | call f argument => .name f.name.toList :: .opening :: (argument.tokens ++ [.closing])
  | group inner => .opening :: (inner.tokens ++ [.closing])

/-- The text of an expression spells its tokens. -/
theorem spells_chars (e : Expr) : Token.Spells e.chars e.tokens := by
  induction e with
  | literal value => exact value.spells_tokens.1
  | constant name => exact .constant name
  | percent value =>
    exact value.spells_tokens.1.append (.percent .nil) fun after _ => Token.breaks_cons (by simp) _
  | negation operand ih => exact .operator .sub ih
  | binary op left right ihLeft ihRight =>
    have hright : Token.Spells (' ' :: op.symbol :: ' ' :: right.chars)
        (.operator op :: right.tokens) := .blank (.operator op (.blank ihRight))
    exact ihLeft.append hright fun after _ => Token.breaks_cons (by simp) _
  | call f argument ih =>
    have hargument : Token.Spells ('(' :: (argument.chars ++ [')']))
        (.opening :: (argument.tokens ++ [.closing])) :=
      .opening (ih.append (.closing .nil) fun after _ => Token.breaks_cons (by simp) _)
    have hcall := (Token.Spells.function f).append hargument
      fun after _ => Token.breaks_cons (by simp) _
    rw [chars, List.append_assoc, List.cons_append]
    exact hcall
  | group inner ih =>
    exact .opening (ih.append (.closing .nil) fun after _ => Token.breaks_cons (by simp) _)

end Expr

/-! ## Zeros without a sign -/

namespace Expr

/-- The expression with its negative zeros positive. -/
def shown : Expr → Expr
  | literal value => literal value.shown
  | constant name => constant name
  | percent value => percent value.shown
  | negation operand => negation operand.shown
  | binary op left right => binary op left.shown right.shown
  | call f argument => call f argument.shown
  | group inner => group inner.shown

/-- The numbers of an expression at a place are shown without letters, and without a sign where
the sign would belong to more than the number. -/
def Legible : Place → Expr → Prop
  | k, literal value => value.Plain ∧ (k = .power → value.shownSign = [])
  | _, constant _ => True
  | _, percent value => value.Plain ∧ value.shownSign = []
  | k, negation operand => operand.Legible k.signed
  | _, binary op left right => left.Legible op.place ∧ right.Legible op.rightPlace
  | _, call _ argument => argument.Legible .sum
  | _, group inner => inner.Legible .sum

end Expr

/-! ## Longer tails -/

/-- A tail can be followed by one more operand. -/
def Category.Extends : (c : Category) → Phrase c → Prop
  | sumTail, d => ∀ (sign : Sign) (next : Phrase .term), ∃ d' : Phrase .sumTail,
      d'.tokens = d.tokens ++ .operator sign.operator :: next.tokens ∧
        ∀ left, d'.meaning left = .binary sign.operator (d.meaning left) next.meaning
  | productTail, d => ∀ (scale : Scale) (next : Phrase .factor), ∃ d' : Phrase .productTail,
      d'.tokens = d.tokens ++ .operator scale.operator :: next.tokens ∧
        ∀ left, d'.meaning left = .binary scale.operator (d.meaning left) next.meaning
  | powerTail, d => ∀ next : Phrase .exponent, ∃ d' : Phrase .powerTail,
      d'.tokens = d.tokens ++ .operator .pow :: next.tokens ∧
        ∀ left, d'.meaning left = .binary .pow (d.meaning left) next.meaning
  | _, _ => True

namespace Phrase

theorem extends_tail {c : Category} (d : Phrase c) : c.Extends d := by
  induction d with
  | endSum =>
    intro sign next
    exact ⟨.sum sign next .endSum, by simp [tokens], fun left => rfl⟩
  | sum first term rest ihTerm ihRest =>
    intro sign next
    obtain ⟨more, htokens, hmeaning⟩ := ihRest sign next
    exact ⟨.sum first term more, by simp [tokens, htokens], fun left => hmeaning _⟩
  | endProduct =>
    intro scale next
    exact ⟨.product scale next .endProduct, by simp [tokens], fun left => rfl⟩
  | product first factor rest ihFactor ihRest =>
    intro scale next
    obtain ⟨more, htokens, hmeaning⟩ := ihRest scale next
    exact ⟨.product first factor more, by simp [tokens, htokens], fun left => hmeaning _⟩
  | juxtaposition power rest ihPower ihRest =>
    intro scale next
    obtain ⟨more, htokens, hmeaning⟩ := ihRest scale next
    exact ⟨.juxtaposition power more, by simp [tokens, htokens], fun left => hmeaning _⟩
  | endPower =>
    intro next
    exact ⟨.raise next .endPower, by simp [tokens], fun left => rfl⟩
  | raise first rest ihFirst ihRest =>
    intro next
    obtain ⟨more, htokens, hmeaning⟩ := ihRest next
    exact ⟨.raise first more, by simp [tokens, htokens], fun left => hmeaning _⟩
  | _ => trivial

end Phrase

/-! ## Phrases of written expressions -/

/-- The tokens are those of a phrase for the place, which denotes the expression. -/
def Place.Reads (tokens : List Token) (e : Expr) : Place → Prop
  | exponent => ∃ d : Phrase .exponent, d.tokens = tokens ∧ d.meaning = e
  | power => ∃ (opens : Bool) (d : Phrase (.power opens)), d.tokens = tokens ∧ d.meaning = e
  | factor => ∃ d : Phrase .factor, d.tokens = tokens ∧ d.meaning = e
  | term => ∃ d : Phrase .term, d.tokens = tokens ∧ d.meaning = e
  | sum => ∃ d : Phrase .expression, d.tokens = tokens ∧ d.meaning = e

namespace Place.Reads

variable {tokens : List Token} {e : Expr} {j k : Place}

theorem factor_of_power (h : Place.power.Reads tokens e) : Place.factor.Reads tokens e := by
  obtain ⟨opens, d, htokens, hmeaning⟩ := h
  exact ⟨.factor d, htokens, hmeaning⟩

theorem term_of_factor (h : Place.factor.Reads tokens e) : Place.term.Reads tokens e := by
  obtain ⟨d, htokens, hmeaning⟩ := h
  exact ⟨.term d .endProduct, by simp [Phrase.tokens, htokens], hmeaning⟩

theorem sum_of_term (h : Place.term.Reads tokens e) : Place.sum.Reads tokens e := by
  obtain ⟨d, htokens, hmeaning⟩ := h
  exact ⟨.expression d .endSum, by simp [Phrase.tokens, htokens], hmeaning⟩

/-- What can stand at the place of a power or a looser one can stand at every looser place. -/
theorem mono (h : j.Reads tokens e) (hj : .power ≤ j) (hjk : j ≤ k) : k.Reads tokens e := by
  cases j with
  | exponent => exact absurd hj (by decide)
  | power =>
    cases k with
    | exponent => exact absurd hjk (by decide)
    | power => exact h
    | factor => exact factor_of_power h
    | term => exact term_of_factor (factor_of_power h)
    | sum => exact sum_of_term (term_of_factor (factor_of_power h))
  | factor =>
    cases k with
    | exponent | power => exact absurd hjk (by decide)
    | factor => exact h
    | term => exact term_of_factor h
    | sum => exact sum_of_term (term_of_factor h)
  | term =>
    cases k with
    | exponent | power | factor => exact absurd hjk (by decide)
    | term => exact h
    | sum => exact sum_of_term h
  | sum =>
    cases k with
    | exponent | power | factor | term => exact absurd hjk (by decide)
    | sum => exact h

/-- A primary can stand at every place. -/
theorem ofPrimary {opens : Bool} (d : Phrase (.primary opens)) (k : Place) :
    k.Reads d.tokens d.meaning := by
  have hpower : Place.power.Reads d.tokens d.meaning :=
    ⟨opens, .power d .endPower, by simp [Phrase.tokens], rfl⟩
  cases k with
  | exponent => exact ⟨.exponent d, rfl, rfl⟩
  | power | factor | term | sum => exact hpower.mono (by decide) (by decide)

/-- What can stand after a sign can stand with it, except as the base of a power. -/
theorem minus (h : k.signed.Reads tokens e) (hk : k ≠ .power) :
    k.Reads (.operator .sub :: tokens) e.negate := by
  have hfactor (h : Place.factor.Reads tokens e) :
      Place.factor.Reads (.operator .sub :: tokens) e.negate := by
    obtain ⟨d, htokens, hmeaning⟩ := h
    exact ⟨.signed .minus d, by simp [Phrase.tokens, htokens, Sign.operator], by
      simp [Phrase.meaning, hmeaning, Sign.apply]⟩
  cases k with
  | exponent =>
    obtain ⟨d, htokens, hmeaning⟩ := h
    exact ⟨.signedExponent .minus d, by simp [Phrase.tokens, htokens, Sign.operator], by
      simp [Phrase.meaning, hmeaning, Sign.apply]⟩
  | power => exact absurd rfl hk
  | factor | term | sum => exact (hfactor h).mono (by decide) (by decide)

/-- Two operands with an operator between them. -/
theorem binary (op : Operator) {front rest : List Token} {left right : Expr}
    (hleft : op.place.Reads front left) (hright : op.rightPlace.Reads rest right) :
    op.place.Reads (front ++ .operator op :: rest) (.binary op left right) := by
  have hsum (sign : Sign) (hleft : Place.sum.Reads front left)
      (hright : Place.term.Reads rest right) :
      Place.sum.Reads (front ++ .operator sign.operator :: rest)
        (.binary sign.operator left right) := by
    obtain ⟨d, rfl, rfl⟩ := hleft
    obtain ⟨next, rfl, rfl⟩ := hright
    cases d with
    | expression first more =>
      -- The new operand goes behind the last one of the tail, so that the tree leans to the left.
      obtain ⟨more', htokens, hmeaning⟩ := more.extends_tail sign next
      exact ⟨.expression first more', by simp [Phrase.tokens, htokens], hmeaning _⟩
  have hterm (scale : Scale) (hleft : Place.term.Reads front left)
      (hright : Place.factor.Reads rest right) :
      Place.term.Reads (front ++ .operator scale.operator :: rest)
        (.binary scale.operator left right) := by
    obtain ⟨d, rfl, rfl⟩ := hleft
    obtain ⟨next, rfl, rfl⟩ := hright
    cases d with
    | term first more =>
      obtain ⟨more', htokens, hmeaning⟩ := more.extends_tail scale next
      exact ⟨.term first more', by simp [Phrase.tokens, htokens], hmeaning _⟩
  cases op with
  | add => exact hsum .plus hleft hright
  | sub => exact hsum .minus hleft hright
  | mul => exact hterm .times hleft hright
  | div => exact hterm .divide hleft hright
  | pow =>
    obtain ⟨opens, d, rfl, rfl⟩ := hleft
    obtain ⟨next, rfl, rfl⟩ := hright
    cases d with
    | power base more =>
      obtain ⟨more', htokens, hmeaning⟩ := more.extends_tail next
      exact ⟨opens, .power base more', by simp [Phrase.tokens, htokens], hmeaning _⟩

end Place.Reads

namespace Double

/-- A double shown without a sign is its own magnitude, up to the sign of zero. -/
theorem abs_eq_shown {x : Double} (hfinite : x.isFinite = true) (hsign : x.shownSign = []) :
    x.abs = x.shown := by
  cases x with
  | nan | infinity negative => cases hfinite
  | finite negative m e h =>
    rcases Nat.eq_zero_or_pos m with rfl | hm
    · rw [eq_zero_of_mantissa]
      rfl
    · have hne : m ≠ 0 := hm.ne'
      cases negative with
      | true => simp [shownSign, hne] at hsign
      | false => simp [shown, isZero, hne, abs]

/-- A double shown with a sign is the negative of its magnitude. -/
theorem neg_abs_eq_shown {x : Double} (hfinite : x.isFinite = true) (hsign : x.shownSign ≠ []) :
    -x.abs = x.shown := by
  cases x with
  | nan | infinity negative => cases hfinite
  | finite negative m e h =>
    have hcases : negative = true ∧ m ≠ 0 := by
      by_contra hnot
      refine hsign ?_
      rw [shownSign, if_neg (by simpa using hnot)]
    obtain ⟨rfl, hne⟩ := hcases
    simp only [shown, isZero, beq_eq_false_iff_ne.mpr hne]
    rfl

/-- A plainly shown number reads back with its sign, except as the base of a power. -/
theorem reads_tokens {x : Double} (hplain : x.Plain) {k : Place}
    (hk : k = .power → x.shownSign = []) : k.Reads x.tokens (.literal x.shown) := by
  obtain ⟨-, ⟨-, hfinite, s, htokens, hvalue⟩ | ⟨hnot, -⟩⟩ := x.spells_tokens
  · rw [htokens, Token.signTokens]
    by_cases hsign : x.shownSign = []
    · have hnumber := Place.Reads.ofPrimary (.number s) k
      rw [if_pos hsign, ← abs_eq_shown hfinite hsign, ← hvalue]
      exact hnumber
    · have hnumber := Place.Reads.ofPrimary (.number s) k.signed
      rw [if_neg hsign, ← neg_abs_eq_shown hfinite hsign, ← hvalue]
      -- The sign is read as a minus before the magnitude.
      exact hnumber.minus fun hpower => hsign (hk hpower)
  · exact absurd hplain hnot

/-- A plainly shown percentage without a sign reads back. -/
theorem reads_percent {x : Double} (hplain : x.Plain) (hsign : x.shownSign = []) (k : Place) :
    k.Reads (x.tokens ++ [.percent]) (.percent x.shown) := by
  obtain ⟨-, ⟨-, hfinite, s, htokens, hvalue⟩ | ⟨hnot, -⟩⟩ := x.spells_tokens
  · have hpercent := Place.Reads.ofPrimary (.percent s) k
    rw [htokens, Token.signTokens, if_pos hsign, ← abs_eq_shown hfinite hsign, ← hvalue]
    exact hpercent
  · exact absurd hplain hnot

end Double

namespace Expr

theorem notLiteral_shown {e : Expr} (h : e.NotLiteral) : e.shown.NotLiteral := by
  cases e <;> exact h

/-- Zeros without a sign stand where they stood with one. -/
theorem Fits.shown {e : Expr} {k : Place} (h : e.Fits k) : e.shown.Fits k := by
  induction e generalizing k with
  | literal value | constant name | percent value => trivial
  | negation operand ih => exact ⟨h.1, notLiteral_shown h.2.1, ih h.2.2⟩
  | binary op left right ihLeft ihRight => exact ⟨h.1, ihLeft h.2.1, ihRight h.2.2⟩
  | call f argument ih | group inner ih => exact ih h

/-- The tokens of a legible expression are those of a phrase that denotes it. -/
theorem reads_tokens {e : Expr} {k : Place} (hfits : e.Fits k) (h : e.Legible k) :
    k.Reads e.tokens e.shown := by
  induction e generalizing k with
  | literal value => exact Double.reads_tokens h.1 h.2
  | constant name => exact .ofPrimary (.constant name) k
  | percent value => exact Double.reads_percent h.1 h.2 k
  | negation operand ih =>
    obtain ⟨hpower, hoperand, hfits⟩ := hfits
    have hminus := (ih hfits h).minus hpower
    rw [negate_of_notLiteral (notLiteral_shown hoperand)] at hminus
    exact hminus
  | binary op left right ihLeft ihRight =>
    obtain ⟨hplace, hleft, hright⟩ := hfits
    exact (Place.Reads.binary op (ihLeft hleft h.1) (ihRight hright h.2)).mono
      (by cases op <;> decide) hplace
  | call f argument ih =>
    obtain ⟨d, htokens, hmeaning⟩ := ih hfits h
    have hcall := Place.Reads.ofPrimary (.call f d) k
    rw [Phrase.tokens, Phrase.meaning, htokens, hmeaning] at hcall
    exact hcall
  | group inner ih =>
    obtain ⟨d, htokens, hmeaning⟩ := ih hfits h
    have hgroup := Place.Reads.ofPrimary (.group d) k
    rw [Phrase.tokens, Phrase.meaning, htokens, hmeaning] at hgroup
    exact hgroup

/-- **The text of a legible expression is read back.** -/
theorem ofChars_chars {e : Expr} (hfits : e.Fits .sum) (h : e.Legible .sum) :
    ofChars e.chars = .ok e.shown := by
  obtain ⟨d, htokens, hmeaning⟩ := reads_tokens hfits h
  rw [ofChars, e.spells_chars.ofChars, ← htokens, ← hmeaning]
  exact d.ofTokens_tokens

/-! ## Illegible texts -/

/-- The number of constants and calls. -/
def named : Expr → Nat
  | literal _ => 0
  | constant _ => 1
  | percent _ => 0
  | negation operand => operand.named
  | binary _ left right => left.named + right.named
  | call _ argument => argument.named + 1
  | group inner => inner.named

/-- The number of numbers that are shown with letters. -/
def lettered : Expr → Nat
  | literal value => if value.Plain then 0 else 1
  | constant _ => 0
  | percent value => if value.Plain then 0 else 1
  | negation operand => operand.lettered
  | binary _ left right => left.lettered + right.lettered
  | call _ argument => argument.lettered
  | group inner => inner.lettered

/-- No number at a place is shown with a sign that would belong to more than the number. -/
def Unsigned : Place → Expr → Prop
  | k, literal value => k = .power → value.shownSign = []
  | _, constant _ => True
  | _, percent value => value.shownSign = []
  | k, negation operand => operand.Unsigned k.signed
  | _, binary op left right => left.Unsigned op.place ∧ right.Unsigned op.rightPlace
  | _, call _ argument => argument.Unsigned .sum
  | _, group inner => inner.Unsigned .sum

/-- An expression is legible when none of its numbers has letters or a misplaced sign. -/
theorem legible_iff {e : Expr} {k : Place} : e.Legible k ↔ e.lettered = 0 ∧ e.Unsigned k := by
  induction e generalizing k with
  | literal value | percent value => simp [Legible, lettered, Unsigned]
  | constant name => simp [Legible, lettered, Unsigned]
  | negation operand ih => exact ih
  | binary op left right ihLeft ihRight =>
    simp only [Legible, lettered, Unsigned, ihLeft, ihRight, Nat.add_eq_zero_iff]
    tauto
  | call f argument ih | group inner ih => exact ih

/-- Numbers with letters add names to the tokens. -/
theorem names_tokens (e : Expr) : Token.names e.tokens = e.named + e.lettered := by
  have hnumber (x : Double) : Token.names x.tokens = if x.Plain then 0 else 1 := by
    obtain ⟨-, ⟨hplain, -, s, htokens, -⟩ | ⟨hnot, hnames⟩⟩ := x.spells_tokens
    · rw [if_pos hplain, htokens, Token.names_append, Token.names_signTokens]
      rfl
    · rw [if_neg hnot, hnames]
  induction e with
  | literal value => simp [tokens, named, lettered, hnumber]
  | constant name => rfl
  | percent value =>
    have hmark : Token.names [Token.percent] = 0 := rfl
    rw [tokens, Token.names_append, hnumber, named, lettered, hmark, Nat.add_comm]
  | negation operand ih => simpa [tokens, named, lettered, Token.names] using ih
  | binary op left right ihLeft ihRight =>
    simp only [tokens, named, lettered, Token.names, List.countP_append, List.countP_cons]
      at ihLeft ihRight ⊢
    rw [ihLeft, ihRight]
    simp only [Bool.false_eq_true, if_false]
    omega
  | call f argument ih =>
    simp only [tokens, named, lettered, Token.names, List.countP_append, List.countP_cons,
      List.countP_nil] at ih ⊢
    rw [ih]
    simp only [Bool.false_eq_true, if_false, if_true]
    omega
  | group inner ih =>
    simp only [tokens, named, lettered, Token.names, List.countP_append, List.countP_cons,
      List.countP_nil] at ih ⊢
    rw [ih]
    simp

theorem named_shown (e : Expr) : e.shown.named = e.named := by
  induction e with
  | literal value | constant name | percent value => rfl
  | negation operand ih => exact ih
  | binary op left right ihLeft ihRight => simp only [shown, named, ihLeft, ihRight]
  | call f argument ih | group inner ih => simp only [shown, named, ih]

theorem shownSign_shown (x : Double) : x.shown.shownSign = x.shownSign := by
  rw [Double.shown]
  split
  · next hzero =>
    cases x with
    | nan | infinity negative => cases hzero
    | finite negative m e h =>
      obtain rfl : m = 0 := by simpa [Double.isZero] using hzero
      simp [Double.shownSign, Double.zero]
  · rfl

theorem unsigned_shown {e : Expr} {k : Place} : e.shown.Unsigned k ↔ e.Unsigned k := by
  induction e generalizing k with
  | literal value | percent value => simp only [shown, Unsigned, shownSign_shown]
  | constant name => exact Iff.rfl
  | negation operand ih => exact ih
  | binary op left right ihLeft ihRight => simp only [shown, Unsigned, ihLeft, ihRight]
  | call f argument ih | group inner ih => exact ih

theorem named_negate (e : Expr) : e.negate.named = e.named := by
  cases e <;> rfl

end Expr

/-- A numeral that is read has no sign. -/
theorem Numeral.shownSign_unsignedValue (text : List Char) :
    (unsignedValue text).shownSign = [] := by
  have hparts (m : Nat) (e : Int) : (Double.ofParts false m e).shownSign = [] := by
    unfold Double.ofParts
    split <;> rfl
  have hquotient (n d : Nat) : (Double.roundQuotient false n d).shownSign = [] := by
    simp only [Double.roundQuotient]
    split
    · rfl
    · split <;> exact hparts _ _
  have hdecimal (x : Decimal) : (x.toDouble false).shownSign = [] := by
    unfold Decimal.toDouble
    split
    · rfl
    · split
      · rfl
      · split
        · rfl
        · cases hexponent : x.exponent <;> exact hquotient _ _
  unfold unsignedValue
  split
  · exact hdecimal _
  · rfl

theorem Expr.Unsigned.closed : Place.Closed fun k e => e.Unsigned k where
  mono := by
    intro j k e h hj hjk
    cases e with
    | literal value =>
      rintro rfl
      refine h ?_
      cases j <;> first | rfl | exact absurd hj (by decide) | exact absurd hjk (by decide)
    | negation operand =>
      have hsigned : j.signed = k.signed := by
        cases j <;> cases k <;>
          first | rfl | exact absurd hj (by decide) | exact absurd hjk (by decide)
      change operand.Unsigned k.signed
      rw [← hsigned]
      exact h
    | constant name | percent value | binary op left right | call f argument | group inner =>
      exact h
  negate := by
    intro k e h hk
    cases e with
    | literal value => exact fun hpower => absurd hpower hk
    | constant name | percent value | negation operand | binary op left right | call f argument
    | group inner => exact h
  binary := fun _ _ _ hleft hright => ⟨hleft, hright⟩
  number := fun text _ _ => Numeral.shownSign_unsignedValue text
  percent := fun text _ => Numeral.shownSign_unsignedValue text
  constant := fun _ _ => trivial
  call := fun h _ => h
  group := fun h _ => h

/-- Each name among the tokens of a phrase is a constant or a call in what it denotes. -/
def Category.CountsNames : (c : Category) → Phrase c → Prop
  | sumTail, d | productTail, d | powerTail, d =>
    ∀ left : Expr, (d.meaning left).named = left.named + Token.names d.tokens
  | expression, d | term, d | factor, d | power _, d | exponent, d | primary _, d =>
    Expr.named d.meaning = Token.names d.tokens

namespace Phrase

theorem countsNames {c : Category} (d : Phrase c) : c.CountsNames d := by
  have hcons (op : Operator) (rest : List Token) :
      Token.names (.operator op :: rest) = Token.names rest := by
    simp [Token.names]
  have hoperand (op : Operator) {front rest : List Token} {next : Expr} {f : Expr → Expr}
      (hnext : next.named = Token.names front)
      (hrest : ∀ left, (f left).named = left.named + Token.names rest) (left : Expr) :
      (f (.binary op left next)).named =
        left.named + Token.names (.operator op :: (front ++ rest)) := by
    rw [hrest, Expr.named, hnext, hcons, Token.names_append, Nat.add_assoc]
  induction d with
  | expression first rest ihFirst ihRest | term first rest ihFirst ihRest
  | power first rest ihFirst ihRest =>
    have hrest := ihRest first.meaning
    rw [ihFirst] at hrest
    rw [Category.CountsNames, tokens, Token.names_append]
    exact hrest
  | endSum | endProduct | endPower => exact fun left => rfl
  | sum sign next rest ihNext ihRest => exact fun left => hoperand sign.operator ihNext ihRest left
  | product scale next rest ihNext ihRest =>
    exact fun left => hoperand scale.operator ihNext ihRest left
  | raise next rest ihNext ihRest => exact fun left => hoperand .pow ihNext ihRest left
  | juxtaposition next rest ihNext ihRest =>
    intro left
    have hproduct := hoperand .mul ihNext ihRest left
    rwa [hcons] at hproduct
  | signed sign operand ih | signedExponent sign operand ih =>
    rw [Category.CountsNames, tokens, hcons]
    cases sign with
    | plus => exact ih
    | minus => exact (Expr.named_negate _).trans ih
  | factor operand ih | exponent operand ih => exact ih
  | number text | percent text | constant name => rfl
  | call f argument ih =>
    simp only [Category.CountsNames, meaning, Expr.named, tokens, Token.names, List.countP_cons,
      List.countP_append, List.countP_nil] at ih ⊢
    rw [ih]
    simp
  | group inner ih =>
    simp only [Category.CountsNames, meaning, Expr.named, tokens, Token.names, List.countP_cons,
      List.countP_append, List.countP_nil] at ih ⊢
    rw [ih]
    simp

end Phrase

/-- **The text of an expression is read back exactly when it is legible.** -/
theorem Expr.ofChars_chars_iff {e : Expr} (hfits : e.Fits .sum) :
    ofChars e.chars = .ok e.shown ↔ e.Legible .sum := by
  refine ⟨fun h => ?_, ofChars_chars hfits⟩
  have htokens : ofTokens e.tokens = .ok e.shown := by
    rw [ofChars, e.spells_chars.ofChars] at h
    exact h
  obtain ⟨d, hspells, htree⟩ := Phrase.exists_of_ofTokens htokens
  have hnames : e.shown.named = Token.names e.tokens := by
    rw [← htree, ← hspells]
    exact d.countsNames
  have hunsigned : e.shown.Unsigned .sum := by
    rw [← htree]
    exact d.keeps Unsigned.closed
  rw [named_shown, names_tokens] at hnames
  exact legible_iff.mpr ⟨by omega, unsigned_shown.mp hunsigned⟩

end Stepwise
