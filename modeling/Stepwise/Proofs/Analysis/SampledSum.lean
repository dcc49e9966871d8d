/-
# Samples of signed sums

The sample of a signed sum at a number is the sum of its terms there, if no operation on the way has
to round.

* `Yields` : a subexpression has a value that stands for a rational;
* `Factors` : what a term becomes with a number in place of `x`;
* `SignedSum.yields_phrase` : the value of a sum grows term by term;
* `SignedSum.sample_eq` : the sample of a sum.
-/
import Stepwise.Proofs.Analysis.Sample
import Stepwise.Proofs.Double.Exact
import Stepwise.Proofs.Polynomial.Signed

namespace Stepwise

/-! ## Exact values -/

section Values

variable {limit : Int} {e f : Expr} {p q : ℚ}

/-- A subexpression has a value that stands for a rational. -/
def Yields (limit : Int) (e : Expr) (q : ℚ) : Prop :=
  ∃ y, e.valueAux (standardOperations limit) = .ok y ∧ y.Represents q

theorem yields_literal {y : Double} (h : y.Represents q) : Yields limit (.literal y) q :=
  ⟨y, rfl, h⟩

theorem Yields.group (h : Yields limit e q) : Yields limit (.group e) q := by
  obtain ⟨y, hy, hq⟩ := h
  refine ⟨y, ?_, hq⟩
  rw [Expr.valueAux, hy]
  show defined y = .ok y
  rw [defined, hq.isNaN_eq_false]
  rfl

theorem Yields.negate (h : Yields limit e q) : Yields limit e.negate (-q) := by
  obtain ⟨y, hy, hq⟩ := h
  refine ⟨-y, ?_, hq.neg⟩
  rw [Expr.valueAux_negate, Expr.valueAux, hy]
  rfl

theorem Yields.mul (he : Yields limit e p) (hf : Yields limit f q) (h : Representable (p * q)) :
    Yields limit (.binary .mul e f) (p * q) := by
  obtain ⟨y, hy, hp⟩ := he
  obtain ⟨z, hz, hq⟩ := hf
  refine ⟨y * z, ?_, hp.mul hq h⟩
  rw [Expr.valueAux, hy, hz]
  rfl

theorem Yields.sign (sign : Sign) (he : Yields limit e p) (hf : Yields limit f q)
    (h : Representable (p + (if sign = .minus then -q else q))) :
    Yields limit (.binary sign.operator e f) (p + (if sign = .minus then -q else q)) := by
  obtain ⟨y, hy, hp⟩ := he
  obtain ⟨z, hz, hq⟩ := hf
  cases sign with
  | plus =>
    refine ⟨y + z, ?_, hp.add hq h⟩
    rw [Expr.valueAux, hy, hz]
    rfl
  | minus =>
    refine ⟨y - z, ?_, hp.add hq.neg h⟩
    rw [Expr.valueAux, hy, hz]
    rfl

end Values

/-! ## Signed factors -/

/-- A factor after plus signs and at most one minus sign. -/
def signedFactor (minus : Bool) (operand : Phrase .factor) : Nat → Phrase .factor
  | 0 => if minus then .signed .minus operand else operand
  | pluses + 1 => .signed .plus (signedFactor minus operand pluses)

theorem tokens_signedFactor (minus : Bool) (operand : Phrase .factor) (pluses : Nat) :
    (signedFactor minus operand pluses).tokens =
      List.replicate pluses (.operator .add) ++ (if minus then [.operator .sub] else []) ++
        operand.tokens := by
  induction pluses with
  | zero => cases minus <;> rfl
  | succ pluses ih =>
    rw [signedFactor, Phrase.tokens, ih]
    rfl

theorem meaning_signedFactor (minus : Bool) (operand : Phrase .factor) (pluses : Nat) :
    (signedFactor minus operand pluses).meaning =
      if minus then Expr.negate operand.meaning else operand.meaning := by
  induction pluses with
  | zero => cases minus <;> rfl
  | succ pluses ih => exact ih

theorem yields_signedFactor {limit : Int} {operand : Phrase .factor} {q : ℚ}
    (h : Yields limit operand.meaning q) (minus : Bool) (pluses : Nat) :
    Yields limit (signedFactor minus operand pluses).meaning ((if minus then -1 else 1) * q) := by
  rw [meaning_signedFactor]
  cases minus with
  | false => simpa using h
  | true => simpa using h.negate

/-- A numeral as a factor. -/
def numeralFactor (numeral : List Char) : Phrase .factor :=
  .factor (.power (.number numeral) .endPower)

/-- An expression in parentheses as a factor. -/
def groupFactor (inner : Phrase .expression) : Phrase .factor :=
  .factor (.power (.group inner) .endPower)

/-! ## Terms -/

/-- What a term becomes with a number in place of `x`: its first factor, and what follows it. -/
structure Factors where
  head : Phrase .factor
  tail : Phrase .productTail

/-- The tokens of the factors. -/
def Factors.tokens (f : Factors) : List Token := f.head.tokens ++ f.tail.tokens

variable {β : Type} {spell : β → List Token}

namespace Signed

/-- The value of a term with its sign, given the values of the terms without. -/
def value (v : β → ℚ) (t : Signed β) : ℚ := (if t.minus then -1 else 1) * v t.body

/-- A term as a phrase. -/
def phrase (factors : β → Factors) (t : Signed β) : Phrase .term :=
  .term (signedFactor t.minus (factors t.body).head t.pluses) (factors t.body).tail

/-- The signs are no names, so that nothing is put in their place. -/
theorem tokens_phrase {number : List Token} {factors : β → Factors} (t : Signed β)
    (hspell : (factors t.body).tokens = (spell t.body).flatMap (Token.expand number)) :
    (t.phrase factors).tokens = (t.tokens spell).flatMap (Token.expand number) := by
  have hsigns : (List.replicate t.pluses (Token.operator .add) ++
      (if t.minus then [Token.operator .sub] else [])).flatMap (Token.expand number) =
        List.replicate t.pluses (.operator .add) ++
          (if t.minus then [.operator .sub] else []) := by
    rw [List.flatMap_append]
    congr 1
    · induction t.pluses with
      | zero => rfl
      | succ n ih =>
        rw [List.replicate_succ, List.flatMap_cons, ih]
        rfl
    · split <;> rfl
  rw [phrase, Phrase.tokens, tokens_signedFactor, tokens, List.flatMap_append, hsigns, ← hspell,
    Factors.tokens, List.append_assoc]

/-- The first sign of a term after another one, and the rest of the term. -/
def split : Signed β → Sign × Signed β
  | ⟨0, true, b⟩ => (.minus, ⟨0, false, b⟩)
  | ⟨pluses + 1, true, b⟩ => (.plus, ⟨pluses, true, b⟩)
  | ⟨pluses, false, b⟩ => (.plus, ⟨pluses, false, b⟩)

theorem nextTokens_eq (t : Signed β) :
    t.nextTokens spell = .operator t.split.1.operator :: t.split.2.tokens spell := by
  obtain ⟨pluses, minus, b⟩ := t
  cases minus <;> cases pluses <;> rfl

theorem body_split (t : Signed β) : t.split.2.body = t.body := by
  obtain ⟨pluses, minus, b⟩ := t
  cases minus <;> cases pluses <;> rfl

/-- The first sign of a term and the rest of it make up its value. -/
theorem value_split (v : β → ℚ) (t : Signed β) :
    (if t.split.1 = .minus then -t.split.2.value v else t.split.2.value v) = t.value v := by
  obtain ⟨pluses, minus, b⟩ := t
  cases minus with
  | false => cases pluses <;> rfl
  | true =>
    cases pluses with
    | zero => simp [split, value]
    | succ pluses => rfl

end Signed

/-- Signs do not matter to what is a double. -/
theorem Representable.signed {q : ℚ} (h : Representable q) (minus : Bool) :
    Representable ((if minus then -1 else 1) * q) := by
  cases minus with
  | false => simpa using h
  | true => simpa using h.neg

theorem Representable.of_signed {v : β → ℚ} {t : Signed β} (h : Representable (t.value v)) :
    Representable (v t.body) := by
  have htwice : (if t.minus then -1 else 1) * t.value v = v t.body := by
    rw [Signed.value]
    split <;> ring
  rw [← htwice]
  exact h.signed t.minus

/-! ## Sums -/

namespace SignedSum

variable {number : List Token} {factors : β → Factors} {limit : Int} {v : β → ℚ}

/-- The terms after the first one as a phrase. -/
def tailPhrase (factors : β → Factors) : List (Signed β) → Phrase .sumTail
  | [] => .endSum
  | t :: ts => .sum t.split.1 (t.split.2.phrase factors) (tailPhrase factors ts)

theorem tokens_tailPhrase {ts : List (Signed β)}
    (hspell : ∀ t ∈ ts, (factors t.body).tokens = (spell t.body).flatMap (Token.expand number)) :
    (tailPhrase factors ts).tokens =
      (ts.flatMap (Signed.nextTokens spell)).flatMap (Token.expand number) := by
  induction ts with
  | nil => rfl
  | cons t ts ih =>
    have hterm : (t.split.2.phrase factors).tokens =
        (t.split.2.tokens spell).flatMap (Token.expand number) := by
      apply Signed.tokens_phrase
      rw [t.body_split]
      exact hspell t List.mem_cons_self
    rw [tailPhrase, Phrase.tokens, ih fun u hu => hspell u (List.mem_cons_of_mem _ hu), hterm,
      List.flatMap_cons, List.flatMap_append, Signed.nextTokens_eq]
    rfl

/-- A sum as a phrase. -/
def phrase (factors : β → Factors) (sum : SignedSum β) : Phrase .expression :=
  .expression (sum.first.phrase factors) (tailPhrase factors sum.rest)

theorem tokens_phrase {sum : SignedSum β}
    (hspell : ∀ t ∈ sum.terms,
      (factors t.body).tokens = (spell t.body).flatMap (Token.expand number)) :
    (sum.phrase factors).tokens = (sum.tokens spell).flatMap (Token.expand number) := by
  rw [phrase, Phrase.tokens, Signed.tokens_phrase _ (hspell _ List.mem_cons_self),
    tokens_tailPhrase fun t ht => hspell t (List.mem_cons_of_mem _ ht), tokens,
    List.flatMap_append]

/-- The terms with a given body have the value of that body, whatever their signs. -/
def TermYields (limit : Int) (factors : β → Factors) (v : β → ℚ) (b : β) : Prop :=
  ∀ t : Signed β, t.body = b → Yields limit (t.phrase factors).meaning (t.value v)

/-- Bodies with the same factors and the same value have that value together. -/
theorem TermYields.congr {γ : Type} {others : γ → Factors} {w : γ → ℚ} {b : β} {c : γ}
    (hfactors : others c = factors b) (hvalue : w c = v b) (h : TermYields limit factors v b) :
    TermYields limit others w c := by
  rintro ⟨pluses, minus, c⟩ rfl
  have hterm := h ⟨pluses, minus, b⟩ rfl
  rw [Signed.phrase, Signed.value] at hterm ⊢
  rw [hfactors, hvalue]
  exact hterm

/-- The value of a sum grows term by term. -/
theorem yields_tailPhrase {before ts : List (Signed β)} {left : Expr}
    (hleft : Yields limit left (before.map (Signed.value v)).sum)
    (hterms : ∀ t ∈ ts, TermYields limit factors v t.body)
    (hsums : ∀ us, us <+: before ++ ts → Representable (us.map (Signed.value v)).sum) :
    Yields limit ((tailPhrase factors ts).meaning left)
      ((before ++ ts).map (Signed.value v)).sum := by
  induction ts generalizing before left with
  | nil =>
    rw [List.append_nil]
    exact hleft
  | cons t ts ih =>
    have happend : before ++ t :: ts = before ++ [t] ++ ts := by simp
    -- The first sign of the term is the operator, and the other signs belong to the operand.
    have hsum : (before.map (Signed.value v)).sum +
        (if t.split.1 = .minus then -t.split.2.value v else t.split.2.value v) =
          ((before ++ [t]).map (Signed.value v)).sum := by
      rw [Signed.value_split]
      simp
    have hnext := hterms t List.mem_cons_self t.split.2 t.body_split
    have hboth := hleft.sign t.split.1 hnext (by
      rw [hsum]
      exact hsums _ ⟨ts, happend.symm⟩)
    rw [hsum] at hboth
    rw [happend] at hsums ⊢
    exact ih hboth (fun u hu => hterms u (List.mem_cons_of_mem _ hu)) hsums

/-- **The value of a sum**, if neither its terms nor its partial sums are rounded. -/
theorem yields_phrase {sum : SignedSum β}
    (hterms : ∀ t ∈ sum.terms, TermYields limit factors v t.body)
    (hsums : ∀ ts, ts <+: sum.terms → Representable (ts.map (Signed.value v)).sum) :
    Yields limit (sum.phrase factors).meaning (sum.terms.map (Signed.value v)).sum := by
  -- The first term has no operator before it; the tail starts from its value.
  have hfirst : Yields limit (sum.first.phrase factors).meaning
      ([sum.first].map (Signed.value v)).sum := by
    simpa using hterms _ List.mem_cons_self sum.first rfl
  exact yields_tailPhrase hfirst (fun t ht => hterms t (List.mem_cons_of_mem _ ht)) hsums

/-- **The sample of a sum at a number.**  The number is read back as a literal, so that every term
is known once its value with this literal is. -/
theorem sample_eq {settings : Settings} {s : List Char} {sum : SignedSum β} {x : Double}
    (factors : Phrase .expression → β → Factors)
    (hs : Token.ofChars s = .ok (sum.tokens spell)) (hfinite : x.isFinite = true)
    (hname : ∀ t ∈ sum.terms, ∀ m, .name m ∈ spell t.body → m = ['x'])
    (hspell : ∀ number b,
      (factors number b).tokens = (spell b).flatMap (Token.expand number.tokens))
    (hterms : ∀ number, number.meaning = .literal x →
      ∀ t ∈ sum.terms, TermYields settings.maxFactorial (factors number) v t.body)
    (hsums : ∀ ts, ts <+: sum.terms → Representable (ts.map (Signed.value v)).sum) :
    ∃ y, (Definite.sample settings s x).outcome = .ok y ∧
      y.Represents (sum.terms.map (Signed.value v)).sum := by
  have honly : ∀ m, .name m ∈ sum.tokens spell → m = ['x'] := by
    intro m hm
    rcases of_mem_tokens hm with hsign | hsign | ⟨t, ht, hmem⟩
    · cases hsign
    · cases hsign
    · exact hname t ht m hmem
  obtain ⟨number, hmeaning, htokens⟩ := Definite.ofChars_substitute hfinite hs honly
  obtain ⟨y, hy, hvalue⟩ := yields_phrase (hterms number hmeaning) hsums
  refine ⟨y, Definite.sample_of_value ?_ (sum.phrase (factors number)).fits_tree ?_, hvalue⟩
  · rw [Expr.ofChars, htokens, ← tokens_phrase fun t _ => hspell number t.body]
    exact (sum.phrase (factors number)).ofTokens_tokens
  · rw [Expr.value, Phrase.tree, hy]
    show defined y = .ok y
    rw [defined, hvalue.isNaN_eq_false]
    rfl

end SignedSum

end Stepwise
