/-
# Signed sums

A sum is spelled as one term after the other, each after its signs: any number of plus signs and at
most one minus sign, the minus sign last.  What stands after the signs is left open here.

* `Signed`, `SignedSum` : the terms with their signs, and their sums;
* `SignedSum.tokens` : the tokens of a sum;
* `Readable` : numerals that can be read;
* `SignedSum.termTexts_eq` : a text with these tokens is cut into the terms;
* `Polynomial.factorValue_signed` : the number in a term with its sign.
-/
import Stepwise.Proofs.Expr.Scan
import Stepwise.Proofs.Polynomial.Cut

namespace Stepwise

/-- A term after any number of plus signs and at most one minus sign. -/
structure Signed (β : Type) where
  pluses : Nat
  minus : Bool
  body : β

/-- A sum of one term or more. -/
structure SignedSum (β : Type) where
  first : Signed β
  rest : List (Signed β)

/-- Every term of a sum. -/
def SignedSum.terms {β : Type} (sum : SignedSum β) : List (Signed β) := sum.first :: sum.rest

variable {β : Type} (spell : β → List Token)

/-! ## Tokens and texts -/

namespace Signed

/-- The tokens of a term at the start of a sum. -/
def tokens (t : Signed β) : List Token :=
  List.replicate t.pluses (.operator .add) ++ (if t.minus then [.operator .sub] else []) ++
    spell t.body

/-- The tokens of a term after another one; without a minus sign there is one more plus sign. -/
def nextTokens (t : Signed β) : List Token :=
  (if t.minus then [] else [.operator .add]) ++ t.tokens spell

/-- The text of a term as it is cut off, with its minus sign if it has one. -/
def text (t : Signed β) : List Char :=
  (if t.minus then ['-'] else []) ++ (spell t.body).flatMap Token.chars

end Signed

namespace SignedSum

/-- The tokens of a sum. -/
def tokens (sum : SignedSum β) : List Token :=
  sum.first.tokens spell ++ sum.rest.flatMap (Signed.nextTokens spell)

variable {spell} {sum : SignedSum β} {token : Token}

theorem mem_tokens {t : Signed β} (ht : t ∈ sum.terms) (h : token ∈ spell t.body) :
    token ∈ sum.tokens spell := by
  have htokens : token ∈ t.tokens spell := List.mem_append_right _ h
  rcases List.mem_cons.mp ht with rfl | ht
  · exact List.mem_append_left _ htokens
  · apply List.mem_append_right
    exact List.mem_flatMap.mpr ⟨t, ht, List.mem_append_right _ htokens⟩

/-- A token of a sum is a sign or stands in one of the terms. -/
theorem of_mem_tokens (h : token ∈ sum.tokens spell) :
    token = .operator .add ∨ token = .operator .sub ∨ ∃ t ∈ sum.terms, token ∈ spell t.body := by
  have hterm : ∀ t ∈ sum.terms, token ∈ t.tokens spell →
      token = .operator .add ∨ token = .operator .sub ∨
        ∃ t ∈ sum.terms, token ∈ spell t.body := by
    intro t ht hmem
    rcases List.mem_append.mp hmem with hsigns | hbody
    · rcases List.mem_append.mp hsigns with hplus | hminus
      · exact .inl (List.eq_of_mem_replicate hplus)
      · split at hminus
        · exact .inr (.inl (List.mem_singleton.mp hminus))
        · simp at hminus
    · exact .inr (.inr ⟨t, ht, hbody⟩)
  rcases List.mem_append.mp h with hfirst | hrest
  · exact hterm _ List.mem_cons_self hfirst
  · obtain ⟨t, ht, hmem⟩ := List.mem_flatMap.mp hrest
    rcases List.mem_append.mp hmem with hplus | hmem
    · split at hplus
      · simp at hplus
      · exact .inl (List.mem_singleton.mp hplus)
    · exact hterm t (List.mem_cons_of_mem _ ht) hmem

end SignedSum

/-- The numerals among the tokens can be read. -/
def Readable (tokens : List Token) : Prop := ∀ n, .number n ∈ tokens → Numeral.Scanned n

/-- The numerals of a sum whose text has been cut into tokens can be read. -/
theorem SignedSum.readable {spell : β → List Token} {sum : SignedSum β} {s : List Char}
    (hs : Token.ofChars s = .ok (sum.tokens spell)) : ∀ t ∈ sum.terms, Readable (spell t.body) :=
  fun _ ht n hn => Token.scanned_of_ofChars hs n (mem_tokens ht hn)

/-! ## Cutting -/

/-- The tokens have characters, but no sign among them. -/
structure Solid (tokens : List Token) : Prop where
  plus : '+' ∉ tokens.flatMap Token.chars
  minus : '-' ∉ tokens.flatMap Token.chars
  ne_nil : tokens.flatMap Token.chars ≠ []

/-- Numbers, `x`, multiplication signs and power signs are solid. -/
theorem Solid.of_tokens {tokens : List Token} (hne : tokens ≠ [])
    (h : ∀ token ∈ tokens, (∃ n, token = .number n ∧ Numeral.Scanned n) ∨
      token ∈ [.name ['x'], .operator .mul, .operator .pow]) : Solid tokens := by
  have hsign {c : Char} (hc : c = '+' ∨ c = '-') : c ∉ tokens.flatMap Token.chars := by
    intro hmem
    obtain ⟨token, htoken, hmem⟩ := List.mem_flatMap.mp hmem
    rcases h token htoken with ⟨n, rfl, hn⟩ | hother
    · refine hn.notMem (c := c) ?_ hmem
      rcases hc with rfl | rfl <;> simp
    · have hchars : c = 'x' ∨ c = '*' ∨ c = '^' := by
        simp only [List.mem_cons, List.not_mem_nil, or_false] at hother
        rcases hother with rfl | rfl | rfl
        · exact .inl (List.mem_singleton.mp hmem)
        · exact .inr (.inl (List.mem_singleton.mp hmem))
        · exact .inr (.inr (List.mem_singleton.mp hmem))
      rcases hc with rfl | rfl
      · exact absurd hchars (by decide)
      · exact absurd hchars (by decide)
  refine ⟨hsign (.inl rfl), hsign (.inr rfl), fun hnil => ?_⟩
  obtain ⟨token, rest, rfl⟩ := List.exists_cons_of_ne_nil hne
  rw [List.flatMap_cons, List.append_eq_nil_iff] at hnil
  rcases h token List.mem_cons_self with ⟨n, rfl, hn⟩ | hother
  · obtain ⟨c, t, rfl, -⟩ := hn.start
    exact absurd hnil.1 (by simp [Token.chars])
  · simp only [List.mem_cons, List.not_mem_nil, or_false] at hother
    rcases hother with rfl | rfl | rfl <;> exact absurd hnil.1 (by simp [Token.chars])

namespace Signed

variable {spell} {t : Signed β}

theorem flatMap_chars_tokens (t : Signed β) :
    (t.tokens spell).flatMap Token.chars = List.replicate t.pluses '+' ++ t.text spell := by
  have hpluses (k : Nat) : (List.replicate k (Token.operator .add)).flatMap Token.chars =
      List.replicate k '+' := by
    induction k with
    | zero => rfl
    | succ k ih =>
      rw [List.replicate_succ, List.flatMap_cons, ih]
      rfl
  rw [tokens, List.flatMap_append, List.flatMap_append, hpluses, text, List.append_assoc]
  congr 2
  split <;> rfl

theorem mark_text (h : Solid (spell t.body)) :
    Polynomial.mark (t.text spell) =
      List.replicate (if t.minus then 1 else 0) '+' ++ t.text spell := by
  rw [text, Polynomial.mark_append, Polynomial.mark_of_notMem h.minus]
  split <;> rfl

theorem mark_replicate (k : Nat) :
    Polynomial.mark (List.replicate k '+') = List.replicate k '+' :=
  Polynomial.mark_of_notMem fun hmem => absurd (List.eq_of_mem_replicate hmem) (by decide)

/-- Plus signs and the text of the term, when the signs of the first term are marked. -/
theorem mark_tokens (h : Solid (spell t.body)) :
    ∃ k, Polynomial.mark ((t.tokens spell).flatMap Token.chars) =
      List.replicate k '+' ++ t.text spell := by
  refine ⟨t.pluses + if t.minus then 1 else 0, ?_⟩
  rw [flatMap_chars_tokens, Polynomial.mark_append, mark_replicate, mark_text h,
    ← List.append_assoc, ← List.replicate_add]

/-- A plus sign comes first when the signs of another term are marked. -/
theorem mark_nextTokens (h : Solid (spell t.body)) :
    ∃ k, Polynomial.mark ((t.nextTokens spell).flatMap Token.chars) =
      List.replicate (k + 1) '+' ++ t.text spell := by
  refine ⟨t.pluses, ?_⟩
  rw [nextTokens, List.flatMap_append, Polynomial.mark_append, flatMap_chars_tokens,
    Polynomial.mark_append, mark_replicate, mark_text h]
  cases t.minus with
  | false => rfl
  | true =>
    simp only [if_true, List.flatMap_nil, List.replicate_succ', List.replicate_zero,
      List.nil_append, List.append_assoc]
    rfl

theorem plus_notMem_text (h : Solid (spell t.body)) : '+' ∉ t.text spell := by
  intro hmem
  rcases List.mem_append.mp hmem with hsign | hbody
  · split at hsign <;> simp at hsign
  · exact h.plus hbody

theorem text_ne_nil (h : Solid (spell t.body)) : t.text spell ≠ [] := fun hnil =>
  h.ne_nil (List.append_eq_nil_iff.mp hnil).2

/-- The terms after the first one are cut off one by one. -/
theorem pieces_nextTokens {ts : List (Signed β)} (h : ∀ t ∈ ts, Solid (spell t.body)) :
    (∀ c ∈ (Polynomial.mark ((ts.flatMap (nextTokens spell)).flatMap Token.chars)).head?,
      c = '+') ∧
    Polynomial.pieces (Polynomial.mark ((ts.flatMap (nextTokens spell)).flatMap Token.chars)) =
      ts.map (text spell) := by
  induction ts with
  | nil => exact ⟨by simp [Polynomial.mark], rfl⟩
  | cons t ts ih =>
    have ht := h t (by simp)
    obtain ⟨hhead, hpieces⟩ := ih fun u hu => h u (List.mem_cons_of_mem _ hu)
    obtain ⟨k, hmark⟩ := mark_nextTokens ht
    rw [List.flatMap_cons, List.flatMap_append, Polynomial.mark_append, hmark, List.append_assoc]
    constructor
    · rw [List.replicate_succ]
      simp
    · rw [Polynomial.pieces_replicate, Polynomial.pieces_append (plus_notMem_text ht)
        (text_ne_nil ht) hhead, hpieces, List.map_cons]

end Signed

/-- **A sum is cut into its terms.** -/
theorem SignedSum.termTexts_eq {spell : β → List Token} {sum : SignedSum β} {s : List Char}
    (hs : Token.ofChars s = .ok (sum.tokens spell))
    (hsolid : ∀ t ∈ sum.terms, Solid (spell t.body)) :
    Polynomial.termTexts s = sum.terms.map (Signed.text spell) := by
  have hfirst := hsolid sum.first List.mem_cons_self
  obtain ⟨hhead, hpieces⟩ := Signed.pieces_nextTokens fun t ht =>
    hsolid t (List.mem_cons_of_mem _ ht)
  -- Plus signs in a row leave empty pieces between them, which are dropped.
  obtain ⟨k, hmark⟩ := Signed.mark_tokens hfirst
  rw [Polynomial.termTexts_eq, ← Token.flatMap_chars_of_ofChars hs, tokens, List.flatMap_append,
    Polynomial.mark_append, hmark, List.append_assoc, Polynomial.pieces_replicate,
    Polynomial.pieces_append (Signed.plus_notMem_text hfirst) (Signed.text_ne_nil hfirst) hhead,
    hpieces, terms, List.map_cons]

/-! ## Numbers after signs -/

/-- The number in front of a term is read with its sign, up to what does not go on with it. -/
theorem Polynomial.factorValue_signed {n : List Char} (h : Numeral.Scanned n) (minus : Bool)
    {rest : List Char} (hrest : Numeral.Ends rest) :
    factorValue ((if minus then ['-'] else []) ++ n ++ rest) =
      if minus then -Numeral.unsignedValue n else Numeral.unsignedValue n := by
  rw [← h.prefixValue_signed minus hrest]
  obtain ⟨c, t, rfl, hc⟩ := h.start
  cases minus with
  | true => rfl
  | false =>
    show factorValue (c :: (t ++ rest)) = Numeral.prefixValue (c :: (t ++ rest))
    rw [factorValue]
    · rintro ⟨⟩
    · rintro heq
      obtain rfl : c = '+' := (List.cons.inj heq).1
      exact absurd hc (by decide)
    · rintro heq
      obtain rfl : c = '-' := (List.cons.inj heq).1
      exact absurd hc (by decide)

end Stepwise
