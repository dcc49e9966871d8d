/-
# Samples of one expression

The integrand is read anew for every sample, with the number written in place of each `x` before the
text is split into words.  Nevertheless all samples are samples of one expression with marks for
`x`, whatever the text is and wherever `x` stands in it: the parentheses keep the number apart from
the text around it, and a minus before its digits is folded into the number.  A text that cannot be
read with one number cannot be read with any, and fails in the same way.

* `Token.exists_scan_insert` : one list of tokens and marks, or one failure;
* `Definite.exists_fill_of_substitute` : one expression with marks, or one failure.
-/
import Stepwise.Proofs.Analysis.Sample
import Stepwise.Proofs.Expr.Marks

namespace Stepwise

namespace Token

variable {number : List Token}

/-! ## Tokens and marks -/

/-- A word that has ended, before tokens and marks. -/
def Partial.ended (word : Partial) (rest : List (Option Token)) : List (Option Token) :=
  (word.close []).map some ++ rest

theorem flatMap_insert_some (number tokens : List Token) :
    (tokens.map some).flatMap (insert number) = tokens := by
  induction tokens with
  | nil => rfl
  | cons token tokens ih => rw [List.map_cons, List.flatMap_cons, ih, insert, List.singleton_append]

theorem flatMap_insert_ended (word : Partial) (rest : List (Option Token)) :
    (word.ended rest).flatMap (insert number) = word.close (rest.flatMap (insert number)) := by
  rw [Partial.ended, List.flatMap_append, flatMap_insert_some]
  cases word <;> rfl

/-- No word goes on across an opening parenthesis. -/
theorem extend?_opening (word : Partial) : word.extend? '(' = none := by
  cases word <;> rfl

/-- The word that a character begins does not depend on the number. -/
theorem begin?_substitute (c : Char) (s : List Char) (x : Double) :
    begin? c (Definite.substitute s x) = begin? c s := by
  simp only [begin?, startsWithDigit_substitute]

/-- **A text with numbers in place of `x` is split into the same words**, whatever the numbers are,
or fails in the same way. -/
theorem exists_scan_insert (word : Partial) (s : List Char) :
    ∃ r : Except Failure (List (Option Token)), ∀ (x : Double) (number : List Token),
      Spells x.positional number →
        scan word (Definite.substitute s x) = r.map (List.flatMap (insert number)) := by
  induction s generalizing word with
  | nil =>
    refine ⟨.ok (word.ended []), fun x number _ => ?_⟩
    rw [Except.map, flatMap_insert_ended]
    rfl
  | cons c s ih =>
    by_cases hc : c = 'x'
    · subst hc
      obtain ⟨r, hr⟩ := ih .none
      refine ⟨r.map fun rest => word.ended (none :: rest), fun x number hnumber => ?_⟩
      have hend : ∀ d ∈ ('(' :: x.positional ++ ')' :: Definite.substitute s x).head?,
          word.extend? d = none := by
        intro d hd
        obtain rfl : '(' = d := by simpa using hd
        exact extend?_opening word
      rw [substitute_variable, scan_of_not_extends hend, scan_parenthesised hnumber,
        hr x number hnumber]
      cases r with
      | error f => rfl
      | ok rest => simp [Except.map, flatMap_insert_ended, insert]
    · cases hextend : word.extend? c with
      | some longer =>
        obtain ⟨r, hr⟩ := ih longer
        refine ⟨r, fun x number hnumber => ?_⟩
        rw [substitute_cons hc, scan, hextend]
        exact hr x number hnumber
      | none =>
        cases hbegin : begin? c s with
        | none =>
          refine ⟨.error .invalidExpression, fun x number _ => ?_⟩
          rw [substitute_cons hc, scan, hextend, begin?_substitute, hbegin]
          rfl
        | some begun =>
          obtain ⟨done, next⟩ := begun
          obtain ⟨r, hr⟩ := ih next
          refine ⟨r.map fun rest => word.ended (done.map some ++ rest), fun x number hnumber => ?_⟩
          rw [substitute_cons hc, scan, hextend, begin?_substitute, hbegin]
          simp only [hr x number hnumber]
          cases r with
          | error f => rfl
          | ok rest =>
            simp [Except.map, bind, Except.bind, pure, Except.pure, flatMap_insert_ended,
              flatMap_insert_some]

end Token

namespace Definite

/-! ## Samples -/

/-- **All samples of an integrand are samples of one expression.**  For every text there is either
one expression with marks, which is what is read with a finite number in place of `x` once the
number is put in place of the marks, or one failure, with which the reading fails for every finite
number. -/
theorem exists_fill_of_substitute (s : List Char) :
    (∃ marked : Expr, ∀ x : Double, x.isFinite = true →
        Expr.ofChars (substitute s x) = .ok (marked.fill x)) ∨
      ∃ failure : Failure, ∀ x : Double, x.isFinite = true →
        Expr.ofChars (substitute s x) = .error failure := by
  obtain ⟨scanned, hscan⟩ := Token.exists_scan_insert .none s
  have hsame (x : Double) (hfinite : x.isFinite = true) : ∃ d : Phrase .expression,
      d.meaning = .literal x ∧ Expr.ofChars (substitute s x) =
        scanned.map (List.flatMap (Token.insert d.tokens)) >>= Expr.ofTokens := by
    obtain ⟨d, hspells, hmeaning⟩ := Double.reads_positional hfinite
    exact ⟨d, hmeaning, congrArg (· >>= Expr.ofTokens) (hscan x d.tokens hspells)⟩
  cases scanned with
  | error failure =>
    refine .inr ⟨failure, fun x hfinite => ?_⟩
    obtain ⟨d, -, hchars⟩ := hsame x hfinite
    exact hchars
  | ok pieces =>
    obtain ⟨read, hread⟩ := Expr.exists_ofTokens_fill pieces
    have hresult (x : Double) (hfinite : x.isFinite = true) :
        Expr.ofChars (substitute s x) = read.map (Expr.fill x) := by
      obtain ⟨d, hmeaning, hchars⟩ := hsame x hfinite
      exact hchars.trans (hread x d hmeaning)
    cases read with
    | error failure => exact .inr ⟨failure, hresult⟩
    | ok marked => exact .inl ⟨marked, hresult⟩

end Definite

end Stepwise
