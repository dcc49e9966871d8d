/-
# Products without a sign

Where an operand has ended, an opening parenthesis or a name starts another factor.  A
multiplication sign may be written between the two: whatever stands around them, the state of
reading after the sign is the one in which the token after it is read in any case.

* `Token.WithTimes`, `Token.writeTimes` : signs are written at some of the places, or at all;
* `Reading.run_withTimes` : the tokens lead from every state to the same state as before;
* `Expr.ofTokens_writeTimes` : the same expression is read.
-/
import Mathlib.Data.List.Chain
import Stepwise.Expr.Text
import Stepwise.Proofs.Expr.Viable

namespace Stepwise

/-! ## Multiplication signs -/

namespace Token

/-- An operand has ended with the one token, and the other one starts a factor. -/
def Juxtaposed (left right : Token) : Prop := left.endsOperand = true ∧ right.opens = true

instance (left right : Token) : Decidable (Juxtaposed left right) :=
  inferInstanceAs (Decidable (_ ∧ _))

/-- Multiplication signs are written at some of the places where a product has none. -/
inductive WithTimes : List Token → List Token → Prop where
  | nil : WithTimes [] []
  | keep (t : Token) {tokens written : List Token} (h : WithTimes tokens written) :
      WithTimes (t :: tokens) (t :: written)
  | times {left right : Token} {rest written : List Token} (hplace : Juxtaposed left right)
      (h : WithTimes (right :: rest) written) :
      WithTimes (left :: right :: rest) (left :: .operator .mul :: written)

/-- The tokens with multiplication signs at all places where a product has none. -/
def writeTimes : List Token → List Token
  | left :: right :: rest =>
    if Juxtaposed left right then left :: .operator .mul :: writeTimes (right :: rest)
    else left :: writeTimes (right :: rest)
  | tokens => tokens

theorem WithTimes.refl (tokens : List Token) : WithTimes tokens tokens := by
  induction tokens with
  | nil => exact .nil
  | cons t tokens ih => exact .keep t ih

/-- A sign at one place. -/
theorem withTimes_append {left right : Token} (hplace : Juxtaposed left right)
    (front back : List Token) :
    WithTimes (front ++ left :: right :: back)
      (front ++ left :: .operator .mul :: right :: back) := by
  induction front with
  | nil => exact .times hplace (.refl _)
  | cons t front ih => exact .keep t ih

theorem withTimes_writeTimes (tokens : List Token) : WithTimes tokens (writeTimes tokens) := by
  fun_induction writeTimes tokens with
  | case1 left right rest h ih => exact .times h ih
  | case2 left right rest h ih => exact .keep left ih
  | case3 tokens h => exact .refl tokens

theorem head?_writeTimes (tokens : List Token) : (writeTimes tokens).head? = tokens.head? := by
  fun_induction writeTimes tokens <;> simp

/-- Then no place is without a sign. -/
theorem isChain_writeTimes (tokens : List Token) :
    (writeTimes tokens).IsChain fun left right => ¬ Juxtaposed left right := by
  fun_induction writeTimes tokens with
  | case1 left right rest h ih =>
    refine .cons_cons (fun hplace => ?_) (List.isChain_cons.mpr ⟨fun u _ hplace => ?_, ih⟩)
    · cases hplace.2
    · cases hplace.1
  | case2 left right rest h ih =>
    refine List.isChain_cons.mpr ⟨fun u hu => ?_, ih⟩
    rw [head?_writeTimes] at hu
    obtain rfl : right = u := by simpa using hu
    exact h
  | case3 tokens h =>
    cases tokens with
    | nil => exact .nil
    | cons t tokens =>
      cases tokens with
      | nil => exact .singleton t
      | cons u tokens => exact absurd rfl (h t u tokens)

end Token

/-- A sign at the end of an operand leads to the state in which the start of a factor is read. -/
theorem Reading.run_times {r : Reading} {e : Expr} (h : r.focus.Shows e) {right : Token}
    (hright : right.opens = true) (rest : List Token) :
    r.run (right :: rest) = (r.push e .mul).run (right :: rest) := by
  obtain ⟨frames, p, focus⟩ := r
  have hstep : step ⟨frames, p, focus⟩ right = (push ⟨frames, p, focus⟩ e .mul).step right := by
    rw [step_of_shows h (by rintro rfl; cases hright)]
    exact afterOperand_of_opens _ _ hright
  rw [run, run, hstep]

/-- **Signs change nothing in what tokens lead to**, from any state. -/
theorem Reading.run_withTimes {tokens written : List Token} (h : Token.WithTimes tokens written)
    (s : Reading) : s.run written = s.run tokens := by
  induction h generalizing s with
  | nil => rfl
  | keep t h ih =>
    rw [run, run]
    cases s.step t with
    | error f => rfl
    | ok r => exact ih r
  | @times left right rest written hplace h ih =>
    rw [run, run]
    cases hstep : s.step left with
    | error f => rfl
    | ok r =>
      obtain ⟨e, hshows⟩ := (leads_of_step hstep).exists_shows hplace.1
      have htimes : r.step (.operator .mul) = .ok (r.push e .mul) := by
        obtain ⟨frames, p, focus⟩ := r
        exact step_of_shows hshows (by simp)
      show r.run (.operator .mul :: written) = r.run (right :: rest)
      rw [run_cons htimes, ih, run_times hshows hplace.2]

/-- **A product without a sign is read like one with it.**  Where an operand ends and a factor
starts next to it, a multiplication sign between the two changes neither the expression nor, where
there is none, the failure.  Nor do signs at all such places at once, after which none is left. -/
theorem Expr.ofTokens_writeTimes (tokens : List Token) :
    (∀ front left right back, tokens = front ++ left :: right :: back →
      Token.Juxtaposed left right →
        ofTokens (front ++ left :: .operator .mul :: right :: back) = ofTokens tokens) ∧
    ofTokens (Token.writeTimes tokens) = ofTokens tokens ∧
    (Token.writeTimes tokens).IsChain fun left right => ¬ Token.Juxtaposed left right := by
  have hsame {written : List Token} (h : Token.WithTimes tokens written) :
      ofTokens written = ofTokens tokens := by
    rw [ofTokens, ofTokens, Reading.run_withTimes h]
  refine ⟨?_, hsame (Token.withTimes_writeTimes tokens), Token.isChain_writeTimes tokens⟩
  rintro front left right back rfl hplace
  exact hsame (Token.withTimes_append hplace front back)

/-- A percentage under a minus sign before a parenthesis, and an exponent before a constant. -/
theorem Expr.ofTokens_writeTimes_percent :
    let front : List Token := [.operator .sub, .number ['5']]
    let back : List Token :=
      [.number ['2'], .closing, .operator .pow, .number ['2'], .name ['p', 'i']]
    Token.Juxtaposed .percent .opening ∧
      ofTokens (front ++ .percent :: .operator .mul :: .opening :: back) =
        ofTokens (front ++ .percent :: .opening :: back) ∧
      (ofTokens (front ++ .percent :: .opening :: back)).toOption.map text =
        some "-5% * (2) ^ 2 * pi" := by
  intro front back
  have hsame := (ofTokens_writeTimes (front ++ .percent :: .opening :: back)).1 front .percent
    .opening back rfl (by decide)
  exact ⟨by decide, hsame, by decide +kernel⟩

end Stepwise
