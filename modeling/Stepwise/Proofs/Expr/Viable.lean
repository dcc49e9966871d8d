/-
# Reading token by token

What one token does to the state of reading, and how far reading gets.  Every state that is reached
can be completed: with an operand if one has to follow, and with a closing parenthesis for each open
one.  So reading gets through the tokens with which an expression can start, and the first token
that it refuses is the first one that no expression has there.

* `Reading.Leads` : what a token does to the open parentheses, and what may come after it;
* `Viable` : tokens with which an expression starts;
* `Reading.viable_iff` : they are the tokens that reading gets through;
* `Reading.exists_of_run_error` : the token that is refused.
-/
import Stepwise.Proofs.Derivation.Value

namespace Stepwise

/-! ## One token -/

namespace Token

/-- A number, a percent sign, a closing parenthesis or the name of a constant, with which an operand
ends. -/
def endsOperand : Token → Bool
  | number _ | percent | closing => true
  | name n => (ConstantName.ofChars? n).isSome
  | operator _ | opening => false

/-- No function has the name of a constant. -/
theorem not_endsOperand_of_function {n : List Char} {f : FunctionName}
    (h : FunctionName.ofChars? n = some f) : (name n).endsOperand = false := by
  obtain rfl := (FunctionName.ofChars?_eq_some n f).mp h
  cases f <;> decide

end Token

namespace Reading

/-- What a token that is read does to the open parentheses, and what may come after it. -/
inductive Leads (frames : List Frame) : Token → List Frame → Focus → Prop where
  | operator (op : Operator) : Leads frames (.operator op) frames .operand
  | opening (frame : Frame) : Leads frames .opening (frame :: frames) .operand
  | number (text : List Char) (value : Double) : Leads frames (.number text) frames (.numeral value)
  | percent (e : Expr) : Leads frames .percent frames (.value e)
  | closing {frame : Frame} {outer : List Frame} (h : frames = frame :: outer) (e : Expr) :
      Leads frames .closing outer (.value e)
  | function {n : List Char} {f : FunctionName} (h : FunctionName.ofChars? n = some f) :
      Leads frames (.name n) frames (.call f)
  | constant {n : List Char} {c : ConstantName} (h : ConstantName.ofChars? n = some c) :
      Leads frames (.name n) frames (.value (.constant c))

variable {s r : Reading} {t : Token} {tokens : List Token} {f : Failure}

theorem leads_of_readName {n : List Char} (h : s.readName n = .ok r) :
    Leads s.frames (.name n) r.frames r.focus := by
  unfold readName at h
  split at h
  · next f hf =>
    cases h
    exact .function hf
  · split at h
    · next c hc =>
      cases h
      exact .constant hc
    · cases h

theorem leads_of_beforeOperand (h : s.beforeOperand t = .ok r) (hs : s.focus = .operand) :
    Leads s.frames t r.frames r.focus := by
  cases t with
  | number text =>
    cases h
    exact .number text _
  | name n => exact leads_of_readName h
  | opening =>
    cases h
    exact .opening _
  | operator op =>
    cases op with
    | add =>
      cases h
      rw [hs]
      exact .operator .add
    | sub =>
      cases h
      rw [hs]
      exact .operator .sub
    | mul | div | pow => cases h
  | closing | percent => cases h

theorem leads_of_afterOperand {operand : Expr} (h : s.afterOperand operand t = .ok r) :
    Leads s.frames t r.frames r.focus := by
  cases t with
  | number text => cases h
  | percent => cases h
  | name n => exact leads_of_readName (s := s.push operand .mul) h
  | opening =>
    cases h
    exact .opening _
  | operator op =>
    cases h
    exact .operator op
  | closing =>
    simp only [afterOperand] at h
    split at h
    · cases h
    · next hframes =>
      cases h
      exact .closing hframes _

/-- **What a step does**, whatever has been read before. -/
theorem leads_of_step (h : s.step t = .ok r) : Leads s.frames t r.frames r.focus := by
  obtain ⟨frames, p, focus⟩ := s
  cases focus with
  | operand => exact leads_of_beforeOperand h rfl
  | call f =>
    cases t with
    | opening =>
      cases h
      exact .opening _
    | _ => cases h
  | numeral value =>
    by_cases ht : t = .percent
    · subst ht
      cases h
      exact .percent _
    · rw [step_of_shows (.numeral value) ht] at h
      exact leads_of_afterOperand h
  | value e => exact leads_of_afterOperand h

/-- After the last token of an operand, an operand has been read. -/
theorem Leads.exists_shows {frames outer : List Frame} {focus : Focus}
    (h : Leads frames t outer focus) (ht : t.endsOperand = true) : ∃ e, focus.Shows e := by
  cases h with
  | operator op | opening frame => cases ht
  | number text value => exact ⟨_, .numeral value⟩
  | percent e => exact ⟨e, .value e⟩
  | closing _ e => exact ⟨e, .value e⟩
  | function hf =>
    rw [Token.not_endsOperand_of_function hf] at ht
    cases ht
  | constant hc => exact ⟨_, .value _⟩

/-! ## The token that is refused -/

/-- Reading that fails has got to a token that is refused. -/
theorem exists_of_run_error (h : s.run tokens = .error f) :
    ∃ front t back r, tokens = front ++ t :: back ∧ s.run front = .ok r ∧ r.step t = .error f := by
  induction tokens generalizing s with
  | nil => cases h
  | cons t tokens ih =>
    rw [run] at h
    cases hstep : s.step t with
    | error g =>
      rw [hstep] at h
      cases h
      exact ⟨[], t, tokens, s, rfl, rfl, hstep⟩
    | ok next =>
      rw [hstep] at h
      obtain ⟨front, u, back, r, rfl, hrun, hrefused⟩ := ih h
      exact ⟨t :: front, u, back, r, rfl, (run_cons hstep front).trans hrun, hrefused⟩

theorem run_of_step_error {front : List Token} (hrun : s.run front = .ok r)
    (hstep : r.step t = .error f) (back : List Token) :
    s.run (front ++ t :: back) = .error f := by
  rw [run_append hrun, run, hstep]

/-- Tokens are read if the first one is and then the others are. -/
theorem run_cons_eq_ok : s.run (t :: tokens) = .ok r ↔
    ∃ next, s.step t = .ok next ∧ next.run tokens = .ok r := by
  rw [run]
  cases s.step t <;> simp

theorem run_concat {front : List Token} (hrun : s.run front = .ok r) (t : Token) :
    s.run (front ++ [t]) = r.step t := by
  rw [run_append hrun, run]
  cases r.step t <;> rfl

/-! ## Completion -/

/-- After an operand, closing parentheses complete the expression. -/
theorem exists_closings (frames : List Frame) (p : Pending) {focus : Focus} {operand : Expr}
    (h : focus.Shows operand) :
    ∃ back r e, run ⟨frames, p, focus⟩ back = .ok r ∧ r.finish = .ok e := by
  induction frames generalizing p focus operand with
  | nil =>
    refine ⟨[], _, p.whole operand, rfl, ?_⟩
    cases h with
    | numeral value => rfl
    | value e => rfl
  | cons frame frames ih =>
    have hclose : step ⟨frame :: frames, p, focus⟩ .closing =
        .ok ⟨frames, frame.outer, .value (frame.opener.close (p.whole operand))⟩ :=
      step_of_shows h (by simp)
    obtain ⟨back, r, e, hrun, hfinish⟩ := ih (p := frame.outer) (.value _)
    exact ⟨.closing :: back, r, e, (run_cons hclose back).trans hrun, hfinish⟩

/-- **Every state can be completed.** -/
theorem exists_completion (s : Reading) :
    ∃ back r e, s.run back = .ok r ∧ r.finish = .ok e := by
  obtain ⟨frames, p, focus⟩ := s
  cases focus with
  | operand =>
    obtain ⟨back, r, e, hrun, hfinish⟩ :=
      exists_closings frames p (.numeral (Numeral.unsignedValue ['1']))
    exact ⟨.number ['1'] :: back, r, e, hrun, hfinish⟩
  | call f =>
    obtain ⟨back, r, e, hrun, hfinish⟩ :=
      exists_closings (⟨.call f, p⟩ :: frames) {} (.numeral (Numeral.unsignedValue ['1']))
    exact ⟨.opening :: .number ['1'] :: back, r, e, hrun, hfinish⟩
  | numeral value => exact exists_closings frames p (.numeral value)
  | value e => exact exists_closings frames p (.value e)

end Reading

/-- An expression starts with the tokens. -/
def Viable (front : List Token) : Prop :=
  ∃ (back : List Token) (d : Phrase .expression), d.tokens = front ++ back

namespace Reading

/-- **Reading gets through the tokens with which an expression starts**, and no others. -/
theorem viable_iff {front : List Token} : Viable front ↔ ∃ r, run {} front = .ok r := by
  constructor
  · rintro ⟨back, d, htokens⟩
    have hread := d.ofTokens_tokens
    rw [htokens, Expr.ofTokens, run_append_bind] at hread
    obtain ⟨_, hread, -⟩ := bind_eq_ok.mp hread
    obtain ⟨r, hrun, -⟩ := bind_eq_ok.mp hread
    exact ⟨r, hrun⟩
  · rintro ⟨r, hrun⟩
    obtain ⟨back, r', e, hback, hfinish⟩ := r.exists_completion
    have hread : Expr.ofTokens (front ++ back) = .ok e := by
      rw [Expr.ofTokens, run_append hrun, hback]
      exact hfinish
    obtain ⟨d, htokens, -⟩ := Phrase.exists_of_ofTokens hread
    exact ⟨back, d, htokens⟩

/-- No expression goes on with a token that is refused. -/
theorem not_viable_concat_iff {front : List Token} {r : Reading} (hrun : run {} front = .ok r)
    (t : Token) : ¬ Viable (front ++ [t]) ↔ ∃ f, r.step t = .error f := by
  rw [viable_iff, run_concat hrun]
  cases r.step t <;> simp

end Reading

end Stepwise
