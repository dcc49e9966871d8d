/-
# Expressions with marks

A mark stands for a number that is still to be given.  Reading treats a number in parentheses like a
mark in their place, whatever the number is: the state after it differs in nothing else.

The mark is the literal of the undefined number, which no text spells.  A sign before a number is
folded into it, so that marks may not be operands by themselves while a text is read; they never
are, as they stand inside of parentheses.

* `Expr.fill` : the expression with a number in place of the marks;
* `Reading.step_fill` : one token is read alike before and after marks are filled;
* `Reading.exists_run_fill` : a run over tokens and marks;
* `Expr.exists_ofTokens_fill` : one expression with marks, or one failure.
-/
import Stepwise.Proofs.Double.Defined
import Stepwise.Proofs.Expr.Reading

namespace Stepwise

/-! ## Filling marks -/

/-- The literal that stands for a number to be given. -/
def Expr.mark : Expr := .literal .nan

/-- The expression with a number in place of the marks. -/
def Expr.fill (x : Double) : Expr → Expr
  | literal v => literal (if v.isNaN then x else v)
  | constant name => constant name
  | percent v => percent v
  | negation operand => negation (operand.fill x)
  | binary op left right => binary op (left.fill x) (right.fill x)
  | call f argument => call f (argument.fill x)
  | group inner => group (inner.fill x)

/-- What waits on the left, filled. -/
def Pending.fill (x : Double) (p : Pending) : Pending :=
  { p with
    sum := p.sum.map fun waiting => (waiting.1.fill x, waiting.2)
    product := p.product.map fun waiting => (waiting.1.fill x, waiting.2)
    base := p.base.map (Expr.fill x) }

/-- An open parenthesis, filled. -/
def Frame.fill (x : Double) (frame : Frame) : Frame := { frame with outer := frame.outer.fill x }

/-- What has just been read, filled. -/
def Focus.fill (x : Double) : Focus → Focus
  | .value e => .value (e.fill x)
  | focus => focus

/-- A state of reading, filled. -/
def Reading.fill (x : Double) (s : Reading) : Reading where
  frames := s.frames.map (Frame.fill x)
  pending := s.pending.fill x
  focus := s.focus.fill x

/-- No mark has just been read by itself. -/
def Focus.Unmarked : Focus → Prop
  | .operand => True
  | .call _ => True
  | .numeral v => v.isNaN = false
  | .value e => e ≠ .mark

/-! ## Operands -/

namespace Expr

variable {x : Double} {e : Expr}

theorem fill_mark : mark.fill x = literal x := rfl

theorem fill_literal {v : Double} (h : v.isNaN = false) : (literal v).fill x = literal v := by
  rw [fill, h]
  rfl

theorem literal_ne_mark {v : Double} (h : v.isNaN = false) : literal v ≠ mark := by
  intro heq
  rw [literal.inj heq] at h
  cases h

theorem isNaN_of_literal_ne {v : Double} (h : literal v ≠ mark) : v.isNaN = false := by
  cases v with
  | nan => exact absurd rfl h
  | infinity negative | finite negative m e hc => rfl

theorem negate_ne_mark (h : e ≠ mark) : e.negate ≠ mark := by
  cases e with
  | literal v => exact literal_ne_mark ((Double.isNaN_neg v).trans (isNaN_of_literal_ne h))
  | constant name | percent v | negation operand | binary op left right | call f argument
  | group inner => exact Expr.noConfusion

theorem fill_negate (h : e ≠ mark) : e.negate.fill x = (e.fill x).negate := by
  cases e with
  | literal v =>
    have hv := isNaN_of_literal_ne h
    rw [fill_literal hv, negate, fill_literal ((Double.isNaN_neg v).trans hv)]
  | constant name | percent v | negation operand | binary op left right | call f argument
  | group inner => rfl

theorem negateTimes_ne_mark (h : e ≠ mark) (n : Nat) : e.negateTimes n ≠ mark := by
  induction n with
  | zero => exact h
  | succ n ih => exact negate_ne_mark ih

theorem fill_negateTimes (h : e ≠ mark) (n : Nat) :
    (e.negateTimes n).fill x = (e.fill x).negateTimes n := by
  induction n with
  | zero => rfl
  | succ n ih => rw [negateTimes, fill_negate (negateTimes_ne_mark h n), ih, negateTimes]

end Expr

namespace Pending

variable {x : Double} {e : Expr}

theorem power_ne_mark (p : Pending) (h : e ≠ .mark) : p.power e ≠ .mark := by
  rw [power]
  cases p.base with
  | none => exact h
  | some base => exact Expr.noConfusion

theorem fill_power (p : Pending) (h : e ≠ .mark) :
    (p.power e).fill x = (p.fill x).power (e.fill x) := by
  rw [power, power, fill]
  cases p.base with
  | none => rfl
  | some base => simp only [Option.map_some, Expr.fill, Expr.fill_negateTimes h]

theorem fill_factor (p : Pending) (h : e ≠ .mark) :
    (p.factor e).fill x = (p.fill x).factor (e.fill x) := by
  rw [factor, factor, Expr.fill_negateTimes (p.power_ne_mark h), fill_power p h]
  rfl

theorem fill_term (p : Pending) (h : e ≠ .mark) :
    (p.term e).fill x = (p.fill x).term (e.fill x) := by
  have hfactor := fill_factor (x := x) p h
  obtain ⟨sum, product, negations, base, exponentNegations⟩ := p
  cases product with
  | none => exact hfactor
  | some waiting => exact congrArg (Expr.binary _ _) hfactor

theorem fill_whole (p : Pending) (h : e ≠ .mark) :
    (p.whole e).fill x = (p.fill x).whole (e.fill x) := by
  have hterm := fill_term (x := x) p h
  obtain ⟨sum, product, negations, base, exponentNegations⟩ := p
  cases sum with
  | none => exact hterm
  | some waiting => exact congrArg (Expr.binary _ _) hterm

theorem fill_push (p : Pending) (h : e ≠ .mark) (op : Operator) :
    (p.push e op).fill x = (p.fill x).push (e.fill x) op := by
  cases op with
  | pow =>
    rw [push, push, ← fill_power p h]
    rfl
  | mul | div =>
    rw [push, push, ← fill_term p h]
    rfl
  | add | sub =>
    rw [push, push, ← fill_whole p h]
    rfl

theorem fill_minus (p : Pending) : p.minus.fill x = (p.fill x).minus := by
  obtain ⟨sum, product, negations, base, exponentNegations⟩ := p
  cases base <;> rfl

end Pending

/-! ## One token -/

namespace Reading

variable {x : Double} {s : Reading} {e : Expr}

theorem fill_close (opener : Opener) (e : Expr) :
    (opener.close e).fill x = opener.close (e.fill x) := by
  cases opener <;> rfl

theorem close_ne_mark (opener : Opener) (e : Expr) : opener.close e ≠ .mark := by
  cases opener <;> exact Expr.noConfusion

theorem fill_reading_push (s : Reading) (h : e ≠ .mark) (op : Operator) :
    (s.push e op).fill x = (s.fill x).push (e.fill x) op := by
  simp only [push, fill, Pending.fill_push _ h]
  rfl

theorem readName_fill (s : Reading) (name : List Char) :
    (s.fill x).readName name = (s.readName name).map (Reading.fill x) := by
  rw [readName, readName]
  cases FunctionName.ofChars? name with
  | some f => rfl
  | none => cases ConstantName.ofChars? name <;> rfl

theorem beforeOperand_fill (s : Reading) (t : Token) :
    (s.fill x).beforeOperand t = (s.beforeOperand t).map (Reading.fill x) := by
  cases t with
  | name text => exact readName_fill s text
  | operator op =>
    cases op with
    | sub =>
      simp only [beforeOperand, Except.map, fill, Pending.fill_minus]
    | add | mul | div | pow => rfl
  | number text | opening | closing | percent => rfl

theorem afterOperand_fill (s : Reading) (t : Token) (h : e ≠ .mark) :
    (s.fill x).afterOperand (e.fill x) t = (s.afterOperand e t).map (Reading.fill x) := by
  cases t with
  | operator op => exact congrArg Except.ok (fill_reading_push s h op).symm
  | name text =>
    rw [afterOperand, afterOperand, ← fill_reading_push s h]
    exact readName_fill _ text
  | opening =>
    rw [afterOperand, afterOperand, ← fill_reading_push s h]
    rfl
  | closing =>
    obtain ⟨frames, p, focus⟩ := s
    cases frames with
    | nil => rfl
    | cons frame frames =>
      have hclose := fill_close (x := x) frame.opener (p.whole e)
      rw [Pending.fill_whole p h] at hclose
      simp only [afterOperand, Except.map, fill, Focus.fill, hclose]
      rfl
  | number text | percent =>
    obtain ⟨frames, p, focus⟩ := s
    cases frames <;> rfl

/-- **One token is read alike before and after marks are filled.** -/
theorem step_fill (h : s.focus.Unmarked) (t : Token) :
    (s.fill x).step t = (s.step t).map (Reading.fill x) := by
  obtain ⟨frames, p, focus⟩ := s
  cases focus with
  | operand => exact beforeOperand_fill _ t
  | call f => cases t <;> rfl
  | numeral v =>
    have hafter := afterOperand_fill (x := x) ⟨frames, p, .numeral v⟩ t (Expr.literal_ne_mark h)
    rw [Expr.fill_literal h] at hafter
    cases t with
    | percent => rfl
    | number text | name text | operator op | opening | closing => exact hafter
  | value e => exact afterOperand_fill ⟨frames, p, .value e⟩ t h

theorem unmarked_readName {r : Reading} {name : List Char} (h : s.readName name = .ok r) :
    r.focus.Unmarked := by
  rw [readName] at h
  split at h
  · cases h
    trivial
  · split at h
    · cases h
      exact Expr.noConfusion
    · cases h

theorem unmarked_afterOperand {r : Reading} {t : Token} (h : s.afterOperand e t = .ok r) :
    r.focus.Unmarked := by
  cases t with
  | name text => exact unmarked_readName h
  | operator op | opening =>
    cases h
    trivial
  | closing =>
    rw [afterOperand] at h
    split at h
    · cases h
    · cases h
      exact close_ne_mark _ _
  | number text | percent => cases h

/-- No token puts a mark by itself. -/
theorem unmarked_step {r : Reading} {t : Token} (h : s.focus.Unmarked) (hstep : s.step t = .ok r) :
    r.focus.Unmarked := by
  obtain ⟨frames, p, focus⟩ := s
  cases focus with
  | operand =>
    cases t with
    | name text => exact unmarked_readName hstep
    | number text =>
      cases hstep
      exact Numeral.isNaN_unsignedValue text
    | opening =>
      cases hstep
      trivial
    | operator op =>
      cases op with
      | add | sub =>
        cases hstep
        trivial
      | mul | div | pow => cases hstep
    | closing | percent => cases hstep
  | call f =>
    cases t with
    | opening =>
      cases hstep
      trivial
    | number text | name text | operator op | closing | percent => cases hstep
  | numeral v =>
    by_cases ht : t = .percent
    · subst ht
      cases hstep
      exact Expr.noConfusion
    · rw [step_of_shows (.numeral v) ht] at hstep
      exact unmarked_afterOperand hstep
  | value e => exact unmarked_afterOperand hstep

/-! ## A number in parentheses -/

/-- A parenthesis can be opened in every state. -/
theorem exists_step_opening (s : Reading) : ∃ opener outer,
    s.step .opening = .ok ⟨⟨opener, outer⟩ :: s.frames, {}, .operand⟩ := by
  obtain ⟨frames, p, focus⟩ := s
  cases focus with
  | operand => exact ⟨.parenthesis, p, rfl⟩
  | call f => exact ⟨.call f, p, rfl⟩
  | numeral v => exact ⟨.parenthesis, p.push (.literal v) .mul, rfl⟩
  | value e => exact ⟨.parenthesis, p.push e .mul, rfl⟩

/-- **A number in parentheses is read like a mark in parentheses**, whatever the number is. -/
theorem exists_run_parenthesised (h : s.focus.Unmarked) : ∃ next : Reading,
    next.focus.Unmarked ∧ ∀ (x : Double) (d : Phrase .expression), d.meaning = .literal x →
      (s.fill x).run (.opening :: (d.tokens ++ [.closing])) = .ok (next.fill x) := by
  obtain ⟨opener, outer, hopening⟩ := s.exists_step_opening
  refine ⟨⟨s.frames, outer, .value (opener.close .mark)⟩, close_ne_mark opener .mark, ?_⟩
  intro x d hmeaning
  have hstep : (s.fill x).step .opening =
      .ok ⟨⟨opener, outer.fill x⟩ :: s.frames.map (Frame.fill x), {}, .operand⟩ := by
    rw [step_fill h, hopening]
    rfl
  obtain ⟨q, operand, hreads, hwhole⟩ :=
    d.accepted (⟨opener, outer.fill x⟩ :: s.frames.map (Frame.fill x))
  rw [run_cons hstep, hreads.close, hwhole, hmeaning, ← Expr.fill_mark, ← fill_close]
  rfl

end Reading

/-! ## Runs over tokens and marks -/

/-- A token, or a number in parentheses in place of a mark. -/
def Token.insert (number : List Token) : Option Token → List Token
  | some token => [token]
  | none => .opening :: (number ++ [.closing])

namespace Reading

variable {s : Reading}

/-- **A run over tokens and marks**: it leads to one state or to one failure, whatever number is put
in place of the marks. -/
theorem exists_run_fill (h : s.focus.Unmarked) (pieces : List (Option Token)) :
    ∃ r : Except Failure Reading, (∀ next, r = .ok next → next.focus.Unmarked) ∧
      ∀ (x : Double) (d : Phrase .expression), d.meaning = .literal x →
        (s.fill x).run (pieces.flatMap (Token.insert d.tokens)) = r.map (Reading.fill x) := by
  induction pieces generalizing s with
  | nil =>
    refine ⟨.ok s, ?_, fun x d hmeaning => rfl⟩
    rintro next ⟨⟩
    exact h
  | cons piece pieces ih =>
    cases piece with
    | none =>
      obtain ⟨next, hnext, hrun⟩ := exists_run_parenthesised h
      obtain ⟨r, hr, hrest⟩ := ih hnext
      refine ⟨r, hr, fun x d hmeaning => ?_⟩
      rw [List.flatMap_cons, ← hrest x d hmeaning]
      exact run_append (hrun x d hmeaning) _
    | some token =>
      cases hstep : s.step token with
      | error f =>
        refine ⟨.error f, ?_, fun x d hmeaning => ?_⟩
        · rintro next ⟨⟩
        · have hfill := step_fill (x := x) h token
          rw [hstep] at hfill
          rw [List.flatMap_cons, Token.insert, List.singleton_append, run, hfill]
          rfl
      | ok next =>
        obtain ⟨r, hr, hrest⟩ := ih (unmarked_step h hstep)
        refine ⟨r, hr, fun x d hmeaning => ?_⟩
        have hfill := step_fill (x := x) h token
        rw [hstep] at hfill
        rw [List.flatMap_cons, Token.insert, List.singleton_append, run_cons hfill]
        exact hrest x d hmeaning

theorem finish_fill (h : s.focus.Unmarked) (x : Double) :
    (s.fill x).finish = s.finish.map (Expr.fill x) := by
  have hcomplete {e : Expr} (he : e ≠ .mark) :
      (s.fill x).complete (e.fill x) = (s.complete e).map (Expr.fill x) := by
    obtain ⟨frames, p, focus⟩ := s
    cases frames with
    | nil => exact congrArg Except.ok (Pending.fill_whole p he).symm
    | cons frame frames => rfl
  obtain ⟨frames, p, focus⟩ := s
  cases focus with
  | operand | call f => rfl
  | numeral v =>
    have hliteral := hcomplete (Expr.literal_ne_mark h)
    rw [Expr.fill_literal h] at hliteral
    exact hliteral
  | value e => exact hcomplete h

end Reading

/-- **Tokens and marks are read as one expression with marks, or fail with one failure.** -/
theorem Expr.exists_ofTokens_fill (pieces : List (Option Token)) : ∃ r : Except Failure Expr,
    ∀ (x : Double) (d : Phrase .expression), d.meaning = .literal x →
      Expr.ofTokens (pieces.flatMap (Token.insert d.tokens)) = r.map (Expr.fill x) := by
  obtain ⟨run, hunmarked, hrun⟩ :=
    Reading.exists_run_fill (s := {}) (show Focus.Unmarked .operand from trivial) pieces
  refine ⟨run >>= Reading.finish, fun x d hmeaning => ?_⟩
  have hstart : Reading.run {} (pieces.flatMap (Token.insert d.tokens)) =
      run.map (Reading.fill x) := hrun x d hmeaning
  rw [Expr.ofTokens, hstart]
  cases run with
  | error f => rfl
  | ok s => exact Reading.finish_fill (hunmarked s rfl) x

end Stepwise
