/-
# The failures of expressions

How the parts of the arithmetic solver can fail.  A text that is no expression is refused by its
form, an operation outside its domain by its operands, and a derivation only for one of these
reasons or for a number that is undefined.

* `Failure.Syntactic` : failures of texts that are no expressions;
* `failsOnly_ofChars` : reading fails only in this way;
* `failsOnly_reduceTo` : a derivation fails only as the operations do, or for want of a number;
* `Arithmetic.failsOnly_reduce_form`, `Arithmetic.failsOnly_reduce` : no failure of an arithmetic
  text is one of a solver.
-/
import Stepwise.Proofs.Problem.Outcome

namespace Stepwise

/-! ## Reading -/

/-- The text is refused for the form of an expression. -/
def Failure.Syntactic : Failure → Prop
  | .unmatchedParenthesis | .unmatchedInCall _ | .malformedCall _ | .invalidExpression
  | .unknownName _ => True
  | _ => False

theorem Failure.syntactic_invalidExpression : Failure.Syntactic .invalidExpression := trivial

open Failure (Syntactic syntactic_invalidExpression)

/-- A text that cannot be split into tokens is refused in one way only. -/
theorem failsOnly_scan (word : Token.Partial) (s : List Char) :
    FailsOnly (· = Failure.invalidExpression) (Token.scan word s) := by
  induction s generalizing word with
  | nil => exact .ok _
  | cons c s ih =>
    unfold Token.scan
    split
    · exact ih _
    · split
      · exact .error rfl
      · exact (ih _).bind fun rest _ => .ok _

namespace Reading

theorem syntactic_unclosed (opener : Opener) : Syntactic opener.unclosed := by
  cases opener with
  | parenthesis => trivial
  | call f => trivial

theorem syntactic_interrupted (s : Reading) : Syntactic s.interrupted := by
  unfold interrupted
  split
  · exact syntactic_invalidExpression
  · exact syntactic_unclosed _

theorem failsOnly_readName (s : Reading) (name : List Char) :
    FailsOnly Syntactic (s.readName name) := by
  unfold readName
  split
  · exact .ok _
  · split
    · exact .ok _
    · exact .error trivial

theorem failsOnly_beforeOperand (s : Reading) (token : Token) :
    FailsOnly Syntactic (s.beforeOperand token) := by
  cases token with
  | number text => exact .ok _
  | name text => exact failsOnly_readName s text
  | operator op =>
    cases op with
    | add => exact .ok _
    | sub => exact .ok _
    | mul => exact .error syntactic_invalidExpression
    | div => exact .error syntactic_invalidExpression
    | pow => exact .error syntactic_invalidExpression
  | opening => exact .ok _
  | closing => exact .error trivial
  | percent => exact .error syntactic_invalidExpression

theorem failsOnly_afterOperand (s : Reading) (operand : Expr) (token : Token) :
    FailsOnly Syntactic (s.afterOperand operand token) := by
  cases token with
  | number text => exact .error (syntactic_interrupted s)
  | name text => exact failsOnly_readName _ text
  | operator op => exact .ok _
  | opening => exact .ok _
  | closing =>
    simp only [afterOperand]
    split
    · exact .error trivial
    · exact .ok _
  | percent => exact .error (syntactic_interrupted s)

/-- One token is read, or refused for the form of the text. -/
theorem failsOnly_step (s : Reading) (token : Token) : FailsOnly Syntactic (s.step token) := by
  unfold step
  split
  · exact failsOnly_beforeOperand s token
  · split
    · exact .ok _
    · exact .error trivial
  · split
    · exact .ok _
    · exact failsOnly_afterOperand s _ token
  · exact failsOnly_afterOperand s _ token

theorem failsOnly_run (s : Reading) (tokens : List Token) : FailsOnly Syntactic (s.run tokens) := by
  induction tokens generalizing s with
  | nil => exact .ok s
  | cons token tokens ih =>
    unfold run
    split
    · exact ih _
    · next f hf =>
      exact .error (failsOnly_step s token f hf)

theorem failsOnly_finish (s : Reading) : FailsOnly Syntactic s.finish := by
  have hcomplete (operand : Expr) : FailsOnly Syntactic (s.complete operand) := by
    unfold complete
    split
    · exact .ok _
    · exact .error (syntactic_unclosed _)
  unfold finish
  split
  · exact .error syntactic_invalidExpression
  · exact .error trivial
  · exact hcomplete _
  · exact hcomplete _

end Reading

/-- **A text that is no expression is refused for its form.** -/
theorem failsOnly_ofChars (s : List Char) : FailsOnly Syntactic (Expr.ofChars s) := by
  have hscan : FailsOnly Syntactic (Token.ofChars s) := by
    refine (failsOnly_scan .none s).mono fun f hf => ?_
    rw [hf]
    exact syntactic_invalidExpression
  exact hscan.bind fun tokens _ =>
    (Reading.failsOnly_run {} tokens).bind fun state _ => state.failsOnly_finish

/-! ## Derivations -/

section Derivations

variable {ops : Operations} {P : Failure → Prop} (hundefined : P .invalidExpression)
  (hoperator : ∀ op x y, FailsOnly P (ops.operator op x y))
  (hfunction : ∀ f x, FailsOnly P (ops.function f x))

namespace Derivation

/-- If the derivation has stopped, then by a failure with the property. -/
def StopsOnly (P : Failure → Prop) (d : Derivation) : Prop := ∀ f, d.failure = some f → P f

variable {d : Derivation} {inner : Expr → Except Failure Reduced}

theorem StopsOnly.record (h : d.StopsOnly P) (tree : Expr) (reduction : Reduction) :
    (d.record tree reduction).StopsOnly P := h

theorem stopsOnly_stop {f : Failure} (h : P f) : (d.stop f).StopsOnly P := by
  rintro _ ⟨⟩
  exact h

include hfunction in
theorem StopsOnly.reduceCalls (h : d.StopsOnly P) (hinner : ∀ e, FailsOnly P (inner e))
    (fuel : Nat) : (d.reduceCalls ops inner fuel).StopsOnly P := by
  induction fuel generalizing d with
  | zero => exact h
  | succ fuel ih =>
    unfold Derivation.reduceCalls
    split
    · next i f argument _ =>
      cases hreduced : inner argument with
      | error failure => exact stopsOnly_stop (hinner argument failure hreduced)
      | ok reduced =>
        have h' : StopsOnly P
            (if reduced.trace.isEmpty then d else d.record d.tree (.argument f argument)) := by
          split
          · exact h
          · exact h.record _ _
        dsimp only
        generalize
          (if reduced.trace.isEmpty then d else d.record d.tree (.argument f argument)) = d' at h'
        cases hresult : ops.function f reduced.value with
        | error failure => exact stopsOnly_stop (hfunction f reduced.value failure hresult)
        | ok result => exact ih (h'.record _ _)
    · exact h

theorem StopsOnly.reduceGroups (h : d.StopsOnly P) (hinner : ∀ e, FailsOnly P (inner e))
    (fuel : Nat) : (d.reduceGroups inner fuel).StopsOnly P := by
  induction fuel generalizing d with
  | zero => exact h
  | succ fuel ih =>
    unfold Derivation.reduceGroups
    split
    · next i content _ =>
      cases hreduced : inner content with
      | error failure => exact stopsOnly_stop (hinner content failure hreduced)
      | ok reduced => exact ih (h.record _ _)
    · exact h

include hoperator in
theorem StopsOnly.reduceOperators (h : d.StopsOnly P) (operators : List Operator) (title : String)
    (fuel : Nat) : (d.reduceOperators ops operators title fuel).StopsOnly P := by
  induction fuel generalizing d with
  | zero => exact h
  | succ fuel ih =>
    unfold Derivation.reduceOperators
    split
    · next i op left right _ =>
      cases hresult : ops.operator op left right with
      | error failure => exact stopsOnly_stop (hoperator op left right failure hresult)
      | ok result => exact ih (h.record _ _)
    · exact h

include hoperator hfunction in
/-- A phase stops a derivation only as the operations and the inner derivations fail. -/
theorem StopsOnly.apply (h : d.StopsOnly P) (hinner : ∀ e, FailsOnly P (inner e)) (phase : Phase) :
    (phase.apply ops inner d).StopsOnly P := by
  have hunless {d' : Derivation} (h' : d'.StopsOnly P) :
      (if d.failure.isSome then d else d').StopsOnly P := by
    split
    · exact h
    · exact h'
  cases phase with
  | constants =>
    refine hunless ?_
    unfold evaluateConstants
    split
    · exact h.record _ _
    · exact h
  | percentages =>
    refine hunless ?_
    unfold expandPercentages
    split
    · exact h.record _ _
    · exact h
  | calls => exact hunless (h.reduceCalls hfunction hinner _)
  | groups => exact hunless (h.reduceGroups hinner _)
  | fold operators title => exact hunless (h.reduceOperators hoperator operators title _)

include hundefined in
theorem StopsOnly.conclude (h : d.StopsOnly P) : FailsOnly P d.conclude := by
  unfold Derivation.conclude
  split
  · next hf => exact .error (h _ hf)
  · split
    · exact .error hundefined
    · exact .ok _
  · exact .error hundefined

end Derivation

include hundefined hoperator hfunction

/-- **A derivation fails only as the operations do, or for want of a number.** -/
theorem Expr.failsOnly_reduceTo (depth : Nat) (e : Expr) :
    FailsOnly P (Expr.reduceTo ops depth e) := by
  induction depth generalizing e with
  | zero => exact .error hundefined
  | succ depth ih =>
    have hrun (phases : List Phase) {d : Derivation} (h : d.StopsOnly P) :
        (phases.foldl (Phase.apply ops (Expr.reduceTo ops depth)) d).StopsOnly P := by
      induction phases generalizing d with
      | nil => exact h
      | cons phase phases ihphases => exact ihphases (h.apply hoperator hfunction ih phase)
    have hstart : Derivation.StopsOnly P { tree := e } := by
      rintro _ ⟨⟩
    exact (hrun Phase.all hstart).conclude hundefined

end Derivations

/-! ## Operations -/

/-- An operator fails only outside its domain. -/
theorem Operator.failsOnly_apply (op : Operator) (x y : Double) :
    FailsOnly (fun f : Failure => f.kind = .domain) (op.apply x y) := by
  cases op with
  | add => exact .ok _
  | sub => exact .ok _
  | mul => exact .ok _
  | div => exact .ite (fun _ => .error rfl) fun _ => .ok _
  | pow =>
    simp only [apply]
    split
    · exact .ok _
    · exact .error rfl

theorem FunctionName.failsOnly_orUndefined (f : FunctionName) (x : Double) (y : Option Double) :
    FailsOnly (fun f : Failure => f.kind = .domain) (f.orUndefined x y) := by
  cases y with
  | none => exact .error rfl
  | some y => exact .ok y

/-- The failures of the factorial are failures of its domain. -/
theorem domain_of_factorial {limit : Int} {x : Double} {f : Failure}
    (h : factorial limit x = .error (.failure f)) : f.kind = .domain := by
  unfold factorial at h
  split at h
  · cases h
    rfl
  · split at h
    · cases h
      rfl
    · split at h
      · cases h
        rfl
      · split at h
        · cases h
        · cases h

/-- A function fails only outside its domain. -/
theorem FunctionName.failsOnly_apply (limit : Int) (f : FunctionName) (x : Double) :
    FailsOnly (fun f : Failure => f.kind = .domain) (f.apply limit x) := by
  cases f with
  | sin | cos | tan | asin | acos | sinh | cosh => exact failsOnly_orUndefined _ x _
  | atan | tanh | degtorad | radtodeg => exact .ok _
  | log | ln | sqrt => exact .ite (fun _ => .error rfl) fun _ => .ok _
  | fact =>
    simp only [apply]
    split
    · exact .ok _
    · next g hg => exact .error (domain_of_factorial hg)
    · exact .error rfl

/-! ## Arithmetic texts -/

/-- **An arithmetic text is refused for its form, for a number that is undefined or for a
domain.** -/
theorem Arithmetic.failsOnly_reduce_form (settings : Settings) (s : List Char) :
    FailsOnly (fun f : Failure => Syntactic f ∨ f.kind = .domain) (reduce settings s) := by
  refine ((failsOnly_ofChars s).mono fun f => Or.inl).bind fun e _ =>
    Expr.failsOnly_reduceTo (.inl syntactic_invalidExpression) ?_ ?_ 3 e
  · intro op x y
    exact (op.failsOnly_apply x y).mono fun f => Or.inr
  · intro f x
    exact (f.failsOnly_apply settings.maxFactorial x).mono fun f => Or.inr

/-- No arithmetic text is refused as a solver refuses a problem. -/
theorem Arithmetic.failsOnly_reduce (settings : Settings) (s : List Char) :
    FailsOnly (fun f : Failure => f.kind ≠ .solver) (reduce settings s) := by
  refine (failsOnly_reduce_form settings s).mono fun f hf => ?_
  rcases hf with hf | hf
  · cases f with
    | unmatchedParenthesis | unmatchedInCall | malformedCall | invalidExpression | unknownName =>
      simp [Failure.kind]
    | _ => exact absurd hf id
  · rw [hf]
    decide

end Stepwise
