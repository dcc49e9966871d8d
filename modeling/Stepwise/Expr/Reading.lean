/-
# Reading expressions

Tokens are read one at a time, each turning the state of reading into the next.  The state holds
one frame for each parenthesis that is still open, the operands that wait for their operator's
other side, and what may come next.

Operators bind in three tiers, `^` before `*` and `/` before `+` and `-`, all to the left.  A sign
before a factor applies after its powers, so `-2^2` is `-4`; a sign in an exponent applies to the
exponent alone.  A number, a closing parenthesis, a percent sign or a constant followed by an
opening parenthesis or a name is a product.

Main definitions: `Reading.step`, `Expr.ofTokens`, `Expr.ofChars`, `Expr.read`.
-/
import Stepwise.Expr.Token

namespace Stepwise

/-! ## States -/

/-- What waits on the left of an operand inside one pair of parentheses. -/
structure Pending where
  /-- The left side of a sum or difference. -/
  sum : Option (Expr × Operator) := none
  /-- The left side of a product or quotient. -/
  product : Option (Expr × Operator) := none
  /-- The minus signs before the factor. -/
  negations : Nat := 0
  /-- The base of a power. -/
  base : Option Expr := none
  /-- The minus signs before the exponent. -/
  exponentNegations : Nat := 0

namespace Pending

/-- The power that ends with an operand. -/
def power (p : Pending) (operand : Expr) : Expr :=
  match p.base with
  | none => operand
  | some base => .binary .pow base (operand.negateTimes p.exponentNegations)

/-- The factor that ends with an operand. -/
def factor (p : Pending) (operand : Expr) : Expr := (p.power operand).negateTimes p.negations

/-- The product that ends with an operand. -/
def term (p : Pending) (operand : Expr) : Expr :=
  match p.product with
  | none => p.factor operand
  | some (left, op) => .binary op left (p.factor operand)

/-- The sum that ends with an operand. -/
def whole (p : Pending) (operand : Expr) : Expr :=
  match p.sum with
  | none => p.term operand
  | some (left, op) => .binary op left (p.term operand)

/-- What waits after an operand and an operator. -/
def push (p : Pending) (operand : Expr) : Operator → Pending
  | .pow => { p with base := some (p.power operand), exponentNegations := 0 }
  | .mul => { sum := p.sum, product := some (p.term operand, .mul) }
  | .div => { sum := p.sum, product := some (p.term operand, .div) }
  | .add => { sum := some (p.whole operand, .add) }
  | .sub => { sum := some (p.whole operand, .sub) }

/-- What waits after one more minus sign. -/
def minus (p : Pending) : Pending :=
  if p.base.isSome then { p with exponentNegations := p.exponentNegations + 1 }
  else { p with negations := p.negations + 1 }

end Pending

/-- What an opening parenthesis belongs to. -/
inductive Opener where
  | parenthesis
  | call (f : FunctionName)

namespace Opener

/-- The expression that the closing parenthesis completes. -/
def close : Opener → Expr → Expr
  | parenthesis, inner => .group inner
  | call f, argument => .call f argument

/-- The failure when the closing parenthesis is missing. -/
def unclosed : Opener → Failure
  | parenthesis => .unmatchedParenthesis
  | call f => .unmatchedInCall f

end Opener

/-- An open parenthesis, with what waits on its left. -/
structure Frame where
  opener : Opener
  outer : Pending

/-- What has just been read. -/
inductive Focus where
  /-- An operand has to follow, possibly after signs. -/
  | operand
  /-- The opening parenthesis of a call has to follow. -/
  | call (f : FunctionName)
  /-- A number has been read, and may turn out to be a percentage. -/
  | numeral (value : Double)
  /-- An operand has been read. -/
  | value (e : Expr)

/-- The state of reading; the innermost frame comes first. -/
structure Reading where
  frames : List Frame := []
  pending : Pending := {}
  focus : Focus := .operand

namespace Reading

/-! ## Steps -/

/-- Opens a parenthesis. -/
def openWith (s : Reading) (opener : Opener) : Reading :=
  { frames := ⟨opener, s.pending⟩ :: s.frames }

/-- Takes a name as an operand. -/
def readName (s : Reading) (name : List Char) : Except Failure Reading :=
  match FunctionName.ofChars? name with
  | some f => .ok { s with focus := .call f }
  | none =>
    match ConstantName.ofChars? name with
    | some c => .ok { s with focus := .value (.constant c) }
    | none => .error (.unknownName name)

/-- Reads a token where an operand has to follow. -/
def beforeOperand (s : Reading) : Token → Except Failure Reading
  | .number text => .ok { s with focus := .numeral (Numeral.unsignedValue text) }
  | .name text => s.readName text
  | .opening => .ok (s.openWith .parenthesis)
  | .operator .add => .ok s
  | .operator .sub => .ok { s with pending := s.pending.minus }
  | .operator _ => .error .invalidExpression
  | .closing => .error .unmatchedParenthesis
  | .percent => .error .invalidExpression

/-- The state after an operand and an operator. -/
def push (s : Reading) (operand : Expr) (op : Operator) : Reading :=
  { s with pending := s.pending.push operand op, focus := .operand }

/-- The failure when something follows an operand that cannot. -/
def interrupted (s : Reading) : Failure :=
  match s.frames with
  | [] => .invalidExpression
  | frame :: _ => frame.opener.unclosed

/-- Reads a token after an operand. -/
def afterOperand (s : Reading) (operand : Expr) : Token → Except Failure Reading
  | .operator op => .ok (s.push operand op)
  | .name text => (s.push operand .mul).readName text
  | .opening => .ok ((s.push operand .mul).openWith .parenthesis)
  | .closing =>
    match s.frames with
    | [] => .error .unmatchedParenthesis
    | frame :: frames =>
      .ok ⟨frames, frame.outer, .value (frame.opener.close (s.pending.whole operand))⟩
  | .number _ => .error s.interrupted
  | .percent => .error s.interrupted

/-- Reads one token. -/
def step (s : Reading) (token : Token) : Except Failure Reading :=
  match s.focus with
  | .operand => s.beforeOperand token
  | .call f =>
    match token with
    | .opening => .ok (s.openWith (.call f))
    | _ => .error (.malformedCall f)
  | .numeral value =>
    match token with
    | .percent => .ok { s with focus := .value (.percent value) }
    | token => s.afterOperand (.literal value) token
  | .value e => s.afterOperand e token

/-- Reads tokens one after the other. -/
def run (s : Reading) : List Token → Except Failure Reading
  | [] => .ok s
  | token :: tokens =>
    match s.step token with
    | .ok next => next.run tokens
    | .error f => .error f

/-- The whole expression, once a last operand has been read. -/
def complete (s : Reading) (operand : Expr) : Except Failure Expr :=
  match s.frames with
  | [] => .ok (s.pending.whole operand)
  | frame :: _ => .error frame.opener.unclosed

/-- The expression at the end of the tokens. -/
def finish (s : Reading) : Except Failure Expr :=
  match s.focus with
  | .operand => .error .invalidExpression
  | .call f => .error (.malformedCall f)
  | .numeral value => s.complete (.literal value)
  | .value e => s.complete e

end Reading

/-! ## Whole texts -/

namespace Expr

/-- The expression that tokens spell. -/
def ofTokens (tokens : List Token) : Except Failure Expr := do
  let s ← Reading.run {} tokens
  s.finish

/-- The expression that a list of characters spells. -/
def ofChars (s : List Char) : Except Failure Expr := do
  let tokens ← Token.ofChars s
  ofTokens tokens

/-- The expression that a text spells. -/
def read (s : String) : Except Failure Expr := ofChars s.toList

end Expr

end Stepwise
