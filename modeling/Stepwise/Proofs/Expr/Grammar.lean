/-
# The grammar of expressions

Derivations of the expression grammar as data, one constructor for each alternative:

* expression = term { sign term }
* term = factor { scale factor | power that starts with `(` or a name }
* factor = { sign } power
* power = primary { `^` exponent }
* exponent = { sign } primary
* primary = number [ `%` ] | constant | function `(` expression `)` | `(` expression `)`

A repetition in braces is a category of its own, the tail of a sum, a product or a power.

* `Phrase.tokens` : the tokens that a derivation spells;
* `Phrase.meaning` : the tree that it denotes, where the meaning of a tail still waits for the tree
  on its left;
* `Phrase.eq_of_tokens_eq` : no two derivations spell the same tokens.
-/
import Stepwise.Expr.Token

namespace Stepwise

/-! ## Names -/

/-- A function is found by its name and by nothing else. -/
theorem FunctionName.ofChars?_eq_some (s : List Char) (f : FunctionName) :
    FunctionName.ofChars? s = some f ↔ s = f.name.toList := by
  constructor
  · intro h
    have hname := List.find?_some h
    simpa using (beq_iff_eq.mp hname).symm
  · rintro rfl
    cases f <;> decide

/-- A constant is found by its name and by nothing else. -/
theorem ConstantName.ofChars?_eq_some (s : List Char) (c : ConstantName) :
    ConstantName.ofChars? s = some c ↔ s = c.name.toList := by
  constructor
  · intro h
    have hname := List.find?_some h
    simpa using (beq_iff_eq.mp hname).symm
  · rintro rfl
    cases c <;> decide

/-- No constant has the name of a function. -/
theorem ConstantName.name_ne_function (c : ConstantName) (f : FunctionName) :
    c.name.toList ≠ f.name.toList := by
  cases c <;> cases f <;> decide

/-- Functions are told apart by their names. -/
theorem FunctionName.name_injective {f g : FunctionName} (h : f.name.toList = g.name.toList) :
    f = g := by
  have hf := (FunctionName.ofChars?_eq_some _ f).mpr rfl
  rw [h, (FunctionName.ofChars?_eq_some _ g).mpr rfl] at hf
  exact (Option.some.inj hf).symm

/-- Constants are told apart by their names. -/
theorem ConstantName.name_injective {c d : ConstantName} (h : c.name.toList = d.name.toList) :
    c = d := by
  have hc := (ConstantName.ofChars?_eq_some _ c).mpr rfl
  rw [h, (ConstantName.ofChars?_eq_some _ d).mpr rfl] at hc
  exact (Option.some.inj hc).symm

/-! ## Derivations -/

/-- The signs, between terms as well as before factors and exponents. -/
inductive Sign where
  | plus | minus
  deriving DecidableEq

namespace Sign

/-- The operator that a sign between two terms stands for. -/
def operator : Sign → Operator
  | plus => .add
  | minus => .sub

theorem operator_injective {s t : Sign}
    (h : Token.operator s.operator = Token.operator t.operator) : s = t := by
  cases s <;> cases t <;> first | rfl | simp [operator] at h

/-- What a sign makes of the operand after it. -/
def apply : Sign → Expr → Expr
  | plus, e => e
  | minus, e => e.negate

end Sign

/-- The signs of multiplication and division. -/
inductive Scale where
  | times | divide
  deriving DecidableEq

/-- The operator that a multiplication or division sign stands for. -/
def Scale.operator : Scale → Operator
  | times => .mul
  | divide => .div

theorem Scale.operator_injective {s t : Scale}
    (h : Token.operator s.operator = Token.operator t.operator) : s = t := by
  cases s <;> cases t <;> first | rfl | simp [operator] at h

/-- The categories of the grammar.  For a power and a primary it is kept whether they start with an
opening parenthesis or a name. -/
inductive Category where
  | expression | sumTail
  | term | productTail
  | factor
  | power (opens : Bool) | powerTail
  | exponent
  | primary (opens : Bool)

/-- What a derivation denotes: a tree, or for a tail the tree that it makes of the one before it. -/
abbrev Category.Meaning : Category → Type
  | sumTail | productTail | powerTail => Expr → Expr
  | expression | term | factor | power _ | exponent | primary _ => Expr

/-- A derivation in the grammar. -/
inductive Phrase : Category → Type where
  | expression (first : Phrase .term) (rest : Phrase .sumTail) : Phrase .expression
  | endSum : Phrase .sumTail
  | sum (sign : Sign) (next : Phrase .term) (rest : Phrase .sumTail) : Phrase .sumTail
  | term (first : Phrase .factor) (rest : Phrase .productTail) : Phrase .term
  | endProduct : Phrase .productTail
  | product (scale : Scale) (next : Phrase .factor) (rest : Phrase .productTail) :
      Phrase .productTail
  | juxtaposition (next : Phrase (.power true)) (rest : Phrase .productTail) : Phrase .productTail
  | signed (sign : Sign) (operand : Phrase .factor) : Phrase .factor
  | factor {opens : Bool} (operand : Phrase (.power opens)) : Phrase .factor
  | power {opens : Bool} (base : Phrase (.primary opens)) (rest : Phrase .powerTail) :
      Phrase (.power opens)
  | endPower : Phrase .powerTail
  | raise (next : Phrase .exponent) (rest : Phrase .powerTail) : Phrase .powerTail
  | signedExponent (sign : Sign) (operand : Phrase .exponent) : Phrase .exponent
  | exponent {opens : Bool} (operand : Phrase (.primary opens)) : Phrase .exponent
  | number (text : List Char) : Phrase (.primary false)
  | percent (text : List Char) : Phrase (.primary false)
  | constant (name : ConstantName) : Phrase (.primary true)
  | call (f : FunctionName) (argument : Phrase .expression) : Phrase (.primary true)
  | group (inner : Phrase .expression) : Phrase (.primary true)

namespace Phrase

/-- The tokens that a derivation spells. -/
def tokens {c : Category} : Phrase c → List Token
  | expression first rest => first.tokens ++ rest.tokens
  | endSum => []
  | sum sign next rest => .operator sign.operator :: (next.tokens ++ rest.tokens)
  | term first rest => first.tokens ++ rest.tokens
  | endProduct => []
  | product scale next rest => .operator scale.operator :: (next.tokens ++ rest.tokens)
  | juxtaposition next rest => next.tokens ++ rest.tokens
  | signed sign operand => .operator sign.operator :: operand.tokens
  | factor operand => operand.tokens
  | power base rest => base.tokens ++ rest.tokens
  | endPower => []
  | raise next rest => .operator .pow :: (next.tokens ++ rest.tokens)
  | signedExponent sign operand => .operator sign.operator :: operand.tokens
  | exponent operand => operand.tokens
  | number text => [.number text]
  | percent text => [.number text, .percent]
  | constant name => [.name name.name.toList]
  | call f argument => .name f.name.toList :: .opening :: (argument.tokens ++ [.closing])
  | group inner => .opening :: (inner.tokens ++ [.closing])

attribute [simp] tokens

/-- What a derivation denotes.  Operators associate to the left, juxtaposition is multiplication,
and a minus before a number belongs to the number. -/
def meaning {c : Category} : Phrase c → c.Meaning
  | expression first rest => rest.meaning first.meaning
  | endSum => fun left => left
  | sum sign next rest => fun left => rest.meaning (.binary sign.operator left next.meaning)
  | term first rest => rest.meaning first.meaning
  | endProduct => fun left => left
  | product scale next rest => fun left => rest.meaning (.binary scale.operator left next.meaning)
  | juxtaposition next rest => fun left => rest.meaning (.binary .mul left next.meaning)
  | signed sign operand => sign.apply operand.meaning
  | factor operand => operand.meaning
  | power base rest => rest.meaning base.meaning
  | endPower => fun left => left
  | raise next rest => fun left => rest.meaning (.binary .pow left next.meaning)
  | signedExponent sign operand => sign.apply operand.meaning
  | exponent operand => operand.meaning
  | number text => .literal (Numeral.unsignedValue text)
  | percent text => .percent (Numeral.unsignedValue text)
  | constant name => .constant name
  | call f argument => .call f argument.meaning
  | group inner => .group inner.meaning

/-- The tree of a whole expression. -/
def tree (d : Phrase .expression) : Expr := d.meaning

end Phrase

/-! ## First tokens -/

namespace Token

/-- A name or an opening parenthesis, at which a factor can start without an operator. -/
def opens : Token → Bool
  | name _ | opening => true
  | _ => false

/-- How loosely a token ties what follows it to the operand before it: percent signs, powers,
products and sums in this order, and last the tokens that cannot follow within an expression. -/
def looseness : Token → Nat
  | percent => 0
  | operator .pow => 1
  | operator .mul | operator .div | opening | name _ => 2
  | operator .add | operator .sub => 3
  | closing | number _ => 4

@[simp] theorem looseness_sign (s : Sign) : (operator s.operator).looseness = 3 := by
  cases s <;> rfl

@[simp] theorem looseness_scale (s : Scale) : (operator s.operator).looseness = 2 := by
  cases s <;> rfl

theorem looseness_of_opens {t : Token} (h : t.opens = true) : t.looseness = 2 := by
  cases t <;> simp_all [opens, looseness]

end Token

/-- The greatest looseness of a token that can still belong to a phrase after its first operand. -/
def Category.reach : Category → Nat
  | primary _ | exponent => 0
  | power _ | powerTail | factor => 1
  | term | productTail => 2
  | expression | sumTail => 3

/-- The tokens do not go on with a phrase of the category. -/
def Category.Stops (c : Category) (tokens : List Token) : Prop :=
  ∀ t ∈ tokens.head?, c.reach < t.looseness

namespace Category

theorem stops_cons {c : Category} {t : Token} {rest : List Token} :
    c.Stops (t :: rest) ↔ c.reach < t.looseness := by
  simp [Stops]

/-- What stops a phrase stops every phrase that reaches less far. -/
theorem Stops.mono {c d : Category} {tokens : List Token} (h : c.Stops tokens)
    (hreach : d.reach ≤ c.reach) : d.Stops tokens :=
  fun t ht => Nat.lt_of_le_of_lt hreach (h t ht)

end Category

namespace Phrase

/-- A primary starts with a number, a name or an opening parenthesis. -/
theorem head_primary {b : Bool} (d : Phrase (.primary b)) :
    ∃ t rest, d.tokens = t :: rest ∧ t.opens = b ∧ ∀ op, t ≠ .operator op := by
  cases d with
  | number text => exact ⟨_, _, rfl, rfl, by simp⟩
  | percent text => exact ⟨_, _, rfl, rfl, by simp⟩
  | constant name => exact ⟨_, _, rfl, rfl, by simp⟩
  | call f argument => exact ⟨_, _, rfl, rfl, by simp⟩
  | group inner => exact ⟨_, _, rfl, rfl, by simp⟩

/-- A power starts like its base. -/
theorem head_power {b : Bool} (d : Phrase (.power b)) :
    ∃ t rest, d.tokens = t :: rest ∧ t.opens = b ∧ ∀ op, t ≠ .operator op := by
  cases d with
  | power base rest =>
    obtain ⟨t, more, htokens, hopens, hoperator⟩ := head_primary base
    exact ⟨t, more ++ rest.tokens, by rw [tokens, htokens, List.cons_append], hopens, hoperator⟩

/-- The exponents of a power do not go on with its base. -/
theorem stops_powerTail (d : Phrase .powerTail) {rest : List Token}
    (h : Category.powerTail.Stops rest) (b : Bool) :
    (Category.primary b).Stops (d.tokens ++ rest) := by
  cases d with
  | endPower => exact h.mono (by decide : (0 : Nat) ≤ 1)
  | raise next more => exact Category.stops_cons.mpr (by decide : (0 : Nat) < 1)

/-- The further factors of a product do not go on with its first power. -/
theorem stops_productTail (d : Phrase .productTail) {rest : List Token}
    (h : Category.productTail.Stops rest) : Category.factor.Stops (d.tokens ++ rest) := by
  cases d with
  | endProduct => exact h.mono (by decide : (1 : Nat) ≤ 2)
  | product scale next more =>
    refine Category.stops_cons.mpr ?_
    rw [Token.looseness_scale]
    decide
  | juxtaposition next more =>
    obtain ⟨t, first, htokens, hopens, -⟩ := head_power next
    rw [tokens, htokens]
    refine Category.stops_cons.mpr ?_
    rw [Token.looseness_of_opens hopens]
    decide

/-- The further terms of a sum do not go on with its first product. -/
theorem stops_sumTail (d : Phrase .sumTail) {rest : List Token}
    (h : Category.sumTail.Stops rest) : Category.term.Stops (d.tokens ++ rest) := by
  cases d with
  | endSum => exact h.mono (by decide : (2 : Nat) ≤ 3)
  | sum sign next more =>
    refine Category.stops_cons.mpr ?_
    rw [Token.looseness_sign]
    decide

/-- A closing parenthesis stops every phrase. -/
theorem stops_closing (c : Category) (rest : List Token) : c.Stops (.closing :: rest) := by
  refine Category.stops_cons.mpr ?_
  cases c <;> simp [Category.reach, Token.looseness]

/-! ## Clashes -/

variable {rest rest' : List Token} {b b' : Bool}

/-- Another term goes on with a sum. -/
theorem not_stops_sum {s : Sign} {next : Phrase .term} {more : Phrase .sumTail}
    (heq : rest = (sum s next more).tokens ++ rest') : ¬ Category.sumTail.Stops rest := by
  rw [heq, tokens, List.cons_append, Category.stops_cons, Token.looseness_sign]
  decide

/-- Another factor goes on with a product. -/
theorem not_stops_product {s : Scale} {next : Phrase .factor} {more : Phrase .productTail}
    (heq : rest = (product s next more).tokens ++ rest') : ¬ Category.productTail.Stops rest := by
  rw [heq, tokens, List.cons_append, Category.stops_cons, Token.looseness_scale]
  decide

/-- A juxtaposed power goes on with a product. -/
theorem not_stops_juxtaposition {next : Phrase (.power true)} {more : Phrase .productTail}
    (heq : rest = (juxtaposition next more).tokens ++ rest') :
    ¬ Category.productTail.Stops rest := by
  obtain ⟨t, first, htokens, hopens, -⟩ := head_power next
  rw [heq, tokens, htokens, List.cons_append, List.cons_append, Category.stops_cons,
    Token.looseness_of_opens hopens]
  decide

/-- Another exponent goes on with a power. -/
theorem not_stops_raise {next : Phrase .exponent} {more : Phrase .powerTail}
    (heq : rest = (raise next more).tokens ++ rest') : ¬ Category.powerTail.Stops rest := by
  rw [heq, tokens, List.cons_append, Category.stops_cons]
  decide

/-- A percent sign goes on with a number. -/
theorem not_stops_percent (heq : rest = .percent :: rest') :
    ¬ (Category.primary b).Stops rest := by
  rw [heq, Category.stops_cons]
  exact Nat.not_lt_zero _

/-- No operator is at the start of a primary. -/
theorem tokens_primary_ne (d : Phrase (.primary b)) (op : Operator) :
    d.tokens ++ rest ≠ .operator op :: rest' := by
  obtain ⟨t, more, htokens, -, hoperator⟩ := head_primary d
  rw [htokens]
  intro heq
  exact hoperator op (List.cons.inj heq).1

/-- No operator is at the start of a power. -/
theorem tokens_power_ne (d : Phrase (.power b)) (op : Operator) :
    d.tokens ++ rest ≠ .operator op :: rest' := by
  cases d with
  | power base more =>
    rw [tokens, List.append_assoc]
    exact tokens_primary_ne base op

/-- The first token tells whether a primary can be juxtaposed. -/
theorem opens_primary_eq (d : Phrase (.primary b)) (d' : Phrase (.primary b'))
    (heq : d.tokens ++ rest = d'.tokens ++ rest') : b = b' := by
  obtain ⟨t, more, htokens, hopens, -⟩ := head_primary d
  obtain ⟨t', more', htokens', hopens', -⟩ := head_primary d'
  rw [htokens, htokens'] at heq
  rw [← hopens, ← hopens', (List.cons.inj heq).1]

/-- The first token tells whether a power can be juxtaposed. -/
theorem opens_power_eq (d : Phrase (.power b)) (d' : Phrase (.power b'))
    (heq : d.tokens ++ rest = d'.tokens ++ rest') : b = b' := by
  cases d with
  | power base more =>
    cases d' with
    | power base' more' =>
      rw [tokens, tokens, List.append_assoc, List.append_assoc] at heq
      exact opens_primary_eq base base' heq

/-! ## Unique reading -/

/-- **Two derivations of one category that spell the start of the same tokens are the same**, if
neither could have gone on.  The induction is on the first derivation; at each place one token
decides the alternative that the second one has to take. -/
theorem eq_of_tokens_append {c : Category} (d : Phrase c) :
    ∀ (d' : Phrase c) {rest rest' : List Token}, c.Stops rest → c.Stops rest' →
      d.tokens ++ rest = d'.tokens ++ rest' → d = d' ∧ rest = rest' := by
  induction d with
  | expression first more ihFirst ihMore =>
    intro d' rest rest' h h' heq
    cases d' with
    | expression first' more' =>
      simp only [tokens, List.append_assoc] at heq
      obtain ⟨rfl, htail⟩ :=
        ihFirst first' (stops_sumTail more h) (stops_sumTail more' h') heq
      obtain ⟨rfl, hrest⟩ := ihMore more' h h' htail
      exact ⟨rfl, hrest⟩
  | endSum =>
    intro d' rest rest' h h' heq
    cases d' with
    | endSum => exact ⟨rfl, heq⟩
    | sum sign next more => exact absurd h (not_stops_sum heq)
  | sum sign next more ihNext ihMore =>
    intro d' rest rest' h h' heq
    cases d' with
    | endSum => exact absurd h' (not_stops_sum heq.symm)
    | sum sign' next' more' =>
      simp only [tokens, List.cons_append, List.append_assoc, List.cons.injEq] at heq
      obtain ⟨hsign, htail⟩ := heq
      obtain rfl := Sign.operator_injective hsign
      obtain ⟨rfl, hmore⟩ :=
        ihNext next' (stops_sumTail more h) (stops_sumTail more' h') htail
      obtain ⟨rfl, hrest⟩ := ihMore more' h h' hmore
      exact ⟨rfl, hrest⟩
  | term first more ihFirst ihMore =>
    intro d' rest rest' h h' heq
    cases d' with
    | term first' more' =>
      simp only [tokens, List.append_assoc] at heq
      obtain ⟨rfl, htail⟩ :=
        ihFirst first' (stops_productTail more h) (stops_productTail more' h') heq
      obtain ⟨rfl, hrest⟩ := ihMore more' h h' htail
      exact ⟨rfl, hrest⟩
  | endProduct =>
    intro d' rest rest' h h' heq
    cases d' with
    | endProduct => exact ⟨rfl, heq⟩
    | product scale next more => exact absurd h (not_stops_product heq)
    | juxtaposition next more => exact absurd h (not_stops_juxtaposition heq)
  | product scale next more ihNext ihMore =>
    intro d' rest rest' h h' heq
    cases d' with
    | endProduct => exact absurd h' (not_stops_product heq.symm)
    | product scale' next' more' =>
      simp only [tokens, List.cons_append, List.append_assoc, List.cons.injEq] at heq
      obtain ⟨hscale, htail⟩ := heq
      obtain rfl := Scale.operator_injective hscale
      obtain ⟨rfl, hmore⟩ :=
        ihNext next' (stops_productTail more h) (stops_productTail more' h') htail
      obtain ⟨rfl, hrest⟩ := ihMore more' h h' hmore
      exact ⟨rfl, hrest⟩
    | juxtaposition next' more' =>
      simp only [tokens, List.append_assoc] at heq
      exact absurd heq.symm (tokens_power_ne next' _)
  | juxtaposition next more ihNext ihMore =>
    intro d' rest rest' h h' heq
    cases d' with
    | endProduct => exact absurd h' (not_stops_juxtaposition heq.symm)
    | product scale' next' more' =>
      simp only [tokens, List.append_assoc] at heq
      exact absurd heq (tokens_power_ne next _)
    | juxtaposition next' more' =>
      simp only [tokens, List.append_assoc] at heq
      obtain ⟨rfl, htail⟩ :=
        ihNext next' (stops_productTail more h) (stops_productTail more' h') heq
      obtain ⟨rfl, hrest⟩ := ihMore more' h h' htail
      exact ⟨rfl, hrest⟩
  | signed sign operand ih =>
    intro d' rest rest' h h' heq
    cases d' with
    | signed sign' operand' =>
      simp only [tokens, List.cons_append, List.cons.injEq] at heq
      obtain ⟨hsign, htail⟩ := heq
      obtain rfl := Sign.operator_injective hsign
      obtain ⟨rfl, hrest⟩ := ih operand' h h' htail
      exact ⟨rfl, hrest⟩
    | factor operand' => exact absurd heq.symm (tokens_power_ne operand' _)
  | factor operand ih =>
    intro d' rest rest' h h' heq
    cases d' with
    | signed sign' operand' => exact absurd heq (tokens_power_ne operand _)
    | factor operand' =>
      -- The categories of the powers have to agree before the powers can be compared.
      obtain rfl := opens_power_eq operand operand' heq
      obtain ⟨rfl, hrest⟩ := ih operand' h h' heq
      exact ⟨rfl, hrest⟩
  | power base more ihBase ihMore =>
    intro d' rest rest' h h' heq
    cases d' with
    | power base' more' =>
      simp only [tokens, List.append_assoc] at heq
      obtain ⟨rfl, htail⟩ :=
        ihBase base' (stops_powerTail more h _) (stops_powerTail more' h' _) heq
      obtain ⟨rfl, hrest⟩ := ihMore more' h h' htail
      exact ⟨rfl, hrest⟩
  | endPower =>
    intro d' rest rest' h h' heq
    cases d' with
    | endPower => exact ⟨rfl, heq⟩
    | raise next more => exact absurd h (not_stops_raise heq)
  | raise next more ihNext ihMore =>
    intro d' rest rest' h h' heq
    cases d' with
    | endPower => exact absurd h' (not_stops_raise heq.symm)
    | raise next' more' =>
      simp only [tokens, List.cons_append, List.append_assoc, List.cons.injEq, true_and] at heq
      obtain ⟨rfl, htail⟩ :=
        ihNext next' (stops_powerTail more h false) (stops_powerTail more' h' false) heq
      obtain ⟨rfl, hrest⟩ := ihMore more' h h' htail
      exact ⟨rfl, hrest⟩
  | signedExponent sign operand ih =>
    intro d' rest rest' h h' heq
    cases d' with
    | signedExponent sign' operand' =>
      simp only [tokens, List.cons_append, List.cons.injEq] at heq
      obtain ⟨hsign, htail⟩ := heq
      obtain rfl := Sign.operator_injective hsign
      obtain ⟨rfl, hrest⟩ := ih operand' h h' htail
      exact ⟨rfl, hrest⟩
    | exponent operand' => exact absurd heq.symm (tokens_primary_ne operand' _)
  | exponent operand ih =>
    intro d' rest rest' h h' heq
    cases d' with
    | signedExponent sign' operand' => exact absurd heq (tokens_primary_ne operand _)
    | exponent operand' =>
      obtain rfl := opens_primary_eq operand operand' heq
      obtain ⟨rfl, hrest⟩ := ih operand' h h' heq
      exact ⟨rfl, hrest⟩
  | number text =>
    intro d' rest rest' h h' heq
    cases d' with
    | number text' =>
      simp only [tokens, List.cons_append, List.cons.injEq, Token.number.injEq] at heq
      obtain ⟨rfl, hrest⟩ := heq
      exact ⟨rfl, hrest⟩
    | percent text' =>
      simp only [tokens, List.cons_append, List.nil_append, List.cons.injEq] at heq
      exact absurd h (not_stops_percent heq.2)
  | percent text =>
    intro d' rest rest' h h' heq
    cases d' with
    | number text' =>
      simp only [tokens, List.cons_append, List.nil_append, List.cons.injEq] at heq
      exact absurd h' (not_stops_percent heq.2.symm)
    | percent text' =>
      simp only [tokens, List.cons_append, List.cons.injEq, Token.number.injEq] at heq
      obtain ⟨rfl, -, hrest⟩ := heq
      exact ⟨rfl, hrest⟩
  | constant name =>
    intro d' rest rest' h h' heq
    cases d' with
    | constant name' =>
      simp only [tokens, List.cons_append, List.cons.injEq, Token.name.injEq] at heq
      obtain ⟨hname, hrest⟩ := heq
      obtain rfl := ConstantName.name_injective hname
      exact ⟨rfl, hrest⟩
    | call f argument =>
      simp only [tokens, List.cons_append, List.cons.injEq, Token.name.injEq] at heq
      -- The names of constants and of functions are different.
      exact absurd heq.1 (name.name_ne_function f)
    | group inner => simp [tokens] at heq
  | call f argument ih =>
    intro d' rest rest' h h' heq
    cases d' with
    | constant name =>
      simp only [tokens, List.cons_append, List.cons.injEq, Token.name.injEq] at heq
      exact absurd heq.1.symm (name.name_ne_function f)
    | call f' argument' =>
      simp only [tokens, List.cons_append, List.append_assoc, List.cons.injEq, Token.name.injEq,
        true_and] at heq
      obtain ⟨hname, htail⟩ := heq
      obtain rfl := FunctionName.name_injective hname
      obtain ⟨rfl, hrest⟩ := ih argument' (stops_closing _ _) (stops_closing _ _) htail
      exact ⟨rfl, (List.cons.inj hrest).2⟩
    | group inner => simp [tokens] at heq
  | group inner ih =>
    intro d' rest rest' h h' heq
    cases d' with
    | constant name => simp [tokens] at heq
    | call f argument => simp [tokens] at heq
    | group inner' =>
      simp only [tokens, List.cons_append, List.append_assoc, List.cons.injEq, true_and] at heq
      obtain ⟨rfl, hrest⟩ := ih inner' (stops_closing _ _) (stops_closing _ _) heq
      exact ⟨rfl, (List.cons.inj hrest).2⟩

/-- No two derivations spell the same tokens. -/
theorem eq_of_tokens_eq {c : Category} {d d' : Phrase c} (h : d.tokens = d'.tokens) : d = d' := by
  have hstops : c.Stops [] := by simp [Category.Stops]
  refine (eq_of_tokens_append d d' hstops hstops ?_).1
  rw [h]

end Phrase

end Stepwise
