/-
# Reading is the grammar

The reader accepts exactly the token lists that the grammar derives, and returns the tree that the
derivation denotes.

* `Phrase.accepted` : what a derivation spells is read, with its meaning as the result;
* `Reading.Completes` : what may still come in a state of reading, in terms of derivations;
* `Reading.completes_of_run` : what is read to the end completes the state it started from.
-/
import Stepwise.Expr.Reading
import Stepwise.Proofs.Expr.Grammar

namespace Stepwise

/-! ## Pending operands -/

/-- The operand joined to what waits on its left. -/
def attach : Option (Expr × Operator) → Expr → Expr
  | none, operand => operand
  | some (left, op), operand => .binary op left operand

namespace Pending

theorem term_eq_attach (p : Pending) (operand : Expr) :
    p.term operand = attach p.product ((p.power operand).negateTimes p.negations) := by
  rw [term, factor]
  cases p.product <;> rfl

theorem whole_eq_attach (p : Pending) (operand : Expr) :
    p.whole operand = attach p.sum (p.term operand) := by
  rw [whole]
  cases p.sum <;> rfl

theorem power_of_base_none {p : Pending} (h : p.base = none) (operand : Expr) :
    p.power operand = operand := by
  rw [power, h]

theorem power_of_base_some {p : Pending} {b : Expr} (h : p.base = some b)
    (operand : Expr) :
    p.power operand = .binary .pow b (operand.negateTimes p.exponentNegations) := by
  rw [power, h]

end Pending

/-- A sign inside of counted ones is one more of them. -/
theorem Expr.negateTimes_negate (n : Nat) (e : Expr) :
    e.negate.negateTimes n = e.negateTimes (n + 1) := by
  induction n with
  | zero => rfl
  | succ n ih => rw [negateTimes, ih, negateTimes, negateTimes, negateTimes]

/-! ## What a derivation spells is read -/

/-- The operand that has just been read. -/
inductive Focus.Shows : Focus → Expr → Prop where
  | numeral (value : Double) : Shows (.numeral value) (.literal value)
  | value (e : Expr) : Shows (.value e) e

namespace Reading

/-- After an operand, every token but a percent sign is read in the same way, whether or not the
operand was a number. -/
theorem step_of_shows {frames : List Frame} {p : Pending} {focus : Focus} {e : Expr}
    (h : focus.Shows e) {t : Token} (ht : t ≠ .percent) :
    step ⟨frames, p, focus⟩ t = afterOperand ⟨frames, p, focus⟩ e t := by
  cases h with
  | numeral value => cases t <;> first | rfl | exact absurd rfl ht
  | value e => rfl

theorem step_sign {frames : List Frame} {p : Pending} {focus : Focus} {e : Expr}
    (h : focus.Shows e) (s : Sign) :
    step ⟨frames, p, focus⟩ (.operator s.operator)
      = .ok ⟨frames, { sum := some (p.whole e, s.operator) }, .operand⟩ := by
  rw [step_of_shows h (by simp)]
  cases s <;> rfl

theorem step_scale {frames : List Frame} {p : Pending} {focus : Focus} {e : Expr}
    (h : focus.Shows e) (s : Scale) :
    step ⟨frames, p, focus⟩ (.operator s.operator)
      = .ok ⟨frames, { sum := p.sum, product := some (p.term e, s.operator) }, .operand⟩ := by
  rw [step_of_shows h (by simp)]
  cases s <;> rfl

/-- A product without a sign starts like one with it. -/
theorem afterOperand_of_opens (s : Reading) (e : Expr) {t : Token} (h : t.opens = true) :
    s.afterOperand e t = (s.push e .mul).step t := by
  cases t <;> first | rfl | simp [Token.opens] at h

/-- What comes after the first tokens is read from the state that they lead to. -/
theorem run_append_bind (s : Reading) (front rest : List Token) :
    s.run (front ++ rest) = s.run front >>= fun r => r.run rest := by
  induction front generalizing s with
  | nil => rfl
  | cons t front ih =>
    rw [List.cons_append, run, run]
    cases s.step t with
    | error f => rfl
    | ok next => exact ih next

theorem run_append {s r : Reading} {front : List Token} (h : s.run front = .ok r)
    (rest : List Token) : s.run (front ++ rest) = r.run rest := by
  rw [run_append_bind, h]
  rfl

theorem run_cons {s r : Reading} {t : Token} (h : s.step t = .ok r) (rest : List Token) :
    s.run (t :: rest) = r.run rest := by
  rw [run, h]

/-- The tokens are read up to an operand, inside the same parentheses. -/
def Reads (s : Reading) (tokens : List Token) (p : Pending) (operand : Expr) : Prop :=
  ∃ focus : Focus, focus.Shows operand ∧ s.run tokens = .ok ⟨s.frames, p, focus⟩

theorem Reads.refl {frames : List Frame} {p : Pending} {focus : Focus} {e : Expr}
    (h : focus.Shows e) : Reads ⟨frames, p, focus⟩ [] p e :=
  ⟨focus, h, rfl⟩

theorem Reads.append {s : Reading} {front rest : List Token} {p q : Pending} {focus : Focus}
    {e : Expr} (hrun : s.run front = .ok ⟨s.frames, p, focus⟩)
    (h : Reads ⟨s.frames, p, focus⟩ rest q e) : s.Reads (front ++ rest) q e := by
  obtain ⟨focus', hshows, hrun'⟩ := h
  exact ⟨focus', hshows, (run_append hrun rest).trans hrun'⟩

theorem Reads.cons {s r : Reading} {t : Token} {rest : List Token} {p : Pending} {e : Expr}
    (hstep : s.step t = .ok r) (hframes : r.frames = s.frames) (h : r.Reads rest p e) :
    s.Reads (t :: rest) p e := by
  obtain ⟨focus, hshows, hrun⟩ := h
  exact ⟨focus, hshows, by rw [run_cons hstep, hrun, hframes]⟩

/-- An expression between parentheses is read as one operand. -/
theorem Reads.close {opener : Opener} {outer p : Pending} {frames : List Frame}
    {tokens : List Token} {e : Expr}
    (h : Reads ⟨⟨opener, outer⟩ :: frames, {}, .operand⟩ tokens p e) :
    run ⟨⟨opener, outer⟩ :: frames, {}, .operand⟩ (tokens ++ [.closing])
      = .ok ⟨frames, outer, .value (opener.close (p.whole e))⟩ := by
  obtain ⟨focus, hshows, hrun⟩ := h
  have hstep : step ⟨⟨opener, outer⟩ :: frames, p, focus⟩ .closing =
      afterOperand ⟨⟨opener, outer⟩ :: frames, p, focus⟩ e .closing :=
    step_of_shows hshows (by simp)
  rw [run_append hrun, run_cons (hstep.trans rfl)]
  rfl

end Reading

open Reading

/-- The same operands waiting, but for the base of a power and the signs of its exponent. -/
def Pending.onBase (p : Pending) (base : Option Expr) (n : Nat) : Pending :=
  { p with base := base, exponentNegations := n }

/-- What it means for a category that its tokens are read with a given result. -/
def Category.Accepts : (c : Category) → List Token → c.Meaning → Prop
  | primary _, tokens, e => ∀ frames p, Reads ⟨frames, p, .operand⟩ tokens p e
  | exponent, tokens, e => ∀ frames (p : Pending) base, ∃ n operand,
      Reads ⟨frames, p.onBase (some base) p.exponentNegations, .operand⟩ tokens
        (p.onBase (some base) n) operand ∧
        operand.negateTimes n = e.negateTimes p.exponentNegations
  | powerTail, tokens, extend => ∀ frames (p : Pending) focus operand,
      Focus.Shows focus operand → ∃ base n operand',
        Reads ⟨frames, p, focus⟩ tokens (p.onBase base n) operand' ∧
        (p.onBase base n).power operand' = extend (p.power operand)
  | power _, tokens, e => ∀ frames (p : Pending), p.base = none → ∃ base n operand,
      Reads ⟨frames, p, .operand⟩ tokens (p.onBase base n) operand ∧
        (p.onBase base n).power operand = e
  | factor, tokens, e => ∀ frames (p : Pending), p.base = none → ∃ q operand,
      Reads ⟨frames, p, .operand⟩ tokens q operand ∧ q.sum = p.sum ∧ q.product = p.product ∧
        q.factor operand = e.negateTimes p.negations
  | productTail, tokens, extend => ∀ frames (p : Pending) focus operand,
      Focus.Shows focus operand → ∃ q operand',
        Reads ⟨frames, p, focus⟩ tokens q operand' ∧ q.sum = p.sum ∧
        q.term operand' = extend (p.term operand)
  | term, tokens, e => ∀ frames sum, ∃ q operand,
      Reads ⟨frames, { sum := sum }, .operand⟩ tokens q operand ∧ q.sum = sum ∧
        q.term operand = e
  | sumTail, tokens, extend => ∀ frames (p : Pending) focus operand,
      Focus.Shows focus operand → ∃ q operand',
        Reads ⟨frames, p, focus⟩ tokens q operand' ∧
        q.whole operand' = extend (p.whole operand)
  | expression, tokens, e => ∀ frames, ∃ q operand,
      Reads ⟨frames, {}, .operand⟩ tokens q operand ∧ q.whole operand = e

namespace Phrase

/-- A power that follows an operand without an operator is read like one after `*`. -/
theorem reads_juxtaposed {next : Phrase (.power true)} {frames : List Frame} {p q : Pending}
    {focus : Focus} {e e' : Expr} (h : focus.Shows e)
    (hreads : Reads ⟨frames, p.push e .mul, .operand⟩ next.tokens q e') :
    Reads ⟨frames, p, focus⟩ next.tokens q e' := by
  obtain ⟨focus', hshows, hrun⟩ := hreads
  obtain ⟨t, rest, htokens, hopens, -⟩ := head_power next
  refine ⟨focus', hshows, ?_⟩
  have hstep : step ⟨frames, p, focus⟩ t = step ⟨frames, p.push e .mul, .operand⟩ t := by
    rw [step_of_shows h (by rintro rfl; simp [Token.opens] at hopens)]
    exact afterOperand_of_opens _ _ hopens
  rw [htokens, run] at hrun ⊢
  rw [hstep]
  exact hrun

/-- **The reader accepts what a derivation spells and finds its meaning.** -/
theorem accepted {c : Category} (d : Phrase c) : c.Accepts d.tokens d.meaning := by
  induction d with
  | number text =>
    intro frames p
    exact .cons rfl rfl (.refl (.numeral _))
  | percent text =>
    intro frames p
    exact .cons rfl rfl (.cons rfl rfl (.refl (.value _)))
  | constant name =>
    intro frames p
    -- No constant has the name of a function, which is looked up first.
    have hf : FunctionName.ofChars? name.name.toList = none := by
      cases name <;> decide
    have hc := (ConstantName.ofChars?_eq_some _ name).mpr rfl
    refine .cons (r := ⟨frames, p, .value (.constant name)⟩) ?_ rfl (.refl (.value _))
    simp only [step, beforeOperand, readName, hf, hc]
  | call f argument ih =>
    intro frames p
    have hf := (FunctionName.ofChars?_eq_some _ f).mpr rfl
    obtain ⟨q, operand, hreads, hwhole⟩ := ih (⟨.call f, p⟩ :: frames)
    refine .cons (r := ⟨frames, p, .call f⟩) ?_ rfl ⟨_, .value _, ?_⟩
    · simp only [step, beforeOperand, readName, hf]
    · rw [run_cons (r := ⟨⟨.call f, p⟩ :: frames, {}, .operand⟩) rfl, hreads.close, hwhole]
      rfl
  | group inner ih =>
    intro frames p
    obtain ⟨q, operand, hreads, hwhole⟩ := ih (⟨.parenthesis, p⟩ :: frames)
    refine ⟨_, .value _, ?_⟩
    rw [tokens, run_cons (r := ⟨⟨.parenthesis, p⟩ :: frames, {}, .operand⟩) rfl, hreads.close,
      hwhole]
    rfl
  | exponent operand ih =>
    intro frames p base
    exact ⟨p.exponentNegations, operand.meaning, ih frames _, rfl⟩
  | signedExponent sign operand ih =>
    intro frames p base
    cases sign with
    | plus =>
      obtain ⟨n, e, hreads, hnegate⟩ := ih frames p base
      exact ⟨n, e, .cons rfl rfl hreads, hnegate⟩
    | minus =>
      obtain ⟨n, e, hreads, hnegate⟩ :=
        ih frames (p.onBase p.base (p.exponentNegations + 1)) base
      exact ⟨n, e, .cons rfl rfl hreads, hnegate.trans (Expr.negateTimes_negate _ _).symm⟩
  | endPower =>
    intro frames p focus operand h
    exact ⟨p.base, p.exponentNegations, operand, .refl h, rfl⟩
  | raise next more ihNext ihMore =>
    intro frames p focus operand h
    -- What was the power so far is the base that waits while the exponent is read, and the first
    -- operand of the exponents after it.
    obtain ⟨n, e, ⟨focus', hshows, hrun⟩, hnegate⟩ :=
      ihNext frames (p.onBase none 0) (p.power operand)
    obtain ⟨base, m, e', hreads, hpower⟩ :=
      ihMore frames (p.onBase (some (p.power operand)) n) focus' e hshows
    have hstep : step ⟨frames, p, focus⟩ (.operator .pow)
        = .ok ⟨frames, p.onBase (some (p.power operand)) 0, .operand⟩ :=
      (step_of_shows h (by simp)).trans rfl
    refine ⟨base, m, e', .cons hstep rfl (.append hrun hreads), hpower.trans ?_⟩
    rw [Pending.power_of_base_some (b := p.power operand) rfl]
    exact congrArg (fun e => more.meaning (.binary .pow (p.power operand) e)) hnegate
  | power base more ihBase ihMore =>
    intro frames p hp
    obtain ⟨focus, hshows, hrun⟩ := ihBase frames p
    obtain ⟨b, n, e, hreads, hpower⟩ := ihMore frames p focus _ hshows
    refine ⟨b, n, e, .append hrun hreads, hpower.trans ?_⟩
    rw [Pending.power_of_base_none hp]
    rfl
  | factor operand ih =>
    intro frames p hp
    obtain ⟨base, n, e, hreads, hpower⟩ := ih frames p hp
    exact ⟨_, e, hreads, rfl, rfl, congrArg (Expr.negateTimes p.negations) hpower⟩
  | signed sign operand ih =>
    intro frames p hp
    cases sign with
    | plus =>
      obtain ⟨q, e, hreads, hsum, hproduct, hfactor⟩ := ih frames p hp
      exact ⟨q, e, .cons rfl rfl hreads, hsum, hproduct, hfactor⟩
    | minus =>
      obtain ⟨q, e, hreads, hsum, hproduct, hfactor⟩ :=
        ih frames { p with negations := p.negations + 1 } hp
      have hstep : step ⟨frames, p, .operand⟩ (.operator .sub)
          = .ok ⟨frames, { p with negations := p.negations + 1 }, .operand⟩ := by
        simp [step, beforeOperand, Pending.minus, hp]
      exact ⟨q, e, .cons hstep rfl hreads, hsum, hproduct,
        hfactor.trans (Expr.negateTimes_negate _ _).symm⟩
  | endProduct =>
    intro frames p focus operand h
    exact ⟨p, operand, .refl h, rfl, rfl⟩
  | product scale next more ihNext ihMore =>
    intro frames p focus operand h
    obtain ⟨q, e, ⟨focus', hshows, hrun⟩, hsum, hproduct, hfactor⟩ :=
      ihNext frames { sum := p.sum, product := some (p.term operand, scale.operator) } rfl
    obtain ⟨q', e', hreads, hsum', hterm⟩ := ihMore frames q focus' e hshows
    refine ⟨q', e', .cons (step_scale h scale) rfl (.append hrun hreads), hsum'.trans hsum,
      hterm.trans ?_⟩
    rw [Pending.term, hproduct, hfactor]
    rfl
  | juxtaposition next more ihNext ihMore =>
    intro frames p focus operand h
    -- The state is the one after a multiplication sign, without the sign.
    obtain ⟨base, n, e, hnext, hpower⟩ := ihNext frames (p.push operand .mul) rfl
    obtain ⟨focus', hshows, hrun⟩ := reads_juxtaposed h hnext
    obtain ⟨q', e', hreads, hsum', hterm⟩ := ihMore frames _ focus' e hshows
    refine ⟨q', e', .append hrun hreads, hsum', hterm.trans ?_⟩
    rw [Pending.term_eq_attach, hpower]
    rfl
  | term first more ihFirst ihMore =>
    intro frames sum
    obtain ⟨q, e, ⟨focus, hshows, hrun⟩, hsum, hproduct, hfactor⟩ :=
      ihFirst frames { sum := sum } rfl
    obtain ⟨q', e', hreads, hsum', hterm⟩ := ihMore frames q focus e hshows
    refine ⟨q', e', .append hrun hreads, hsum'.trans hsum, hterm.trans ?_⟩
    rw [Pending.term, hproduct, hfactor]
    rfl
  | endSum =>
    intro frames p focus operand h
    exact ⟨p, operand, .refl h, rfl⟩
  | sum sign next more ihNext ihMore =>
    intro frames p focus operand h
    obtain ⟨q, e, ⟨focus', hshows, hrun⟩, hsum, hterm⟩ :=
      ihNext frames (some (p.whole operand, sign.operator))
    obtain ⟨q', e', hreads, hwhole⟩ := ihMore frames q focus' e hshows
    refine ⟨q', e', .cons (step_sign h sign) rfl (.append hrun hreads), hwhole.trans ?_⟩
    rw [Pending.whole, hsum, hterm]
    rfl
  | expression first more ihFirst ihMore =>
    intro frames
    obtain ⟨q, e, ⟨focus, hshows, hrun⟩, hsum, hterm⟩ := ihFirst frames none
    obtain ⟨q', e', hreads, hwhole⟩ := ihMore frames q focus e hshows
    refine ⟨q', e', .append hrun hreads, hwhole.trans ?_⟩
    rw [Pending.whole, hsum, hterm]
    rfl

/-- The tokens of a derivation of the whole grammar are read as its tree. -/
theorem ofTokens_tokens (d : Phrase .expression) : Expr.ofTokens d.tokens = .ok d.tree := by
  obtain ⟨q, e, ⟨focus, hshows, hrun⟩, hwhole⟩ := d.accepted []
  have hfinish : finish ⟨[], q, focus⟩ = .ok (q.whole e) := by
    cases hshows <;> rfl
  rw [Expr.ofTokens, hrun]
  exact hfinish.trans (congrArg Except.ok hwhole)

end Phrase

namespace Reading

/-! ## What is read completes a derivation -/

variable {close : Expr → List Token → Expr → Prop} {frames : List Frame} {p : Pending}

/-- After a term, more terms of its sum come and then what `close` asks for. -/
def AfterTerm (close : Expr → List Token → Expr → Prop) (p : Pending) (term : Expr)
    (tokens : List Token) (e : Expr) : Prop :=
  ∃ (more : Phrase .sumTail) (rest : List Token),
    tokens = more.tokens ++ rest ∧ close (more.meaning (attach p.sum term)) rest e

/-- After a factor, more factors of its term come first. -/
def AfterFactor (close : Expr → List Token → Expr → Prop) (p : Pending) (factor : Expr)
    (tokens : List Token) (e : Expr) : Prop :=
  ∃ (more : Phrase .productTail) (rest : List Token),
    tokens = more.tokens ++ rest ∧
      AfterTerm close p (more.meaning (attach p.product factor)) rest e

/-- After the base of a power, its exponents come first. -/
def AfterPower (close : Expr → List Token → Expr → Prop) (p : Pending) (power : Expr)
    (tokens : List Token) (e : Expr) : Prop :=
  ∃ (more : Phrase .powerTail) (rest : List Token),
    tokens = more.tokens ++ rest ∧
      AfterFactor close p ((more.meaning power).negateTimes p.negations) rest e

/-- After the content of the open parentheses, each of them is closed and becomes an operand of the
next one, and nothing is left in the end. -/
def Closes : List Frame → Expr → List Token → Expr → Prop
  | [], whole, tokens, e => tokens = [] ∧ e = whole
  | frame :: frames, whole, tokens, e => ∃ rest, tokens = .closing :: rest ∧
      AfterPower (Closes frames) frame.outer (frame.outer.power (frame.opener.close whole)) rest e

/-- The tokens complete what has been read to an expression. -/
def Completes (s : Reading) (tokens : List Token) (e : Expr) : Prop :=
  match s.focus with
  | .value operand => AfterPower (Closes s.frames) s.pending (s.pending.power operand) tokens e
  | .numeral value =>
    AfterPower (Closes s.frames) s.pending (s.pending.power (.literal value)) tokens e ∨
      ∃ rest, tokens = .percent :: rest ∧
        AfterPower (Closes s.frames) s.pending (s.pending.power (.percent value)) rest e
  | .call f => ∃ (argument : Phrase .expression) (rest : List Token),
      tokens = .opening :: (argument.tokens ++ .closing :: rest) ∧
        AfterPower (Closes s.frames) s.pending (s.pending.power (.call f argument.tree)) rest e
  | .operand =>
    match s.pending.base with
    | none => ∃ (first : Phrase .factor) (rest : List Token), tokens = first.tokens ++ rest ∧
        AfterFactor (Closes s.frames) s.pending (first.meaning.negateTimes s.pending.negations)
          rest e
    | some base => ∃ (first : Phrase .exponent) (rest : List Token),
        tokens = first.tokens ++ rest ∧
          AfterPower (Closes s.frames) s.pending
            (.binary .pow base (first.meaning.negateTimes s.pending.exponentNegations)) rest e

/-- A primary can stand where an operand has to follow. -/
theorem completes_primary {b : Bool} (d : Phrase (.primary b)) {rest : List Token} {e : Expr}
    (h : AfterPower (Closes frames) p (p.power d.meaning) rest e) :
    Completes ⟨frames, p, .operand⟩ (d.tokens ++ rest) e := by
  rw [Completes]
  cases hbase : p.base with
  | none =>
    obtain ⟨more, rest, rfl, hfactor⟩ := h
    rw [Pending.power_of_base_none hbase] at hfactor
    exact ⟨.factor (.power d more), rest, (List.append_assoc _ _ _).symm, hfactor⟩
  | some base =>
    rw [Pending.power_of_base_some hbase] at h
    exact ⟨.exponent d, rest, rfl, h⟩

/-- What completes the content of a parenthesis is an expression and its closing parenthesis. -/
theorem parenthesis_of_completes {opener : Opener} {tokens : List Token} {e : Expr}
    (h : Completes ⟨⟨opener, p⟩ :: frames, {}, .operand⟩ tokens e) :
    ∃ (inner : Phrase .expression) (rest : List Token),
      tokens = inner.tokens ++ .closing :: rest ∧
        AfterPower (Closes frames) p (p.power (opener.close inner.tree)) rest e := by
  obtain ⟨first, _, rfl, factors, _, rfl, terms, _, rfl, rest, rfl, hrest⟩ := h
  refine ⟨.expression (.term first factors) terms, rest, ?_, hrest⟩
  simp only [Phrase.tokens, List.append_assoc]

/-- A power without an operator before it continues a product. -/
theorem afterPower_of_juxtaposed (d : Phrase (.primary true)) {operand : Expr}
    {rest : List Token} {e : Expr}
    (h : AfterPower close (p.push operand .mul) ((p.push operand .mul).power d.meaning) rest e) :
    AfterPower close p (p.power operand) (d.tokens ++ rest) e := by
  -- The power with its exponents becomes one more factor of the product before it.
  obtain ⟨powers, rest, rfl, factors, rest, rfl, hterm⟩ := h
  refine ⟨.endPower, d.tokens ++ (powers.tokens ++ (factors.tokens ++ rest)), rfl,
    .juxtaposition (.power d powers) factors, rest, ?_, ?_⟩
  · simp only [Phrase.tokens, List.append_assoc]
  · rw [Pending.push, Pending.term_eq_attach] at hterm
    exact hterm

/-- A name where an operand has to follow starts a primary. -/
theorem primary_of_readName {focus : Focus} {name : List Char} {r : Reading}
    (hstep : readName ⟨frames, p, focus⟩ name = .ok r) {tokens : List Token} {e : Expr}
    (h : r.Completes tokens e) :
    ∃ (d : Phrase (.primary true)) (rest : List Token),
      Token.name name :: tokens = d.tokens ++ rest ∧
        AfterPower (Closes frames) p (p.power d.meaning) rest e := by
  rw [readName] at hstep
  cases hf : FunctionName.ofChars? name with
  | some f =>
    obtain rfl := (FunctionName.ofChars?_eq_some name f).mp hf
    simp only [hf, Except.ok.injEq] at hstep
    subst hstep
    obtain ⟨argument, rest, rfl, hrest⟩ := h
    refine ⟨.call f argument, rest, ?_, hrest⟩
    simp only [Phrase.tokens, List.cons_append, List.append_assoc, List.nil_append]
  | none =>
    cases hc : ConstantName.ofChars? name with
    | none => simp [hf, hc] at hstep
    | some c =>
      obtain rfl := (ConstantName.ofChars?_eq_some name c).mp hc
      simp only [hf, hc, Except.ok.injEq] at hstep
      subst hstep
      exact ⟨.constant c, tokens, rfl, h⟩

/-- A product goes on with a multiplication or division sign and a factor. -/
theorem afterPower_of_scale {operand : Expr} (s : Scale) {tokens : List Token} {e : Expr}
    (h : Completes
      ⟨frames, { sum := p.sum, product := some (p.term operand, s.operator) }, .operand⟩ tokens e) :
    AfterPower (Closes frames) p (p.power operand) (.operator s.operator :: tokens) e := by
  obtain ⟨factor, _, rfl, factors, rest, rfl, hrest⟩ := h
  have hterm : AfterTerm (Closes frames) p
      (factors.meaning (.binary s.operator (p.term operand) factor.meaning)) rest e := hrest
  rw [Pending.term_eq_attach] at hterm
  refine ⟨.endPower, _, rfl, .product s factor factors, rest, ?_, hterm⟩
  simp only [Phrase.tokens, List.cons_append, List.append_assoc]

/-- A sum goes on with a sign and a term. -/
theorem afterPower_of_sign {operand : Expr} (s : Sign) {tokens : List Token} {e : Expr}
    (h : Completes ⟨frames, { sum := some (p.whole operand, s.operator) }, .operand⟩ tokens e) :
    AfterPower (Closes frames) p (p.power operand) (.operator s.operator :: tokens) e := by
  obtain ⟨factor, _, rfl, factors, _, rfl, terms, rest, rfl, hrest⟩ := h
  have hclose : Closes frames (terms.meaning (.binary s.operator (p.whole operand)
      (factors.meaning factor.meaning))) rest e := hrest
  rw [Pending.whole_eq_attach, Pending.term_eq_attach] at hclose
  refine ⟨.endPower, _, rfl, .endProduct, _, rfl, .sum s (.term factor factors) terms, rest, ?_,
    hclose⟩
  simp only [Phrase.tokens, List.cons_append, List.append_assoc]

/-- One token after an operand, and what completes the state that it leads to. -/
theorem afterPower_of_afterOperand {focus : Focus} {operand : Expr} {t : Token} {r : Reading}
    (hstep : afterOperand ⟨frames, p, focus⟩ operand t = .ok r) {tokens : List Token} {e : Expr}
    (h : r.Completes tokens e) :
    AfterPower (Closes frames) p (p.power operand) (t :: tokens) e := by
  cases t with
  | number text => cases hstep
  | percent => cases hstep
  | name name =>
    obtain ⟨d, rest, htokens, hrest⟩ := primary_of_readName hstep h
    rw [htokens]
    exact afterPower_of_juxtaposed d hrest
  | opening =>
    obtain rfl := Except.ok.inj hstep
    obtain ⟨inner, rest, rfl, hrest⟩ := parenthesis_of_completes h
    have hgroup : AfterPower (Closes frames) p (p.power operand)
        ((Phrase.group inner).tokens ++ rest) e := afterPower_of_juxtaposed (.group inner) hrest
    simpa only [Phrase.tokens, List.cons_append, List.append_assoc, List.nil_append] using hgroup
  | closing =>
    cases frames with
    | nil => cases hstep
    | cons frame frames =>
      obtain rfl := Except.ok.inj hstep
      have hclose : AfterPower (Closes frames) frame.outer
          (frame.outer.power (frame.opener.close (p.whole operand))) tokens e := h
      rw [Pending.whole_eq_attach, Pending.term_eq_attach] at hclose
      exact ⟨.endPower, _, rfl, .endProduct, _, rfl, .endSum, _, rfl, tokens, rfl, hclose⟩
  | operator op =>
    obtain rfl := Except.ok.inj hstep
    cases op with
    | pow =>
      obtain ⟨exponent, _, rfl, powers, rest, rfl, hrest⟩ := h
      refine ⟨.raise exponent powers, rest, ?_, hrest⟩
      simp only [Phrase.tokens, List.cons_append, List.append_assoc]
    | mul => exact afterPower_of_scale .times h
    | div => exact afterPower_of_scale .divide h
    | add => exact afterPower_of_sign .plus h
    | sub => exact afterPower_of_sign .minus h

/-- A plus sign before an operand changes nothing. -/
theorem completes_plus {tokens : List Token} {e : Expr}
    (h : Completes ⟨frames, p, .operand⟩ tokens e) :
    Completes ⟨frames, p, .operand⟩ (.operator .add :: tokens) e := by
  cases hbase : p.base with
  | none =>
    simp only [Completes, hbase] at h ⊢
    obtain ⟨first, rest, rfl, hrest⟩ := h
    exact ⟨.signed .plus first, rest, rfl, hrest⟩
  | some base =>
    simp only [Completes, hbase] at h ⊢
    obtain ⟨first, rest, rfl, hrest⟩ := h
    exact ⟨.signedExponent .plus first, rest, rfl, hrest⟩

/-- A minus sign before an operand negates the factor or the exponent that follows. -/
theorem completes_minus {tokens : List Token} {e : Expr}
    (h : Completes ⟨frames, p.minus, .operand⟩ tokens e) :
    Completes ⟨frames, p, .operand⟩ (.operator .sub :: tokens) e := by
  cases hbase : p.base with
  | none =>
    simp only [Completes, Pending.minus, hbase] at h ⊢
    obtain ⟨first, rest, rfl, hrest⟩ := h
    refine ⟨.signed .minus first, rest, rfl, ?_⟩
    rw [Phrase.meaning, Sign.apply, Expr.negateTimes_negate]
    exact hrest
  | some base =>
    simp only [Completes, Pending.minus, hbase] at h ⊢
    obtain ⟨first, rest, rfl, hrest⟩ := h
    refine ⟨.signedExponent .minus first, rest, rfl, ?_⟩
    rw [Phrase.meaning, Sign.apply, Expr.negateTimes_negate]
    exact hrest

/-- **What completes the state after a token completes, with the token in front, the state
before.** -/
theorem completes_of_step {s r : Reading} {t : Token} (hstep : s.step t = .ok r)
    {tokens : List Token} {e : Expr} (h : r.Completes tokens e) : s.Completes (t :: tokens) e := by
  obtain ⟨frames, p, focus⟩ := s
  cases focus with
  | operand =>
    cases t with
    | number text =>
      obtain rfl := Except.ok.inj hstep
      rcases h with h | ⟨rest, rfl, h⟩
      · exact completes_primary (.number text) h
      · exact completes_primary (.percent text) h
    | name name =>
      obtain ⟨d, rest, htokens, hrest⟩ := primary_of_readName hstep h
      rw [htokens]
      exact completes_primary d hrest
    | opening =>
      obtain rfl := Except.ok.inj hstep
      obtain ⟨inner, rest, rfl, hrest⟩ := parenthesis_of_completes h
      have hgroup : Completes ⟨frames, p, .operand⟩ ((Phrase.group inner).tokens ++ rest) e :=
        completes_primary (.group inner) hrest
      simpa only [Phrase.tokens, List.cons_append, List.append_assoc, List.nil_append] using hgroup
    | operator op =>
      cases op with
      | add =>
        obtain rfl := Except.ok.inj hstep
        exact completes_plus h
      | sub =>
        obtain rfl := Except.ok.inj hstep
        exact completes_minus h
      | mul => cases hstep
      | div => cases hstep
      | pow => cases hstep
    | closing => cases hstep
    | percent => cases hstep
  | call f =>
    cases t with
    | opening =>
      obtain rfl := Except.ok.inj hstep
      obtain ⟨argument, rest, rfl, hrest⟩ := parenthesis_of_completes h
      exact ⟨argument, rest, rfl, hrest⟩
    | _ => cases hstep
  | numeral value =>
    -- A percent sign belongs to the numeral; before every other token the numeral is an operand.
    by_cases ht : t = .percent
    · subst ht
      obtain rfl := Except.ok.inj hstep
      exact .inr ⟨tokens, rfl, h⟩
    · rw [step_of_shows (.numeral value) ht] at hstep
      exact .inl (afterPower_of_afterOperand hstep h)
  | value operand => exact afterPower_of_afterOperand hstep h

/-- The end of the tokens completes a state that can be finished. -/
theorem completes_of_finish {s : Reading} {e : Expr} (h : s.finish = .ok e) :
    s.Completes [] e := by
  obtain ⟨frames, p, focus⟩ := s
  have hend : ∀ operand, complete ⟨frames, p, focus⟩ operand = .ok e →
      AfterPower (Closes frames) p (p.power operand) [] e := by
    intro operand hcomplete
    cases frames with
    | cons frame frames => cases hcomplete
    | nil =>
      have he : e = p.whole operand := (Except.ok.inj hcomplete).symm
      rw [Pending.whole_eq_attach, Pending.term_eq_attach] at he
      exact ⟨.endPower, _, rfl, .endProduct, _, rfl, .endSum, _, rfl, rfl, he⟩
  cases focus with
  | operand => cases h
  | call f => cases h
  | numeral value => exact .inl (hend _ h)
  | value operand => exact hend _ h

/-- What is read to the end completes the state that reading started from. -/
theorem completes_of_run {tokens : List Token} {s r : Reading} {e : Expr}
    (hrun : s.run tokens = .ok r) (h : r.finish = .ok e) : s.Completes tokens e := by
  induction tokens generalizing s with
  | nil =>
    obtain rfl := Except.ok.inj hrun
    exact completes_of_finish h
  | cons t tokens ih =>
    rw [run] at hrun
    cases hstep : s.step t with
    | error f => simp [hstep] at hrun
    | ok next =>
      rw [hstep] at hrun
      exact completes_of_step hstep (ih hrun)

end Reading

/-! ## The reader and the grammar -/

/-- What is read as an expression has a derivation that denotes it. -/
theorem Phrase.exists_of_ofTokens {tokens : List Token} {e : Expr}
    (h : Expr.ofTokens tokens = .ok e) :
    ∃ d : Phrase .expression, d.tokens = tokens ∧ d.tree = e := by
  rw [Expr.ofTokens] at h
  cases hrun : Reading.run {} tokens with
  | error f => simp [hrun, bind, Except.bind] at h
  | ok s =>
    rw [hrun] at h
    -- What completes the start is a factor with the rest of its product and of its sum; the base
    -- and the open parentheses are none.
    obtain ⟨first, _, rfl, factors, _, rfl, terms, rest, rfl, rfl, rfl⟩ := completes_of_run hrun h
    refine ⟨.expression (.term first factors) terms, ?_, rfl⟩
    simp only [Phrase.tokens, List.append_assoc, List.append_nil]

/-- **Reading succeeds exactly on the token lists that the grammar derives.**  The derivation is
unique, and the result is the tree that it denotes. -/
theorem ofTokens_iff_derivation (tokens : List Token) :
    ((∃ e, Expr.ofTokens tokens = .ok e) ↔ ∃ d : Phrase .expression, d.tokens = tokens) ∧
      (∀ d d' : Phrase .expression, d.tokens = tokens → d'.tokens = tokens → d = d') ∧
      ∀ d : Phrase .expression, d.tokens = tokens → Expr.ofTokens tokens = .ok d.tree := by
  refine ⟨⟨?_, ?_⟩, ?_, ?_⟩
  · rintro ⟨e, h⟩
    obtain ⟨d, htokens, -⟩ := Phrase.exists_of_ofTokens h
    exact ⟨d, htokens⟩
  · rintro ⟨d, rfl⟩
    exact ⟨d.tree, d.ofTokens_tokens⟩
  · rintro d d' rfl h
    exact Phrase.eq_of_tokens_eq h.symm
  · rintro d rfl
    exact d.ofTokens_tokens

end Stepwise
