/-
# Parentheses named in refusals

A balanced text can still be refused with the words of an unmatched parenthesis.  This happens at
the first token that no expression has in its place, and only there: at a closing parenthesis where
an operand has to follow, and at a number or a percent sign after an operand inside parentheses.  At
all other places a balanced text is refused for its operators, for a name or for a call.

* `depth` : the parentheses that tokens leave open;
* `Reading.length_frames` : reading has a frame for each of them;
* `Reading.code_of_step` : which tokens a state refuses with such words;
* `Parentheses.depth_nonneg` : tokens of a balanced text never close more than they open;
* `Parentheses.refused_iff_misplaced` : the refusals of balanced texts.
-/
import Stepwise.Proofs.Expr.Viable
import Stepwise.Proofs.Problem.Balance
import Stepwise.Proofs.Problem.Failures

namespace Stepwise

/-! ## What the tokens before a place tell -/

/-- The number of parentheses that tokens open and do not close. -/
def depth (tokens : List Token) : ℤ := tokens.count .opening - tokens.count .closing

theorem depth_append (front back : List Token) :
    depth (front ++ back) = depth front + depth back := by
  simp only [depth, List.count_append, Nat.cast_add]
  ring

/-- An operand has to follow: at the start, after an operator and after an opening parenthesis. -/
def AwaitsOperand (front : List Token) : Prop :=
  ∀ t ∈ front.getLast?, t = .opening ∨ ∃ op, t = .operator op

/-- An operand has ended with the last token. -/
def EndsOperand (front : List Token) : Prop := ∃ t ∈ front.getLast?, t.endsOperand = true

/-- The token is refused after the others in the words of an unmatched parenthesis: a closing one
where an operand has to follow, or what is neither an operator nor a parenthesis after an operand
inside parentheses. -/
def Misplaced (front : List Token) : Token → Prop
  | .closing => AwaitsOperand front
  | .number _ | .percent => EndsOperand front ∧ 0 < depth front
  | _ => False

namespace Reading

variable {s r : Reading} {t : Token} {front tokens : List Token} {f : Failure}

/-- A token opens or closes the frame of its parenthesis. -/
theorem Leads.length_eq {frames outer : List Frame} {focus : Focus}
    (h : Leads frames t outer focus) : (outer.length : ℤ) = frames.length + depth [t] := by
  cases h with
  | opening frame => simp [depth]
  | closing hframes e => simp [depth, hframes]
  | operator op | number text value | percent e | function h | constant h => simp [depth]

/-- There is a frame for each parenthesis that is open. -/
theorem length_frames (h : s.run tokens = .ok r) :
    (r.frames.length : ℤ) = s.frames.length + depth tokens := by
  induction tokens generalizing s with
  | nil =>
    cases h
    simp [depth]
  | cons t tokens ih =>
    obtain ⟨next, hstep, h⟩ := run_cons_eq_ok.mp h
    have hcons : depth (t :: tokens) = depth [t] + depth tokens := depth_append [t] tokens
    rw [ih h, (leads_of_step hstep).length_eq, hcons, add_assoc]

/-- What has to follow is told by the last token. -/
theorem Leads.focus_iff {frames outer : List Frame} {focus : Focus}
    (h : Leads frames t outer focus) :
    ((t = .opening ∨ ∃ op, t = .operator op) ↔ focus = .operand) ∧
      (t.endsOperand = true ↔ ∃ e, focus.Shows e) := by
  have hshows := h.exists_shows
  cases h with
  | operator op => exact ⟨by simp, hshows, by rintro ⟨e, ⟨⟩⟩⟩
  | opening frame => exact ⟨by simp, hshows, by rintro ⟨e, ⟨⟩⟩⟩
  | number text value => exact ⟨by simp, hshows, fun _ => rfl⟩
  | percent e => exact ⟨by simp, hshows, fun _ => rfl⟩
  | closing hframes e => exact ⟨by simp, hshows, fun _ => rfl⟩
  | function hf => exact ⟨by simp, hshows, by rintro ⟨e, ⟨⟩⟩⟩
  | constant hc => exact ⟨by simp, hshows, fun _ => by simp [Token.endsOperand, hc]⟩

theorem focus_iff (h : run {} front = .ok r) :
    (AwaitsOperand front ↔ r.focus = .operand) ∧ (EndsOperand front ↔ ∃ e, r.focus.Shows e) := by
  rcases List.eq_nil_or_concat front with rfl | ⟨before, t, rfl⟩
  · cases h
    refine ⟨by simp [AwaitsOperand], by simp [EndsOperand], ?_⟩
    rintro ⟨e, ⟨⟩⟩
  · rw [List.concat_eq_append] at h ⊢
    rw [run_append_bind] at h
    obtain ⟨s, hs, ht⟩ := bind_eq_ok.mp h
    obtain ⟨next, hstep, hnext⟩ := run_cons_eq_ok.mp ht
    cases hnext
    simpa [AwaitsOperand, EndsOperand] using (leads_of_step hstep).focus_iff

/-! ## Refusals -/

theorem code_unclosed (opener : Opener) : opener.unclosed.code = "MISMATCHED_PARENS" := by
  cases opener <;> rfl

theorem code_interrupted (s : Reading) :
    s.interrupted.code = "MISMATCHED_PARENS" ↔ s.frames ≠ [] := by
  unfold interrupted
  split
  · next h => simp [h, Failure.code]
  · next h => simp [h, code_unclosed]

theorem code_of_readName {n : List Char} (h : s.readName n = .error f) :
    f.code ≠ "MISMATCHED_PARENS" := by
  unfold readName at h
  split at h
  · cases h
  · split at h
    · cases h
    · cases h
      simp [Failure.code]

/-- The tokens that a state refuses in the words of an unmatched parenthesis. -/
def Blames (s : Reading) : Token → Prop
  | .closing => s.focus = .operand ∨ (∃ e, s.focus.Shows e) ∧ s.frames = []
  | .number _ | .percent => (∃ e, s.focus.Shows e) ∧ s.frames ≠ []
  | _ => False

theorem code_of_beforeOperand (h : s.beforeOperand t = .error f) :
    f.code = "MISMATCHED_PARENS" ↔ t = .closing := by
  cases t with
  | number text | opening => cases h
  | name n => simp [code_of_readName h]
  | operator op =>
    cases op with
    | add | sub => cases h
    | mul | div | pow =>
      cases h
      simp [Failure.code]
  | closing =>
    cases h
    simp [Failure.code]
  | percent =>
    cases h
    simp [Failure.code]

theorem code_of_afterOperand {e : Expr} (hshows : s.focus.Shows e)
    (h : s.afterOperand e t = .error f) : f.code = "MISMATCHED_PARENS" ↔ s.Blames t := by
  have hoperand : s.focus ≠ .operand := by
    intro hfocus
    rw [hfocus] at hshows
    cases hshows
  have hexists : ∃ e, s.focus.Shows e := ⟨e, hshows⟩
  cases t with
  | number text | percent =>
    cases h
    simp [Blames, hexists, code_interrupted]
  | name n => simp [Blames, code_of_readName (s := s.push e .mul) h]
  | operator op | opening => cases h
  | closing =>
    simp only [afterOperand] at h
    split at h
    · next hframes =>
      cases h
      simp [Blames, hexists, hframes, Failure.code]
    · cases h

/-- **What a state refuses in the words of an unmatched parenthesis.** -/
theorem code_of_step (h : s.step t = .error f) :
    f.code = "MISMATCHED_PARENS" ↔ s.Blames t := by
  obtain ⟨frames, p, focus⟩ := s
  cases focus with
  | operand =>
    have hnone : ∀ e, ¬ Focus.operand.Shows e := by rintro e ⟨⟩
    rw [code_of_beforeOperand (s := ⟨frames, p, .operand⟩) h]
    cases t <;> simp [Blames, hnone]
  | call g =>
    have hcode : f = .malformedCall g := by
      cases t <;> cases h <;> rfl
    have hnone : ∀ e, ¬ (Focus.call g).Shows e := by rintro e ⟨⟩
    have hnot : ¬ Blames ⟨frames, p, .call g⟩ t := by
      cases t <;> simp [Blames, hnone]
    simp [hcode, Failure.code, hnot]
  | numeral value =>
    have ht : t ≠ .percent := by
      rintro rfl
      cases h
    rw [step_of_shows (.numeral value) ht] at h
    exact code_of_afterOperand (s := ⟨frames, p, .numeral value⟩) (.numeral value) h
  | value e => exact code_of_afterOperand (s := ⟨frames, p, .value e⟩) (.value e) h

/-- What reading refuses at its end, with no parenthesis open, is not refused in such words. -/
theorem code_of_finish (hframes : s.frames = []) (h : s.finish = .error f) :
    f.code ≠ "MISMATCHED_PARENS" := by
  obtain ⟨frames, p, focus⟩ := s
  obtain rfl := hframes
  cases focus with
  | operand =>
    cases h
    decide
  | call g =>
    cases h
    simp [Failure.code]
  | numeral value => cases h
  | value e => cases h

/-- Where nothing is closed that is not open, it can be told from the tokens read before. -/
theorem blames_iff (hrun : run {} front = .ok s) (hdepth : 0 ≤ depth (front ++ [t])) :
    s.Blames t ↔ Misplaced front t := by
  have hlength := length_frames hrun
  obtain ⟨hawaits, hends⟩ := focus_iff hrun
  have hopen : s.frames ≠ [] ↔ 0 < depth front := by
    rw [← List.length_pos_iff]
    simp only [List.length_nil] at hlength
    omega
  cases t with
  | closing =>
    have hclosing : depth [.closing] = -1 := by simp [depth]
    rw [depth_append, hclosing] at hdepth
    have hsome : s.frames ≠ [] := hopen.mpr (by omega)
    simp [Blames, Misplaced, hawaits, hsome]
  | number text | percent => exact and_congr hends.symm hopen
  | name n | operator op | opening => exact Iff.rfl

end Reading

namespace Parentheses

/-! ## Balanced texts -/

/-- The parentheses among tokens, counted as steps. -/
theorem count_steps (tokens : List Token) :
    (tokens.filterMap stepOfToken?).count .U = tokens.count .opening ∧
      (tokens.filterMap stepOfToken?).count .D = tokens.count .closing := by
  induction tokens with
  | nil => exact ⟨rfl, rfl⟩
  | cons t tokens ih =>
    cases t <;> simp [List.filterMap_cons, stepOfToken?, ih]

variable {s : List Char} {tokens : List Token}

/-- **Tokens of a balanced text never close more than they open**, and in the end nothing is
open. -/
theorem depth_nonneg (h : Balanced s) (htokens : Token.ofChars s = .ok tokens) :
    depth tokens = 0 ∧ ∀ front back, tokens = front ++ back → 0 ≤ depth front := by
  obtain ⟨w, hw⟩ := h
  rw [steps_eq_of_ofChars htokens] at hw
  constructor
  · have htotal := w.count_U_eq_count_D
    rw [hw, (count_steps tokens).1, (count_steps tokens).2] at htotal
    simp [depth, htotal]
  · rintro front back rfl
    have hfront := w.count_D_le_count_U (front.filterMap stepOfToken?).length
    rw [hw, List.filterMap_append, List.take_left, (count_steps front).1, (count_steps front).2]
      at hfront
    unfold depth
    omega

/-- A balanced text that is refused in the words of an unmatched parenthesis is refused at a token,
neither for its characters nor at its end. -/
theorem exists_refused_token (hbalanced : Balanced s) {f : Failure}
    (hread : Expr.ofChars s = .error f) (hcode : f.code = "MISMATCHED_PARENS") :
    ∃ front t back r, Token.ofChars s = .ok (front ++ t :: back) ∧
      Reading.run {} front = .ok r ∧ r.step t = .error f := by
  cases htokens : Token.ofChars s with
  | error g =>
    have hg : g = .invalidExpression := failsOnly_scan .none s g htokens
    rw [Expr.ofChars, htokens] at hread
    cases hread
    rw [hg] at hcode
    exact absurd hcode (by decide)
  | ok tokens =>
    rw [Expr.ofChars, htokens] at hread
    have hread : (Reading.run {} tokens >>= Reading.finish) = .error f := hread
    cases hrun : Reading.run {} tokens with
    | ok r =>
      -- All parentheses are closed in the end.
      rw [hrun] at hread
      have hlength := Reading.length_frames hrun
      rw [(depth_nonneg hbalanced htokens).1] at hlength
      have hframes : r.frames = [] := List.length_eq_zero_iff.mp (by simpa using hlength)
      exact absurd hcode (Reading.code_of_finish hframes hread)
    | error g =>
      rw [hrun] at hread
      cases hread
      obtain ⟨front, t, back, r, rfl, hfront, hstep⟩ := Reading.exists_of_run_error hrun
      exact ⟨front, t, back, r, rfl, hfront, hstep⟩

/-- **Which balanced texts are refused in the words of an unmatched parenthesis**: those where the
first token that no expression has in its place is a closing parenthesis where an operand has to
follow, or a number or a percent sign after an operand inside parentheses.  All others are refused
as no expression, or for a call without an argument. -/
theorem refused_iff_misplaced (s : List Char) (hbalanced : unmatched? s = none) :
    ((∃ f, Expr.ofChars s = .error f ∧ f.code = "MISMATCHED_PARENS") ↔
      ∃ front t back, Token.ofChars s = .ok (front ++ t :: back) ∧ Viable front ∧
        ¬ Viable (front ++ [t]) ∧ Misplaced front t) ∧
    ∀ f, Expr.ofChars s = .error f → f.code ≠ "MISMATCHED_PARENS" →
      f.kind = .parse ∨ ∃ g, f = .malformedCall g := by
  have hfinds := finds_unmatched? s
  rw [hbalanced] at hfinds
  have hnonneg {front back : List Token} {t : Token}
      (htokens : Token.ofChars s = .ok (front ++ t :: back)) : 0 ≤ depth (front ++ [t]) :=
    (depth_nonneg hfinds htokens).2 _ back (by simp)
  refine ⟨⟨?_, ?_⟩, fun f hread hcode => ?_⟩
  · rintro ⟨f, hread, hcode⟩
    obtain ⟨front, t, back, r, htokens, hfront, hstep⟩ := exists_refused_token hfinds hread hcode
    exact ⟨front, t, back, htokens, Reading.viable_iff.mpr ⟨r, hfront⟩,
      (Reading.not_viable_concat_iff hfront t).mpr ⟨f, hstep⟩,
      (Reading.blames_iff hfront (hnonneg htokens)).mp ((Reading.code_of_step hstep).mp hcode)⟩
  · rintro ⟨front, t, back, htokens, hviable, hrefused, hmisplaced⟩
    obtain ⟨r, hfront⟩ := Reading.viable_iff.mp hviable
    obtain ⟨f, hstep⟩ := (Reading.not_viable_concat_iff hfront t).mp hrefused
    have hblames := (Reading.blames_iff hfront (hnonneg htokens)).mpr hmisplaced
    refine ⟨f, ?_, (Reading.code_of_step hstep).mpr hblames⟩
    rw [Expr.ofChars, htokens]
    show (Reading.run {} (front ++ t :: back) >>= Reading.finish) = .error f
    rw [Reading.run_of_step_error hfront hstep]
    rfl
  · have hform := failsOnly_ofChars s f hread
    cases f with
    | unmatchedParenthesis => exact absurd rfl hcode
    | unmatchedInCall g => exact absurd rfl hcode
    | malformedCall g => exact .inr ⟨g, rfl⟩
    | invalidExpression => exact .inl rfl
    | unknownName name => exact .inl rfl
    | _ => exact hform.elim

/-- An operator before a closing parenthesis, and a call without an argument. -/
theorem refused_iff_misplaced_texts :
    unmatched? "2 * (3 + )".toList = none ∧
    (∃ f, Expr.ofChars "2 * (3 + )".toList = .error f ∧ f.code = "MISMATCHED_PARENS") ∧
    unmatched? "(ln 2)".toList = none ∧
    ∃ f, Expr.ofChars "(ln 2)".toList = .error f ∧ f.code = "INVALID_FORMAT" ∧
      (f.kind = .parse ∨ ∃ g, f = .malformedCall g) := by
  have hsum : unmatched? "2 * (3 + )".toList = none := by decide
  have hcall : unmatched? "(ln 2)".toList = none := by decide
  refine ⟨hsum, (refused_iff_misplaced _ hsum).1.mpr ?_, hcall, ?_⟩
  · refine ⟨[.number ['2'], .operator .mul, .opening, .number ['3'], .operator .add], .closing, [],
      eq_ok_of_toOption (by decide +kernel), Reading.viable_iff.mpr ⟨_, rfl⟩, ?_, ?_⟩
    · exact (Reading.not_viable_concat_iff rfl _).mpr ⟨_, rfl⟩
    · simp [Misplaced, AwaitsOperand]
  · have hread : Expr.ofChars "(ln 2)".toList = .error (.malformedCall .ln) := rfl
    exact ⟨_, hread, rfl, (refused_iff_misplaced _ hcall).2 _ hread (by decide)⟩

/-- Two numbers inside parentheses that are balanced. -/
theorem two_numbers_unmatched :
    unmatched? "(1 2)".toList = none ∧ Balanced "(1 2)".toList ∧
    ∃ f, Expr.ofChars "(1 2)".toList = .error f ∧ f.kind = .validation ∧
      f.code = "MISMATCHED_PARENS" ∧ f.message = "Mismatched parentheses." := by
  have hnone : unmatched? "(1 2)".toList = none := by decide
  have hfinds := finds_unmatched? "(1 2)".toList
  rw [hnone] at hfinds
  exact ⟨hnone, hfinds, .unmatchedParenthesis, rfl, rfl, rfl, rfl⟩

end Parentheses

end Stepwise
