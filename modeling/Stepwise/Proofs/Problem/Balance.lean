/-
# Balance of parentheses

The parentheses of a text stand for the steps of a path, an opening one for a step up and a closing
one for a step down.  They are balanced if the steps form a Dyck word.  Two parentheses are partners
if what stands between them is balanced.  The scan for a parenthesis without a partner keeps on its
stack the opening ones that wait for theirs; between them everything is balanced.

* `Parentheses.Balanced` : the parentheses of a text form a Dyck word;
* `Parentheses.Partners` : the standard matching of parentheses;
* `Parentheses.Waiting` : what the scan knows about its stack;
* `Parentheses.finds_unmatchedFrom` : the scan finds the first parenthesis without a partner;
* `Parentheses.balanced_of_ofChars` : the text of an expression is balanced;
* `Parentheses.unmatched?_iff` : what is found, for all texts.
-/
import Mathlib.Combinatorics.Enumerative.DyckWord
import Stepwise.Problem.Parentheses
import Stepwise.Proofs.Expr.Rounds

namespace Stepwise

namespace Parentheses

open DyckStep

/-! ## Steps -/

/-- The step that a parenthesis stands for. -/
def step? (c : Char) : Option DyckStep :=
  if c = '(' then some U else if c = ')' then some D else none

/-- The steps of the parentheses of a text. -/
def steps (s : List Char) : List DyckStep := s.filterMap step?

/-- The parentheses of the text form a Dyck word. -/
def Balanced (s : List Char) : Prop := ∃ w : DyckWord, w.toList = steps s

/-- The height that the steps of a text lead to. -/
def height (s : List Char) : ℤ := (steps s).count U - (steps s).count D

@[simp] theorem steps_append (s t : List Char) : steps (s ++ t) = steps s ++ steps t :=
  List.filterMap_append

@[simp] theorem height_nil : height [] = 0 := rfl

@[simp] theorem height_append (s t : List Char) : height (s ++ t) = height s + height t := by
  simp only [height, steps_append, List.count_append, Nat.cast_add]
  ring

/-- The height that one character leads to. -/
theorem height_cons (c : Char) (s : List Char) :
    height (c :: s) = (if c = '(' then 1 else if c = ')' then -1 else 0) + height s := by
  rw [← List.singleton_append, height_append]
  congr 1
  unfold height steps
  rw [List.filterMap_cons]
  unfold step?
  split_ifs <;> rfl

@[simp] theorem height_opening (s : List Char) : height ('(' :: s) = 1 + height s :=
  height_cons '(' s

@[simp] theorem height_closing (s : List Char) : height (')' :: s) = -1 + height s :=
  height_cons ')' s

theorem height_plain {c : Char} (hopening : c ≠ '(') (hclosing : c ≠ ')') (s : List Char) :
    height (c :: s) = height s := by
  rw [height_cons, if_neg hopening, if_neg hclosing, zero_add]

/-- A part of the steps from the start on belongs to a part of the text from the start on. -/
theorem exists_front (s : List Char) (i : ℕ) :
    ∃ front back, front ++ back = s ∧ steps front = (steps s).take i := by
  induction s generalizing i with
  | nil => exact ⟨[], [], rfl, by simp [steps]⟩
  | cons c s ih =>
    cases hc : step? c with
    | none =>
      obtain ⟨front, back, rfl, hsteps⟩ := ih i
      refine ⟨c :: front, back, rfl, ?_⟩
      simpa [steps, hc] using hsteps
    | some x =>
      cases i with
      | zero => exact ⟨[], c :: s, rfl, by simp [steps]⟩
      | succ i =>
        obtain ⟨front, back, rfl, hsteps⟩ := ih i
        refine ⟨c :: front, back, rfl, ?_⟩
        simpa [steps, hc] using hsteps

/-- Parentheses are balanced if their path ends where it starts and never goes below that. -/
theorem balanced_iff {s : List Char} :
    Balanced s ↔ height s = 0 ∧ ∀ front back, front ++ back = s → 0 ≤ height front := by
  constructor
  · rintro ⟨w, hw⟩
    have htotal := w.count_U_eq_count_D
    rw [hw] at htotal
    refine ⟨by simp [height, htotal], ?_⟩
    rintro front back rfl
    have hfront := w.count_D_le_count_U (steps front).length
    rw [hw, steps_append, List.take_left] at hfront
    unfold height
    omega
  · rintro ⟨htotal, hfronts⟩
    refine ⟨⟨steps s, ?_, ?_⟩, rfl⟩
    · unfold height at htotal
      omega
    · intro i
      obtain ⟨front, back, hs, hsteps⟩ := exists_front s i
      have hfront := hfronts front back hs
      unfold height at hfront
      rw [← hsteps]
      omega

theorem Balanced.height_eq {s : List Char} (h : Balanced s) : height s = 0 :=
  (balanced_iff.mp h).1

theorem Balanced.front {front back : List Char} (h : Balanced (front ++ back)) :
    0 ≤ height front :=
  (balanced_iff.mp h).2 front back rfl

/-- What follows in a balanced text never rises above the start. -/
theorem Balanced.back {front back : List Char} (h : Balanced (front ++ back)) :
    height back ≤ 0 := by
  have htotal := h.height_eq
  rw [height_append] at htotal
  have hfront := h.front
  omega

/-! ## Balanced texts -/

theorem balanced_nil : Balanced [] := ⟨0, rfl⟩

theorem Balanced.append {s t : List Char} (hs : Balanced s) (ht : Balanced t) :
    Balanced (s ++ t) := by
  obtain ⟨v, hv⟩ := hs
  obtain ⟨w, hw⟩ := ht
  refine ⟨v + w, ?_⟩
  rw [steps_append, ← hv, ← hw]
  rfl

/-- A pair of parentheses around a balanced text. -/
theorem Balanced.pair {s : List Char} (hs : Balanced s) : Balanced ('(' :: (s ++ [')'])) := by
  obtain ⟨w, hw⟩ := hs
  refine ⟨w.nest, ?_⟩
  show [U] ++ w.toList ++ [D] = _
  rw [hw]
  simp [steps, step?]

/-- A character that is no parenthesis. -/
theorem balanced_singleton {c : Char} (hopening : c ≠ '(') (hclosing : c ≠ ')') :
    Balanced [c] :=
  ⟨0, by simp [steps, step?, hopening, hclosing]; rfl⟩

/-! ## Partners -/

/-- The parentheses at two positions are partners: an opening one before a closing one, with a
balanced text between them. -/
def Partners (s : List Char) (i j : ℕ) : Prop :=
  ∃ before inner after, s = before ++ '(' :: (inner ++ ')' :: after) ∧ Balanced inner ∧
    before.length = i ∧ before.length + inner.length + 1 = j

/-- A parenthesis stands at the position. -/
def StandsAt (s : List Char) (k : ℕ) : Prop := s[k]? = some '(' ∨ s[k]? = some ')'

/-- The parenthesis at the position has no partner, neither before nor after it. -/
def Unmatched (s : List Char) (k : ℕ) : Prop :=
  StandsAt s k ∧ ∀ j, ¬ Partners s k j ∧ ¬ Partners s j k

namespace Partners

variable {s : List Char} {i j k : ℕ}

theorem opening (h : Partners s i j) : s[i]? = some '(' := by
  obtain ⟨before, inner, after, rfl, -, rfl, -⟩ := h
  simp

theorem closing (h : Partners s i j) : s[j]? = some ')' := by
  obtain ⟨before, inner, after, rfl, -, -, rfl⟩ := h
  rw [List.getElem?_append_right (by omega),
    show before.length + inner.length + 1 - before.length = inner.length + 1 from by omega,
    List.getElem?_cons_succ]
  simp

/-- Partners stay partners when text is added after them. -/
theorem append (h : Partners s i j) (t : List Char) : Partners (s ++ t) i j := by
  obtain ⟨before, inner, after, rfl, hinner, hi, hj⟩ := h
  exact ⟨before, inner, after ++ t, by simp, hinner, hi, hj⟩

/-- A balanced text is not continued with its own closing parenthesis. -/
theorem length_le_of_append {inner inner' after after' : List Char} (hinner : Balanced inner)
    (hinner' : Balanced inner') (h : inner ++ ')' :: after = inner' ++ ')' :: after') :
    inner'.length ≤ inner.length := by
  by_contra hlt
  push Not at hlt
  have hfront : inner ++ [')'] <+: inner' := by
    refine List.prefix_of_prefix_length_le ⟨after, by simp⟩ ⟨_, h.symm⟩ ?_
    simpa using hlt
  obtain ⟨back, rfl⟩ := hfront
  have hheight := hinner'.front
  rw [height_append, hinner.height_eq] at hheight
  exact absurd hheight (by decide)

/-- **An opening parenthesis has at most one partner.** -/
theorem right_unique (h : Partners s i j) (h' : Partners s i k) : j = k := by
  obtain ⟨before, inner, after, rfl, hinner, rfl, rfl⟩ := h
  obtain ⟨before', inner', after', heq, hinner', hlength, rfl⟩ := h'
  obtain ⟨rfl, hrest⟩ := List.append_inj heq hlength.symm
  have hrest := List.cons.inj hrest
  have hle := length_le_of_append hinner hinner' hrest.2
  have hge := length_le_of_append hinner' hinner hrest.2.symm
  omega

/-- **A closing parenthesis has at most one partner.** -/
theorem left_unique (h : Partners s i k) (h' : Partners s j k) : i = j := by
  have hle {i j : ℕ} (h : Partners s i k) (h' : Partners s j k) : i ≤ j := by
    obtain ⟨before, inner, after, hs, hinner, rfl, hk⟩ := h
    obtain ⟨before', inner', after', hs', hinner', rfl, rfl⟩ := h'
    by_contra hlt
    push Not at hlt
    -- Both end at the same place, so that the shorter inner text is the end of the longer one.
    have hends : before ++ '(' :: inner = before' ++ '(' :: inner' := by
      have heq : (before ++ '(' :: inner) ++ ')' :: after =
          (before' ++ '(' :: inner') ++ ')' :: after' := by
        simpa using hs.symm.trans hs'
      refine (List.append_inj heq ?_).1
      simp only [List.length_append, List.length_cons]
      omega
    have hback : '(' :: inner <:+ inner' := by
      refine List.suffix_of_suffix_length_le ⟨before, hends⟩
        ((List.suffix_cons _ _).trans (List.suffix_append _ _)) ?_
      simp only [List.length_cons]
      omega
    obtain ⟨front, rfl⟩ := hback
    have hheight := hinner'.back
    rw [height_opening, hinner.height_eq] at hheight
    omega
  exact le_antisymm (hle h h') (hle h' h)

end Partners

/-! ## Partners in balanced texts -/

/-- A path that goes below its start does so at a first closing parenthesis. -/
theorem exists_closing {s : List Char} (h : height s < 0) :
    ∃ inner after, s = inner ++ ')' :: after ∧ Balanced inner := by
  induction hlength : s.length using Nat.strong_induction_on generalizing s with
  | _ n ih =>
    subst hlength
    cases s with
    | nil => exact absurd h (by simp)
    | cons c s =>
      by_cases hopening : c = '('
      · subst hopening
        rw [height_opening] at h
        -- The pair that starts here is closed first; the path goes on below the start after it.
        obtain ⟨inner, after, rfl, hinner⟩ := ih s.length (by simp) (by omega) rfl
        rw [height_append, hinner.height_eq, height_closing] at h
        obtain ⟨inner', after', rfl, hinner'⟩ := ih after.length (by simp; omega) (by omega) rfl
        exact ⟨'(' :: (inner ++ [')']) ++ inner', after', by simp, hinner.pair.append hinner'⟩
      by_cases hclosing : c = ')'
      · subst hclosing
        exact ⟨[], s, rfl, balanced_nil⟩
      · rw [height_plain hopening hclosing] at h
        obtain ⟨inner, after, rfl, hinner⟩ := ih s.length (by simp) h rfl
        exact ⟨c :: inner, after, rfl, (balanced_singleton hopening hclosing).append hinner⟩

/-- A path that ends above its start leaves it for the last time at an opening parenthesis. -/
theorem exists_opening {s : List Char} (h : 0 < height s) :
    ∃ before inner, s = before ++ '(' :: inner ∧ Balanced inner := by
  induction hlength : s.length using Nat.strong_induction_on generalizing s with
  | _ n ih =>
    subst hlength
    rcases List.eq_nil_or_concat s with rfl | ⟨s, c, rfl⟩
    · exact absurd h (by simp)
    rw [List.concat_eq_append] at h ih ⊢
    rw [height_append] at h
    by_cases hclosing : c = ')'
    · subst hclosing
      rw [height_closing, height_nil] at h
      obtain ⟨before, inner, rfl, hinner⟩ := ih s.length (by simp) (by omega) rfl
      rw [height_append, height_opening, hinner.height_eq] at h
      obtain ⟨before', inner', rfl, hinner'⟩ := ih before.length (by simp) (by omega) rfl
      exact ⟨before', inner' ++ '(' :: (inner ++ [')']), by simp, hinner'.append hinner.pair⟩
    by_cases hopening : c = '('
    · subst hopening
      exact ⟨s, [], rfl, balanced_nil⟩
    · rw [height_plain hopening hclosing, height_nil, add_zero] at h
      obtain ⟨before, inner, rfl, hinner⟩ := ih s.length (by simp) h rfl
      exact ⟨before, inner ++ [c], by simp, hinner.append (balanced_singleton hopening hclosing)⟩

/-- **In a balanced text every parenthesis has a partner.** -/
theorem Balanced.not_unmatched {s : List Char} (h : Balanced s) (k : ℕ) : ¬ Unmatched s k := by
  rintro ⟨hstands | hstands, hpartner⟩
  · obtain ⟨hk, hc⟩ := List.getElem?_eq_some_iff.mp hstands
    have hs : s.take k ++ '(' :: s.drop (k + 1) = s := by
      rw [← hc, List.getElem_cons_drop, List.take_append_drop]
    rw [← hs] at h
    have hback := h.back
    have hbelow : height (s.drop (k + 1)) < 0 := by
      rw [height_opening] at hback
      omega
    obtain ⟨inner, after, hrest, hinner⟩ := exists_closing hbelow
    refine (hpartner _).1 ⟨s.take k, inner, after, ?_, hinner, ?_, rfl⟩
    · rw [← hrest, hs]
    · rw [List.length_take]
      omega
  · obtain ⟨hk, hc⟩ := List.getElem?_eq_some_iff.mp hstands
    have hs : s.take k ++ ')' :: s.drop (k + 1) = s := by
      rw [← hc, List.getElem_cons_drop, List.take_append_drop]
    have hwhole : Balanced ((s.take k ++ [')']) ++ s.drop (k + 1)) := by
      rwa [List.append_assoc, List.singleton_append, hs]
    have habove : 0 < height (s.take k) := by
      have hfront := hwhole.front
      rw [height_append, height_closing, height_nil] at hfront
      omega
    obtain ⟨before, inner, hfirst, hinner⟩ := exists_opening habove
    refine (hpartner before.length).2 ⟨before, inner, s.drop (k + 1), ?_, hinner, rfl, ?_⟩
    · rw [← List.cons_append, ← List.append_assoc, ← hfirst, hs]
    · have hlength := congrArg List.length hfirst
      rw [List.length_take, List.length_append, List.length_cons] at hlength
      omega

/-! ## The scan -/

/-- What a scan can find in a text: nothing if it is balanced, and else the first parenthesis
without a partner. -/
def Finds (s : List Char) : Option ℕ → Prop
  | none => Balanced s
  | some k => Unmatched s k ∧ ∀ j < k, ¬ Unmatched s j

/-- Before the end of a balanced start, no parenthesis is without a partner. -/
theorem not_unmatched_append {s : List Char} (h : Balanced s) (t : List Char) {k : ℕ}
    (hk : k < s.length) : ¬ Unmatched (s ++ t) k := by
  rintro ⟨hstands, hpartner⟩
  refine h.not_unmatched k ⟨?_, fun j => ⟨fun hj => ?_, fun hj => ?_⟩⟩
  · rwa [StandsAt, List.getElem?_append_left hk] at hstands
  · exact (hpartner j).1 (hj.append t)
  · exact (hpartner j).2 (hj.append t)

/-- After a balanced start a closing parenthesis has no partner. -/
theorem finds_closing {s : List Char} (h : Balanced s) (t : List Char) :
    Finds (s ++ ')' :: t) (some s.length) := by
  refine ⟨⟨.inr (by simp), fun j => ⟨fun hj => ?_, ?_⟩⟩, fun j hj => not_unmatched_append h _ hj⟩
  · have hopening := hj.opening
    simp at hopening
  · rintro ⟨before, inner, after, heq, hinner, -, hlength⟩
    have hsplit : s ++ ')' :: t = (before ++ '(' :: inner) ++ ')' :: after := by simpa using heq
    have hsame : s.length = (before ++ '(' :: inner).length := by
      simp only [List.length_append, List.length_cons]
      omega
    have hstart : s = before ++ '(' :: inner := (List.append_inj hsplit hsame).1
    rw [hstart] at h
    have hback := h.back
    rw [height_opening, hinner.height_eq] at hback
    omega

/-- After a balanced start an opening parenthesis has no partner if the path does not go below it
any more. -/
theorem finds_opening {s t : List Char} (h : Balanced s)
    (habove : ∀ front back, front ++ back = t → 0 ≤ height front) :
    Finds (s ++ '(' :: t) (some s.length) := by
  refine ⟨⟨.inl (by simp), fun j => ⟨?_, fun hj => ?_⟩⟩, fun j hj => not_unmatched_append h _ hj⟩
  · rintro ⟨before, inner, after, heq, hinner, hlength, -⟩
    obtain ⟨-, hrest⟩ := List.append_inj heq hlength.symm
    have hfront := habove (inner ++ [')']) after (by simp [(List.cons.inj hrest).2])
    rw [height_append, hinner.height_eq] at hfront
    exact absurd hfront (by decide)
  · have hclosing := hj.closing
    simp at hclosing

/-- The opening parentheses of a text that wait for their partners, the last one first; before,
between and after them the text is balanced. -/
inductive Waiting : List Char → List ℕ → Prop where
  | balanced {s : List Char} (hs : Balanced s) : Waiting s []
  | opening {s t : List Char} {opened : List ℕ} (hs : Waiting s opened) (ht : Balanced t) :
      Waiting (s ++ '(' :: t) (s.length :: opened)

namespace Waiting

variable {s t : List Char} {opened : List ℕ}

/-- A balanced text may follow. -/
theorem append (h : Waiting s opened) (ht : Balanced t) : Waiting (s ++ t) opened := by
  cases h with
  | balanced hs => exact .balanced (hs.append ht)
  | opening hs ht' =>
    rw [List.append_assoc, List.cons_append]
    exact .opening hs (ht'.append ht)

/-- A closing parenthesis is the partner of the last one that waits. -/
theorem close {i : ℕ} (h : Waiting s (i :: opened)) : Waiting (s ++ [')']) opened := by
  cases h with
  | opening hs ht =>
    rw [List.append_assoc, List.cons_append]
    exact hs.append ht.pair

/-- The first one that waits stands after a balanced start, and the path stays above it. -/
theorem exists_first {k : ℕ} (h : Waiting s opened) (hk : opened.getLast? = some k) :
    ∃ front back, s = front ++ '(' :: back ∧ front.length = k ∧ Balanced front ∧
      ∀ start rest, start ++ rest = back → 0 ≤ height start := by
  induction h with
  | balanced hs => cases hk
  | @opening s t opened hs ht ih =>
    have habove : ∀ start rest, start ++ rest = t → 0 ≤ height start := (balanced_iff.mp ht).2
    cases hs with
    | balanced hs =>
      obtain rfl : s.length = k := by simpa using hk
      exact ⟨s, t, rfl, rfl, hs, habove⟩
    | opening hs' ht' =>
      rw [List.getLast?_cons_cons] at hk
      obtain ⟨front, back, heq, hlength, hfront, hback⟩ := ih hk
      refine ⟨front, back ++ '(' :: t, ?_, hlength, hfront, fun start rest hstart => ?_⟩
      · rw [heq, List.append_assoc, List.cons_append]
      -- A part that ends after the new opening parenthesis is a whole part and a part of the rest.
      rcases List.append_eq_append_iff.mp hstart with ⟨more, hmore, -⟩ | ⟨more, rfl, hmore⟩
      · exact hback start more hmore.symm
      · have hwhole := hback back [] (List.append_nil back)
        cases more with
        | nil => rwa [List.append_nil]
        | cons c more =>
          obtain ⟨rfl, hrest⟩ := List.cons.inj hmore
          have hmore' := habove more rest hrest.symm
          rw [height_append, height_opening]
          omega

end Waiting

/-- **One scan from start to end**: what is found in the whole text, after any start whose stack is
known. -/
theorem finds_unmatchedFrom {s : List Char} {opened : List ℕ} (h : Waiting s opened)
    (t : List Char) : Finds (s ++ t) (unmatchedFrom s.length opened t) := by
  induction t generalizing s opened with
  | nil =>
    rw [List.append_nil, unmatchedFrom]
    cases hlast : opened.getLast? with
    | none =>
      obtain rfl := List.getLast?_eq_none_iff.mp hlast
      cases h with
      | balanced hs => exact hs
    | some k =>
      obtain ⟨front, back, rfl, rfl, hfront, habove⟩ := h.exists_first hlast
      exact finds_opening hfront habove
  | cons c t ih =>
    have hcons : s ++ c :: t = s ++ [c] ++ t := by simp
    have hlength : s.length + 1 = (s ++ [c]).length := by simp
    unfold unmatchedFrom
    split
    · next hopening =>
      subst hopening
      rw [hcons, hlength]
      exact ih (.opening h balanced_nil)
    split
    · next hclosing =>
      subst hclosing
      cases opened with
      | nil =>
        cases h with
        | balanced hs => exact finds_closing hs t
      | cons i outer =>
        rw [hcons]
        show Finds _ (unmatchedFrom (s.length + 1) outer t)
        rw [hlength]
        exact ih h.close
    · next hopening hclosing =>
      rw [hcons, hlength]
      exact ih (h.append (balanced_singleton hopening hclosing))

theorem finds_unmatched? (s : List Char) : Finds s (unmatched? s) :=
  finds_unmatchedFrom (.balanced balanced_nil) s

/-! ## Texts of expressions -/

/-- The step that a token stands for. -/
def stepOfToken? : Token → Option DyckStep
  | .opening => some U
  | .closing => some D
  | _ => none

/-- The parentheses among the tokens of a phrase form a Dyck word. -/
theorem exists_dyckWord {c : Category} (d : Phrase c) :
    ∃ w : DyckWord, w.toList = d.tokens.filterMap stepOfToken? := by
  induction d with
  | endSum | endProduct | endPower | number text | percent text | constant name => exact ⟨0, rfl⟩
  | expression first rest ihFirst ihRest | term first rest ihFirst ihRest
  | juxtaposition first rest ihFirst ihRest | power first rest ihFirst ihRest
  | sum sign first rest ihFirst ihRest | product scale first rest ihFirst ihRest
  | raise first rest ihFirst ihRest =>
    obtain ⟨v, hv⟩ := ihFirst
    obtain ⟨w, hw⟩ := ihRest
    refine ⟨v + w, ?_⟩
    show v.toList ++ w.toList = _
    simp [Phrase.tokens, List.filterMap_cons, stepOfToken?, hv, hw]
  | signed sign operand ih | signedExponent sign operand ih =>
    obtain ⟨w, hw⟩ := ih
    exact ⟨w, by simp [Phrase.tokens, List.filterMap_cons, stepOfToken?, hw]⟩
  | factor operand ih | exponent operand ih => exact ih
  | call f argument ih | group argument ih =>
    obtain ⟨w, hw⟩ := ih
    refine ⟨w.nest, ?_⟩
    show [U] ++ w.toList ++ [D] = _
    simp [Phrase.tokens, List.filterMap_cons, stepOfToken?, hw]

/-- Text without parentheses has no steps. -/
theorem steps_eq_nil {s : List Char} (h : ∀ c ∈ s, c ≠ '(' ∧ c ≠ ')') : steps s = [] := by
  rw [steps, List.filterMap_eq_nil_iff]
  intro c hc
  obtain ⟨hopening, hclosing⟩ := h c hc
  rw [step?, if_neg hopening, if_neg hclosing]

/-- White space has no steps. -/
theorem steps_removeBlanks (s : List Char) : steps (Text.removeBlanks s) = steps s := by
  rw [steps, steps, Text.removeBlanks, List.filterMap_filter]
  refine List.filterMap_congr fun c _ => ?_
  by_cases hstep : step? c = none
  · simp [hstep]
  · have hparenthesis : c = '(' ∨ c = ')' := by
      unfold step? at hstep
      split_ifs at hstep with hopening hclosing
      · exact .inl hopening
      · exact .inr hclosing
      · exact absurd rfl hstep
    rcases hparenthesis with rfl | rfl <;> rfl

/-- The parentheses of a token are those of its text. -/
theorem steps_chars {t : Token} (h : t.Solid) : steps t.chars = (stepOfToken? t).toList := by
  have hnone {s : List Char}
      (hs : ∀ c ∈ s, Text.isDigit c = true ∨ c = '.' ∨ Text.isLetter c = true) :
      steps s = [] := by
    refine steps_eq_nil fun c hc => ⟨?_, ?_⟩
    · rintro rfl
      exact absurd (hs _ hc) (by decide)
    · rintro rfl
      exact absurd (hs _ hc) (by decide)
  cases h with
  | number h => exact hnone fun c hc => (h.isDigit_or_point c hc).imp_right .inl
  | name _ h => exact hnone fun c hc => .inr (.inr (h c hc))
  | operator op => cases op <;> rfl
  | opening | closing | percent => rfl

/-- The parentheses of a text are those of its tokens. -/
theorem steps_eq_of_ofChars {s : List Char} {tokens : List Token}
    (h : Token.ofChars s = .ok tokens) : steps s = tokens.filterMap stepOfToken? := by
  rw [← steps_removeBlanks, ← Token.flatMap_chars_of_ofChars h, steps, List.filterMap_flatMap,
    List.filterMap_eq_flatMap_toList stepOfToken?]
  exact List.flatMap_congr fun t ht => steps_chars (Token.solid_of_ofChars h t ht)

/-- **The text of an expression is balanced.** -/
theorem balanced_of_ofChars {s : List Char} {e : Expr} (h : Expr.ofChars s = .ok e) :
    Balanced s := by
  obtain ⟨tokens, htokens, hread⟩ := bind_eq_ok.mp h
  obtain ⟨d, rfl, -⟩ := Phrase.exists_of_ofTokens hread
  obtain ⟨w, hw⟩ := exists_dyckWord d
  exact ⟨w, hw.trans (steps_eq_of_ofChars htokens).symm⟩

/-! ## What is found -/

/-- **The scan finds the first parenthesis without a partner**, and nothing exactly if the text is
balanced, as the text of every expression is.  The partners are a matching: no parenthesis has
two. -/
theorem unmatched?_iff (s : List Char) :
    (unmatched? s = none ↔ Balanced s) ∧
    (∀ k, unmatched? s = some k ↔ Unmatched s k ∧ ∀ j < k, ¬ Unmatched s j) ∧
    (∀ i j k, (Partners s i j → Partners s i k → j = k) ∧
      (Partners s i k → Partners s j k → i = j) ∧ ¬ (Partners s i j ∧ Partners s j k)) ∧
    ∀ e, Expr.ofChars s = .ok e → unmatched? s = none ∧ Balanced s := by
  have hfinds := finds_unmatched? s
  have hnone : unmatched? s = none ↔ Balanced s := by
    constructor
    · intro h
      rwa [h] at hfinds
    · intro hbalanced
      cases h : unmatched? s with
      | none => rfl
      | some k =>
        rw [h] at hfinds
        exact absurd hfinds.1 (hbalanced.not_unmatched k)
  refine ⟨hnone, fun k => ⟨fun h => ?_, fun ⟨hk, hfirst⟩ => ?_⟩, fun i j k => ⟨?_, ?_, ?_⟩, ?_⟩
  · rwa [h] at hfinds
  · cases h : unmatched? s with
    | none => exact absurd hk ((hnone.mp h).not_unmatched k)
    | some l =>
      rw [h] at hfinds
      obtain ⟨hl, hbefore⟩ := hfinds
      have hle : k ≤ l := Nat.le_of_not_lt fun hlt => hfirst l hlt hl
      have hge : l ≤ k := Nat.le_of_not_lt fun hlt => hbefore k hlt hk
      rw [le_antisymm hle hge]
  · exact Partners.right_unique
  · exact Partners.left_unique
  · rintro ⟨hij, hjk⟩
    exact absurd (hij.closing.symm.trans hjk.opening) (by decide)
  · intro e h
    have hbalanced := balanced_of_ofChars h
    exact ⟨hnone.mpr hbalanced, hbalanced⟩

/-- The text of an expression, a text with parentheses of both kinds that have no partner, and one
with an opening parenthesis before a pair. -/
theorem unmatched?_iff_texts :
    (∃ e, Expr.ofChars "sin((1 + 2) * 3)".toList = .ok e ∧
      unmatched? "sin((1 + 2) * 3)".toList = none ∧ Balanced "sin((1 + 2) * 3)".toList) ∧
    Unmatched "(1 + 2)) * (3".toList 7 ∧ Unmatched "(1 + (2 * 3)".toList 0 := by
  refine ⟨?_, ?_, ?_⟩
  · have hok : (Expr.ofChars "sin((1 + 2) * 3)".toList).isOk := by decide +kernel
    cases he : Expr.ofChars "sin((1 + 2) * 3)".toList with
    | ok e => exact ⟨e, rfl, (unmatched?_iff _).2.2.2 e he⟩
    | error failure =>
      rw [he] at hok
      exact absurd hok Bool.false_ne_true
  · exact (((unmatched?_iff _).2.1 7).mp (by decide)).1
  · exact (((unmatched?_iff _).2.1 0).mp (by decide)).1

end Parentheses

end Stepwise
