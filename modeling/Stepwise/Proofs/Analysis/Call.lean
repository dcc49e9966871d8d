/-
# The argument of a call

A text that is a call and nothing else has its argument between the first and the last parenthesis,
unless a character in it ends the search early: a line break in a derivative, a comma in an
indefinite integral.

* `Call.beforeLast?_append` : a text up to its last parenthesis;
* `Call.derivative?_call`, `Call.integral?_call` : the argument of a call.
-/
import Stepwise.Analysis.Call

namespace Stepwise.Call

variable {α : Type} {inner : List Char}

/-- A text that ends in the separator is found up to there. -/
theorem beforeLast?_append (separator : Char) (s : List Char) :
    beforeLast? separator (s ++ [separator]) = some s := by
  induction s with
  | nil => simp [beforeLast?]
  | cons c s ih => rw [List.cons_append, beforeLast?, ih]

/-- A call at the start of a text is the first one. -/
theorem findCall?_start {word : List Char} (hword : word ≠ []) {argument : List Char → Option α}
    {rest : List Char} {a : α} (h : argument rest = some a) :
    findCall? word argument (word ++ '(' :: rest) = some a := by
  have hfront : word.isPrefixOf (word ++ '(' :: rest) = true :=
    List.isPrefixOf_iff_prefix.mpr (List.prefix_append word _)
  have hcall : callAt? word argument (word ++ '(' :: rest) = some a := by
    rw [callAt?, if_pos hfront, List.drop_left]
    exact h
  obtain ⟨c, s, rfl⟩ := List.exists_cons_of_ne_nil hword
  rw [List.cons_append] at hcall ⊢
  rw [findCall?, hcall]

/-- An argument without the character that ends it early goes on to the last parenthesis. -/
theorem argument_eq {stop : Char} (hstop : stop ≠ ')') (hne : inner ≠ []) (h : stop ∉ inner) :
    (beforeLast? ')' ((inner ++ [')']).takeWhile (· ≠ stop))).bind nonempty? = some inner := by
  have hall : ∀ c ∈ inner, decide (c ≠ stop) = true := by
    intro c hc
    rw [decide_eq_true_eq]
    rintro rfl
    exact h hc
  have hlast : [')'].takeWhile (fun c => decide (c ≠ stop)) = [')'] := by
    simp [Ne.symm hstop]
  have hkeep : nonempty? inner = some inner := by
    rw [nonempty?, if_neg (by simpa using hne)]
  rw [List.takeWhile_append_of_pos hall, hlast, beforeLast?_append]
  exact hkeep

/-- The argument of a derivative is read if it is within one line. -/
theorem derivative?_call (hne : inner ≠ []) (h : '\n' ∉ inner) :
    derivative? ("d/dx(" ++ String.ofList inner ++ ")").toList = some inner := by
  have htext : ("d/dx(" ++ String.ofList inner ++ ")").toList =
      derivativeWord ++ '(' :: (inner ++ [')']) := by
    simp [derivativeWord]
  rw [htext]
  exact findCall?_start (by decide) (argument_eq (by decide) hne h)

/-- The argument of an indefinite integral is read if it has no commas. -/
theorem integral?_call (hne : inner ≠ []) (h : ',' ∉ inner) :
    integral? ("integrate(" ++ String.ofList inner ++ ")").toList = some inner := by
  have htext : ("integrate(" ++ String.ofList inner ++ ")").toList =
      integralWord ++ '(' :: (inner ++ [')']) := by
    simp [integralWord]
  rw [htext]
  exact findCall?_start (by decide) (argument_eq (by decide) hne h)

end Stepwise.Call
