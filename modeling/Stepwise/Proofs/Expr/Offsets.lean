/-
# Where the texts of nodes start

The nodes of an expression in pre-order are in the order in which their texts start.  Two nodes
start at the same place only if the first one is an operation and the other one stands at the very
left of it, so that two calls, or two groups, never do.  The call that a derivation resolves next,
the last one in pre-order, is therefore the one whose text starts rightmost.

* `StandsAt` : a text as a part of another one;
* `Expr.placed` : the nodes with the offsets of their texts;
* `Expr.standsAt_of_mem_placed`, `Expr.placed_ordered` : what stands at an offset, and their order;
* `Expr.Rightmost`, `Expr.rightmost_of_lastNode?` : the rightmost of some nodes;
* `Derivation.reduceCalls_rightmost`, `Derivation.reduceGroups_rightmost` : what a round resolves;
* `Expr.preorder_textual` : the order of the nodes and what follows from it.
-/
import Stepwise.Expr.Text
import Stepwise.Proofs.Expr.Nodes

namespace Stepwise

/-! ## Parts of texts -/

/-- A text is the part of another one that starts at an offset. -/
def StandsAt (part whole : List Char) (offset : Nat) : Prop :=
  ∃ before after, whole = before ++ part ++ after ∧ before.length = offset

namespace StandsAt

variable {part whole outer : List Char} {i j : Nat}

theorem refl (whole : List Char) : StandsAt whole whole 0 := ⟨[], [], by simp, rfl⟩

/-- The part after a text and before another one. -/
theorem between (before part after : List Char) :
    StandsAt part (before ++ part ++ after) before.length := ⟨before, after, rfl, rfl⟩

theorem trans (h : StandsAt part whole i) (h' : StandsAt whole outer j) :
    StandsAt part outer (j + i) := by
  obtain ⟨before, after, rfl, rfl⟩ := h
  obtain ⟨before', after', rfl, rfl⟩ := h'
  exact ⟨before' ++ before, after ++ after', by simp only [List.append_assoc],
    List.length_append⟩

theorem add_length_le (h : StandsAt part whole i) : i + part.length ≤ whole.length := by
  obtain ⟨before, after, rfl, rfl⟩ := h
  simp only [List.length_append]
  omega

end StandsAt

namespace Expr

/-! ## Offsets -/

/-- The nodes of an expression in pre-order, each with the offset at which its text starts, if the
text of the expression starts at a given one. -/
def placed : Expr → Nat → List (Nat × Expr)
  | e@(literal _), o => [(o, e)]
  | e@(constant _), o => [(o, e)]
  | e@(percent _), o => [(o, e)]
  | e@(negation operand), o => (o, e) :: operand.placed (o + 1)
  | e@(binary _ left right), o =>
    (o, e) :: (left.placed o ++ right.placed (o + (left.chars.length + 3)))
  | e@(call f argument), o => (o, e) :: argument.placed (o + (f.name.toList.length + 1))
  | e@(group inner), o => (o, e) :: inner.placed (o + 1)

variable {e : Expr} {o : Nat} {x : Nat × Expr}

/-- The nodes are the nodes in pre-order. -/
theorem map_snd_placed (e : Expr) (o : Nat) : (e.placed o).map Prod.snd = e.nodes := by
  induction e generalizing o with
  | literal value | constant name | percent value => rfl
  | negation operand ih | call f argument ih | group inner ih => simp only [placed, nodes, ih,
      List.map_cons]
  | binary op left right ihLeft ihRight => simp only [placed, nodes, ihLeft, ihRight, List.map_cons,
      List.map_append]

/-- The text of an operand within an operation. -/
theorem standsAt_left (op : Operator) (left right : Expr) :
    StandsAt left.chars (binary op left right).chars 0 :=
  StandsAt.between [] left.chars (' ' :: op.symbol :: ' ' :: right.chars)

theorem standsAt_right (op : Operator) (left right : Expr) :
    StandsAt right.chars (binary op left right).chars (left.chars.length + 3) :=
  ⟨left.chars ++ [' ', op.symbol, ' '], [], by simp [chars], by simp⟩

theorem standsAt_argument (f : FunctionName) (argument : Expr) :
    StandsAt argument.chars (call f argument).chars (f.name.toList.length + 1) :=
  ⟨f.name.toList ++ ['('], [')'], by simp [chars], by simp⟩

theorem standsAt_inner (inner : Expr) : StandsAt inner.chars (group inner).chars 1 :=
  StandsAt.between ['('] inner.chars [')']

theorem standsAt_operand (operand : Expr) : StandsAt operand.chars (negation operand).chars 1 :=
  ⟨['-'], [], by simp [chars], rfl⟩

/-- **At its offset stands the text of a node.** -/
theorem standsAt_of_mem_placed (h : x ∈ e.placed o) :
    ∃ i, x.1 = o + i ∧ StandsAt x.2.chars e.chars i := by
  have hself {e : Expr} {o : Nat} (hx : x = (o, e)) :
      ∃ i, x.1 = o + i ∧ StandsAt x.2.chars e.chars i := by
    subst hx
    exact ⟨0, rfl, .refl _⟩
  -- A part of a part is a part, and the offsets add up.
  have hpart {e part : Expr} {o i : Nat} (hin : StandsAt part.chars e.chars i)
      (hx : ∃ j, x.1 = o + i + j ∧ StandsAt x.2.chars part.chars j) :
      ∃ i, x.1 = o + i ∧ StandsAt x.2.chars e.chars i := by
    obtain ⟨j, hj, hstands⟩ := hx
    exact ⟨i + j, by rw [hj, Nat.add_assoc], hstands.trans hin⟩
  induction e generalizing o with
  | literal value | constant name | percent value => exact hself (List.mem_singleton.mp h)
  | negation operand ih =>
    rcases List.mem_cons.mp h with hx | hx
    · exact hself hx
    · exact hpart (standsAt_operand operand) (ih hx)
  | call f argument ih =>
    rcases List.mem_cons.mp h with hx | hx
    · exact hself hx
    · exact hpart (standsAt_argument f argument) (ih hx)
  | group inner ih =>
    rcases List.mem_cons.mp h with hx | hx
    · exact hself hx
    · exact hpart (standsAt_inner inner) (ih hx)
  | binary op left right ihLeft ihRight =>
    rcases List.mem_cons.mp h with hx | hx
    · exact hself hx
    · rcases List.mem_append.mp hx with hx | hx
      · exact hpart (standsAt_left op left right) (ihLeft hx)
      · exact hpart (standsAt_right op left right) (ihRight hx)

theorem le_of_mem_placed (h : x ∈ e.placed o) : o ≤ x.1 := by
  obtain ⟨i, hi, -⟩ := standsAt_of_mem_placed h
  omega

theorem lt_of_mem_placed {k : Nat} (h : x ∈ e.placed (o + (k + 1))) : o < x.1 := by
  have hle := le_of_mem_placed h
  omega

/-- The text of a node ends before the text of the expression does. -/
theorem add_length_le_of_mem_placed (h : x ∈ e.placed o) :
    x.1 + x.2.chars.length ≤ o + e.chars.length := by
  obtain ⟨i, hi, hstands⟩ := standsAt_of_mem_placed h
  have hle := hstands.add_length_le
  omega

/-- A node starts before another one, or it is an operation at the very left of which the other one
stands. -/
def StartsBefore (x y : Nat × Expr) : Prop :=
  x.1 < y.1 ∨ x.1 = y.1 ∧ ∃ op left right, x.2 = binary op left right

theorem StartsBefore.le {x y : Nat × Expr} (h : StartsBefore x y) : x.1 ≤ y.1 := by
  rcases h with hlt | ⟨heq, -⟩
  · exact Nat.le_of_lt hlt
  · exact Nat.le_of_eq heq

/-- **Pre-order is the order of the texts.** -/
theorem placed_ordered (e : Expr) (o : Nat) : (e.placed o).Pairwise StartsBefore := by
  induction e generalizing o with
  | literal value | constant name | percent value => exact List.pairwise_singleton _ _
  | negation operand ih | call f argument ih | group inner ih =>
    exact List.pairwise_cons.mpr ⟨fun y hy => .inl (lt_of_mem_placed hy), ih _⟩
  | binary op left right ihLeft ihRight =>
    refine List.pairwise_cons.mpr ⟨fun y hy => ?_, List.pairwise_append.mpr
      ⟨ihLeft o, ihRight _, fun x hx y hy => .inl ?_⟩⟩
    · -- Only the left operand, and what stands at its very left, starts with the operation.
      have hle : o ≤ y.1 := by
        rcases List.mem_append.mp hy with hy | hy
        · exact le_of_mem_placed hy
        · exact Nat.le_trans (Nat.le_add_right _ _) (le_of_mem_placed hy)
      rcases Nat.lt_or_eq_of_le hle with hlt | heq
      · exact .inl hlt
      · exact .inr ⟨heq, op, left, right, rfl⟩
    · have hend := add_length_le_of_mem_placed hx
      have hstart := le_of_mem_placed hy
      omega

/-! ## The rightmost of some nodes -/

/-- The node of number `i` satisfies a condition, and no node inside of it does; its text starts
to the right of all others that do. -/
structure Rightmost (p : Expr → Bool) (e : Expr) (i : Nat) (n : Expr) : Prop where
  holds : p n = true
  alone : ∀ m ∈ n.nodes.tail, p m = false
  rightmost : ∃ o, (e.placed 0)[i]? = some (o, n) ∧
    ∀ j x, (e.placed 0)[j]? = some x → p x.2 = true → j ≠ i → x.1 < o

variable {p : Expr → Bool} {n : Expr} {i : Nat}

/-- **The last node in pre-order starts rightmost**, unless operations are searched for. -/
theorem rightmost_of_lastNode? (hp : ∀ op left right, p (binary op left right) = false)
    (h : e.lastNode? p = some (i, n)) : Rightmost p e i n := by
  obtain ⟨-, hn, halone⟩ := lastNode?_eq_some h
  obtain ⟨before, after, hnodes, rfl, -, hafter⟩ := lastNode?_eq_some_iff.mp h
  have hsnd (j : Nat) : ((e.placed 0)[j]?).map Prod.snd = e.nodes[j]? := by
    rw [← List.getElem?_map, map_snd_placed]
  obtain ⟨⟨o, _⟩, hplaced, rfl⟩ : ∃ x, (e.placed 0)[before.length]? = some x ∧ x.2 = n := by
    rw [← Option.map_eq_some_iff, hsnd, hnodes]
    simp
  refine ⟨hn, halone, o, hplaced, fun j x hx hholds hne => ?_⟩
  have hj : e.nodes[j]? = some x.2 := by
    rw [← hsnd, hx, Option.map_some]
  have hlt : j < before.length := by
    refine Nat.lt_of_le_of_ne (Nat.le_of_not_lt fun hgt => ?_) hne
    -- Behind the last one, the condition does not hold.
    obtain ⟨k, rfl⟩ := Nat.exists_eq_add_of_lt hgt
    rw [hnodes, Nat.add_assoc, List.getElem?_append_right (Nat.le_add_right _ _),
      Nat.add_sub_cancel_left, List.getElem?_cons_succ] at hj
    rw [hafter _ (List.mem_of_getElem? hj)] at hholds
    cases hholds
  obtain ⟨hjlt, hjx⟩ := List.getElem?_eq_some_iff.mp hx
  obtain ⟨hilt, hio⟩ := List.getElem?_eq_some_iff.mp hplaced
  have hbefore := List.pairwise_iff_getElem.mp (e.placed_ordered 0) j before.length hjlt hilt hlt
  rw [hjx, hio] at hbefore
  rcases hbefore with hstarts | ⟨-, op, left, right, hbinary⟩
  · exact hstarts
  · rw [hbinary, hp] at hholds
    cases hholds

/-- The last group has no group inside, so that it is the last one of this kind. -/
theorem lastNode?_isInnermostGroup (e : Expr) :
    e.lastNode? Derivation.isInnermostGroup = e.lastNode? isGroup := by
  have hgroup {m : Expr} (hm : m.isGroup = false) : Derivation.isInnermostGroup m = false := by
    cases m <;> first | rfl | cases hm
  cases h : e.lastNode? isGroup with
  | none =>
    cases h' : e.lastNode? Derivation.isInnermostGroup with
    | none => rfl
    | some found =>
      obtain ⟨before, after, hnodes, -, hinnermost, -⟩ := lastNode?_eq_some_iff.mp h'
      rw [hgroup (lastNode?_eq_none h _ (by simp [hnodes]))] at hinnermost
      cases hinnermost
  | some found =>
    obtain ⟨i, n⟩ := found
    obtain ⟨-, hn, halone⟩ := lastNode?_eq_some h
    obtain ⟨before, after, hnodes, hlength, -, hafter⟩ := lastNode?_eq_some_iff.mp h
    refine lastNode?_eq_some_iff.mpr
      ⟨before, after, hnodes, hlength, ?_, fun m hm => hgroup (hafter m hm)⟩
    cases n with
    | group inner =>
      rw [Derivation.isInnermostGroup, Bool.not_eq_true', List.any_eq_false]
      exact fun m hm => Bool.eq_false_iff.mp (halone m hm)
    | literal value | constant name | percent value | negation operand | binary op left right
    | call f argument => cases hn

end Expr

/-! ## What a round resolves -/

namespace Derivation

/-- The call of a given number is replaced by its result, and the derivation goes on. -/
def resolveCall (ops : Operations) (inner : Expr → Except Failure Reduced)
    (next : Derivation → Derivation) (d : Derivation) (i : Nat) (f : FunctionName)
    (argument : Expr) : Derivation :=
  match inner argument with
  | .error failure => d.stop failure
  | .ok reduced =>
    let d := if reduced.trace.isEmpty then d else d.record d.tree (.argument f argument)
    match ops.function f reduced.value with
    | .error failure => d.stop failure
    | .ok result =>
      next (d.record (d.tree.setNode i (.literal result)) (.call f reduced.value result))

/-- The group of a given number is replaced by its value, and the derivation goes on. -/
def resolveGroup (inner : Expr → Except Failure Reduced) (next : Derivation → Derivation)
    (d : Derivation) (i : Nat) (content : Expr) : Derivation :=
  match inner content with
  | .error failure => d.stop failure
  | .ok reduced =>
    next (d.record (d.tree.setNode i (.literal reduced.value)) (.group content reduced.value))

variable (ops : Operations) (inner : Expr → Except Failure Reduced) (fuel : Nat) (d : Derivation)

/-- **A round resolves the rightmost call**, as long as there is one. -/
theorem reduceCalls_rightmost :
    ((∀ n ∈ d.tree.nodes, n.isCall = false) ∧ d.reduceCalls ops inner (fuel + 1) = d) ∨
      ∃ i f argument, Expr.Rightmost Expr.isCall d.tree i (.call f argument) ∧
        d.reduceCalls ops inner (fuel + 1) =
          d.resolveCall ops inner (reduceCalls ops inner fuel) i f argument := by
  cases hlast : d.tree.lastNode? Expr.isCall with
  | none => exact .inl ⟨Expr.lastNode?_eq_none hlast, by simp only [reduceCalls, hlast]⟩
  | some found =>
    obtain ⟨i, n⟩ := found
    have hrightmost := Expr.rightmost_of_lastNode? (fun _ _ _ => rfl) hlast
    obtain ⟨f, argument, rfl⟩ : ∃ f argument, n = .call f argument := by
      have hcall := hrightmost.holds
      cases n <;> first | exact ⟨_, _, rfl⟩ | cases hcall
    refine .inr ⟨i, f, argument, hrightmost, ?_⟩
    simp only [reduceCalls, hlast]
    rfl

/-- **A round resolves the rightmost group**, as long as there is one; it has no group inside. -/
theorem reduceGroups_rightmost :
    ((∀ n ∈ d.tree.nodes, n.isGroup = false) ∧ d.reduceGroups inner (fuel + 1) = d) ∨
      ∃ i content, Expr.Rightmost Expr.isGroup d.tree i (.group content) ∧
        Expr.Rightmost isInnermostGroup d.tree i (.group content) ∧
        d.reduceGroups inner (fuel + 1) =
          d.resolveGroup inner (reduceGroups inner fuel) i content := by
  have hinnermost := d.tree.lastNode?_isInnermostGroup
  cases hlast : d.tree.lastNode? Expr.isGroup with
  | none =>
    rw [hlast] at hinnermost
    exact .inl ⟨Expr.lastNode?_eq_none hlast, by simp only [reduceGroups, hinnermost]⟩
  | some found =>
    obtain ⟨i, n⟩ := found
    rw [hlast] at hinnermost
    have hrightmost := Expr.rightmost_of_lastNode? (fun _ _ _ => rfl) hlast
    obtain ⟨content, rfl⟩ : ∃ content, n = .group content := by
      have hgroup := hrightmost.holds
      cases n <;> first | exact ⟨_, rfl⟩ | cases hgroup
    refine .inr ⟨i, content, hrightmost,
      Expr.rightmost_of_lastNode? (fun _ _ _ => rfl) hinnermost, ?_⟩
    simp only [reduceGroups, hinnermost]
    rfl

end Derivation

/-- **Pre-order is textual order**: the nodes have offsets, which never decrease in pre-order, and
at its offset in the text of the expression each node has its own text.  So the call that a round
resolves is the one whose text starts rightmost, and has no call inside; and the group that a round
resolves starts to the right of all other groups, and has no group inside. -/
theorem Expr.preorder_textual (e : Expr) :
    (e.placed 0).map Prod.snd = e.nodes ∧
      ((e.placed 0).map Prod.fst).Pairwise (· ≤ ·) ∧
      (∀ x ∈ e.placed 0, StandsAt x.2.chars e.chars x.1) ∧
      (∀ ops inner fuel trace failure,
        let d : Derivation := ⟨e, trace, failure⟩
        ((∀ n ∈ e.nodes, n.isCall = false) ∧ d.reduceCalls ops inner (fuel + 1) = d) ∨
          ∃ i f argument, Rightmost isCall e i (.call f argument) ∧
            d.reduceCalls ops inner (fuel + 1) =
              d.resolveCall ops inner (.reduceCalls ops inner fuel) i f argument) ∧
      ∀ inner fuel trace failure,
        let d : Derivation := ⟨e, trace, failure⟩
        ((∀ n ∈ e.nodes, n.isGroup = false) ∧ d.reduceGroups inner (fuel + 1) = d) ∨
          ∃ i content, Rightmost isGroup e i (.group content) ∧
            Rightmost Derivation.isInnermostGroup e i (.group content) ∧
            d.reduceGroups inner (fuel + 1) =
              d.resolveGroup inner (.reduceGroups inner fuel) i content := by
  refine ⟨map_snd_placed e 0, ?_, fun x hx => ?_, fun ops inner fuel trace failure =>
    Derivation.reduceCalls_rightmost ops inner fuel ⟨e, trace, failure⟩,
    fun inner fuel trace failure =>
      Derivation.reduceGroups_rightmost inner fuel ⟨e, trace, failure⟩⟩
  · exact List.pairwise_map.mpr ((placed_ordered e 0).imp StartsBefore.le)
  · obtain ⟨i, hi, hstands⟩ := standsAt_of_mem_placed hx
    rwa [hi, Nat.zero_add]

/-- In `sin(1) + (2)` the sum and the call start together. -/
example : ((Expr.binary .add (.call .sin (.literal 1)) (.group (.literal 2))).placed 0).map
    Prod.fst = [0, 0, 4, 9, 10] := by decide +kernel

end Stepwise
