/-
# The reductions that an expression needs

How often each kind of reduction occurs in the derivation of an expression can be counted in the
expression itself.  Constants are substituted once, and so are percentages converted; the calls, the
groups with the percentages, and the operators are counted node by node.  What stands below a call
or a group is reduced by a derivation of its own, whose reductions are not shown.

* `Reduction.Kind`, `Reduction.kind` : the kinds of reductions;
* `Expr.needsWork` : arguments that take reductions of their own;
* `Expr.due` : the number of reductions of a kind that an expression needs;
* `Expr.due_setNode`, `Expr.due_mapLeaves` : what is still needed after a reduction.
-/
import Stepwise.Proofs.Expr.Precedence

namespace Stepwise

/-! ## Kinds of reductions -/

/-- What a reduction deals with. -/
inductive Reduction.Kind where
  | constants | percentages | argument | call | group | fold
  deriving DecidableEq

/-- The kind of a reduction. -/
def Reduction.kind : Reduction → Reduction.Kind
  | constants => .constants
  | percentages => .percentages
  | argument .. => .argument
  | call .. => .call
  | group .. => .group
  | fold .. => .fold

/-- The kinds of which there are as many reductions as nodes. -/
def Reduction.Kind.Counted (k : Reduction.Kind) : Prop := k ≠ .constants ∧ k ≠ .percentages

/-- The kinds of nodes below which the reductions of a kind are not shown. -/
def Reduction.Kind.hiding : Reduction.Kind → List Expr.Kind
  | group => [.call]
  | fold => [.call, .group]
  | _ => []

namespace Expr

/-! ## Counting -/

/-- The nodes that are not below a node of one of the kinds. -/
def nodesOutside (kinds : List Kind) : Expr → List Expr
  | e@(literal _) => [e]
  | e@(constant _) => [e]
  | e@(percent _) => [e]
  | e@(negation operand) =>
    e :: if .negation ∈ kinds then [] else operand.nodesOutside kinds
  | e@(binary op left right) =>
    e :: if .operator op ∈ kinds then []
      else left.nodesOutside kinds ++ right.nodesOutside kinds
  | e@(call _ argument) => e :: if .call ∈ kinds then [] else argument.nodesOutside kinds
  | e@(group inner) => e :: if .group ∈ kinds then [] else inner.nodesOutside kinds

/-- The argument takes reductions of its own: behind its signs there is neither a number nor a
constant nor a call, all of which are numbers by the time the argument is reduced. -/
def needsWork : Expr → Bool
  | literal _ => false
  | constant _ => false
  | percent _ => true
  | negation operand => operand.needsWork
  | binary .. => true
  | call .. => false
  | group _ => true

/-- A node that asks for a reduction of a kind. -/
def asksFor : Reduction.Kind → Expr → Bool
  | .constants, constant _ => true
  | .percentages, percent _ => true
  | .argument, call _ argument => argument.needsWork
  | .call, call .. => true
  | .group, group _ => true
  | .group, percent _ => true
  | .fold, binary .. => true
  | _, _ => false

/-- The number of reductions of a kind that an expression needs. -/
def due (e : Expr) : Reduction.Kind → Nat
  | .constants => if e.nodes.any (asksFor .constants) then 1 else 0
  | .percentages => if e.nodes.any (asksFor .percentages) then 1 else 0
  | .argument => e.nodes.countP (asksFor .argument)
  | .call => e.nodes.countP (asksFor .call)
  | .group => (e.nodesOutside [.call]).countP (asksFor .group)
  | .fold => (e.nodesOutside [.call, .group]).countP (asksFor .fold)

/-- The number of reductions that an expression needs. -/
def dueTotal (e : Expr) : Nat :=
  e.due .constants + e.due .percentages + e.due .argument + e.due .call + e.due .group
    + e.due .fold

/-! ## Counts of composed expressions -/

variable {e n operand left right argument inner : Expr} {op : Operator} {f : FunctionName}
  {k : Reduction.Kind} {i : Nat}

@[simp] theorem due_literal (v : Double) (k : Reduction.Kind) : (literal v).due k = 0 := by
  cases k <;> rfl

@[simp] theorem due_negation (operand : Expr) (k : Reduction.Kind) :
    (negation operand).due k = operand.due k := by
  cases k <;> simp [due, nodes, nodesOutside, asksFor]

@[simp] theorem due_negate (e : Expr) (k : Reduction.Kind) : e.negate.due k = e.due k := by
  cases e with
  | literal v => simp [negate]
  | constant name | percent value | negation operand | binary op left right | call f argument
  | group inner => exact due_negation _ k

theorem due_binary (hk : k.Counted) :
    (binary op left right).due k =
      left.due k + right.due k + if asksFor k (binary op left right) then 1 else 0 := by
  cases k with
  | constants => exact absurd rfl hk.1
  | percentages => exact absurd rfl hk.2
  | argument | call | group | fold =>
    simp [due, nodes, nodesOutside, List.countP_cons, List.countP_append]

theorem due_call (hk : k.Counted) :
    (call f argument).due k = (if .call ∈ k.hiding then 0 else argument.due k) +
      if asksFor k (call f argument) then 1 else 0 := by
  cases k with
  | constants => exact absurd rfl hk.1
  | percentages => exact absurd rfl hk.2
  | argument | call | group | fold =>
    simp [due, nodes, nodesOutside, List.countP_cons, Reduction.Kind.hiding]

theorem due_group (hk : k.Counted) :
    (group inner).due k = (if .group ∈ k.hiding then 0 else inner.due k) +
      if asksFor k (group inner) then 1 else 0 := by
  cases k with
  | constants => exact absurd rfl hk.1
  | percentages => exact absurd rfl hk.2
  | argument | call | group | fold =>
    simp [due, nodes, nodesOutside, List.countP_cons, Reduction.Kind.hiding]

/-! ## What is gone -/

theorem due_constants_eq_zero (h : e.Avoids .constant) : e.due .constants = 0 := by
  refine if_neg ?_
  rw [List.any_eq_true]
  rintro ⟨n, hn, hasks⟩
  refine h n hn ?_
  cases n <;> first | rfl | cases hasks

theorem due_percentages_eq_zero (h : e.Avoids .percent) : e.due .percentages = 0 := by
  refine if_neg ?_
  rw [List.any_eq_true]
  rintro ⟨n, hn, hasks⟩
  refine h n hn ?_
  cases n <;> first | rfl | cases hasks

theorem due_call_eq_zero (h : e.Avoids .call) : e.due .call = 0 := by
  rw [due, List.countP_eq_zero]
  intro n hn hasks
  refine h n hn ?_
  cases n <;> first | rfl | cases hasks

theorem due_argument_eq_zero (h : e.Avoids .call) : e.due .argument = 0 := by
  rw [due, List.countP_eq_zero]
  intro n hn hasks
  refine h n hn ?_
  cases n <;> first | rfl | cases hasks

/-- Without groups and percentages, no group needs a reduction. -/
theorem due_group_eq_zero (hgroup : e.Avoids .group) (hpercent : e.Avoids .percent) :
    e.due .group = 0 := by
  induction e with
  | literal value => rfl
  | constant name => rfl
  | percent value => exact absurd rfl (hpercent _ (self_mem_nodes _))
  | negation operand ih =>
    rw [due_negation]
    exact ih (Avoids.negation_iff.mp hgroup).2 (Avoids.negation_iff.mp hpercent).2
  | binary op left right ihLeft ihRight =>
    obtain ⟨-, hgroupLeft, hgroupRight⟩ := Avoids.binary_iff.mp hgroup
    obtain ⟨-, hpercentLeft, hpercentRight⟩ := Avoids.binary_iff.mp hpercent
    rw [due_binary ⟨by decide, by decide⟩, ihLeft hgroupLeft hpercentLeft,
      ihRight hgroupRight hpercentRight]
    rfl
  | call f argument => rfl
  | group inner => exact absurd rfl (hgroup _ (self_mem_nodes _))

/-- An argument without constants, percentages and calls takes reductions of its own exactly when it
needs some. -/
theorem needsWork_iff (hconstant : e.Avoids .constant) (hpercent : e.Avoids .percent)
    (hcall : e.Avoids .call) : e.needsWork = true ↔ 0 < e.dueTotal := by
  have htotal : e.dueTotal = e.due .group + e.due .fold := by
    rw [dueTotal, due_constants_eq_zero hconstant, due_percentages_eq_zero hpercent,
      due_argument_eq_zero hcall, due_call_eq_zero hcall]
    omega
  rw [htotal]
  clear htotal
  induction e with
  | literal value => simp [needsWork]
  | constant name => exact absurd rfl (hconstant _ (self_mem_nodes _))
  | percent value => exact absurd rfl (hpercent _ (self_mem_nodes _))
  | negation operand ih =>
    rw [due_negation, due_negation]
    exact ih (Avoids.negation_iff.mp hconstant).2 (Avoids.negation_iff.mp hpercent).2
      (Avoids.negation_iff.mp hcall).2
  | binary op left right =>
    have hfold : 0 < (binary op left right).due .fold := by
      rw [due_binary ⟨by decide, by decide⟩]
      exact Nat.succ_pos _
    exact ⟨fun _ => Nat.add_pos_right _ hfold, fun _ => rfl⟩
  | call f argument => exact absurd rfl (hcall _ (self_mem_nodes _))
  | group inner =>
    have hgroup : 0 < (group inner).due .group := by
      rw [due_group ⟨by decide, by decide⟩]
      exact Nat.succ_pos _
    exact ⟨fun _ => Nat.add_pos_left hgroup _, fun _ => rfl⟩

/-! ## After a reduction -/

@[simp] theorem needsWork_negate (e : Expr) : e.negate.needsWork = e.needsWork := by
  cases e <;> rfl

/-- A call replaced by its result does not change whether an argument needs work. -/
theorem needsWork_setNode (hat : NodeAt e i n) (hn : n.isCall = true) (v : Double) :
    (e.setNode i (literal v)).needsWork = e.needsWork := by
  induction hat with
  | self e =>
    rw [setNode_zero]
    cases e <;> first | rfl | cases hn
  | negation hat ih =>
    rw [setNode, needsWork_negate, ih hn]
    rfl
  | left hat ih =>
    rw [NodeAt.setNode_left hat]
    rfl
  | right hat ih =>
    rw [NodeAt.setNode_right]
    rfl
  | call hat ih | group hat ih => rfl

/-- A node replaced by a number takes with it what it needs itself.  Either it is not below a node
that hides it, or there is nothing to be hidden. -/
theorem due_setNode (hat : NodeAt e i n) (v : Double) (hk : k.Counted)
    (hargument : n.isCall = true ∨ e.Avoids .call)
    (hvisible : n.due k = 0 ∨ ∀ kind ∈ k.hiding, e.Avoids kind) :
    (e.setNode i (literal v)).due k + n.due k = e.due k := by
  induction hat with
  | self e => rw [setNode_zero, due_literal, Nat.zero_add]
  | negation hat ih =>
    rw [setNode, due_negate, due_negation]
    exact ih (hargument.imp_right fun h => (Avoids.negation_iff.mp h).2)
      (hvisible.imp_right fun h kind hkind => (Avoids.negation_iff.mp (h kind hkind)).2)
  | @left op left right n i hat ih =>
    have hleft := ih (hargument.imp_right fun h => (Avoids.binary_iff.mp h).2.1)
      (hvisible.imp_right fun h kind hkind => (Avoids.binary_iff.mp (h kind hkind)).2.1)
    have hasks : asksFor k (binary op (left.setNode i (literal v)) right) =
        asksFor k (binary op left right) := by cases k <;> rfl
    rw [NodeAt.setNode_left hat, due_binary hk, due_binary hk, hasks, ← hleft]
    omega
  | @right op left right n i hat ih =>
    have hright := ih (hargument.imp_right fun h => (Avoids.binary_iff.mp h).2.2)
      (hvisible.imp_right fun h kind hkind => (Avoids.binary_iff.mp (h kind hkind)).2.2)
    have hasks : asksFor k (binary op left (right.setNode i (literal v))) =
        asksFor k (binary op left right) := by cases k <;> rfl
    rw [NodeAt.setNode_right, due_binary hk, due_binary hk, hasks, ← hright]
    omega
  | @call f argument n i hat ih =>
    -- The tree has a call, so the node is a call itself.
    have hcall : n.isCall = true :=
      hargument.resolve_right fun h => (Avoids.call_iff.mp h).1 rfl
    have hasks : asksFor k (call f (argument.setNode i (literal v))) =
        asksFor k (call f argument) := by
      cases k <;> first | rfl | exact needsWork_setNode hat hcall v
    rw [setNode, due_call hk, due_call hk, hasks]
    by_cases hhidden : .call ∈ k.hiding
    · have hn : n.due k = 0 :=
        hvisible.resolve_right fun h => (Avoids.call_iff.mp (h _ hhidden)).1 rfl
      rw [if_pos hhidden, if_pos hhidden, hn]
      rfl
    · have hinside := ih (.inl hcall)
        (hvisible.imp_right fun h kind hkind => (Avoids.call_iff.mp (h kind hkind)).2)
      rw [if_neg hhidden, if_neg hhidden, ← hinside]
      omega
  | @group inner n i hat ih =>
    have hasks : asksFor k (group (inner.setNode i (literal v))) = asksFor k (group inner) := by
      cases k <;> rfl
    rw [setNode, due_group hk, due_group hk, hasks]
    by_cases hhidden : .group ∈ k.hiding
    · have hn : n.due k = 0 :=
        hvisible.resolve_right fun h => (Avoids.group_iff.mp (h _ hhidden)).1 rfl
      rw [if_pos hhidden, if_pos hhidden, hn]
      rfl
    · have hinside := ih (hargument.imp_right fun h => (Avoids.group_iff.mp h).2)
        (hvisible.imp_right fun h kind hkind => (Avoids.group_iff.mp (h kind hkind)).2)
      rw [if_neg hhidden, if_neg hhidden, ← hinside]
      omega

section Leaves

variable {onConstant : ConstantName → Expr} {onPercent : Double → Expr}

theorem needsWork_mapLeaves (hconstant : ∀ c, (onConstant c).needsWork = false)
    (hpercent : ∀ v, (onPercent v).needsWork = true) (e : Expr) :
    (e.mapLeaves onConstant onPercent).needsWork = e.needsWork := by
  induction e with
  | literal value | binary op left right | call f argument | group inner => rfl
  | constant name => exact hconstant name
  | percent value => exact hpercent value
  | negation operand ih => rw [mapLeaves, needsWork_negate, ih, needsWork]

/-- Leaves replaced by what needs as much leave the count of the tree. -/
theorem due_mapLeaves (hk : k.Counted) (hconstant : ∀ c, (onConstant c).needsWork = false)
    (hpercent : ∀ v, (onPercent v).needsWork = true)
    (hdueConstant : ∀ c, (onConstant c).due k = (constant c).due k)
    (hduePercent : ∀ v, (onPercent v).due k = (percent v).due k) (e : Expr) :
    (e.mapLeaves onConstant onPercent).due k = e.due k := by
  induction e with
  | literal value => rfl
  | constant name => exact hdueConstant name
  | percent value => exact hduePercent value
  | negation operand ih => rw [mapLeaves, due_negate, due_negation, ih]
  | binary op left right ihLeft ihRight =>
    rw [mapLeaves, due_binary hk, due_binary hk, ihLeft, ihRight]
    cases k <;> rfl
  | call f argument ih =>
    have hasks : asksFor k (call f (argument.mapLeaves onConstant onPercent)) =
        asksFor k (call f argument) := by
      cases k <;> first | rfl | exact needsWork_mapLeaves hconstant hpercent argument
    rw [mapLeaves, due_call hk, due_call hk, ih, hasks]
  | group inner ih =>
    rw [mapLeaves, due_group hk, due_group hk, ih]
    cases k <;> rfl

/-- Constants replaced by numbers leave the percentages. -/
theorem any_percent_mapLeaves (value : ConstantName → Double) (e : Expr) :
    (e.mapLeaves (fun c => literal (value c)) percent).nodes.any (asksFor .percentages) =
      e.nodes.any (asksFor .percentages) := by
  induction e with
  | literal value | constant name | percent value => rfl
  | negation operand ih =>
    have hnegate (e : Expr) : e.negate.nodes.any (asksFor .percentages) =
        e.nodes.any (asksFor .percentages) := by
      cases e <;> simp [negate, nodes, asksFor]
    rw [mapLeaves, hnegate, ih]
    simp [nodes, asksFor]
  | binary op left right ihLeft ihRight => simp [mapLeaves, nodes, asksFor, ihLeft, ihRight]
  | call f argument ih | group inner ih => simp [mapLeaves, nodes, asksFor, ih]

end Leaves

/-- After the constants are substituted, everything else is still needed. -/
theorem due_substitute (value : ConstantName → Double) (e : Expr) (k : Reduction.Kind) :
    (e.mapLeaves (fun c => literal (value c)) percent).due k =
      if k = .constants then 0 else e.due k := by
  by_cases hconstants : k = .constants
  · rw [if_pos hconstants, hconstants]
    exact due_constants_eq_zero (Avoids.mapLeaves (.inr (.inl rfl)) (fun c _ => .literal _)
      (fun v _ => by simp [Avoids, nodes, kind?]))
  · rw [if_neg hconstants]
    by_cases hpercentages : k = .percentages
    · rw [hpercentages, due, any_percent_mapLeaves, due]
    · exact due_mapLeaves ⟨hconstants, hpercentages⟩ (fun _ => rfl) (fun _ => rfl)
        (fun c => by cases k <;> first | rfl | exact absurd rfl hconstants) (fun _ => rfl) e

/-- After the percentages are converted, everything else is still needed: a percentage is counted
among the groups, and the division in its place stands below one. -/
theorem due_convert (divisor : Double) {e : Expr} (hconstant : e.Avoids .constant)
    (k : Reduction.Kind) :
    (e.mapLeaves constant fun v => group (binary .div (literal v) (literal divisor))).due k =
      if k = .percentages then 0 else e.due k := by
  by_cases hpercentages : k = .percentages
  · rw [if_pos hpercentages, hpercentages]
    exact due_percentages_eq_zero (Avoids.mapLeaves (.inr (.inr rfl))
      (fun c _ => by simp [Avoids, nodes, kind?]) (fun v _ => by simp [Avoids, nodes, kind?]))
  · rw [if_neg hpercentages]
    by_cases hconstants : k = .constants
    · rw [hconstants, due_constants_eq_zero (Avoids.mapLeaves (.inl hconstant)
        (fun c hc => absurd rfl (hconstant _ hc)) (fun v _ => by simp [Avoids, nodes, kind?])),
        due_constants_eq_zero hconstant]
    · exact due_mapLeaves ⟨hconstants, hpercentages⟩ (fun _ => rfl) (fun _ => rfl) (fun _ => rfl)
        (fun v => by cases k <;> first | rfl | exact absurd rfl hpercentages) e

/-- A node replaced by a number takes with it what it needs itself, once the constants and the
percentages are gone. -/
theorem due_setNode_of_avoids (hat : NodeAt e i n) (v : Double) (hconstant : e.Avoids .constant)
    (hpercent : e.Avoids .percent) (hargument : n.isCall = true ∨ e.Avoids .call)
    (hvisible : ∀ k, n.due k = 0 ∨ ∀ kind ∈ Reduction.Kind.hiding k, e.Avoids kind)
    (k : Reduction.Kind) : (e.setNode i (literal v)).due k + n.due k = e.due k := by
  by_cases hconstants : k = .constants
  · rw [hconstants, due_constants_eq_zero (hconstant.setNode hat v),
      due_constants_eq_zero (hconstant.of_nodeAt hat), due_constants_eq_zero hconstant]
  · by_cases hpercentages : k = .percentages
    · rw [hpercentages, due_percentages_eq_zero (hpercent.setNode hat v),
        due_percentages_eq_zero (hpercent.of_nodeAt hat), due_percentages_eq_zero hpercent]
    · exact due_setNode hat v ⟨hconstants, hpercentages⟩ hargument (hvisible k)

/-! ## What a node needs itself -/

/-- A call without constants, percentages and calls in its argument needs itself to be reduced, and
its argument too if that takes reductions of its own. -/
theorem due_innermost_call (hconstant : argument.Avoids .constant)
    (hpercent : argument.Avoids .percent) (hcall : argument.Avoids .call) (f : FunctionName)
    (k : Reduction.Kind) : (call f argument).due k =
      (if k = .argument ∧ argument.needsWork = true then 1 else 0) +
        if k = .call then 1 else 0 := by
  cases k with
  | constants => exact due_constants_eq_zero (Avoids.call_iff.mpr ⟨by decide, hconstant⟩)
  | percentages => exact due_percentages_eq_zero (Avoids.call_iff.mpr ⟨by decide, hpercent⟩)
  | argument =>
    rw [due_call ⟨by decide, by decide⟩, due_argument_eq_zero hcall]
    cases hneeds : argument.needsWork <;> simp [Reduction.Kind.hiding, asksFor, hneeds]
  | call =>
    rw [due_call ⟨by decide, by decide⟩, due_call_eq_zero hcall]
    rfl
  | group | fold => rfl

/-- An innermost group needs one reduction; those of its content are not shown. -/
theorem due_innermost_group (hconstant : inner.Avoids .constant) (hpercent : inner.Avoids .percent)
    (hcall : inner.Avoids .call) (hgroup : inner.Avoids .group) (k : Reduction.Kind) :
    (group inner).due k = if k = .group then 1 else 0 := by
  cases k with
  | constants => exact due_constants_eq_zero (Avoids.group_iff.mpr ⟨by decide, hconstant⟩)
  | percentages => exact due_percentages_eq_zero (Avoids.group_iff.mpr ⟨by decide, hpercent⟩)
  | argument => exact due_argument_eq_zero (Avoids.group_iff.mpr ⟨by decide, hcall⟩)
  | call => exact due_call_eq_zero (Avoids.group_iff.mpr ⟨by decide, hcall⟩)
  | group =>
    rw [due_group ⟨by decide, by decide⟩, due_group_eq_zero hgroup hpercent]
    rfl
  | fold => rfl

/-- An operator between numbers needs one reduction. -/
theorem due_redex (op : Operator) (v w : Double) (k : Reduction.Kind) :
    (binary op (literal v) (literal w)).due k = if k = .fold then 1 else 0 := by
  cases k <;> rfl

end Expr

end Stepwise
