/-
# Nodes in their contexts

What stands around a node is a list of frames, from the innermost one to the root.  When a number
takes the place of a node, the negations directly around it are folded into the number, one change
of sign for each of them; everything else stays as it is.

* `Expr.Folded` : no negation stands directly over a number;
* `Expr.Frame`, `Expr.plug` : a node in its context;
* `Expr.exists_plug` : every node has a context;
* `Expr.setNode_plug_literal`, `Expr.setNode_plug` : a node is replaced in its context;
* `Expr.Fits.folded` : trees that keep to the precedences are folded.
-/
import Mathlib.Logic.Function.Iterate
import Stepwise.Proofs.Expr.Precedence

namespace Stepwise.Expr

/-! ## Folded trees -/

/-- No negation stands directly over a number. -/
def Folded (e : Expr) : Prop := ∀ v, negation (literal v) ∉ e.nodes

@[simp] theorem folded_literal (v : Double) : (literal v).Folded := by
  simp [Folded, nodes]

@[simp] theorem folded_constant (c : ConstantName) : (constant c).Folded := by
  simp [Folded, nodes]

@[simp] theorem folded_percent (v : Double) : (percent v).Folded := by
  simp [Folded, nodes]

@[simp] theorem folded_negation {operand : Expr} :
    (negation operand).Folded ↔ operand.NotLiteral ∧ operand.Folded := by
  cases operand <;> simp [Folded, nodes, NotLiteral]

@[simp] theorem folded_binary {op : Operator} {left right : Expr} :
    (binary op left right).Folded ↔ left.Folded ∧ right.Folded := by
  simp [Folded, nodes, forall_and]

@[simp] theorem folded_call {f : FunctionName} {argument : Expr} :
    (call f argument).Folded ↔ argument.Folded := by
  simp [Folded, nodes]

@[simp] theorem folded_group {inner : Expr} : (group inner).Folded ↔ inner.Folded := by
  simp [Folded, nodes]

variable {e n r : Expr} {i : Nat}

namespace Folded

theorem negate (h : e.Folded) : e.negate.Folded := by
  cases e with
  | literal value => exact folded_literal _
  | constant name | percent value | negation operand | binary op left right | call f argument
  | group inner => exact folded_negation.mpr ⟨trivial, h⟩

/-- The nodes of a folded tree are folded. -/
theorem of_nodeAt (h : e.Folded) (hat : NodeAt e i n) : n.Folded :=
  fun v hv => h v (hat.mem_nodes hv)

/-- A folded tree in place of a node leaves the tree folded. -/
theorem setNode (h : e.Folded) (hr : r.Folded) (i : Nat) : (e.setNode i r).Folded := by
  induction e generalizing i with
  | literal value | constant name | percent value =>
    cases i with
    | zero => exact hr
    | succ i => exact h
  | negation operand ih =>
    cases i with
    | zero => exact hr
    | succ i => exact negate (ih (folded_negation.mp h).2 i)
  | binary op left right ihLeft ihRight =>
    obtain ⟨hleft, hright⟩ := folded_binary.mp h
    cases i with
    | zero => exact hr
    | succ i =>
      rw [Expr.setNode]
      split
      · exact folded_binary.mpr ⟨ihLeft hleft i, hright⟩
      · exact folded_binary.mpr ⟨hleft, ihRight hright _⟩
  | call f argument ih =>
    cases i with
    | zero => exact hr
    | succ i => exact folded_call.mpr (ih (folded_call.mp h) i)
  | group inner ih =>
    cases i with
    | zero => exact hr
    | succ i => exact folded_group.mpr (ih (folded_group.mp h) i)

/-- Folded trees in place of the leaves make the tree folded. -/
theorem mapLeaves {onConstant : ConstantName → Expr} {onPercent : Double → Expr}
    (hconstant : ∀ c, (onConstant c).Folded) (hpercent : ∀ v, (onPercent v).Folded) (e : Expr) :
    (e.mapLeaves onConstant onPercent).Folded := by
  induction e with
  | literal value => exact folded_literal _
  | constant name => exact hconstant name
  | percent value => exact hpercent value
  | negation operand ih => exact ih.negate
  | binary op left right ihLeft ihRight => exact folded_binary.mpr ⟨ihLeft, ihRight⟩
  | call f argument ih => exact folded_call.mpr ih
  | group inner ih => exact folded_group.mpr ih

end Folded

/-- Trees that keep to the precedences are folded. -/
theorem Fits.folded {k : Place} (h : e.Fits k) : e.Folded := by
  induction e generalizing k with
  | literal value => exact folded_literal _
  | constant name => exact folded_constant _
  | percent value => exact folded_percent _
  | negation operand ih => exact folded_negation.mpr ⟨h.2.1, ih h.2.2⟩
  | binary op left right ihLeft ihRight => exact folded_binary.mpr ⟨ihLeft h.2.1, ihRight h.2.2⟩
  | call f argument ih => exact folded_call.mpr (ih h)
  | group inner ih => exact folded_group.mpr (ih h)

/-! ## Frames -/

/-- A node without one of its operands. -/
inductive Frame where
  | negation
  | left (op : Operator) (sibling : Expr)
  | right (op : Operator) (sibling : Expr)
  | call (f : FunctionName)
  | group

namespace Frame

/-- The node with the operand that it lacks. -/
def fill : Frame → Expr → Expr
  | negation, e => .negation e
  | left op sibling, e => .binary op e sibling
  | right op sibling, e => .binary op sibling e
  | call f, e => .call f e
  | group, e => .group e

/-- The node with the operand that it lacks, except that a negated number is a number. -/
def put : Frame → Expr → Expr
  | negation, e => e.negate
  | frame, e => frame.fill e

/-- The number of nodes that come before the operand. -/
def before : Frame → Nat
  | negation | left .. | call _ | group => 1
  | right _ sibling => sibling.size + 1

/-- The node is a negation. -/
def isNegation : Frame → Bool
  | negation => true
  | _ => false

variable {frame : Frame}

theorem notLiteral_fill (frame : Frame) (e : Expr) : (frame.fill e).NotLiteral := by
  cases frame <;> trivial

theorem put_of_notLiteral (h : e.NotLiteral) : frame.put e = frame.fill e := by
  cases frame with
  | negation => exact negate_of_notLiteral h
  | left op sibling | right op sibling | call f | group => rfl

theorem put_of_not_isNegation (h : frame.isNegation = false) (e : Expr) :
    frame.put e = frame.fill e := by
  cases frame with
  | negation => cases h
  | left op sibling | right op sibling | call f | group => rfl

theorem add_lt_size_fill (frame : Frame) (h : i < e.size) :
    frame.before + i < (frame.fill e).size := by
  cases frame <;> simp only [before, fill, size] <;> omega

/-- A node of the operand is replaced there. -/
theorem setNode_fill (frame : Frame) (h : i < e.size) (r : Expr) :
    (frame.fill e).setNode (frame.before + i) r = frame.put (e.setNode i r) := by
  cases frame with
  | negation | call f | group =>
    rw [before, Nat.add_comm]
    rfl
  | left op sibling =>
    rw [before, Nat.add_comm]
    exact if_pos h
  | right op sibling =>
    rw [before, Nat.add_right_comm]
    exact NodeAt.setNode_right i r

end Frame

/-! ## Contexts -/

/-- The tree with a node in a context, whose frames are listed from the innermost one on. -/
def plug : List Frame → Expr → Expr
  | [], e => e
  | frame :: outer, e => plug outer (frame.fill e)

/-- The number of the node in a context. -/
def position : List Frame → Nat
  | [] => 0
  | frame :: outer => frame.before + position outer

/-- The number of negations directly around the node. -/
def chain (context : List Frame) : Nat := (context.takeWhile Frame.isNegation).length

/-- The context without the negations directly around the node. -/
def beyond (context : List Frame) : List Frame := context.dropWhile Frame.isNegation

theorem plug_append (context outer : List Frame) (e : Expr) :
    plug (context ++ outer) e = plug outer (plug context e) := by
  induction context generalizing e with
  | nil => rfl
  | cons frame context ih => exact ih (frame.fill e)

theorem position_append (context outer : List Frame) :
    position (context ++ outer) = position context + position outer := by
  induction context with
  | nil => rw [List.nil_append, position, Nat.zero_add]
  | cons frame context ih => rw [List.cons_append, position, position, ih, Nat.add_assoc]

/-- The chain of negations stands directly around the node, and the rest around the chain. -/
theorem plug_eq (context : List Frame) (e : Expr) :
    plug context e = plug (beyond context) (negation^[chain context] e) := by
  induction context generalizing e with
  | nil => rfl
  | cons frame context ih =>
    cases frame with
    | negation => exact ih (negation e)
    | left op sibling | right op sibling | call f | group => rfl

/-- One more frame around a node in a context. -/
theorem exists_plug_fill (frame : Frame)
    (h : ∃ context, e = plug context n ∧ position context = i) :
    ∃ context, frame.fill e = plug context n ∧ position context = i + frame.before := by
  obtain ⟨context, rfl, rfl⟩ := h
  exact ⟨context ++ [frame], (plug_append context [frame] n).symm, position_append context [frame]⟩

/-- **Every node has a context.** -/
theorem exists_plug (h : NodeAt e i n) : ∃ context, e = plug context n ∧ position context = i := by
  induction h with
  | self e => exact ⟨[], rfl, rfl⟩
  | negation h ih => exact exists_plug_fill .negation ih
  | @left op left right n i h ih => exact exists_plug_fill (.left op right) ih
  | @right op left right n i h ih =>
    obtain ⟨context, heq, hposition⟩ := exists_plug_fill (.right op left) ih
    refine ⟨context, heq, hposition.trans ?_⟩
    rw [Frame.before]
    omega
  | @call f argument n i h ih => exact exists_plug_fill (.call f) ih
  | group h ih => exact exists_plug_fill .group ih

/-! ## Replacing a node in its context -/

/-- The tree with a node put into a context, where negated numbers are numbers. -/
def putAll (context : List Frame) (e : Expr) : Expr := context.foldl (fun e frame => frame.put e) e

/-- What is no number does not change its context. -/
theorem putAll_of_notLiteral (context : List Frame) (h : e.NotLiteral) :
    putAll context e = plug context e := by
  induction context generalizing e with
  | nil => rfl
  | cons frame context ih =>
    rw [putAll, List.foldl_cons, Frame.put_of_notLiteral h]
    exact ih (frame.notLiteral_fill e)

/-- A number takes up the negations directly around it. -/
theorem putAll_literal (context : List Frame) (v : Double) :
    putAll context (literal v) = plug (beyond context) (literal ((- ·)^[chain context] v)) := by
  induction context generalizing v with
  | nil => rfl
  | cons frame context ih =>
    cases hframe : frame.isNegation with
    | true =>
      obtain rfl : frame = .negation := by
        cases frame <;> first | rfl | cases hframe
      exact ih (-v)
    | false =>
      rw [beyond, chain, List.dropWhile_cons_of_neg (by simp [hframe]),
        List.takeWhile_cons_of_neg (by simp [hframe]), putAll, List.foldl_cons,
        Frame.put_of_not_isNegation hframe]
      exact putAll_of_notLiteral context (frame.notLiteral_fill _)

/-- To replace a node, its context is put around what takes its place. -/
theorem setNode_plug_eq (context : List Frame) (h : i < e.size) (r : Expr) :
    (plug context e).setNode (position context + i) r = putAll context (e.setNode i r) := by
  induction context generalizing e i with
  | nil =>
    rw [position, Nat.zero_add]
    rfl
  | cons frame context ih =>
    have hplug := ih (frame.add_lt_size_fill h)
    rw [← Nat.add_assoc, Nat.add_comm (position context), frame.setNode_fill h] at hplug
    exact hplug

/-- **A number in place of a node** takes up the negations directly around it. -/
theorem setNode_plug_literal (context : List Frame) (n : Expr) (v : Double) :
    (plug context n).setNode (position context) (literal v) =
      plug (beyond context) (literal ((- ·)^[chain context] v)) := by
  have hplug := setNode_plug_eq context (size_pos n) (literal v)
  rw [Nat.add_zero, setNode_zero, putAll_literal] at hplug
  exact hplug

/-- **Any other tree in place of a node** changes nothing around it. -/
theorem setNode_plug (context : List Frame) (n : Expr) (h : r.NotLiteral) :
    (plug context n).setNode (position context) r = plug context r := by
  have hplug := setNode_plug_eq context (size_pos n) r
  rw [Nat.add_zero, setNode_zero, putAll_of_notLiteral context h] at hplug
  exact hplug

end Stepwise.Expr
