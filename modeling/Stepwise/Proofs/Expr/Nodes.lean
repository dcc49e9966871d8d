/-
# Nodes, replaced and searched for

A node of a tree is given by the way to it from the root; its number in pre-order and the effect of
replacing it follow that way.

* `Expr.NodeAt` : the node with a given number, by the way to it;
* `Expr.nodeAt_of_getElem?` : every number within the list of nodes has a way;
* `Expr.lastNode?_eq_some_iff`, `Expr.lastNode?_eq_some`, `Expr.firstNode?_eq_some` : what a search
  finds.
-/
import Stepwise.Derivation.Basic

namespace Stepwise.Expr

/-! ## The way to a node -/

/-- The node of a tree with a given number in pre-order. -/
inductive NodeAt : Expr → Nat → Expr → Prop where
  | self (e : Expr) : NodeAt e 0 e
  | negation {operand n : Expr} {i : Nat} (h : NodeAt operand i n) :
      NodeAt (.negation operand) (i + 1) n
  | left {op : Operator} {left right n : Expr} {i : Nat} (h : NodeAt left i n) :
      NodeAt (.binary op left right) (i + 1) n
  | right {op : Operator} {left right n : Expr} {i : Nat} (h : NodeAt right i n) :
      NodeAt (.binary op left right) (left.size + i + 1) n
  | call {f : FunctionName} {argument n : Expr} {i : Nat} (h : NodeAt argument i n) :
      NodeAt (.call f argument) (i + 1) n
  | group {inner n : Expr} {i : Nat} (h : NodeAt inner i n) : NodeAt (.group inner) (i + 1) n

theorem length_nodes (e : Expr) : e.nodes.length = e.size := by
  induction e with
  | literal value => rfl
  | constant name => rfl
  | percent value => rfl
  | negation operand ih => simp [nodes, size, ih]
  | binary op left right ihLeft ihRight => simp [nodes, size, ihLeft, ihRight]
  | call f argument ih => simp [nodes, size, ih]
  | group inner ih => simp [nodes, size, ih]

theorem size_pos (e : Expr) : 0 < e.size := by
  cases e <;> simp [size]

theorem self_mem_nodes (e : Expr) : e ∈ e.nodes := by
  cases e <;> simp [nodes]

@[simp] theorem setNode_zero (e r : Expr) : e.setNode 0 r = r := by
  cases e <;> rfl

/-- The root is the node of number zero. -/
theorem nodeAt_zero {e n : Expr} (h : e.nodes[0]? = some n) : NodeAt e 0 n := by
  have hself : e.nodes[0]? = some e := by
    cases e <;> rfl
  obtain rfl := Option.some.inj (hself.symm.trans h)
  exact .self e

/-- Every number within the list of nodes has a way from the root. -/
theorem nodeAt_of_getElem? {e n : Expr} {i : Nat} (h : e.nodes[i]? = some n) : NodeAt e i n := by
  induction e generalizing i with
  | literal value =>
    cases i with
    | zero => exact nodeAt_zero h
    | succ i => simp [nodes] at h
  | constant name =>
    cases i with
    | zero => exact nodeAt_zero h
    | succ i => simp [nodes] at h
  | percent value =>
    cases i with
    | zero => exact nodeAt_zero h
    | succ i => simp [nodes] at h
  | negation operand ih =>
    cases i with
    | zero => exact nodeAt_zero h
    | succ i => exact .negation (ih h)
  | binary op left right ihLeft ihRight =>
    cases i with
    | zero => exact nodeAt_zero h
    | succ i =>
      rw [nodes, List.getElem?_cons_succ] at h
      by_cases hi : i < left.nodes.length
      · exact .left (ihLeft (by rwa [List.getElem?_append_left hi] at h))
      · have hle : left.size ≤ i := length_nodes left ▸ Nat.le_of_not_lt hi
        obtain ⟨k, rfl⟩ := Nat.exists_eq_add_of_le hle
        rw [← length_nodes left, List.getElem?_append_right (Nat.le_add_right _ _),
          Nat.add_sub_cancel_left] at h
        exact .right (ihRight h)
  | call f argument ih =>
    cases i with
    | zero => exact nodeAt_zero h
    | succ i => exact .call (ih h)
  | group inner ih =>
    cases i with
    | zero => exact nodeAt_zero h
    | succ i => exact .group (ih h)

theorem exists_nodeAt {e n : Expr} (h : n ∈ e.nodes) : ∃ i, NodeAt e i n := by
  obtain ⟨i, hi⟩ := List.getElem?_of_mem h
  exact ⟨i, nodeAt_of_getElem? hi⟩

namespace NodeAt

variable {e n : Expr} {i : Nat}

theorem lt_size (h : NodeAt e i n) : i < e.size := by
  induction h with
  | self e => exact size_pos e
  | negation h ih | call h ih | group h ih => exact Nat.succ_lt_succ ih
  | left h ih | right h ih =>
    simp only [size]
    omega

/-- The nodes of a node follow one another among the nodes of the tree. -/
theorem exists_nodes_eq (h : NodeAt e i n) :
    ∃ before after, e.nodes = before ++ n.nodes ++ after ∧ before.length = i := by
  induction h with
  | self e => exact ⟨[], [], by simp, rfl⟩
  | negation h ih | call h ih | group h ih =>
    obtain ⟨before, after, hnodes, hlength⟩ := ih
    exact ⟨_ :: before, after, by rw [nodes, hnodes]; rfl, by rw [List.length_cons, hlength]⟩
  | @left op left right n i h ih =>
    obtain ⟨before, after, hnodes, hlength⟩ := ih
    refine ⟨.binary op left right :: before, after ++ right.nodes, ?_, ?_⟩
    · simp [nodes, hnodes]
    · rw [List.length_cons, hlength]
  | @right op left right n i h ih =>
    obtain ⟨before, after, hnodes, hlength⟩ := ih
    refine ⟨.binary op left right :: (left.nodes ++ before), after, ?_, ?_⟩
    · simp [nodes, hnodes]
    · rw [List.length_cons, List.length_append, length_nodes, hlength]

/-- The nodes of a node are nodes of the tree. -/
theorem mem_nodes (h : NodeAt e i n) {m : Expr} (hm : m ∈ n.nodes) : m ∈ e.nodes := by
  obtain ⟨before, after, hnodes, -⟩ := h.exists_nodes_eq
  rw [hnodes]
  simp [hm]

theorem setNode_right {op : Operator} {left right : Expr} (i : Nat) (r : Expr) :
    (binary op left right).setNode (left.size + i + 1) r = binary op left (right.setNode i r) := by
  rw [setNode, if_neg (by omega), Nat.add_sub_cancel_left]

theorem setNode_left {op : Operator} {left right : Expr} (h : NodeAt left i n) (r : Expr) :
    (binary op left right).setNode (i + 1) r = binary op (left.setNode i r) right := by
  rw [setNode, if_pos h.lt_size]

/-- A replaced node changes the size by at most the difference in size; folded negations can only
make the tree smaller. -/
theorem size_setNode (h : NodeAt e i n) (r : Expr) :
    (e.setNode i r).size + n.size ≤ e.size + r.size := by
  induction h with
  | self e =>
    rw [setNode_zero]
    omega
  | @negation operand n i h ih =>
    have hnegate : (operand.setNode i r).negate.size ≤ (operand.setNode i r).size + 1 := by
      cases operand.setNode i r <;> simp [negate, size]
    simp only [setNode, size]
    omega
  | left h ih =>
    rw [setNode_left h]
    simp only [size]
    omega
  | right h ih =>
    rw [setNode_right]
    simp only [size]
    omega
  | call h ih | group h ih =>
    simp only [setNode, size]
    omega

end NodeAt

/-! ## Searching -/

theorem lastIndex?_eq_none {p : Expr → Bool} {l : List Expr} (h : lastIndex? p l = none) :
    ∀ e ∈ l, p e = false := by
  induction l with
  | nil => simp
  | cons a l ih =>
    rw [lastIndex?] at h
    cases hl : lastIndex? p l with
    | some i => simp [hl] at h
    | none =>
      cases ha : p a with
      | true => simp [hl, ha] at h
      | false =>
        intro e he
        rcases List.mem_cons.mp he with rfl | he
        · exact ha
        · exact ih hl e he

/-- The last position at which a condition holds: it holds there and nowhere after. -/
theorem lastIndex?_eq_some {p : Expr → Bool} {l : List Expr} {i : Nat}
    (h : lastIndex? p l = some i) :
    ∃ before n after, l = before ++ n :: after ∧ before.length = i ∧ p n = true ∧
      ∀ e ∈ after, p e = false := by
  induction l generalizing i with
  | nil => simp [lastIndex?] at h
  | cons a l ih =>
    rw [lastIndex?] at h
    cases hl : lastIndex? p l with
    | some j =>
      simp only [hl, Option.some.injEq] at h
      obtain ⟨before, n, after, rfl, rfl, hn, hafter⟩ := ih hl
      exact ⟨a :: before, n, after, rfl, h, hn, hafter⟩
    | none =>
      cases ha : p a with
      | false => simp [hl, ha] at h
      | true =>
        simp only [hl, ha, if_true, Option.some.injEq] at h
        exact ⟨[], a, l, rfl, h, ha, lastIndex?_eq_none hl⟩

theorem lastNode?_eq_none {p : Expr → Bool} {e : Expr} (h : e.lastNode? p = none) :
    ∀ n ∈ e.nodes, p n = false := by
  cases hi : lastIndex? p e.nodes with
  | none => exact lastIndex?_eq_none hi
  | some i =>
    obtain ⟨before, n, after, hnodes, rfl, -, -⟩ := lastIndex?_eq_some hi
    have hget : e.nodes[before.length]? = some n := by
      simp [hnodes]
    simp [lastNode?, hi, hget] at h

theorem lastIndex?_append_cons {p : Expr → Bool} {n : Expr} {before after : List Expr}
    (hn : p n = true) (hafter : ∀ m ∈ after, p m = false) :
    lastIndex? p (before ++ n :: after) = some before.length := by
  have hnone : lastIndex? p after = none := by
    cases h : lastIndex? p after with
    | none => rfl
    | some j =>
      obtain ⟨_, m, _, rfl, -, hm, -⟩ := lastIndex?_eq_some h
      rw [hafter m (by simp)] at hm
      cases hm
  induction before with
  | nil => simp [lastIndex?, hnone, hn]
  | cons a before ih => simp [lastIndex?, ih]

/-- The last node that satisfies a condition: the nodes after it do not. -/
theorem lastNode?_eq_some_iff {p : Expr → Bool} {e n : Expr} {i : Nat} :
    e.lastNode? p = some (i, n) ↔
      ∃ before after, e.nodes = before ++ n :: after ∧ before.length = i ∧ p n = true ∧
        ∀ m ∈ after, p m = false := by
  constructor
  · intro h
    cases hi : lastIndex? p e.nodes with
    | none => simp [lastNode?, hi] at h
    | some j =>
      obtain ⟨before, m, after, hnodes, rfl, hm, hafter⟩ := lastIndex?_eq_some hi
      have hget : e.nodes[before.length]? = some m := by
        simp [hnodes]
      simp only [lastNode?, hi, hget, Option.bind_eq_bind, Option.bind_some, Option.pure_def,
        Option.some.injEq, Prod.mk.injEq] at h
      obtain ⟨rfl, rfl⟩ := h
      exact ⟨before, after, hnodes, rfl, hm, hafter⟩
  · rintro ⟨before, after, hnodes, rfl, hn, hafter⟩
    simp [lastNode?, hnodes, lastIndex?_append_cons hn hafter]

/-- No node inside of the last node that satisfies a condition does. -/
theorem lastNode?_eq_some {p : Expr → Bool} {e n : Expr} {i : Nat}
    (h : e.lastNode? p = some (i, n)) :
    NodeAt e i n ∧ p n = true ∧ ∀ m ∈ n.nodes.tail, p m = false := by
  obtain ⟨before, after, hnodes, rfl, hn, hafter⟩ := lastNode?_eq_some_iff.mp h
  have hat : NodeAt e before.length n := nodeAt_of_getElem? (by simp [hnodes])
  refine ⟨hat, hn, ?_⟩
  obtain ⟨before', after', hsplit, hlength⟩ := hat.exists_nodes_eq
  rw [hnodes, List.append_assoc] at hsplit
  obtain ⟨rfl, htail⟩ := List.append_inj hsplit hlength.symm
  intro k hk
  apply hafter
  obtain ⟨root, rest, hroot⟩ := List.exists_cons_of_ne_nil
    (List.ne_nil_of_mem (self_mem_nodes n))
  rw [hroot, List.cons_append, List.cons.injEq] at htail
  rw [hroot, List.tail_cons] at hk
  rw [htail.2]
  exact List.mem_append_left _ hk

theorem firstNode?_eq_none {p : Expr → Bool} {e : Expr} (h : e.firstNode? p = none) :
    ∀ n ∈ e.nodes, p n = false := by
  cases hi : e.nodes.findIdx? p with
  | none => simpa using hi
  | some i =>
    obtain ⟨hlt, -⟩ := List.findIdx?_eq_some_iff_getElem.mp hi
    simp [firstNode?, hi, hlt] at h

theorem firstNode?_eq_some {p : Expr → Bool} {e n : Expr} {i : Nat}
    (h : e.firstNode? p = some (i, n)) : NodeAt e i n ∧ p n = true := by
  cases hi : e.nodes.findIdx? p with
  | none => simp [firstNode?, hi] at h
  | some j =>
    obtain ⟨hlt, hp, -⟩ := List.findIdx?_eq_some_iff_getElem.mp hi
    simp only [firstNode?, hi, Option.bind_eq_bind, Option.bind_some, List.getElem?_eq_getElem hlt,
      Option.pure_def, Option.some.injEq, Prod.mk.injEq] at h
    obtain ⟨rfl, rfl⟩ := h
    exact ⟨nodeAt_of_getElem? (List.getElem?_eq_getElem hlt), hp⟩

end Stepwise.Expr
