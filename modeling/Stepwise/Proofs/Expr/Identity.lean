/-
# Nodes with identities

A tree can hold several nodes that look alike, and a node to be replaced is found by its identity.
The whole tree is made anew then: every node with operands is a new node, and a negated number is
folded wherever there is one.  Leaves are kept, so that leaves that were looked up beforehand can be
replaced one after the other.

* `Node` : expressions whose nodes have identities;
* `Node.replace` : the tree with one node replaced;
* `Node.expr_replace` : the node of that number is replaced in the expression;
* `Node.expr_replace_of_notMem` : a node that is not there is not replaced;
* `Node.Distinct.replace` : the identities stay distinct;
* `Node.mem_nodes_replace` : leaves outside the target are kept;
* `Node.exists_node` : every expression can be given identities;
* `Node.expr_run` : leaves replaced one after the other are replaced at once.
-/
import Mathlib.Data.List.Nodup
import Mathlib.Data.Nat.Basic
import Mathlib.Order.Basic
import Stepwise.Proofs.Expr.Context

namespace Stepwise

/-- An expression whose nodes have identities. -/
inductive Node where
  | literal (id : Nat) (value : Double)
  | constant (id : Nat) (name : ConstantName)
  | percent (id : Nat) (value : Double)
  | negation (id : Nat) (operand : Node)
  | binary (id : Nat) (op : Operator) (left right : Node)
  | call (id : Nat) (f : FunctionName) (argument : Node)
  | group (id : Nat) (inner : Node)

namespace Node

/-- The identity of the root. -/
def id : Node → Nat
  | literal id _ | constant id _ | percent id _ | negation id _ | binary id .. | call id .. |
    group id _ => id

/-- The expression without the identities. -/
def expr : Node → Expr
  | literal _ value => .literal value
  | constant _ name => .constant name
  | percent _ value => .percent value
  | negation _ operand => .negation operand.expr
  | binary _ op left right => .binary op left.expr right.expr
  | call _ f argument => .call f argument.expr
  | group _ inner => .group inner.expr

/-- The nodes in pre-order. -/
def nodes : Node → List Node
  | t@(literal ..) | t@(constant ..) | t@(percent ..) => [t]
  | t@(negation _ operand) => t :: operand.nodes
  | t@(binary _ _ left right) => t :: (left.nodes ++ right.nodes)
  | t@(call _ _ argument) => t :: argument.nodes
  | t@(group _ inner) => t :: inner.nodes

/-- The identities in pre-order. -/
def ids (t : Node) : List Nat := t.nodes.map id

/-- A constant or a percentage. -/
def isName : Node → Bool
  | constant .. | percent .. => true
  | _ => false

/-! ## Replacing -/

/-- A new negation; a negated number is a number again. -/
def negate (operand : Node) (id : Nat) : Node :=
  match operand with
  | literal _ value => literal id (-value)
  | _ => negation id operand

/-- The tree with the target replaced, and the identity of the next new node.  Every node that is
not a leaf is made anew, after its operands. -/
def replace (t : Node) (target : Nat) (r : Node) (next : Nat) : Node × Nat :=
  if t.id = target then (r, next)
  else
    match t with
    | literal .. | constant .. | percent .. => (t, next)
    | negation _ operand =>
      let operand := operand.replace target r next
      (operand.1.negate operand.2, operand.2 + 1)
    | binary _ op left right =>
      let left := left.replace target r next
      let right := right.replace target r left.2
      (binary right.2 op left.1 right.1, right.2 + 1)
    | call _ f argument =>
      let argument := argument.replace target r next
      (call argument.2 f argument.1, argument.2 + 1)
    | group _ inner =>
      let inner := inner.replace target r next
      (group inner.2 inner.1, inner.2 + 1)

variable {t r : Node} {target next i j : Nat}

@[simp] theorem ids_literal (id : Nat) (v : Double) : (literal id v).ids = [id] := rfl

@[simp] theorem ids_constant (id : Nat) (c : ConstantName) : (constant id c).ids = [id] := rfl

@[simp] theorem ids_percent (id : Nat) (v : Double) : (percent id v).ids = [id] := rfl

@[simp] theorem ids_negation (id : Nat) (operand : Node) :
    (negation id operand).ids = id :: operand.ids := rfl

@[simp] theorem ids_binary (id : Nat) (op : Operator) (left right : Node) :
    (binary id op left right).ids = id :: (left.ids ++ right.ids) := by
  simp [ids, nodes, Node.id]

@[simp] theorem ids_call (id : Nat) (f : FunctionName) (argument : Node) :
    (call id f argument).ids = id :: argument.ids := rfl

@[simp] theorem ids_group (id : Nat) (inner : Node) : (group id inner).ids = id :: inner.ids := rfl

@[simp] theorem expr_negate (t : Node) (id : Nat) : (t.negate id).expr = t.expr.negate := by
  cases t <;> rfl

/-- The nodes are those of the expression. -/
theorem nodes_expr (t : Node) : t.expr.nodes = t.nodes.map expr := by
  induction t with
  | literal id value | constant id name | percent id value => rfl
  | negation id operand ih | call id f argument ih | group id inner ih =>
    simp [expr, nodes, Expr.nodes, ih]
  | binary id op left right ihLeft ihRight => simp [expr, nodes, Expr.nodes, ihLeft, ihRight]

theorem length_ids (t : Node) : t.ids.length = t.expr.size := by
  rw [← Expr.length_nodes, nodes_expr, ids, List.length_map, List.length_map]

/-! ## What is replaced -/

/-- The root itself is replaced as a whole. -/
theorem replace_self (t r : Node) (next : Nat) : t.replace t.id r next = (r, next) := by
  cases t <;> rw [replace, if_pos rfl]

/-- A target stands at the root or below it. -/
theorem root_or_below (hids : t.ids.Nodup) (h : t.ids[i]? = some target) :
    (i = 0 ∧ t.id = target) ∨ ∃ j, i = j + 1 ∧ t.id ≠ target ∧ t.ids.tail[j]? = some target := by
  have hcons : t.ids = t.id :: t.ids.tail := by
    cases t <;> simp [Node.id]
  rw [hcons] at hids h
  cases i with
  | zero => exact .inl ⟨rfl, Option.some.inj h⟩
  | succ j =>
    refine .inr ⟨j, rfl, ?_, h⟩
    rintro rfl
    exact (List.nodup_cons.mp hids).1 (List.mem_of_getElem? h)

/-- **A target that is not there** is not replaced. -/
theorem expr_replace_of_notMem (hfolded : t.expr.Folded) (h : target ∉ t.ids) :
    (t.replace target r next).1.expr = t.expr := by
  induction t generalizing next with
  | literal id value | constant id name | percent id value =>
    rw [replace, if_neg fun heq => h (by simpa [Node.id] using heq.symm)]
  | negation id operand ih =>
    obtain ⟨hid, hoperand⟩ := not_or.mp (mt List.mem_cons.mpr h)
    obtain ⟨hnumber, hfolded⟩ := Expr.folded_negation.mp hfolded
    rw [replace, if_neg (Ne.symm hid)]
    show (negate _ _).expr = _
    rw [expr_negate, ih hfolded hoperand, Expr.negate_of_notLiteral hnumber]
    rfl
  | binary id op left right ihLeft ihRight =>
    rw [ids_binary, List.mem_cons, List.mem_append, not_or, not_or] at h
    obtain ⟨hid, hleft, hright⟩ := h
    obtain ⟨hfoldedLeft, hfoldedRight⟩ := Expr.folded_binary.mp hfolded
    have hne : (binary id op left right).id ≠ target := Ne.symm hid
    rw [replace, if_neg hne]
    show Expr.binary op _ _ = _
    rw [ihLeft hfoldedLeft hleft, ihRight hfoldedRight hright]
    rfl
  | call id f argument ih =>
    obtain ⟨hid, hargument⟩ := not_or.mp (mt List.mem_cons.mpr h)
    rw [replace, if_neg (Ne.symm hid)]
    show Expr.call f _ = _
    rw [ih (Expr.folded_call.mp hfolded) hargument]
    rfl
  | group id inner ih =>
    obtain ⟨hid, hinner⟩ := not_or.mp (mt List.mem_cons.mpr h)
    rw [replace, if_neg (Ne.symm hid)]
    show Expr.group _ = _
    rw [ih (Expr.folded_group.mp hfolded) hinner]
    rfl

/-- **The target is replaced** where it stands, and nowhere else. -/
theorem expr_replace (hfolded : t.expr.Folded) (hids : t.ids.Nodup) (h : t.ids[i]? = some target) :
    (t.replace target r next).1.expr = t.expr.setNode i r.expr := by
  induction t generalizing next i with
  | literal id value | constant id name | percent id value =>
    obtain ⟨rfl, rfl⟩ | ⟨j, rfl, -, hbelow⟩ := root_or_below hids h
    · rw [replace_self, Expr.setNode_zero]
    · cases hbelow
  | negation id operand ih =>
    obtain ⟨rfl, rfl⟩ | ⟨j, rfl, hne, hbelow⟩ := root_or_below hids h
    · rw [replace_self, Expr.setNode_zero]
    · rw [replace, if_neg hne]
      show (negate _ _).expr = _
      rw [expr_negate, ih (Expr.folded_negation.mp hfolded).2 (List.nodup_cons.mp hids).2 hbelow]
      rfl
  | binary id op left right ihLeft ihRight =>
    obtain ⟨rfl, rfl⟩ | ⟨j, rfl, hne, hbelow⟩ := root_or_below hids h
    · rw [replace_self, Expr.setNode_zero]
    obtain ⟨hfoldedLeft, hfoldedRight⟩ := Expr.folded_binary.mp hfolded
    rw [ids_binary] at hids hbelow
    rw [List.tail_cons] at hbelow
    obtain ⟨hleft, hright, hdisjoint⟩ := List.nodup_append.mp (List.nodup_cons.mp hids).2
    rw [replace, if_neg hne]
    show Expr.binary op _ _ = (Expr.binary op left.expr right.expr).setNode (j + 1) r.expr
    rw [Expr.setNode, ← length_ids]
    -- One operand has the target; the other one does not, and stays as it is.
    by_cases hj : j < left.ids.length
    · rw [List.getElem?_append_left hj] at hbelow
      have hother : target ∉ right.ids := fun hmem =>
        hdisjoint target (List.mem_of_getElem? hbelow) target hmem rfl
      rw [if_pos hj, ihLeft hfoldedLeft hleft hbelow, expr_replace_of_notMem hfoldedRight hother]
    · rw [List.getElem?_append_right (Nat.le_of_not_lt hj)] at hbelow
      have hother : target ∉ left.ids := fun hmem =>
        hdisjoint target hmem target (List.mem_of_getElem? hbelow) rfl
      rw [if_neg hj, ihRight hfoldedRight hright hbelow, expr_replace_of_notMem hfoldedLeft hother]
  | call id f argument ih =>
    obtain ⟨rfl, rfl⟩ | ⟨j, rfl, hne, hbelow⟩ := root_or_below hids h
    · rw [replace_self, Expr.setNode_zero]
    · rw [replace, if_neg hne]
      show Expr.call f _ = _
      rw [ih (Expr.folded_call.mp hfolded) (List.nodup_cons.mp hids).2 hbelow]
      rfl
  | group id inner ih =>
    obtain ⟨rfl, rfl⟩ | ⟨j, rfl, hne, hbelow⟩ := root_or_below hids h
    · rw [replace_self, Expr.setNode_zero]
    · rw [replace, if_neg hne]
      show Expr.group _ = _
      rw [ih (Expr.folded_group.mp hfolded) (List.nodup_cons.mp hids).2 hbelow]
      rfl

/-- **The tree is folded afterwards**, whatever it was before. -/
theorem folded_replace (hr : r.expr.Folded) (t : Node) (target next : Nat) :
    (t.replace target r next).1.expr.Folded := by
  induction t generalizing next with
  | literal id value | constant id name | percent id value =>
    rw [replace]
    split
    · exact hr
    · simp [expr]
  | negation id operand ih =>
    rw [replace]
    split
    · exact hr
    · show (negate _ _).expr.Folded
      rw [expr_negate]
      exact (ih next).negate
  | binary id op left right ihLeft ihRight =>
    rw [replace]
    split
    · exact hr
    · exact Expr.folded_binary.mpr ⟨ihLeft next, ihRight _⟩
  | call id f argument ih =>
    rw [replace]
    split
    · exact hr
    · exact Expr.folded_call.mpr (ih next)
  | group id inner ih =>
    rw [replace]
    split
    · exact hr
    · exact Expr.folded_group.mpr (ih next)

/-! ## Identities stay distinct -/

theorem id_mem_ids {n : Node} (h : n ∈ t.nodes) : n.id ∈ t.ids := List.mem_map_of_mem h

theorem mem_nodes_negate {n : Node} (h : n ∈ (t.negate j).nodes) : n.id = j ∨ n ∈ t.nodes := by
  cases t with
  | literal id value =>
    obtain rfl := List.mem_singleton.mp h
    exact .inl rfl
  | constant id name | percent id value | negation id operand | binary id op left right
  | call id f argument | group id inner =>
    rcases List.mem_cons.mp h with rfl | h
    · exact .inl rfl
    · exact .inr h

theorem le_replace (t : Node) (target : Nat) (r : Node) (next : Nat) :
    next ≤ (t.replace target r next).2 := by
  induction t generalizing next with
  | literal id value | constant id name | percent id value =>
    rw [replace]
    split <;> exact Nat.le_refl next
  | negation id operand ih | call id f operand ih | group id operand ih =>
    rw [replace]
    split
    · exact Nat.le_refl next
    · exact Nat.le_succ_of_le (ih next)
  | binary id op left right ihLeft ihRight =>
    rw [replace]
    split
    · exact Nat.le_refl next
    · exact Nat.le_succ_of_le ((ihLeft next).trans (ihRight _))

/-- A node comes from a tree, from what takes the place of its target, or from nowhere. -/
def ComesFrom (t r : Node) (target first last : Nat) (n : Node) : Prop :=
  n ∈ t.nodes ∨ (target ∈ t.ids ∧ n ∈ r.nodes) ∨ (first ≤ n.id ∧ n.id < last)

theorem ComesFrom.mono {n t' : Node} {first last first' last' : Nat}
    (h : ComesFrom t r target first last n) (hnodes : t.nodes ⊆ t'.nodes) (hfirst : first' ≤ first)
    (hlast : last ≤ last') : ComesFrom t' r target first' last' n := by
  rcases h with h | ⟨ht, h⟩ | ⟨hge, hlt⟩
  · exact .inl (hnodes h)
  · exact .inr (.inl ⟨List.map_subset Node.id hnodes ht, h⟩)
  · exact .inr (.inr ⟨hfirst.trans hge, hlt.trans_le hlast⟩)

theorem self_mem_nodes (t : Node) : t ∈ t.nodes := by
  cases t <;> simp [nodes]

/-- What takes the place of the root. -/
theorem comesFrom_root {n : Node} {last : Nat} (ht : t.id = target) (hn : n ∈ r.nodes) :
    ComesFrom t r target next last n :=
  .inr (.inl ⟨ht ▸ id_mem_ids (self_mem_nodes t), hn⟩)

/-- **Where the nodes of the tree come from** after a replacement. -/
theorem comesFrom_replace {n : Node} (h : n ∈ (t.replace target r next).1.nodes) :
    ComesFrom t r target next (t.replace target r next).2 n := by
  induction t generalizing next with
  | literal id value | constant id name | percent id value =>
    rw [replace] at h
    split at h
    · next ht => exact comesFrom_root ht h
    · exact .inl h
  | negation id operand ih =>
    rw [replace] at h ⊢
    split at h
    · next ht => exact comesFrom_root ht h
    · next ht =>
      rw [if_neg ht]
      have hle := le_replace operand target r next
      rcases mem_nodes_negate h with hid | h
      · exact .inr (.inr ⟨hid ▸ hle, hid ▸ Nat.lt_succ_self _⟩)
      · exact (ih h).mono (List.subset_cons_self _ _) le_rfl (Nat.le_succ _)
  | binary id op left right ihLeft ihRight =>
    rw [replace] at h ⊢
    split at h
    · next ht => exact comesFrom_root ht h
    · next ht =>
      rw [if_neg ht]
      have hle := le_replace left target r next
      have hle' := le_replace right target r (left.replace target r next).2
      rcases List.mem_cons.mp h with rfl | h
      · exact .inr (.inr ⟨hle.trans hle', Nat.lt_succ_self _⟩)
      rcases List.mem_append.mp h with h | h
      · exact (ihLeft h).mono (List.subset_cons_of_subset _ (List.subset_append_left _ _)) le_rfl
          (hle'.trans (Nat.le_succ _))
      · exact (ihRight h).mono (List.subset_cons_of_subset _ (List.subset_append_right _ _)) hle
          (Nat.le_succ _)
  | call id f operand ih | group id operand ih =>
    rw [replace] at h ⊢
    split at h
    · next ht => exact comesFrom_root ht h
    · next ht =>
      rw [if_neg ht]
      have hle := le_replace operand target r next
      rcases List.mem_cons.mp h with rfl | h
      · exact .inr (.inr ⟨hle, Nat.lt_succ_self _⟩)
      · exact (ih h).mono (List.subset_cons_self _ _) le_rfl (Nat.le_succ _)

theorem mem_ids_replace (h : j ∈ (t.replace target r next).1.ids) :
    j ∈ t.ids ∨ (target ∈ t.ids ∧ j ∈ r.ids) ∨ (next ≤ j ∧ j < (t.replace target r next).2) := by
  obtain ⟨n, hn, rfl⟩ := List.mem_map.mp h
  exact (comesFrom_replace hn).imp id_mem_ids (Or.imp_left fun h => ⟨h.1, id_mem_ids h.2⟩)

/-- Identities are distinct, and none of them is that of a new node. -/
structure Distinct (ids : List Nat) (next : Nat) : Prop where
  nodup : ids.Nodup
  lt : ∀ id ∈ ids, id < next

namespace Distinct

variable {ids ids' : List Nat}

theorem mono (h : Distinct ids next) {next' : Nat} (hle : next ≤ next') : Distinct ids next' :=
  ⟨h.nodup, fun id hid => (h.lt id hid).trans_le hle⟩

theorem tail (h : Distinct (j :: ids) next) : Distinct ids next :=
  ⟨(List.nodup_cons.mp h.nodup).2, (List.forall_mem_cons.mp h.lt).2⟩

/-- A new node may be added. -/
theorem cons (h : Distinct ids next) : Distinct (next :: ids) (next + 1) := by
  refine ⟨List.nodup_cons.mpr ⟨fun hmem => Nat.lt_irrefl _ (h.lt next hmem), h.nodup⟩, ?_⟩
  exact List.forall_mem_cons.mpr
    ⟨Nat.lt_succ_self _, fun id hid => Nat.lt_succ_of_lt (h.lt id hid)⟩

theorem negate (h : Distinct t.ids next) : Distinct (t.negate next).ids (next + 1) := by
  cases t with
  | literal id value => exact cons ⟨List.nodup_nil, List.forall_mem_nil _⟩
  | constant id name | percent id value | negation id operand | binary id op left right
  | call id f argument | group id inner => exact h.cons

theorem of_append (h : Distinct (ids ++ ids') next) :
    Distinct ids next ∧ Distinct ids' next ∧ ids.Disjoint ids' := by
  obtain ⟨hleft, hright, hdisjoint⟩ := List.nodup_append'.mp h.nodup
  obtain ⟨hltLeft, hltRight⟩ := List.forall_mem_append.mp h.lt
  exact ⟨⟨hleft, hltLeft⟩, ⟨hright, hltRight⟩, hdisjoint⟩

theorem append (h : Distinct ids next) (h' : Distinct ids' next) (hdisjoint : ids.Disjoint ids') :
    Distinct (ids ++ ids') next :=
  ⟨List.nodup_append'.mpr ⟨h.nodup, h'.nodup, hdisjoint⟩, List.forall_mem_append.mpr ⟨h.lt, h'.lt⟩⟩

/-- **The identities stay distinct** if those of what takes the place of the target are new. -/
theorem replace (h : Distinct t.ids next) (hr : Distinct r.ids next) (hnew : r.ids.Disjoint t.ids)
    (target : Nat) :
    Distinct (t.replace target r next).1.ids (t.replace target r next).2 := by
  induction t generalizing next with
  | literal id value | constant id name | percent id value =>
    rw [Node.replace]
    split
    · exact hr
    · exact h
  | negation id operand ih =>
    rw [Node.replace]
    split
    · exact hr
    · exact (ih h.tail hr (List.disjoint_of_disjoint_cons_right hnew)).negate
  | call id f operand ih | group id operand ih =>
    rw [Node.replace]
    split
    · exact hr
    · exact (ih h.tail hr (List.disjoint_of_disjoint_cons_right hnew)).cons
  | binary id op left right ihLeft ihRight =>
    rw [ids_binary] at h hnew
    obtain ⟨hleft, hright, hdisjoint⟩ := h.tail.of_append
    obtain ⟨hnewLeft, hnewRight⟩ :=
      List.disjoint_append_right.mp (List.disjoint_of_disjoint_cons_right hnew)
    rw [Node.replace]
    split
    · exact hr
    have hle := le_replace left target r next
    have hle' := le_replace right target r (left.replace target r next).2
    have hleft' := ihLeft hleft hr hnewLeft
    have hright' := ihRight (hright.mono hle) (hr.mono hle) hnewRight
    show Distinct (binary _ op _ _).ids _
    rw [ids_binary]
    refine ((hleft'.mono hle').append hright' fun j hj hj' => ?_).cons
    -- Only one operand has the target, so that only one of them has got the new identities.
    rcases mem_ids_replace hj with hj | ⟨ht, hj⟩ | ⟨hge, hlt⟩
    · rcases mem_ids_replace hj' with hj' | ⟨-, hj'⟩ | ⟨hge, -⟩
      · exact hdisjoint hj hj'
      · exact hnewLeft hj' hj
      · exact absurd (hleft.lt j hj) (Nat.not_lt.mpr (hle.trans hge))
    · rcases mem_ids_replace hj' with hj' | ⟨ht', -⟩ | ⟨hge, -⟩
      · exact hnewRight hj hj'
      · exact hdisjoint ht ht'
      · exact absurd (hr.lt j hj) (Nat.not_lt.mpr (hle.trans hge))
    · rcases mem_ids_replace hj' with hj' | ⟨-, hj'⟩ | ⟨hge', -⟩
      · exact absurd (hright.lt j hj') (Nat.not_lt.mpr hge)
      · exact absurd (hr.lt j hj') (Nat.not_lt.mpr hge)
      · exact absurd hlt (Nat.not_lt.mpr hge')

end Distinct

/-! ## Leaves are kept -/

/-- A number after a replacement has taken the place of the target, has been there, or is new. -/
theorem eq_literal_of_replace {v : Double} (h : (t.replace target r next).1 = literal j v) :
    t.id = target ∨ t = literal j v ∨ next ≤ j := by
  by_cases ht : t.id = target
  · exact .inl ht
  refine .inr ?_
  cases t with
  | literal id value | constant id name | percent id value =>
    rw [replace, if_neg ht] at h
    exact .inl h
  | negation id operand =>
    rw [replace, if_neg ht] at h
    have hle := le_replace operand target r next
    obtain rfl : (operand.replace target r next).2 = j := by
      have hid := congrArg Node.id h
      revert hid
      show (negate _ _).id = _ → _
      cases (operand.replace target r next).1 <;> exact fun hid => hid
    exact .inr hle
  | binary id op left right | call id f argument | group id inner =>
    rw [replace, if_neg ht] at h
    cases h

/-- **Leaves outside the target are kept**, with their identities. -/
theorem mem_nodes_replace {n : Node} (hfolded : t.expr.Folded) (hlt : ∀ id ∈ t.ids, id < next)
    (hn : n ∈ t.nodes) (hleaf : n.nodes = [n])
    (hkept : ∀ m ∈ t.nodes, m.id = target → n ∉ m.nodes) :
    n ∈ (t.replace target r next).1.nodes := by
  -- Nodes with operands are no leaves.
  have hbelow {u : Node} {rest : List Node} (h : n ∈ u :: rest) (hu : u.nodes = u :: rest)
      (hrest : rest ≠ []) : n ∈ rest := by
    rcases List.mem_cons.mp h with rfl | h
    · rw [hleaf, List.cons.injEq] at hu
      exact absurd hu.2.symm hrest
    · exact h
  induction t generalizing next with
  | literal id value | constant id name | percent id value =>
    rw [replace, if_neg fun ht => hkept _ (self_mem_nodes _) ht hn]
    exact hn
  | negation id operand ih =>
    rw [replace, if_neg fun ht => hkept _ (self_mem_nodes _) ht hn]
    obtain ⟨hnumber, hfoldedOperand⟩ := Expr.folded_negation.mp hfolded
    have hn := hbelow hn rfl (List.ne_nil_of_mem operand.self_mem_nodes)
    have hmem := ih hfoldedOperand (List.forall_mem_cons.mp hlt).2 hn fun m hm =>
      hkept m (List.mem_cons_of_mem _ hm)
    show n ∈ (negate _ _).nodes
    cases hoperand : (operand.replace target r next).1 with
    | literal j v =>
      -- No leaf of the tree is a number that a negation has been folded into.
      rw [hoperand] at hmem
      obtain rfl := List.mem_singleton.mp hmem
      rcases eq_literal_of_replace hoperand with ht | rfl | hle
      · exact absurd hn (hkept operand (List.mem_cons_of_mem _ operand.self_mem_nodes) ht)
      · exact hnumber.elim
      · exact absurd (hlt j (List.mem_cons_of_mem _ (id_mem_ids hn))) (Nat.not_lt.mpr hle)
    | constant j c | percent j v | negation j u | binary j op u v | call j f u | group j u =>
      rw [hoperand] at hmem
      exact List.mem_cons_of_mem _ hmem
  | binary id op left right ihLeft ihRight =>
    rw [replace, if_neg fun ht => hkept _ (self_mem_nodes _) ht hn]
    obtain ⟨hfoldedLeft, hfoldedRight⟩ := Expr.folded_binary.mp hfolded
    rw [ids_binary] at hlt
    obtain ⟨hltLeft, hltRight⟩ := List.forall_mem_append.mp (List.forall_mem_cons.mp hlt).2
    have hle := le_replace left target r next
    have hn := hbelow hn rfl
      (List.append_ne_nil_of_left_ne_nil (List.ne_nil_of_mem left.self_mem_nodes) _)
    refine List.mem_cons_of_mem _ (List.mem_append.mpr ((List.mem_append.mp hn).imp ?_ ?_))
    · exact fun hn => ihLeft hfoldedLeft hltLeft hn fun m hm =>
        hkept m (List.mem_cons_of_mem _ (List.mem_append_left _ hm))
    · exact fun hn => ihRight hfoldedRight (fun id hid => (hltRight id hid).trans_le hle) hn
        fun m hm => hkept m (List.mem_cons_of_mem _ (List.mem_append_right _ hm))
  | call id f argument ih =>
    rw [replace, if_neg fun ht => hkept _ (self_mem_nodes _) ht hn]
    have hn := hbelow hn rfl (List.ne_nil_of_mem argument.self_mem_nodes)
    exact List.mem_cons_of_mem _ (ih (Expr.folded_call.mp hfolded) (List.forall_mem_cons.mp hlt).2
      hn fun m hm => hkept m (List.mem_cons_of_mem _ hm))
  | group id inner ih =>
    rw [replace, if_neg fun ht => hkept _ (self_mem_nodes _) ht hn]
    have hn := hbelow hn rfl (List.ne_nil_of_mem inner.self_mem_nodes)
    exact List.mem_cons_of_mem _ (ih (Expr.folded_group.mp hfolded) (List.forall_mem_cons.mp hlt).2
      hn fun m hm => hkept m (List.mem_cons_of_mem _ hm))

/-- **Every expression can be given identities**, from any number on. -/
theorem exists_node (e : Expr) (first : Nat) :
    ∃ (t : Node) (next : Nat), t.expr = e ∧ first ≤ next ∧ Distinct t.ids next ∧
      ∀ id ∈ t.ids, first ≤ id := by
  have hleaf {first : Nat} : Distinct [first] (first + 1) :=
    .cons ⟨List.nodup_nil, List.forall_mem_nil _⟩
  induction e generalizing first with
  | literal value => exact ⟨literal first value, first + 1, rfl, Nat.le_succ _, hleaf, by simp⟩
  | constant name => exact ⟨constant first name, first + 1, rfl, Nat.le_succ _, hleaf, by simp⟩
  | percent value => exact ⟨percent first value, first + 1, rfl, Nat.le_succ _, hleaf, by simp⟩
  | negation operand ih =>
    obtain ⟨t, next, rfl, hle, hids, hge⟩ := ih first
    exact ⟨negation next t, next + 1, rfl, Nat.le_succ_of_le hle, hids.cons,
      List.forall_mem_cons.mpr ⟨hle, hge⟩⟩
  | binary op left right ihLeft ihRight =>
    obtain ⟨t, middle, rfl, hle, hleft, hge⟩ := ihLeft first
    obtain ⟨u, next, rfl, hle', hright, hge'⟩ := ihRight middle
    refine ⟨binary next op t u, next + 1, rfl, Nat.le_succ_of_le (hle.trans hle'), ?_, ?_⟩
    · rw [ids_binary]
      exact ((hleft.mono hle').append hright fun j hj hj' =>
        absurd (hleft.lt j hj) (Nat.not_lt.mpr (hge' j hj'))).cons
    · rw [ids_binary]
      exact List.forall_mem_cons.mpr ⟨hle.trans hle', List.forall_mem_append.mpr
        ⟨hge, fun id hid => hle.trans (hge' id hid)⟩⟩
  | call f argument ih =>
    obtain ⟨t, next, rfl, hle, hids, hge⟩ := ih first
    exact ⟨call next f t, next + 1, rfl, Nat.le_succ_of_le hle, hids.cons,
      List.forall_mem_cons.mpr ⟨hle, hge⟩⟩
  | group inner ih =>
    obtain ⟨t, next, rfl, hle, hids, hge⟩ := ih first
    exact ⟨group next t, next + 1, rfl, Nat.le_succ_of_le hle, hids.cons,
      List.forall_mem_cons.mpr ⟨hle, hge⟩⟩

/-! ## Leaves replaced one after the other -/

/-- The expression with some of its constants and percentages, given by their identities, replaced
at once. -/
def exprWith (f : Nat → Option Expr) : Node → Expr
  | literal _ value => .literal value
  | constant id name => (f id).getD (.constant name)
  | percent id value => (f id).getD (.percent value)
  | negation _ operand => (operand.exprWith f).negate
  | binary _ op left right => .binary op (left.exprWith f) (right.exprWith f)
  | call _ g argument => .call g (argument.exprWith f)
  | group _ inner => .group (inner.exprWith f)

variable {f : Nat → Option Expr}

theorem exprWith_negate (t : Node) (id : Nat) :
    (t.negate id).exprWith f = (t.exprWith f).negate := by
  cases t <;> rfl

/-- Nothing is replaced among other identities. -/
theorem exprWith_eq_expr (hfolded : t.expr.Folded) (h : ∀ id ∈ t.ids, f id = none) :
    t.exprWith f = t.expr := by
  induction t with
  | literal id value => rfl
  | constant id name | percent id value =>
    rw [exprWith, h id (List.mem_singleton_self id)]
    rfl
  | negation id operand ih =>
    obtain ⟨hnumber, hfolded⟩ := Expr.folded_negation.mp hfolded
    rw [exprWith, ih hfolded (List.forall_mem_cons.mp h).2, Expr.negate_of_notLiteral hnumber]
    rfl
  | binary id op left right ihLeft ihRight =>
    rw [ids_binary] at h
    obtain ⟨hleft, hright⟩ := List.forall_mem_append.mp (List.forall_mem_cons.mp h).2
    obtain ⟨hfoldedLeft, hfoldedRight⟩ := Expr.folded_binary.mp hfolded
    rw [exprWith, ihLeft hfoldedLeft hleft, ihRight hfoldedRight hright]
    rfl
  | call id g argument ih =>
    rw [exprWith, ih (Expr.folded_call.mp hfolded) (List.forall_mem_cons.mp h).2]
    rfl
  | group id inner ih =>
    rw [exprWith, ih (Expr.folded_group.mp hfolded) (List.forall_mem_cons.mp h).2]
    rfl

/-- Nodes of the identity are constants and percentages. -/
def Names (t : Node) (target : Nat) : Prop := ∀ n ∈ t.nodes, n.id = target → n.isName = true

/-- To replace a leaf first and others then is to replace all of them at once. -/
theorem exprWith_replace (hnames : t.Names target) (hr : r.exprWith f = r.expr) :
    (t.replace target r next).1.exprWith f =
      t.exprWith (Function.update f target (some r.expr)) := by
  -- What is no constant and no percentage has another identity.
  have hother {u : Node} (hu : u.Names target) (hname : u.isName = false) : u.id ≠ target := by
    intro hid
    rw [hu u u.self_mem_nodes hid] at hname
    cases hname
  induction t generalizing next with
  | literal id value =>
    rw [replace, if_neg (hother hnames rfl)]
    rfl
  | constant id name | percent id value =>
    rw [replace]
    split
    · next hid =>
      obtain rfl : id = target := hid
      rw [exprWith, Function.update_self]
      exact hr
    · next hid =>
      have hne : id ≠ target := hid
      rw [exprWith, exprWith, Function.update_of_ne hne]
  | negation id operand ih =>
    rw [replace, if_neg (hother hnames rfl)]
    show (negate _ _).exprWith f = _
    rw [exprWith_negate, ih fun n hn => hnames n (List.mem_cons_of_mem _ hn)]
    rfl
  | binary id op left right ihLeft ihRight =>
    rw [replace, if_neg (hother hnames rfl)]
    show Expr.binary op _ _ = _
    rw [ihLeft fun n hn => hnames n (List.mem_cons_of_mem _ (List.mem_append_left _ hn)),
      ihRight fun n hn => hnames n (List.mem_cons_of_mem _ (List.mem_append_right _ hn))]
    rfl
  | call id g argument ih =>
    rw [replace, if_neg (hother hnames rfl)]
    show Expr.call g _ = _
    rw [ih fun n hn => hnames n (List.mem_cons_of_mem _ hn)]
    rfl
  | group id inner ih =>
    rw [replace, if_neg (hother hnames rfl)]
    show Expr.group _ = _
    rw [ih fun n hn => hnames n (List.mem_cons_of_mem _ hn)]
    rfl

/-- **A leaf is still a leaf** after another node has been replaced. -/
theorem Names.replace (h : t.Names j) (hlt : j < next) (hr : j ∉ r.ids) (target : Nat) :
    (t.replace target r next).1.Names j := by
  rintro n hn rfl
  rcases comesFrom_replace hn with hn | ⟨-, hn⟩ | ⟨hge, -⟩
  · exact h n hn rfl
  · exact absurd (id_mem_ids hn) hr
  · exact absurd hlt (Nat.not_lt.mpr hge)

/-- A node to be replaced, and what takes its place. -/
structure Edit where
  target : Nat
  replacement : Node

/-- The tree after edits, and the identity of the next new node. -/
def run (edits : List Edit) (s : Node × Nat) : Node × Nat :=
  edits.foldl (fun s edit => s.1.replace edit.target edit.replacement s.2) s

/-- **A run of edits keeps the tree folded.** -/
theorem folded_run {edits : List Edit} (h : ∀ edit ∈ edits, edit.replacement.expr.Folded)
    (hfolded : t.expr.Folded) : (run edits (t, next)).1.expr.Folded := by
  induction edits generalizing t next with
  | nil => exact hfolded
  | cons edit edits ih =>
    obtain ⟨hedit, hedits⟩ := List.forall_mem_cons.mp h
    exact ih hedits (folded_replace hedit t edit.target next)

/-- What takes the place of a node in the first edit of it. -/
def table : List Edit → Nat → Option Expr
  | [] => fun _ => none
  | edit :: edits => Function.update (table edits) edit.target (some edit.replacement.expr)

theorem table_eq_none {edits : List Edit} (h : ∀ edit ∈ edits, edit.target ≠ j) :
    table edits j = none := by
  induction edits with
  | nil => rfl
  | cons edit edits ih =>
    obtain ⟨hedit, hedits⟩ := List.forall_mem_cons.mp h
    rw [table, Function.update_of_ne hedit.symm]
    exact ih hedits

theorem table_eq_some {edits : List Edit} (h : (edits.map Edit.target).Nodup) {edit : Edit}
    (hedit : edit ∈ edits) : table edits edit.target = some edit.replacement.expr := by
  induction edits with
  | nil => cases hedit
  | cons first edits ih =>
    obtain ⟨hfirst, hedits⟩ := List.nodup_cons.mp h
    rcases List.mem_cons.mp hedit with rfl | hedit
    · exact Function.update_self ..
    · have hne : edit.target ≠ first.target := by
        intro heq
        exact hfirst (heq ▸ List.mem_map_of_mem hedit)
      rw [table, Function.update_of_ne hne]
      exact ih hedits hedit

/-- **Leaves replaced one after the other are replaced at once.** -/
theorem exprWith_run {edits : List Edit} (hnames : ∀ edit ∈ edits, t.Names edit.target)
    (hlt : ∀ edit ∈ edits, edit.target < next)
    (hfolded : ∀ edit ∈ edits, edit.replacement.expr.Folded)
    (hnew : ∀ edit ∈ edits, ∀ other ∈ edits, other.target ∉ edit.replacement.ids) :
    (run edits (t, next)).1.exprWith (fun _ => none) = t.exprWith (table edits) := by
  induction edits generalizing t next with
  | nil => rfl
  | cons edit edits ih =>
    obtain ⟨hname, hnames⟩ := List.forall_mem_cons.mp hnames
    obtain ⟨-, hlt⟩ := List.forall_mem_cons.mp hlt
    obtain ⟨hfoldedEdit, hfolded⟩ := List.forall_mem_cons.mp hfolded
    obtain ⟨hnewEdit, hnew⟩ := List.forall_mem_cons.mp hnew
    have hlater : ∀ other ∈ edits, other.target ∉ edit.replacement.ids :=
      (List.forall_mem_cons.mp hnewEdit).2
    have hreplacement : edit.replacement.exprWith (table edits) = edit.replacement.expr := by
      refine exprWith_eq_expr hfoldedEdit fun id hid => table_eq_none fun other hother => ?_
      rintro rfl
      exact hlater other hother hid
    have hle := le_replace t edit.target edit.replacement next
    rw [table, ← exprWith_replace hname hreplacement]
    exact ih (fun other hother => (hnames other hother).replace (hlt other hother)
        (hlater other hother) edit.target)
      (fun other hother => (hlt other hother).trans_le hle) hfolded
      fun e he other hother => (List.forall_mem_cons.mp (hnew e he)).2 other hother

/-! ## Leaves that have been looked up -/

/-- The edits replace nodes that have been looked up in a tree, one after the other, by new ones. -/
structure Replaces (t : Node) (g : Expr → Expr) (found : List Node) (edits : List Edit) : Prop where
  targets : edits.map Edit.target = found.map Node.id
  replacements : ∀ edit ∈ edits, ∀ n ∈ found, edit.target = n.id →
    edit.replacement.expr = g n.expr
  new : ∀ edit ∈ edits, edit.replacement.ids.Disjoint t.ids

/-- Nodes are known by their identities. -/
theorem eq_of_id_eq (hids : t.ids.Nodup) {m n : Node} (hm : m ∈ t.nodes) (hn : n ∈ t.nodes)
    (h : m.id = n.id) : m = n :=
  List.inj_on_of_nodup_map hids hm hn h

namespace Replaces

variable {g : Expr → Expr} {p : Node → Bool} {edits : List Edit}

/-- Each edit belongs to a node that has been looked up. -/
theorem exists_found (h : t.Replaces g (t.nodes.filter p) edits) {edit : Edit}
    (hedit : edit ∈ edits) :
    ∃ n ∈ t.nodes, p n = true ∧ edit.target = n.id ∧ edit.replacement.expr = g n.expr := by
  have htarget := List.mem_map_of_mem (f := Edit.target) hedit
  rw [h.targets] at htarget
  obtain ⟨n, hn, heq⟩ := List.mem_map.mp htarget
  obtain ⟨hmem, hpn⟩ := List.mem_filter.mp hn
  exact ⟨n, hmem, hpn, heq.symm, h.replacements edit hedit n hn heq.symm⟩

/-- A node that has the target of an edit has been looked up. -/
theorem of_target (h : t.Replaces g (t.nodes.filter p) edits) (hids : t.ids.Nodup) {edit : Edit}
    (hedit : edit ∈ edits) {n : Node} (hn : n ∈ t.nodes) (hid : n.id = edit.target) :
    p n = true := by
  obtain ⟨m, hm, hpm, heq, -⟩ := h.exists_found hedit
  rwa [eq_of_id_eq hids hn hm (hid.trans heq)]

/-- The table of the edits is about the nodes that have been looked up. -/
theorem table_id (h : t.Replaces g (t.nodes.filter p) edits) (hids : t.ids.Nodup) {n : Node}
    (hn : n ∈ t.nodes) : table edits n.id = if p n = true then some (g n.expr) else none := by
  split
  · next hpn =>
    have hfound := List.mem_filter.mpr ⟨hn, hpn⟩
    have hid : n.id ∈ edits.map Edit.target := by
      rw [h.targets]
      exact List.mem_map_of_mem hfound
    have hdistinct : (edits.map Edit.target).Nodup := by
      rw [h.targets]
      exact hids.sublist (List.filter_sublist.map Node.id)
    obtain ⟨edit, hedit, heq⟩ := List.mem_map.mp hid
    rw [← heq, table_eq_some hdistinct hedit, h.replacements edit hedit n hfound heq]
  · next hpn => exact table_eq_none fun edit hedit heq => hpn (h.of_target hids hedit hn heq.symm)

end Replaces

variable {onConstant : ConstantName → Expr} {onPercent : Double → Expr}

/-- Leaves are replaced at once by what their identities stand for. -/
theorem exprWith_eq_mapLeaves
    (h : ∀ n ∈ t.nodes, n.isName = true →
      (f n.id).getD n.expr = n.expr.mapLeaves onConstant onPercent) :
    t.exprWith f = t.expr.mapLeaves onConstant onPercent := by
  induction t with
  | literal id value => rfl
  | constant id name => exact h (constant id name) (List.mem_singleton_self _) rfl
  | percent id value => exact h (percent id value) (List.mem_singleton_self _) rfl
  | negation id operand ih =>
    rw [exprWith, ih fun n hn => h n (List.mem_cons_of_mem _ hn)]
    rfl
  | binary id op left right ihLeft ihRight =>
    rw [exprWith, ihLeft fun n hn => h n (List.mem_cons_of_mem _ (List.mem_append_left _ hn)),
      ihRight fun n hn => h n (List.mem_cons_of_mem _ (List.mem_append_right _ hn))]
    rfl
  | call id g argument ih =>
    rw [exprWith, ih fun n hn => h n (List.mem_cons_of_mem _ hn)]
    rfl
  | group id inner ih =>
    rw [exprWith, ih fun n hn => h n (List.mem_cons_of_mem _ hn)]
    rfl

/-- **Leaves that have been looked up stay valid** while they are replaced one after the other: in
the end, each of them has been replaced. -/
theorem expr_run {p : Node → Bool} {edits : List Edit}
    (hp : ∀ n, p n = true → n.isName = true)
    (hrest : ∀ n, n.isName = true → p n = false →
      n.expr.mapLeaves onConstant onPercent = n.expr)
    (hconstant : ∀ c, (onConstant c).Folded) (hpercent : ∀ v, (onPercent v).Folded)
    (hfolded : t.expr.Folded) (hids : Distinct t.ids next)
    (h : t.Replaces (Expr.mapLeaves onConstant onPercent) (t.nodes.filter p) edits) :
    (run edits (t, next)).1.expr = t.expr.mapLeaves onConstant onPercent := by
  have hreplaced : ∀ edit ∈ edits, edit.replacement.expr.Folded := by
    intro edit hedit
    obtain ⟨n, -, -, -, heq⟩ := h.exists_found hedit
    exact heq ▸ Expr.Folded.mapLeaves hconstant hpercent n.expr
  have hnames : ∀ edit ∈ edits, t.Names edit.target := fun edit hedit n hn hid =>
    hp n (h.of_target hids.nodup hedit hn hid)
  have hlt : ∀ edit ∈ edits, edit.target < next := by
    intro edit hedit
    obtain ⟨n, hn, -, hid, -⟩ := h.exists_found hedit
    exact hid ▸ hids.lt _ (id_mem_ids hn)
  have hnew : ∀ edit ∈ edits, ∀ other ∈ edits, other.target ∉ edit.replacement.ids := by
    intro edit hedit other hother hmem
    obtain ⟨n, hn, -, hid, -⟩ := h.exists_found hother
    exact h.new edit hedit hmem (hid ▸ id_mem_ids hn)
  rw [← exprWith_eq_expr (f := fun _ => none) (folded_run hreplaced hfolded) fun _ _ => rfl,
    exprWith_run hnames hlt hreplaced hnew]
  refine exprWith_eq_mapLeaves fun n hn hname => ?_
  rw [h.table_id hids.nodup hn]
  split
  · rfl
  · next hpn => exact (hrest n hname (Bool.not_eq_true _ ▸ hpn)).symm

end Node

end Stepwise
