/-
# Edits of trees

A derivation edits its tree, one node after the other.  A node is replaced in its context; a number
in its place takes up the negations directly around it, and nothing else changes.  So no tree that a
derivation goes through has a negation directly over a number.

* `Derivation.Folded` : no tree so far has a negation directly over a number;
* `Derivation.Folded.foldl` : phases leave it so;
* `Derivation.foldl_congr` : inner derivations start from such trees only;
* `Node.Editable` : what edits of a tree come to;
* `Node.editable_of_distinct` : trees with distinct identities can be edited.
-/
import Stepwise.Proofs.Derivation.Value
import Stepwise.Proofs.Expr.Identity

namespace Stepwise

open Stepwise.Expr

variable {ops : Operations}

namespace Derivation

variable {d : Derivation} {inner inner' : Expr → Except Failure Reduced}

/-! ## Folded trees -/

/-- No tree of the derivation so far has a negation directly over a number. -/
structure Folded (d : Derivation) : Prop where
  tree : d.tree.Folded
  trace : ∀ entry ∈ d.trace, entry.tree.Folded

namespace Folded

theorem record (h : d.Folded) {tree : Expr} (htree : tree.Folded) (reduction : Reduction) :
    (d.record tree reduction).Folded where
  tree := htree
  trace := List.forall_mem_append.mpr ⟨h.trace, List.forall_mem_singleton.mpr htree⟩

theorem stop (h : d.Folded) (failure : Failure) : (d.stop failure).Folded := ⟨h.tree, h.trace⟩

theorem setNode (h : d.Folded) (i : Nat) (v : Double) (reduction : Reduction) :
    (d.record (d.tree.setNode i (.literal v)) reduction).Folded :=
  h.record (h.tree.setNode (folded_literal v) i) reduction

theorem evaluateConstants (h : d.Folded) : d.evaluateConstants.Folded := by
  rw [Derivation.evaluateConstants]
  split
  · exact h.record (.mapLeaves (fun c => folded_literal _) folded_percent d.tree) _
  · exact h

theorem expandPercentages (h : d.Folded) : d.expandPercentages.Folded := by
  rw [Derivation.expandPercentages]
  split
  · exact h.record (.mapLeaves folded_constant (fun v => by simp) d.tree) _
  · exact h

theorem reduceCalls (h : d.Folded) (ops : Operations) (inner : Expr → Except Failure Reduced)
    (fuel : Nat) : (d.reduceCalls ops inner fuel).Folded := by
  induction fuel generalizing d with
  | zero => exact h
  | succ fuel ih =>
    rw [Derivation.reduceCalls]
    split
    · next i f argument hlast =>
      split
      · exact h.stop _
      · next reduced hreduced =>
        -- The step for the argument leaves the tree as it is.
        have hshown : (if reduced.trace.isEmpty then d
            else d.record d.tree (.argument f argument)).Folded := by
          split
          · exact h
          · exact h.record h.tree _
        dsimp only
        split
        · exact hshown.stop _
        · exact ih (hshown.setNode i _ _)
    · exact h

theorem reduceGroups (h : d.Folded) (inner : Expr → Except Failure Reduced) (fuel : Nat) :
    (d.reduceGroups inner fuel).Folded := by
  induction fuel generalizing d with
  | zero => exact h
  | succ fuel ih =>
    rw [Derivation.reduceGroups]
    split
    · split
      · exact h.stop _
      · exact ih (h.setNode _ _ _)
    · exact h

theorem reduceOperators (h : d.Folded) (ops : Operations) (operators : List Operator)
    (title : String) (fuel : Nat) : (d.reduceOperators ops operators title fuel).Folded := by
  induction fuel generalizing d with
  | zero => exact h
  | succ fuel ih =>
    rw [Derivation.reduceOperators]
    split
    · split
      · exact h.stop _
      · exact ih (h.setNode _ _ _)
    · exact h

/-- **A phase leaves the trees folded**, whatever inner derivations yield. -/
theorem apply (h : d.Folded) (ops : Operations) (inner : Expr → Except Failure Reduced)
    (phase : Phase) : (phase.apply ops inner d).Folded := by
  cases phase with
  | constants =>
    rw [Phase.apply]
    split
    · exact h
    · exact h.evaluateConstants
  | percentages =>
    rw [Phase.apply]
    split
    · exact h
    · exact h.expandPercentages
  | calls =>
    rw [Phase.apply]
    split
    · exact h
    · exact h.reduceCalls ops inner _
  | groups =>
    rw [Phase.apply]
    split
    · exact h
    · exact h.reduceGroups inner _
  | fold operators title =>
    rw [Phase.apply]
    split
    · exact h
    · exact h.reduceOperators ops operators title _

/-- **A run of phases leaves the trees folded.** -/
theorem foldl (h : d.Folded) (ops : Operations) (inner : Expr → Except Failure Reduced)
    (phases : List Phase) : (phases.foldl (Phase.apply ops inner) d).Folded := by
  induction phases generalizing d with
  | nil => exact h
  | cons phase phases ih => exact ih (h.apply ops inner phase)

end Folded

/-! ## Inner derivations -/

section Congruence

variable (hinner : ∀ n : Expr, n.Folded → inner n = inner' n)

include hinner

/-- Calls are resolved by derivations that start from folded trees. -/
theorem reduceCalls_congr (h : d.Folded) (fuel : Nat) :
    d.reduceCalls ops inner fuel = d.reduceCalls ops inner' fuel := by
  induction fuel generalizing d with
  | zero => rfl
  | succ fuel ih =>
    cases hlast : d.tree.lastNode? isCall with
    | none => simp only [reduceCalls, hlast]
    | some found =>
      obtain ⟨i, n⟩ := found
      obtain ⟨hat, hcall, -⟩ := lastNode?_eq_some hlast
      obtain ⟨f, argument, rfl⟩ : ∃ f argument, n = .call f argument := by
        cases n <;> first | exact ⟨_, _, rfl⟩ | cases hcall
      have hargument := hinner argument (folded_call.mp (h.tree.of_nodeAt hat))
      simp only [reduceCalls, hlast, hargument]
      split
      · rfl
      · next reduced hreduced =>
        have hshown : (if reduced.trace.isEmpty then d
            else d.record d.tree (.argument f argument)).Folded := by
          split
          · exact h
          · exact h.record h.tree _
        split
        · rfl
        · exact ih (hshown.setNode i _ _)

/-- Groups are resolved by derivations that start from folded trees. -/
theorem reduceGroups_congr (h : d.Folded) (fuel : Nat) :
    d.reduceGroups inner fuel = d.reduceGroups inner' fuel := by
  induction fuel generalizing d with
  | zero => rfl
  | succ fuel ih =>
    cases hlast : d.tree.lastNode? isInnermostGroup with
    | none => simp only [reduceGroups, hlast]
    | some found =>
      obtain ⟨i, n⟩ := found
      obtain ⟨hat, hgroup, -⟩ := lastNode?_eq_some hlast
      obtain ⟨content, rfl⟩ : ∃ content, n = .group content := by
        cases n <;> first | exact ⟨_, rfl⟩ | cases hgroup
      have hcontent := hinner content (folded_group.mp (h.tree.of_nodeAt hat))
      simp only [reduceGroups, hlast, hcontent]
      split
      · rfl
      · exact ih (h.setNode i _ _)

/-- **Inner derivations start from folded trees only**: what they yield for other trees makes no
difference. -/
theorem foldl_congr (h : d.Folded) (ops : Operations) (phases : List Phase) :
    phases.foldl (Phase.apply ops inner) d = phases.foldl (Phase.apply ops inner') d := by
  induction phases generalizing d with
  | nil => rfl
  | cons phase phases ih =>
    have hphase : phase.apply ops inner d = phase.apply ops inner' d := by
      cases phase with
      | constants | percentages | fold operators title => rfl
      | calls => rw [Phase.apply, Phase.apply, reduceCalls_congr hinner h]
      | groups => rw [Phase.apply, Phase.apply, reduceGroups_congr hinner h]
    rw [List.foldl_cons, List.foldl_cons, hphase]
    exact ih (h.apply ops inner' phase)

end Congruence

end Derivation

/-! ## Edits -/

namespace Node

/-- A named constant. -/
def isConstant : Node → Bool
  | constant .. => true
  | _ => false

/-- A percentage. -/
def isPercent : Node → Bool
  | percent .. => true
  | _ => false

variable {t : Node} {next : Nat} {edits : List Edit}

/-- Nothing is edited if nothing has been found. -/
theorem run_of_any_eq_false {p : Node → Bool} {q : Expr → Bool} {g : Expr → Expr}
    (hq : ∀ n : Node, p n = q n.expr) (hany : t.expr.nodes.any q = false)
    (h : t.Replaces g (t.nodes.filter p) edits) : run edits (t, next) = (t, next) := by
  have hfound : t.nodes.filter p = [] := by
    rw [nodes_expr, List.any_map, List.any_eq_false] at hany
    rw [List.filter_eq_nil_iff]
    intro n hn
    rw [hq]
    exact hany n hn
  have htargets := h.targets
  rw [hfound, List.map_nil, List.map_eq_nil_iff] at htargets
  rw [htargets]
  rfl

/-- **What edits of a tree come to.** -/
structure Editable (t : Node) (next : Nat) : Prop where
  /-- A node is replaced in its context: a number takes up the chain of negations directly around
  it, anything else takes the place of the node as it is. -/
  inContext : ∀ n ∈ t.nodes, ∃ context, t.expr = plug context n.expr ∧
    t.expr = plug (beyond context) (.negation^[chain context] n.expr) ∧
    t.ids[position context]? = some n.id ∧ ∀ r : Node,
      (t.replace n.id r next).1.expr = t.expr.setNode (position context) r.expr ∧
      (∀ v, r.expr = .literal v → (t.replace n.id r next).1.expr =
        plug (beyond context) (.literal ((- ·)^[chain context] v))) ∧
      (r.expr.NotLiteral → (t.replace n.id r next).1.expr = plug context r.expr)
  /-- A node that is not there is not replaced. -/
  absent : ∀ target, target ∉ t.ids → ∀ r, (t.replace target r next).1.expr = t.expr
  /-- Leaves outside the target are kept, with their identities. -/
  leaves : ∀ target r, ∀ n ∈ t.nodes, n.nodes = [n] →
    (∀ m ∈ t.nodes, m.id = target → n ∉ m.nodes) → n ∈ (t.replace target r next).1.nodes
  /-- The identities stay distinct if new nodes come in. -/
  distinct : ∀ target r, Distinct r.ids next → r.ids.Disjoint t.ids →
    Distinct (t.replace target r next).1.ids (t.replace target r next).2
  /-- After any edits, no negation stands directly over a number. -/
  folded : ∀ edits, (∀ edit ∈ edits, edit.replacement.expr.Folded) →
    (run edits (t, next)).1.expr.Folded
  /-- Constants that have been looked up beforehand are replaced one after the other, and so are
  they replaced by a derivation. -/
  constants : ∀ edits, t.Replaces (mapLeaves (fun c => .literal c.value) .percent)
    (t.nodes.filter isConstant) edits →
      (run edits (t, next)).1.expr = (Derivation.evaluateConstants { tree := t.expr }).tree
  /-- The same is true of percentages. -/
  percentages : ∀ edits, t.Replaces
    (mapLeaves .constant fun v => .group (.binary .div (.literal v) (.literal 100)))
    (t.nodes.filter isPercent) edits →
      (run edits (t, next)).1.expr = (Derivation.expandPercentages { tree := t.expr }).tree

section Distinct

variable (hids : Distinct t.ids next) (hfolded : t.expr.Folded)

include hids hfolded

theorem expr_run_constants (h : t.Replaces (mapLeaves (fun c => .literal c.value) .percent)
    (t.nodes.filter isConstant) edits) :
    (run edits (t, next)).1.expr = (Derivation.evaluateConstants { tree := t.expr }).tree := by
  rw [Derivation.evaluateConstants]
  split
  · refine expr_run (p := isConstant) (fun n hn => ?_) (fun n hname hn => ?_)
      (fun c => folded_literal _) folded_percent hfolded hids h
    · cases n with
      | constant id a => rfl
      | percent id a | literal id value | negation id operand | binary id op left right
      | call id f argument | group id inner => cases hn
    · cases n with
      | percent id a => rfl
      | constant id a => cases hn
      | literal id value | negation id operand | binary id op left right | call id f argument
      | group id inner => cases hname
  · next hany =>
    rw [run_of_any_eq_false (fun n => ?_) (Bool.not_eq_true _ ▸ hany) h]
    cases n <;> rfl

theorem expr_run_percentages (h : t.Replaces
    (mapLeaves .constant fun v => .group (.binary .div (.literal v) (.literal 100)))
    (t.nodes.filter isPercent) edits) :
    (run edits (t, next)).1.expr = (Derivation.expandPercentages { tree := t.expr }).tree := by
  rw [Derivation.expandPercentages]
  split
  · refine expr_run (p := isPercent) (fun n hn => ?_) (fun n hname hn => ?_)
      folded_constant (fun v => by simp) hfolded hids h
    · cases n with
      | percent id a => rfl
      | constant id a | literal id value | negation id operand | binary id op left right
      | call id f argument | group id inner => cases hn
    · cases n with
      | constant id a => rfl
      | percent id a => cases hn
      | literal id value | negation id operand | binary id op left right | call id f argument
      | group id inner => cases hname
  · next hany =>
    rw [run_of_any_eq_false (fun n => ?_) (Bool.not_eq_true _ ▸ hany) h]
    cases n <;> rfl

/-- **A node is replaced in its context.** -/
theorem exists_context {n : Node} (hn : n ∈ t.nodes) :
    ∃ context, t.expr = plug context n.expr ∧ t.ids[position context]? = some n.id ∧ ∀ r : Node,
      (t.replace n.id r next).1.expr = t.expr.setNode (position context) r.expr := by
  obtain ⟨i, hi⟩ := List.getElem?_of_mem hn
  have hexpr : t.expr.nodes[i]? = some n.expr := by
    rw [nodes_expr, List.getElem?_map, hi]
    rfl
  have hid : t.ids[i]? = some n.id := by
    rw [ids, List.getElem?_map, hi]
    rfl
  obtain ⟨context, hplug, rfl⟩ := exists_plug (nodeAt_of_getElem? hexpr)
  exact ⟨context, hplug, hid, fun r => expr_replace hfolded hids.nodup hid⟩

theorem editable_of_distinct : t.Editable next where
  inContext := by
    intro n hn
    obtain ⟨context, hplug, hid, hreplace⟩ := exists_context hids hfolded hn
    refine ⟨context, hplug, hplug.trans (plug_eq context n.expr), hid,
      fun r => ⟨hreplace r, fun v hv => ?_, fun hr => ?_⟩⟩
    · rw [hreplace, hv, hplug]
      exact setNode_plug_literal context n.expr v
    · rw [hreplace, hplug]
      exact setNode_plug context n.expr hr
  absent := fun target htarget r => expr_replace_of_notMem hfolded htarget
  leaves := fun target r n hn hleaf hkept => mem_nodes_replace hfolded hids.lt hn hleaf hkept
  distinct := fun target r hr hnew => hids.replace hr hnew target
  folded := fun edits hedits => folded_run hedits hfolded
  constants := fun edits h => expr_run_constants hids hfolded h
  percentages := fun edits h => expr_run_percentages hids hfolded h

end Distinct

/-- **Edits in context.**  A tree with distinct identities and without negations directly over
numbers can be edited.  The trees of expressions that have been read are such trees, and so are all
trees that derivations from such a tree go through, whatever their inner derivations yield; these
start from such trees in their turn. -/
theorem edits_in_context :
    (∀ (t : Node) (next : Nat), Distinct t.ids next → t.expr.Folded → t.Editable next) ∧
    (∀ s e, Expr.ofChars s = .ok e →
      e.Folded ∧ ∃ (t : Node) (next : Nat), t.expr = e ∧ Distinct t.ids next) ∧
    ∀ (ops : Operations) (inner : Expr → Except Failure Reduced) (phases : List Phase) (e : Expr),
      e.Folded → (phases.foldl (Phase.apply ops inner) { tree := e }).Folded ∧
        ∀ inner' : Expr → Except Failure Reduced, (∀ n : Expr, n.Folded → inner n = inner' n) →
          phases.foldl (Phase.apply ops inner) { tree := e } =
            phases.foldl (Phase.apply ops inner') { tree := e } := by
  refine ⟨fun t next hids hfolded => editable_of_distinct hids hfolded, fun s e hread => ?_,
    fun ops inner phases e hfolded => ?_⟩
  · obtain ⟨phrase, rfl⟩ := Phrase.exists_of_ofChars hread
    obtain ⟨t, next, ht, -, hids, -⟩ := exists_node phrase.tree 0
    exact ⟨phrase.fits_tree.folded, t, next, ht, hids⟩
  · have hstart : Derivation.Folded { tree := e } := ⟨hfolded, List.forall_mem_nil _⟩
    exact ⟨hstart.foldl ops inner phases,
      fun inner' hinner => Derivation.foldl_congr hinner hstart ops phases⟩

/-- Both signs in `1---pi` are folded when the constant is replaced. -/
theorem edits_in_context_signs :
    Expr.ofChars "1---pi".toList = .ok (.binary .sub (.literal 1)
      (.negation (.negation (.constant .pi)))) ∧
    (run [⟨1, literal 5 Double.pi⟩]
      (binary 4 .sub (literal 0 1) (negation 3 (negation 2 (constant 1 .pi))), 5)).1.expr =
        .binary .sub (.literal 1) (.literal Double.pi) := by
  refine ⟨by rfl, ?_⟩
  have heditable := edits_in_context.1
    (binary 4 .sub (literal 0 1) (negation 3 (negation 2 (constant 1 .pi)))) 5
    ⟨by decide, by decide⟩ (by simp [expr, NotLiteral])
  refine (heditable.constants _ ⟨rfl, ?_, ?_⟩).trans (by decide +kernel)
  · intro edit hedit n hn _
    obtain rfl := List.mem_singleton.mp hedit
    obtain rfl := List.mem_singleton.mp (show n ∈ [constant 1 .pi] from hn)
    rfl
  · intro edit hedit
    obtain rfl := List.mem_singleton.mp hedit
    simp

end Node

end Stepwise
