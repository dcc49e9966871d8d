/-
# Derivations reach the value

A derivation and the plain recursive value agree, whatever the operators and the functions compute.

* `Expr.valueAux_setNode` : a node replaced by its value leaves the value of the tree;
* `Derivation.Sound` : what every phase of a derivation preserves;
* `reduce_iff_value` : the two agree on every expression that can be read.
-/
import Stepwise.Expr.Operations
import Stepwise.Proofs.Expr.Precedence
import Stepwise.Proofs.Expr.Reading

namespace Stepwise

variable {ops : Operations}

/-- A sequence of two computations succeeds when both do. -/
theorem bind_eq_ok {ε α β : Type} {x : Except ε α} {f : α → Except ε β} {b : β} :
    (x >>= f) = .ok b ↔ ∃ a, x = .ok a ∧ f a = .ok b := by
  cases x <;> simp [bind, Except.bind]

/-- What is made of a result succeeds when the result does. -/
theorem map_eq_ok {ε α β : Type} {x : Except ε α} {f : α → β} {b : β} :
    x.map f = .ok b ↔ ∃ a, x = .ok a ∧ f a = b := by
  cases x <;> simp [Except.map]

/-- A computation for each member of a list succeeds with what it yields for them. -/
theorem mapM_map_eq_ok {ε α β γ : Type} {f : β → Except ε γ} {k : α → β} {g : α → γ} {xs : List α}
    (h : ∀ x ∈ xs, f (k x) = .ok (g x)) : (xs.map k).mapM f = .ok (xs.map g) := by
  induction xs with
  | nil => rfl
  | cons x xs ih =>
    rw [List.map_cons, List.mapM_cons, h x List.mem_cons_self,
      ih fun y hy => h y (List.mem_cons_of_mem x hy)]
    rfl

/-- What a computation yields can be computed. -/
theorem eq_ok_of_toOption {ε α : Type} {x : Except ε α} {a : α} (h : x.toOption = some a) :
    x = .ok a := by
  cases x <;> simp_all [Except.toOption]

namespace Expr

/-! ## Values of changed trees -/

theorem valueAux_negate (e : Expr) : e.negate.valueAux ops = (negation e).valueAux ops := by
  cases e <;> rfl

/-- A node replaced by its value leaves the value of the tree. -/
theorem valueAux_setNode {e n : Expr} {i : Nat} (hat : NodeAt e i n) {v : Double}
    (hn : n.valueAux ops = .ok v) :
    (e.setNode i (literal v)).valueAux ops = e.valueAux ops := by
  induction hat with
  | self e =>
    rw [setNode_zero, hn]
    rfl
  | negation hat ih => simp only [setNode, valueAux_negate, valueAux, ih hn]
  | left hat ih => simp only [NodeAt.setNode_left hat, valueAux, ih hn]
  | right hat ih => simp only [NodeAt.setNode_right, valueAux, ih hn]
  | call hat ih | group hat ih => simp only [setNode, valueAux, ih hn]

/-- A tree has a value only if each of its nodes has one. -/
theorem exists_valueAux_of_nodeAt {e n : Expr} {i : Nat} (hat : NodeAt e i n) {v : Double}
    (h : e.valueAux ops = .ok v) : ∃ w, n.valueAux ops = .ok w := by
  induction hat generalizing v with
  | self e => exact ⟨v, h⟩
  | negation hat ih | left hat ih | call hat ih | group hat ih =>
    obtain ⟨x, hx, -⟩ := bind_eq_ok.mp h
    exact ih hx
  | right hat ih =>
    obtain ⟨x, -, hrest⟩ := bind_eq_ok.mp h
    obtain ⟨y, hy, -⟩ := bind_eq_ok.mp hrest
    exact ih hy

/-- Leaves replaced by trees of the same value leave the value of the tree. -/
theorem valueAux_mapLeaves {onConstant : ConstantName → Expr} {onPercent : Double → Expr}
    (hconstant : ∀ c, (onConstant c).valueAux ops = (constant c).valueAux ops)
    (hpercent : ∀ v, (onPercent v).valueAux ops = (percent v).valueAux ops) (e : Expr) :
    (e.mapLeaves onConstant onPercent).valueAux ops = e.valueAux ops := by
  induction e with
  | literal value => rfl
  | constant name => exact hconstant name
  | percent value => exact hpercent value
  | negation operand ih => simp only [mapLeaves, valueAux_negate, valueAux, ih]
  | binary op left right ihLeft ihRight => simp only [mapLeaves, valueAux, ihLeft, ihRight]
  | call f argument ih | group inner ih => simp only [mapLeaves, valueAux, ih]

/-! ## What the searches leave -/

theorem avoids_of_any_eq_false {e : Expr} {p : Expr → Bool} {kind : Kind}
    (h : e.nodes.any p = false) (hp : ∀ n : Expr, n.kind? = some kind → p n = true) :
    e.Avoids kind := by
  intro n hn hkind
  rw [List.any_eq_false] at h
  exact h n hn (hp n hkind)

theorem isCall_of_kind? {n : Expr} (h : n.kind? = some .call) : n.isCall = true := by
  cases n <;> first | rfl | cases h

/-- A tree without calls among its nodes avoids them. -/
theorem avoids_call {e : Expr} (h : ∀ n ∈ e.nodes, n.isCall = false) : e.Avoids .call := by
  intro n hn hkind
  have hcall := h n hn
  rw [isCall_of_kind? hkind] at hcall
  cases hcall

theorem isGroup_of_kind? {n : Expr} (h : n.kind? = some .group) : n.isGroup = true := by
  cases n <;> first | rfl | cases h

/-- A tree with groups has one without a group inside. -/
theorem avoids_group_of_no_innermost {e : Expr}
    (h : ∀ n ∈ e.nodes, Derivation.isInnermostGroup n = false) : e.Avoids .group := by
  induction e with
  | literal value | constant name | percent value => simp [Avoids, nodes, kind?]
  | negation operand ih =>
    exact Avoids.negation_iff.mpr ⟨by decide, ih fun n hn => h n (List.mem_cons_of_mem _ hn)⟩
  | binary op left right ihLeft ihRight =>
    exact Avoids.binary_iff.mpr ⟨by simp,
      ihLeft fun n hn => h n (List.mem_cons_of_mem _ (List.mem_append_left _ hn)),
      ihRight fun n hn => h n (List.mem_cons_of_mem _ (List.mem_append_right _ hn))⟩
  | call f argument ih =>
    exact Avoids.call_iff.mpr ⟨by decide, ih fun n hn => h n (List.mem_cons_of_mem _ hn)⟩
  | group inner ih =>
    have hinner : inner.Avoids .group := ih fun n hn => h n (List.mem_cons_of_mem _ hn)
    have hany : inner.nodes.any isGroup = false := by
      rw [List.any_eq_false]
      intro n hn hgroup
      exact hinner n hn (by cases n <;> simp_all [isGroup, kind?])
    -- Without a group in it, this group would be an innermost one.
    have hself := h _ (self_mem_nodes _)
    simp [Derivation.isInnermostGroup, hany] at hself

end Expr

/-! ## What every phase preserves -/

/-- The reduction of an expression is right: it reaches the value of the expression, and fails
where there is none. -/
def Settles (ops : Operations) (inner : Expr → Except Failure Reduced) (e : Expr) : Prop :=
  ∀ v, (∃ r, inner e = .ok r ∧ r.value = v) ↔ e.value ops = .ok v

namespace Derivation

/-- A derivation from `e` in which nothing is lost: its trees keep to the precedences and have the
value of `e`, it has failed only if `e` has no value, and the kinds that it has dealt with are gone
from its tree. -/
structure Sound (ops : Operations) (e : Expr) (gone : List Expr.Kind) (d : Derivation) :
    Prop where
  fits : d.tree.Fits .sum
  avoids : d.failure = none → ∀ kind ∈ gone, d.tree.Avoids kind
  value : d.failure = none → d.tree.valueAux ops = e.valueAux ops
  noValue : d.failure ≠ none → ∀ v, e.valueAux ops ≠ .ok v
  trace : ∀ entry ∈ d.trace, entry.tree.Fits .sum ∧ entry.tree.valueAux ops = e.valueAux ops

namespace Sound

variable {e n : Expr} {gone : List Expr.Kind} {d : Derivation} {i : Nat}

/-- A derivation at its start. -/
theorem start (hfits : e.Fits .sum) (hgone : ∀ kind ∈ gone, e.Avoids kind) :
    Sound ops e gone { tree := e } where
  fits := hfits
  avoids := fun _ => hgone
  value := fun _ => rfl
  noValue := fun h => absurd rfl h
  trace := fun _ hentry => nomatch hentry

/-- Other kinds may be gone, or the derivation has failed. -/
theorem exchange (h : d.Sound ops e gone) {gone' : List Expr.Kind}
    (hgone : d.failure = none → ∀ kind ∈ gone', d.tree.Avoids kind) : d.Sound ops e gone' where
  fits := h.fits
  avoids := hgone
  value := h.value
  noValue := h.noValue
  trace := h.trace

theorem cons (h : d.Sound ops e gone) {kind : Expr.Kind}
    (hkind : d.failure = none → d.tree.Avoids kind) : d.Sound ops e (kind :: gone) :=
  h.exchange fun hnone => List.forall_mem_cons.mpr ⟨hkind hnone, h.avoids hnone⟩

/-- The tree is flat once everything but signs and operators is gone. -/
theorem flat (h : d.Sound ops e gone) (hnone : d.failure = none)
    (hgone : ∀ kind ∈ [.constant, .percent, .call, .group], kind ∈ gone) : d.tree.Flat where
  constant := h.avoids hnone _ (hgone _ (by simp))
  percent := h.avoids hnone _ (hgone _ (by simp))
  call := h.avoids hnone _ (hgone _ (by simp))
  group := h.avoids hnone _ (hgone _ (by simp))

/-- A tree of the same value may follow. -/
theorem record (h : d.Sound ops e gone) (hnone : d.failure = none) {tree : Expr}
    (hfits : tree.Fits .sum) {gone' : List Expr.Kind} (hgone : ∀ kind ∈ gone', tree.Avoids kind)
    (hvalue : tree.valueAux ops = d.tree.valueAux ops) (r : Reduction) :
    (d.record tree r).Sound ops e gone' where
  fits := hfits
  avoids := fun _ => hgone
  value := fun _ => hvalue.trans (h.value hnone)
  noValue := fun hfailed => absurd hnone hfailed
  trace := by
    intro entry hentry
    rcases List.mem_append.mp hentry with hentry | hentry
    · exact h.trace entry hentry
    · obtain rfl := List.mem_singleton.mp hentry
      exact ⟨hfits, hvalue.trans (h.value hnone)⟩

/-- A node may be replaced by its value. -/
theorem setNode (h : d.Sound ops e gone) (hnone : d.failure = none)
    (hat : Expr.NodeAt d.tree i n) {v : Double} (hn : n.valueAux ops = .ok v) (r : Reduction) :
    (d.record (d.tree.setNode i (.literal v)) r).Sound ops e gone :=
  h.record hnone (h.fits.setNode hat v)
    (fun kind hkind => (h.avoids hnone kind hkind).setNode hat v) (Expr.valueAux_setNode hat hn) r

/-- A node without a value may stop the derivation. -/
theorem stop (h : d.Sound ops e gone) (hnone : d.failure = none) (hat : Expr.NodeAt d.tree i n)
    (hn : ∀ v, n.valueAux ops ≠ .ok v) (failure : Failure) (gone' : List Expr.Kind) :
    (d.stop failure).Sound ops e gone' where
  fits := h.fits
  avoids := fun hfailure => nomatch hfailure
  value := fun hfailure => nomatch hfailure
  noValue := by
    intro _ v hv
    rw [← h.value hnone] at hv
    -- Every node below the root has a value if the root has one.
    obtain ⟨w, hw⟩ := Expr.exists_valueAux_of_nodeAt hat hv
    exact hn w hw
  trace := h.trace

/-! ## Leaves -/

/-- After their phase there are no constants. -/
theorem evaluateConstants (h : d.Sound ops e gone) (hnone : d.failure = none) :
    d.evaluateConstants.Sound ops e (.constant :: gone) := by
  rw [Derivation.evaluateConstants]
  split
  · refine h.record hnone (h.fits.mapLeaves (fun c k => ?_) fun v k => ?_) ?_ ?_ _
    · trivial
    · trivial
    · intro kind hkind
      rcases List.mem_cons.mp hkind with rfl | hkind
      · exact Expr.Avoids.mapLeaves (.inr (.inl rfl)) (fun c _ => .literal _)
          (fun v _ => by simp [Expr.Avoids, Expr.nodes, Expr.kind?])
      · have havoids := h.avoids hnone kind hkind
        refine Expr.Avoids.mapLeaves (.inl havoids) (fun c _ => .literal _) (fun v hv => ?_)
        -- A percentage is a leaf, so that it is of the kind itself or avoids it.
        have hpercent := havoids _ hv
        simpa [Expr.Avoids, Expr.nodes] using hpercent
    · apply Expr.valueAux_mapLeaves
      · exact fun c => rfl
      · exact fun v => rfl
  · next hany =>
    exact h.cons fun _ => Expr.avoids_of_any_eq_false (Bool.not_eq_true _ ▸ hany)
      fun n hn => by cases n <;> first | rfl | cases hn

/-- After their phase there are no percentages; groups and divisions may have come instead. -/
theorem expandPercentages (h : d.Sound ops e gone) (hnone : d.failure = none)
    (hgone : .percent ∈ gone ∨ .group ∉ gone ∧ .operator .div ∉ gone) :
    d.expandPercentages.Sound ops e (.percent :: gone) := by
  rw [Derivation.expandPercentages]
  split
  · next hany =>
    refine h.record hnone (h.fits.mapLeaves (fun c k => ?_) fun v k => ?_) ?_ ?_ _
    · trivial
    · exact ⟨by decide, trivial, trivial⟩
    · intro kind hkind
      rcases List.mem_cons.mp hkind with rfl | hkind
      · exact Expr.Avoids.mapLeaves (.inr (.inr rfl))
          (fun c _ => by simp [Expr.Avoids, Expr.nodes, Expr.kind?])
          (fun v _ => by simp [Expr.Avoids, Expr.nodes, Expr.kind?])
      · have havoids := h.avoids hnone kind hkind
        refine Expr.Avoids.mapLeaves (.inl havoids) (fun c hc => ?_) (fun v hv => ?_)
        · have hconstant := havoids _ hc
          simpa [Expr.Avoids, Expr.nodes] using hconstant
        · rcases hgone with hpercent | ⟨hgroup, hdiv⟩
          · exact absurd rfl (h.avoids hnone _ hpercent _ hv)
          -- A percentage turns into a group with a division; these may not be gone already.
          · have hne : kind ≠ .group := fun heq => hgroup (heq ▸ hkind)
            have hne' : kind ≠ .operator .div := fun heq => hdiv (heq ▸ hkind)
            simp [Expr.Avoids, Expr.nodes, Expr.kind?, hne.symm, hne'.symm]
    · apply Expr.valueAux_mapLeaves
      · exact fun c => rfl
      · exact fun v => rfl
  · next hany =>
    exact h.cons fun _ => Expr.avoids_of_any_eq_false (Bool.not_eq_true _ ▸ hany)
      fun n hn => by cases n <;> first | rfl | cases hn

/-! ## Calls, groups and operators -/

/-- A step that leaves the tree as it is may be recorded or not. -/
theorem recordUnless (h : d.Sound ops e gone) (hnone : d.failure = none) (skipped : Bool)
    (reduction : Reduction) :
    ∃ d', (if skipped then d else d.record d.tree reduction) = d' ∧
      d'.Sound ops e gone ∧ d'.failure = none ∧ d'.tree = d.tree := by
  refine ⟨_, rfl, ?_⟩
  split
  · exact ⟨h, hnone, rfl⟩
  · exact ⟨h.record hnone h.fits (h.avoids hnone) rfl _, hnone, rfl⟩

/-- After their phase there are no calls, provided that their arguments are reduced rightly.  An
argument has no call in it, because the last call comes first. -/
theorem reduceCalls (h : d.Sound ops e gone) (hnone : d.failure = none)
    {inner : Expr → Except Failure Reduced}
    (hinner : .call ∉ gone → ∀ argument : Expr, argument.Fits .sum →
      (∀ kind ∈ .call :: gone, argument.Avoids kind) → Settles ops inner argument)
    {fuel : Nat} (hfuel : d.tree.size ≤ fuel) :
    (d.reduceCalls ops inner fuel).Sound ops e (.call :: gone) := by
  induction fuel generalizing d with
  | zero => exact absurd (Expr.size_pos d.tree) (Nat.not_lt.mpr hfuel)
  | succ fuel ih =>
    cases hlast : d.tree.lastNode? Expr.isCall with
    | none =>
      simp only [Derivation.reduceCalls, hlast]
      exact h.cons fun _ => Expr.avoids_call (Expr.lastNode?_eq_none hlast)
    | some found =>
      obtain ⟨i, n⟩ := found
      obtain ⟨hat, hcall, hinside⟩ := Expr.lastNode?_eq_some hlast
      obtain ⟨f, argument, rfl⟩ : ∃ f argument, n = .call f argument := by
        cases n <;> first | exact ⟨_, _, rfl⟩ | cases hcall
      -- This phase is the first that deals with calls, since there still is one.
      have hgone : .call ∉ gone := fun hmem =>
        h.avoids hnone _ hmem _ (hat.mem_nodes (Expr.self_mem_nodes _)) rfl
      have hargument : Settles ops inner argument := by
        obtain ⟨k, hfits⟩ := h.fits.of_nodeAt hat
        refine hinner hgone argument hfits (List.forall_mem_cons.mpr
          ⟨Expr.avoids_call hinside, fun kind hkind => ?_⟩)
        exact (Expr.Avoids.call_iff.mp ((h.avoids hnone kind hkind).of_nodeAt hat)).2
      have hvalue : (Expr.call f argument).valueAux ops =
          argument.value ops >>= ops.function f := by
        simp only [Expr.valueAux, Expr.value, bind_assoc]
      simp only [Derivation.reduceCalls, hlast]
      cases hreduced : inner argument with
      | error failure =>
        refine h.stop hnone hat (fun v hv => ?_) failure _
        rw [hvalue] at hv
        obtain ⟨x, hx, -⟩ := bind_eq_ok.mp hv
        obtain ⟨r, hr, -⟩ := (hargument x).mpr hx
        rw [hreduced] at hr
        cases hr
      | ok reduced =>
        have hx : argument.value ops = .ok reduced.value :=
          (hargument reduced.value).mp ⟨reduced, hreduced, rfl⟩
        obtain ⟨d', hd', hsound, hnone', htree⟩ :=
          h.recordUnless hnone reduced.trace.isEmpty (.argument f argument)
        rw [← htree] at hat hfuel
        simp only [hd']
        cases hresult : ops.function f reduced.value with
        | error failure =>
          refine hsound.stop hnone' hat (fun v hv => ?_) failure _
          rw [hvalue, hx] at hv
          rw [show (Except.ok reduced.value >>= ops.function f) = ops.function f reduced.value
            from rfl, hresult] at hv
          cases hv
        | ok result =>
          refine ih (hsound.setNode hnone' hat ?_ _) hnone' ?_
          · rw [hvalue, hx]
            exact hresult
          · have hsize := hat.size_setNode (.literal result)
            have hpos := argument.size_pos
            simp only [Expr.size, Derivation.record] at hsize ⊢
            omega

/-- After their phase there are no groups, provided that their contents are reduced rightly. -/
theorem reduceGroups (h : d.Sound ops e gone) (hnone : d.failure = none)
    {inner : Expr → Except Failure Reduced}
    (hinner : .group ∉ gone → ∀ content : Expr, content.Fits .sum →
      (∀ kind ∈ .group :: gone, content.Avoids kind) → Settles ops inner content)
    {fuel : Nat} (hfuel : d.tree.size ≤ fuel) :
    (d.reduceGroups inner fuel).Sound ops e (.group :: gone) := by
  induction fuel generalizing d with
  | zero => exact absurd (Expr.size_pos d.tree) (Nat.not_lt.mpr hfuel)
  | succ fuel ih =>
    cases hlast : d.tree.lastNode? isInnermostGroup with
    | none =>
      simp only [Derivation.reduceGroups, hlast]
      exact h.cons fun _ => Expr.avoids_group_of_no_innermost (Expr.lastNode?_eq_none hlast)
    | some found =>
      obtain ⟨i, n⟩ := found
      obtain ⟨hat, hinnermost, -⟩ := Expr.lastNode?_eq_some hlast
      obtain ⟨content, rfl⟩ : ∃ content, n = .group content := by
        cases n <;> first | exact ⟨_, rfl⟩ | cases hinnermost
      have hgone : .group ∉ gone := fun hmem =>
        h.avoids hnone _ hmem _ (hat.mem_nodes (Expr.self_mem_nodes _)) rfl
      have hcontent : Settles ops inner content := by
        obtain ⟨k, hfits⟩ := h.fits.of_nodeAt hat
        refine hinner hgone content hfits (List.forall_mem_cons.mpr ⟨?_, fun kind hkind => ?_⟩)
        · simp only [isInnermostGroup, Bool.not_eq_true'] at hinnermost
          exact Expr.avoids_of_any_eq_false hinnermost fun m => Expr.isGroup_of_kind?
        · exact (Expr.Avoids.group_iff.mp ((h.avoids hnone kind hkind).of_nodeAt hat)).2
      simp only [Derivation.reduceGroups, hlast]
      cases hreduced : inner content with
      | error failure =>
        refine h.stop hnone hat (fun v hv => ?_) failure _
        obtain ⟨r, hr, -⟩ := (hcontent v).mpr hv
        rw [hreduced] at hr
        cases hr
      | ok reduced =>
        have hvalue : (Expr.group content).valueAux ops = .ok reduced.value :=
          (hcontent reduced.value).mp ⟨reduced, hreduced, rfl⟩
        refine ih (h.setNode hnone hat hvalue _) hnone ?_
        have hsize := hat.size_setNode (.literal reduced.value)
        have hpos := content.size_pos
        simp only [Expr.size, Derivation.record] at hsize ⊢
        omega

/-- Operators between numbers may be reduced in any tree, and none is left in the end. -/
theorem reduceOperators_any (h : d.Sound ops e gone) (hnone : d.failure = none)
    (operators : List Operator) (title : String) {fuel : Nat} (hfuel : d.tree.size ≤ fuel) :
    (d.reduceOperators ops operators title fuel).Sound ops e gone ∧
      ((d.reduceOperators ops operators title fuel).failure = none →
        ∀ n ∈ (d.reduceOperators ops operators title fuel).tree.nodes,
          isReducible operators n = false) := by
  induction fuel generalizing d with
  | zero => exact absurd (Expr.size_pos d.tree) (Nat.not_lt.mpr hfuel)
  | succ fuel ih =>
    cases hfirst : d.tree.firstNode? (isReducible operators) with
    | none =>
      simp only [Derivation.reduceOperators, hfirst]
      exact ⟨h, fun _ => Expr.firstNode?_eq_none hfirst⟩
    | some found =>
      obtain ⟨i, n⟩ := found
      obtain ⟨hat, hreducible⟩ := Expr.firstNode?_eq_some hfirst
      obtain ⟨op, left, right, rfl⟩ :
          ∃ op left right, n = .binary op (.literal left) (.literal right) := by
        unfold isReducible at hreducible
        split at hreducible
        · exact ⟨_, _, _, rfl⟩
        · cases hreducible
      have hvalue : (Expr.binary op (.literal left) (.literal right)).valueAux ops =
          ops.operator op left right := rfl
      simp only [Derivation.reduceOperators, hfirst]
      cases hresult : ops.operator op left right with
      | error failure =>
        refine ⟨h.stop hnone hat (fun v hv => ?_) failure _, fun hfailure => nomatch hfailure⟩
        rw [hvalue, hresult] at hv
        cases hv
      | ok result =>
        refine ih (h.setNode hnone hat (hvalue.trans hresult) _) hnone ?_
        have hsize := hat.size_setNode (.literal result)
        simp only [Expr.size, Derivation.record] at hsize ⊢
        omega

/-- After the phase of a tier of operators there is no operator of the tier, provided that the
tree is flat and the tighter tiers are gone. -/
theorem reduceOperators (h : d.Sound ops e gone) (hnone : d.failure = none)
    (hflat : ∀ kind ∈ [.constant, .percent, .call, .group], kind ∈ gone)
    {k : Place} {operators : List Operator} (hplace : ∀ op ∈ operators, op.place ≤ k)
    (hoperators : ∀ op : Operator, op.place ≤ k → op ∈ operators ∨ .operator op ∈ gone)
    (title : String) {fuel : Nat} (hfuel : d.tree.size ≤ fuel) :
    (d.reduceOperators ops operators title fuel).Sound ops e
      (operators.map .operator ++ gone) := by
  obtain ⟨hsound, hirreducible⟩ := h.reduceOperators_any hnone operators title hfuel
  refine hsound.exchange fun hnone kind hkind => ?_
  rcases List.mem_append.mp hkind with hkind | hkind
  · obtain ⟨op, hop, rfl⟩ := List.mem_map.mp hkind
    exact hsound.fits.avoids_of_irreducible (hsound.flat hnone hflat)
      (fun o ho => (hoperators o ho).imp_right (hsound.avoids hnone _)) (hirreducible hnone)
      (hplace op hop)
  · exact hsound.avoids hnone kind hkind

end Sound

/-! ## Phases -/

section Phases

variable {e : Expr} {gone : List Expr.Kind} {d : Derivation}
  (inner : Expr → Except Failure Reduced)

/-- A failed derivation is left as it is. -/
theorem Sound.unlessFailed {gone' : List Expr.Kind} {d' : Derivation} (h : d.Sound ops e gone)
    (hphase : d.failure = none → d'.Sound ops e gone') :
    (if d.failure.isSome then d else d').Sound ops e gone' := by
  split
  · next hsome =>
    refine h.exchange fun hnone => ?_
    rw [hnone] at hsome
    cases hsome
  · next hsome => exact hphase (Option.not_isSome_iff_eq_none.mp hsome)

theorem Sound.apply_constants (h : d.Sound ops e gone) :
    (Phase.apply ops inner d .constants).Sound ops e (.constant :: gone) :=
  h.unlessFailed h.evaluateConstants

theorem Sound.apply_percentages (h : d.Sound ops e gone)
    (hgone : .percent ∈ gone ∨ .group ∉ gone ∧ .operator .div ∉ gone) :
    (Phase.apply ops inner d .percentages).Sound ops e (.percent :: gone) :=
  h.unlessFailed fun hnone => h.expandPercentages hnone hgone

theorem Sound.apply_calls (h : d.Sound ops e gone)
    (hinner : .call ∉ gone → ∀ argument : Expr, argument.Fits .sum →
      (∀ kind ∈ .call :: gone, argument.Avoids kind) → Settles ops inner argument) :
    (Phase.apply ops inner d .calls).Sound ops e (.call :: gone) :=
  h.unlessFailed fun hnone => h.reduceCalls hnone hinner (Nat.le_refl _)

theorem Sound.apply_groups (h : d.Sound ops e gone)
    (hinner : .group ∉ gone → ∀ content : Expr, content.Fits .sum →
      (∀ kind ∈ .group :: gone, content.Avoids kind) → Settles ops inner content) :
    (Phase.apply ops inner d .groups).Sound ops e (.group :: gone) :=
  h.unlessFailed fun hnone => h.reduceGroups hnone hinner (Nat.le_refl _)

theorem Sound.apply_fold (h : d.Sound ops e gone) (k : Place) (operators : List Operator)
    (title : String) (hflat : ∀ kind ∈ [.constant, .percent, .call, .group], kind ∈ gone)
    (hplace : ∀ op ∈ operators, op.place ≤ k)
    (hoperators : ∀ op : Operator, op.place ≤ k → op ∈ operators ∨ .operator op ∈ gone) :
    (Phase.apply ops inner d (.fold operators title)).Sound ops e
      (operators.map .operator ++ gone) :=
  h.unlessFailed fun hnone =>
    h.reduceOperators hnone hflat hplace hoperators title (Nat.le_refl _)

/-- The kinds that a derivation deals with, the last one first. -/
def dealtWith : List Expr.Kind :=
  [.operator .add, .operator .sub, .operator .mul, .operator .div, .operator .pow, .group, .call,
    .percent, .constant]

/-- The phases one after the other deal with everything, provided that arguments and contents are
reduced rightly. -/
theorem sound_phases (hfits : e.Fits .sum) (hgone : ∀ kind ∈ gone, e.Avoids kind)
    (hpercent : .percent ∈ gone ∨ .group ∉ gone ∧ .operator .div ∉ gone)
    (hcalls : .call ∉ gone → ∀ argument : Expr, argument.Fits .sum →
      (∀ kind ∈ .call :: .percent :: .constant :: gone, argument.Avoids kind) →
        Settles ops inner argument)
    (hgroups : .group ∉ gone → ∀ content : Expr, content.Fits .sum →
      (∀ kind ∈ .group :: .call :: .percent :: .constant :: gone, content.Avoids kind) →
        Settles ops inner content) :
    (Phase.all.foldl (Phase.apply ops inner) { tree := e }).Sound ops e dealtWith := by
  have hstart : Sound ops e gone { tree := e } := .start hfits hgone
  have hconstant := hstart.apply_constants inner
  have hpercentage := hconstant.apply_percentages inner (by simpa using hpercent)
  have hcall := hpercentage.apply_calls inner fun hnot => hcalls (by simpa using hnot)
  have hgroup := hcall.apply_groups inner fun hnot => hgroups (by simpa using hnot)
  have hpower := hgroup.apply_fold inner .power [.pow] "Exponents" (by simp) (by decide)
    fun op hop => by cases op <;> first | exact absurd hop (by decide) | simp
  have hproduct := hpower.apply_fold inner .term [.mul, .div] "Multiplication/Division"
    (by simp) (by decide)
    fun op hop => by cases op <;> first | exact absurd hop (by decide) | simp
  have hsum := hproduct.apply_fold inner .sum [.add, .sub] "Addition/Subtraction" (by simp)
    (by decide) fun op hop => by cases op <;> simp
  exact hsum.exchange fun hnone kind hkind =>
    hsum.avoids hnone kind (List.mem_append_left gone hkind)

end Phases

/-! ## The number at the end -/

variable {e : Expr} {d : Derivation}

/-- When everything is dealt with and nothing failed, the tree is a number. -/
theorem Sound.exists_literal (h : d.Sound ops e dealtWith) (hnone : d.failure = none) :
    ∃ v, d.tree = .literal v := by
  have hflat : d.tree.Flat := h.flat hnone (by simp [dealtWith])
  have hoperators (op : Operator) : d.tree.Avoids (.operator op) :=
    h.avoids hnone _ (by cases op <;> simp [dealtWith])
  have hirreducible : ∀ n ∈ d.tree.nodes, isReducible [] n = false := by
    intro n _
    unfold isReducible
    split <;> rfl
  exact h.fits.literal_of_irreducible hflat (fun op _ => .inr (hoperators op)) hirreducible

/-- A derivation that has dealt with everything concludes rightly. -/
theorem Sound.conclude_iff (h : d.Sound ops e dealtWith) (v : Double) :
    (∃ r, d.conclude = .ok r ∧ r.value = v) ↔ e.value ops = .ok v := by
  cases hfailure : d.failure with
  | some failure =>
    have hno := h.noValue (by simp [hfailure])
    constructor
    · rintro ⟨r, hr, -⟩
      simp [conclude, hfailure] at hr
    · intro hv
      obtain ⟨x, hx, -⟩ := bind_eq_ok.mp hv
      exact absurd hx (hno x)
  | none =>
    obtain ⟨w, hw⟩ := h.exists_literal hfailure
    have hvalue : e.valueAux ops = .ok w := by
      rw [← h.value hfailure, hw]
      rfl
    have he : e.value ops = defined w := by
      rw [Expr.value, hvalue]
      rfl
    rw [he]
    simp only [conclude, hfailure, hw, defined]
    split <;> simp

end Derivation

/-! ## Depths -/

namespace Expr

variable {e : Expr}

/-- Without constants, percentages, calls and groups no inner derivation is needed. -/
theorem settles_flat (depth : Nat) (hfits : e.Fits .sum)
    (havoids : ∀ kind ∈ [.group, .call, .percent, .constant], e.Avoids kind) :
    Settles ops (reduceTo ops (depth + 1)) e := by
  have hsound : (Phase.all.foldl (Phase.apply ops (reduceTo ops depth)) { tree := e }).Sound ops e
      Derivation.dealtWith :=
    Derivation.sound_phases (reduceTo ops depth) hfits havoids (.inl (by simp))
      (fun hnot => absurd (by simp) hnot) (fun hnot => absurd (by simp) hnot)
  exact hsound.conclude_iff

/-- Without constants, percentages and calls only the contents of groups need inner derivations,
and these are flat. -/
theorem settles_callFree (depth : Nat) (hfits : e.Fits .sum)
    (havoids : ∀ kind ∈ [.call, .percent, .constant], e.Avoids kind) :
    Settles ops (reduceTo ops (depth + 2)) e := by
  have hgroups (content : Expr) (hcontent : content.Fits .sum) (hkinds : ∀ kind ∈
      [.group, .call, .percent, .constant, .call, .percent, .constant], content.Avoids kind) :
      Settles ops (reduceTo ops (depth + 1)) content :=
    settles_flat depth hcontent fun kind hkind => hkinds kind (List.mem_append_left _ hkind)
  have hsound : (Phase.all.foldl (Phase.apply ops (reduceTo ops (depth + 1)))
      { tree := e }).Sound ops e Derivation.dealtWith :=
    Derivation.sound_phases (reduceTo ops (depth + 1)) hfits havoids (.inl (by simp))
      (fun hnot => absurd (by simp) hnot) (fun _ => hgroups)
  exact hsound.conclude_iff

/-- The derivation of a tree that keeps to the precedences, before its conclusion: the arguments of
its calls have no calls in them, and the contents of its groups are flat. -/
theorem sound_derivation (depth : Nat) (hfits : e.Fits .sum) :
    (Phase.all.foldl (Phase.apply ops (reduceTo ops (depth + 2))) { tree := e }).Sound ops e
      Derivation.dealtWith :=
  Derivation.sound_phases (reduceTo ops (depth + 2)) hfits (List.forall_mem_nil _) (.inr (by simp))
    (fun _ _ => settles_callFree depth) (fun _ _ => settles_flat (depth + 1))

/-- Derivations within derivations are right on every tree that keeps to the precedences, three
levels deep and deeper. -/
theorem settles_of_fits (depth : Nat) (hfits : e.Fits .sum) :
    Settles ops (reduceTo ops (depth + 3)) e :=
  (sound_derivation depth hfits).conclude_iff

end Expr

/-! ## Expressions that can be read -/

/-- What is read is what a phrase denotes. -/
theorem Phrase.exists_of_ofChars {s : List Char} {e : Expr} (h : Expr.ofChars s = .ok e) :
    ∃ phrase : Phrase .expression, phrase.tree = e := by
  rw [Expr.ofChars] at h
  obtain ⟨tokens, -, htokens⟩ := bind_eq_ok.mp h
  obtain ⟨phrase, -, htree⟩ := Phrase.exists_of_ofTokens htokens
  exact ⟨phrase, htree⟩

/-- A percentage is worth a hundredth of its number. -/
theorem Expr.valueAux_percent {v : Double} (hdefined : v.isNaN = false)
    (hdiv : ops.operator .div v 100 = .ok (v / 100)) :
    (percent v).valueAux ops = .ok (v / 100) := by
  have hhundredth := Double.isNaN_div_hundred hdefined
  rw [valueAux, hdiv]
  simp [bind, Except.bind, defined, hhundredth]

/-- **The derivation of an expression that can be read reaches its value, and fails exactly where
there is none.**  Unless something fails, the phases leave a number and nothing else; and where the
division by a hundred is that of doubles, a percentage is worth a hundredth. -/
theorem reduce_iff_value (ops : Operations) {text : String} {e : Expr}
    (hread : Expr.read text = .ok e) :
    (∀ v, (∃ r, e.reduce ops = .ok r ∧ r.value = v) ↔ e.value ops = .ok v) ∧
      ((∃ f, e.reduce ops = .error f) ↔ ∃ f, e.value ops = .error f) ∧
      ((Phase.all.foldl (Phase.apply ops (Expr.reduceTo ops 2)) { tree := e }).failure = none →
        ∃ v, (Phase.all.foldl (Phase.apply ops (Expr.reduceTo ops 2)) { tree := e }).tree =
          .literal v) ∧
      ∀ v, .percent v ∈ e.nodes → ops.operator .div v 100 = .ok (v / 100) →
        (Expr.percent v).valueAux ops = .ok (v / 100) := by
  obtain ⟨phrase, rfl⟩ := Phrase.exists_of_ofChars hread
  have hvalue (v : Double) :
      (∃ r, phrase.tree.reduce ops = .ok r ∧ r.value = v) ↔ phrase.tree.value ops = .ok v :=
    Expr.settles_of_fits 0 phrase.fits_tree v
  refine ⟨hvalue, ?_, ?_, ?_⟩
  · constructor
    · rintro ⟨f, hf⟩
      cases hv : phrase.tree.value ops with
      | error g => exact ⟨g, rfl⟩
      | ok v =>
        obtain ⟨r, hr, -⟩ := (hvalue v).mpr hv
        rw [hf] at hr
        cases hr
    · rintro ⟨f, hf⟩
      cases hr : phrase.tree.reduce ops with
      | error g => exact ⟨g, rfl⟩
      | ok r =>
        have hv := (hvalue r.value).mp ⟨r, hr, rfl⟩
        rw [hf] at hv
        cases hv
  · exact (Expr.sound_derivation 0 phrase.fits_tree).exists_literal
  · exact fun v hv => Expr.valueAux_percent (phrase.percentsDefined_tree v hv)

/-- The minus of `-2^2` applies after the power. -/
theorem reduce_negated_power :
    Expr.read "-2^2" = .ok (.negation (.binary .pow (.literal 2) (.literal 2))) ∧
      ∃ r, (Expr.negation (.binary .pow (.literal 2) (.literal 2))).reduce
        (standardOperations 170) = .ok r ∧ r.value = Double.ofInt (-4) := by
  have hread : Expr.read "-2^2" = .ok (.negation (.binary .pow (.literal 2) (.literal 2))) := rfl
  have hvalue : (Expr.negation (.binary .pow (.literal 2) (.literal 2))).value
      (standardOperations 170) = .ok (Double.ofInt (-4)) :=
    eq_ok_of_toOption (by decide +kernel)
  exact ⟨hread, ((reduce_iff_value (standardOperations 170) hread).1 _).mpr hvalue⟩

end Stepwise
