/-
# Counting the steps of a derivation

The number of steps of an arithmetic answer can be read off the expression.  Every phase keeps the
books balanced: what has been recorded and what the tree still needs make up what the expression
needed at the start.  In the end the tree is a number, which needs nothing.

* `Derivation.Counted` : a derivation whose books balance;
* `Reduced.Accounts` : what the reductions of a finished derivation account for;
* `Arithmetic.steps_counted` : the steps of an arithmetic answer.
-/
import Stepwise.Proofs.Decimal.ReadBack
import Stepwise.Proofs.Derivation.Due
import Stepwise.Proofs.Derivation.Steps

namespace Stepwise

/-! ## Traces -/

/-- The number of reductions of a kind in a trace. -/
def countKind (k : Reduction.Kind) (trace : List Entry) : Nat :=
  trace.countP fun entry => decide (entry.reduction.kind = k)

theorem countKind_append (k : Reduction.Kind) (front rest : List Entry) :
    countKind k (front ++ rest) = countKind k front + countKind k rest := List.countP_append

theorem countKind_singleton (k : Reduction.Kind) (entry : Entry) :
    countKind k [entry] = if entry.reduction.kind = k then 1 else 0 := by
  simp [countKind, List.countP_cons]

/-- Every reduction is of one of the kinds. -/
theorem length_eq_counts (trace : List Entry) :
    trace.length = countKind .constants trace + countKind .percentages trace
      + countKind .argument trace + countKind .call trace + countKind .group trace
      + countKind .fold trace := by
  induction trace with
  | nil => rfl
  | cons entry trace ih =>
    have hcons (k : Reduction.Kind) : countKind k (entry :: trace) =
        countKind k [entry] + countKind k trace := countKind_append k [entry] trace
    simp only [hcons, countKind_singleton, List.length_cons, ih]
    cases entry.reduction.kind <;> simp <;> omega

namespace Reduction

/-- A fold has one of the titles of the usual phases. -/
def Titled : Reduction → Prop
  | fold title .. => title ∈ ["Exponents", "Multiplication/Division", "Addition/Subtraction"]
  | _ => True

variable {r : Reduction}

/-- No reduction is named like the step that shows the bare result. -/
theorem Titled.rule_ne (h : r.Titled) : r.rule ≠ "Final Answer" := by
  cases r with
  | constants | percentages | argument f a | group inner v => simp [rule]
  | call f x v => cases f <;> simp [rule, FunctionName.rule]
  | fold title op x y v =>
    simp only [Titled, List.mem_cons, List.not_mem_nil, or_false] at h
    rcases h with rfl | rfl | rfl <;> simp [rule]

/-- Only the reductions of arguments are named so. -/
theorem Titled.rule_eq_iff (h : r.Titled) : r.rule = "Function Argument" ↔ r.kind = .argument := by
  cases r with
  | constants | percentages | argument f a | group inner v => simp [rule, kind]
  | call f x v => cases f <;> simp [rule, kind, FunctionName.rule]
  | fold title op x y v =>
    simp only [Titled, List.mem_cons, List.not_mem_nil, or_false] at h
    rcases h with rfl | rfl | rfl <;> simp [rule, kind]

end Reduction

/-! ## The balance -/

/-- What the reductions of a finished derivation account for: everything that the expression
needed, down to the number. -/
structure Reduced.Accounts (e : Expr) (r : Reduced) : Prop where
  count : ∀ k, countKind k r.trace = e.due k
  last : ((r.trace.map Entry.tree).getLast?).getD e = .literal r.value
  titled : ∀ entry ∈ r.trace, entry.reduction.Titled

theorem Reduced.Accounts.length_trace {e : Expr} {r : Reduced} (h : r.Accounts e) :
    r.trace.length = e.dueTotal := by
  simp only [length_eq_counts, h.count, Expr.dueTotal]

namespace Derivation

/-- A derivation from `e` whose books balance, with some kinds of nodes gone from its tree. -/
structure Counted (e : Expr) (gone : List Expr.Kind) (d : Derivation) : Prop where
  avoids : d.failure = none → ∀ kind ∈ gone, d.tree.Avoids kind
  balance : d.failure = none → ∀ k, countKind k d.trace + d.tree.due k = e.due k
  last : ((d.trace.map Entry.tree).getLast?).getD e = d.tree
  titled : ∀ entry ∈ d.trace, entry.reduction.Titled

namespace Counted

variable {ops : Operations} {e n : Expr} {gone gone' : List Expr.Kind} {d d' : Derivation} {i : Nat}
  {inner : Expr → Except Failure Reduced}

/-- A derivation at its start. -/
theorem start (e : Expr) : Counted e [] { tree := e } where
  avoids := fun _ => List.forall_mem_nil _
  balance := fun _ k => Nat.zero_add (e.due k)
  last := rfl
  titled := fun _ hentry => nomatch hentry

theorem exchange (h : d.Counted e gone)
    (hgone : d.failure = none → ∀ kind ∈ gone', d.tree.Avoids kind) : d.Counted e gone' where
  avoids := hgone
  balance := h.balance
  last := h.last
  titled := h.titled

/-- New entries keep the balance if they account for what the tree no longer needs; after a failure
nothing has to balance. -/
theorem advance (h : d.Counted e gone) (hnone : d.failure = none) (entries : List Entry)
    (htrace : d'.trace = d.trace ++ entries)
    (hlast : ((entries.map Entry.tree).getLast?).getD d.tree = d'.tree)
    (htitled : ∀ entry ∈ entries, entry.reduction.Titled)
    (havoids : d'.failure = none → ∀ kind ∈ gone', d'.tree.Avoids kind)
    (hbalance : d'.failure = none → ∀ k, countKind k entries + d'.tree.due k = d.tree.due k) :
    d'.Counted e gone' where
  avoids := havoids
  balance := by
    intro hnone' k
    rw [htrace, countKind_append, Nat.add_assoc, hbalance hnone' k, h.balance hnone k]
  last := by
    rw [htrace, List.map_append, List.getLast?_append, ← hlast, ← h.last]
    cases (entries.map Entry.tree).getLast? <;> rfl
  titled := by
    intro entry hentry
    rw [htrace] at hentry
    exact (List.mem_append.mp hentry).elim (h.titled entry) (htitled entry)

theorem stop (h : d.Counted e gone) (hnone : d.failure = none) (failure : Failure)
    (gone' : List Expr.Kind) : (d.stop failure).Counted e gone' :=
  h.advance hnone [] (List.append_nil _).symm rfl (List.forall_mem_nil _)
    (fun hfailure => nomatch hfailure) (fun hfailure => nomatch hfailure)

/-- One entry keeps the balance if it accounts for what the tree no longer needs. -/
theorem record (h : d.Counted e gone) (hnone : d.failure = none) {tree : Expr}
    {reduction : Reduction} (havoids : ∀ kind ∈ gone', tree.Avoids kind)
    (hbalance : ∀ k, (if reduction.kind = k then 1 else 0) + tree.due k = d.tree.due k)
    (htitled : reduction.Titled) : (d.record tree reduction).Counted e gone' := by
  refine h.advance hnone [⟨reduction, tree⟩] rfl rfl
    (List.forall_mem_singleton.mpr htitled) (fun _ => havoids) (fun _ k => ?_)
  rw [countKind_singleton]
  exact hbalance k

/-! ## Leaves -/

/-- Constants are substituted once, if there are any. -/
theorem evaluateConstants (h : d.Counted e []) (hnone : d.failure = none) :
    d.evaluateConstants.Counted e [.constant] := by
  rw [Derivation.evaluateConstants]
  split
  · next hsome =>
    have hdue : d.tree.due .constants = 1 := by
      refine if_pos (Eq.trans ?_ hsome)
      congr
      funext n
      cases n <;> rfl
    refine h.record hnone (List.forall_mem_singleton.mpr ?_) (fun k => ?_) trivial
    · exact Expr.Avoids.mapLeaves (.inr (.inl rfl)) (fun c _ => .literal _)
        (fun v _ => by simp [Expr.Avoids, Expr.nodes, Expr.kind?])
    · rw [Expr.due_substitute]
      by_cases hk : k = .constants
      · rw [hk, hdue]
        rfl
      · have hkind : Reduction.constants.kind ≠ k := Ne.symm hk
        rw [if_neg hk, if_neg hkind, Nat.zero_add]
  · next hnot =>
    refine h.exchange fun _ => List.forall_mem_singleton.mpr ?_
    exact Expr.avoids_of_any_eq_false (Bool.not_eq_true _ ▸ hnot)
      fun n hn => by cases n <;> first | rfl | cases hn

/-- Percentages are converted once, if there are any. -/
theorem expandPercentages (h : d.Counted e [.constant]) (hnone : d.failure = none) :
    d.expandPercentages.Counted e [.percent, .constant] := by
  have hconstant : d.tree.Avoids .constant := h.avoids hnone _ (by simp)
  rw [Derivation.expandPercentages]
  split
  · next hsome =>
    have hdue : d.tree.due .percentages = 1 := by
      refine if_pos (Eq.trans ?_ hsome)
      congr
      funext n
      cases n <;> rfl
    refine h.record hnone
      (List.forall_mem_cons.mpr ⟨?_, List.forall_mem_singleton.mpr ?_⟩) (fun k => ?_) trivial
    · exact Expr.Avoids.mapLeaves (.inr (.inr rfl))
        (fun c _ => by simp [Expr.Avoids, Expr.nodes, Expr.kind?])
        (fun v _ => by simp [Expr.Avoids, Expr.nodes, Expr.kind?])
    · exact Expr.Avoids.mapLeaves (.inl hconstant) (fun c hc => absurd rfl (hconstant _ hc))
        (fun v _ => by simp [Expr.Avoids, Expr.nodes, Expr.kind?])
    · rw [Expr.due_convert 100 hconstant]
      by_cases hk : k = .percentages
      · rw [hk, hdue]
        rfl
      · have hkind : Reduction.percentages.kind ≠ k := Ne.symm hk
        rw [if_neg hk, if_neg hkind, Nat.zero_add]
  · next hnot =>
    refine h.exchange fun _ => List.forall_mem_cons.mpr ⟨?_, h.avoids hnone⟩
    exact Expr.avoids_of_any_eq_false (Bool.not_eq_true _ ▸ hnot)
      fun n hn => by cases n <;> first | rfl | cases hn

/-! ## Calls, groups and operators -/

/-- The entry that shows an argument that needs work. -/
def argumentEntries (f : FunctionName) (argument tree : Expr) : List Entry :=
  if argument.needsWork then [⟨.argument f argument, tree⟩] else []

/-- A derivation in which an argument has been shown, if it needs work. -/
def showArgument (d : Derivation) (f : FunctionName) (argument : Expr) : Derivation :=
  if argument.needsWork then d.record d.tree (.argument f argument) else d

/-- An argument is shown exactly when its own derivation has entries. -/
theorem showArgument_eq {argument : Expr} {r : Reduced} (h : r.Accounts argument)
    (hconstant : argument.Avoids .constant) (hpercent : argument.Avoids .percent)
    (hcall : argument.Avoids .call) (d : Derivation) (f : FunctionName) :
    (if r.trace.isEmpty then d else d.record d.tree (.argument f argument)) =
      showArgument d f argument := by
  have hneeds := Expr.needsWork_iff hconstant hpercent hcall
  rw [← h.length_trace, List.length_pos_iff_ne_nil] at hneeds
  unfold showArgument
  by_cases htrace : r.trace = []
  · have hwork : ¬ argument.needsWork = true := fun hwork => hneeds.mp hwork htrace
    rw [if_pos (by rw [htrace]; rfl), if_neg hwork]
  · rw [if_neg (by simpa using htrace), if_pos (hneeds.mpr htrace)]

theorem trace_showArgument (d : Derivation) (f : FunctionName) (argument : Expr) :
    (showArgument d f argument).trace = d.trace ++ argumentEntries f argument d.tree := by
  unfold showArgument argumentEntries
  split
  · rfl
  · exact (List.append_nil _).symm

@[simp] theorem tree_showArgument (d : Derivation) (f : FunctionName) (argument : Expr) :
    (showArgument d f argument).tree = d.tree := by
  unfold showArgument
  split <;> rfl

@[simp] theorem failure_showArgument (d : Derivation) (f : FunctionName) (argument : Expr) :
    (showArgument d f argument).failure = d.failure := by
  unfold showArgument
  split <;> rfl

theorem titled_argumentEntries (f : FunctionName) (argument tree : Expr) :
    ∀ entry ∈ argumentEntries f argument tree, entry.reduction.Titled := by
  unfold argumentEntries
  split
  · exact List.forall_mem_singleton.mpr trivial
  · exact List.forall_mem_nil _

theorem countKind_argumentEntries (f : FunctionName) (argument tree : Expr) (k : Reduction.Kind) :
    countKind k (argumentEntries f argument tree) =
      if k = .argument ∧ argument.needsWork = true then 1 else 0 := by
  unfold argumentEntries
  cases argument.needsWork <;> cases k <;> rfl

/-- A failure after an argument has been shown. -/
theorem stop_showArgument (h : d.Counted e gone) (hnone : d.failure = none) (f : FunctionName)
    (argument : Expr) (failure : Failure) (gone' : List Expr.Kind) :
    ((showArgument d f argument).stop failure).Counted e gone' := by
  refine h.advance hnone _ (trace_showArgument d f argument) ?_
    (titled_argumentEntries f argument d.tree) (fun hfailure => nomatch hfailure)
    (fun hfailure => nomatch hfailure)
  rw [Derivation.stop, tree_showArgument, argumentEntries]
  split <;> rfl

/-- A call without calls in its argument is replaced by its result. -/
theorem record_call (h : d.Counted e [.percent, .constant]) (hnone : d.failure = none)
    {f : FunctionName} {argument : Expr} (hat : Expr.NodeAt d.tree i (.call f argument))
    (hcall : argument.Avoids .call) (x v : Double) :
    ((showArgument d f argument).record (d.tree.setNode i (.literal v)) (.call f x v)).Counted e
      [.percent, .constant] := by
  have hconstant : d.tree.Avoids .constant := h.avoids hnone _ (by simp)
  have hpercent : d.tree.Avoids .percent := h.avoids hnone _ (by simp)
  have hdue := Expr.due_innermost_call (Expr.Avoids.call_iff.mp (hconstant.of_nodeAt hat)).2
    (Expr.Avoids.call_iff.mp (hpercent.of_nodeAt hat)).2 hcall f
  refine h.advance hnone (argumentEntries f argument d.tree ++
    [⟨.call f x v, d.tree.setNode i (.literal v)⟩]) ?_ ?_ ?_ ?_ ?_
  · rw [Derivation.record, trace_showArgument, List.append_assoc]
  · simp [Derivation.record]
  · exact List.forall_mem_append.mpr
      ⟨titled_argumentEntries f argument d.tree, List.forall_mem_singleton.mpr trivial⟩
  · exact fun _ kind hkind => (h.avoids hnone kind hkind).setNode hat v
  · intro _ k
    have hvisible (k : Reduction.Kind) : (Expr.call f argument).due k = 0 ∨
        ∀ kind ∈ k.hiding, d.tree.Avoids kind := by
      -- What a call hides from the count is not counted for the call itself.
      cases k with
      | constants | percentages | argument | call => exact .inr (List.forall_mem_nil _)
      | group | fold => exact .inl (hdue _)
    have hcount : countKind k [⟨.call f x v, d.tree.setNode i (.literal v)⟩] =
        if k = .call then 1 else 0 := by
      cases k <;> rfl
    rw [← Expr.due_setNode_of_avoids hat v hconstant hpercent (.inl rfl) hvisible k, hdue,
      countKind_append, countKind_argumentEntries, hcount]
    exact Nat.add_comm _ _

/-- The calls are replaced one by one, and the arguments that need work are shown before. -/
theorem reduceCalls (h : d.Counted e [.percent, .constant]) (hnone : d.failure = none)
    (ops : Operations)
    (hinner : ∀ (argument : Expr) (r : Reduced), inner argument = .ok r → r.Accounts argument)
    {fuel : Nat} (hfuel : d.tree.size ≤ fuel) :
    (d.reduceCalls ops inner fuel).Counted e [.call, .percent, .constant] := by
  induction fuel generalizing d with
  | zero => exact absurd (Expr.size_pos d.tree) (Nat.not_lt.mpr hfuel)
  | succ fuel ih =>
    cases hlast : d.tree.lastNode? Expr.isCall with
    | none =>
      simp only [Derivation.reduceCalls, hlast]
      exact h.exchange fun hnone => List.forall_mem_cons.mpr
        ⟨Expr.avoids_call (Expr.lastNode?_eq_none hlast), h.avoids hnone⟩
    | some found =>
      obtain ⟨i, n⟩ := found
      obtain ⟨hat, hcall, hinside⟩ := Expr.lastNode?_eq_some hlast
      obtain ⟨f, argument, rfl⟩ : ∃ f argument, n = .call f argument := by
        cases n <;> first | exact ⟨_, _, rfl⟩ | cases hcall
      -- The last call has no call in its argument.
      have hcall' : argument.Avoids .call := Expr.avoids_call hinside
      simp only [Derivation.reduceCalls, hlast]
      cases hreduced : inner argument with
      | error failure => exact h.stop hnone failure _
      | ok reduced =>
        have havoids (kind : Expr.Kind) (hkind : kind ∈ [.percent, .constant]) :
            argument.Avoids kind :=
          (Expr.Avoids.call_iff.mp ((h.avoids hnone kind hkind).of_nodeAt hat)).2
        simp only [showArgument_eq (hinner argument reduced hreduced) (havoids _ (by simp))
          (havoids _ (by simp)) hcall']
        cases hresult : ops.function f reduced.value with
        | error failure => exact h.stop_showArgument hnone f argument failure _
        | ok result =>
          have hnone' : (showArgument d f argument).failure = none := by
            rw [failure_showArgument, hnone]
          rw [tree_showArgument]
          refine ih (h.record_call hnone hat hcall' reduced.value result) hnone' ?_
          have hsize := hat.size_setNode (.literal result)
          have hpos := argument.size_pos
          simp only [Expr.size, Derivation.record] at hsize ⊢
          omega

/-- A node that needs nothing but one reduction is replaced by its value. -/
theorem record_node (h : d.Counted e gone) (hnone : d.failure = none)
    (hgone : ∀ kind ∈ [.call, .percent, .constant], kind ∈ gone) (hat : Expr.NodeAt d.tree i n)
    (reduction : Reduction) (hdue : ∀ k, n.due k = if k = reduction.kind then 1 else 0)
    (hvisible : ∀ kind ∈ reduction.kind.hiding, d.tree.Avoids kind) (htitled : reduction.Titled)
    (v : Double) : (d.record (d.tree.setNode i (.literal v)) reduction).Counted e gone := by
  refine h.record hnone (fun kind hkind => (h.avoids hnone kind hkind).setNode hat v) (fun k => ?_)
    htitled
  have hvisible' (k : Reduction.Kind) :
      n.due k = 0 ∨ ∀ kind ∈ k.hiding, d.tree.Avoids kind := by
    by_cases hk : k = reduction.kind
    · exact .inr (hk ▸ hvisible)
    · exact .inl ((hdue k).trans (if_neg hk))
  rw [← Expr.due_setNode_of_avoids hat v (h.avoids hnone _ (hgone _ (by simp)))
    (h.avoids hnone _ (hgone _ (by simp)))
    (.inr (h.avoids hnone _ (hgone _ (by simp)))) hvisible' k, hdue]
  simp only [eq_comm (a := k)]
  exact Nat.add_comm _ _

/-- The groups are replaced one by one; what happens in their contents is not shown. -/
theorem reduceGroups (h : d.Counted e [.call, .percent, .constant]) (hnone : d.failure = none)
    (inner : Expr → Except Failure Reduced) {fuel : Nat} (hfuel : d.tree.size ≤ fuel) :
    (d.reduceGroups inner fuel).Counted e [.group, .call, .percent, .constant] := by
  induction fuel generalizing d with
  | zero => exact absurd (Expr.size_pos d.tree) (Nat.not_lt.mpr hfuel)
  | succ fuel ih =>
    cases hlast : d.tree.lastNode? isInnermostGroup with
    | none =>
      simp only [Derivation.reduceGroups, hlast]
      exact h.exchange fun hnone => List.forall_mem_cons.mpr
        ⟨Expr.avoids_group_of_no_innermost (Expr.lastNode?_eq_none hlast), h.avoids hnone⟩
    | some found =>
      obtain ⟨i, n⟩ := found
      obtain ⟨hat, hinnermost, -⟩ := Expr.lastNode?_eq_some hlast
      obtain ⟨content, rfl⟩ : ∃ content, n = .group content := by
        cases n <;> first | exact ⟨_, rfl⟩ | cases hinnermost
      have havoids (kind : Expr.Kind) (hkind : kind ∈ [.call, .percent, .constant]) :
          content.Avoids kind :=
        (Expr.Avoids.group_iff.mp ((h.avoids hnone kind hkind).of_nodeAt hat)).2
      have hgroup : content.Avoids .group := by
        simp only [isInnermostGroup, Bool.not_eq_true'] at hinnermost
        exact Expr.avoids_of_any_eq_false hinnermost fun m => Expr.isGroup_of_kind?
      simp only [Derivation.reduceGroups, hlast]
      cases hreduced : inner content with
      | error failure => exact h.stop hnone failure _
      | ok reduced =>
        refine ih (h.record_node hnone (fun _ => id) hat (.group content reduced.value) ?_ ?_
          trivial _) hnone ?_
        · exact Expr.due_innermost_group (havoids _ (by simp)) (havoids _ (by simp))
            (havoids _ (by simp)) hgroup
        · exact List.forall_mem_singleton.mpr (h.avoids hnone _ (by simp))
        · have hsize := hat.size_setNode (.literal reduced.value)
          have hpos := content.size_pos
          simp only [Expr.size, Derivation.record] at hsize ⊢
          omega

/-- The operators of a tier are replaced one by one. -/
theorem reduceOperators (h : d.Counted e [.group, .call, .percent, .constant])
    (hnone : d.failure = none) (operators : List Operator) {title : String}
    (htitle : title ∈ ["Exponents", "Multiplication/Division", "Addition/Subtraction"])
    (fuel : Nat) : (d.reduceOperators ops operators title fuel).Counted e
      [.group, .call, .percent, .constant] := by
  induction fuel generalizing d with
  | zero => exact h
  | succ fuel ih =>
    cases hfirst : d.tree.firstNode? (isReducible operators) with
    | none =>
      simp only [Derivation.reduceOperators, hfirst]
      exact h
    | some found =>
      obtain ⟨i, n⟩ := found
      obtain ⟨hat, hreducible⟩ := Expr.firstNode?_eq_some hfirst
      obtain ⟨op, left, right, rfl⟩ :
          ∃ op left right, n = .binary op (.literal left) (.literal right) := by
        unfold isReducible at hreducible
        split at hreducible
        · exact ⟨_, _, _, rfl⟩
        · cases hreducible
      simp only [Derivation.reduceOperators, hfirst]
      cases hresult : ops.operator op left right with
      | error failure => exact h.stop hnone failure _
      | ok result =>
        refine ih (h.record_node hnone (fun _ => List.mem_cons_of_mem _) hat
          (.fold title op left right result) (Expr.due_redex op left right) ?_ htitle _) hnone
        exact List.forall_mem_cons.mpr ⟨h.avoids hnone _ (by simp),
          List.forall_mem_singleton.mpr (h.avoids hnone _ (by simp))⟩

/-! ## Phases -/

/-- A failed derivation is left as it is. -/
theorem unlessFailed (h : d.Counted e gone)
    (hphase : d.failure = none → d'.Counted e gone') :
    (if d.failure.isSome then d else d').Counted e gone' := by
  split
  · next hsome =>
    refine h.exchange fun hnone => ?_
    rw [hnone] at hsome
    cases hsome
  · next hsome => exact hphase (Option.not_isSome_iff_eq_none.mp hsome)

theorem apply_fold (h : d.Counted e [.group, .call, .percent, .constant]) (ops : Operations)
    (inner : Expr → Except Failure Reduced) (operators : List Operator) (title : String)
    (htitle : title ∈ ["Exponents", "Multiplication/Division", "Addition/Subtraction"]) :
    (Phase.apply ops inner d (.fold operators title)).Counted e
      [.group, .call, .percent, .constant] :=
  h.unlessFailed fun hnone => h.reduceOperators hnone operators htitle _

end Counted

/-- The books balance after all phases, provided that the reductions of arguments are accounted
for. -/
theorem counted_phases (ops : Operations) {inner : Expr → Except Failure Reduced}
    (hinner : ∀ (argument : Expr) (r : Reduced), inner argument = .ok r → r.Accounts argument)
    (e : Expr) : (Phase.all.foldl (Phase.apply ops inner) { tree := e }).Counted e
      [.group, .call, .percent, .constant] := by
  have hconstant : (Phase.apply ops inner { tree := e } .constants).Counted e [.constant] :=
    (Counted.start e).unlessFailed (Counted.start e).evaluateConstants
  have hpercent := hconstant.unlessFailed hconstant.expandPercentages
  have hcall := hpercent.unlessFailed fun hnone =>
    hpercent.reduceCalls hnone ops hinner (Nat.le_refl _)
  have hgroup := hcall.unlessFailed fun hnone =>
    hcall.reduceGroups hnone inner (Nat.le_refl _)
  have hpower := hgroup.apply_fold ops inner [.pow] "Exponents" (by simp)
  have hproduct := hpower.apply_fold ops inner [.mul, .div] "Multiplication/Division" (by simp)
  exact hproduct.apply_fold ops inner [.add, .sub] "Addition/Subtraction" (by simp)

end Derivation

/-- **The reductions of a derivation account for everything that the expression needed.** -/
theorem Expr.accounts_of_reduceTo {ops : Operations} {depth : Nat} {e : Expr} {r : Reduced}
    (h : e.reduceTo ops depth = .ok r) : r.Accounts e := by
  induction depth generalizing e r with
  | zero => cases h
  | succ depth ih =>
    have hcounted := Derivation.counted_phases ops (fun argument r => ih) e
    obtain ⟨hnone, htree, -, htrace⟩ := Derivation.of_conclude h
    refine ⟨fun k => ?_, ?_, ?_⟩
    · have hbalance := hcounted.balance hnone k
      rwa [htree, due_literal, Nat.add_zero, ← htrace] at hbalance
    · rw [htrace, hcounted.last, htree]
    · rw [htrace]
      exact hcounted.titled

/-! ## Steps -/

/-- The text shown for a number has no white space around it. -/
theorem Double.trim_display (x : Double) : Text.trim x.display = x.display := by
  cases x with
  | nan => decide
  | infinity negative => cases negative <;> decide
  | finite negative m e h =>
    exact Text.trim_eq_self fun c hc => isBlank_of_figure (Double.figure_of_mem_display rfl hc)

theorem Expr.notLiteral_of_forall_ne {e : Expr} (h : ¬ ∃ v, e = .literal v) : e.NotLiteral := by
  cases e with
  | literal v => exact absurd ⟨v, rfl⟩ h
  | constant name | percent value | negation operand | binary op left right | call f argument
  | group inner => exact True.intro

namespace Reduced

variable {e : Expr} {r : Reduced} {text : String}

/-- A number that is not its own answer has a step for the problem and one for the result. -/
theorem Accounts.steps_literal {v : Double} (h : r.Accounts (.literal v))
    (hne : Text.trim text.toList ≠ r.value.display) :
    r.steps text = [initialStep text, resultStep r.value.text] := by
  have htrace : r.trace = [] := List.length_eq_zero_iff.mp h.length_trace
  have htext : text ≠ r.value.text := by
    rintro rfl
    rw [Double.text, String.toList_ofList, Double.trim_display] at hne
    exact hne rfl
  rw [steps, if_neg hne, htrace]
  exact if_neg htext

/-- Otherwise there is a last entry, which shows the result. -/
theorem Accounts.exists_last (h : r.Accounts e) (he : e.NotLiteral) :
    ∃ front entry, r.trace = front ++ [entry] ∧ entry.tree = .literal r.value := by
  rcases List.eq_nil_or_concat' r.trace with htrace | ⟨front, entry, htrace⟩
  · have hlast := h.last
    rw [htrace] at hlast
    obtain rfl : e = .literal r.value := hlast
    exact absurd he id
  · refine ⟨front, entry, htrace, ?_⟩
    have hlast := h.last
    rw [htrace] at hlast
    simpa using hlast

/-- The steps of an expression that is not a number: the problem and the reductions. -/
theorem Accounts.steps_eq (h : r.Accounts e) (he : e.NotLiteral)
    (hne : Text.trim text.toList ≠ r.value.display) :
    r.steps text = initialStep text :: r.trace.map Entry.step ∧
      (r.steps text).getLast?.map Step.expression = some r.value.text := by
  obtain ⟨front, entry, htrace, htree⟩ := h.exists_last he
  have hlist : (initialStep text :: r.trace.map Entry.step) =
      (initialStep text :: front.map Entry.step) ++ [entry.step] := by
    rw [htrace, List.map_append]
    rfl
  have hlast : (initialStep text :: r.trace.map Entry.step).getLast? = some entry.step := by
    rw [hlist, List.getLast?_append]
    rfl
  have hexpression : entry.step.expression = r.value.text := by
    rw [Entry.step, htree]
    rfl
  have hsteps : r.steps text = initialStep text :: r.trace.map Entry.step := by
    rw [steps, if_neg hne, withResult, hlast]
    exact if_pos hexpression
  refine ⟨hsteps, ?_⟩
  rw [hsteps, hlast, Option.map_some, hexpression]

end Reduced

namespace Arithmetic

variable {settings : Settings}

/-- **The steps of an arithmetic answer are accounted for by the expression.**  A problem that is
its own answer has none.  A number that is written differently has a step for the problem and one
for the result.  For any other expression the first step shows the problem and the last one the
result, which is not added as a step of its own; in between there is one step for each reduction
that the expression needs. -/
theorem steps_counted {text : String} {e : Expr} {answer : Answer}
    (hread : Expr.read text = .ok e) (hsolve : (solve settings text).outcome = .ok answer) :
    (Text.trim text.toList = answer.final.toList → answer.steps = []) ∧
      (Text.trim text.toList ≠ answer.final.toList →
        ((∃ v, e = .literal v) →
          answer.steps = [initialStep text, resultStep answer.final]) ∧
        ((¬ ∃ v, e = .literal v) →
          answer.steps.head? = some (initialStep text) ∧
          (∀ step ∈ answer.steps, step.rule ≠ "Final Answer") ∧
          answer.steps.getLast?.map Step.expression = some answer.final ∧
          answer.steps.length = 1 + e.due .constants + e.due .percentages + e.due .call
            + e.due .argument + e.due .group + e.due .fold ∧
          (answer.steps.countP fun step => step.rule = "Function Argument") =
            e.due .argument)) := by
  obtain ⟨r, hreduce, hfinal, hsteps⟩ := of_solve hsolve
  obtain ⟨e', hread', -, hreduced⟩ := of_reduce hreduce
  obtain rfl : e = e' := Except.ok.inj (hread.symm.trans hread')
  have haccounts : r.Accounts e := Expr.accounts_of_reduceTo hreduced
  have hdisplay : answer.final.toList = r.value.display := by
    rw [hfinal, Double.text, String.toList_ofList]
  rw [hdisplay, hsteps, hfinal]
  refine ⟨fun h => if_pos h, fun hne => ⟨?_, fun hliteral => ?_⟩⟩
  · rintro ⟨v, rfl⟩
    exact haccounts.steps_literal hne
  · obtain ⟨hlist, hlast⟩ := haccounts.steps_eq (Expr.notLiteral_of_forall_ne hliteral) hne
    refine ⟨?_, ?_, hlast, ?_, ?_⟩
    · rw [hlist]
      rfl
    · rw [hlist]
      intro step hstep
      rcases List.mem_cons.mp hstep with rfl | hstep
      · exact show "Initial Expression" ≠ "Final Answer" by decide
      · obtain ⟨entry, hentry, rfl⟩ := List.mem_map.mp hstep
        exact (haccounts.titled entry hentry).rule_ne
    · rw [hlist, List.length_cons, List.length_map, haccounts.length_trace, Expr.dueTotal]
      omega
    · have hinitial : (initialStep text).rule ≠ "Function Argument" :=
        show "Initial Expression" ≠ "Function Argument" by decide
      have hcount : (r.trace.countP fun entry => entry.step.rule = "Function Argument") =
          countKind .argument r.trace := by
        refine List.countP_congr fun entry hentry => ?_
        rw [decide_eq_true_iff, decide_eq_true_iff]
        exact (haccounts.titled entry hentry).rule_eq_iff
      rw [hlist, List.countP_cons_of_neg (by simpa using hinitial), List.countP_map,
        ← haccounts.count, ← hcount]
      rfl

/-- A constant, a percentage in a group, a call whose argument needs work, and four operators
outside of groups and calls. -/
theorem steps_counted_mixed : ∃ e answer, Expr.read "2*(1+50%)-sqrt(-(3-7))*e^0" = .ok e ∧
    (solve {} "2*(1+50%)-sqrt(-(3-7))*e^0").outcome = .ok answer ∧ answer.final = "1" ∧
    answer.steps.length = 1 + 1 + 1 + 1 + 1 + 2 + 4 := by
  obtain ⟨e, he⟩ : ∃ e : Expr, e = .binary .sub
      (.binary .mul (.literal 2) (.group (.binary .add (.literal 1) (.percent 50))))
      (.binary .mul (.call .sqrt (.negation (.group (.binary .sub (.literal 3) (.literal 7)))))
        (.binary .pow (.constant .e) (.literal 0))) := ⟨_, rfl⟩
  have hread : Expr.read "2*(1+50%)-sqrt(-(3-7))*e^0" = .ok e := by
    rw [he]
    exact eq_ok_of_toOption (by decide +kernel)
  have hshown : (solve {} "2*(1+50%)-sqrt(-(3-7))*e^0").outcome.toOption.map Answer.final =
      some "1" := by decide +kernel
  obtain ⟨answer, hanswer, hfinal⟩ := Option.map_eq_some_iff.mp hshown
  have hsolve := eq_ok_of_toOption hanswer
  refine ⟨e, answer, hread, hsolve, hfinal, ?_⟩
  have hne : Text.trim "2*(1+50%)-sqrt(-(3-7))*e^0".toList ≠ answer.final.toList := by
    rw [hfinal]
    decide +kernel
  have hliteral : ¬ ∃ v, e = .literal v := by
    rw [he]
    rintro ⟨v, hv⟩
    cases hv
  obtain ⟨-, -, -, hlength, -⟩ := ((steps_counted hread hsolve).2 hne).2 hliteral
  rw [hlength, he]
  decide +kernel

end Arithmetic

end Stepwise
