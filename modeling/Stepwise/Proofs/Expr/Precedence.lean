/-
# Precedence in trees

Which trees a reading can yield: which operators and signs stand below which.  A tree that keeps to
the precedences is reduced to a number tier by tier, without getting stuck.

* `Expr.Fits` : a tree can stand at a place;
* `Expr.Avoids` : no node of a tree is of a given kind;
* `Phrase.fits_tree` : what a phrase denotes keeps to the precedences;
* `Expr.Fits.literal_of_irreducible` : a tree without anything left to reduce is a number.
-/
import Stepwise.Proofs.Double.Defined
import Stepwise.Proofs.Expr.Grammar
import Stepwise.Proofs.Expr.Nodes

namespace Stepwise

/-! ## Places -/

/-- The places of a tree, from the exponent of a power to the whole of a sum. -/
inductive Place where
  | exponent | power | factor | term | sum
  deriving DecidableEq

namespace Place

/-- The number of a place; looser places have greater ones. -/
def rank : Place → Nat
  | exponent => 0
  | power => 1
  | factor => 2
  | term => 3
  | sum => 4

instance : LE Place := ⟨fun k l => k.rank ≤ l.rank⟩

instance (k l : Place) : Decidable (k ≤ l) := inferInstanceAs (Decidable (k.rank ≤ l.rank))

theorem le_refl (k : Place) : k ≤ k := Nat.le_refl k.rank

theorem le_trans {k l m : Place} (h : k ≤ l) (h' : l ≤ m) : k ≤ m :=
  Nat.le_trans (show k.rank ≤ l.rank from h) h'

/-- The place of the operand of a sign. -/
def signed : Place → Place
  | exponent => exponent
  | _ => factor

theorem signed_le {k : Place} (h : k ≠ power) : k.signed ≤ k := by
  cases k <;> first | decide | exact absurd rfl h

/-- Beyond the place of a power, signs are treated alike. -/
theorem loosen {k l : Place} (hpower : k ≠ power) (hk : power ≤ k) (hkl : k ≤ l) :
    l ≠ power ∧ k.signed = l.signed := by
  cases k <;> cases l <;>
    first | exact ⟨by decide, rfl⟩ | exact absurd rfl hpower | exact absurd hk (by decide) |
      exact absurd hkl (by decide)

end Place

namespace Operator

/-- The place of an operator, which is that of its left operand. -/
def place : Operator → Place
  | pow => .power
  | mul | div => .term
  | add | sub => .sum

/-- The place of an operator's right operand. -/
def rightPlace : Operator → Place
  | pow => .exponent
  | mul | div => .factor
  | add | sub => .term

theorem rightPlace_le (op : Operator) : op.rightPlace ≤ op.place := by
  cases op <;> decide

end Operator

namespace Expr

/-! ## Trees that keep to the precedences -/

/-- The expression is not a number. -/
def NotLiteral : Expr → Prop
  | literal _ => False
  | _ => True

/-- Only numbers take a sign up. -/
theorem negate_of_notLiteral {e : Expr} (h : e.NotLiteral) : e.negate = negation e := by
  cases e <;> first | exact absurd h id | rfl

/-- The tree can stand at a place as it is, without parentheses. -/
def Fits : Place → Expr → Prop
  | _, literal _ => True
  | _, constant _ => True
  | _, percent _ => True
  | k, negation operand => k ≠ .power ∧ operand.NotLiteral ∧ operand.Fits k.signed
  | k, binary op left right => op.place ≤ k ∧ left.Fits op.place ∧ right.Fits op.rightPlace
  | _, call _ argument => argument.Fits .sum
  | _, group inner => inner.Fits .sum

namespace Fits

variable {e n : Expr} {k l : Place} {i : Nat}

/-- A tree that fits the place of a power or a looser one fits every place that is looser still. -/
theorem mono (h : e.Fits k) (hk : .power ≤ k) (hkl : k ≤ l) : e.Fits l := by
  cases e with
  | literal value | constant name | percent value => trivial
  | call f argument | group inner => exact h
  | binary op left right => exact ⟨Place.le_trans h.1 hkl, h.2⟩
  | negation operand =>
    obtain ⟨hpower, hoperand, hfits⟩ := h
    obtain ⟨hl, hsigned⟩ := Place.loosen hpower hk hkl
    exact ⟨hl, hoperand, hsigned ▸ hfits⟩

/-- A negated tree fits where a sign may stand. -/
theorem negate (h : e.Fits k.signed) (hk : k ≠ .power) : e.negate.Fits k := by
  cases e with
  | literal value => trivial
  | constant name | percent value | negation operand | binary op left right | call f argument
  | group inner => exact ⟨hk, trivial, h⟩

/-- A node of a fitting tree fits a place that goes with its shape. -/
theorem of_nodeAt (h : e.Fits k) (hat : NodeAt e i n) : ∃ l, n.Fits l := by
  induction hat generalizing k with
  | self e => exact ⟨k, h⟩
  | negation hat ih => exact ih h.2.2
  | left hat ih => exact ih h.2.1
  | right hat ih => exact ih h.2.2
  | call hat ih | group hat ih => exact ih h

/-- A number in place of a node does not disturb the precedences. -/
theorem setNode (h : e.Fits k) (hat : NodeAt e i n) (v : Double) :
    (e.setNode i (literal v)).Fits k := by
  induction hat generalizing k with
  | self e =>
    rw [setNode_zero]
    trivial
  | negation hat ih => exact negate (ih h.2.2) h.1
  | left hat ih =>
    rw [NodeAt.setNode_left hat]
    exact ⟨h.1, ih h.2.1, h.2.2⟩
  | right hat ih =>
    rw [NodeAt.setNode_right]
    exact ⟨h.1, h.2.1, ih h.2.2⟩
  | call hat ih | group hat ih => exact ih h

/-- Replaced leaves do not disturb the precedences if what replaces them fits everywhere. -/
theorem mapLeaves (h : e.Fits k) {onConstant : ConstantName → Expr} {onPercent : Double → Expr}
    (hconstant : ∀ c l, (onConstant c).Fits l) (hpercent : ∀ v l, (onPercent v).Fits l) :
    (e.mapLeaves onConstant onPercent).Fits k := by
  induction e generalizing k with
  | literal value => trivial
  | constant name => exact hconstant name k
  | percent value => exact hpercent value k
  | negation operand ih => exact negate (ih h.2.2) h.1
  | binary op left right ihLeft ihRight => exact ⟨h.1, ihLeft h.2.1, ihRight h.2.2⟩
  | call f argument ih | group inner ih => exact ih h

end Fits

/-! ## Kinds of nodes -/

/-- What a node that is not a number is. -/
inductive Kind where
  | constant | percent | negation | call | group
  | operator (op : Operator)
  deriving DecidableEq

/-- The kind of the root; a number has none. -/
def kind? : Expr → Option Kind
  | literal _ => none
  | constant _ => some .constant
  | percent _ => some .percent
  | negation _ => some .negation
  | binary op _ _ => some (.operator op)
  | call .. => some .call
  | group _ => some .group

/-- No node of the tree is of the kind. -/
def Avoids (kind : Kind) (e : Expr) : Prop := ∀ n ∈ e.nodes, n.kind? ≠ some kind

namespace Avoids

variable {kind : Kind} {e n : Expr} {i : Nat}

theorem literal (v : Double) : (literal v).Avoids kind := by
  simp [Avoids, nodes, kind?]

theorem negation_iff {operand : Expr} :
    (negation operand).Avoids kind ↔ kind ≠ .negation ∧ operand.Avoids kind := by
  simp [Avoids, nodes, kind?, eq_comm]

theorem binary_iff {op : Operator} {left right : Expr} :
    (binary op left right).Avoids kind ↔
      kind ≠ .operator op ∧ left.Avoids kind ∧ right.Avoids kind := by
  simp [Avoids, nodes, kind?, or_imp, forall_and, eq_comm]

theorem call_iff {f : FunctionName} {argument : Expr} :
    (call f argument).Avoids kind ↔ kind ≠ .call ∧ argument.Avoids kind := by
  simp [Avoids, nodes, kind?, eq_comm]

theorem group_iff {inner : Expr} :
    (group inner).Avoids kind ↔ kind ≠ .group ∧ inner.Avoids kind := by
  simp [Avoids, nodes, kind?, eq_comm]

/-- What a tree avoids, its nodes avoid. -/
theorem of_nodeAt (h : e.Avoids kind) (hat : NodeAt e i n) : n.Avoids kind :=
  fun m hm => h m (hat.mem_nodes hm)

theorem negate (h : e.Avoids kind) (hkind : kind ≠ .negation) : e.negate.Avoids kind := by
  cases e with
  | literal value => exact literal _
  | constant name | percent value | negation operand | binary op left right | call f argument
  | group inner => exact negation_iff.mpr ⟨hkind, h⟩

/-- A number in place of a node brings in nothing that the tree avoided. -/
theorem setNode (h : e.Avoids kind) (hat : NodeAt e i n) (v : Double) :
    (e.setNode i (.literal v)).Avoids kind := by
  induction hat with
  | self e =>
    rw [setNode_zero]
    exact literal v
  | negation hat ih =>
    obtain ⟨hkind, hoperand⟩ := negation_iff.mp h
    exact negate (ih hoperand) hkind
  | left hat ih =>
    obtain ⟨hkind, hleft, hright⟩ := binary_iff.mp h
    rw [NodeAt.setNode_left hat]
    exact binary_iff.mpr ⟨hkind, ih hleft, hright⟩
  | right hat ih =>
    obtain ⟨hkind, hleft, hright⟩ := binary_iff.mp h
    rw [NodeAt.setNode_right]
    exact binary_iff.mpr ⟨hkind, hleft, ih hright⟩
  | call hat ih =>
    obtain ⟨hkind, hargument⟩ := call_iff.mp h
    exact call_iff.mpr ⟨hkind, ih hargument⟩
  | group hat ih =>
    obtain ⟨hkind, hinner⟩ := group_iff.mp h
    exact group_iff.mpr ⟨hkind, ih hinner⟩

/-- Replaced leaves bring in only what stands in their replacements. -/
theorem mapLeaves (h : e.Avoids kind ∨ kind = .constant ∨ kind = .percent)
    {onConstant : ConstantName → Expr} {onPercent : Double → Expr}
    (hconstant : ∀ c, constant c ∈ e.nodes → (onConstant c).Avoids kind)
    (hpercent : ∀ v, percent v ∈ e.nodes → (onPercent v).Avoids kind) :
    (e.mapLeaves onConstant onPercent).Avoids kind := by
  induction e with
  | literal value => exact literal value
  | constant name => exact hconstant name (self_mem_nodes _)
  | percent value => exact hpercent value (self_mem_nodes _)
  | negation operand ih =>
    rw [negation_iff] at h
    refine negate (ih (h.imp_left And.right) ?_ ?_) ?_
    · exact fun c hc => hconstant c (List.mem_cons_of_mem _ hc)
    · exact fun v hv => hpercent v (List.mem_cons_of_mem _ hv)
    · rcases h with h | rfl | rfl <;> simp_all
  | binary op left right ihLeft ihRight =>
    rw [binary_iff] at h
    refine binary_iff.mpr ⟨?_, ihLeft (h.imp_left fun h => h.2.1) ?_ ?_,
      ihRight (h.imp_left fun h => h.2.2) ?_ ?_⟩
    · rcases h with h | rfl | rfl <;> simp_all
    · exact fun c hc => hconstant c (List.mem_cons_of_mem _ (List.mem_append_left _ hc))
    · exact fun v hv => hpercent v (List.mem_cons_of_mem _ (List.mem_append_left _ hv))
    · exact fun c hc => hconstant c (List.mem_cons_of_mem _ (List.mem_append_right _ hc))
    · exact fun v hv => hpercent v (List.mem_cons_of_mem _ (List.mem_append_right _ hv))
  | call f argument ih =>
    rw [call_iff] at h
    refine call_iff.mpr ⟨?_, ih (h.imp_left And.right) ?_ ?_⟩
    · rcases h with h | rfl | rfl <;> simp_all
    · exact fun c hc => hconstant c (List.mem_cons_of_mem _ hc)
    · exact fun v hv => hpercent v (List.mem_cons_of_mem _ hv)
  | group inner ih =>
    rw [group_iff] at h
    refine group_iff.mpr ⟨?_, ih (h.imp_left And.right) ?_ ?_⟩
    · rcases h with h | rfl | rfl <;> simp_all
    · exact fun c hc => hconstant c (List.mem_cons_of_mem _ hc)
    · exact fun v hv => hpercent v (List.mem_cons_of_mem _ hv)

end Avoids

/-! ## Flat trees -/

/-- Numbers, signs and operators only. -/
structure Flat (e : Expr) : Prop where
  constant : e.Avoids .constant
  percent : e.Avoids .percent
  call : e.Avoids .call
  group : e.Avoids .group

/-- What a flat tree is made of is flat. -/
theorem Flat.of_nodeAt {e n : Expr} {i : Nat} (h : e.Flat) (hat : NodeAt e i n) : n.Flat :=
  ⟨h.constant.of_nodeAt hat, h.percent.of_nodeAt hat, h.call.of_nodeAt hat, h.group.of_nodeAt hat⟩

/-- A flat tree without an operator between two numbers is a number, as far as its operators bind
at least as tightly as its place. -/
theorem Fits.literal_of_irreducible {e : Expr} {k : Place} (h : e.Fits k) (hflat : e.Flat)
    {operators : List Operator}
    (hoperators : ∀ op : Operator, op.place ≤ k → op ∈ operators ∨ e.Avoids (.operator op))
    (hirreducible : ∀ n ∈ e.nodes, Derivation.isReducible operators n = false) :
    ∃ v, e = literal v := by
  induction e generalizing k with
  | literal value => exact ⟨value, rfl⟩
  | constant name => exact absurd rfl (hflat.constant _ (self_mem_nodes _))
  | percent value => exact absurd rfl (hflat.percent _ (self_mem_nodes _))
  | call f argument => exact absurd rfl (hflat.call _ (self_mem_nodes _))
  | group inner => exact absurd rfl (hflat.group _ (self_mem_nodes _))
  | negation operand ih =>
    obtain ⟨hpower, hoperand, hfits⟩ := h
    -- A number after a sign would have been folded into it, so that the operand cannot be one.
    have hat : NodeAt (negation operand) 1 operand := .negation (.self operand)
    obtain ⟨v, rfl⟩ := ih hfits (hflat.of_nodeAt hat)
      (fun op hop => (hoperators op (Place.le_trans hop (Place.signed_le hpower))).imp_right
        fun havoids => havoids.of_nodeAt hat)
      (fun n hn => hirreducible n (hat.mem_nodes hn))
    exact absurd hoperand id
  | binary op left right ihLeft ihRight =>
    obtain ⟨hplace, hleft, hright⟩ := h
    have hatLeft : NodeAt (binary op left right) 1 left := .left (.self left)
    have hatRight : NodeAt (binary op left right) (left.size + 1) right := .right (.self right)
    obtain ⟨v, rfl⟩ := ihLeft hleft (hflat.of_nodeAt hatLeft)
      (fun o ho => (hoperators o (Place.le_trans ho hplace)).imp_right
        fun havoids => havoids.of_nodeAt hatLeft)
      (fun n hn => hirreducible n (hatLeft.mem_nodes hn))
    obtain ⟨w, rfl⟩ := ihRight hright (hflat.of_nodeAt hatRight)
      (fun o ho => (hoperators o
        (Place.le_trans (Place.le_trans ho op.rightPlace_le) hplace)).imp_right
          fun havoids => havoids.of_nodeAt hatRight)
      (fun n hn => hirreducible n (hatRight.mem_nodes hn))
    -- Both operands are numbers, so the operator itself could have been reduced.
    have hself := hirreducible _ (self_mem_nodes _)
    rcases hoperators op hplace with hmem | havoids
    · simp [Derivation.isReducible, hmem] at hself
    · exact absurd rfl (havoids _ (self_mem_nodes _))

/-- After a tier of operators has been reduced, none of its operators is left. -/
theorem Fits.avoids_of_irreducible {e : Expr} {k : Place} (h : e.Fits k) (hflat : e.Flat)
    {operators : List Operator} {l : Place}
    (hoperators : ∀ op : Operator, op.place ≤ l → op ∈ operators ∨ e.Avoids (.operator op))
    (hirreducible : ∀ n ∈ e.nodes, Derivation.isReducible operators n = false)
    {op : Operator} (hop : op.place ≤ l) : e.Avoids (.operator op) := by
  intro n hn hkind
  obtain ⟨i, hat⟩ := exists_nodeAt hn
  obtain ⟨left, right, rfl⟩ : ∃ left right, n = binary op left right := by
    cases n <;> simp_all [kind?]
  obtain ⟨m, hfits⟩ := h.of_nodeAt hat
  have hself : (binary op left right).Fits op.place := ⟨Place.le_refl _, hfits.2⟩
  obtain ⟨v, hv⟩ := hself.literal_of_irreducible (hflat.of_nodeAt hat)
    (fun o ho => (hoperators o (Place.le_trans ho hop)).imp_right
      fun havoids => havoids.of_nodeAt hat)
    (fun n hn => hirreducible n (hat.mem_nodes hn))
  cases hv

end Expr

/-! ## What phrases denote -/

/-- A property of trees at places that goes along with every way to build a tree in the grammar. -/
structure Place.Closed (P : Place → Expr → Prop) : Prop where
  mono : ∀ {j k : Place} {e : Expr}, P j e → .power ≤ j → j ≤ k → P k e
  negate : ∀ {k : Place} {e : Expr}, P k.signed e → k ≠ .power → P k e.negate
  binary : ∀ (op : Operator) {left right : Expr}, P op.place left → P op.rightPlace right →
    P op.place (.binary op left right)
  number : ∀ (text : List Char) (k : Place), P k (.literal (Numeral.unsignedValue text))
  percent : ∀ (text : List Char) (k : Place), P k (.percent (Numeral.unsignedValue text))
  constant : ∀ (name : ConstantName) (k : Place), P k (.constant name)
  call : ∀ {f : FunctionName} {argument : Expr}, P .sum argument → ∀ k, P k (.call f argument)
  group : ∀ {inner : Expr}, P .sum inner → ∀ k, P k (.group inner)

/-- A meaning with the property at the place of its category; a tail keeps the property. -/
def Category.Keeps (P : Place → Expr → Prop) : (c : Category) → c.Meaning → Prop
  | expression, e => P .sum e
  | sumTail, f => ∀ left, P .sum left → P .sum (f left)
  | term, e => P .term e
  | productTail, f => ∀ left, P .term left → P .term (f left)
  | factor, e => P .factor e
  | power _, e => P .power e
  | powerTail, f => ∀ left, P .power left → P .power (f left)
  | exponent, e => P .exponent e
  | primary _, e => ∀ k, P k e

namespace Phrase

/-- Every phrase denotes what has a closed property. -/
theorem keeps {P : Place → Expr → Prop} (h : Place.Closed P) {c : Category} (d : Phrase c) :
    c.Keeps P d.meaning := by
  induction d with
  | expression first rest ihFirst ihRest | term first rest ihFirst ihRest =>
    exact ihRest _ (h.mono ihFirst (by decide) (by decide))
  | endSum | endProduct | endPower => exact fun left hleft => hleft
  | sum sign next rest ihNext ihRest =>
    intro left hleft
    refine ihRest _ ?_
    cases sign with
    | plus => exact h.binary .add hleft ihNext
    | minus => exact h.binary .sub hleft ihNext
  | product scale next rest ihNext ihRest =>
    intro left hleft
    refine ihRest _ ?_
    cases scale with
    | times => exact h.binary .mul hleft ihNext
    | divide => exact h.binary .div hleft ihNext
  | juxtaposition next rest ihNext ihRest =>
    intro left hleft
    exact ihRest _ (h.binary .mul hleft (h.mono ihNext (by decide) (by decide)))
  | signed sign operand ih =>
    cases sign with
    | plus => exact ih
    | minus => exact h.negate (k := .factor) ih (by decide)
  | factor operand ih => exact h.mono ih (by decide) (by decide)
  | power base rest ihBase ihRest => exact ihRest _ (ihBase _)
  | raise next rest ihNext ihRest =>
    intro left hleft
    exact ihRest _ (h.binary .pow hleft ihNext)
  | signedExponent sign operand ih =>
    cases sign with
    | plus => exact ih
    | minus => exact h.negate (k := .exponent) ih (by decide)
  | exponent operand ih => exact ih _
  | number text => exact h.number text
  | percent text => exact h.percent text
  | constant name => exact h.constant name
  | call f argument ih => exact h.call ih
  | group inner ih => exact h.group ih

end Phrase

theorem Expr.Fits.closed : Place.Closed fun k e => e.Fits k where
  mono := Expr.Fits.mono
  negate := Expr.Fits.negate
  binary := fun _ _ _ hleft hright => ⟨Place.le_refl _, hleft, hright⟩
  number := fun _ _ => trivial
  percent := fun _ _ => trivial
  constant := fun _ _ => trivial
  call := fun h _ => h
  group := fun h _ => h

/-- The tree of an expression keeps to the precedences. -/
theorem Phrase.fits_tree (d : Phrase .expression) : d.tree.Fits .sum := d.keeps Expr.Fits.closed

/-! ## Percentages -/

/-- No percentage is undefined. -/
def Expr.PercentsDefined (e : Expr) : Prop := ∀ v, percent v ∈ e.nodes → v.isNaN = false

theorem Expr.PercentsDefined.binary {op : Operator} {left right : Expr}
    (hleft : left.PercentsDefined) (hright : right.PercentsDefined) :
    (Expr.binary op left right).PercentsDefined := by
  intro v hv
  simp only [nodes, List.mem_cons, List.mem_append, reduceCtorEq, false_or] at hv
  exact hv.elim (hleft v) (hright v)

theorem Expr.PercentsDefined.negate {e : Expr} (h : e.PercentsDefined) :
    e.negate.PercentsDefined := by
  intro v hv
  refine h v ?_
  cases e <;> simp_all [Expr.negate, nodes]

theorem Expr.PercentsDefined.closed : Place.Closed fun _ e => e.PercentsDefined where
  mono := fun h _ _ => h
  negate := fun h _ => h.negate
  binary := fun _ _ _ => Expr.PercentsDefined.binary
  number := fun text _ v hv => by simp [nodes] at hv
  percent := fun text _ v hv => by
    obtain rfl : v = Numeral.unsignedValue text := by simpa [nodes] using hv
    exact Numeral.isNaN_unsignedValue text
  constant := fun name _ v hv => by simp [nodes] at hv
  call := fun h _ v hv => h v (by simpa [nodes] using hv)
  group := fun h _ v hv => h v (by simpa [nodes] using hv)

/-- A percentage that is read is defined. -/
theorem Phrase.percentsDefined_tree (d : Phrase .expression) : d.tree.PercentsDefined :=
  d.keeps Expr.PercentsDefined.closed

end Stepwise
