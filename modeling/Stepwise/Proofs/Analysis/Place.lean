/-
# The places of calls

A call is found wherever it stands in a text.  Its argument goes on to a closing parenthesis, and
what is read from it does not depend on the rest of the text.

* `Call.Stands` : a call that is a part of a text;
* `Call.Reads` : the arguments that a reader takes, each up to a closing parenthesis;
* `Call.Reads.exists_stands`, `Call.Reads.findCall?_eq_none_iff` : what is found stands in the text,
  and what stands there is found;
* `Call.FreeOf`, `Call.reads_freeOf` : the arguments of derivatives and of indefinite integrals;
* `Call.Bounded`, `Call.reads_bounded` : the arguments of definite integrals.
-/
import Stepwise.Proofs.Analysis.Call
import Stepwise.Proofs.Polynomial.Cut

namespace Stepwise

namespace Call

/-! ## Calls in a text -/

/-- A call of the word with the argument is a part of the text. -/
def Stands (word argument s : List Char) : Prop :=
  ∃ before blanks after, s = before ++ (word ++ (blanks ++ '(' :: (argument ++ ')' :: after))) ∧
    ∀ c ∈ blanks, Text.isBlank c = true

/-- The reader takes the arguments of the given form: what it reads is one, up to a closing
parenthesis, and does not depend on what comes after; and from a text that starts with one it reads
something. -/
structure Reads {α : Type} (read : List Char → Option α) (Argument : List Char → Prop) : Prop where
  exists_argument : ∀ {rest a}, read rest = some a → ∃ argument after,
    rest = argument ++ ')' :: after ∧ Argument argument ∧ read (argument ++ [')']) = some a
  isSome : ∀ {argument} after, Argument argument → (read (argument ++ ')' :: after)).isSome = true

/-- A text does not start with white space if its first character is none. -/
theorem isBlank_head?_eq_false {c : Char} (hc : Text.isBlank c = false) (s : List Char) :
    ∀ d ∈ (c :: s).head?, Text.isBlank d = false := by
  intro d hd
  rwa [← Option.mem_some_iff.mp hd]

section Find

variable {α : Type} {word s : List Char} {read : List Char → Option α}

/-- What is read after a word is read after white space and an opening parenthesis. -/
theorem exists_of_callAt? {a : α} (h : callAt? word read s = some a) :
    ∃ blanks rest, s = word ++ (blanks ++ '(' :: rest) ∧ (∀ c ∈ blanks, Text.isBlank c = true) ∧
      read rest = some a := by
  unfold callAt? at h
  split at h
  · next hword =>
    obtain ⟨t, rfl⟩ := List.isPrefixOf_iff_prefix.mp hword
    obtain ⟨blanks, u, rfl, hblanks, hu⟩ := Text.exists_blanks_append t
    rw [List.drop_left, Text.trimStart_append hblanks hu] at h
    split at h
    · exact ⟨blanks, _, rfl, hblanks, h⟩
    · cases h
  · cases h

theorem callAt?_append {blanks : List Char} (hblanks : ∀ c ∈ blanks, Text.isBlank c = true)
    (rest : List Char) : callAt? word read (word ++ (blanks ++ '(' :: rest)) = read rest := by
  rw [callAt?, if_pos (List.isPrefixOf_iff_prefix.mpr (List.prefix_append word _)), List.drop_left,
    Text.trimStart_append hblanks (isBlank_head?_eq_false (by decide) rest)]
  rfl

theorem exists_of_findCall? {a : α} (h : findCall? word read s = some a) :
    ∃ before t, s = before ++ t ∧ callAt? word read t = some a := by
  induction s with
  | nil => cases h
  | cons c s ih =>
    unfold findCall? at h
    split at h
    · next hcall =>
      cases h
      exact ⟨[], c :: s, rfl, hcall⟩
    · obtain ⟨before, t, rfl, ht⟩ := ih h
      exact ⟨c :: before, t, rfl, ht⟩

theorem isSome_findCall? (before : List Char)
    (h : (callAt? word read s).isSome = true) :
    (findCall? word read (before ++ s)).isSome = true := by
  induction before with
  | nil =>
    cases s with
    | nil =>
      obtain ⟨a, ha⟩ := Option.isSome_iff_exists.mp h
      obtain ⟨blanks, rest, hs, -⟩ := exists_of_callAt? ha
      simp at hs
    | cons c s =>
      rw [List.nil_append, findCall?]
      split
      · rfl
      · next hcall =>
        rw [hcall] at h
        cases h
  | cons c before ih =>
    rw [List.cons_append, findCall?]
    split
    · rfl
    · exact ih

variable {Argument : List Char → Prop} (h : Reads read Argument)

include h

/-- **What is found is read from a part of the text**, and from that part alone the same is read. -/
theorem Reads.exists_stands (hword : word ≠ []) {a : α} (hfound : findCall? word read s = some a) :
    ∃ argument, Stands word argument s ∧ Argument argument ∧
      findCall? word read (word ++ '(' :: (argument ++ [')'])) = some a := by
  obtain ⟨before, t, rfl, hcall⟩ := exists_of_findCall? hfound
  obtain ⟨blanks, rest, rfl, hblanks, hread⟩ := exists_of_callAt? hcall
  obtain ⟨argument, after, rfl, hargument, halone⟩ := h.exists_argument hread
  exact ⟨argument, ⟨before, blanks, after, rfl, hblanks⟩, hargument, findCall?_start hword halone⟩

/-- **A call is found wherever it stands.** -/
theorem Reads.findCall?_eq_none_iff (hword : word ≠ []) :
    findCall? word read s = none ↔ ∀ argument, Stands word argument s → ¬ Argument argument := by
  constructor
  · rintro hnone argument ⟨before, blanks, after, rfl, hblanks⟩ hargument
    have hcall :
        (callAt? word read (word ++ (blanks ++ '(' :: (argument ++ ')' :: after)))).isSome =
          true := by
      rw [callAt?_append hblanks]
      exact h.isSome after hargument
    have hfound := isSome_findCall? before hcall
    rw [hnone] at hfound
    cases hfound
  · intro hnothing
    cases hfound : findCall? word read s with
    | none => rfl
    | some a =>
      obtain ⟨argument, hstands, hargument, -⟩ := h.exists_stands hword hfound
      exact absurd hargument (hnothing argument hstands)

end Find

/-! ## Arguments up to a character -/

/-- The text is not empty, and the character does not occur in it. -/
def FreeOf (stop : Char) (s : List Char) : Prop := s ≠ [] ∧ stop ∉ s

theorem exists_of_beforeLast? {separator : Char} {s t : List Char}
    (h : beforeLast? separator s = some t) : ∃ after, s = t ++ separator :: after := by
  induction s generalizing t with
  | nil => cases h
  | cons c s ih =>
    unfold beforeLast? at h
    split at h
    · next before hbefore =>
      cases h
      obtain ⟨after, rfl⟩ := ih hbefore
      exact ⟨after, rfl⟩
    · split at h
      · next hc =>
        cases h
        exact ⟨s, by rw [hc]; rfl⟩
      · cases h

/-- The last occurrence of the separator is not before any other one. -/
theorem exists_beforeLast? (separator : Char) (s after : List Char) :
    ∃ t, beforeLast? separator (s ++ separator :: after) = some (s ++ t) := by
  induction s with
  | nil =>
    rw [List.nil_append, beforeLast?]
    split
    · exact ⟨_, rfl⟩
    · exact ⟨[], if_pos rfl⟩
  | cons c s ih =>
    obtain ⟨t, ht⟩ := ih
    exact ⟨t, by rw [List.cons_append, beforeLast?, ht]; rfl⟩

theorem nonempty?_eq_some {s t : List Char} : nonempty? s = some t ↔ s = t ∧ t ≠ [] := by
  unfold nonempty?
  split
  · next hs =>
    rw [List.isEmpty_iff] at hs
    subst hs
    simp
  · next hs =>
    rw [List.isEmpty_iff] at hs
    constructor
    · rintro ⟨⟩
      exact ⟨rfl, hs⟩
    · rintro ⟨rfl, -⟩
      rfl

theorem bind_nonempty?_eq_some {x : Option (List Char)} {t : List Char} :
    x.bind nonempty? = some t ↔ x = some t ∧ t ≠ [] := by
  cases x with
  | none => simp
  | some s => simp [nonempty?_eq_some]

/-- A text is read up to the last parenthesis before the character. -/
theorem reads_freeOf {stop : Char} (hstop : stop ≠ ')') :
    Reads (fun rest => (beforeLast? ')' (rest.takeWhile (· ≠ stop))).bind nonempty?)
      (FreeOf stop) where
  exists_argument := by
    intro rest argument h
    obtain ⟨hbefore, hne⟩ := bind_nonempty?_eq_some.mp h
    obtain ⟨after, htake⟩ := exists_of_beforeLast? hbefore
    have hfree : stop ∉ argument := by
      intro hmem
      have hin : stop ∈ rest.takeWhile (· ≠ stop) := by
        rw [htake]
        exact List.mem_append_left _ hmem
      simpa using List.all_eq_true.mp List.all_takeWhile stop hin
    refine ⟨argument, after ++ rest.dropWhile (· ≠ stop), ?_, ⟨hne, hfree⟩,
      argument_eq hstop hne hfree⟩
    rw [← List.cons_append, ← List.append_assoc, ← htake, List.takeWhile_append_dropWhile]
  isSome := by
    rintro argument after ⟨hne, hfree⟩
    have hall : ∀ c ∈ argument ++ [')'], decide (c ≠ stop) = true := by
      intro c hc
      rw [decide_eq_true_eq]
      rintro rfl
      rcases List.mem_append.mp hc with hc | hc
      · exact hfree hc
      · exact hstop (List.mem_singleton.mp hc)
    have hsplit : argument ++ ')' :: after = (argument ++ [')']) ++ after := by simp
    obtain ⟨t, ht⟩ := exists_beforeLast? ')' argument (after.takeWhile (· ≠ stop))
    have hread :
        (beforeLast? ')' ((argument ++ ')' :: after).takeWhile (· ≠ stop))).bind nonempty? =
          some (argument ++ t) := by
      refine bind_nonempty?_eq_some.mpr ⟨?_, by simp [hne]⟩
      rw [hsplit, List.takeWhile_append_of_pos hall, List.append_assoc]
      exact ht
    exact Option.isSome_iff_exists.mpr ⟨_, hread⟩

/-! ## Bounds -/

theorem ne_nil_of_lowerBound? {s a : List Char} (h : lowerBound? s = some a) : s ≠ [] := by
  rintro rfl
  cases h

theorem isSome_lowerBound? {s : List Char} (h : s ≠ []) : (lowerBound? s).isSome = true := by
  unfold lowerBound?
  split
  · simpa using h
  · rfl

/-- White space before a closing parenthesis ends with it. -/
theorem takeWhile_closing {blanks : List Char} (hblanks : ∀ c ∈ blanks, Text.isBlank c = true)
    (after : List Char) : (blanks ++ ')' :: after).takeWhile Text.isBlank = blanks := by
  rw [List.takeWhile_append_of_pos hblanks,
    List.takeWhile_cons_of_neg (by decide), List.append_nil]

/-- An upper bound is read up to a closing parenthesis, whatever comes after it. -/
theorem exists_of_upperBound? {s b : List Char} (h : upperBound? s = some b) :
    ∃ upper after, s = upper ++ ')' :: after ∧ upper ≠ [] ∧
      upperBound? (upper ++ [')']) = some b := by
  obtain ⟨blanks, t, rfl, hblanks, ht⟩ := Text.exists_blanks_append s
  rw [upperBound?, Text.trimStart_append hblanks ht] at h
  split at h
  · next bound hbound =>
    cases h
    obtain ⟨hbefore, hne⟩ := bind_nonempty?_eq_some.mp hbound
    obtain ⟨after, rfl⟩ := exists_of_beforeLast? hbefore
    refine ⟨blanks ++ b, after, by simp, by simp [hne], ?_⟩
    have hhead : ∀ c ∈ (b ++ [')']).head?, Text.isBlank c = false := by
      obtain ⟨c, b, rfl⟩ := List.exists_cons_of_ne_nil hne
      exact ht
    rw [upperBound?, List.append_assoc, Text.trimStart_append hblanks hhead]
    simp [beforeLast?_append, nonempty?, hne]
  · split at h
    · next after _ =>
      rw [takeWhile_closing hblanks] at h
      refine ⟨blanks, after, rfl, ?_, ?_⟩
      · rintro rfl
        cases h
      · rw [upperBound?, Text.trimStart_append hblanks (isBlank_head?_eq_false (by decide) []),
          takeWhile_closing hblanks]
        exact h
    · cases h

theorem isSome_upperBound? {upper : List Char} (h : upper ≠ []) (after : List Char) :
    (upperBound? (upper ++ ')' :: after)).isSome = true := by
  obtain ⟨blanks, t, rfl, hblanks, ht⟩ := Text.exists_blanks_append upper
  cases t with
  | nil =>
    rw [List.append_nil] at h ⊢
    rw [upperBound?, Text.trimStart_append hblanks (isBlank_head?_eq_false (by decide) after),
      takeWhile_closing hblanks]
    split
    · rfl
    · simpa using h
  | cons c t =>
    obtain ⟨u, hu⟩ := exists_beforeLast? ')' (c :: t) after
    have hbound : (beforeLast? ')' (c :: t ++ ')' :: after)).bind nonempty? =
        some (c :: t ++ u) := bind_nonempty?_eq_some.mpr ⟨hu, by simp⟩
    have htrim : Text.trimStart (blanks ++ (c :: t ++ ')' :: after)) = c :: t ++ ')' :: after :=
      Text.trimStart_append hblanks ht
    rw [upperBound?, List.append_assoc, htrim, hbound]
    rfl

/-! ## Integrands -/

/-- An integrand within one line and two bounds, with commas between them. -/
def Bounded (s : List Char) : Prop :=
  ∃ integrand lower upper, s = integrand ++ ',' :: (lower ++ ',' :: upper) ∧
    FreeOf '\n' integrand ∧ FreeOf ',' lower ∧ FreeOf ',' upper

/-- The integrand that is read is the given text with some of the pieces; the next two pieces hold
the bounds. -/
theorem exists_of_definiteFrom? {integrand : List Char} {pieces : List (List Char)}
    {d : DefiniteIntegral} (h : definiteFrom? integrand pieces = some d) :
    ∃ front lower upper rest, pieces = front ++ lower :: upper :: rest ∧
      d.integrand = integrand ++ front.flatMap (',' :: ·) ∧ FreeOf '\n' d.integrand ∧
      lowerBound? lower = some d.lower ∧ upperBound? upper = some d.upper := by
  induction pieces generalizing integrand with
  | nil => simp [definiteFrom?] at h
  | cons lower pieces ih =>
    cases pieces with
    | nil => simp [definiteFrom?] at h
    | cons upper rest =>
      rw [definiteFrom?] at h
      split at h
      · next found hfound =>
        cases h
        obtain ⟨front, lower', upper', rest', hpieces, hintegrand, hmore⟩ := ih hfound
        refine ⟨lower :: front, lower', upper', rest', by rw [hpieces]; rfl, ?_, hmore⟩
        rw [hintegrand, List.append_assoc]
        rfl
      · split at h
        · cases h
        · next hfree =>
          obtain ⟨a, ha, h⟩ := Option.bind_eq_some_iff.mp h
          obtain ⟨b, hb, h⟩ := Option.bind_eq_some_iff.mp h
          cases h
          refine ⟨[], lower, upper, rest, rfl, by simp, ?_, ha, hb⟩
          simpa [FreeOf] using hfree

/-- What is read from the last pieces with the others in the integrand is read from all pieces. -/
theorem definiteFrom?_append {integrand : List Char} {front pieces : List (List Char)}
    {d : DefiniteIntegral}
    (h : definiteFrom? (integrand ++ front.flatMap (',' :: ·)) pieces = some d) :
    definiteFrom? integrand (front ++ pieces) = some d := by
  induction front generalizing integrand with
  | nil => simpa using h
  | cons piece front ih =>
    have hdeeper := @ih (integrand ++ ',' :: piece) (by simpa using h)
    have hne : front ++ pieces ≠ [] := by
      intro hnil
      rw [hnil] at hdeeper
      simp [definiteFrom?] at hdeeper
    obtain ⟨next, more, hmore⟩ := List.exists_cons_of_ne_nil hne
    rw [hmore] at hdeeper
    rw [List.cons_append, hmore, definiteFrom?, hdeeper]

section Integrand

variable {integrand lower upper : List Char} (h : FreeOf '\n' integrand)

include h

/-- From two pieces that hold bounds something is read. -/
theorem isSome_definiteFrom? (ha : (lowerBound? lower).isSome = true)
    (hb : (upperBound? upper).isSome = true) (rest : List (List Char)) :
    (definiteFrom? integrand (lower :: upper :: rest)).isSome = true := by
  obtain ⟨a, ha⟩ := Option.isSome_iff_exists.mp ha
  obtain ⟨b, hb⟩ := Option.isSome_iff_exists.mp hb
  rw [definiteFrom?]
  split
  · rfl
  · rw [if_neg (by simpa [FreeOf] using h), ha, hb]
    rfl

theorem definiteFrom?_pair {a b : List Char} (ha : lowerBound? lower = some a)
    (hb : upperBound? upper = some b) :
    definiteFrom? integrand [lower, upper] = some ⟨integrand, a, b⟩ := by
  have hdeeper : definiteFrom? (integrand ++ ',' :: lower) [upper] = none := by
    simp [definiteFrom?]
  rw [definiteFrom?, hdeeper]
  dsimp only
  rw [if_neg (by simpa [FreeOf] using h), ha, hb]
  rfl

end Integrand

/-- The reader of the arguments of a definite integral. -/
def readBounded (rest : List Char) : Option DefiniteIntegral :=
  match Text.splitAtChar ',' rest with
  | integrand :: bounds => definiteFrom? integrand bounds
  | [] => none

/-- What is read from the pieces after an integrand, which may have commas itself. -/
theorem readBounded_append {integrand t : List Char} {d : DefiniteIntegral}
    (h : definiteFrom? integrand (Text.splitAtChar ',' t) = some d) :
    readBounded (integrand ++ ',' :: t) = some d := by
  obtain ⟨piece, pieces, hpieces⟩ :=
    List.exists_cons_of_ne_nil (Text.splitAtChar_ne_nil ',' integrand)
  have htext := Text.eq_of_splitAtChar hpieces
  rw [readBounded, Text.splitAtChar_separator, hpieces]
  exact definiteFrom?_append (by rwa [← htext])

/-- An integral is read up to a closing parenthesis after its last bound. -/
theorem reads_bounded : Reads readBounded Bounded where
  exists_argument := by
    intro rest d h
    obtain ⟨piece, pieces, hpieces⟩ := List.exists_cons_of_ne_nil (Text.splitAtChar_ne_nil ',' rest)
    have htext := Text.eq_of_splitAtChar hpieces
    rw [readBounded, hpieces] at h
    obtain ⟨front, lower, piece', more, hfront, hintegrand, hfree, ha, hb⟩ :=
      exists_of_definiteFrom? h
    obtain ⟨upper, after, rfl, hne, hbound⟩ := exists_of_upperBound? hb
    have hcomma : ∀ p ∈ lower :: (upper ++ ')' :: after) :: more, ',' ∉ p := by
      intro p hp
      refine Text.notMem_of_mem_splitAtChar (s := rest) ?_
      rw [hpieces, hfront]
      exact List.mem_cons_of_mem _ (List.mem_append_right _ hp)
    have hlower : ',' ∉ lower := hcomma lower List.mem_cons_self
    have hupper : ',' ∉ upper := fun hmem =>
      hcomma _ (List.mem_cons_of_mem _ List.mem_cons_self) (List.mem_append_left _ hmem)
    refine ⟨d.integrand ++ ',' :: (lower ++ ',' :: upper), after ++ more.flatMap (',' :: ·), ?_,
      ⟨d.integrand, lower, upper, rfl, hfree, ⟨ne_nil_of_lowerBound? ha, hlower⟩, hne, hupper⟩, ?_⟩
    · rw [htext, hfront, hintegrand]
      simp
    · have hlast : ',' ∉ upper ++ [')'] := by simpa using hupper
      rw [List.append_assoc, List.cons_append, List.append_assoc, List.cons_append]
      refine readBounded_append ?_
      rw [Text.splitAtChar_append hlower, Text.splitAtChar_of_notMem hlast]
      exact definiteFrom?_pair hfree ha hbound
  isSome := by
    rintro argument after
      ⟨integrand, lower, upper, rfl, hfree, ⟨hlowerNe, hlower⟩, hupperNe, hupper⟩
    obtain ⟨piece, pieces, hpieces⟩ :=
      List.exists_cons_of_ne_nil (Text.splitAtChar_ne_nil ',' after)
    have hclosing : Text.splitAtChar ',' (')' :: after) = (')' :: piece) :: pieces := by
      rw [Text.splitAtChar, if_neg (by decide), hpieces]
    have hsome := isSome_definiteFrom? hfree (isSome_lowerBound? hlowerNe)
      (isSome_upperBound? hupperNe piece) pieces
    obtain ⟨d, hd⟩ := Option.isSome_iff_exists.mp hsome
    refine Option.isSome_iff_exists.mpr ⟨d, ?_⟩
    rw [List.append_assoc, List.cons_append, List.append_assoc, List.cons_append]
    refine readBounded_append ?_
    rw [Text.splitAtChar_append hlower, Text.splitAtChar_prepend hupper hclosing]
    exact hd

end Call

end Stepwise
