/-
# Sampled expressions

A sample of an expression at a number is the value of the text with the number in place of `x`.
Where `x` stands as a word of its own, the tokens of that text are those of the expression with the
number in parentheses in place of `x`.

* `Double.reads_positional` : the number is read back, with its sign;
* `Definite.ofChars_substitute` : the tokens after the substitution;
* `Definite.sample_of_value` : the sample of an expression that can be read.
-/
import Stepwise.Analysis.Definite
import Stepwise.Proofs.Derivation.Steps
import Stepwise.Proofs.Expr.Scan

namespace Stepwise

/-! ## Numbers without an exponent -/

/-- The positional text of a finite double is read as a literal. -/
theorem Double.reads_positional {x : Double} (hfinite : x.isFinite = true) :
    ∃ d : Phrase .expression, Token.Spells x.positional d.tokens ∧ d.meaning = .literal x := by
  cases x with
  | nan | infinity negative => cases hfinite
  | finite negative m e h =>
    obtain ⟨s, hs⟩ : ∃ s, s = (finite negative m e h).shortest.positionalChars [] := ⟨_, rfl⟩
    have hchars : (finite negative m e h).positional = (if negative then ['-'] else []) ++ s := by
      rw [hs]
      rfl
    have hwritten : Numeral.Written s := by
      rw [hs]
      exact (Decimal.positionalChars_written (.inl rfl) _).1
    have hvalue : Numeral.unsignedValue s = finite false m e h := by
      rcases Nat.eq_zero_or_pos m with rfl | hm
      · rw [hs, (Decimal.positionalChars_written (.inl rfl) _).2, eq_zero_of_mantissa,
          eq_zero_of_mantissa]
        cases negative <;> decide +kernel
      · rw [hs]
        exact unsignedValue_shortest hm (.inl rfl)
    have hnumber := Place.Reads.ofPrimary (.number s) .sum
    rw [Phrase.tokens, Phrase.meaning, hvalue] at hnumber
    rw [hchars]
    cases negative with
    | false =>
      obtain ⟨d, htokens, hmeaning⟩ := hnumber
      refine ⟨d, ?_, hmeaning⟩
      rw [htokens]
      exact .number hwritten
    | true =>
      have hfactor := Place.Reads.ofPrimary (.number s) (Place.signed .sum)
      rw [Phrase.tokens, Phrase.meaning, hvalue] at hfactor
      obtain ⟨d, htokens, hmeaning⟩ := hfactor.minus (by decide)
      refine ⟨d, ?_, hmeaning⟩
      rw [htokens]
      exact .operator .sub (.number hwritten)

namespace Token

/-! ## Substitution -/

variable {x : Double} {number : List Token}

/-- A token with every name replaced by a number in parentheses. -/
def expand (number : List Token) : Token → List Token
  | .name _ => .opening :: (number ++ [.closing])
  | token => [token]

/-- The number in parentheses is scanned as its tokens. -/
theorem scan_parenthesised (hnumber : Spells x.positional number) (rest : List Char) :
    scan .none ('(' :: x.positional ++ ')' :: rest) =
      (scan .none rest).map fun tokens => .opening :: (number ++ .closing :: tokens) := by
  have hclosing : scan .none (')' :: rest) = (scan .none rest).map (.closing :: ·) :=
    scan_symbol rfl (by decide) (by decide) (by decide) (by decide) rest
  rw [List.cons_append, scan_symbol rfl (by decide) (by decide) (by decide) (by decide),
    hnumber _ (breaks_cons (by simp) rest), hclosing]
  cases scan .none rest <;> rfl

/-- A name goes on for as long as there are letters. -/
theorem exists_name_of_scan {reversed s : List Char} {tokens : List Token}
    (h : scan (.name reversed) s = .ok tokens) : ∃ more rest,
      tokens = .name (reversed.reverse ++ more) :: rest ∧
        (more = [] → ∀ c ∈ s.head?, Text.isLetter c = false) := by
  induction s generalizing reversed tokens with
  | nil =>
    cases h
    exact ⟨[], [], by simp [Partial.close], by simp⟩
  | cons c s ih =>
    rcases scan_cons h with ⟨longer, hextend, hscan⟩ |
      ⟨hextend, done, next, rest, -, -, rfl⟩
    · rw [Partial.extend?] at hextend
      split at hextend
      · cases hextend
        obtain ⟨more, rest, rfl, -⟩ := ih hscan
        exact ⟨c :: more, rest, by simp, by simp⟩
      · cases hextend
    · refine ⟨[], done ++ rest, by simp [Partial.close], fun _ d hd => ?_⟩
      obtain rfl : c = d := by simpa using hd
      by_contra hletter
      rw [Partial.extend?, if_pos (by simpa using hletter)] at hextend
      cases hextend

/-- A name that is not longer than the part that has been read ends here. -/
theorem scan_name_of_eq {n s : List Char} {tokens : List Token}
    (h : scan (.name n.reverse) s = .ok tokens) (hname : ∀ m, .name m ∈ tokens → m = n) :
    ∃ rest, scan .none s = .ok rest ∧ tokens = .name n :: rest := by
  obtain ⟨more, rest, rfl, hend⟩ := exists_name_of_scan h
  have hmore : more = [] := by
    have heq := hname _ List.mem_cons_self
    rw [List.reverse_reverse] at heq
    simpa using heq
  have hends : ∀ c ∈ s.head?, (Partial.name n.reverse).extend? c = none := by
    intro c hc
    rw [Partial.extend?, if_neg (by simp [hend hmore c hc])]
  rw [scan_of_not_extends hends] at h
  cases hrest : scan .none s with
  | error f =>
    rw [hrest] at h
    cases h
  | ok tokens =>
    rw [hrest] at h
    refine ⟨tokens, rfl, ?_⟩
    have htokens := Except.ok.inj h
    rw [← htokens, Partial.close, List.reverse_reverse]

theorem substitute_variable (x : Double) (s : List Char) :
    Definite.substitute ('x' :: s) x =
      '(' :: x.positional ++ ')' :: Definite.substitute s x := by
  simp [Definite.substitute]

theorem substitute_cons {c : Char} (hc : c ≠ 'x') (x : Double) (s : List Char) :
    Definite.substitute (c :: s) x = c :: Definite.substitute s x := by
  simp [Definite.substitute, hc]

/-- The word that is being read is no name. -/
def Partial.NoName (word : Partial) : Prop := ∀ reversed, word ≠ .name reversed

theorem noName_none : Partial.none.NoName := by
  rintro reversed ⟨⟩

/-- Neither `x` nor what is put in its place goes on with a number. -/
theorem Partial.NoName.extend?_eq_none {word : Partial} (h : word.NoName) {d : Char}
    (hd : d = 'x' ∨ d = '(') : word.extend? d = Option.none := by
  cases word with
  | none => rfl
  | whole reversed | fraction reversed => rcases hd with rfl | rfl <;> rfl
  | name reversed => exact absurd rfl (h reversed)

/-- A word that is no name is not changed by the substitution. -/
theorem flatMap_expand_close {word : Partial} (hword : word.NoName) (rest : List Token) :
    (word.close rest).flatMap (expand number) = word.close (rest.flatMap (expand number)) := by
  cases word with
  | none | whole reversed | fraction reversed => rfl
  | name reversed => exact absurd rfl (hword reversed)

theorem flatMap_expand_of_begins {c : Char} {after : List Char} {done : List Token}
    {next : Partial} (h : Begins c after done next) : done.flatMap (expand number) = done := by
  cases h with
  | blank h | digit hblank h | point hblank h hdigit | letter hblank h => rfl
  | @symbol token hblank h =>
    unfold ofSymbol? at h
    split at h
    · cases h
      rfl
    · cases h
      rfl
    · cases h
      rfl
    · obtain ⟨op, -, rfl⟩ := Option.map_eq_some_iff.mp h
      rfl

theorem startsWithDigit_substitute (s : List Char) :
    startsWithDigit (Definite.substitute s x) = startsWithDigit s := by
  cases s with
  | nil => rfl
  | cons c s =>
    by_cases hc : c = 'x'
    · subst hc
      rfl
    · rw [substitute_cons hc]
      rfl

theorem mem_close {word : Partial} {token : Token} {rest : List Token} (h : token ∈ rest) :
    token ∈ word.close rest := by
  cases word with
  | none => exact h
  | whole reversed | fraction reversed | name reversed => exact List.mem_cons_of_mem _ h

theorem Partial.NoName.extend? {word longer : Partial} {c : Char} (hword : word.NoName)
    (h : word.extend? c = some longer) : longer.NoName := by
  cases word with
  | none => cases h
  | whole reversed =>
    rw [Partial.extend?] at h
    split at h
    · cases h
      rintro reversed ⟨⟩
    · split at h
      · cases h
        rintro reversed ⟨⟩
      · cases h
  | fraction reversed =>
    rw [Partial.extend?] at h
    split at h
    · cases h
      rintro reversed ⟨⟩
    · cases h
  | name reversed => exact absurd rfl (hword reversed)

/-- **The tokens of a text after the substitution**, if `x` is the only name in it. -/
theorem scan_substitute (hnumber : Spells x.positional number) {word : Partial} {s : List Char}
    {tokens : List Token} (hword : word.NoName) (h : scan word s = .ok tokens)
    (hname : ∀ m, .name m ∈ tokens → m = ['x']) :
    scan word (Definite.substitute s x) = .ok (tokens.flatMap (expand number)) := by
  induction s generalizing word tokens with
  | nil =>
    cases h
    rw [flatMap_expand_close hword]
    rfl
  | cons c s ih =>
    have hnames {done rest : List Token} (htokens : tokens = word.close (done ++ rest)) :
        ∀ m, .name m ∈ rest → m = ['x'] := fun m hm =>
      hname m (by rw [htokens]; exact mem_close (List.mem_append_right _ hm))
    by_cases hc : c = 'x'
    · subst hc
      have hbegin : begin? 'x' s = some ([], .name ['x']) := rfl
      rcases scan_cons h with ⟨longer, hextend, -⟩ | ⟨-, done, next, rest, hbegun, hscan, htokens⟩
      · rw [hword.extend?_eq_none (.inl rfl)] at hextend
        cases hextend
      · rw [hbegin] at hbegun
        cases hbegun
        obtain ⟨rest, hrest, rfl⟩ := scan_name_of_eq (n := ['x']) hscan (hnames htokens)
        have hafter := ih noName_none hrest fun m hm =>
          hnames htokens m (List.mem_cons_of_mem _ hm)
        rw [htokens, flatMap_expand_close hword, substitute_variable, scan_of_not_extends,
          scan_parenthesised hnumber, hafter]
        · simp [Except.map, expand]
        · intro d hd
          exact hword.extend?_eq_none (.inr (by simpa using hd.symm))
    · rw [substitute_cons hc]
      rcases scan_cons h with ⟨longer, hextend, hscan⟩ |
        ⟨hextend, done, next, rest, hbegin, hscan, htokens⟩
      · rw [scan, hextend]
        exact ih (hword.extend? hextend) hscan hname
      · have hbegins := begins_of_begin? hbegin
        -- The only letter that could begin a name is `x`.
        have hnext : next.NoName := by
          rintro reversed rfl
          cases hbegins
          obtain ⟨more, rest, rfl, -⟩ := exists_name_of_scan hscan
          have hx := hnames htokens _ List.mem_cons_self
          exact hc (List.cons.inj hx).1
        have hbegin' : begin? c (Definite.substitute s x) = some (done, next) := by
          rw [← hbegin]
          simp only [begin?, startsWithDigit_substitute]
        rw [scan, hextend, hbegin', htokens, flatMap_expand_close hword, List.flatMap_append,
          flatMap_expand_of_begins hbegins]
        simp only [ih hnext hscan (hnames htokens)]
        rfl

end Token

namespace Definite

variable {settings : Settings} {x : Double} {s : List Char}

/-- **The tokens of a text with a number in place of `x`**, if `x` is the only name in it. -/
theorem ofChars_substitute (hfinite : x.isFinite = true) {tokens : List Token}
    (h : Token.ofChars s = .ok tokens) (hname : ∀ m, .name m ∈ tokens → m = ['x']) :
    ∃ d : Phrase .expression, d.meaning = .literal x ∧
      Token.ofChars (substitute s x) = .ok (tokens.flatMap (Token.expand d.tokens)) := by
  obtain ⟨d, hnumber, hmeaning⟩ := Double.reads_positional hfinite
  exact ⟨d, hmeaning, Token.scan_substitute hnumber Token.noName_none h hname⟩

/-- A sample is the value of what is read after the substitution. -/
theorem sample_of_value {e : Expr} {y : Double} (hread : Expr.ofChars (substitute s x) = .ok e)
    (hfits : e.Fits .sum) (hv : e.value (standardOperations settings.maxFactorial) = .ok y) :
    (sample settings s x).outcome = .ok y := by
  have hvalue := Arithmetic.value_of_read hread hfits hv
  simp only [sample, hvalue]
  rfl

end Definite

end Stepwise
