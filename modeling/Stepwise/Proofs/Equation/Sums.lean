/-
# Coefficients of signed sums

What the reader of coefficients takes from a side of an equation that is a signed sum.  Which terms
the sum has is left open here: of each of them the power of `x` has to be known, up to the third,
and the number in front of it.

* `Coefficients.addAt` : coefficients with a number added to one of them;
* `Summand` : terms of which the reader of coefficients knows the power;
* `SignedSum.units` : the coefficient of a power in a sum;
* `SignedSum.Exact` : no sum of coefficients is rounded;
* `SignedSum.exact_of_small` : this holds for whole numbers that are small enough;
* `SignedSum.read_represents` : the coefficients of a side;
* `SignedSum.sum_valueAt` : the value of a sum by its coefficients.
-/
import Mathlib.Algebra.BigOperators.Fin
import Mathlib.Tactic.FinCases
import Stepwise.Proofs.Analysis.SampledSum

namespace Stepwise

/-! ## Coefficients by their powers -/

namespace Coefficients

/-- The coefficient of a power. -/
def coefficient (k : Coefficients) : Fin 4 → Double
  | 0 => k.d
  | 1 => k.c
  | 2 => k.b
  | 3 => k.a

/-- The coefficients with a number added to that of a power. -/
def addAt (k : Coefficients) (n : Fin 4) (x : Double) : Coefficients :=
  match n with
  | 0 => { k with d := k.d + x }
  | 1 => { k with c := k.c + x }
  | 2 => { k with b := k.b + x }
  | 3 => { k with a := k.a + x }

theorem coefficient_addAt (k : Coefficients) (n m : Fin 4) (x : Double) :
    (k.addAt n x).coefficient m = if n = m then k.coefficient m + x else k.coefficient m := by
  fin_cases n <;> fin_cases m <;> rfl

theorem coefficient_sub (k l : Coefficients) (n : Fin 4) :
    (k - l).coefficient n = k.coefficient n - l.coefficient n := by
  fin_cases n <;> rfl

end Coefficients

/-! ## Summands -/

/-- Terms without their signs, how they are written, the power of `x` that a term is read as, if the
reader of coefficients knows it, and the number in front of the power. -/
class Summand (β : Type) where
  tokens : β → List Token
  degree? : β → Option (Fin 4)
  number : β → Double
  solid {b : β} : Readable (tokens b) → Solid (tokens b)
  addTerm_text {t : Signed β} {n : Fin 4} : Readable (tokens t.body) → degree? t.body = some n →
    ∀ k : Coefficients, k.addTerm (t.text tokens) =
      k.addAt n (if t.minus then -number t.body else number t.body)

variable {β : Type} [Summand β]

/-- The number in front of a term with its sign. -/
def Signed.coefficient (t : Signed β) : Double :=
  if t.minus then -Summand.number t.body else Summand.number t.body

theorem Signed.value_coefficient (t : Signed β) :
    t.coefficient.value = (if t.minus then -1 else 1) * (Summand.number t.body).value := by
  rw [coefficient]
  cases t.minus with
  | false => exact (one_mul _).symm
  | true =>
    show (-Summand.number t.body).value = -1 * (Summand.number t.body).value
    rw [Double.value_neg, neg_one_mul]

theorem Signed.isFinite_coefficient (t : Signed β) :
    t.coefficient.isFinite = (Summand.number t.body).isFinite := by
  rw [coefficient]
  cases t.minus with
  | false => rfl
  | true => exact Double.isFinite_neg _

/-- The value of a term without its sign where `x` is a given number. -/
def Summand.valueAt (ρ : ℚ) (b : β) : ℚ :=
  (degree? b).elim 0 fun n => (number b).value * ρ ^ (n : ℕ)

theorem Signed.value_of_degree? {t : Signed β} {n : Fin 4} (h : Summand.degree? t.body = some n)
    (ρ : ℚ) : t.value (Summand.valueAt ρ) = t.coefficient.value * ρ ^ (n : ℕ) := by
  rw [value, Summand.valueAt, h, value_coefficient, mul_assoc]
  rfl

namespace SignedSum

open Summand (degree? valueAt)

/-! ## Coefficients of sums -/

/-- The coefficient of a power in a sum. -/
def units (n : Fin 4) (ts : List (Signed β)) : ℚ :=
  (ts.map fun t => if degree? t.body = some n then t.coefficient.value else 0).sum

theorem units_cons (n : Fin 4) (t : Signed β) (ts : List (Signed β)) :
    units n (t :: ts) =
      (if degree? t.body = some n then t.coefficient.value else 0) + units n ts := by
  simp [units]

theorem units_append (n : Fin 4) (ts : List (Signed β)) (t : Signed β) :
    units n (ts ++ [t]) =
      units n ts + if degree? t.body = some n then t.coefficient.value else 0 := by
  simp [units]

/-- A power that does not occur has no coefficient. -/
theorem units_eq_zero {n : Fin 4} {ts : List (Signed β)}
    (h : ∀ t ∈ ts, degree? t.body ≠ some n) : units n ts = 0 := by
  refine List.sum_eq_zero fun q hq => ?_
  obtain ⟨t, ht, rfl⟩ := List.mem_map.mp hq
  exact if_neg (h t ht)

/-- The value of a sum by its coefficients. -/
theorem sum_valueAt (ρ : ℚ) (ts : List (Signed β)) :
    (ts.map (Signed.value (valueAt ρ))).sum = ∑ n, units n ts * ρ ^ (n : ℕ) := by
  induction ts with
  | nil => simp [units]
  | cons t ts ih =>
    have hterm : t.value (valueAt ρ) =
        ∑ n, (if degree? t.body = some n then t.coefficient.value else 0) * ρ ^ (n : ℕ) := by
      cases hdegree : degree? t.body with
      | none => simp [Signed.value, valueAt, hdegree]
      | some m => simp [Signed.value_of_degree? hdegree]
    rw [List.map_cons, List.sum_cons, ih, hterm, ← Finset.sum_add_distrib]
    refine Finset.sum_congr rfl fun n _ => ?_
    rw [units_cons, add_mul]

/-- The magnitudes of the numbers in front of terms, added up. -/
def magnitude (ts : List (Signed β)) : ℚ := (ts.map fun t => |t.coefficient.value|).sum

theorem magnitude_append (ts us : List (Signed β)) :
    magnitude (ts ++ us) = magnitude ts + magnitude us := by
  simp [magnitude]

theorem magnitude_nonneg (ts : List (Signed β)) : 0 ≤ magnitude ts := by
  refine List.sum_nonneg fun q hq => ?_
  obtain ⟨t, -, rfl⟩ := List.mem_map.mp hq
  exact abs_nonneg _

/-- The coefficients of all powers together are not greater than the numbers they consist of. -/
theorem sum_abs_units_le (ts : List (Signed β)) : ∑ n, |units n ts| ≤ magnitude ts := by
  induction ts with
  | nil => simp [units, magnitude]
  | cons t ts ih =>
    have hterm : ∑ n, |if degree? t.body = some n then t.coefficient.value else 0| ≤
        |t.coefficient.value| := by
      cases degree? t.body with
      | none => simp
      | some m => simp [apply_ite abs]
    calc ∑ n, |units n (t :: ts)|
        ≤ ∑ n, (|if degree? t.body = some n then t.coefficient.value else 0| +
            |units n ts|) := Finset.sum_le_sum fun n _ => by
          rw [units_cons]
          exact abs_add_le _ _
      _ ≤ |t.coefficient.value| + magnitude ts := by
          rw [Finset.sum_add_distrib]
          exact add_le_add hterm ih
      _ = magnitude (t :: ts) := by simp [magnitude]

/-- The coefficients are whole where the numbers they consist of are. -/
theorem units_whole {ts : List (Signed β)}
    (h : ∀ t ∈ ts, ∃ k : ℤ, t.coefficient.value = k) (n : Fin 4) :
    ∃ k : ℤ, units n ts = k := by
  induction ts with
  | nil => exact ⟨0, by simp [units]⟩
  | cons t ts ih =>
    obtain ⟨i, hi⟩ := h t List.mem_cons_self
    obtain ⟨j, hj⟩ := ih fun u hu => h u (List.mem_cons_of_mem _ hu)
    refine ⟨(if degree? t.body = some n then i else 0) + j, ?_⟩
    rw [units_cons, hi, hj]
    push_cast
    rfl

/-! ## Exact sums -/

/-- The numbers of a sum are doubles, and so is every partial sum of the coefficients of a power. -/
structure Exact (sum : SignedSum β) : Prop where
  coefficients : ∀ t ∈ sum.terms, t.coefficient.isFinite = true
  sums : ∀ n ts, ts <+: sum.terms → Representable (units n ts)

/-- Sums of small whole numbers are exact. -/
theorem exact_of_small {sum : SignedSum β}
    (hwhole : ∀ t ∈ sum.terms, ∃ k : ℤ, t.coefficient.Represents k)
    (hsmall : magnitude sum.terms < 2 ^ 53) : Exact sum := by
  constructor
  · intro t ht
    obtain ⟨k, hk⟩ := hwhole t ht
    exact hk.1
  · rintro n ts ⟨us, hus⟩
    have hmem {t : Signed β} (ht : t ∈ ts) : t ∈ sum.terms :=
      hus ▸ List.mem_append_left us ht
    have hunits := units_whole (fun t ht => (hwhole t (hmem ht)).imp fun _ h => h.2) n
    have hle : |units n ts| ≤ magnitude sum.terms :=
      calc |units n ts|
          ≤ ∑ m, |units m ts| :=
            Finset.single_le_sum (fun m _ => abs_nonneg (units m ts)) (Finset.mem_univ n)
        _ ≤ magnitude ts := sum_abs_units_le ts
        _ ≤ magnitude ts + magnitude us := le_add_of_nonneg_right (magnitude_nonneg us)
        _ = magnitude sum.terms := by rw [← magnitude_append, hus]
    exact representable_of_whole hunits (hle.trans_lt hsmall)

/-! ## Sides -/

/-- The coefficients that have been added up stand for those of a sum. -/
def Sums (k : Coefficients) (ts : List (Signed β)) : Prop :=
  ∀ n, (k.coefficient n).Represents (units n ts)

theorem sums_nil : Sums {} ([] : List (Signed β)) := by
  intro n
  fin_cases n <;> exact Double.represents_zero false

/-- One more term keeps the coefficients right. -/
theorem Sums.addTerm {k : Coefficients} {ts : List (Signed β)} {t : Signed β} (h : Sums k ts)
    (hreadable : Readable (Summand.tokens t.body)) {n : Fin 4} (hdegree : degree? t.body = some n)
    (hfinite : t.coefficient.isFinite = true)
    (hsums : ∀ m, Representable (units m (ts ++ [t]))) :
    Sums (k.addTerm (t.text Summand.tokens)) (ts ++ [t]) := by
  intro m
  have hsum := hsums m
  rw [Summand.addTerm_text hreadable hdegree, Coefficients.coefficient_addAt]
  rw [units_append, hdegree] at hsum ⊢
  by_cases hm : n = m
  · subst hm
    rw [if_pos rfl] at hsum ⊢
    rw [if_pos rfl]
    exact (h n).add ⟨hfinite, rfl⟩ hsum
  · rw [if_neg hm, if_neg (by simpa using hm), add_zero]
    exact h m

/-- The coefficients of a sum grow term by term. -/
theorem Sums.foldl {k : Coefficients} {before ts : List (Signed β)} (h : Sums k before)
    (hreadable : ∀ t ∈ ts, Readable (Summand.tokens t.body))
    (hdegrees : ∀ t ∈ ts, (degree? t.body).isSome = true)
    (hfinite : ∀ t ∈ ts, t.coefficient.isFinite = true)
    (hsums : ∀ n us, us <+: before ++ ts → Representable (units n us)) :
    Sums ((ts.map (Signed.text Summand.tokens)).foldl Coefficients.addTerm k) (before ++ ts) := by
  induction ts generalizing before k with
  | nil =>
    rw [List.append_nil]
    exact h
  | cons t ts ih =>
    have happend : before ++ t :: ts = before ++ [t] ++ ts := by simp
    obtain ⟨n, hn⟩ := Option.isSome_iff_exists.mp (hdegrees t List.mem_cons_self)
    have hnext := h.addTerm (hreadable t List.mem_cons_self) hn (hfinite t List.mem_cons_self)
      fun m => hsums m _ ⟨ts, happend.symm⟩
    rw [happend] at hsums ⊢
    exact ih hnext (fun u hu => hreadable u (List.mem_cons_of_mem _ hu))
      (fun u hu => hdegrees u (List.mem_cons_of_mem _ hu))
      (fun u hu => hfinite u (List.mem_cons_of_mem _ hu)) hsums

/-- **The coefficients of a side**, if nothing is rounded on the way. -/
theorem read_represents {sum : SignedSum β} {s : List Char}
    (hs : Token.ofChars s = .ok (sum.tokens Summand.tokens))
    (hdegrees : ∀ t ∈ sum.terms, (degree? t.body).isSome = true) (h : Exact sum) (n : Fin 4) :
    ((Coefficients.read s).coefficient n).Represents (units n sum.terms) := by
  have hreadable := SignedSum.readable hs
  rw [Coefficients.read, SignedSum.termTexts_eq hs fun t ht => Summand.solid (hreadable t ht)]
  exact sums_nil.foldl hreadable hdegrees h.coefficients h.sums n

end SignedSum

end Stepwise
