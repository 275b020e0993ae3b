import Mathlib.Algebra.Ring.Int.Defs

/-!
# Bounds

The limits a count is held to and the sums a counter refuses, kept folded so
that no proof computes with a limit.
-/

set_option autoImplicit false

namespace Agentsfleet.Core

@[irreducible]
def exceeds (limit count : Nat) : Bool := decide (limit < count)

theorem exceeds_iff {limit count : Nat} : exceeds limit count = true ↔ limit < count := by
  unfold exceeds
  exact decide_eq_true_iff

theorem exceeds_eq_false_iff {limit count : Nat} : exceeds limit count = false ↔ count ≤ limit := by
  rw [← Bool.not_eq_true, exceeds_iff, Nat.not_lt]

/-- `u64::checked_add`. -/
@[irreducible]
def checkedAdd (left right : UInt64) : Option UInt64 :=
  if left.toNat + right.toNat < UInt64.size then some (left + right) else none

/-- Whether a value fits an `i64`, a `bigint` of the database. -/
@[irreducible]
def inI64 (value : Int) : Bool := decide (-(2 ^ 63) ≤ value ∧ value < 2 ^ 63)

theorem inI64_zero : inI64 0 = true := by
  unfold inI64
  decide

/-- Whether a value fits an `i128`. -/
@[irreducible]
def inI128 (value : Int) : Bool := decide (-(2 ^ 127) ≤ value ∧ value < 2 ^ 127)

theorem inI128_of_abs {value : Int} (low : -(2 ^ 127) ≤ value) (high : value < 2 ^ 127) :
    inI128 value = true := by
  unfold inI128
  exact decide_eq_true ⟨low, high⟩

theorem inI64_iff {value : Int} : inI64 value = true ↔ -(2 ^ 63) ≤ value ∧ value < 2 ^ 63 := by
  unfold inI64
  exact decide_eq_true_iff

/-- `try_fold(0, i64::checked_add)`. -/
def checkedSum : Int → List Int → Option Int
  | sum, [] => some sum
  | sum, value :: rest => if inI64 (sum + value) then checkedSum (sum + value) rest else none

theorem checkedSum_eq {values : List Int} {start sum : Int}
    (summed : checkedSum start values = some sum) : sum = start + values.sum := by
  induction values generalizing start with
  | nil =>
      simp only [checkedSum, Option.some.injEq] at summed
      simp [summed]
  | cons value rest ih =>
      unfold checkedSum at summed
      by_cases fits : inI64 (start + value) = true
      · rw [if_pos fits] at summed
        rw [ih summed, List.sum_cons]
        omega
      · rw [if_neg fits] at summed
        exact nomatch summed

theorem bind_eq_ok {Error A B : Type} {first : Except Error A} {next : A → Except Error B}
    {answer : B} :
    (first >>= next) = .ok answer ↔ ∃ middle, first = .ok middle ∧ next middle = .ok answer := by
  cases first with
  | error refused => simp [bind, Except.bind]
  | ok middle => simp [bind, Except.bind]

theorem bind_eq_error {Error A B : Type} {first : Except Error A} {next : A → Except Error B}
    {refused : Error} :
    (first >>= next) = .error refused ↔
      first = .error refused ∨ ∃ middle, first = .ok middle ∧ next middle = .error refused := by
  cases first with
  | error other => simp [bind, Except.bind]
  | ok middle => simp [bind, Except.bind]

end Agentsfleet.Core
