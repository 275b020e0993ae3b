import Mathlib.Data.List.Basic
import Mathlib.Data.List.Induction

/-!
# Decimal numerals

A string of digits and its value.  A numeral without a leading zero is the one
its value is written as.
-/

set_option autoImplicit false

namespace Agentsfleet.Library.Numeral

def value (digit : Char) : Nat := digit.toNat - '0'.toNat

theorem digitChar_value {digit : Char} (isDigit : digit.isDigit = true) :
    value digit < 10 ∧ (value digit).digitChar = digit := by
  rw [Char.isDigit, Bool.and_eq_true, decide_eq_true_eq, decide_eq_true_eq] at isDigit
  have low : 48 ≤ digit.toNat := isDigit.1
  have high : digit.toNat ≤ 57 := isDigit.2
  have zero : '0'.toNat = 48 := rfl
  have small : value digit < 10 := by
    rw [value]
    omega
  refine ⟨small, Char.toNat_inj.mp ?_⟩
  rw [Nat.toNat_digitChar_of_lt_ten small, value]
  omega

theorem ofDigitChars_concat (front : List Char) (digit : Char) (start : Nat) :
    Nat.ofDigitChars 10 (front ++ [digit]) start =
      10 * Nat.ofDigitChars 10 front start + value digit := by
  rw [Nat.ofDigitChars_eq_foldl, List.foldl_append]
  rfl

theorem le_ofDigitChars (digits : List Char) (start : Nat) :
    start ≤ Nat.ofDigitChars 10 digits start := by
  induction digits generalizing start with
  | nil => exact Nat.le_of_eq Nat.ofDigitChars_nil.symm
  | cons digit rest ih =>
      rw [Nat.ofDigitChars_cons]
      exact Nat.le_trans (by omega) (ih _)

/-- A numeral without a leading zero is what its value is written as. -/
theorem toDigits_ofDigitChars {digits : List Char}
    (all : ∀ digit ∈ digits, digit.isDigit = true) (some_digit : digits ≠ [])
    (canonical : digits.head? ≠ some '0' ∨ digits.length = 1) :
    Nat.toDigits 10 (Nat.ofDigitChars 10 digits 0) = digits := by
  induction digits using List.reverseRecOn with
  | nil => exact absurd rfl some_digit
  | append_singleton front digit ih =>
      obtain ⟨small, same⟩ := digitChar_value (all digit (List.mem_append_right _ (by simp)))
      rw [ofDigitChars_concat]
      by_cases empty : front = []
      · rw [empty, List.nil_append, Nat.ofDigitChars_nil, Nat.mul_zero, Nat.zero_add,
          Nat.toDigits_of_lt_base small, same]
      · have leads : front.head? ≠ some '0' := by
          rcases canonical with leads | only
          · rwa [List.head?_append_of_ne_nil _ empty] at leads
          · have long := List.length_pos_iff.mpr empty
            rw [List.length_append, List.length_singleton] at only
            omega
        have before := ih (fun digit member => all digit (List.mem_append_left _ member)) empty
          (.inl leads)
        have positive : 0 < Nat.ofDigitChars 10 front 0 := by
          refine Nat.pos_of_ne_zero fun zero => leads ?_
          rw [zero, Nat.toDigits_zero] at before
          rw [← before]
          rfl
        rw [← Nat.toDigits_append_toDigits (by decide) positive small, before,
          Nat.toDigits_of_lt_base small, same]

/-- What a number is written as, no leading zero but zero's own. -/
theorem head?_toDigits (n : Nat) :
    (Nat.toDigits 10 n).head? ≠ some '0' ∨ Nat.toDigits 10 n = ['0'] := by
  induction n using Nat.strongRecOn with
  | _ n ih =>
      by_cases small : n < 10
      · by_cases zero : n = 0
        · subst zero
          exact .inr (Nat.toDigits_zero 10)
        · left
          rw [Nat.toDigits_of_lt_base small, List.head?_cons]
          intro same
          have code := congrArg Char.toNat (Option.some.inj same)
          rw [Nat.toNat_digitChar_of_lt_ten small] at code
          have other : '0'.toNat = 48 := rfl
          omega
      · left
        rw [Nat.toDigits_of_base_le (by decide) (Nat.not_lt.mp small),
          List.head?_append_of_ne_nil _ Nat.toDigits_ne_nil]
        rcases ih (n / 10) (by omega) with other | zero
        · exact other
        · have back := congrArg (Nat.ofDigitChars 10 · 0) zero
          rw [Nat.ofDigitChars_toDigits (by decide) (by decide)] at back
          have none_ : Nat.ofDigitChars 10 ['0'] 0 = 0 := rfl
          omega

end Agentsfleet.Library.Numeral
