import Mathlib.Data.List.Basic

/-!
# Rows of a list

A list split on a separator, and the same list as the rows before some point,
each with its separator, and what stands after them.
-/

set_option autoImplicit false

namespace Agentsfleet.Library.Rows

variable {α : Type} {sep : α}

def ended (sep : α) (rows : List (List α)) : List α := rows.flatMap (· ++ [sep])

theorem ended_cons (row : List α) (rest : List (List α)) :
    ended sep (row :: rest) = row ++ sep :: ended sep rest := by
  rw [ended, List.flatMap_cons, List.append_assoc]
  rfl

theorem intercalate_append {front back : List (List α)} (some_back : back ≠ []) :
    [sep].intercalate (front ++ back) = ended sep front ++ [sep].intercalate back := by
  induction front with
  | nil => rfl
  | cons row rest ih =>
      have some_rest : rest ++ back ≠ [] := List.append_ne_nil_of_right_ne_nil rest some_back
      rw [List.cons_append, List.intercalate_cons_of_ne_nil some_rest, ih, ended_cons]
      simp only [List.append_assoc, List.cons_append, List.nil_append]

theorem ended_eq {rows : List (List α)} (some_row : rows ≠ []) :
    ended sep rows = [sep].intercalate rows ++ [sep] := by
  induction rows with
  | nil => exact absurd rfl some_row
  | cons row rest ih =>
      rw [ended_cons]
      by_cases last : rest = []
      · rw [last, List.intercalate_singleton]
        rfl
      · rw [ih last, List.intercalate_cons_of_ne_nil last]
        simp only [List.append_assoc, List.cons_append, List.nil_append]

variable [BEq α]

theorem length_splitOn (text : List α) : (text.splitOn sep).length = text.count sep + 1 := by
  induction text with
  | nil => rfl
  | cons c rest ih =>
      rw [List.splitOn_cons_eq_if_modifyHead, List.count_cons]
      split
      · rw [List.length_cons, ih]
      · rw [List.length_modifyHead, ih, Nat.add_zero]

variable [LawfulBEq α]

theorem splitOn_around {text : List α} {row : Nat} (inside : row < (text.splitOn sep).length) :
    text = ended sep ((text.splitOn sep).take row) ++
      [sep].intercalate ((text.splitOn sep).drop row) := by
  have some_left : (text.splitOn sep).drop row ≠ [] := by
    rw [ne_eq, List.drop_eq_nil_iff, Nat.not_le]
    exact inside
  rw [← intercalate_append some_left, List.take_append_drop, List.intercalate_splitOn]

end Agentsfleet.Library.Rows
