import Agentsfleet.Library.Table
import Mathlib.Algebra.BigOperators.Group.List.Basic
import Mathlib.Algebra.Order.BigOperators.Group.List

/-!
# Totals

The sum of a column over the rows a condition picks, and how the statements that write a
table move it: what is appended is added, what is filtered out is taken off, and an update
moves a total by the rows it picks alone.
-/

set_option autoImplicit false

namespace Agentsfleet.Library.Table

variable {Row Key : Type}

/-- `SELECT sum(measure) … WHERE picks`. -/
def total (picks : Row → Bool) (measure : Row → Int) (rows : List Row) : Int :=
  ((rows.filter picks).map measure).sum

theorem total_cons (picks : Row → Bool) (measure : Row → Int) (row : Row) (rest : List Row) :
    total picks measure (row :: rest) =
      (if picks row then measure row else 0) + total picks measure rest := by
  by_cases picked : picks row = true
  · simp [total, picked]
  · simp [total, picked]

@[simp] theorem total_append (picks : Row → Bool) (measure : Row → Int) (front back : List Row) :
    total picks measure (front ++ back) =
      total picks measure front + total picks measure back := by
  simp [total]

theorem total_congr {picks other : Row → Bool} {measure : Row → Int} {rows : List Row}
    (same : ∀ row ∈ rows, picks row = other row) :
    total picks measure rows = total other measure rows := by
  rw [total, total, List.filter_congr same]

theorem total_eq_zero {picks : Row → Bool} (measure : Row → Int) {rows : List Row}
    (none_picked : ∀ row ∈ rows, picks row = false) : total picks measure rows = 0 := by
  rw [total, List.filter_eq_nil_iff.mpr fun row member => by simp [none_picked row member]]
  rfl

theorem total_of_all {picks : Row → Bool} (measure : Row → Int) {rows : List Row}
    (all_picked : ∀ row ∈ rows, picks row = true) :
    total picks measure rows = (rows.map measure).sum := by
  rw [total, List.filter_eq_self.mpr all_picked]

theorem total_nonneg {picks : Row → Bool} {measure : Row → Int} {rows : List Row}
    (each : ∀ row ∈ rows, 0 ≤ measure row) : 0 ≤ total picks measure rows := by
  apply List.sum_nonneg
  intro value member
  obtain ⟨row, inside, rfl⟩ := List.mem_map.mp member
  exact each row (List.mem_of_mem_filter inside)

theorem le_total {picks : Row → Bool} {measure : Row → Int} {rows : List Row} {row : Row}
    (each : ∀ row ∈ rows, 0 ≤ measure row) (member : row ∈ rows) (picked : picks row = true) :
    measure row ≤ total picks measure rows := by
  induction rows with
  | nil => exact absurd member List.not_mem_nil
  | cons first rest ih =>
      obtain ⟨head, others⟩ := List.forall_mem_cons.mp each
      have rest_nonneg : 0 ≤ total picks measure rest := total_nonneg others
      rw [total_cons]
      rcases List.mem_cons.mp member with rfl | inside
      · rw [if_pos picked]
        omega
      · have below := ih others inside
        split <;> omega

theorem total_split (picks : Row → Bool) (measure : Row → Int) (kept : Row → Bool)
    (rows : List Row) :
    total picks measure rows =
      total (fun row => picks row && kept row) measure rows +
        total (fun row => picks row && !kept row) measure rows := by
  induction rows with
  | nil => rfl
  | cons row rest ih =>
      rw [total_cons, total_cons, total_cons, ih]
      cases picks row <;> cases kept row <;> simp <;> omega

theorem total_filter (picks : Row → Bool) (measure : Row → Int) (kept : Row → Bool)
    (rows : List Row) :
    total picks measure (rows.filter kept) = total (fun row => picks row && kept row) measure rows := by
  rw [total, total, List.filter_filter]

theorem total_map {Other : Type} (picks : Other → Bool) (measure : Other → Int) (image : Row → Other)
    (rows : List Row) :
    total picks measure (rows.map image) =
      total (fun row => picks (image row)) (fun row => measure (image row)) rows := by
  rw [total, total, List.filter_map, List.map_map]
  rfl

theorem total_update {picks here : Row → Bool} {measure : Row → Int} {change : Row → Row}
    (kept : ∀ row, measure (change row) = measure row) (rows : List Row) :
    total picks measure (update here change rows) =
      total (fun row => picks (if here row then change row else row)) measure rows := by
  rw [update, total_map]
  congr 1
  funext row
  split
  · exact kept row
  · rfl

theorem total_update_same {picks here : Row → Bool} {measure : Row → Int} {change : Row → Row}
    (kept : ∀ row, measure (change row) = measure row)
    (picked : ∀ row, picks (change row) = picks row) (rows : List Row) :
    total picks measure (update here change rows) = total picks measure rows := by
  rw [total_update kept]
  apply total_congr
  intro row _
  split
  · exact picked row
  · rfl

theorem total_update_moved {picks here : Row → Bool} {measure : Row → Int} {change : Row → Row}
    (kept : ∀ row, measure (change row) = measure row) (rows : List Row) :
    total picks measure (update here change rows) =
      total picks measure rows - total (fun row => here row && picks row) measure rows +
        total (fun row => here row && picks (change row)) measure rows := by
  rw [total_update kept]
  induction rows with
  | nil => rfl
  | cons row rest ih =>
      simp only [total_cons, ih]
      by_cases picked : here row = true
      · simp only [picked, if_true, Bool.true_and]
        omega
      · simp only [picked, Bool.false_eq_true, if_false, Bool.false_and]
        omega

theorem total_and_key [DecidableEq Key] {here : Row → Bool} (measure : Row → Int) {key : Row → Key}
    {value : Key} (one : ∀ row, here row = true → key row = value) (other : Key)
    (rows : List Row) :
    total (fun row => here row && key row == other) measure rows =
      if other = value then total here measure rows else 0 := by
  split
  · rename_i same
    apply total_congr
    intro row _
    by_cases picked : here row = true
    · simp [picked, one row picked, same]
    · simp [picked]
  · rename_i apart
    apply total_eq_zero
    intro row _
    by_cases picked : here row = true
    · simp [picked, one row picked, Ne.symm apart]
    · simp [picked]

theorem sum_le_total [DecidableEq Key] {Entry : Type} (key : Entry → Key) (name : Row → Key)
    {weigh : Entry → Int} {picks : Row → Bool} {measure : Row → Int} {entries : List Entry}
    {rows : List Row} (distinct : (entries.map key).Nodup)
    (each : ∀ row ∈ rows, 0 ≤ measure row)
    (stands : ∀ entry ∈ entries, ∃ row ∈ rows, picks row = true ∧ name row = key entry ∧
      weigh entry ≤ measure row) :
    (entries.map weigh).sum ≤ total picks measure rows := by
  induction entries generalizing rows with
  | nil => exact total_nonneg each
  | cons entry rest ih =>
      rw [List.map_cons, List.nodup_cons] at distinct
      obtain ⟨row, member, picked, named, least⟩ := stands entry List.mem_cons_self
      have others : (rest.map weigh).sum ≤
          total picks measure (rows.filter fun row => decide (name row ≠ key entry)) := by
        apply ih distinct.2 fun row inside => each row (List.mem_of_mem_filter inside)
        intro other inside
        obtain ⟨held, among, pick, same, below⟩ := stands other (List.mem_cons_of_mem _ inside)
        refine ⟨held, List.mem_filter.mpr ⟨among, ?_⟩, pick, same, below⟩
        rw [decide_eq_true_eq, same]
        exact fun alike => distinct.1 (List.mem_map.mpr ⟨other, inside, alike⟩)
      have here : measure row ≤
          total (fun row => picks row && !decide (name row ≠ key entry)) measure rows := by
        apply le_total each member
        rw [picked, named]
        simp
      rw [List.map_cons, List.sum_cons,
        total_split picks measure fun row => decide (name row ≠ key entry), ← total_filter]
      omega

end Agentsfleet.Library.Table
