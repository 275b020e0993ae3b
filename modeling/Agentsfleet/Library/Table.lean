import Mathlib.Algebra.GroupWithZero.Nat
import Mathlib.Algebra.Ring.Int.Defs
import Mathlib.Data.List.Nodup
import Mathlib.Data.List.Sort
import Mathlib.Order.Lex

/-!
# Tables

A table as the list of its rows: the statements a ledger is written with
(`UPDATE … WHERE`, `INSERT … ON CONFLICT DO NOTHING`, `SELECT … ORDER BY …
LIMIT`), and what each leaves true of the rows.
-/

set_option autoImplicit false

namespace Agentsfleet.Library.Table

variable {Row Key : Type}

/-! ## Updates -/

/-- `UPDATE` of the rows `here` picks. -/
def update (here : Row → Bool) (change : Row → Row) (rows : List Row) : List Row :=
  rows.map fun row => if here row then change row else row

theorem mem_update {here : Row → Bool} {change : Row → Row} {rows : List Row} {row : Row} :
    row ∈ update here change rows ↔
      ∃ old ∈ rows, row = if here old then change old else old := by
  simp only [update, List.mem_map, eq_comm]

theorem forall_update {here : Row → Bool} {change : Row → Row} {rows : List Row}
    (holds : Row → Prop) (kept : ∀ row, holds row → holds (change row))
    (before : ∀ row ∈ rows, holds row) : ∀ row ∈ update here change rows, holds row := by
  intro row member
  obtain ⟨old, held, rfl⟩ := mem_update.mp member
  split
  · exact kept old (before old held)
  · exact before old held

theorem column_update {Column : Type} (column : Row → Column) (here : Row → Bool)
    (change : Row → Row) (kept : ∀ row, column (change row) = column row) (rows : List Row) :
    (update here change rows).map column = rows.map column := by
  rw [update, List.map_map]
  apply List.map_congr_left
  intro row _
  simp only [Function.comp_apply]
  split
  · exact kept row
  · rfl

theorem filterMap_update {Column : Type} {column : Row → Option Column} {here : Row → Bool}
    {change : Row → Row} (kept : ∀ row, column (change row) = column row) (rows : List Row) :
    (update here change rows).filterMap column = rows.filterMap column := by
  rw [update, List.filterMap_map]
  apply List.filterMap_congr
  intro row _
  simp only [Function.comp_apply]
  split
  · exact kept row
  · rfl

theorem update_none {here : Row → Bool} (change : Row → Row) {rows : List Row}
    (none_here : ∀ row ∈ rows, here row = false) : update here change rows = rows := by
  unfold update
  have same : ∀ row ∈ rows, (if here row then change row else row) = id row := by
    intro row member
    simp [none_here row member]
  rw [List.map_congr_left same, List.map_id]

theorem countP_update_le {matching here : Row → Bool} {change : Row → Row} {rows : List Row}
    (kept : ∀ row ∈ rows, matching (change row) = true → matching row = true) :
    (update here change rows).countP matching ≤ rows.countP matching := by
  rw [update, List.countP_map]
  apply List.countP_mono_left
  intro row member matched
  rw [Function.comp_apply] at matched
  split at matched
  · exact kept row member matched
  · exact matched

theorem sum_update [DecidableEq Key] (key : Row → Key) (measure : Row → Int)
    (change : Row → Row) {rows : List Row} {row : Row} (unique : (rows.map key).Nodup)
    (held : row ∈ rows) :
    ((update (fun other => decide (key other = key row)) change rows).map measure).sum =
      (rows.map measure).sum - measure row + measure (change row) := by
  induction rows with
  | nil => simp at held
  | cons first rest ih =>
      rw [List.map_cons, List.nodup_cons] at unique
      rcases List.mem_cons.mp held with rfl | inside
      · have others : update (fun other => decide (key other = key row)) change rest = rest := by
          apply update_none
          intro other member
          apply decide_eq_false
          intro same
          exact unique.1 (List.mem_map.mpr ⟨other, member, same⟩)
        have split_update :
            update (fun other => decide (key other = key row)) change (row :: rest) =
            change row :: update (fun other => decide (key other = key row)) change rest := by
          simp [update]
        rw [split_update, others, List.map_cons, List.sum_cons, List.map_cons, List.sum_cons]
        omega
      · have apart : key first ≠ key row := by
          intro same
          exact unique.1 (List.mem_map.mpr ⟨row, inside, same.symm⟩)
        have split_update : update (fun other => decide (key other = key row)) change
            (first :: rest) =
              first :: update (fun other => decide (key other = key row)) change rest := by
          simp [update, apart]
        rw [split_update, List.map_cons, List.sum_cons, List.map_cons, List.sum_cons,
          ih unique.2 inside]
        omega

/-! ## Inserts -/

/-- `INSERT … ON CONFLICT (key) DO NOTHING`: whether the row was written, and the
table after. -/
def insertNew [DecidableEq Key] (key : Row → Key) (row : Row) (rows : List Row) :
    Bool × List Row :=
  if key row ∈ rows.map key then (false, rows) else (true, rows ++ [row])

theorem insertNew_nodup [DecidableEq Key] (key : Row → Key) (row : Row) {rows : List Row}
    (unique : (rows.map key).Nodup) : ((insertNew key row rows).2.map key).Nodup := by
  unfold insertNew
  split
  · exact unique
  · rename_i fresh
    rw [List.map_append, List.map_cons, List.map_nil]
    exact unique.append (List.nodup_singleton _) (by simpa using fresh)

theorem mem_key_insertNew [DecidableEq Key] (key : Row → Key) (row : Row) (rows : List Row) :
    key row ∈ (insertNew key row rows).2.map key := by
  unfold insertNew
  split
  · assumption
  · simp

theorem mem_insertNew [DecidableEq Key] {key : Row → Key} {row other : Row} {rows : List Row}
    (member : other ∈ (insertNew key row rows).2) :
    other ∈ rows ∨ other = row ∧ key row ∉ rows.map key := by
  unfold insertNew at member
  split at member
  · exact .inl member
  · rename_i fresh
    rcases List.mem_append.mp member with old | new
    · exact .inl old
    · exact .inr ⟨List.mem_singleton.mp new, fresh⟩

theorem mem_insertNew_of_mem [DecidableEq Key] (key : Row → Key) (row : Row) {other : Row}
    {rows : List Row} (member : other ∈ rows) : other ∈ (insertNew key row rows).2 := by
  unfold insertNew
  split
  · exact member
  · exact List.mem_append_left _ member

def find [DecidableEq Key] (key : Row → Key) (wanted : Key) (rows : List Row) : Option Row :=
  rows.find? fun row => decide (key row = wanted)

/-- `INSERT … ON CONFLICT (key) DO UPDATE`: `merge` makes the row that stays of the
one that stands and the one that came. -/
def upsert [DecidableEq Key] (key : Row → Key) (merge : Row → Row → Row) (row : Row) :
    List Row → List Row
  | [] => [row]
  | old :: rest =>
      if key old = key row then merge old row :: rest else old :: upsert key merge row rest

/-! ## Scans -/

/-- `SELECT … WHERE … ORDER BY … LIMIT …`. -/
def select [LinearOrder Key] (matching : Row → Bool) (key : Row → Key) (limit : Nat)
    (rows : List Row) : List Row :=
  ((rows.filter matching).mergeSort fun left right => decide (key left ≤ key right)).take limit

section Scans

variable [LinearOrder Key] {matching : Row → Bool} {key : Row → Key} {limit : Nat}
  {rows : List Row} {row : Row}

theorem mem_of_mem_select (member : row ∈ select matching key limit rows) :
    row ∈ rows ∧ matching row = true := by
  have sorted := List.mem_of_mem_take member
  rw [List.mem_mergeSort] at sorted
  exact List.mem_filter.mp sorted

theorem mem_select_or_full (held : row ∈ rows) (matched : matching row = true) :
    row ∈ select matching key limit rows ∨
      (select matching key limit rows).length = limit ∧
        ∀ first ∈ select matching key limit rows, key first ≤ key row := by
  have sorted : ((rows.filter matching).mergeSort
      fun left right => decide (key left ≤ key right)).Pairwise
        fun left right => decide (key left ≤ key right) = true := by
    apply List.pairwise_mergeSort
    · intro a b c first second
      simp only [decide_eq_true_eq] at first second ⊢
      exact le_trans first second
    · intro a b
      simpa using le_total (key a) (key b)
  have scanned : row ∈ (rows.filter matching).mergeSort
      fun left right => decide (key left ≤ key right) := by
    rw [List.mem_mergeSort]
    exact List.mem_filter.mpr ⟨held, matched⟩
  rw [← List.take_append_drop limit ((rows.filter matching).mergeSort _)] at scanned sorted
  rcases List.mem_append.mp scanned with early | late
  · exact .inl early
  · refine .inr ⟨?_, ?_⟩
    · have longer : limit < ((rows.filter matching).mergeSort
          fun left right => decide (key left ≤ key right)).length := by
        by_contra short
        rw [List.drop_eq_nil_of_le (by omega)] at late
        simp at late
      rw [select, List.length_take, Nat.min_eq_left (Nat.le_of_lt longer)]
    · intro first taken
      have before := (List.pairwise_append.mp sorted).2.2 first taken row late
      simpa using before

end Scans

/-! ## Slots -/

def weight (measure : Row → Nat) (slots : List Row) : Nat := (slots.map measure).sum

section Slots

variable (measure : Row → Nat) {slots : List Row} {slot : Nat} {held : Row}

@[simp] theorem weight_append (front back : List Row) :
    weight measure (front ++ back) = weight measure front + weight measure back := by
  simp [weight]

@[simp] theorem weight_singleton (row : Row) : weight measure [row] = measure row := by
  simp [weight]

theorem weight_replicate (row : Row) (count : Nat) :
    weight measure (List.replicate count row) = count * measure row := by
  simp [weight]

theorem weight_eq_zero (empty : ∀ row ∈ slots, measure row = 0) : weight measure slots = 0 := by
  induction slots with
  | nil => rfl
  | cons first rest ih =>
      obtain ⟨here, others⟩ := List.forall_mem_cons.mp empty
      have left := ih others
      simp only [weight, List.map_cons, List.sum_cons] at left ⊢
      omega

theorem weight_le {more : Row → Nat} (below : ∀ row ∈ slots, measure row ≤ more row) :
    weight measure slots ≤ weight more slots := by
  induction slots with
  | nil => exact Nat.le_refl _
  | cons first rest ih =>
      obtain ⟨here, others⟩ := List.forall_mem_cons.mp below
      have left := ih others
      simp only [weight, List.map_cons, List.sum_cons] at left ⊢
      omega

omit measure in
theorem set_found (found : slots[slot]? = some held) : slots.set slot held = slots := by
  obtain ⟨inside, rfl⟩ := List.getElem?_eq_some_iff.mp found
  exact List.set_getElem_self inside

theorem weight_set (found : slots[slot]? = some held) (next : Row) :
    weight measure (slots.set slot next) + measure held = weight measure slots + measure next := by
  induction slots generalizing slot with
  | nil => simp at found
  | cons first rest ih =>
      cases slot with
      | zero =>
          rw [List.getElem?_cons_zero, Option.some.injEq] at found
          simp only [weight, List.set_cons_zero, List.map_cons, List.sum_cons, found]
          omega
      | succ slot =>
          rw [List.getElem?_cons_succ] at found
          have others := ih found
          simp only [weight, List.set_cons_succ, List.map_cons, List.sum_cons] at others ⊢
          omega

theorem weight_eraseIdx (found : slots[slot]? = some held) :
    weight measure (slots.eraseIdx slot) + measure held = weight measure slots := by
  induction slots generalizing slot with
  | nil => simp at found
  | cons first rest ih =>
      cases slot with
      | zero =>
          rw [List.getElem?_cons_zero, Option.some.injEq] at found
          simp only [weight, List.eraseIdx_cons_zero, List.map_cons, List.sum_cons, found]
          omega
      | succ slot =>
          rw [List.getElem?_cons_succ] at found
          have others := ih found
          simp only [weight, List.eraseIdx_cons_succ, List.map_cons, List.sum_cons] at others ⊢
          omega

end Slots

/-! ## Upserts -/

section Upserts

variable [DecidableEq Key] {key : Row → Key} {merge : Row → Row → Row} {rows : List Row}

theorem find_cons (wanted : Key) (row : Row) (rows : List Row) :
    find key wanted (row :: rows) =
      if key row = wanted then some row else find key wanted rows := by
  rw [find, find, List.find?_cons]
  by_cases same : key row = wanted
  · rw [if_pos same, decide_eq_true same]
  · rw [if_neg same, decide_eq_false same]

theorem mem_of_find {wanted : Key} {row : Row} (found : find key wanted rows = some row) :
    row ∈ rows ∧ key row = wanted := by
  rw [find] at found
  have same := List.find?_some found
  exact ⟨List.mem_of_find?_eq_some found, of_decide_eq_true same⟩

theorem find_of_mem (unique : (rows.map key).Nodup) {row : Row} (member : row ∈ rows) :
    find key (key row) rows = some row := by
  induction rows with
  | nil => nomatch member
  | cons first rest ih =>
      rw [List.map_cons, List.nodup_cons] at unique
      rw [find_cons]
      rcases List.mem_cons.mp member with rfl | inside
      · rw [if_pos rfl]
      · have apart : key first ≠ key row :=
          fun same => unique.1 (same ▸ List.mem_map_of_mem inside)
        rw [if_neg apart, ih unique.2 inside]

theorem find_upsert (kept : ∀ old row, key (merge old row) = key old) (row : Row) (wanted : Key) :
    find key wanted (upsert key merge row rows) =
      if wanted = key row then some ((find key wanted rows).elim row fun old => merge old row)
      else find key wanted rows := by
  induction rows with
  | nil =>
      rw [upsert, find_cons]
      by_cases same : wanted = key row
      · rw [if_pos same, if_pos same.symm]
        rfl
      · rw [if_neg same, if_neg (Ne.symm same)]
  | cons first rest ih =>
      rw [upsert]
      by_cases here : key first = key row
      · rw [if_pos here, find_cons, find_cons, kept]
        by_cases same : wanted = key row
        · rw [if_pos same, if_pos (here.trans same.symm), if_pos (here.trans same.symm)]
          rfl
        · have apart : key first ≠ wanted := fun other => same (other.symm.trans here)
          rw [if_neg same, if_neg apart, if_neg apart]
      · rw [if_neg here, find_cons, find_cons, ih]
        by_cases same : wanted = key row
        · have apart : key first ≠ wanted := fun other => here (other.trans same)
          rw [if_pos same, if_neg apart, if_neg apart, if_pos same]
        · rw [if_neg same, if_neg same]

theorem forall_upsert {good : Row → Prop} {row : Row} (new : good row)
    (merged : ∀ old, key old = key row → good old → good (merge old row))
    (all : ∀ old ∈ rows, good old) :
    ∀ other ∈ upsert key merge row rows, good other := by
  induction rows with
  | nil =>
      intro other member
      exact List.mem_singleton.mp member ▸ new
  | cons first rest ih =>
      obtain ⟨here, others⟩ := List.forall_mem_cons.mp all
      rw [upsert]
      split
      next same => exact List.forall_mem_cons.mpr ⟨merged first same here, others⟩
      next => exact List.forall_mem_cons.mpr ⟨here, ih others⟩

theorem upsert_nodup (kept : ∀ old row, key (merge old row) = key old) (row : Row)
    (unique : (rows.map key).Nodup) : ((upsert key merge row rows).map key).Nodup := by
  induction rows with
  | nil => exact List.nodup_singleton _
  | cons first rest ih =>
      rw [List.map_cons, List.nodup_cons] at unique
      rw [upsert]
      split
      · rw [List.map_cons, kept, List.nodup_cons]
        exact unique
      next apart =>
        rw [List.map_cons, List.nodup_cons]
        refine ⟨fun member => ?_, ih unique.2⟩
        obtain ⟨other, inside, same⟩ := List.mem_map.mp member
        have elsewhere : ∀ old ∈ rest, key old ≠ key first :=
          fun old held again => unique.1 (again ▸ List.mem_map_of_mem held)
        have still : ∀ old, key old = key row → key old ≠ key first →
            key (merge old row) ≠ key first :=
          fun old _ held => (kept old row).symm ▸ held
        have new : key row ≠ key first := Ne.symm apart
        have every : ∀ old ∈ upsert key merge row rest, key old ≠ key first :=
          forall_upsert new still elsewhere
        exact every other inside same

theorem le_weight_of_mem (measure : Row → Nat) {row : Row} (member : row ∈ rows) :
    measure row ≤ weight measure rows := by
  induction rows with
  | nil => nomatch member
  | cons first rest ih =>
      rw [weight, List.map_cons, List.sum_cons]
      rcases List.mem_cons.mp member with rfl | inside
      · exact Nat.le_add_right _ _
      · exact Nat.le_add_left_of_le (ih inside)

theorem weight_sublist_le (measure : Row → Nat) {fewer : List Row} (sub : fewer.Sublist rows) :
    weight measure fewer ≤ weight measure rows := by
  induction sub with
  | slnil => exact Nat.le_refl _
  | cons row _ ih =>
      rw [weight, weight, List.map_cons, List.sum_cons]
      exact Nat.le_add_left_of_le ih
  | cons_cons row _ ih =>
      rw [weight, weight, List.map_cons, List.map_cons, List.sum_cons, List.sum_cons]
      exact Nat.add_le_add_left ih _

theorem weight_upsert (measure : Row → Nat) {row : Row}
    (merged : ∀ old, key old = key row → measure (merge old row) = measure row) :
    weight measure (upsert key merge row rows) + (find key (key row) rows).elim 0 measure =
      weight measure rows + measure row := by
  induction rows with
  | nil => exact Nat.add_comm _ _
  | cons first rest ih =>
      rw [upsert, find_cons]
      by_cases here : key first = key row
      · rw [if_pos here, if_pos here]
        simp only [weight, List.map_cons, List.sum_cons, merged first here, Option.elim_some]
        omega
      · rw [if_neg here, if_neg here]
        simp only [weight, List.map_cons, List.sum_cons] at ih ⊢
        omega

end Upserts

end Agentsfleet.Library.Table
