import Mathlib.Order.Defs.LinearOrder
import Mathlib.Order.Basic
import Mathlib.Order.Lattice
import Mathlib.Data.List.Basic

/-!
# Cutting an ascending list

An ascending list cut below a floor: what stays is a tail of it, and what goes is
counted by the elements under the floor.
-/

set_option autoImplicit false

namespace Agentsfleet.Library

variable {α : Type} [LinearOrder α]

def Ascending (l : List α) : Prop := l.Pairwise (· < ·)

/-- How many elements lie under `floor`. -/
def under (floor : α) (l : List α) : Nat := l.countP (· < floor)

/-- What a cut at `floor` leaves. -/
def cut (floor : α) (l : List α) : List α := l.filter (floor ≤ ·)

theorem Ascending.concat {l : List α} {last : α} (ascending : Ascending l)
    (above : ∀ a ∈ l, a < last) : Ascending (l ++ [last]) := by
  refine List.pairwise_append.mpr ⟨ascending, List.pairwise_singleton _ _, ?_⟩
  intro a member b single
  rw [List.mem_singleton.mp single]
  exact above a member

theorem Ascending.cut {l : List α} (ascending : Ascending l) (floor : α) :
    Ascending (cut floor l) :=
  List.Pairwise.sublist List.filter_sublist ascending

theorem mem_cut {floor a : α} {l : List α} : a ∈ cut floor l ↔ a ∈ l ∧ floor ≤ a := by
  rw [cut, List.mem_filter, decide_eq_true_iff]

theorem under_append (floor : α) (first second : List α) :
    under floor (first ++ second) = under floor first + under floor second :=
  List.countP_append

theorem under_eq_zero {floor : α} {l : List α} (above : ∀ a ∈ l, floor ≤ a) :
    under floor l = 0 := by
  refine List.countP_eq_zero.mpr fun a member => ?_
  rw [decide_eq_true_iff]
  exact not_lt.mpr (above a member)

/-- A cut takes away as many of the first elements as lie under its floor. -/
theorem cut_eq_drop {l : List α} (ascending : Ascending l) (floor : α) :
    cut floor l = l.drop (under floor l) := by
  induction l with
  | nil => rfl
  | cons first rest ih =>
      obtain ⟨above, ascends⟩ := List.pairwise_cons.mp ascending
      by_cases low : first < floor
      · have skipped : cut floor (first :: rest) = cut floor rest := by
          rw [cut, List.filter_cons_of_neg (by simpa using low), cut]
        have counted : under floor (first :: rest) = under floor rest + 1 := by
          rw [under, List.countP_cons_of_pos (by simpa using low), under]
        rw [skipped, counted, List.drop_succ_cons]
        exact ih ascends
      · have high : ∀ a ∈ first :: rest, floor ≤ a := by
          intro a member
          rcases List.mem_cons.mp member with rfl | later
          · exact not_lt.mp low
          · exact le_of_lt (lt_of_le_of_lt (not_lt.mp low) (above a later))
        rw [under_eq_zero high, List.drop_zero, cut]
        exact List.filter_eq_self.mpr fun a member => decide_eq_true (high a member)

/-- The highest of `start` and the elements. -/
def peak (start : α) (l : List α) : α := l.foldl max start

theorem start_le_peak (start : α) (l : List α) : start ≤ peak start l := by
  induction l generalizing start with
  | nil => exact le_refl start
  | cons first rest ih => exact le_trans (le_max_left start first) (ih (max start first))

theorem le_peak {start a : α} {l : List α} (member : a ∈ l) : a ≤ peak start l := by
  induction l generalizing start with
  | nil => exact absurd member List.not_mem_nil
  | cons first rest ih =>
      rcases List.mem_cons.mp member with rfl | later
      · exact le_trans (le_max_right start a) (start_le_peak (max start a) rest)
      · exact ih later

theorem peak_le {start bound : α} {l : List α} (low : start ≤ bound) (all : ∀ a ∈ l, a ≤ bound) :
    peak start l ≤ bound := by
  induction l generalizing start with
  | nil => exact low
  | cons first rest ih =>
      exact ih (max_le low (all first List.mem_cons_self))
        fun a member => all a (List.mem_cons_of_mem _ member)

/-- The first elements up to `through`, at most `count` of them. -/
def oldest (through : α) (count : Nat) (l : List α) : List α :=
  (l.filter (· ≤ through)).take count

theorem mem_oldest {through a : α} {count : Nat} {l : List α}
    (member : a ∈ oldest through count l) :
    a ∈ l ∧ a ≤ through := by
  have found := List.mem_of_mem_take member
  rw [List.mem_filter, decide_eq_true_iff] at found
  exact found

theorem under_le_filter {floor through : α} (below : floor ≤ through) (l : List α) :
    under floor l = under floor (l.filter (· ≤ through)) := by
  rw [under, under, List.countP_filter]
  refine List.countP_congr fun a _ => ?_
  rw [decide_eq_true_iff, Bool.and_eq_true, decide_eq_true_iff, decide_eq_true_iff]
  exact ⟨fun low => ⟨low, le_trans (le_of_lt low) below⟩, fun both => both.1⟩

/-- Where the first elements reach their number, all but the last of them lie under
it, and no other element does. -/
theorem under_last {through floor : α} {count : Nat} {l : List α} (ascending : Ascending l)
    (last : (oldest through count l).getLast? = some floor) : under floor l < count := by
  have member : floor ∈ oldest through count l := List.mem_of_getLast? last
  have sorted : Ascending (l.filter (· ≤ through)) :=
    List.Pairwise.sublist List.filter_sublist ascending
  rw [under_le_filter (mem_oldest member).2]
  rw [oldest] at last
  generalize l.filter (· ≤ through) = all at sorted last ⊢
  obtain ⟨before, shape⟩ := List.getLast?_eq_some_iff.mp last
  have whole : all = before ++ ([floor] ++ all.drop count) := by
    rw [← List.append_assoc, ← shape, List.take_append_drop]
  have after : ∀ a ∈ [floor] ++ all.drop count, floor ≤ a := by
    intro a found
    rw [whole] at sorted
    have tail := (List.pairwise_append.mp sorted).2.1
    rcases List.mem_cons.mp found with rfl | later
    · exact le_refl _
    · exact le_of_lt ((List.pairwise_cons.mp tail).1 a later)
  have few : before.length + 1 ≤ count := by
    have taken : (all.take count).length = before.length + 1 := by
      rw [shape, List.length_append, List.length_singleton]
    rw [← taken]
    exact List.length_take_le count all
  have counted : under floor all = under floor before := by
    rw [whole, under_append, under_eq_zero after, Nat.add_zero]
  have bound : under floor before ≤ before.length := List.countP_le_length
  omega

/-- Where they do not, they are all there are up to `through`. -/
theorem under_short {through : α} {count : Nat} {l : List α}
    (short : (oldest through count l).length < count) : under through l < count := by
  rw [oldest, List.length_take] at short
  have all : (l.filter (· ≤ through)).length < count := by omega
  have bound : under through (l.filter (· ≤ through)) ≤ (l.filter (· ≤ through)).length :=
    List.countP_le_length
  rw [under_le_filter (le_refl through)]
  omega

end Agentsfleet.Library
