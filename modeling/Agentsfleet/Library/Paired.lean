import Mathlib.Data.List.Forall2

/-!
# Lists paired off

Two lists related one for one: what of one list the other has at the same place.
-/

set_option autoImplicit false

namespace Agentsfleet.Library.Paired

variable {A B C : Type} {relates : A → B → Prop} {left : List A} {right : List B}

theorem exists_left (paired : List.Forall₂ relates left right) {b : B} (member : b ∈ right) :
    ∃ a ∈ left, relates a b := by
  induction paired with
  | nil => exact absurd member List.not_mem_nil
  | cons first _ ih =>
      rcases List.mem_cons.mp member with rfl | later
      · exact ⟨_, List.mem_cons_self, first⟩
      · obtain ⟨a, inside, related⟩ := ih later
        exact ⟨a, List.mem_cons_of_mem _ inside, related⟩

theorem exists_right (paired : List.Forall₂ relates left right) {a : A} (member : a ∈ left) :
    ∃ b ∈ right, relates a b :=
  exists_left paired.flip member

theorem map_eq {f : A → C} {g : B → C} (agree : ∀ a ∈ left, ∀ b, relates a b → g b = f a)
    (paired : List.Forall₂ relates left right) : right.map g = left.map f := by
  induction paired with
  | nil => rfl
  | cons first _ ih =>
      obtain ⟨here, others⟩ := List.forall_mem_cons.mp agree
      rw [List.map_cons, List.map_cons, here _ first, ih others]

theorem all_right {here : A → Bool} {there : B → Bool}
    (keeps : ∀ a b, relates a b → here a = true → there b = true)
    (paired : List.Forall₂ relates left right) (all : left.all here = true) :
    right.all there = true := by
  rw [List.all_eq_true] at all ⊢
  intro b member
  obtain ⟨a, inside, related⟩ := exists_left paired member
  exact keeps a b related (all a inside)

theorem isEmpty_eq (paired : List.Forall₂ relates left right) : right.isEmpty = left.isEmpty := by
  cases paired with
  | nil => rfl
  | cons first rest => rfl

theorem snoc {a : A} {b : B} (paired : List.Forall₂ relates left right) (last : relates a b) :
    List.Forall₂ relates (left ++ [a]) (right ++ [b]) :=
  List.rel_append paired (.cons last .nil)

theorem replicate {a : A} (all : ∀ b ∈ right, relates a b) :
    List.Forall₂ relates (List.replicate right.length a) right := by
  induction right with
  | nil => exact .nil
  | cons b rest ih =>
      obtain ⟨first, others⟩ := List.forall_mem_cons.mp all
      exact .cons first (ih others)

end Agentsfleet.Library.Paired
