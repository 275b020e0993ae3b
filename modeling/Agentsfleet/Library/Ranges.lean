import Mathlib.Order.Defs.LinearOrder
import Mathlib.Order.Basic
import Mathlib.Order.MinMax
import Mathlib.Data.List.Basic

/-!
# Unions of half-open ranges

Ranges kept on a stack, the last at the top.  One that stops no earlier than those on the
stack takes in the ranges it reaches, so the stack stays apart and in order while what it
covers is the union of all that was pushed.
-/

set_option autoImplicit false

namespace Agentsfleet.Library

/-- From `start` up to but not with `stop`. -/
structure Range (α : Type) where
  start : α
  stop : α
deriving DecidableEq, Repr

namespace Range

variable {α : Type} [LinearOrder α]

def Holds (range : Range α) (place : α) : Prop := range.start ≤ place ∧ place < range.stop

def Covers (ranges : List (Range α)) (place : α) : Prop :=
  ∃ range ∈ ranges, range.Holds place

structure Stacked (ranges : List (Range α)) : Prop where
  apart : ranges.Pairwise fun later earlier => earlier.stop ≤ later.start
  forward : ∀ range ∈ ranges, range.start ≤ range.stop

/-- The ranges a range from `start` reaches are popped, and it starts where the first of
them does. -/
def absorb (start : α) : List (Range α) → α × List (Range α)
  | [] => (start, [])
  | previous :: under =>
      if start < previous.stop then absorb (min start previous.start) under
      else (start, previous :: under)

def push (ranges : List (Range α)) (range : Range α) : List (Range α) :=
  ⟨(absorb range.start ranges).1, range.stop⟩ :: (absorb range.start ranges).2

theorem covers_cons (range : Range α) (ranges : List (Range α)) (place : α) :
    Covers (range :: ranges) place ↔ range.Holds place ∨ Covers ranges place := by
  simp [Covers]

theorem stacked_nil : Stacked ([] : List (Range α)) := ⟨List.Pairwise.nil, by simp⟩

theorem Stacked.under {range : Range α} {ranges : List (Range α)}
    (stacked : Stacked (range :: ranges)) : Stacked ranges :=
  ⟨(List.pairwise_cons.mp stacked.apart).2,
    fun other member => stacked.forward other (List.mem_cons_of_mem _ member)⟩

theorem absorb_suffix (start : α) (ranges : List (Range α)) :
    (absorb start ranges).2 <:+ ranges := by
  induction ranges generalizing start with
  | nil => exact List.suffix_rfl
  | cons previous under ih =>
      unfold absorb
      split
      · exact List.IsSuffix.trans (ih _) (List.suffix_cons _ _)
      · exact List.suffix_rfl

theorem absorb_le (start : α) (ranges : List (Range α)) : (absorb start ranges).1 ≤ start := by
  induction ranges generalizing start with
  | nil => exact le_refl start
  | cons previous under ih =>
      rw [absorb]
      by_cases reached : start < previous.stop
      · rw [if_pos reached]
        exact le_trans (ih _) (min_le_left _ _)
      · rw [if_neg reached]

theorem absorb_start (start : α) (ranges : List (Range α)) :
    (absorb start ranges).1 = start ∨
      ∃ range ∈ ranges, (absorb start ranges).1 = range.start := by
  induction ranges generalizing start with
  | nil => exact Or.inl rfl
  | cons previous under ih =>
      rw [absorb]
      by_cases reached : start < previous.stop
      · rw [if_pos reached]
        rcases ih (min start previous.start) with here | ⟨range, member, there⟩
        · rcases min_choice start previous.start with first | second
          · exact Or.inl (here.trans first)
          · exact Or.inr ⟨previous, List.mem_cons_self, here.trans second⟩
        · exact Or.inr ⟨range, List.mem_cons_of_mem _ member, there⟩
      · rw [if_neg reached]
        exact Or.inl rfl

theorem absorb_above {ranges : List (Range α)} (stacked : Stacked ranges) (start : α) :
    ∀ range ∈ (absorb start ranges).2, range.stop ≤ (absorb start ranges).1 := by
  induction ranges generalizing start with
  | nil => simp [absorb]
  | cons previous under ih =>
      rw [absorb]
      by_cases reached : start < previous.stop
      · rw [if_pos reached]
        exact ih stacked.under _
      · rw [if_neg reached]
        have top : previous.stop ≤ start := not_lt.mp reached
        intro range member
        rcases List.mem_cons.mp member with same | lower
        · rw [same]
          exact top
        · have below := (List.pairwise_cons.mp stacked.apart).1 range lower
          have within := stacked.forward previous List.mem_cons_self
          exact le_trans below (le_trans within top)

theorem absorb_covers {ranges : List (Range α)} {stop : α}
    (last : ∀ range ∈ ranges, range.stop ≤ stop) (start place : α) :
    (Holds ⟨(absorb start ranges).1, stop⟩ place ∨ Covers (absorb start ranges).2 place) ↔
      Holds ⟨start, stop⟩ place ∨ Covers ranges place := by
  induction ranges generalizing start with
  | nil => simp [absorb]
  | cons previous under ih =>
      rw [absorb]
      by_cases reached : start < previous.stop
      · rw [if_pos reached,
          ih (fun range member => last range (List.mem_cons_of_mem _ member)), covers_cons,
          ← or_assoc]
        apply or_congr_left
        have reach : previous.stop ≤ stop := last previous List.mem_cons_self
        simp only [Holds, min_le_iff]
        constructor
        · rintro ⟨after | after, before⟩
          · exact Or.inl ⟨after, before⟩
          · rcases le_or_gt start place with later | earlier
            · exact Or.inl ⟨later, before⟩
            · exact Or.inr ⟨after, lt_trans earlier reached⟩
        · rintro (⟨after, before⟩ | ⟨after, before⟩)
          · exact ⟨Or.inl after, before⟩
          · exact ⟨Or.inr after, lt_of_lt_of_le before reach⟩
      · rw [if_neg reached]

theorem Stacked.push {ranges : List (Range α)} (stacked : Stacked ranges) {range : Range α}
    (forward : range.start ≤ range.stop) : Stacked (push ranges range) := by
  have fewer := absorb_suffix range.start ranges
  constructor
  · rw [Range.push, List.pairwise_cons]
    exact ⟨absorb_above stacked range.start,
      List.Pairwise.sublist fewer.sublist stacked.apart⟩
  · intro other member
    rcases List.mem_cons.mp member with same | lower
    · rw [same]
      exact le_trans (absorb_le range.start ranges) forward
    · exact stacked.forward other (fewer.subset lower)

theorem push_covers {ranges : List (Range α)} {range : Range α}
    (last : ∀ other ∈ ranges, other.stop ≤ range.stop) (place : α) :
    Covers (push ranges range) place ↔ range.Holds place ∨ Covers ranges place := by
  rw [push, covers_cons]
  exact absorb_covers last range.start place

theorem push_stop_le {ranges : List (Range α)} {range : Range α}
    (last : ∀ other ∈ ranges, other.stop ≤ range.stop) :
    ∀ other ∈ push ranges range, other.stop ≤ range.stop := by
  intro other member
  rcases List.mem_cons.mp member with same | lower
  · rw [same]
  · exact last other ((absorb_suffix range.start ranges).subset lower)

theorem forall_push (begins ends : α → Prop) {ranges : List (Range α)} {range : Range α}
    (held : ∀ other ∈ ranges, begins other.start ∧ ends other.stop)
    (pushed : begins range.start ∧ ends range.stop) :
    ∀ other ∈ push ranges range, begins other.start ∧ ends other.stop := by
  have first : begins (absorb range.start ranges).1 := by
    rcases absorb_start range.start ranges with here | ⟨earlier, listed, there⟩
    · rw [here]
      exact pushed.1
    · rw [there]
      exact (held earlier listed).1
  intro other member
  rcases List.mem_cons.mp member with same | lower
  · rw [same]
    exact ⟨first, pushed.2⟩
  · exact held other ((absorb_suffix range.start ranges).subset lower)

end Range

end Agentsfleet.Library
