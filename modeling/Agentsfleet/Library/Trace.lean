import Agentsfleet.Library.Run
import Mathlib.Data.List.Basic

/-!
# What a run did, step by step

A run of a step function as the list of its steps, each with the states around
it, and how an earlier step of the list bears on a later one.  One step stands
before another when the two are a sublist of the run, in that order.
-/

set_option autoImplicit false

namespace Agentsfleet.Library.Run

variable {S E : Type}

structure Taken (S E : Type) where
  before : S
  event : E
  after : S

def taken (step : S → E → S) : S → List E → List (Taken S E)
  | _, [] => []
  | state, event :: rest =>
      ⟨state, event, step state event⟩ :: taken step (step state event) rest

/-- One step of `history` comes before another. -/
def Earlier (history : List (Taken S E)) (first second : Taken S E) : Prop :=
  [first, second].Sublist history

theorem Earlier.mem {history : List (Taken S E)} {first second : Taken S E}
    (order : Earlier history first second) : first ∈ history ∧ second ∈ history :=
  ⟨order.subset List.mem_cons_self,
    order.subset (List.mem_cons_of_mem _ List.mem_cons_self)⟩

theorem earlier_cons {history : List (Taken S E)} {first second head : Taken S E} :
    Earlier (head :: history) first second ↔
      Earlier history first second ∨ first = head ∧ second ∈ history := by
  constructor
  · intro order
    cases order with
    | cons _ later => exact Or.inl later
    | cons_cons _ later => exact Or.inr ⟨rfl, List.singleton_sublist.mp later⟩
  · rintro (later | ⟨rfl, member⟩)
    · exact List.Sublist.cons _ later
    · exact List.Sublist.cons_cons _ (List.singleton_sublist.mpr member)

/-- What a step under `ok` does, every step of a run that meets `ok` does. -/
theorem taken_of_meets {step : S → E → S} {ok : S → E → Prop} {inv : S → Prop}
    {P : Taken S E → Prop}
    (keeps : ∀ state event, inv state → ok state event → inv (step state event))
    (does : ∀ state event, inv state → ok state event → P ⟨state, event, step state event⟩)
    {state : S} (start : inv state) {events : List E} (met : Meets step ok state events) :
    ∀ t ∈ taken step state events, P t := by
  induction events generalizing state with
  | nil => exact fun t member => absurd member List.not_mem_nil
  | cons event rest ih =>
      rw [taken, List.forall_mem_cons]
      exact ⟨does state event start met.1, ih (keeps state event start met.1) met.2⟩

section Invariant

variable {step : S → E → S} {inv : S → Prop}
  (keeps : ∀ state event, inv state → inv (step state event))

include keeps

theorem taken_step {state : S} (start : inv state) {events : List E} :
    ∀ t ∈ taken step state events, inv t.before ∧ t.after = step t.before t.event := by
  induction events generalizing state with
  | nil => exact fun t member => absurd member List.not_mem_nil
  | cons event rest ih =>
      intro t member
      rw [taken, List.mem_cons] at member
      rcases member with rfl | member
      · exact ⟨start, rfl⟩
      · exact ih (keeps state event start) t member

/-- What a step does exactly when it meets `ok`, every step of a run does exactly when
the run does. -/
theorem taken_iff_meets {P : Taken S E → Prop} {ok : S → E → Prop}
    (exact_step : ∀ state event, inv state → (P ⟨state, event, step state event⟩ ↔ ok state event))
    {state : S} (start : inv state) (events : List E) :
    (∀ t ∈ taken step state events, P t) ↔ Meets step ok state events := by
  induction events generalizing state with
  | nil => exact ⟨fun _ => trivial, fun _ t member => absurd member List.not_mem_nil⟩
  | cons event rest ih =>
      rw [taken, List.forall_mem_cons, exact_step state event start, Meets,
        ih (keeps state event start)]

section Order

variable {R : S → S → Prop} (refl : ∀ state, R state state)
  (trans : ∀ {first second third}, R first second → R second third → R first third)
  (grows : ∀ state event, inv state → R state (step state event))

include refl trans grows

theorem taken_from_start {state : S} (start : inv state) {events : List E} :
    ∀ t ∈ taken step state events, R state t.before := by
  induction events generalizing state with
  | nil => exact fun t member => absurd member List.not_mem_nil
  | cons event rest ih =>
      intro t member
      rw [taken, List.mem_cons] at member
      rcases member with rfl | member
      · exact refl state
      · exact trans (grows state event start) (ih (keeps state event start) t member)

theorem taken_between {state : S} (start : inv state) {events : List E} {first second : Taken S E}
    (order : Earlier (taken step state events) first second) :
    R first.after second.before := by
  induction events generalizing state with
  | nil => cases order
  | cons event rest ih =>
      rw [taken, earlier_cons] at order
      rcases order with later | ⟨rfl, member⟩
      · exact ih (keeps state event start) later
      · exact taken_from_start keeps refl trans grows (keeps state event start) second member

end Order

theorem brought {P : S → Prop} {Q : Taken S E → Prop}
    (causes : ∀ state event, inv state → ¬ P state → P (step state event) →
      Q ⟨state, event, step state event⟩)
    {state : S} (start : inv state) (absent : ¬ P state) {events : List E} {second : Taken S E}
    (member : second ∈ taken step state events) (there_ : P second.before) :
    ∃ first, Earlier (taken step state events) first second ∧ Q first := by
  induction events generalizing state with
  | nil => exact absurd member List.not_mem_nil
  | cons event rest ih =>
      rw [taken, List.mem_cons] at member
      rcases member with rfl | member
      · exact absurd there_ absent
      · by_cases brings : P (step state event)
        · exact ⟨_, earlier_cons.mpr (Or.inr ⟨rfl, member⟩),
            causes state event start absent brings⟩
        · obtain ⟨first, order, caused⟩ := ih (keeps state event start) brings member
          exact ⟨first, earlier_cons.mpr (Or.inl order), caused⟩

theorem counted {holds : Nat → S → Prop} {Q : Taken S E → Bool}
    (counts : ∀ count state event, inv state → holds count state →
      holds (count + (Q ⟨state, event, step state event⟩).toNat) (step state event))
    {count : Nat} {state : S} (start : inv state) (held : holds count state) {events : List E}
    {done rest : List (Taken S E)} {t : Taken S E}
    (split : taken step state events = done ++ t :: rest) :
    holds (count + done.countP Q) t.before := by
  induction events generalizing state done count with
  | nil => exact absurd split (by simp [taken])
  | cons event later ih =>
      rw [taken] at split
      cases done with
      | nil =>
          rw [List.nil_append, List.cons.injEq] at split
          rw [← split.1]
          exact held
      | cons first done =>
          rw [List.cons_append, List.cons.injEq] at split
          have next := ih (keeps state event start) (counts count state event start held) split.2
          have counted_ : count + (done.countP Q + (if Q first = true then 1 else 0))
              = count + (Q ⟨state, event, step state event⟩).toNat + done.countP Q := by
            rw [← split.1]
            cases Q ⟨state, event, step state event⟩ with
            | false => simp
            | true => simp only [if_true, Bool.toNat_true]; omega
          rw [List.countP_cons, counted_]
          exact next

end Invariant

end Agentsfleet.Library.Run
