/-!
# Runs of a step function

A deterministic step function, taken over a list of events, and the one
induction every invariant of a run rests on.  The outcome of whatever the
environment decides is part of the event, so a run is a function of its events.
-/

set_option autoImplicit false

namespace Agentsfleet.Library.Run

variable {S E : Type}

def final (step : S → E → S) : S → List E → S
  | state, [] => state
  | state, event :: rest => final step (step state event) rest

def states (step : S → E → S) : S → List E → List S
  | state, [] => [state]
  | state, event :: rest => state :: states step (step state event) rest

/-- Every event of a run meets `ok` in the state it is taken from. -/
def Meets (step : S → E → S) (ok : S → E → Prop) : S → List E → Prop
  | _, [] => True
  | state, event :: rest => ok state event ∧ Meets step ok (step state event) rest

instance decidableMeets (step : S → E → S) (ok : S → E → Prop)
    [∀ state event, Decidable (ok state event)] :
    ∀ state events, Decidable (Meets step ok state events)
  | _, [] => inferInstanceAs (Decidable True)
  | state, event :: rest =>
      have := decidableMeets step ok (step state event) rest
      inferInstanceAs (Decidable (ok state event ∧ Meets step ok (step state event) rest))

theorem start_mem_states (step : S → E → S) (state : S) (events : List E) :
    state ∈ states step state events := by
  cases events with
  | nil => simp [states]
  | cons event rest => simp [states]

theorem final_mem_states (step : S → E → S) (state : S) (events : List E) :
    final step state events ∈ states step state events := by
  induction events generalizing state with
  | nil => simp [final, states]
  | cons event rest ih =>
      simp only [final, states, List.mem_cons]
      exact Or.inr (ih (step state event))

theorem final_append (step : S → E → S) (state : S) (first second : List E) :
    final step state (first ++ second) = final step (final step state first) second := by
  induction first generalizing state with
  | nil => rfl
  | cons event rest ih => exact ih (step state event)

theorem done_of_measure (step : S → E → S) (event : E) {inv done : S → Prop} (measure : S → Nat)
    (keeps : ∀ state, inv state → inv (step state event))
    (stays : ∀ state, done state → done (step state event))
    (lowers : ∀ state, inv state → ¬ done state → measure (step state event) < measure state)
    {count : Nat} {state : S} (start : inv state) (enough : measure state ≤ count) :
    done (final step state (List.replicate count event)) := by
  induction count generalizing state with
  | zero =>
      apply Classical.byContradiction
      intro left
      have lower := lowers state start left
      omega
  | succ count ih =>
      by_cases finished : done state
      · have always : ∀ more state, done state → done (final step state
            (List.replicate more event)) := by
          intro more
          induction more with
          | zero => exact fun _ held => held
          | succ more still => exact fun other held => still _ (stays other held)
        exact always (count + 1) state finished
      · have lower := lowers state start finished
        exact ih (keeps state start) (by omega)

/-- What one step keeps under `ok`, every state of a run that meets `ok` has. -/
theorem invariant_of_meets {step : S → E → S} {ok : S → E → Prop} {inv : S → Prop}
    (keeps : ∀ state event, inv state → ok state event → inv (step state event))
    {state : S} {events : List E} (start : inv state) (met : Meets step ok state events) :
    ∀ reached ∈ states step state events, inv reached := by
  induction events generalizing state with
  | nil =>
      intro reached member
      rw [states, List.mem_singleton] at member
      exact member ▸ start
  | cons event rest ih =>
      intro reached member
      rw [states, List.mem_cons] at member
      rcases member with rfl | member
      · exact start
      · exact ih (keeps state event start met.1) met.2 reached member

theorem invariant_of_step {step : S → E → S} (inv : S → Prop)
    (keeps : ∀ state event, inv state → inv (step state event))
    {state : S} (start : inv state) (events : List E) :
    ∀ reached ∈ states step state events, inv reached := by
  have met : Meets step (fun _ _ => True) state events := by
    induction events generalizing state with
    | nil => trivial
    | cons event rest ih => exact ⟨trivial, ih (keeps state event start)⟩
  exact invariant_of_meets (fun s e held _ => keeps s e held) start met

/-- Where a step keeps the invariant exactly when it meets `ok`, a run keeps it
in every state exactly when every step meets `ok`. -/
theorem invariant_iff_meets {step : S → E → S} {ok : S → E → Prop} {inv : S → Prop}
    (exact_step : ∀ state event, inv state → (inv (step state event) ↔ ok state event))
    {state : S} {events : List E} (start : inv state) :
    (∀ reached ∈ states step state events, inv reached) ↔ Meets step ok state events := by
  constructor
  · intro always
    induction events generalizing state with
    | nil => trivial
    | cons event rest ih =>
        have after : inv (step state event) :=
          always _ (List.mem_cons_of_mem _ (start_mem_states step _ rest))
        exact ⟨(exact_step state event start).mp after,
          ih after fun reached member => always reached (List.mem_cons_of_mem _ member)⟩
  · exact invariant_of_meets (fun s e held met => (exact_step s e held).mpr met) start

/-- The same for an invariant that needs bookkeeping beside it: as long as it
holds, every step keeps the bookkeeping. -/
theorem invariant_iff_meets_of_sound {step : S → E → S} {ok : S → E → Prop}
    {sound inv : S → Prop}
    (exact_step : ∀ state event, sound state → inv state →
      sound (step state event) ∧ (inv (step state event) ↔ ok state event))
    {state : S} {events : List E} (start_sound : sound state) (start : inv state) :
    (∀ reached ∈ states step state events, inv reached) ↔ Meets step ok state events := by
  constructor
  · intro always
    induction events generalizing state with
    | nil => trivial
    | cons event rest ih =>
        have after : inv (step state event) :=
          always _ (List.mem_cons_of_mem _ (start_mem_states step _ rest))
        obtain ⟨next_sound, met⟩ := exact_step state event start_sound start
        exact ⟨met.mp after, ih next_sound after fun reached member =>
          always reached (List.mem_cons_of_mem _ member)⟩
  · intro met reached member
    have keeps : ∀ s e, sound s ∧ inv s → ok s e → sound (step s e) ∧ inv (step s e) := by
      intro s e held met
      obtain ⟨next_sound, exactly⟩ := exact_step s e held.1 held.2
      exact ⟨next_sound, exactly.mpr met⟩
    exact (invariant_of_meets keeps ⟨start_sound, start⟩ met reached member).2

end Agentsfleet.Library.Run
