import Agentsfleet.Cron.Fence
import Agentsfleet.Library.Trace

/-!
# Missed one-offs

When a reconcile that retires a one-off as missed finds the scheduler without it.
-/

set_option autoImplicit false

namespace Agentsfleet.Cron

open Agentsfleet.Library

/-- A reconcile of `held` retires it as missed. -/
def Schedule.retires (held : Schedule) : Bool :=
  held.missed && decide (held.desiredStatus ≠ .deleting)

def System.unrecorded (s : System) (held : Schedule) : Bool :=
  held.neverRegistered && (s.registrations (upstreamId held.scheduleId)).isSome

section Steps

variable (valid : Recipe → Bool) (nextFire : String → String → Int → Option Int)

def System.claimed (s : System) : Event → Option Schedule
  | .create new id token stamp admitted => s.create nextFire new id token stamp admitted
  | .claimChange fleet schedule change token stamp found =>
      s.claimChange nextFire fleet schedule change token stamp found
  | .claimCurrent fleet schedule token stamp => s.claimCurrent fleet schedule token stamp
  | .edit request token stamp owned => (s.edit valid nextFire request token stamp owned).toOption
  | _ => none

/-- No one-off is claimed past its moment while the scheduler holds it unrecorded, and a push
is sent under the fence its reconcile checked. -/
def Timely (s : System) (event : Event) : Prop :=
  Fenced s event ∧
    ∀ held ∈ s.claimed valid nextFire event, held.retires = true → s.unrecorded held = false

instance (s : System) (event : Event) : Decidable (Timely valid nextFire s event) :=
  inferInstanceAs (Decidable (Fenced s event ∧ ∀ held ∈ s.claimed valid nextFire event,
    held.retires = true → s.unrecorded held = false))

end Steps

/-- The schedule a step retires as missed: it removes its registration, or its row. -/
def System.retired (s : System) : Event → Option String
  | .push n _ => do
      let syncer ← s.syncers[n]?
      if syncer.held.retires && syncer.phase.sending.isSome then some syncer.held.scheduleId
      else none
  | .finish n _ found => do
      let syncer ← s.syncers[n]?
      let _ ← s.fenced syncer
      if syncer.held.retires && decide (syncer.phase = .agreed) && found then
        some syncer.held.scheduleId
      else none
  | _ => none

def NoneDropped (history : List (Run.Taken System Event)) : Prop :=
  ∀ t ∈ history, ∀ id ∈ t.before.retired t.event, t.before.registrations (upstreamId id) = none

instance (history : List (Run.Taken System Event)) : Decidable (NoneDropped history) :=
  inferInstanceAs (Decidable (∀ t ∈ history, ∀ id ∈ t.before.retired t.event,
    t.before.registrations (upstreamId id) = none))

structure Unheld (s : System) : Prop where
  sound : Sound s
  clear : ∀ syncer ∈ s.syncers, syncer.held.retires = true → (s.fenced syncer).isSome = true →
    s.registrations (upstreamId syncer.held.scheduleId) = none

theorem unheld_start : Unheld System.start :=
  ⟨sound_start, fun _ member => absurd member List.not_mem_nil⟩

theorem fenced_elsewhere {s : System} {syncer : Syncer} {id : String} (row : Option Schedule)
    (apart : syncer.held.scheduleId ≠ id) : (s.setRow id row).fenced syncer = s.fenced syncer := by
  unfold System.fenced
  rw [show (s.setRow id row).rows syncer.held.scheduleId = s.rows syncer.held.scheduleId from
    if_neg apart]

theorem unfenced_here {s : System} {syncer : Syncer} {after : Schedule}
    (other : after.resourceVersion ≠ syncer.held.resourceVersion ∨ after.syncToken = none) :
    (s.setRow syncer.held.scheduleId (some after)).fenced syncer = none := by
  unfold System.fenced
  rw [show (s.setRow syncer.held.scheduleId (some after)).rows syncer.held.scheduleId = some after
    from if_pos rfl]
  dsimp only
  apply if_neg
  rintro ⟨version, token⟩
  rcases other with apart | free
  · exact apart version
  · rw [free] at token
    cases token

theorem clear_setRow {s : System} (unheld : Unheld s) {id : String} {after : Option Schedule}
    (lost : ∀ syncer ∈ s.syncers, syncer.held.scheduleId = id →
      (s.setRow id after).fenced syncer = none) :
    ∀ syncer ∈ s.syncers, syncer.held.retires = true →
      ((s.setRow id after).fenced syncer).isSome = true →
        s.registrations (upstreamId syncer.held.scheduleId) = none := by
  intro syncer member retires fenced
  by_cases here : syncer.held.scheduleId = id
  · rw [lost syncer member here] at fenced
    cases fenced
  · rw [fenced_elsewhere after here] at fenced
    exact unheld.clear syncer member retires fenced

theorem clear_setPhase {s : System} {n : Nat} {syncer : Syncer} {phase : Phase}
    (member : syncer ∈ s.syncers)
    (clear : ∀ other ∈ s.syncers, other.held.retires = true → (s.fenced other).isSome = true →
      s.registrations (upstreamId other.held.scheduleId) = none) :
    ∀ other ∈ (s.setPhase n syncer phase).syncers, other.held.retires = true →
      ((s.setPhase n syncer phase).fenced other).isSome = true →
        (s.setPhase n syncer phase).registrations (upstreamId other.held.scheduleId) = none := by
  intro other inside retires fenced
  rcases mem_setPhase inside with old | rfl
  · exact clear other old retires fenced
  · exact clear syncer member retires fenced

theorem pushed_retires {held : Schedule} (retires : held.retires = true) : held.pushed = none := by
  rw [Schedule.retires, Bool.and_eq_true] at retires
  exact pushed_gone (.inr retires.1)

theorem clear_stepped {s next : System} (step : Stepped s next) (unheld : Unheld s)
    (begins : ∀ held token, next.syncers = s.syncers ++ [⟨held, token, .claimed⟩] →
      held.retires = true → s.registrations (upstreamId held.scheduleId) = none) :
    ∀ syncer ∈ next.syncers, syncer.held.retires = true → (next.fenced syncer).isSome = true →
      next.registrations (upstreamId syncer.held.scheduleId) = none := by
  have below : ∀ {row after : Schedule} {id : String}, s.rows id = some row →
      row.resourceVersion < after.resourceVersion → ∀ syncer ∈ s.syncers,
        syncer.held.scheduleId = id → (s.setRow id (some after)).fenced syncer = none := by
    rintro row after id found rises syncer member rfl
    have bound := (unheld.sound.begun syncer member).2 row found
    exact unfenced_here (.inl (by omega))
  have released : ∀ {after : Schedule} {id : String}, after.syncToken = none →
      ∀ syncer ∈ s.syncers, syncer.held.scheduleId = id →
        (s.setRow id (some after)).fenced syncer = none := by
    rintro after id free syncer - rfl
    exact unfenced_here (.inr free)
  cases step with
  | same => exact unheld.clear
  | created held token fresh claimed =>
      intro syncer member retires fenced
      rcases List.mem_append.mp member with old | new
      · refine clear_setRow unheld ?_ syncer old retires fenced
        rintro other was same
        exact absurd (same ▸ (unheld.sound.begun other was).1) fresh
      · obtain rfl := List.mem_singleton.mp new
        exact begins held token rfl retires
  | taken row held token found rises claimed =>
      intro syncer member retires fenced
      rcases List.mem_append.mp member with old | new
      · exact clear_setRow unheld (below found rises) syncer old retires fenced
      · obtain rfl := List.mem_singleton.mp new
        exact begins held token rfl retires
  | inserted row fresh waiting =>
      refine clear_setRow unheld ?_
      rintro syncer was same
      exact absurd (same ▸ (unheld.sound.begun syncer was).1) fresh
  | released row after found rises waiting => exact clear_setRow unheld (below found rises)
  | moved n syncer phase begun apart =>
      exact clear_setPhase (List.mem_of_getElem? begun) unheld.clear
  | pushed n syncer phase row begun fenced =>
      have member := List.mem_of_getElem? begun
      apply clear_setPhase (s := s.register syncer.held.scheduleId syncer.held.pushed) member
      intro other was retires still
      by_cases same : other.held.scheduleId = syncer.held.scheduleId
      · -- both hold the fence, so both hold the row
        obtain ⟨row', fenced'⟩ := Option.isSome_iff_exists.mp still
        have there := (fenced_some.mp fenced).1
        have there' := (fenced_some.mp fenced').1
        have equal : other.held = syncer.held := by
          rw [same, show (s.register syncer.held.scheduleId syncer.held.pushed).rows
            syncer.held.scheduleId = s.rows syncer.held.scheduleId from rfl, there,
            Option.some.injEq] at there'
          rw [← unheld.sound.held other was row' fenced', ← there']
          exact unheld.sound.held syncer member row fenced
        rw [equal] at retires ⊢
        rw [pushed_retires retires]
        exact if_pos rfl
      · rw [show (s.register syncer.held.scheduleId syncer.held.pushed).registrations
          (upstreamId other.held.scheduleId) = s.registrations (upstreamId other.held.scheduleId)
          from if_neg fun at_once => same (upstreamId_injective at_once)]
        exact unheld.clear other was retires still
  | deleted n syncer row begun fenced agreed gone =>
      have member := List.mem_of_getElem? begun
      apply clear_setPhase (s := s.setRow syncer.held.scheduleId none) member
      refine clear_setRow unheld ?_
      rintro other - same
      unfold System.fenced
      rw [same, show (s.setRow syncer.held.scheduleId none).rows syncer.held.scheduleId = none
        from if_pos rfl]
  | synced n syncer row registered now begun fenced agreed stays =>
      have member := List.mem_of_getElem? begun
      apply clear_setPhase
        (s := s.setRow syncer.held.scheduleId (some (row.finalizeSuccess registered now))) member
      exact clear_setRow unheld (released rfl)
  | failed n syncer row reason now begun fenced =>
      have member := List.mem_of_getElem? begun
      apply clear_setPhase
        (s := s.setRow syncer.held.scheduleId (some (row.finalizeFailure reason now))) member
      exact clear_setRow unheld (released rfl)

theorem check_length (s : System) (n : Nat) (syncer : Syncer) (attempts : Attempts) :
    (s.check n syncer attempts).syncers.length = s.syncers.length := by
  unfold System.check
  split
  · split <;> exact List.length_set
  · rfl

theorem push_length (s : System) (n : Nat) (syncer : Syncer) (answer : Answer) :
    (s.push n syncer answer).syncers.length = s.syncers.length := by
  unfold System.push
  split
  · rfl
  · split <;> exact List.length_set

theorem finish_length (s : System) (n : Nat) (syncer : Syncer) (now : Int) (found : Bool) :
    (s.finish n syncer now found).syncers.length = s.syncers.length := by
  unfold System.finish
  split
  · split
    · exact List.length_set
    · split
      · exact List.length_set
      · split <;> exact List.length_set
  · split
    · exact List.length_set
    · split <;> exact List.length_set
  · rfl

section Statements

variable {valid : Recipe → Bool} {nextFire : String → String → Int → Option Int}

theorem begun_claimed {s : System} {event : Event} {syncer : Syncer}
    (begins : (s.step valid nextFire event).syncers = s.syncers ++ [syncer]) :
    s.claimed valid nextFire event = some syncer.held := by
  have longer : (s.step valid nextFire event).syncers.length = s.syncers.length + 1 := by
    rw [begins, List.length_append, List.length_singleton]
  have taken : ∀ {held : Schedule} {token : String},
      s.syncers ++ [(⟨held, token, .claimed⟩ : Syncer)] = s.syncers ++ [syncer] →
        some held = some syncer.held := by
    intro held token same
    rw [← List.singleton_inj.mp (List.append_cancel_left same)]
  cases event with
  | create new id token stamp admitted =>
      simp only [System.step] at begins longer
      simp only [System.claimed]
      cases created : s.create nextFire new id token stamp admitted with
      | none =>
          rw [created] at longer
          dsimp only at longer
          omega
      | some held =>
          rw [created] at begins
          exact taken begins
  | claimChange fleet schedule change token stamp found =>
      simp only [System.step] at begins longer
      simp only [System.claimed]
      cases claimed : s.claimChange nextFire fleet schedule change token stamp found with
      | none =>
          rw [claimed] at longer
          dsimp only at longer
          omega
      | some held =>
          rw [claimed] at begins
          exact taken begins
  | claimCurrent fleet schedule token stamp =>
      simp only [System.step] at begins longer
      simp only [System.claimed]
      cases claimed : s.claimCurrent fleet schedule token stamp with
      | none =>
          rw [claimed] at longer
          dsimp only at longer
          omega
      | some held =>
          rw [claimed] at begins
          exact taken begins
  | edit request token stamp owned =>
      simp only [System.step] at begins longer
      simp only [System.claimed]
      cases edited : s.edit valid nextFire request token stamp owned with
      | error refusal =>
          rw [edited] at longer
          dsimp only at longer
          omega
      | ok held =>
          rw [edited] at begins
          exact taken begins
  | setup inherited fleet id key now =>
      simp only [System.step] at longer
      split at longer
      · omega
      · rw [show System.syncers { s.setRow id (some (inherited.row fleet id key now)) with
          minted := id :: s.minted } = s.syncers from rfl] at longer
        omega
  | resetup id inherited stamp =>
      simp only [System.step] at longer
      split at longer
      · omega
      · rename_i row _
        rw [show (s.setRow id (some row)).syncers = s.syncers from rfl] at longer
        omega
  | check n attempts =>
      simp only [System.step] at longer
      split at longer
      · omega
      · rw [check_length] at longer
        omega
  | push n answer =>
      simp only [System.step] at longer
      split at longer
      · omega
      · rw [push_length] at longer
        omega
  | finish n now found =>
      simp only [System.step] at longer
      split at longer
      · omega
      · rw [finish_length] at longer
        omega

theorem retires_registrations {s : System} {held : Schedule} (retires : held.retires = true)
    (recorded : s.unrecorded held = false) :
    s.registrations (upstreamId held.scheduleId) = none := by
  simp only [Schedule.retires, Schedule.missed, Bool.and_eq_true] at retires
  rw [System.unrecorded, retires.1.1.2, Bool.true_and] at recorded
  rwa [Option.isSome_eq_false_iff, Option.isNone_iff_eq_none] at recorded

theorem unheld_step {s : System} {event : Event} (unheld : Unheld s)
    (timely : Timely valid nextFire s event) : Unheld (s.step valid nextFire event) := by
  have step : Stepped s (s.step valid nextFire event) := stepped unheld.sound timely.1
  refine ⟨sound_step step unheld.sound, clear_stepped step unheld ?_⟩
  intro held token begins retires
  exact retires_registrations retires (timely.2 held (begun_claimed begins) retires)

theorem retired_clear {s : System} {event : Event} (unheld : Unheld s) (fenced : Fenced s event) :
    ∀ id ∈ s.retired event, s.registrations (upstreamId id) = none := by
  intro id retired
  cases event with
  | push n answer =>
      obtain ⟨syncer, begun, rest⟩ := Option.bind_eq_some_iff.mp retired
      split at rest
      · rename_i going
        cases rest
        rw [Bool.and_eq_true] at going
        simp only [Fenced, begun] at fenced
        exact unheld.clear syncer (List.mem_of_getElem? begun) going.1 (fenced going.2)
      · cases rest
  | finish n now found =>
      obtain ⟨syncer, begun, rest⟩ := Option.bind_eq_some_iff.mp retired
      obtain ⟨row, held, rest⟩ := Option.bind_eq_some_iff.mp rest
      split at rest
      · rename_i going
        cases rest
        simp only [Bool.and_eq_true] at going
        exact unheld.clear syncer (List.mem_of_getElem? begun) going.1.1 (by rw [held]; rfl)
      · cases rest
  | create => cases retired
  | claimChange => cases retired
  | claimCurrent => cases retired
  | edit => cases retired
  | setup => cases retired
  | resetup => cases retired
  | check => cases retired

end Statements

/-- In every run whose claims are timely and whose pushes are fenced, no one-off is retired as
missed while the scheduler holds it. -/
theorem none_dropped (valid : Recipe → Bool) (nextFire : String → String → Int → Option Int)
    (events : List Event)
    (timely : Run.Meets (System.step valid nextFire) (Timely valid nextFire) System.start events) :
    NoneDropped (Run.taken (System.step valid nextFire) System.start events) :=
  Run.taken_of_meets (fun _ _ unheld met => unheld_step unheld met)
    (fun _ _ unheld met => retired_clear unheld met.1) unheld_start timely

def fireOnce (_ _ : String) (counted : Int) : Option Int :=
  if counted < 60000000 then some 60000000 else none

def once : NewSchedule := ⟨"fleet", none, "1 0 1 1 *", "UTC", "report", true⟩

def oneOffRun (answer : Answer) : List Event :=
  [.create once "one" "first" ⟨0, 0⟩ true, .check 0 .single, .push 0 answer, .finish 0 1000000 true,
    .claimCurrent "fleet" "one" "second" ⟨70000000, 70000000⟩, .check 1 .single, .push 1 .agreed,
    .finish 1 70000001 true]

/-- Where the create never reached the scheduler, the row goes and nothing is dropped. -/
theorem none_dropped_unregistered :
    (Run.final (System.step (fun _ => true) fireOnce) System.start
        (oneOffRun (.refused "unavailable"))).rows "one" = none ∧
      NoneDropped (Run.taken (System.step (fun _ => true) fireOnce) System.start
        (oneOffRun (.refused "unavailable"))) :=
  ⟨by decide +kernel, none_dropped (fun _ => true) fireOnce _ (by decide +kernel)⟩

/-- Where the scheduler took the create and only the answer was lost, the run is dropped. -/
theorem lost_answer_drops :
    ¬ NoneDropped (Run.taken (System.step (fun _ => true) fireOnce) System.start
      (oneOffRun (.lost "timed out"))) := by
  decide +kernel

end Agentsfleet.Cron
