import Agentsfleet.Approval.Grants

/-!
# Parked deliveries

A delivery leaves the dispatch while a question about it, or about its whole fleet, stands.
No delivery is left behind: the statement that closes the question puts every delivery of
the fleet back, whoever closes it.  A cancelled setup is the exception, whose cards are
closed and whose deliveries stay where they are.
-/

set_option autoImplicit false

namespace Agentsfleet.Approval

open Agentsfleet.Core
open Agentsfleet.Library
open Agentsfleet.Library.Run (Taken taken)

def Gate.WaitedBy (gate : Gate) (row : Delivery) : Prop :=
  gate.fleet = row.fleet ∧ (gate.event = none ∨ gate.event = some row.id)

/-- Every parked delivery waits for a question that stands, or that its setup's
cancellation closed. -/
def ParksSound (t : Tables) : Prop :=
  ∀ row ∈ t.deliveries, row.settled = false → row.parkedAt ≠ none →
    ∃ gate ∈ t.gates, gate.WaitedBy row ∧ (gate.isPending = true ∨ gate.status = .autoKilled)

section Transactions

variable {t after : Tables}

theorem closed_parks (sound : ParksSound t) {picks : Gate → Bool} {change : Gate → Gate}
    {closed : List Gate} (fleets : ∀ gate ∈ t.gates, picks gate = true →
      ∃ row ∈ closed, row.fleet = gate.fleet)
    (gates : after.gates = Table.update picks change t.gates)
    (deliveries : after.deliveries = unpark closed t.deliveries) : ParksSound after := by
  intro row member unsettled parked
  rw [deliveries] at member
  obtain ⟨old, held, rfl⟩ := Table.mem_update.mp member
  split at parked
  · exact absurd rfl parked
  · rename_i unpicked
    rw [if_neg unpicked] at unsettled ⊢
    obtain ⟨gate, inside, holds, stands⟩ := sound old held unsettled parked
    refine ⟨gate, ?_, holds, stands⟩
    rw [gates]
    refine Table.mem_update.mpr ⟨gate, inside, ?_⟩
    rw [if_neg]
    intro picked
    obtain ⟨other, among, same⟩ := fleets gate inside picked
    refine unpicked ?_
    rw [unsettled, Bool.not_false, Bool.true_and, List.any_eq_true]
    exact ⟨other, among, beq_iff_eq.mpr (same.trans holds.1)⟩

theorem kept_parks (sound : ParksSound t)
    (gates : ∀ gate ∈ t.gates, ∃ new ∈ after.gates, new.fleet = gate.fleet ∧
      new.event = gate.event ∧ (new = gate ∨ new.status = .autoKilled))
    (deliveries : ∀ row ∈ after.deliveries, row.settled = false → row.parkedAt ≠ none →
      (∃ old ∈ t.deliveries, old.fleet = row.fleet ∧ old.id = row.id ∧ old.settled = false ∧
        old.parkedAt ≠ none) ∨
      ∃ gate ∈ after.gates, gate.WaitedBy row ∧ gate.isPending = true) : ParksSound after := by
  intro row member unsettled parked
  rcases deliveries row member unsettled parked with
    ⟨old, held, fleet, id, open_, waits⟩ | ⟨gate, inside, holds, pending⟩
  · obtain ⟨gate, inside, holds, stands⟩ := sound old held open_ waits
    obtain ⟨new, among, sameFleet, sameEvent, moved⟩ := gates gate inside
    refine ⟨new, among, ⟨(sameFleet.trans holds.1).trans fleet, ?_⟩, ?_⟩
    · rw [sameEvent, ← id]
      exact holds.2
    · rcases moved with rfl | killed
      · exact stands
      · exact .inr killed
  · exact ⟨gate, inside, holds, .inl pending⟩

variable {uuid7 : Nat → String} {owed : Resolved → String → Prop} {drawn next : Nat}

theorem openEvent_gates (t : Tables) (fleet event actor : String) (resumes : Option String) :
    (t.openEvent fleet event actor resumes).1.gates = t.gates ∧
      (t.openEvent fleet event actor resumes).1.deliveries = t.deliveries := by
  unfold Tables.openEvent
  dsimp only
  split <;> exact ⟨rfl, rfl⟩

theorem parks_sound (sound : ParksSound t) (transacts : Transacts uuid7 owed drawn t next after) :
    ParksSound after := by
  have same {rows : List Gate} : ∀ gate ∈ rows, ∃ new ∈ rows, new.fleet = gate.fleet ∧
      new.event = gate.event ∧ (new = gate ∨ new.status = .autoKilled) :=
    fun gate inside => ⟨gate, inside, rfl, rfl, .inl rfl⟩
  cases transacts with
  | idle | revoke => exact sound
  | openEvent fleet event actor resumes =>
      obtain ⟨gates, deliveries⟩ := openEvent_gates t fleet event actor resumes
      rw [ParksSound, gates, deliveries]
      exact sound
  | raise check stated claim now =>
      refine kept_parks sound (fun gate inside => ?_) fun row member open_ parked =>
        .inl ⟨row, member, rfl, rfl, open_, parked⟩
      exact ⟨gate, List.mem_append_left _ inside, rfl, rfl, .inl rfl⟩
  | resolve a now =>
      refine closed_parks sound (fun gate inside picked => ?_) rfl rfl
      exact ⟨a.close now gate,
        List.mem_map.mpr ⟨gate, List.mem_filter.mpr ⟨inside, picked⟩, rfl⟩, rfl⟩
  | sweep now =>
      refine closed_parks sound (fun gate inside picked => ?_) rfl rfl
      exact ⟨gate, List.mem_filter.mpr ⟨inside, picked⟩, rfl⟩
  | request fleet workspace wanted now =>
      refine kept_parks sound (fun gate inside => ?_) fun row member open_ parked => .inl ?_
      · rcases request_gates t (uuid7 drawn) (uuid7 (drawn + 1)) (uuid7 (drawn + 2)) fleet workspace
          wanted now with stays | ⟨grant, -, -, -, raised⟩
        · rw [stays]
          exact same gate inside
        · rw [raised]
          exact ⟨gate, List.mem_append_left _ inside, rfl, rfl, .inl rfl⟩
      · rw [request_deliveries] at member
        exact ⟨row, member, rfl, rfl, open_, parked⟩
  | cancelSetup fleet now =>
      refine kept_parks sound (fun gate inside => ⟨_, Table.mem_update.mpr ⟨gate, inside, rfl⟩, ?_⟩)
        fun row member open_ parked => .inl ⟨row, member, rfl, rfl, open_, parked⟩
      split
      · exact ⟨rfl, rfl, .inr rfl⟩
      · exact ⟨rfl, rfl, .inl rfl⟩
  | deliver | continueFrom =>
      refine kept_parks sound same fun row member open_ parked => ?_
      rcases List.mem_append.mp member with old | new
      · exact .inl ⟨row, old, rfl, rfl, open_, parked⟩
      · rw [List.mem_singleton.mp new] at parked
        exact absurd rfl parked
  | settle id =>
      refine kept_parks sound same fun row member open_ parked => .inl ?_
      obtain ⟨old, held, rfl⟩ := Table.mem_update.mp member
      split at open_
      · exact nomatch open_
      · rename_i unpicked
        rw [if_neg unpicked] at parked ⊢
        exact ⟨old, held, rfl, rfl, open_, parked⟩
  | park fleet id now =>
      refine kept_parks sound same fun row member open_ parked => ?_
      obtain ⟨old, held, rfl⟩ := Table.mem_update.mp member
      split at parked
      · rename_i picked
        rw [if_pos picked]
        simp only [Bool.and_eq_true, Bool.or_eq_true, List.any_eq_true, beq_iff_eq,
          Option.isNone_iff_eq_none] at picked
        obtain ⟨-, gate, inside, ⟨ofFleet, pending⟩, about⟩ := picked
        exact .inr ⟨gate, inside, ⟨ofFleet, about⟩, pending⟩
      · rename_i unpicked
        rw [if_neg unpicked] at open_ ⊢
        exact .inl ⟨old, held, rfl, rfl, open_, parked⟩

theorem unparked {closed : List Gate} {gate : Gate} (among : gate ∈ closed) {rows : List Delivery}
    {row : Delivery} (member : row ∈ unpark closed rows) (fleet : row.fleet = gate.fleet)
    (unsettled : row.settled = false) : row.parkedAt = none := by
  obtain ⟨old, held, rfl⟩ := Table.mem_update.mp member
  split
  · rfl
  · rename_i unpicked
    rw [if_neg unpicked] at fleet unsettled
    refine absurd ?_ unpicked
    rw [unsettled, Bool.not_false, Bool.true_and, List.any_eq_true]
    exact ⟨gate, among, beq_iff_eq.mpr fleet.symm⟩

theorem answered_frees (distinct : Function.Injective uuid7)
    (sound : GatesSound uuid7 drawn t.gates) (transacts : Transacts uuid7 owed drawn t next after)
    {gate new : Gate}
    (held : gate ∈ t.gates) (pending : gate.isPending = true) (among : new ∈ after.gates)
    (same : new.id = gate.id) (answered : new.isPending = false)
    (alive : new.status ≠ .autoKilled) {row : Delivery} (member : row ∈ after.deliveries)
    (fleet : row.fleet = gate.fleet) (unsettled : row.settled = false) : row.parkedAt = none := by
  have ids := (gates_sound distinct sound transacts).ids
  -- Whatever became of the gate is `new`.
  have became {other : Gate} (inside : other ∈ after.gates) (id : other.id = gate.id) :
      new = other := List.inj_on_of_nodup_map ids among inside (same.trans id.symm)
  have stayed (inside : gate ∈ after.gates) : row.parkedAt = none := by
    rw [became inside rfl, pending] at answered
    exact nomatch answered
  cases transacts with
  | idle | revoke | deliver | continueFrom | settle | park => exact stayed held
  | openEvent fleet' event actor resumes =>
      exact stayed ((openEvent_gates t fleet' event actor resumes).1 ▸ held)
  | raise check stated claim now => exact stayed (List.mem_append_left _ held)
  | request fleet' workspace wanted now =>
      apply stayed
      rcases request_gates t (uuid7 drawn) (uuid7 (drawn + 1)) (uuid7 (drawn + 2)) fleet' workspace
        wanted now with stays | ⟨grant, -, -, -, raised⟩
      · rw [stays]
        exact held
      · rw [raised]
        exact List.mem_append_left _ held
  | resolve a now =>
      by_cases picked : a.picks gate = true
      · have won : a.close now gate ∈ (t.gates.filter a.picks).map (a.close now) :=
          List.mem_map_of_mem (List.mem_filter.mpr ⟨held, picked⟩)
        exact unparked won member fleet unsettled
      · exact stayed (Table.mem_update.mpr ⟨gate, held, (if_neg picked).symm⟩)
  | sweep now =>
      by_cases picked : (gate.isPending && gate.lapsed now) = true
      · exact unparked (List.mem_filter.mpr ⟨held, picked⟩) member fleet unsettled
      · exact stayed (Table.mem_update.mpr ⟨gate, held, (if_neg picked).symm⟩)
  | cancelSetup fleet' now =>
      by_cases picked : (gate.fleet == fleet' && gate.isPending &&
          gate.gateType == kindIntegrationGrant) = true
      · refine absurd ?_ alive
        rw [became (Table.mem_update.mpr ⟨gate, held, (if_pos picked).symm⟩) rfl]
        rfl
      · exact stayed (Table.mem_update.mpr ⟨gate, held, (if_neg picked).symm⟩)

end Transactions

/-! ## Runs -/

structure ParksStand (t : Taken Desk Event) : Prop where
  waits : ∀ row ∈ t.after.tables.deliveries, row.settled = false → row.parkedAt ≠ none →
    ∃ gate ∈ t.after.tables.gates, gate.WaitedBy row ∧
      (gate.isPending = true ∨ gate.status = .autoKilled)
  frees : ∀ gate ∈ t.before.tables.gates, gate.isPending = true →
    ∀ new ∈ t.after.tables.gates, new.id = gate.id → new.isPending = false →
      new.status ≠ .autoKilled → ∀ row ∈ t.after.tables.deliveries, row.fleet = gate.fleet →
        row.settled = false → row.parkedAt = none

section Runs

variable (fromStr : String → Option Json) {uuid7 : Nat → String}

/-- In every run a delivery stays parked only while a question it waits for stands, and the
step that answers the question, or lets it lapse, is the one that frees it. -/
theorem parked_until_answered (distinct : Function.Injective uuid7) (events : List Event) :
    ∀ t ∈ taken (Desk.step fromStr uuid7) Desk.start events, ParksStand t := by
  intro t member
  obtain ⟨⟨sound, parks⟩, steps⟩ := Run.taken_step
    (fun d event (held : Desk.Sound uuid7 d ∧ ParksSound d.tables) =>
      ⟨step_sound fromStr distinct held.1 event,
        parks_sound held.2 (step_transacts fromStr uuid7 d event)⟩)
    ⟨start_sound, List.forall_mem_nil _⟩ t member
  have transacts := step_transacts fromStr uuid7 t.before t.event
  rw [← steps] at transacts
  refine ⟨parks_sound parks transacts, ?_⟩
  intro gate held pending new among same answered alive row inside fleet unsettled
  exact answered_frees distinct sound.gates transacts held pending among same answered alive inside
    fleet unsettled

def lapsing : List Event :=
  [.deliver "fleet" "workspace" "actor", .request "fleet" "workspace" ⟨"github", "token", .park⟩ 0,
    .park "fleet" (serial 0) 1, .sweep grantDecisionWindowMs]

theorem parked_until_answered_lapsing :
    (∃ t ∈ taken (Desk.step (fun _ => none) serial) Desk.start lapsing,
      t.after.tables.deliveries.map Delivery.parkedAt = [some 1] ∧ ParksStand t) ∧
    ∃ t ∈ taken (Desk.step (fun _ => none) serial) Desk.start lapsing,
      t.before.tables.deliveries.map Delivery.parkedAt = [some 1] ∧
        t.after.tables.deliveries.map Delivery.parkedAt = [none] ∧ ParksStand t := by
  have stands := parked_until_answered (fun _ => none) serial_injective lapsing
  have parked := List.mem_of_getElem? (i := 2)
    (l := taken (Desk.step (fun _ => none) serial) Desk.start lapsing) rfl
  have last := List.mem_of_getElem? (i := 3)
    (l := taken (Desk.step (fun _ => none) serial) Desk.start lapsing) rfl
  refine ⟨⟨_, parked, ?_, stands _ parked⟩, ⟨_, last, ?_, ?_, stands _ last⟩⟩
  all_goals decide

end Runs

end Agentsfleet.Approval
