import Agentsfleet.Approval.Transactions

/-!
# One answer, and what it owes

Any number of people answer one action at once, each retrying as often as their calls fail.
One answer moves the row and stands; every other caller is told that one; and a run an
approval unblocked continues once, in the event every caller is told of.
-/

set_option autoImplicit false

namespace Agentsfleet.Approval

open Agentsfleet.Core
open Agentsfleet.Library
open Agentsfleet.Library.Run (Taken taken)

/-! ## What a call makes of its statement -/

inductive Turn (uuid7 : Nat → String) (d : Desk) (a : Answering) :
    CallPhase → Desk → CallPhase → Prop where
  | lost (phase : CallPhase) (after : Desk) (calls : after.calls = d.calls) :
      Turn uuid7 d a phase after (.ended none)
  | won (now : Int) (row : Gate) (moved : (d.tables.resolveGate a now).2 = some row) :
      Turn uuid7 d a .resolving { d with tables := (d.tables.resolveGate a now).1 }
        ((Resolved.of row).elim (.ended none) (afterWin a.outcome))
  | missed (after : Desk) (calls : after.calls = d.calls) :
      Turn uuid7 d a .resolving after .reading
  | read (row : Gate) (found : d.tables.gateByAction a.action a.scope = some row) :
      Turn uuid7 d a .reading d ((Resolved.of row).elim (.ended none) stood)
  | absent : Turn uuid7 d a .reading d (.ended (some .notFound))
  | found (resolved : Resolved) (event : String) (row : Delivery)
      (member : row ∈ d.tables.deliveries) (keyed : row.continues = some resolved.action) :
      Turn uuid7 d a (.finding resolved event) d
        (.ended (some (.alreadyResolved { resolved with continuation := some row.id })))
  | unfound (resolved : Resolved) (event : String) :
      Turn uuid7 d a (.finding resolved event) d (.continuing false resolved event)
  | admitted (won : Bool) (resolved : Resolved) (event : String) :
      Turn uuid7 d a (.continuing won resolved event) (d.continuationOf uuid7 resolved event).1
        (.inserting won resolved event (d.continuationOf uuid7 resolved event).2)
  | opened (won : Bool) (resolved : Resolved) (event id : String) :
      Turn uuid7 d a (.inserting won resolved event id)
        (d.openContinuation true resolved.fleet id event)
        (.ended (some (reportAs won { resolved with continuation := some id })))

section Turns

variable (uuid7 : Nat → String)

theorem continuationOf_calls (d : Desk) (resolved : Resolved) (event : String) :
    (d.continuationOf uuid7 resolved event).1.calls = d.calls := by
  unfold Desk.continuationOf
  split <;> rfl

theorem answer_turns {d : Desk} {slot : Nat} {a : Answering} {phase : CallPhase}
    (found : d.calls[slot]? = some ⟨a, phase⟩) (io : Io) (now : Int) :
    (∃ answer, phase = .ended answer) ∧ d.answer uuid7 slot io now = d ∨
      ∃ after next, Turn uuid7 d a phase after next ∧
        d.answer uuid7 slot io now = after.setCall slot a next := by
  unfold Desk.answer
  rw [found]
  dsimp only
  cases phase with
  | ended answer => exact .inl ⟨⟨answer, rfl⟩, rfl⟩
  | resolving =>
      refine .inr ?_
      cases io with
      | failed => exact ⟨d, _, .lost _ d rfl, rfl⟩
      | unheard =>
          exact ⟨{ d with tables := (d.tables.resolveGate a now).1 }, _, .lost _ _ rfl, rfl⟩
      | answered =>
          dsimp only
          split
          · rename_i row moved
            exact ⟨_, _, .won now row moved, rfl⟩
          · exact ⟨_, _, .missed { d with tables := (d.tables.resolveGate a now).1 } rfl, rfl⟩
  | reading =>
      refine .inr ?_
      cases io with
      | failed | unheard => exact ⟨d, _, .lost _ d rfl, rfl⟩
      | answered =>
          dsimp only
          split
          · rename_i row read
            exact ⟨d, _, .read row read, rfl⟩
          · exact ⟨d, _, .absent, rfl⟩
  | finding resolved event =>
      refine .inr ?_
      cases io with
      | failed | unheard => exact ⟨d, _, .lost _ d rfl, rfl⟩
      | answered =>
          dsimp only
          split
          · rename_i row held
            have keyed : (row.continues == some resolved.action) = true := by
              exact List.find?_some (p := fun other : Delivery => other.continues == _) held
            exact ⟨d, _, .found resolved event row (List.mem_of_find?_eq_some held)
              (beq_iff_eq.mp keyed), rfl⟩
          · exact ⟨d, _, .unfound resolved event, rfl⟩
  | continuing won resolved event =>
      refine .inr ?_
      cases io with
      | failed => exact ⟨d, _, .lost _ d rfl, rfl⟩
      | unheard => exact ⟨_, _, .lost _ _ (continuationOf_calls uuid7 d resolved event), rfl⟩
      | answered => exact ⟨_, _, .admitted won resolved event, rfl⟩
  | inserting won resolved event id =>
      refine .inr ?_
      cases io with
      | failed => exact ⟨d, _, .lost _ d rfl, rfl⟩
      | unheard =>
          exact ⟨d.openContinuation false resolved.fleet id event, _, .lost _ _ rfl, rfl⟩
      | answered => exact ⟨_, _, .opened won resolved event id, rfl⟩

theorem turn_calls {d after : Desk} {a : Answering} {phase next : CallPhase}
    (turn : Turn uuid7 d a phase after next) : after.calls = d.calls := by
  cases turn with
  | lost | missed => assumption
  | admitted won resolved event => exact continuationOf_calls uuid7 d resolved event
  | won | read | absent | found | unfound | opened => rfl

end Turns

/-! ## What a call holds -/

def Recorded (t : Tables) (resolved : Resolved) : Prop :=
  ∃ row ∈ t.gates, Resolved.of row = some { resolved with continuation := none }

def Continues (t : Tables) (action id : String) : Prop :=
  ∃ row ∈ t.deliveries, row.continues = some action ∧ row.id = id

structure Told (t : Tables) (resolved : Resolved) : Prop where
  continued : resolved.status = .approved → resolved.event ≠ none →
    ∃ id, resolved.continuation = some id ∧ Continues t resolved.action id
  otherwise : resolved.status ≠ .approved ∨ resolved.event = none → resolved.continuation = none

structure Underway (t : Tables) (action : String) (resolved : Resolved) (event : String) :
    Prop where
  recorded : Recorded t resolved
  unnamed : resolved.continuation = none
  approved : resolved.status = .approved
  holds : resolved.event = some event
  action : resolved.action = action

structure Reported (t : Tables) (action : String) (resolved : Resolved) : Prop where
  recorded : Recorded t resolved
  told : Told t resolved
  action : resolved.action = action

def CallPhase.Sound (t : Tables) (action : String) : CallPhase → Prop
  | .resolving | .reading => True
  | .finding resolved event => Underway t action resolved event
  | .continuing _ resolved event => Underway t action resolved event
  | .inserting _ resolved event id =>
      Underway t action resolved event ∧ Continues t action id
  | .ended answer => ∀ resolved, answer.bind Resolution.reported = some resolved →
      Reported t action resolved

def CallPhase.won : CallPhase → Bool
  | .continuing won _ _ => won
  | .inserting won _ _ _ => won
  | .ended (some (.resolved _)) => true
  | _ => false

theorem sound_ended_none (t : Tables) (action : String) :
    CallPhase.Sound t action (.ended none) := fun _ none_reported => nomatch none_reported

theorem reported_reportAs (won : Bool) (resolved : Resolved) :
    (reportAs won resolved).reported = some resolved := by cases won <;> rfl

theorem recorded_of_won {t : Tables} {action : String} {phase : CallPhase}
    (sound : phase.Sound t action) (won : phase.won = true) :
    ∃ resolved, Recorded t resolved ∧ resolved.action = action := by
  cases phase with
  | resolving | reading | finding => exact absurd won Bool.false_ne_true
  | continuing won resolved event => exact ⟨resolved, sound.recorded, sound.action⟩
  | inserting won resolved event id => exact ⟨resolved, sound.1.recorded, sound.1.action⟩
  | ended answer =>
      match answer, won with
      | some (.resolved resolved), _ =>
          have reported := sound resolved rfl
          exact ⟨resolved, reported.recorded, reported.action⟩

/-! ## What a row says stays said -/

theorem of_row_answered {row : Gate} {resolved : Resolved} (marked : row.Marked)
    (decodes : Resolved.of row = some resolved) : row.isPending = false := by
  have resolver := marked.resolver
  obtain ⟨by_, named, -⟩ := Option.map_eq_some_iff.mp decodes
  rw [named, Option.isSome_some] at resolver
  simpa using resolver.symm

theorem of_row_action {row : Gate} {resolved : Resolved}
    (decodes : Resolved.of row = some resolved) : resolved.action = row.action := by
  obtain ⟨by_, -, rfl⟩ := Option.map_eq_some_iff.mp decodes
  rfl

section Kept

variable {uuid7 : Nat → String} {owed : Resolved → String → Prop} {drawn next : Nat}
  {t after : Tables}

theorem recorded_kept (sound : GatesSound uuid7 drawn t.gates)
    (transacts : Transacts uuid7 owed drawn t next after) {resolved : Resolved}
    (recorded : Recorded t resolved) : Recorded after resolved := by
  obtain ⟨row, held, decodes⟩ := recorded
  obtain ⟨new, later, moved⟩ := gate_kept transacts held
  have stands := moved.frozen (of_row_answered (sound.marked row held) decodes)
  exact ⟨new, later, stands ▸ decodes⟩

def Delivery.fixed (row : Delivery) : String × String × String × String × Option String :=
  (row.id, row.fleet, row.workspace, row.actor, row.continues)

inductive DeliveriesChange (uuid7 : Nat → String) (owed : Resolved → String → Prop) (drawn : Nat)
    (rows : List Delivery) : List Delivery → Prop where
  | kept (after : List Delivery) (same : after.map Delivery.fixed = rows.map Delivery.fixed) :
      DeliveriesChange uuid7 owed drawn rows after
  | delivered (fleet workspace actor : String) :
      DeliveriesChange uuid7 owed drawn rows
        (rows ++ [⟨uuid7 drawn, fleet, workspace, actor, none, false, none⟩])
  | continued (resolved : Resolved) (event : String) (owes : owed resolved event)
      (first : ∀ row ∈ rows, row.continues ≠ some resolved.action) :
      DeliveriesChange uuid7 owed drawn rows
        (rows ++ [⟨uuid7 drawn, resolved.fleet, resolved.workspace, continuationActor event,
          some resolved.action, false, none⟩])

theorem unpark_fixed (closed : List Gate) (rows : List Delivery) :
    (unpark closed rows).map Delivery.fixed = rows.map Delivery.fixed :=
  Table.column_update Delivery.fixed _ _ (fun _ => by rfl) rows

theorem request_deliveries (t : Tables) (grantId id action fleet workspace : String)
    (wanted : Wanted) (now : Int) :
    (t.request grantId id action fleet workspace wanted now).1.deliveries = t.deliveries := by
  unfold Tables.request Tables.requestGrant Tables.ensureGrant
  dsimp only
  split <;> split <;> first | rfl | (split <;> rfl)

theorem deliveries_change (transacts : Transacts uuid7 owed drawn t next after) :
    DeliveriesChange uuid7 owed drawn t.deliveries after.deliveries := by
  cases transacts with
  | idle | raise | revoke | cancelSetup => exact .kept _ rfl
  | resolve a now => exact .kept _ (unpark_fixed _ _)
  | sweep now => exact .kept _ (unpark_fixed _ _)
  | request fleet workspace wanted now => exact .kept _ (by rw [request_deliveries])
  | deliver fleet workspace actor => exact .delivered fleet workspace actor
  | continueFrom resolved event owes first => exact .continued resolved event owes first
  | settle id => exact .kept _ (Table.column_update Delivery.fixed _ _ (fun _ => by rfl) _)
  | park fleet id now => exact .kept _ (Table.column_update Delivery.fixed _ _ (fun _ => by rfl) _)
  | openEvent fleet event actor resumes =>
      refine .kept _ ?_
      unfold Tables.openEvent
      dsimp only
      split <;> rfl

theorem continues_iff {rows : List Delivery} {action id : String} :
    (∃ row ∈ rows, row.continues = some action ∧ row.id = id) ↔
      ∃ key ∈ rows.map Delivery.fixed, key.2.2.2.2 = some action ∧ key.1 = id := by
  simp only [List.mem_map, Delivery.fixed]
  constructor
  · rintro ⟨row, held, keyed, same⟩
    exact ⟨_, ⟨row, held, rfl⟩, keyed, same⟩
  · rintro ⟨_, ⟨row, held, rfl⟩, keyed, same⟩
    exact ⟨row, held, keyed, same⟩

theorem continues_kept (transacts : Transacts uuid7 owed drawn t next after) {action id : String}
    (continues : Continues t action id) : Continues after action id := by
  have change := deliveries_change transacts
  unfold Continues at continues ⊢
  generalize after.deliveries = rows at change ⊢
  cases change with
  | kept _ same => rwa [continues_iff, same, ← continues_iff]
  | delivered | continued =>
      obtain ⟨row, held, keyed⟩ := continues
      exact ⟨row, List.mem_append_left _ held, keyed⟩

theorem told_kept (transacts : Transacts uuid7 owed drawn t next after) {resolved : Resolved}
    (told : Told t resolved) : Told after resolved := by
  refine ⟨fun approved held => ?_, told.otherwise⟩
  obtain ⟨id, named, continues⟩ := told.continued approved held
  exact ⟨id, named, continues_kept transacts continues⟩

theorem phase_kept (sound : GatesSound uuid7 drawn t.gates)
    (transacts : Transacts uuid7 owed drawn t next after) {action : String} {phase : CallPhase}
    (held : phase.Sound t action) : phase.Sound after action := by
  have underway {resolved event} (before : Underway t action resolved event) :
      Underway after action resolved event :=
    { before with recorded := recorded_kept sound transacts before.recorded }
  cases phase with
  | resolving | reading => trivial
  | finding | continuing => exact underway held
  | inserting => exact ⟨underway held.1, continues_kept transacts held.2⟩
  | ended answer =>
      intro resolved reported
      have before := held resolved reported
      exact ⟨recorded_kept sound transacts before.recorded, told_kept transacts before.told,
        before.action⟩

structure ContinuedSound (t : Tables) : Prop where
  once : (t.deliveries.filterMap Delivery.continues).Nodup
  answers : ∀ row ∈ t.deliveries, ∀ action, row.continues = some action →
    ∃ gate ∈ t.gates, gate.action = action ∧ gate.status = .approved ∧
      ∃ event, gate.event = some event ∧ row.fleet = gate.fleet ∧
        row.workspace = gate.workspace ∧ row.actor = continuationActor event

theorem filterMap_continues (rows : List Delivery) :
    rows.filterMap Delivery.continues = (rows.map Delivery.fixed).filterMap (·.2.2.2.2) := by
  rw [List.filterMap_map]
  rfl

theorem approved_not_pending {row : Gate} (marked : row.Marked)
    (approved : row.status = .approved) : row.isPending = false := by
  by_contra still
  have pending := marked.status.mpr (by simpa using still)
  rw [approved] at pending
  exact absurd pending (by decide)

theorem continued_sound (sound : GatesSound uuid7 drawn t.gates) (continued : ContinuedSound t)
    (owes : ∀ resolved event, owed resolved event → ∃ action, Underway t action resolved event)
    (transacts : Transacts uuid7 owed drawn t next after) : ContinuedSound after := by
  -- The gate of a continuation stands as it was answered.
  have stands {gate : Gate} (held : gate ∈ t.gates) (approved : gate.status = .approved) :
      gate ∈ after.gates := by
    obtain ⟨new, later, moved⟩ := gate_kept transacts held
    exact moved.frozen (approved_not_pending (sound.marked gate held) approved) ▸ later
  have change := deliveries_change transacts
  obtain ⟨once, answers⟩ := continued
  have kept : ∀ row ∈ t.deliveries, ∀ action, row.continues = some action →
      ∃ gate ∈ after.gates, gate.action = action ∧ gate.status = .approved ∧
        ∃ event, gate.event = some event ∧ row.fleet = gate.fleet ∧
          row.workspace = gate.workspace ∧ row.actor = continuationActor event := by
    intro row member action keyed
    obtain ⟨gate, held, same, approved, rest⟩ := answers row member action keyed
    exact ⟨gate, stands held approved, same, approved, rest⟩
  refine ⟨?_, ?_⟩
  · generalize after.deliveries = rows at change ⊢
    cases change with
    | kept _ same => rwa [filterMap_continues, same, ← filterMap_continues]
    | delivered => simpa using once
    | continued resolved event owing first =>
        rw [List.filterMap_append]
        refine once.append (by simp) fun action earlier later => ?_
        obtain ⟨row, member, keyed⟩ := List.mem_filterMap.mp earlier
        simp only [List.filterMap_cons, List.filterMap_nil, List.mem_singleton] at later
        exact first row member (later ▸ keyed)
  · intro row member action keyed
    generalize after.deliveries = rows at change member
    cases change with
    | kept _ same =>
        have fixed := List.mem_map_of_mem (f := Delivery.fixed) member
        rw [same] at fixed
        obtain ⟨old, held, equal⟩ := List.mem_map.mp fixed
        simp only [Delivery.fixed, Prod.mk.injEq] at equal
        obtain ⟨-, fleet, workspace, actor, continues⟩ := equal
        have before := kept old held action (continues.trans keyed)
        rwa [fleet, workspace, actor] at before
    | delivered fleet workspace actor =>
        rcases List.mem_append.mp member with old | new
        · exact kept row old action keyed
        · rw [List.mem_singleton] at new
          exact nomatch new ▸ keyed
    | continued resolved event owing first =>
        rcases List.mem_append.mp member with old | new
        · exact kept row old action keyed
        · rw [List.mem_singleton] at new
          subst new
          obtain ⟨asked, underway⟩ := owes resolved event owing
          obtain ⟨gate, held, decodes⟩ := underway.recorded
          obtain ⟨resolver, named, same⟩ := Option.map_eq_some_iff.mp decodes
          rw [Resolved.mk.injEq] at same
          obtain ⟨-, actionEq, workspaceEq, fleetEq, statusEq, -, -, -, eventEq, -⟩ := same
          have approved := statusEq.trans underway.approved
          exact ⟨gate, stands held approved, actionEq.trans (Option.some.inj keyed), approved,
            event, eventEq.trans underway.holds, fleetEq.symm, workspaceEq.symm, rfl⟩

end Kept

/-! ## The desk -/

def Once (calls : List Call) : Prop :=
  ∀ (i j : Nat) (one other : Call), calls[i]? = some one → calls[j]? = some other →
    one.phase.won = true → other.phase.won = true →
      one.answering.action = other.answering.action → i = j

structure Desk.Sound (uuid7 : Nat → String) (d : Desk) : Prop where
  gates : GatesSound uuid7 d.drawn d.tables.gates
  continued : ContinuedSound d.tables
  calls : ∀ call ∈ d.calls, call.phase.Sound d.tables call.answering.action
  once : Once d.calls

section Turning

variable {uuid7 : Nat → String} {d after : Desk} {a : Answering} {phase next : CallPhase}

theorem resolveGate_won {t : Tables} {now : Int} {row : Gate}
    (moved : (t.resolveGate a now).2 = some row) :
    row ∈ (t.resolveGate a now).1.gates ∧
      ∃ old ∈ t.gates, a.picks old = true ∧ row = a.close now old := by
  have member := List.mem_of_head? moved
  obtain ⟨old, inside, rfl⟩ := List.mem_map.mp member
  obtain ⟨held, picked⟩ := List.mem_filter.mp inside
  refine ⟨Table.mem_update.mpr ⟨old, held, ?_⟩, old, held, picked, rfl⟩
  rw [if_pos picked]

theorem action_of_picks {row : Gate} (picked : a.picks row = true) : row.action = a.action := by
  simp only [Answering.picks, Bool.and_eq_true, beq_iff_eq] at picked
  exact picked.1.1

theorem afterWin_sound {t : Tables} {resolved : Resolved} (recorded : Recorded t resolved)
    (unnamed : resolved.continuation = none) (status : resolved.status = a.outcome.status)
    (action : resolved.action = a.action) : (afterWin a.outcome resolved).Sound t a.action := by
  unfold afterWin
  split
  · rename_i event continues held
    have approved : a.outcome.status = .approved := by
      cases outcome : a.outcome with
      | approved => rfl
      | denied | timedOut => exact absurd continues (by rw [outcome]; exact Bool.false_ne_true)
    exact ⟨recorded, unnamed, status.trans approved, held, action⟩
  · rename_i ends
    intro report reported
    cases reported
    refine ⟨recorded, ⟨fun approved held => ?_, fun _ => unnamed⟩, action⟩
    obtain ⟨event, holds⟩ := Option.ne_none_iff_exists'.mp held
    refine absurd holds (ends event ?_)
    cases outcome : a.outcome with
    | approved => rfl
    | denied | timedOut => exact absurd (status.symm.trans approved) (by rw [outcome]; decide)

theorem stood_sound {t : Tables} {resolved : Resolved} (recorded : Recorded t resolved)
    (unnamed : resolved.continuation = none) (action : resolved.action = a.action) :
    (stood resolved).Sound t a.action := by
  have ended (owes : resolved.status = .approved → resolved.event = none) :
      (CallPhase.ended (some (.alreadyResolved resolved))).Sound t a.action := by
    intro report reported
    cases reported
    exact ⟨recorded, ⟨fun approved held => absurd (owes approved) held, fun _ => unnamed⟩, action⟩
  unfold stood
  split
  · rename_i parked
    refine ended fun approved => ?_
    simpa [leavesDeliveryParked, approved] using parked
  · split
    · rename_i event approved holds
      exact ⟨recorded, unnamed, approved, holds, action⟩
    · rename_i other
      refine ended fun approved => ?_
      by_contra held
      obtain ⟨event, holds⟩ := Option.ne_none_iff_exists'.mp held
      exact other event approved holds

variable (uuid7) in
theorem continues_continuationOf (d : Desk) (resolved : Resolved) (event : String) :
    Continues (d.continuationOf uuid7 resolved event).1.tables resolved.action
      (d.continuationOf uuid7 resolved event).2 := by
  unfold Desk.continuationOf
  split
  · rename_i row found
    have keyed : (row.continues == some resolved.action) = true := by
      exact List.find?_some (p := fun other : Delivery => other.continues == _) found
    exact ⟨row, List.mem_of_find?_eq_some found, beq_iff_eq.mp keyed, rfl⟩
  · exact ⟨_, List.mem_append_right _ (List.mem_singleton_self _), rfl, rfl⟩

theorem recorded_of_row {t : Tables} {row : Gate} (member : row ∈ t.gates) {resolved : Resolved}
    (decodes : Resolved.of row = some resolved) :
    Recorded t resolved ∧ resolved.continuation = none := by
  have unnamed : resolved.continuation = none := by
    obtain ⟨resolver, -, rfl⟩ := Option.map_eq_some_iff.mp decodes
    rfl
  have same : { resolved with continuation := none } = resolved := by rw [← unnamed]
  exact ⟨⟨row, member, same ▸ decodes⟩, unnamed⟩

theorem turn_sound (sound : GatesSound uuid7 d.drawn d.tables.gates)
    (transacts : Transacts uuid7 d.Owed d.drawn d.tables after.drawn after.tables)
    (held : phase.Sound d.tables a.action) (turn : Turn uuid7 d a phase after next) :
    next.Sound after.tables a.action := by
  have kept := phase_kept sound transacts held
  cases turn with
  | lost => exact sound_ended_none _ _
  | won now row moved =>
      obtain ⟨member, old, inside, picked, rfl⟩ := resolveGate_won moved
      cases decodes : Resolved.of (a.close now old) with
      | none => exact sound_ended_none _ _
      | some resolved =>
          obtain ⟨recorded, unnamed⟩ := recorded_of_row member decodes
          obtain ⟨resolver, -, rfl⟩ := Option.map_eq_some_iff.mp decodes
          have same : old.action = a.action := action_of_picks picked
          exact afterWin_sound recorded unnamed rfl same
  | missed => trivial
  | read row found =>
      obtain ⟨member, picked⟩ := newest_mem found
      cases decodes : Resolved.of row with
      | none => exact sound_ended_none _ _
      | some resolved =>
          obtain ⟨recorded, unnamed⟩ := recorded_of_row member decodes
          refine stood_sound recorded unnamed ((of_row_action decodes).trans ?_)
          exact beq_iff_eq.mp ((Bool.and_eq_true _ _).mp picked).1
  | absent => exact fun resolved reported => nomatch reported
  | found resolved event row member keyed =>
      intro report reported
      cases reported
      refine ⟨held.recorded, ⟨fun _ _ => ⟨row.id, rfl, row, member, keyed, rfl⟩, fun other => ?_⟩,
        held.action⟩
      rcases other with unapproved | without
      · exact absurd held.approved unapproved
      · exact absurd without (held.holds ▸ Option.some_ne_none event)
  | unfound => exact held
  | admitted won resolved event =>
      have continues := continues_continuationOf uuid7 d resolved event
      exact ⟨kept, kept.action ▸ continues⟩
  | opened won resolved event id =>
      intro report reported
      rw [Option.bind_some, reported_reportAs] at reported
      cases reported
      obtain ⟨underway, continues⟩ := kept
      refine ⟨underway.recorded, ⟨fun _ _ => ⟨id, rfl, underway.action ▸ continues⟩,
        fun other => ?_⟩, underway.action⟩
      rcases other with unapproved | without
      · exact absurd underway.approved unapproved
      · exact absurd without (underway.holds ▸ Option.some_ne_none event)

theorem turn_won (turn : Turn uuid7 d a phase after next) (won : next.won = true) :
    phase.won = true ∨
      ∃ row ∈ d.tables.gates, row.action = a.action ∧ row.isPending = true := by
  cases turn with
  | lost | missed | absent | found | unfound => exact absurd won Bool.false_ne_true
  | won now row moved =>
      obtain ⟨-, old, inside, picked, -⟩ := resolveGate_won moved
      exact .inr ⟨old, inside, action_of_picks picked, Answering.pending_of_picks picked⟩
  | read row found =>
      cases decodes : Resolved.of row with
      | none =>
          rw [decodes] at won
          exact absurd won Bool.false_ne_true
      | some resolved =>
          rw [decodes, Option.elim_some] at won
          unfold stood at won
          split at won
          · exact absurd won Bool.false_ne_true
          · split at won <;> exact absurd won Bool.false_ne_true
  | admitted => exact .inl won
  | opened won' resolved event id =>
      cases won' with
      | true => exact .inl rfl
      | false => exact absurd won Bool.false_ne_true

end Turning

section Step

variable (fromStr : String → Option Json) {uuid7 : Nat → String}

theorem owed_underway {d : Desk} (sound : d.Sound uuid7) (resolved : Resolved) (event : String)
    (owed : d.Owed resolved event) : ∃ action, Underway d.tables action resolved event := by
  obtain ⟨call, member, won, phase⟩ := owed
  have held := sound.calls call member
  rw [phase] at held
  exact ⟨_, held⟩

theorem sound_of_calls (distinct : Function.Injective uuid7) {d after : Desk}
    (sound : d.Sound uuid7)
    (transacts : Transacts uuid7 d.Owed d.drawn d.tables after.drawn after.tables)
    (calls : after.calls = d.calls ∨ ∃ a, after.calls = d.calls ++ [⟨a, .resolving⟩]) :
    after.Sound uuid7 := by
  refine ⟨gates_sound distinct sound.gates transacts,
    continued_sound sound.gates sound.continued (owed_underway sound) transacts, ?_, ?_⟩
  · intro call member
    rcases calls with same | ⟨a, begun⟩
    · rw [same] at member
      exact phase_kept sound.gates transacts (sound.calls call member)
    · rw [begun] at member
      rcases List.mem_append.mp member with old | new
      · exact phase_kept sound.gates transacts (sound.calls call old)
      · rw [List.mem_singleton] at new
        exact new ▸ trivial
  · intro i j one other atI atJ wonI wonJ same
    rcases calls with kept | ⟨a, begun⟩
    · rw [kept] at atI atJ
      exact sound.once i j one other atI atJ wonI wonJ same
    · rw [begun] at atI atJ
      -- A call that has only begun has won nothing.
      have earlier {k : Nat} {call : Call} (at_ : (d.calls ++ [⟨a, .resolving⟩])[k]? = some call)
          (won : call.phase.won = true) : d.calls[k]? = some call := by
        by_cases inside : k < d.calls.length
        · rwa [List.getElem?_append_left inside] at at_
        · rw [List.getElem?_append_right (by omega)] at at_
          have begins := List.mem_of_getElem? at_
          rw [List.mem_singleton] at begins
          rw [begins] at won
          exact absurd won Bool.false_ne_true
      exact sound.once i j one other (earlier atI wonI) (earlier atJ wonJ) wonI wonJ same

theorem once_set {calls : List Call} {slot : Nat} {a : Answering} {phase next : CallPhase}
    (once : Once calls) (found : calls[slot]? = some ⟨a, phase⟩)
    (fresh : next.won = true → phase.won = true ∨
      ∀ call ∈ calls, call.phase.won = true → call.answering.action ≠ a.action) :
    Once (calls.set slot ⟨a, next⟩) := by
  have inside : slot < calls.length := (List.getElem?_eq_some_iff.mp found).1
  -- What stands in a slot, and whether the turn changed it.
  have stood {k : Nat} {call : Call} (at_ : (calls.set slot ⟨a, next⟩)[k]? = some call) :
      k = slot ∧ call = ⟨a, next⟩ ∨ k ≠ slot ∧ calls[k]? = some call := by
    by_cases here : k = slot
    · subst here
      rw [List.getElem?_set_self inside] at at_
      exact .inl ⟨rfl, (Option.some.inj at_).symm⟩
    · rw [List.getElem?_set_ne (Ne.symm here)] at at_
      exact .inr ⟨here, at_⟩
  have against {k : Nat} {call : Call} (at_ : calls[k]? = some call)
      (won : call.phase.won = true) (same : call.answering.action = a.action)
      (nextWon : next.won = true) : k = slot := by
    rcases fresh nextWon with before | none_won
    · exact once k slot call ⟨a, phase⟩ at_ found won before same
    · exact absurd same (none_won call (List.mem_of_getElem? at_) won)
  intro i j one other atI atJ wonI wonJ same
  rcases stood atI with ⟨hereI, rfl⟩ | ⟨awayI, oldI⟩
  · rcases stood atJ with ⟨hereJ, -⟩ | ⟨awayJ, oldJ⟩
    · exact hereI.trans hereJ.symm
    · exact absurd (against oldJ wonJ same.symm wonI) awayJ
  · rcases stood atJ with ⟨-, rfl⟩ | ⟨-, oldJ⟩
    · exact absurd (against oldI wonI same wonJ) awayI
    · exact once i j one other oldI oldJ wonI wonJ same

theorem answer_sound (distinct : Function.Injective uuid7) {d : Desk} (sound : d.Sound uuid7)
    (slot : Nat) (io : Io) (now : Int) : (d.answer uuid7 slot io now).Sound uuid7 := by
  have transacts := answer_transacts uuid7 d slot io now
  cases found : d.calls[slot]? with
  | none =>
      have idle : d.answer uuid7 slot io now = d := by
        unfold Desk.answer
        rw [found]
      rw [idle]
      exact sound
  | some call =>
      obtain ⟨a, phase⟩ := call
      rcases answer_turns uuid7 found io now with ⟨-, idle⟩ | ⟨after, next, turn, steps⟩
      · rw [idle]
        exact sound
      · rw [steps] at transacts ⊢
        have turned : Transacts uuid7 d.Owed d.drawn d.tables after.drawn after.tables := transacts
        have held : phase.Sound d.tables a.action := sound.calls _ (List.mem_of_getElem? found)
        have turned := turn_sound sound.gates turned held turn
        have calls : (after.setCall slot a next).calls = d.calls.set slot ⟨a, next⟩ := by
          rw [Desk.setCall, turn_calls uuid7 turn]
        refine ⟨gates_sound distinct sound.gates transacts,
          continued_sound sound.gates sound.continued (owed_underway sound) transacts, ?_, ?_⟩
        · intro other member
          rw [calls] at member
          rcases List.mem_or_eq_of_mem_set member with old | rfl
          · exact phase_kept sound.gates transacts (sound.calls other old)
          · exact turned
        · rw [calls]
          refine once_set sound.once found fun won => ?_
          rcases turn_won turn won with before | ⟨row, inside, same, pending⟩
          · exact .inl before
          · -- The row it moved was pending, so nobody's answer had moved it.
            refine .inr fun other member otherWon asked => ?_
            obtain ⟨resolved, ⟨gate, gateIn, decodes⟩, action⟩ :=
              recorded_of_won (sound.calls other member) otherWon
            have sameAction : gate.action = row.action :=
              ((of_row_action decodes).symm.trans (action.trans asked)).trans same.symm
            have sameRow : gate = row :=
              List.inj_on_of_nodup_map sound.gates.actions gateIn inside sameAction
            have answered := of_row_answered (sound.gates.marked gate gateIn) decodes
            rw [sameRow, pending] at answered
            exact absurd answered (by decide)

theorem step_sound (distinct : Function.Injective uuid7) {d : Desk} (sound : d.Sound uuid7)
    (event : Event) : (d.step fromStr uuid7 event).Sound uuid7 := by
  have transacts := step_transacts fromStr uuid7 d event
  cases event with
  | answer slot io now => exact answer_sound distinct sound slot io now
  | resolve a => exact sound_of_calls distinct sound transacts (.inr ⟨a, rfl⟩)
  | poll slot io now =>
      refine sound_of_calls distinct sound transacts (.inl ?_)
      simp only [Desk.step]
      unfold Desk.poll
      split
      · rfl
      · split <;> first
          | rfl
          | (split <;> rfl)
          | (dsimp only; split <;> rfl)
  | mirror action text =>
      refine sound_of_calls distinct sound transacts (.inl ?_)
      simp only [Desk.step]
      split <;> rfl
  | lease id =>
      refine sound_of_calls distinct sound transacts (.inl ?_)
      simp only [Desk.step, Desk.leaseOpens]
      split <;> rfl
  | begin | sweep | request | revoke | cancelSetup | forget | garble | unmirror | windowEnds
  | resume | deliver | settled | park =>
      exact sound_of_calls distinct sound transacts (.inl rfl)

theorem start_sound : Desk.start.Sound uuid7 :=
  ⟨⟨List.nodup_nil, List.nodup_nil, List.forall_mem_nil _, List.forall_mem_nil _⟩,
    ⟨List.nodup_nil, List.forall_mem_nil _⟩, List.forall_mem_nil _,
    fun _ _ _ _ found => nomatch found⟩

end Step

/-! ## Event rows and their announcements -/

def Opened.key (row : Opened) : String × String := (row.fleet, row.event)

structure ReceivedSound (events : List Opened) (received : List (String × String)) : Prop where
  keys : (events.map Opened.key).Nodup
  once : received.Nodup
  landed : ∀ key ∈ received, key ∈ events.map Opened.key

section Received

variable {uuid7 : Nat → String}

/-- An event row is found and keeps its key, or inserted under a new one. -/
theorem openEvent_spec (t : Tables) (fleet event actor : String) (resumes : Option String) :
    (t.openEvent fleet event actor resumes).2 = false ∧
        (t.openEvent fleet event actor resumes).1.events.map Opened.key =
          t.events.map Opened.key ∨
      (t.openEvent fleet event actor resumes).2 = true ∧
        (fleet, event) ∉ t.events.map Opened.key ∧
        (t.openEvent fleet event actor resumes).1.events.map Opened.key =
          t.events.map Opened.key ++ [(fleet, event)] := by
  unfold Tables.openEvent
  dsimp only
  split
  · exact .inl ⟨rfl, Table.column_update Opened.key _ _ (fun _ => by rfl) _⟩
  · rename_i absent
    refine .inr ⟨rfl, fun taken => absent ?_, by rw [List.map_append]; rfl⟩
    obtain ⟨row, member, same⟩ := List.mem_map.mp taken
    rw [Opened.key, Prod.mk.injEq] at same
    exact List.any_eq_true.mpr ⟨row, member, by simp [same.1, same.2]⟩

theorem openEvent_received {t : Tables} {received : List (String × String)}
    (sound : ReceivedSound t.events received) (fleet event actor : String)
    (resumes : Option String) (heard : Bool) :
    ReceivedSound (t.openEvent fleet event actor resumes).1.events
      (if (t.openEvent fleet event actor resumes).2 && heard then (fleet, event) :: received
        else received) := by
  rcases openEvent_spec t fleet event actor resumes with ⟨found, keys⟩ | ⟨landed, fresh, keys⟩
  · rw [found, Bool.false_and, if_neg Bool.false_ne_true]
    exact ⟨keys ▸ sound.keys, sound.once, keys ▸ sound.landed⟩
  · have wider : ∀ key ∈ received,
        key ∈ (t.openEvent fleet event actor resumes).1.events.map Opened.key := by
      intro key member
      rw [keys]
      exact List.mem_append_left _ (sound.landed key member)
    have apart : ((t.openEvent fleet event actor resumes).1.events.map Opened.key).Nodup := by
      rw [keys]
      refine sound.keys.append (List.nodup_singleton _) fun key earlier later => ?_
      exact fresh (List.mem_singleton.mp later ▸ earlier)
    rw [landed, Bool.true_and]
    cases heard with
    | false => exact ⟨apart, sound.once, wider⟩
    | true =>
        refine ⟨apart, List.nodup_cons.mpr ⟨fun again => fresh (sound.landed _ again), sound.once⟩,
          ?_⟩
        intro key member
        rcases List.mem_cons.mp member with rfl | old
        · rw [keys]
          exact List.mem_append_right _ (List.mem_singleton_self _)
        · exact wider key old

variable (uuid7) in
theorem continuationOf_events (d : Desk) (resolved : Resolved) (event : String) :
    (d.continuationOf uuid7 resolved event).1.tables.events = d.tables.events ∧
      (d.continuationOf uuid7 resolved event).1.received = d.received := by
  unfold Desk.continuationOf
  split <;> exact ⟨rfl, rfl⟩

theorem answer_received {d : Desk} (sound : ReceivedSound d.tables.events d.received)
    (slot : Nat) (io : Io) (now : Int) :
    ReceivedSound (d.answer uuid7 slot io now).tables.events
      (d.answer uuid7 slot io now).received := by
  have admitted (resolved : Resolved) (event : String) :
      ReceivedSound (d.continuationOf uuid7 resolved event).1.tables.events
        (d.continuationOf uuid7 resolved event).1.received := by
    obtain ⟨events, received⟩ := continuationOf_events uuid7 d resolved event
    rw [events, received]
    exact sound
  unfold Desk.answer
  split
  · exact sound
  · split <;> first
      | exact sound
      | exact admitted _ _
      | exact openEvent_received sound _ _ _ _ _
      | (split <;> exact sound)

theorem request_events (t : Tables) (grantId id action fleet workspace : String)
    (wanted : Wanted) (now : Int) :
    (t.request grantId id action fleet workspace wanted now).1.events = t.events := by
  unfold Tables.request Tables.requestGrant Tables.ensureGrant
  dsimp only
  split <;> split <;> first | rfl | (split <;> rfl)

theorem step_received (fromStr : String → Option Json) {d : Desk}
    (sound : ReceivedSound d.tables.events d.received) (event : Event) :
    ReceivedSound (d.step fromStr uuid7 event).tables.events
      (d.step fromStr uuid7 event).received := by
  cases event with
  | answer slot io now => exact answer_received sound slot io now
  | poll slot io now =>
      simp only [Desk.step]
      unfold Desk.poll
      split
      · exact sound
      · split <;> first
          | exact sound
          | (split <;> exact sound)
          | (dsimp only; split <;> exact sound)
  | request fleet workspace wanted now =>
      simp only [Desk.step, request_events]
      exact sound
  | mirror action text =>
      simp only [Desk.step]
      split <;> exact sound
  | lease id =>
      simp only [Desk.step, Desk.leaseOpens]
      split
      · exact sound
      · rename_i row _
        have opened := openEvent_received sound row.fleet row.id row.actor none true
        rwa [Bool.and_true] at opened
  | begin | resolve | sweep | revoke | cancelSetup | forget | garble | unmirror | windowEnds
  | resume | deliver | settled | park => exact sound

end Received

/-! ## Runs -/

structure Answered (t : Taken Desk Event) : Prop where
  stands : ∀ row ∈ t.before.tables.gates, row.isPending = false → row ∈ t.after.tables.gates
  once : ∀ (i j : Nat) (one other : Call), t.after.calls[i]? = some one →
    t.after.calls[j]? = some other → one.phase.won = true → other.phase.won = true →
      one.answering.action = other.answering.action → i = j
  reports : ∀ call ∈ t.after.calls, ∀ answer resolved, call.phase = .ended (some answer) →
    answer.reported = some resolved → ∃ row ∈ t.after.tables.gates,
      row.action = call.answering.action ∧ row.isPending = false ∧
        Resolved.of row = some { resolved with continuation := none }
  alike : ∀ one ∈ t.after.calls, ∀ other ∈ t.after.calls, ∀ first second resolved again,
    one.phase = .ended (some first) → other.phase = .ended (some second) →
      first.reported = some resolved → second.reported = some again →
        one.answering.action = other.answering.action →
          { resolved with continuation := none } = { again with continuation := none }

def serial (n : Nat) : String := String.ofList (List.replicate n 'x')

theorem serial_injective : Function.Injective serial := by
  intro m n same
  have lengths := congrArg (fun text => text.toList.length) same
  simpa [serial] using lengths

/-- A chat nobody may run before a person says yes. -/
def guarded : Check :=
  ⟨"fleet", "workspace", "event", "chat", "actor", "", some
    ⟨[⟨"chat", "*", none, .approve, "reply", ""⟩], [], 1000⟩⟩

def asks (outcome : Outcome) (resolver : String) : Event :=
  .resolve ⟨serial 0, outcome, resolver, "", ""⟩

/-- A gate is raised, two people answer it at once, and the first is told of the run's
continuation. -/
def answeredTwice : List Event :=
  [.begin guarded, .poll 0 .answered 0, .poll 0 .answered 0, .poll 0 .answered 1,
    .poll 0 .answered 1, asks .approved "first", asks .denied "second", .answer 0 .answered 2,
    .answer 1 .answered 3, .answer 1 .answered 3, .answer 0 .answered 4, .answer 0 .answered 5,
    .answer 1 .answered 6]

/-- A run an approval unblocked continues once, and everyone who is told of the approval is
told of that continuation. -/
structure ContinuedOnce (d : Desk) : Prop where
  once : (d.tables.deliveries.filterMap Delivery.continues).Nodup
  answers : ∀ row ∈ d.tables.deliveries, ∀ action, row.continues = some action →
    ∃ gate ∈ d.tables.gates, gate.action = action ∧ gate.status = .approved ∧
      ∃ event, gate.event = some event ∧ row.fleet = gate.fleet ∧
        row.workspace = gate.workspace ∧ row.actor = continuationActor event
  told : ∀ call ∈ d.calls, ∀ answer resolved event, call.phase = .ended (some answer) →
    answer.reported = some resolved → resolved.status = .approved →
      resolved.event = some event → ∃ row ∈ d.tables.deliveries,
        row.continues = some call.answering.action ∧ resolved.continuation = some row.id
  untold : ∀ call ∈ d.calls, ∀ answer resolved, call.phase = .ended (some answer) →
    answer.reported = some resolved → resolved.status ≠ .approved ∨ resolved.event = none →
      resolved.continuation = none
  announced : d.received.Nodup

section Runs

variable (fromStr : String → Option Json) {uuid7 : Nat → String}

theorem sound_reported {d : Desk} (sound : d.Sound uuid7) {call : Call} (member : call ∈ d.calls)
    {answer : Resolution} {resolved : Resolved} (ended : call.phase = .ended (some answer))
    (reported : answer.reported = some resolved) :
    Reported d.tables call.answering.action resolved := by
  have held := sound.calls call member
  rw [ended] at held
  exact held resolved reported

theorem step_answered (distinct : Function.Injective uuid7) {d : Desk} (sound : d.Sound uuid7)
    (event : Event) : Answered ⟨d, event, d.step fromStr uuid7 event⟩ := by
  have after := step_sound fromStr distinct sound event
  have reports : ∀ call ∈ (d.step fromStr uuid7 event).calls, ∀ answer resolved,
      call.phase = .ended (some answer) → answer.reported = some resolved →
        ∃ row ∈ (d.step fromStr uuid7 event).tables.gates,
          row.action = call.answering.action ∧ row.isPending = false ∧
            Resolved.of row = some { resolved with continuation := none } := by
    intro call member answer resolved ended reported
    have report := sound_reported after member ended reported
    obtain ⟨row, inside, decodes⟩ := report.recorded
    exact ⟨row, inside, (of_row_action decodes).symm.trans report.action,
      of_row_answered (after.gates.marked row inside) decodes, decodes⟩
  refine ⟨fun row held answered => ?_, after.once, reports, ?_⟩
  · obtain ⟨new, later, moved⟩ := gate_kept (step_transacts fromStr uuid7 d event) held
    exact moved.frozen answered ▸ later
  · intro one oneIn other otherIn first second resolved again oneEnds otherEnds tells retells same
    obtain ⟨row, inside, action, -, decodes⟩ := reports one oneIn first resolved oneEnds tells
    obtain ⟨row', inside', action', -, decodes'⟩ :=
      reports other otherIn second again otherEnds retells
    have sameRow : row = row' := List.inj_on_of_nodup_map after.gates.actions inside inside'
      ((action.trans same).trans action'.symm)
    exact Option.some.inj (decodes.symm.trans (sameRow ▸ decodes'))

/-- In every run each action is answered once: one call at most wins it, the row it moved
stands as it was answered, and every call that ends is told that answer. -/
theorem first_answer_stands (distinct : Function.Injective uuid7) (events : List Event) :
    ∀ t ∈ taken (Desk.step fromStr uuid7) Desk.start events, Answered t := by
  intro t member
  obtain ⟨sound, steps⟩ := Run.taken_step (fun d event (sound : Desk.Sound uuid7 d) =>
    step_sound fromStr distinct sound event) start_sound t member
  have answered := step_answered fromStr distinct sound t.event
  rw [← steps] at answered
  exact answered

theorem first_answer_stands_answeredTwice :
    ∃ t ∈ taken (Desk.step (fun _ => none) serial) Desk.start answeredTwice,
      t.after.calls.map (fun call => match call.phase with
        | .ended (some answer) => answer.reported.map fun report =>
            (report.status, report.resolvedBy, report.continuation)
        | _ => none) =
        [some (.approved, "first", some (serial 2)), some (.approved, "first", some (serial 2))] ∧
      Answered t := by
  have last := List.mem_of_getElem? (i := 12)
    (l := taken (Desk.step (fun _ => none) serial) Desk.start answeredTwice) rfl
  refine ⟨_, last, ?_, first_answer_stands (fun _ => none) serial_injective answeredTwice _ last⟩
  decide

theorem sound_continued {d : Desk} (sound : d.Sound uuid7)
    (received : ReceivedSound d.tables.events d.received) : ContinuedOnce d := by
  refine ⟨sound.continued.once, sound.continued.answers, ?_, ?_, received.once⟩
  · intro call member answer resolved event ended reported approved holds
    have report := sound_reported sound member ended reported
    obtain ⟨id, named, row, inside, keyed, same⟩ :=
      report.told.continued approved (holds ▸ Option.some_ne_none event)
    exact ⟨row, inside, report.action ▸ keyed, same ▸ named⟩
  · intro call member answer resolved ended reported
    exact (sound_reported sound member ended reported).told.otherwise

/-- In every run an approved run continues once, however often its gate is answered. -/
theorem approved_run_continues_once (distinct : Function.Injective uuid7) (events : List Event) :
    ∀ d ∈ Run.states (Desk.step fromStr uuid7) Desk.start events, ContinuedOnce d := by
  have keeps : ∀ d event, Desk.Sound uuid7 d ∧ ReceivedSound d.tables.events d.received →
      Desk.Sound uuid7 (d.step fromStr uuid7 event) ∧
        ReceivedSound (d.step fromStr uuid7 event).tables.events
          (d.step fromStr uuid7 event).received :=
    fun d event held => ⟨step_sound fromStr distinct held.1 event,
      step_received fromStr held.2 event⟩
  have start : Desk.Sound uuid7 Desk.start ∧
      ReceivedSound Desk.start.tables.events Desk.start.received :=
    ⟨start_sound, ⟨List.nodup_nil, List.nodup_nil, List.forall_mem_nil _⟩⟩
  intro d member
  have held := Run.invariant_of_step _ keeps start events d member
  exact sound_continued held.1 held.2

theorem approved_run_continues_once_answeredTwice :
    ∃ d ∈ Run.states (Desk.step (fun _ => none) serial) Desk.start answeredTwice,
      d.tables.deliveries.map Delivery.continues = [some (serial 0)] ∧ ContinuedOnce d := by
  have last := Run.final_mem_states (Desk.step (fun _ => none) serial) Desk.start answeredTwice
  refine ⟨_, last, ?_, approved_run_continues_once (fun _ => none) serial_injective
    answeredTwice _ last⟩
  decide

end Runs

end Agentsfleet.Approval
