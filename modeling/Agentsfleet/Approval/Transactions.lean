import Agentsfleet.Approval.Desk

/-!
# What the transactions leave of the tables

Every step of the desk is at most one transaction.  A gate is inserted pending, under
identifiers drawn for it, and moves once: a statement closes it and nothing moves it again.
-/

set_option autoImplicit false

namespace Agentsfleet.Approval

open Agentsfleet.Core
open Agentsfleet.Library
open Agentsfleet.Library.Table (Grows)

/-! ## How a gate moves -/

inductive Moves (old : Gate) : Gate → Prop where
  | stays : Moves old old
  | closes (status : GateStatus) (resolver detail : String) (now : Int)
      (pending : old.isPending = true) (ends : status ≠ .pending) :
      Moves old (old.close status resolver detail now)

namespace Moves

variable {old new : Gate}

theorem id_eq (moved : Moves old new) : new.id = old.id := by cases moved <;> rfl

theorem action_eq (moved : Moves old new) : new.action = old.action := by cases moved <;> rfl

theorem fleet_eq (moved : Moves old new) : new.fleet = old.fleet := by cases moved <;> rfl

theorem event_eq (moved : Moves old new) : new.event = old.event := by cases moved <;> rfl

theorem frozen (moved : Moves old new) (answered : old.isPending = false) : new = old := by
  cases moved with
  | stays => rfl
  | closes _ _ _ _ pending => exact absurd pending (by rw [answered]; exact Bool.false_ne_true)

end Moves

structure Gate.Marked (row : Gate) : Prop where
  status : row.status = .pending ↔ row.isPending = true
  resolver : row.resolvedBy.isSome = !row.isPending
  active : row.activeGrant ≠ none → row.isPending = true

theorem Gate.Marked.moves {old new : Gate} (marked : old.Marked) (moved : Moves old new) :
    new.Marked := by
  cases moved with
  | stays => exact marked
  | closes status resolver detail now pending ends =>
      refine ⟨?_, rfl, fun active => absurd rfl active⟩
      simp [Gate.close, Gate.isPending, ends]

structure Gate.Born (row : Gate) : Prop where
  status : row.status = .pending
  resolvedAt : row.resolvedAt = none
  resolvedBy : row.resolvedBy = none

theorem Gate.Born.marked {row : Gate} (born : row.Born) : row.Marked := by
  refine ⟨?_, ?_, ?_⟩
  · simp [Gate.isPending, born.status, born.resolvedAt]
  · simp [Gate.isPending, born.resolvedBy, born.resolvedAt]
  · simp [Gate.isPending, born.resolvedAt]

/-! ## Transactions -/

/-- What one step makes of the tables, and how many identifiers it draws.  A continuation is
only admitted where one is owed. -/
inductive Transacts (uuid7 : Nat → String) (owed : Resolved → String → Prop) (drawn : Nat)
    (t : Tables) : Nat → Tables → Prop where
  | idle : Transacts uuid7 owed drawn t drawn t
  | raise (check : Check) (stated : Stated) (claim : Claim) (now : Int) :
      Transacts uuid7 owed drawn t (drawn + 2)
        (t.insertGate (check.row stated claim (uuid7 (drawn + 1)) (uuid7 drawn) now))
  | resolve (a : Answering) (now : Int) : Transacts uuid7 owed drawn t drawn (t.resolveGate a now).1
  | sweep (now : Int) : Transacts uuid7 owed drawn t drawn (t.expireGates now)
  | request (fleet workspace : String) (wanted : Wanted) (now : Int) :
      Transacts uuid7 owed drawn t (drawn + 3)
        (t.request (uuid7 drawn) (uuid7 (drawn + 1)) (uuid7 (drawn + 2)) fleet workspace wanted
          now).1
  | revoke (fleet grant : String) (now : Int) :
      Transacts uuid7 owed drawn t drawn (t.revokeGrant fleet grant now)
  | cancelSetup (fleet : String) (now : Int) :
      Transacts uuid7 owed drawn t drawn (t.cancelSetup fleet now)
  | deliver (fleet workspace actor : String) :
      Transacts uuid7 owed drawn t (drawn + 1) (t.deliver (uuid7 drawn) fleet workspace actor)
  | continueFrom (resolved : Resolved) (event : String) (owes : owed resolved event)
      (first : ∀ row ∈ t.deliveries, row.continues ≠ some resolved.action) :
      Transacts uuid7 owed drawn t (drawn + 1) (t.continueFrom (uuid7 drawn) resolved event)
  | settle (id : String) : Transacts uuid7 owed drawn t drawn (t.settleDelivery id)
  | park (fleet id : String) (now : Int) :
      Transacts uuid7 owed drawn t drawn (t.parkWaiting fleet id now)
  | openEvent (fleet event actor : String) (resumes : Option String) :
      Transacts uuid7 owed drawn t drawn (t.openEvent fleet event actor resumes).1

def Desk.Owed (d : Desk) (resolved : Resolved) (event : String) : Prop :=
  ∃ call ∈ d.calls, ∃ won, call.phase = .continuing won resolved event

section Steps

variable (fromStr : String → Option Json) (uuid7 : Nat → String)

theorem poll_transacts (d : Desk) (slot : Nat) (io : Io) (now : Int) :
    Transacts uuid7 d.Owed d.drawn d.tables (d.poll fromStr uuid7 slot io now).drawn
      (d.poll fromStr uuid7 slot io now).tables := by
  unfold Desk.poll
  split
  · exact .idle
  · split <;> first
      | exact .idle
      | exact .raise _ _ _ _
      | (split <;> exact .idle)
      | (dsimp only; split <;> exact .idle)

theorem continuationOf_transacts {d : Desk} {resolved : Resolved} {event : String}
    (owes : d.Owed resolved event) :
    Transacts uuid7 d.Owed d.drawn d.tables (d.continuationOf uuid7 resolved event).1.drawn
      (d.continuationOf uuid7 resolved event).1.tables := by
  unfold Desk.continuationOf
  split
  · exact .idle
  · rename_i missed
    refine .continueFrom _ _ owes fun row member => ?_
    have unlike := List.find?_eq_none.mp missed row member
    intro same
    exact unlike (beq_iff_eq.mpr same)

theorem answer_transacts (d : Desk) (slot : Nat) (io : Io) (now : Int) :
    Transacts uuid7 d.Owed d.drawn d.tables (d.answer uuid7 slot io now).drawn
      (d.answer uuid7 slot io now).tables := by
  unfold Desk.answer
  split
  · exact .idle
  · rename_i a phase found
    have owes : ∀ won resolved event, phase = .continuing won resolved event →
        d.Owed resolved event := fun won resolved event same =>
      ⟨⟨a, phase⟩, List.mem_of_getElem? found, won, same⟩
    split <;> first
      | exact .idle
      | exact .resolve _ _
      | exact continuationOf_transacts uuid7 (owes _ _ _ rfl)
      | exact .openEvent _ _ _ _
      | (split <;> exact .idle)
      | (dsimp only; split <;> exact .resolve _ _)

theorem step_transacts (d : Desk) (event : Event) :
    Transacts uuid7 d.Owed d.drawn d.tables (d.step fromStr uuid7 event).drawn
      (d.step fromStr uuid7 event).tables := by
  cases event with
  | begin | resolve | forget | garble | unmirror | windowEnds | resume => exact .idle
  | poll slot io now => exact poll_transacts fromStr uuid7 d slot io now
  | answer slot io now => exact answer_transacts uuid7 d slot io now
  | sweep now => exact .sweep now
  | request fleet workspace wanted now => exact .request fleet workspace wanted now
  | revoke fleet grant now => exact .revoke fleet grant now
  | cancelSetup fleet now => exact .cancelSetup fleet now
  | mirror action text =>
      simp only [Desk.step]
      split <;> exact .idle
  | deliver fleet workspace actor => exact .deliver fleet workspace actor
  | settled id => exact .settle id
  | park fleet id now => exact .park fleet id now
  | lease id =>
      simp only [Desk.step, Desk.leaseOpens]
      split
      · exact .idle
      · exact .openEvent _ _ _ _

end Steps

/-! ## Gates -/

structure Gate.Drawn (uuid7 : Nat → String) (low high : Nat) (row : Gate) : Prop where
  id : ∃ k, low ≤ k ∧ k < high ∧ row.id = uuid7 k
  action : ∃ k, low ≤ k ∧ k < high ∧ row.action = uuid7 k

theorem Gate.Drawn.mono {uuid7 : Nat → String} {low lower high higher : Nat} {row : Gate}
    (drawn : row.Drawn uuid7 low high) (below : lower ≤ low) (above : high ≤ higher) :
    row.Drawn uuid7 lower higher := by
  obtain ⟨⟨k, least, most, id⟩, j, least', most', action⟩ := drawn
  exact ⟨⟨k, by omega, by omega, id⟩, j, by omega, by omega, action⟩

structure GatesSound (uuid7 : Nat → String) (drawn : Nat) (gates : List Gate) : Prop where
  ids : (gates.map Gate.id).Nodup
  actions : (gates.map Gate.action).Nodup
  drawn : ∀ row ∈ gates, row.Drawn uuid7 0 drawn
  marked : ∀ row ∈ gates, row.Marked

theorem Outcome.status_ne_pending (outcome : Outcome) : outcome.status ≠ .pending := by
  cases outcome <;> exact fun same => nomatch same

theorem Answering.pending_of_picks {a : Answering} {row : Gate} (picked : a.picks row = true) :
    row.isPending = true := by
  simp only [Answering.picks, Bool.and_eq_true] at picked
  exact picked.1.2

@[simp] theorem ensureGrant_gates (t : Tables) (id fleet : String) (wanted : Wanted) (now : Int) :
    (t.ensureGrant id fleet wanted now).gates = t.gates := by
  unfold Tables.ensureGrant
  split <;> rfl

theorem request_gates (t : Tables) (grantId id action fleet workspace : String) (wanted : Wanted)
    (now : Int) :
    (t.request grantId id action fleet workspace wanted now).1.gates = t.gates ∨
      ∃ grant, (t.ensureGrant grantId fleet wanted now).grantOf fleet wanted.service = some grant ∧
        grant.status = .pending ∧ (∀ row ∈ t.gates, row.activeGrant ≠ some grant.id) ∧
        (t.request grantId id action fleet workspace wanted now).1.gates =
          t.gates ++ [wanted.card id action fleet workspace grant now] := by
  unfold Tables.request Tables.requestGrant
  dsimp only
  split
  · exact .inl (ensureGrant_gates t _ _ _ _)
  · rename_i grant found
    split
    · rename_i asks
      refine .inr ⟨grant, found, asks.1, fun row member active => ?_, ?_⟩
      · have none_active := asks.2
        rw [ensureGrant_gates, List.any_eq_false] at none_active
        exact none_active row member (beq_iff_eq.mpr active)
      · simp [Tables.insertGate]
    · exact .inl (ensureGrant_gates t _ _ _ _)

section Growth

variable {uuid7 : Nat → String} {owed : Resolved → String → Prop} {drawn next : Nat}
  {t after : Tables}

theorem fresh_id (distinct : Function.Injective uuid7) (sound : GatesSound uuid7 drawn t.gates)
    {k : Nat} (later : drawn ≤ k) : uuid7 k ∉ t.gates.map Gate.id := by
  intro taken
  obtain ⟨row, member, same⟩ := List.mem_map.mp taken
  obtain ⟨j, -, below, id⟩ := (sound.drawn row member).id
  have equal := distinct (id.symm.trans same)
  omega

theorem fresh_action (distinct : Function.Injective uuid7)
    (sound : GatesSound uuid7 drawn t.gates) {k : Nat} (later : drawn ≤ k) :
    uuid7 k ∉ t.gates.map Gate.action := by
  intro taken
  obtain ⟨row, member, same⟩ := List.mem_map.mp taken
  obtain ⟨j, -, below, action⟩ := (sound.drawn row member).action
  have equal := distinct (action.symm.trans same)
  omega

theorem draws (transacts : Transacts uuid7 owed drawn t next after) : drawn ≤ next := by
  cases transacts <;> omega

inductive GatesChange (uuid7 : Nat → String) (drawn next : Nat) (gates : List Gate) :
    List Gate → Prop where
  | kept : GatesChange uuid7 drawn next gates gates
  | closed (picks : Gate → Bool) (status : GateStatus) (resolver detail : String) (now : Int)
      (pending : ∀ row, picks row = true → row.isPending = true) (ends : status ≠ .pending) :
      GatesChange uuid7 drawn next gates
        (Table.update picks (Gate.close status resolver detail now) gates)
  | inserted (row : Gate) (born : row.Born) (fresh : row.Drawn uuid7 drawn next) :
      GatesChange uuid7 drawn next gates (gates ++ [row])

theorem gates_change (transacts : Transacts uuid7 owed drawn t next after) :
    GatesChange uuid7 drawn next t.gates after.gates := by
  cases transacts with
  | idle | revoke | deliver | continueFrom | settle | park => exact .kept
  | openEvent fleet event actor resumes =>
      unfold Tables.openEvent
      dsimp only
      split <;> exact .kept
  | raise check stated claim now =>
      exact .inserted _ ⟨rfl, rfl, rfl⟩
        ⟨⟨drawn + 1, by omega, by omega, rfl⟩, ⟨drawn, by omega, by omega, rfl⟩⟩
  | resolve a now =>
      exact .closed _ _ _ _ _ (fun _ => Answering.pending_of_picks) a.outcome.status_ne_pending
  | sweep now =>
      refine .closed _ .timedOut sweeper sweptDetail now (fun row picked => ?_) (by decide)
      exact ((Bool.and_eq_true _ _).mp picked).1
  | request fleet workspace wanted now =>
      rcases request_gates t (uuid7 drawn) (uuid7 (drawn + 1)) (uuid7 (drawn + 2)) fleet workspace
        wanted now with same | ⟨grant, -, -, -, raised⟩
      · rw [same]
        exact .kept
      · rw [raised]
        exact .inserted _ ⟨rfl, rfl, rfl⟩
          ⟨⟨drawn + 1, by omega, by omega, rfl⟩, ⟨drawn + 2, by omega, by omega, rfl⟩⟩
  | cancelSetup fleet now =>
      refine .closed _ .autoKilled _ _ now (fun row picked => ?_) (by decide)
      simp only [Bool.and_eq_true] at picked
      exact picked.1.2

theorem gates_grow {key : Gate → String}
    (fresh : ∀ row, Gate.Drawn uuid7 drawn next row → key row ∉ t.gates.map key)
    (transacts : Transacts uuid7 owed drawn t next after) :
    Grows Moves (fun row => row.Born ∧ row.Drawn uuid7 drawn next) key t.gates after.gates := by
  have change := gates_change transacts
  generalize after.gates = rows at change ⊢
  cases change with
  | kept => exact Grows.refl fun _ => .stays
  | closed picks status resolver detail now pending ends =>
      exact Grows.of_update (fun _ => .stays) fun row _ picked =>
        .closes _ _ _ _ (pending row picked) ends
  | inserted row born drawn =>
      exact Grows.of_insert (fun _ => .stays) (fresh row drawn) ⟨born, drawn⟩

theorem gates_grow_ids (distinct : Function.Injective uuid7)
    (sound : GatesSound uuid7 drawn t.gates) (transacts : Transacts uuid7 owed drawn t next after) :
    Grows Moves (fun row => row.Born ∧ row.Drawn uuid7 drawn next) Gate.id t.gates after.gates := by
  refine gates_grow (fun row fresh => ?_) transacts
  obtain ⟨k, least, -, id⟩ := fresh.id
  rw [id]
  exact fresh_id distinct sound least

theorem gates_sound (distinct : Function.Injective uuid7) (sound : GatesSound uuid7 drawn t.gates)
    (transacts : Transacts uuid7 owed drawn t next after) : GatesSound uuid7 next after.gates := by
  have grows := gates_grow_ids distinct sound transacts
  have byAction : Grows Moves (fun row => row.Born ∧ row.Drawn uuid7 drawn next) Gate.action
      t.gates after.gates := by
    refine gates_grow (fun row fresh => ?_) transacts
    obtain ⟨k, least, -, action⟩ := fresh.action
    rw [action]
    exact fresh_action distinct sound least
  have further := draws transacts
  refine ⟨grows.nodup (fun _ _ moved => moved.id_eq) sound.ids,
    byAction.nodup (fun _ _ moved => moved.action_eq) sound.actions, fun row member => ?_,
    fun row member => ?_⟩
  · rcases grows.backward member with ⟨old, held, moved⟩ | ⟨-, -, fresh⟩
    · have drawnBefore := (sound.drawn old held).mono (Nat.le_refl 0) further
      exact ⟨moved.id_eq ▸ drawnBefore.id, moved.action_eq ▸ drawnBefore.action⟩
    · exact fresh.mono (Nat.zero_le _) (Nat.le_refl _)
  · rcases grows.backward member with ⟨old, held, moved⟩ | ⟨-, born, -⟩
    · exact (sound.marked old held).moves moved
    · exact born.marked

theorem gate_kept (transacts : Transacts uuid7 owed drawn t next after) {row : Gate}
    (held : row ∈ t.gates) : ∃ new ∈ after.gates, Moves row new := by
  have change := gates_change transacts
  generalize after.gates = rows at change ⊢
  cases change with
  | kept => exact ⟨row, held, .stays⟩
  | closed picks status resolver detail now pending ends =>
      refine ⟨_, Table.mem_update.mpr ⟨row, held, rfl⟩, ?_⟩
      by_cases picked : picks row = true
      · rw [if_pos picked]
        exact .closes _ _ _ _ (pending row picked) ends
      · rw [if_neg picked]
        exact .stays
  | inserted new _ _ => exact ⟨row, List.mem_append_left _ held, .stays⟩

end Growth

end Agentsfleet.Approval
