import Agentsfleet.Approval.Rows
import Agentsfleet.Library.Trace

/-!
# The approval desk

Runners poll the events they lease, operators answer the questions those polls raise, and a
sweep closes what nobody answered.  A poll and an answer are each several statements over
two stores; any number of them stand between their statements, any statement may fail, and a
write may land without its caller hearing of it.  Whatever else the daemon and the stores do
meanwhile is an event of its own.
-/

set_option autoImplicit false

namespace Agentsfleet.Approval

open Agentsfleet.Core
open Agentsfleet.Library

/-! ## A poll -/

/-- One event, and what the pass needs to judge it.  The policy is the one its lease
resolved; another poll of the same event may carry another. -/
structure Check where
  fleet : String
  workspace : String
  event : String
  eventType : String
  actor : String
  requestJson : String
  gates : Option GatePolicy

inductive Phase where
  | looking
  | missing
  | counting (state : RefState) (policy : GatePolicy) (rest : List AnomalyRule)
  | stopping (trigger : Trigger)
  | raising (stated : Stated)
  | referencing (action : String)
  | mirrored (action : String)
  | standing (action : String)
  | ended (verdict : Verdict)

structure Poll where
  check : Check
  phase : Phase

section Judging

variable (fromStr : String → Option Json)

def Check.judge (check : Check) (state : RefState) (policy : GatePolicy) : Phase :=
  let matched := matchRule policy check.eventType check.actor (fromStr check.requestJson)
  match route state (some (Decision.of matched)) with
  | .pass => .ended .pass
  | .kill => .stopping .policy
  | .wait => .ended (.await .unreadable)
  | .requestNew =>
      let stated := Stated.of check.eventType check.actor check.event policy.timeoutMs
      .raising (matched.elim stated stated.under)
  | .evaluateRecorded => .ended (.await .unreadable)

def Check.count (check : Check) (state : RefState) (policy : GatePolicy) :
    List AnomalyRule → Phase
  | [] => check.judge fromStr state policy
  | rule :: rest => .counting state policy (rule :: rest)

def Check.firstEncounter (check : Check) (state : RefState) : Phase :=
  match check.gates with
  | none => .ended .pass
  | some policy => check.count fromStr state policy policy.anomalyRules

end Judging

def Check.row (check : Check) (stated : Stated) (claim : Claim) (id action : String) (now : Int) :
    Gate where
  id
  fleet := check.fleet
  workspace := check.workspace
  event := some check.event
  activeGrant := none
  action
  toolName := stated.tool
  actionName := stated.action
  gateType := stated.kind
  proposedAction := claim.proposedAction
  evidence := claim.evidence
  blastRadius := stated.radius
  expiresAt := now + stated.timeoutMs
  status := .pending
  resolvedAt := none
  resolvedBy := none
  detail := ""
  createdAt := now
  updatedAt := now

/-! ## An answer -/

structure Resolved where
  gate : String
  action : String
  workspace : String
  fleet : String
  status : GateStatus
  resolvedAt : Int
  resolvedBy : String
  detail : String
  event : Option String
  continuation : Option String
deriving DecidableEq

def Resolved.of (row : Gate) : Option Resolved :=
  row.resolvedBy.map fun resolver =>
    ⟨row.id, row.action, row.workspace, row.fleet, row.status, row.resolvedAt.getD row.updatedAt,
      resolver, row.detail, row.event, none⟩

inductive Resolution where
  | resolved (report : Resolved)
  | alreadyResolved (report : Resolved)
  | notFound
deriving DecidableEq

def Resolution.reported : Resolution → Option Resolved
  | .resolved report => some report
  | .alreadyResolved report => some report
  | .notFound => none

/-- Which statement a call makes next.  `won` is whether its own answer moved the row. -/
inductive CallPhase where
  | resolving
  | reading
  | finding (resolved : Resolved) (event : String)
  | continuing (won : Bool) (resolved : Resolved) (event : String)
  | inserting (won : Bool) (resolved : Resolved) (event id : String)
  | ended (answer : Option Resolution)
deriving DecidableEq

structure Call where
  answering : Answering
  phase : CallPhase
deriving DecidableEq

def reportAs (won : Bool) (resolved : Resolved) : Resolution :=
  if won then .resolved resolved else .alreadyResolved resolved

def afterWin (outcome : Outcome) (resolved : Resolved) : CallPhase :=
  match outcome.continuesTheRun, resolved.event with
  | true, some event => .continuing true resolved event
  | _, _ => .ended (some (.resolved resolved))

/-- Whether the next poll reads the original delivery. -/
def leavesDeliveryParked (status : GateStatus) (event : Option String) : Bool :=
  event.isNone || status == .denied || status == .timedOut

def stood (resolved : Resolved) : CallPhase :=
  if leavesDeliveryParked resolved.status resolved.event then
    .ended (some (.alreadyResolved resolved))
  else
    match resolved.status, resolved.event with
    | .approved, some event => .finding resolved event
    | _, _ => .ended (some (.alreadyResolved resolved))

/-! ## The desk -/

inductive Cached where
  | reference (action : String)
  | unreadable
deriving DecidableEq

/-- How one statement went for its caller: it answered, it failed, or it landed and the
answer was lost. -/
inductive Io where
  | answered
  | failed
  | unheard
deriving DecidableEq

structure Desk where
  tables : Tables
  references : String × String → Option Cached
  responses : String → Option String
  counters : String × String × String → Nat
  paused : List String
  drawn : Nat
  polls : List Poll
  calls : List Call
  received : List (String × String)

def Desk.start : Desk :=
  ⟨⟨[], [], [], []⟩, fun _ => none, fun _ => none, fun _ => 0, [], 0, [], [], []⟩

def Desk.setPoll (d : Desk) (slot : Nat) (check : Check) (phase : Phase) : Desk :=
  { d with polls := d.polls.set slot ⟨check, phase⟩ }

def Desk.setCall (d : Desk) (slot : Nat) (answering : Answering) (phase : CallPhase) : Desk :=
  { d with calls := d.calls.set slot ⟨answering, phase⟩ }

def Desk.committed (d : Desk) (action : String) : Option Answer :=
  (d.tables.standing action).bind fun row => answer row.status

def Tables.openEvent (t : Tables) (fleet event actor : String) (resumes : Option String) :
    Tables × Bool :=
  let here := fun row : Opened => row.fleet == fleet && row.event == event
  if t.events.any here then
    ({ t with
        events := Table.update here (fun row => { row with resumes := row.resumes.or resumes })
          t.events }, false)
  else ({ t with events := t.events ++ [⟨fleet, event, actor, resumes⟩] }, true)

def continuationActor (event : String) : String := "continuation:" ++ event

/-- A delivery some other part of the daemon admits, and one it settles. -/
def Tables.deliver (t : Tables) (id fleet workspace actor : String) : Tables :=
  { t with deliveries := t.deliveries ++ [⟨id, fleet, workspace, actor, none, false, none⟩] }

def Tables.settleDelivery (t : Tables) (id : String) : Tables :=
  { t with
    deliveries := Table.update (fun row => row.id == id) (fun row => { row with settled := true })
      t.deliveries }

/-- The admission that resumes the run a gate had blocked. -/
def Tables.continueFrom (t : Tables) (id : String) (resolved : Resolved) (event : String) :
    Tables :=
  { t with
    deliveries := t.deliveries ++
      [⟨id, resolved.fleet, resolved.workspace, continuationActor event, some resolved.action,
        false, none⟩] }

section Steps

variable (fromStr : String → Option Json) (uuid7 : Nat → String)

def Desk.increment (d : Desk) (check : Check) : Desk :=
  let key := (check.fleet, check.eventType, check.actor)
  { d with counters := Function.update d.counters key (d.counters key + 1) }

/-- `INSERT_GATE` of a poll, under an action and a row identifier drawn for it. -/
def Desk.raise (d : Desk) (check : Check) (stated : Stated) (now : Int) : Desk :=
  let claim := Claim.of (fromStr check.requestJson)
  { d with
    drawn := d.drawn + 2
    tables := d.tables.insertGate
      (check.row stated claim (uuid7 (d.drawn + 1)) (uuid7 d.drawn) now) }

def Desk.record (d : Desk) (check : Check) (action : String) : Desk :=
  { d with references :=
    Function.update d.references (check.fleet, check.event) (some (.reference action)) }

def Desk.pause (d : Desk) (fleet : String) : Desk := { d with paused := fleet :: d.paused }

def Desk.poll (d : Desk) (slot : Nat) (io : Io) (now : Int) : Desk :=
  match d.polls[slot]? with
  | none => d
  | some ⟨check, phase⟩ =>
      match phase, io with
      | .looking, .answered =>
          match d.references (check.fleet, check.event) with
          | some (.reference action) => d.setPoll slot check (.mirrored action)
          | _ => d.setPoll slot check .missing
      | .looking, _ => d.setPoll slot check (check.firstEncounter fromStr .unreadable)
      | .missing, .answered =>
          match d.tables.eventGate check.fleet check.event with
          | some row => d.setPoll slot check (.mirrored row.action)
          | none => d.setPoll slot check (check.firstEncounter fromStr .absent)
      | .missing, _ => d.setPoll slot check (check.firstEncounter fromStr .unreadable)
      | .counting state policy [], _ => d.setPoll slot check (check.judge fromStr state policy)
      | .counting state policy (rule :: rest), .answered =>
          let counted := d.increment check
          if rule.repeats ≤ counted.counters (check.fleet, check.eventType, check.actor) then
            counted.setPoll slot check (.stopping .anomaly)
          else counted.setPoll slot check (check.count fromStr state policy rest)
      | .counting state policy (_ :: _), .failed =>
          d.setPoll slot check (check.judge fromStr state policy)
      | .counting state policy (_ :: _), .unheard =>
          (d.increment check).setPoll slot check (check.judge fromStr state policy)
      | .stopping trigger, .failed => d.setPoll slot check (.ended (.killed trigger))
      | .stopping trigger, _ =>
          (d.pause check.fleet).setPoll slot check (.ended (.killed trigger))
      | .raising stated, .answered =>
          (d.raise fromStr uuid7 check stated now).setPoll slot check
            (.referencing (uuid7 d.drawn))
      | .raising _, .failed => d.setPoll slot check (.ended .unavailable)
      | .raising stated, .unheard =>
          (d.raise fromStr uuid7 check stated now).setPoll slot check (.ended .unavailable)
      | .referencing action, .answered =>
          (d.record check action).setPoll slot check (.ended (.await .parked))
      | .referencing _, .failed => d.setPoll slot check (.ended .unavailable)
      | .referencing action, .unheard =>
          (d.record check action).setPoll slot check (.ended .unavailable)
      | .mirrored action, .answered =>
          match (d.responses action).bind Answer.parse with
          | some mirror =>
              d.setPoll slot check (.ended (.ofEvaluation (evaluate (some mirror) false)))
          | none => d.setPoll slot check (.standing action)
      | .mirrored _, _ => d.setPoll slot check (.ended (.await .unreadable))
      | .standing action, .answered =>
          match d.tables.standing action with
          | some row =>
              d.setPoll slot check
                (.ended (.ofEvaluation (evaluate (answer row.status) (row.lapsed now))))
          | none => d.setPoll slot check (.ended (.await .pending))
      | .standing _, _ => d.setPoll slot check (.ended (.await .unreadable))
      | .ended _, _ => d

/-- The continuation of an approved gate: the one its action keys, or one admitted now. -/
def Desk.continuationOf (d : Desk) (resolved : Resolved) (event : String) : Desk × String :=
  match d.tables.deliveries.find? fun row => row.continues == some resolved.action with
  | some row => (d, row.id)
  | none =>
      ({ d with
          drawn := d.drawn + 1
          tables := d.tables.continueFrom (uuid7 d.drawn) resolved event },
        uuid7 d.drawn)

/-- The event row of a continuation, announced when this write landed it and was heard. -/
def Desk.openContinuation (d : Desk) (heard : Bool) (fleet id event : String) : Desk :=
  let opened := d.tables.openEvent fleet id (continuationActor event) (some event)
  { d with
    tables := opened.1
    received := if opened.2 && heard then (fleet, id) :: d.received else d.received }

def Desk.answer (d : Desk) (slot : Nat) (io : Io) (now : Int) : Desk :=
  match d.calls[slot]? with
  | none => d
  | some ⟨a, phase⟩ =>
      match phase, io with
      | .resolving, .failed => d.setCall slot a (.ended none)
      | .resolving, .unheard =>
          { d with tables := (d.tables.resolveGate a now).1 }.setCall slot a (.ended none)
      | .resolving, .answered =>
          let moved := { d with tables := (d.tables.resolveGate a now).1 }
          match (d.tables.resolveGate a now).2 with
          | some row =>
              moved.setCall slot a
                ((Resolved.of row).elim (.ended none) (afterWin a.outcome))
          | none => moved.setCall slot a .reading
      | .reading, .answered =>
          match d.tables.gateByAction a.action a.scope with
          | some row => d.setCall slot a ((Resolved.of row).elim (.ended none) stood)
          | none => d.setCall slot a (.ended (some .notFound))
      | .reading, _ => d.setCall slot a (.ended none)
      | .finding resolved event, .answered =>
          match d.tables.deliveries.find? fun row => row.continues == some resolved.action with
          | some row =>
              d.setCall slot a
                (.ended (some (.alreadyResolved { resolved with continuation := some row.id })))
          | none => d.setCall slot a (.continuing false resolved event)
      | .finding _ _, _ => d.setCall slot a (.ended none)
      | .continuing _ _ _, .failed => d.setCall slot a (.ended none)
      | .continuing _ resolved event, .unheard =>
          (d.continuationOf uuid7 resolved event).1.setCall slot a (.ended none)
      | .continuing won resolved event, .answered =>
          let admitted := d.continuationOf uuid7 resolved event
          admitted.1.setCall slot a (.inserting won resolved event admitted.2)
      | .inserting _ _ _ _, .failed => d.setCall slot a (.ended none)
      | .inserting _ resolved event id, .unheard =>
          (d.openContinuation false resolved.fleet id event).setCall slot a (.ended none)
      | .inserting won resolved event id, .answered =>
          (d.openContinuation true resolved.fleet id event).setCall slot a
            (.ended (some (reportAs won { resolved with continuation := some id })))
      | .ended _, _ => d

/-! ## Events -/

inductive Event where
  /-- A lease polls an event, or its poll goes on. -/
  | begin (check : Check)
  | poll (slot : Nat) (io : Io) (now : Int)
  /-- An operator answers an action, or the call goes on. -/
  | resolve (answering : Answering)
  | answer (slot : Nat) (io : Io) (now : Int)
  | sweep (now : Int)
  /-- A fleet asks for a grant, an operator takes one back, a setup is cancelled. -/
  | request (fleet workspace : String) (wanted : Wanted) (now : Int)
  | revoke (fleet grant : String) (now : Int)
  | cancelSetup (fleet : String) (now : Int)
  /-- What becomes of cached keys. -/
  | forget (fleet event : String)
  | garble (fleet event : String)
  | mirror (action text : String)
  | unmirror (action : String)
  | windowEnds (fleet eventType actor : String)
  | resume (fleet : String)
  /-- What other parts of the daemon do to deliveries. -/
  | deliver (fleet workspace actor : String)
  | settled (id : String)
  | park (fleet id : String) (now : Int)
  | lease (id : String)

def Desk.leaseOpens (d : Desk) (id : String) : Desk :=
  match d.tables.deliveries.find? fun row => row.id == id with
  | none => d
  | some row =>
      let opened := d.tables.openEvent row.fleet row.id row.actor none
      { d with
        tables := opened.1
        received := if opened.2 then (row.fleet, row.id) :: d.received else d.received }

def Desk.step (d : Desk) : Event → Desk
  | .begin check => { d with polls := d.polls ++ [⟨check, .looking⟩] }
  | .poll slot io now => d.poll fromStr uuid7 slot io now
  | .resolve answering => { d with calls := d.calls ++ [⟨answering, .resolving⟩] }
  | .answer slot io now => d.answer uuid7 slot io now
  | .sweep now => { d with tables := d.tables.expireGates now }
  | .request fleet workspace wanted now =>
      { d with
        drawn := d.drawn + 3
        tables := (d.tables.request (uuid7 d.drawn) (uuid7 (d.drawn + 1)) (uuid7 (d.drawn + 2))
          fleet workspace wanted now).1 }
  | .revoke fleet grant now => { d with tables := d.tables.revokeGrant fleet grant now }
  | .cancelSetup fleet now => { d with tables := d.tables.cancelSetup fleet now }
  | .forget fleet event =>
      { d with references := Function.update d.references (fleet, event) none }
  | .garble fleet event =>
      { d with references := Function.update d.references (fleet, event) (some .unreadable) }
  | .mirror action text =>
      -- A mirror is only ever written of a decision that is committed, if it is legible.
      if Answer.parse text = none ∨ Answer.parse text = d.committed action then
        { d with responses := Function.update d.responses action (some text) }
      else d
  | .unmirror action => { d with responses := Function.update d.responses action none }
  | .windowEnds fleet eventType actor =>
      { d with counters := Function.update d.counters (fleet, eventType, actor) 0 }
  | .resume fleet => { d with paused := d.paused.filter (· != fleet) }
  | .deliver fleet workspace actor =>
      { d with
        drawn := d.drawn + 1
        tables := d.tables.deliver (uuid7 d.drawn) fleet workspace actor }
  | .settled id => { d with tables := d.tables.settleDelivery id }
  | .park fleet id now => { d with tables := d.tables.parkWaiting fleet id now }
  | .lease id => d.leaseOpens id

end Steps

end Agentsfleet.Approval
