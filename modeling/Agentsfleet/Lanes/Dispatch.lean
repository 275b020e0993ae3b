import Agentsfleet.Library.Run
import Agentsfleet.Library.Table
import Agentsfleet.Outbound.Resume

/-!
# Delivery lanes

Dispatches, lanes and the ceiling over their deliveries, each task a step at a time.
A step is what runs between two awaits, or under one guard of the lane table.  A job
is named by the number of its dispatch.
-/

set_option autoImplicit false

namespace Agentsfleet.Lanes

open Agentsfleet.Library
open Agentsfleet.Outbound (OutboundDelivery)

/-- How many vendor calls may be in flight at once, across every lane. -/
def inFlightDeliveries : Nat := 8
def laneDepth : Nat := 32

abbrev Job := OutboundDelivery String

structure Destination where
  provider : String
  workspaceId : String
deriving DecidableEq

def Destination.of (job : Job) : Destination := ⟨job.provider, job.workspaceId⟩

/-! ## State -/

/-- Where a lane stands: between jobs, after a first look that found none, holding a job
that waits for a permit, delivering one, or gone. -/
inductive Phase where
  | idle
  | looked
  | holding (job : Nat)
  | delivering (job : Nat)
  /-- Stopped by the token with a job in hand, the rest still queued. -/
  | stopped (job : Nat)
  | ended
deriving DecidableEq

structure Lane where
  destination : Destination
  jobs : List Nat
  free : Nat
  phase : Phase
deriving DecidableEq

namespace Lane

def new (destination : Destination) : Lane := ⟨destination, [], laneDepth, .idle⟩

def live (lane : Lane) : Bool :=
  match lane.phase with
  | .stopped _ | .ended => false
  | _ => true

/-- The jobs the lane took in and has not begun to deliver, oldest first. -/
def pending (lane : Lane) : List Nat :=
  match lane.phase with
  | .holding job | .stopped job => job :: lane.jobs
  | _ => lane.jobs

def delivers (lane : Lane) : Nat :=
  match lane.phase with
  | .delivering _ => 1
  | _ => 0

end Lane

inductive Stage where
  | looking
  | found (lane : Nat)
  | reserved (lane : Nat)
  | returned
deriving DecidableEq

/-- A call of `dispatch`; `earlier` is what had been published when it began. -/
structure Call where
  job : Job
  stage : Stage
  earlier : List Nat
deriving DecidableEq

/-- The lane table, every lane and every dispatch there has been, and the ceiling.
`published` lists the dispatches whose job a lane has taken, `started` each delivery with
its lane, both in order. -/
structure State where
  table : Destination → Option Nat
  lanes : List Lane
  calls : List Call
  permits : Nat
  cancelled : Bool
  published : List Nat
  started : List (Nat × Nat)
  acknowledged : List Nat

def State.start : State := ⟨fun _ => none, [], [], inFlightDeliveries, false, [], [], []⟩

inductive Verdict where
  | delivered
  | permanent
  | retryable
deriving DecidableEq

inductive Event where
  | dispatch (job : Job)
  | find (call : Nat)
  | reserve (call : Nat)
  | publish (call : Nat)
  | look (lane : Nat)
  | retire (lane : Nat)
  | proceed (lane : Nat)
  | finish (lane : Nat) (verdict : Verdict) (acknowledges : Bool)
  | cancel
deriving DecidableEq

namespace State

variable (s : State)

def setLane (n : Nat) (lane : Lane) : State := { s with lanes := s.lanes.set n lane }

def setStage (n : Nat) (call : Call) (stage : Stage) : State :=
  { s with calls := s.calls.set n { call with stage := stage } }

/-! ## Dispatch -/

def dispatch (job : Job) : State := { s with calls := s.calls ++ [⟨job, .looking, s.published⟩] }

/-- The sender for `destination`'s lane, spawning the lane if it has none. -/
def laneFor (destination : Destination) : State × Nat :=
  match s.table destination with
  | some lane => (s, lane)
  | none =>
      ({ s with
        table := fun other =>
          if other = destination then some s.lanes.length else s.table other
        lanes := s.lanes ++ [Lane.new destination] }, s.lanes.length)

def find (n : Nat) : State :=
  match s.calls[n]? with
  | some call =>
      if call.stage = .looking then
        let (s', lane) := s.laneFor (Destination.of call.job)
        s'.setStage n call (.found lane)
      else s
  | none => s

/-- Capacity on a lane that is gone is refused, and the dispatch looks again. -/
def reserve (n : Nat) : State :=
  match s.calls[n]? with
  | some call =>
      match call.stage with
      | .found l =>
          match s.lanes[l]? with
          | some lane =>
              if lane.live = false then s.setStage n call .looking
              else if lane.free = 0 then s
              else (s.setLane l { lane with free := lane.free - 1 }).setStage n call (.reserved l)
          | none => s
      | _ => s
  | none => s

def publish (n : Nat) : State :=
  match s.calls[n]? with
  | some call =>
      match call.stage with
      | .reserved l =>
          match s.lanes[l]? with
          | some lane =>
              if s.table (Destination.of call.job) = some l then
                let s' := s.setLane l { lane with jobs := lane.jobs ++ [n] }
                { s'.setStage n call .returned with published := s.published ++ [n] }
              else (s.setLane l { lane with free := lane.free + 1 }).setStage n call .looking
          | none => s
      | _ => s
  | none => s

/-! ## Lanes -/

def hasSender (n : Nat) (lane : Lane) : Bool :=
  s.table lane.destination = some n ||
    s.calls.any fun call => call.stage = .found n || call.stage = .reserved n

/-- The lane's first look: `try_recv`. -/
def look (n : Nat) : State :=
  match s.lanes[n]? with
  | some lane =>
      if lane.phase = .idle then
        match lane.jobs with
        | job :: rest =>
            s.setLane n { lane with jobs := rest, free := lane.free + 1, phase := .holding job }
        | [] =>
            if s.hasSender n lane then s.setLane n { lane with phase := .looked }
            else s.setLane n { lane with phase := .ended }
      else s
  | none => s

/-- The second look, under the guard of whatever entry the destination has, and the
retirement when it finds nothing either. -/
def retire (n : Nat) : State :=
  match s.lanes[n]? with
  | some lane =>
      if lane.phase = .looked then
        match s.table lane.destination with
        | none => s.setLane n { lane with phase := .ended }
        | some _ =>
            match lane.jobs with
            | job :: rest =>
                s.setLane n { lane with jobs := rest, free := lane.free + 1, phase := .holding job }
            | [] =>
                { s.setLane n { lane with phase := .ended } with
                  table := fun other =>
                    if other = lane.destination then none else s.table other }
      else s
  | none => s

/-- Stops on the token, or begins the delivery once a permit is free. -/
def proceed (n : Nat) : State :=
  match s.lanes[n]? with
  | some lane =>
      match lane.phase with
      | .holding job =>
          if s.cancelled then s.setLane n { lane with phase := .stopped job }
          else if s.permits = 0 then s
          else
            { s.setLane n { lane with phase := .delivering job } with
              permits := s.permits - 1
              started := s.started ++ [(n, job)] }
      | _ => s
  | none => s

/-- The end of `deliver_and_ack`: a shutdown leaves what it cut short unacknowledged. -/
def finish (n : Nat) (verdict : Verdict) (acknowledges : Bool) : State :=
  match s.lanes[n]? with
  | some lane =>
      match lane.phase with
      | .delivering job =>
          let s' := { s.setLane n { lane with phase := .idle } with permits := s.permits + 1 }
          if (verdict = .retryable ∧ s.cancelled = true) ∨ acknowledges = false then s'
          else { s' with acknowledged := s.acknowledged ++ [job] }
      | _ => s
  | none => s

def step : Event → State
  | .dispatch job => s.dispatch job
  | .find call => s.find call
  | .reserve call => s.reserve call
  | .publish call => s.publish call
  | .look lane => s.look lane
  | .retire lane => s.retire lane
  | .proceed lane => s.proceed lane
  | .finish lane verdict acknowledges => s.finish lane verdict acknowledges
  | .cancel => { s with cancelled := true }

end State

end Agentsfleet.Lanes
