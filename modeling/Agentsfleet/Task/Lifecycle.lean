import Agentsfleet.Library.Trace
import Agentsfleet.Waits.System
import Mathlib.Logic.Function.Basic

/-!
# The life of a task

The transactions that write a task's row, the admissions that may run it and the leases
that do.  Each holds the rows it writes, and one that fails anywhere leaves the tables as
they were.  What the locks, the live setup, GitHub and the admission ledger's ceilings
answer is the transaction's own data.
-/

set_option autoImplicit false

namespace Agentsfleet.Task.Lifecycle

open Agentsfleet.Core
open Agentsfleet.Library
open Agentsfleet.Waits (Authority BoundPr Claimed Snapshot Store TaskRow Visit WaitRow second)

/-! ## Rows -/

/-- The columns of `fleet.tasks` that its waits do not read. -/
structure Goal where
  acceptedRevision : String
  goalDigest : String
  checkpoint : Option String
  checkpointSequence : Option Int
  coveredInputSequence : Int
  inputSequence : Int
  effectCursor : Int
  confirmedEffectWatermark : Int
deriving DecidableEq

/-- A row of `fleet.admissions`; `continuation` is its producer's key when that producer is
the task continuation. -/
structure Admission where
  id : String
  fleet : String
  workspace : String
  continuation : Option String
  task : Option String
  taskGeneration : Option Int
  settled : Bool
deriving DecidableEq

/-- What a lease holds of the task it executes; its columns are null together. -/
structure Attachment where
  task : String
  generation : Int
  stopGeneration : Int
  runtimeAccountedAt : Int
deriving DecidableEq

structure Lease where
  id : String
  fleet : String
  workspace : String
  /-- The event it runs, which is its admission. -/
  admission : String
  active : Bool
  lastMeteredAt : Int
  expiresAt : Int
  attachment : Option Attachment
deriving DecidableEq

/-- A row of `fleet.task_adoptions`. -/
structure AdoptionReceipt where
  task : String
  operation : String
  digest : String
deriving DecidableEq

structure Tables where
  store : Store
  goals : String → Goal
  adoptions : List AdoptionReceipt
  admissions : List Admission
  leases : List Lease

inductive Fault where
  | notFound
  | precondition
  | conflict
  | limitExhausted
  | staleState
  | invalidTarget
  | replayConflict
  | capacity
  | datastore
deriving DecidableEq

namespace Tables

def find (t : Tables) (fleet workspace task : String) : Option TaskRow :=
  t.store.tasks.find? fun row =>
    decide (row.id = task ∧ row.fleet = fleet ∧ row.workspace = workspace)

def write (t : Tables) (task : String) (change : TaskRow → TaskRow) : Tables :=
  { t with store := t.store.updateTask task change }

end Tables

/-- `row::counter`. -/
def counter (column : Int) : Option Nat := if 0 ≤ column then some column.toNat else none

/-! ## Continuations -/

structure Continuation where
  fleet : String
  workspace : String
  task : String
  generation : Nat
deriving DecidableEq

namespace Continuation

def key (c : Continuation) : String := c.task ++ ":" ++ toString c.generation

/-- The wake of the generation after `generation`. -/
def after (fleet workspace task : String) (generation : Int) : Option Continuation :=
  (counter generation).map fun current => ⟨fleet, workspace, task, current + 1⟩

end Continuation

def Continuation.row (c : Continuation) (id : String) : Admission :=
  ⟨id, c.fleet, c.workspace, some c.key, none, none, false⟩

/-- What the admission ledger's ceilings answer. -/
inductive Capacity where
  | granted
  | spent
  | failed
deriving DecidableEq

/-- `Admissions::stage`, with the identifier of the row it would insert. -/
def stage (c : Continuation) (id : String) (capacity : Capacity) (admissions : List Admission) :
    Except Fault (List Admission × String) :=
  match capacity with
  | .failed => .error .datastore
  | .spent => .error .capacity
  | .granted =>
      match admissions.find? fun row => decide (row.continuation = some c.key) with
      | some earlier => .ok (admissions, earlier.id)
      | none =>
          if admissions.any fun row => decide (row.id = id) then .error .datastore
          else .ok (admissions ++ [c.row id], id)

/-- `sql/control_admission.sql` picks. -/
def Admission.binds (task : TaskRow) (id : String) (row : Admission) : Bool :=
  decide (row.id = id ∧ row.task = none ∧ row.fleet = task.fleet ∧ row.workspace = task.workspace)

def bind (task : TaskRow) (id : String) (admissions : List Admission) : List Admission :=
  Table.update (fun row => row.binds task id)
    (fun row => { row with task := some task.id, taskGeneration := some task.generation })
    admissions

def issued (leases : List Lease) (admission : String) : Bool :=
  leases.any fun lease => decide (lease.admission = admission)

/-- `sql/retire_continuations.sql` picks. -/
def Admission.retires (task : TaskRow) (leases : List Lease) (row : Admission) : Bool :=
  decide (row.task = some task.id ∧ row.fleet = task.fleet ∧ row.workspace = task.workspace) &&
    !row.settled && row.continuation.isSome &&
    decide (row.taskGeneration ≠ some task.generation) && !issued leases row.id

def retire (task : TaskRow) (leases : List Lease) (admissions : List Admission) :
    List Admission :=
  Table.update (fun row => row.retires task leases) (fun row => { row with settled := true })
    admissions

namespace Tables

/-- A transition of the task whose row is held: its waits are cancelled, its row is written,
and the continuations it leaves behind are retired. -/
def move (t : Tables) (row : TaskRow) (change : TaskRow → TaskRow) (clock : Int) : Tables :=
  { t with
    store := (t.store.cancel row.id clock).updateTask row.id change
    admissions := retire (change row) t.leases t.admissions }

def queue (t : Tables) (row : TaskRow) (c : Continuation) (id : String) (capacity : Capacity) :
    Except Fault Tables :=
  match stage c id capacity t.admissions with
  | .error fault => .error fault
  | .ok (admissions, admitted) => .ok { t with admissions := bind row admitted admissions }

def continueReady (t : Tables) (row : TaskRow) (change : TaskRow → TaskRow) (clock : Int)
    (c : Continuation) (id : String) (capacity : Capacity) : Except Fault Tables :=
  match stage c id capacity t.admissions with
  | .error fault => .error fault
  | .ok (admissions, admitted) =>
      let moved := { t with admissions := admissions }.move row change clock
      .ok { moved with admissions := bind (change row) admitted moved.admissions }

end Tables

/-! ## Admission and issue -/

structure NewTask where
  id : String
  fleet : String
  workspace : String
  target : BoundPr
  maxModelNanos : Int
  maxRunningNanos : Int
  maxLeases : Int
  maxFallbackReads : Int
  expiresAt : Int
  acceptedRevision : String
  goalDigest : String
deriving DecidableEq

/-- `sql/insert_task.sql`; the first task of a lease without one runs at once. -/
def NewTask.row (new : NewTask) (active : Bool) : TaskRow :=
  { id := new.id
    fleet := new.fleet
    workspace := new.workspace
    status := if active then .running else .ready
    statusReason := none
    resourceVersion := 1
    generation := 1
    stopGeneration := 0
    target := new.target
    maxModelNanos := new.maxModelNanos
    usedModelNanos := 0
    reservedModelNanos := 0
    maxRunningNanos := new.maxRunningNanos
    usedRunningNanos := 0
    maxLeases := new.maxLeases
    usedLeases := if active then 1 else 0
    maxFallbackReads := new.maxFallbackReads
    usedFallbackReads := 0
    waitSequence := none
    expiresAt := new.expiresAt
    terminalAt := none
    checkpointCleanupAt := none
    lastTransitionAt := none }

def NewTask.goal (new : NewTask) : Goal :=
  ⟨new.acceptedRevision, new.goalDigest, none, none, 0, 0, 0, 0⟩

/-- `SLICE_SECONDS`. -/
def slice : Int := 600 * second

/-- How far a lease of the task may run from `instant`. -/
def deadline (row : TaskRow) (instant : Int) : Int :=
  min row.expiresAt
    (instant + min slice ((row.maxRunningNanos - row.usedRunningNanos) / 1000))

/-- A lease attached to the task at `instant`. -/
def Lease.attach (lease : Lease) (row : TaskRow) (instant : Int) : Lease :=
  { lease with
    attachment := some ⟨row.id, row.generation, row.stopGeneration, stored instant⟩
    expiresAt := min lease.expiresAt (stored (deadline row instant)) }

/-- What the ordinary issue found before the task's: the lease it would insert, the host's
capabilities, the fleet's head and the revision it was proved for. -/
structure IssueRevision where
  current : String
  accepted : String
  taskGeneration : Option Int
deriving DecidableEq

structure Host where
  capable : Bool
  requiresTasks : Bool
  headRevision : Option String
deriving DecidableEq

/-- `WHERE` of `sql/issue_lease.sql`. -/
def issuable (row : TaskRow) (generation : Option Int) (instant : Int) : Bool :=
  decide (some row.generation = generation ∧ (row.status = .ready ∨ row.status = .running) ∧
    row.terminalAt = none ∧ instant < row.expiresAt ∧ row.usedLeases < row.maxLeases ∧
    row.usedModelNanos < row.maxModelNanos - row.reservedModelNanos ∧
    row.usedRunningNanos < row.maxRunningNanos)

def start (row : TaskRow) : TaskRow :=
  { row with
    status := .running
    usedLeases := row.usedLeases + 1
    resourceVersion := row.resourceVersion + 1 }

namespace Tables

/-- `insert::task` of a plan's new item, under the lease that interprets it. -/
def create (t : Tables) (new : NewTask) (lease id : String) (capacity : Capacity)
    (charged clock : Int) : Except Fault Tables :=
  match t.leases.find? fun row => decide (row.id = lease ∧ row.active = true) with
  | none => .error .notFound
  | some lease =>
      if t.store.tasks.any (fun row => decide (row.id = new.id)) = true ∨
          lease.fleet ≠ new.fleet ∨ lease.workspace ≠ new.workspace then .error .datastore
      else
        match lease.attachment with
        | some _ =>
            let row := new.row false
            { t with
              store := { t.store with tasks := t.store.tasks ++ [row] }
              goals := Function.update t.goals new.id new.goal }.queue row
              ⟨new.fleet, new.workspace, new.id, 1⟩ id capacity
        | none =>
            let row := { new.row true with usedModelNanos := charged }
            .ok
              { t with
                store := { t.store with tasks := t.store.tasks ++ [row] }
                goals := Function.update t.goals new.id new.goal
                leases := Table.update (fun other => decide (other.id = lease.id))
                  (fun other => other.attach row clock) t.leases
                admissions := bind row lease.admission t.admissions }

/-- `attach`, with the ordinary issue around it: `none` rolls the issue back. -/
def issue (t : Tables) (lease admission fleet : String) (host : Host)
    (revision : Option IssueRevision) (leasedUntil clock : Int) : Option Tables :=
  match t.admissions.find? fun row =>
      decide (row.id = admission ∧ row.fleet = fleet ∧ row.settled = false) with
  | none => none
  | some selected =>
      let row := selected.task.bind fun task => t.find selected.fleet selected.workspace task
      let generation := row.map TaskRow.generation
      let accepted := (row.map fun row => (t.goals row.id).acceptedRevision).or host.headRevision
      let fresh : Lease :=
        { id := lease
          fleet := selected.fleet
          workspace := selected.workspace
          admission := admission
          active := true
          lastMeteredAt := stored clock
          expiresAt := leasedUntil
          attachment := none }
      if t.leases.any fun other => decide (other.id = lease) then none
      else if host.requiresTasks && !host.capable then none
      else if revision.any fun proof =>
          decide (host.headRevision ≠ some proof.current ∨ accepted ≠ some proof.accepted ∨
            generation ≠ proof.taskGeneration) then none
      else if selected.task.isNone then
        if selected.taskGeneration.isNone then some { t with leases := t.leases ++ [fresh] }
        else none
      else if host.capable = false ∨ revision.isNone = true ∨
          selected.taskGeneration ≠ generation then none
      else
        match row with
        | none => none
        | some row =>
            if issuable row (revision.bind IssueRevision.taskGeneration) clock then
              some
                { t.write row.id start with
                  leases := t.leases ++ [fresh.attach row clock] }
            else none

/-! ## Metering -/

end Tables

/-- `sql/usage_record.sql` of one task. -/
def account (model running clock : Int) (row : TaskRow) : TaskRow :=
  let stop := row.terminalAt.isNone &&
    (decide (row.maxModelNanos - row.reservedModelNanos ≤ row.usedModelNanos + model) ||
      decide (row.maxRunningNanos ≤ row.usedRunningNanos + running) ||
      decide (row.expiresAt ≤ clock))
  { row with
    usedModelNanos := row.usedModelNanos + model
    usedRunningNanos := row.usedRunningNanos + running
    status := if stop then .exhausted else row.status
    terminalAt := if stop then some (stored clock) else row.terminalAt
    generation := row.generation + stop.toNat
    stopGeneration := row.stopGeneration + stop.toNat
    resourceVersion := row.resourceVersion + 1
    checkpointCleanupAt := if stop then some (stored clock) else row.checkpointCleanupAt }

def Lease.ended (lease : Lease) (clock : Int) : Lease :=
  { lease with
    active := false
    lastMeteredAt := max lease.lastMeteredAt (min (stored clock) lease.expiresAt) }

/-- How far a lease's run time is accounted once it is metered. -/
def Lease.measured (lease : Lease) (held : Attachment) : Int :=
  max held.runtimeAccountedAt (min lease.lastMeteredAt lease.expiresAt)

namespace Tables

/-- `usage::record`. -/
def record (t : Tables) (lease : Lease) (nanos clock : Int) : Tables :=
  match lease.attachment with
  | none => t
  | some held =>
      match t.find lease.fleet lease.workspace held.task with
      | none => t
      | some row =>
          let until_ := lease.measured held
          { t.write row.id (account nanos ((until_ - held.runtimeAccountedAt) * 1000) clock) with
            leases := Table.update (fun other => decide (other.id = lease.id))
              (fun other =>
                { other with attachment := some { held with runtimeAccountedAt := until_ } })
              t.leases }

/-- A renewal, a sweep of an expired lease, or a report past its fence: what it measured is
accounted, whatever the task is at. -/
def meter (t : Tables) (lease : String) (meteredAt expiresAt nanos clock : Int) : Tables :=
  match t.leases.find? fun row => decide (row.id = lease) with
  | none => t
  | some row =>
      let metered := { row with lastMeteredAt := meteredAt, expiresAt := expiresAt }
      { t with
        leases := Table.update (fun other => decide (other.id = lease)) (fun _ => metered)
          t.leases }.record metered nanos clock

end Tables

/-! ## Human requests -/

inductive TaskControl where
  | pause
  | resume
  | cancel
deriving DecidableEq

def TaskControl.requested : TaskControl → TaskState
  | .pause => .paused
  | .resume => .ready
  | .cancel => .cancelled

/-- `sql/control.sql`. -/
def controlled (control : TaskControl) (goal : Goal) (clock : Int) (row : TaskRow) : TaskRow :=
  { row with
    status := control.requested
    resourceVersion := row.resourceVersion + 1
    generation := row.generation + 1
    stopGeneration := row.stopGeneration + if control = .resume then 0 else 1
    terminalAt := if control = .cancel then some (stored clock) else row.terminalAt
    checkpointCleanupAt :=
      if goal.checkpointSequence.isSome then some (stored clock) else row.checkpointCleanupAt }

structure Request where
  fleet : String
  workspace : String
  task : String
  expectedTag : String
  expectedGeneration : Nat
deriving DecidableEq

/-- What a transaction that may stage a continuation brings: the prepared continuation, the
row it would insert, and what the ceilings answer. -/
structure Prepared where
  continuation : Option Continuation
  id : String
  capacity : Capacity
deriving DecidableEq

structure Origin where
  fleet : String
  workspace : String
  task : String
  operation : String
  revision : String
  generation : Int
  state : TaskState
  acceptedRevision : String
  requestDigest : Option String
deriving DecidableEq

namespace Origin

def eligible (origin : Origin) : Bool :=
  decide (origin.state = .running ∨ origin.state = .ready ∨ origin.state = .waiting)

def changed (origin : Origin) : Bool := decide (origin.acceptedRevision ≠ origin.revision)

def wake (origin : Origin) : Option Continuation :=
  if origin.eligible && origin.changed then
    Continuation.after origin.fleet origin.workspace origin.task origin.generation
  else none

end Origin

/-- `sql/adopt_goal.sql`. -/
def adopted (eligible : Bool) (goal : Goal) (clock : Int) (row : TaskRow) : TaskRow :=
  { row with
    resourceVersion := row.resourceVersion + 1
    generation := row.generation + 1
    stopGeneration := row.stopGeneration + 1
    status := if eligible then .ready else row.status
    checkpointCleanupAt :=
      if goal.checkpointSequence.isSome then some (stored clock) else row.checkpointCleanupAt }

/-- `sql/input_cursor.sql`, but for the input sequence. -/
def steered (queue : Bool) (row : TaskRow) : TaskRow :=
  { row with
    generation := row.generation + queue.toNat
    stopGeneration := row.stopGeneration + queue.toNat
    status := if queue then .ready else row.status
    resourceVersion := row.resourceVersion + 1 }

namespace Tables

/-- What `prepare_resume` prepares. -/
def resumeWake (t : Tables) (fleet workspace task : String) : Option Continuation :=
  (t.find fleet workspace task).bind fun row =>
    Continuation.after fleet workspace task row.generation

/-- What an input to an existing task prepares: the wake of a stopped one nothing queued. -/
def inputWake (t : Tables) (fleet workspace task : String) : Option Continuation :=
  (t.find fleet workspace task).bind fun row =>
    if (t.admissions.any fun other =>
          decide (other.task = some task ∧ other.taskGeneration = some row.generation ∧
            other.settled = false)) = true ∨
        ¬ (row.status = .waiting ∨ row.status = .blocked) then none
    else Continuation.after fleet workspace task row.generation

def origin (t : Tables) (fleet workspace task operation revision : String) : Option Origin :=
  (t.find fleet workspace task).map fun row =>
    { fleet := fleet
      workspace := workspace
      task := task
      operation := operation
      revision := revision
      generation := row.generation
      state := row.status
      acceptedRevision := (t.goals task).acceptedRevision
      requestDigest :=
        (t.adoptions.find? fun receipt =>
          decide (receipt.task = task ∧ receipt.operation = operation)).map
            AdoptionReceipt.digest }

section Requests

variable (etag : Tables → TaskRow → String)

def control (t : Tables) (request : Request) (control : TaskControl) (prepared : Prepared)
    (clock : Int) : Except Fault Tables :=
  match t.find request.fleet request.workspace request.task with
  | none => .error .notFound
  | some row =>
      if etag t row ≠ request.expectedTag then .error .precondition
      else if counter row.generation ≠ some request.expectedGeneration then .error .conflict
      else if row.status = control.requested then .ok t
      else if row.status.isTerminal = true ∨
          (control = .resume ∧ ¬ (row.status = .paused ∨ row.status = .blocked)) then
        .error .conflict
      else if control = .resume ∧ row.withinLimits clock = false then .error .limitExhausted
      else
        let change := controlled control (t.goals row.id) clock
        let moved := t.move row change clock
        match prepared.continuation with
        | none => .ok moved
        | some c => moved.queue (change row) c prepared.id prepared.capacity

/-- `update_goal`, and the continuation of a task that had not stopped. -/
def updateGoal (t : Tables) (row : TaskRow) (origin : Origin) (goalDigest : String)
    (prepared : Prepared) (clock : Int) : Except Fault Tables :=
  let goal := t.goals row.id
  let change := adopted origin.eligible goal clock
  let moved :=
    { t with
      goals := Function.update t.goals row.id
        { goal with acceptedRevision := origin.revision, goalDigest := goalDigest } }.move row
          change clock
  if origin.eligible = false then .ok moved
  else
    match prepared.continuation with
    | none => .error .staleState
    | some c => moved.queue (change row) c prepared.id prepared.capacity

variable (adoptionDigest : String → String → Nat → String)

/-- `reviewed` is whether the revision is the head, its questions compile and it keeps the
task's authority. -/
def adopt (t : Tables) (origin : Origin) (request : Request) (reviewed : Bool)
    (goalDigest : String) (prepared : Prepared) (clock : Int) : Except Fault Tables :=
  let digest := adoptionDigest request.expectedTag origin.revision request.expectedGeneration
  if origin.requestDigest.isSome then
    if origin.requestDigest = some digest then .ok t else .error .replayConflict
  else
    match t.find request.fleet request.workspace request.task with
    | none => .error .notFound
    | some row =>
        match t.adoptions.find? fun receipt =>
            decide (receipt.task = row.id ∧ receipt.operation = origin.operation) with
        | some receipt => if receipt.digest = digest then .ok t else .error .replayConflict
        | none =>
            if etag t row ≠ request.expectedTag then .error .precondition
            else if counter row.generation ≠ some request.expectedGeneration ∨
                row.status.isTerminal = true then .error .conflict
            else if (origin.eligible && origin.changed) = true ∧ row.withinLimits clock = false then
              .error .limitExhausted
            else if reviewed = false then .error .invalidTarget
            else
              let noted :=
                { t with adoptions := t.adoptions ++ [⟨row.id, origin.operation, digest⟩] }
              if (t.goals row.id).acceptedRevision = origin.revision then .ok noted
              else noted.updateGoal row origin goalDigest prepared clock

end Requests

/-- `input::accept`; `opens` is whether the action is one a finished task refuses. -/
def input (t : Tables) (fleet workspace task : String) (opens : Bool) (prepared : Prepared)
    (clock : Int) : Except Fault Tables :=
  match t.find fleet workspace task with
  | none => .error .notFound
  | some row =>
      let goal := t.goals row.id
      let counted :=
        { t with
          goals := Function.update t.goals row.id
            { goal with inputSequence := goal.inputSequence + 1 } }
      if row.status.isTerminal = true ∧ opens = true then .error .staleState
      else
        match prepared.continuation with
        | none => .ok (counted.write row.id (steered false))
        | some c =>
            if (counter row.generation).map (· + 1) ≠ some c.generation ∨
                ¬ (row.status = .waiting ∨ row.status = .blocked) then .error .staleState
            else if row.withinLimits clock = false then .error .limitExhausted
            else
              (counted.move row (steered true) clock).queue (steered true row) c prepared.id
                prepared.capacity

/-! ## The wall and the setup -/

/-- `sql/expire.sql`. -/
def expire (t : Tables) (fleet workspace task : String) (clock : Int) : Tables :=
  match t.find fleet workspace task with
  | none => t
  | some row =>
      let running := t.leases.any fun lease =>
        decide ((lease.attachment.map Attachment.task) = some row.id ∧ lease.active = true ∧
          clock < lease.expiresAt)
      if row.terminalAt.isNone = true ∧
          (row.expiresAt ≤ clock ∨ (row.maxLeases ≤ row.usedLeases ∧ running = false)) then
        t.move row
          (fun row => row.transition .exhausted
            (some (if row.expiresAt ≤ clock then "wall_deadline_reached"
              else "lease_limit_reached")) clock) clock
      else t

/-- `block_changed_task_setup`, once the slot is held and the setup did change. -/
def blockChanged (t : Tables) (admission fleet workspace : String) (clock : Int) : Tables :=
  match t.admissions.find? fun row =>
      decide (row.id = admission ∧ row.fleet = fleet ∧ row.workspace = workspace) with
  | none => t
  | some selected =>
      match t.store.tasks.find? fun row =>
          decide (some row.id = selected.task ∧ some row.generation = selected.taskGeneration ∧
            row.terminalAt = none ∧ (row.status = .ready ∨ row.status = .running)) with
      | none => t
      | some row =>
          t.move row
            (fun row =>
              { row with
                status := .blocked
                statusReason := some "setup_authority_changed"
                generation := row.generation + 1
                stopGeneration := row.stopGeneration + 1
                resourceVersion := row.resourceVersion + 1
                lastTransitionAt := some (stored clock) }) clock

end Tables

/-! ## Reports -/

inductive Disposition where
  | complete
  | waiting
  | blocked
  | continue_
deriving DecidableEq

structure TaskReport where
  task : String
  generation : Nat
  disposition : Disposition
  decisionCall : Option String
  checkpoint : Option String
  coveredInputSequence : Nat
  effectWatermark : Nat
deriving DecidableEq

/-- The pull request a report is about, and how many workflows check it. -/
structure Target where
  pr : BoundPr
  workflows : Nat
deriving DecidableEq

def checked (status : Snapshot) (target : Target) : Bool :=
  status.isOpen && decide (status.head = target.pr.head) && !status.checks.isEmpty &&
    decide (status.checks.length = target.workflows)

def checksFinished (status : Snapshot) (target : Target) : Bool :=
  checked status target && status.checks.all fun check => decide (check.status = "completed")

def green (status : Snapshot) (target : Target) : Bool :=
  checked status target && status.checks.all fun check =>
    decide (check.status = "completed" ∧ check.conclusion = some "success")

structure PreparedReport where
  lease : String
  row : TaskRow
  goal : Goal
  input : TaskReport
  target : Option Target
  dependency : Option Snapshot
  wake : Option Continuation
deriving DecidableEq

def PreparedReport.evidence (plan : PreparedReport) : Option (Snapshot × Target) :=
  match plan.dependency, plan.target with
  | some status, some target => some (status, target)
  | _, _ => none

def runLimits (row : TaskRow) (instant : Int) : Bool :=
  decide (instant < row.expiresAt) &&
    decide (row.usedModelNanos < row.maxModelNanos - row.reservedModelNanos) &&
    decide (row.usedRunningNanos < row.maxRunningNanos)

structure Live where
  profile : Bool
  setup : Bool
  authority : Authority
  effectsResolved : Bool
  checkpoint : Bool
deriving DecidableEq

namespace Tables

/-- `prepare_report`; `held` is whether the lease, the recorded decision and the live setup
still allow it. -/
def prepareReport (t : Tables) (lease : String) (input : TaskReport) (target : Option Target)
    (dependency : Option Snapshot) (held : Bool) (clock : Int) : Option PreparedReport :=
  match t.leases.find? fun row => decide (row.id = lease ∧ row.active = true) with
  | none => none
  | some lease =>
      match lease.attachment with
      | none => none
      | some attached =>
          match t.find lease.fleet lease.workspace attached.task with
          | none => none
          | some row =>
              let reads := input.disposition = .waiting ∨ input.disposition = .complete
              if held = false ∨ attached.task ≠ input.task ∨
                  row.generation ≠ (input.generation : Int) ∨
                  attached.generation ≠ row.generation ∨
                  attached.stopGeneration ≠ row.stopGeneration ∨ row.status ≠ .running ∨
                  runLimits row clock = false ∨
                  (reads ∧ target.isSome = true ∧ dependency.isNone = true) ∨
                  (input.disposition = .waiting ∧ target.isNone = true) then none
              else
                let plan : PreparedReport :=
                  { lease := lease.id
                    row := row
                    goal := t.goals row.id
                    input := input
                    target := target
                    dependency := if reads ∧ target.isSome = true then dependency else none
                    wake := none }
                if input.disposition = .continue_ ∨ (input.disposition = .waiting ∧
                    plan.evidence.any (fun seen => checksFinished seen.1 seen.2) = true) then
                  (Continuation.after row.fleet row.workspace row.id row.generation).map fun c =>
                    { plan with wake := some c }
                else some plan

end Tables

def PreparedReport.matches_ (plan : PreparedReport) (row : TaskRow) (goal : Goal) : Bool :=
  decide (row.id = plan.row.id ∧ row.generation = plan.row.generation ∧
    row.stopGeneration = plan.row.stopGeneration ∧
    goal.acceptedRevision = plan.goal.acceptedRevision ∧ goal.goalDigest = plan.goal.goalDigest ∧
    goal.effectCursor.natAbs = plan.goal.effectCursor.natAbs ∧
    goal.confirmedEffectWatermark.natAbs = plan.goal.confirmedEffectWatermark.natAbs ∧
    goal.coveredInputSequence.natAbs = plan.goal.coveredInputSequence.natAbs ∧
    goal.inputSequence = goal.coveredInputSequence)

def action (plan : PreparedReport) (goal : Goal) (live : Live) :
    Except Fault (Option (TaskState × Option String)) :=
  if plan.input.decisionCall.isSome = true ∧ live.profile = false then .ok none
  else if plan.target.isSome = true ∧ live.setup = false then .ok none
  else if plan.target.isSome = true ∧ live.authority = .unavailable then .error .datastore
  else if plan.target.isSome = true ∧ live.authority = .refused then .ok none
  else if live.effectsResolved = false then .ok none
  else if plan.input.coveredInputSequence ≠ goal.coveredInputSequence.natAbs ∨
      plan.input.effectWatermark ≠ goal.confirmedEffectWatermark.natAbs then .ok none
  else
    match plan.input.disposition with
    | .blocked => .ok (some (.blocked, some "prerequisite_unavailable"))
    | .complete =>
        if plan.target.isNone = true ∨
            plan.evidence.any (fun seen => green seen.1 seen.2) = true then
          .ok (some (.done, none))
        else .ok none
    | .continue_ =>
        if plan.input.checkpoint ≠ goal.checkpoint ∨ live.checkpoint = false then .ok none
        else .ok (some (.ready, none))
    | .waiting =>
        if plan.input.checkpoint ≠ goal.checkpoint ∨ live.checkpoint = false then .ok none
        else
          match plan.evidence with
          | none => .ok none
          | some (status, target) =>
              if (status.isOpen && decide (status.head = target.pr.head)) = false then .ok none
              else if checksFinished status target then
                .ok (some (.ready, some "validation_changed"))
              else if status.checks.any fun check => decide (check.status ≠ "completed") then
                .ok (some (.waiting, some "validation_pending"))
              else .ok none

inductive Notice where
  | stale
  | unverified
  | limit
deriving DecidableEq

section Settle

variable (digest : Snapshot → String)

namespace Tables

/-- `report::settle::apply`: the task's part of a report, after its usage is accounted. -/
def settle (t : Tables) (lease : Lease) (plan : Option PreparedReport) (live : Live)
    (id wait : String) (capacity : Capacity) (clock : Int) :
    Except Fault (Tables × Option Notice) :=
  match lease.attachment with
  | none => .ok (t, none)
  | some held =>
      match t.find lease.fleet lease.workspace held.task with
      | none => .ok (t, none)
      | some row =>
          let goal := t.goals row.id
          let stop (state : TaskState) (reason : String) :=
            t.move row (fun row => row.transition state (some reason) clock) clock
          if held.generation ≠ row.generation ∨ held.stopGeneration ≠ row.stopGeneration ∨
              row.status ≠ .running then .ok (t, some .stale)
          else
            match plan with
            | none => .ok (stop .blocked "completion_unverified", some .unverified)
            | some plan =>
                if runLimits row clock = false then
                  .ok (stop .exhausted "cumulative_limit_reached", some .limit)
                else if plan.matches_ row goal = false then
                  .ok (stop .blocked "goal_evidence_changed", some .unverified)
                else if row.maxLeases ≤ row.usedLeases ∧
                    (plan.input.disposition = .continue_ ∨ plan.input.disposition = .waiting) then
                  .ok (stop .exhausted "lease_limit_reached", some .limit)
                else
                  match action plan goal live with
                  | .error fault => .error fault
                  | .ok none =>
                      .ok (stop .blocked "recovery_or_completion_unverified", some .unverified)
                  | .ok (some (.ready, reason)) =>
                      match plan.wake with
                      | none =>
                          .ok (stop .blocked "continuation_unavailable", some .unverified)
                      | some c =>
                          match t.continueReady row
                              (fun row => row.transition .ready reason clock) clock c id
                              capacity with
                          | .ok after => .ok (after, none)
                          | .error .capacity =>
                              .ok (stop .blocked "continuation_unavailable", some .unverified)
                          | .error fault => .error fault
                  | .ok (some (.waiting, reason)) =>
                      match plan.evidence with
                      | none => .error .invalidTarget
                      | some (status, target) =>
                          let moved :=
                            t.move row (fun row => row.transition .waiting reason clock) clock
                          match moved.store.arm wait row.id lease.id target.pr (digest status)
                              status clock with
                          | none => .error .datastore
                          | some store => .ok ({ moved with store := store }, none)
                  | .ok (some (state, reason)) =>
                      .ok (t.move row (fun row => row.transition state reason clock) clock, none)

def close (t : Tables) (lease : Lease) : Tables :=
  { t with
    leases := Table.update (fun other => decide (other.id = lease.id)) (fun _ => lease) t.leases
    admissions := Table.update (fun other => decide (other.id = lease.admission))
      (fun other => { other with settled := true }) t.admissions }

def counted (t : Tables) (lease : Lease) (measured : Option Int) (clock : Int) : Tables :=
  match measured with
  | none => t.close lease
  | some nanos => (t.close lease).record lease nanos clock

def reported (t : Tables) (lease : String) : Option Lease :=
  t.leases.find? fun row =>
    decide (row.id = lease ∧ row.active = true) && t.admissions.any fun other =>
      decide (other.id = row.admission ∧ other.settled = false)

/-- A report that won its fence: the lease ends, its last slice is accounted and its task
settled. -/
def report (t : Tables) (lease : String) (measured : Option Int) (plan : Option PreparedReport)
    (live : Live) (id wait : String) (capacity : Capacity) (clock : Int) :
    Except Fault (Tables × Option Notice) :=
  match t.reported lease with
  | none => .ok (t, none)
  | some row =>
      (t.counted (row.ended clock) measured clock).settle digest (row.ended clock) plan live id
        wait capacity clock

/-! ## Waits -/

/-- The tables after a wait's transaction; one that moved its task retires what that left
behind. -/
def follow (t : Tables) (store : Store) (task : String) : Tables :=
  match Table.find TaskRow.id task t.store.tasks, Table.find TaskRow.id task store.tasks with
  | some old, some new =>
      if new.generation = old.generation then { t with store := store }
      else { t with store := store, admissions := retire new t.leases t.admissions }
  | _, _ => { t with store := store }

def claim (t : Tables) (candidate id : String) (visit : Visit) :
    Except Fault (Tables × Option Claimed) :=
  match t.store.owner candidate visit.free visit.readAt, t.store.claim candidate id visit with
  | _, .error _ => .error .datastore
  | none, .ok (_, _) => .ok (t, none)
  | some owner, .ok (store, claimed) => .ok (t.follow store owner.row.task, claimed)

/-- `finish`; its continuation is staged only where the observation wakes the task. -/
def finish (t : Tables) (claimed : Claimed) (result : Except (Option Int) Snapshot)
    (visit : Visit) (id : String) (capacity : Capacity) : Except Fault Tables :=
  let wait := claimed.owner.row
  match Continuation.after wait.fleet wait.workspace wait.task wait.taskGeneration with
  | none => .error .limitExhausted
  | some c =>
      let staged := stage c id capacity t.admissions
      let staging : Waits.Staging := match staged with
        | .ok (_, admitted) => .admitted admitted
        | .error .capacity => .refused
        | .error _ => .failed
      match t.store.finish digest ⟨claimed.owner, claimed.claim, result⟩
          { visit with staging := staging } with
      | .error _ => .error .datastore
      | .ok (store, .consumed) =>
          match staged, Table.find TaskRow.id wait.task store.tasks with
          | .ok (admissions, admitted), some row =>
              let moved := { t with admissions := admissions }.follow store wait.task
              .ok { moved with admissions := bind row admitted moved.admissions }
          | _, _ => .error .datastore
      | .ok (store, _) => .ok (t.follow store wait.task)

end Tables

end Settle

/-! ## The daemons -/

/-- The tables, and what is read from them before a transaction that takes it up again. -/
structure Daemon where
  tables : Tables
  wakes : List Continuation
  origins : List Origin
  reports : List PreparedReport
  claimed : List Claimed

namespace Daemon

def start (goals : String → Goal) : Daemon :=
  ⟨⟨⟨[], [], [], []⟩, goals, [], [], []⟩, [], [], [], []⟩

def commit (s : Daemon) : Except Fault Tables → Daemon
  | .error _ => s
  | .ok tables => { s with tables := tables }

end Daemon

/-- A transaction, or a read made before one.  A request names its wake, its origin, its
prepared report or its claim by its place. -/
inductive Event where
  | message (id fleet workspace : String)
  | create (new : NewTask) (lease id : String) (capacity : Capacity) (charged clock : Int)
  | issue (lease admission fleet : String) (host : Host) (revision : Option IssueRevision)
      (leasedUntil clock : Int)
  | meter (lease : String) (meteredAt expiresAt nanos clock : Int)
  | prepareResume (fleet workspace task : String)
  | control (request : Request) (control : TaskControl) (wake : Nat) (id : String)
      (capacity : Capacity) (clock : Int)
  | readOrigin (fleet workspace task operation revision : String)
  | adopt (origin : Nat) (expectedTag : String) (expectedGeneration : Nat) (reviewed : Bool)
      (goalDigest id : String) (capacity : Capacity) (clock : Int)
  | prepareInput (fleet workspace task : String)
  | input (fleet workspace task : String) (opens : Bool) (wake : Option Nat) (id : String)
      (capacity : Capacity) (clock : Int)
  | prepareReport (lease : String) (input : TaskReport) (target : Option Target)
      (dependency : Option Snapshot) (held : Bool) (clock : Int)
  | report (lease : String) (measured : Option Int) (plan : Option Nat) (live : Live)
      (id wait : String) (capacity : Capacity) (clock : Int)
  | claim (candidate id : String) (visit : Visit)
  | finish (claimed : Nat) (result : Except (Option Int) Snapshot) (visit : Visit) (id : String)
      (capacity : Capacity)
  | signal (event : Waits.Event)
  | expire (fleet workspace task : String) (clock : Int)
  | blockChanged (admission fleet workspace : String) (clock : Int)
  | spend (task : String) (usedModelNanos reservedModelNanos resourceVersion : Int)
  | goal (task : String) (goal : Goal)

section Step

variable (digest : Snapshot → String) (etag : Tables → TaskRow → String)
  (adoptionDigest : String → String → Nat → String)

def Tables.signal (t : Tables) : Waits.Event → Tables
  | .record completion clock => { t with store := t.store.record completion clock }
  | .deliver completion free readAt clock =>
      { t with store := (t.store.one completion free readAt clock).1 }
  | .postpone completion clock => { t with store := t.store.postpone completion clock }
  | .collect gone => { t with store := t.store.collect gone }
  | .claim .. | .finish .. | .lifecycle .. | .arm .. => t

def Daemon.step (s : Daemon) : Event → Daemon
  | .message id fleet workspace =>
      if s.tables.admissions.any fun row => decide (row.id = id) then s
      else
        { s with tables := { s.tables with
            admissions :=
              s.tables.admissions ++ [⟨id, fleet, workspace, none, none, none, false⟩] } }
  | .create new lease id capacity charged clock =>
      s.commit (s.tables.create new lease id capacity charged clock)
  | .issue lease admission fleet host revision leasedUntil clock =>
      match s.tables.issue lease admission fleet host revision leasedUntil clock with
      | none => s
      | some tables => { s with tables := tables }
  | .meter lease meteredAt expiresAt nanos clock =>
      { s with tables := s.tables.meter lease meteredAt expiresAt nanos clock }
  | .prepareResume fleet workspace task =>
      { s with wakes := s.wakes ++ (s.tables.resumeWake fleet workspace task).toList }
  | .control request control wake id capacity clock =>
      if control = .resume then
        match s.wakes[wake]? with
        | none => s
        | some c =>
            if c.fleet = request.fleet ∧ c.workspace = request.workspace ∧
                c.task = request.task then
              s.commit (s.tables.control etag request control ⟨some c, id, capacity⟩ clock)
            else s
      else s.commit (s.tables.control etag request control ⟨none, id, capacity⟩ clock)
  | .readOrigin fleet workspace task operation revision =>
      { s with origins := s.origins ++
          (s.tables.origin fleet workspace task operation revision).toList }
  | .adopt origin expectedTag expectedGeneration reviewed goalDigest id capacity clock =>
      match s.origins[origin]? with
      | none => s
      | some origin =>
          s.commit (s.tables.adopt etag adoptionDigest origin
            ⟨origin.fleet, origin.workspace, origin.task, expectedTag, expectedGeneration⟩ reviewed
            goalDigest ⟨origin.wake, id, capacity⟩ clock)
  | .prepareInput fleet workspace task =>
      { s with wakes := s.wakes ++ (s.tables.inputWake fleet workspace task).toList }
  | .input fleet workspace task opens wake id capacity clock =>
      match wake with
      | none => s.commit (s.tables.input fleet workspace task opens ⟨none, id, capacity⟩ clock)
      | some place =>
          match s.wakes[place]? with
          | none => s
          | some c =>
              if c.fleet = fleet ∧ c.workspace = workspace ∧ c.task = task then
                s.commit (s.tables.input fleet workspace task opens ⟨some c, id, capacity⟩ clock)
              else s
  | .prepareReport lease input target dependency held clock =>
      { s with reports := s.reports ++
          (s.tables.prepareReport lease input target dependency held clock).toList }
  | .report lease measured plan live id wait capacity clock =>
      let prepared := (plan.bind fun place => s.reports[place]?).filter fun plan =>
        decide (plan.lease = lease)
      s.commit ((s.tables.report digest lease measured prepared live id wait capacity clock).map
        Prod.fst)
  | .claim candidate id visit =>
      match s.tables.claim candidate id visit with
      | .error _ => s
      | .ok (tables, claimed) =>
          { s with tables := tables, claimed := s.claimed ++ claimed.toList }
  | .finish claimed result visit id capacity =>
      match s.claimed[claimed]? with
      | none => s
      | some claimed => s.commit (s.tables.finish digest claimed result visit id capacity)
  | .signal event => { s with tables := s.tables.signal event }
  | .expire fleet workspace task clock =>
      { s with tables := s.tables.expire fleet workspace task clock }
  | .blockChanged admission fleet workspace clock =>
      { s with tables := s.tables.blockChanged admission fleet workspace clock }
  | .spend task usedModelNanos reservedModelNanos resourceVersion =>
      { s with tables := s.tables.write task fun row =>
          { row with
            usedModelNanos := usedModelNanos
            reservedModelNanos := reservedModelNanos
            resourceVersion := resourceVersion } }
  | .goal task goal =>
      { s with tables := { s.tables with goals := Function.update s.tables.goals task goal } }

end Step

end Agentsfleet.Task.Lifecycle
