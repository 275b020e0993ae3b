import Agentsfleet.Core.Clock
import Agentsfleet.Library.Table
import Agentsfleet.Task.Effects

/-!
# Native dependency waits

A waiting task's row of `fleet.task_waits` owns its wakeup: what the task waits
for, the signals that reached it, and the one claim that may read the
dependency.  Instants are in microseconds, as their columns keep them.
-/

set_option autoImplicit false

namespace Agentsfleet.Waits

open Agentsfleet.Core
open Agentsfleet.Library
open Agentsfleet.Task

/-! ## Evidence -/

structure Check where
  workflowId : Nat
  runId : Option Nat
  runNumber : Option Nat
  runAttempt : Option Nat
  status : String
  conclusion : Option String
deriving DecidableEq

/-- One independent reading of a pull request. -/
structure Snapshot where
  isOpen : Bool
  head : String
  checks : List Check
deriving DecidableEq

structure BoundPr where
  repositoryId : Nat
  installationId : Nat
  number : Nat
  head : String
deriving DecidableEq

/-! ## Rows -/

structure TaskRow where
  id : String
  fleet : String
  workspace : String
  status : TaskState
  statusReason : Option String
  resourceVersion : Int
  generation : Int
  stopGeneration : Int
  target : BoundPr
  maxModelNanos : Int
  usedModelNanos : Int
  reservedModelNanos : Int
  maxRunningNanos : Int
  usedRunningNanos : Int
  maxLeases : Int
  usedLeases : Int
  maxFallbackReads : Int
  usedFallbackReads : Int
  waitSequence : Option Int
  expiresAt : Int
  terminalAt : Option Int
  checkpointCleanupAt : Option Int
  lastTransitionAt : Option Int
deriving DecidableEq

/-- `claim_id` and `claim_expires_at`, which are null together. -/
structure Claim where
  id : String
  expiresAt : Int
deriving DecidableEq

/-- `consumed_at` and `consumed_admission_id`, which are null together. -/
structure Consumption where
  instant : Int
  admission : String
deriving DecidableEq

structure WaitRow where
  id : String
  task : String
  fleet : String
  workspace : String
  ownerLease : String
  taskGeneration : Int
  stopGeneration : Int
  generation : Int
  installationId : Int
  repositoryId : Int
  pullRequestNumber : Int
  expectedHead : String
  checks : List Check
  baselineDigest : String
  dueAt : Int
  expiresAt : Int
  cooldownExpiresAt : Int
  fallbackCount : Nat
  initialReadAt : Option Int
  signalledAt : Option Int
  observedSignalAt : Option Int
  signalSequence : Nat
  observedSignalSequence : Nat
  claim : Option Claim
  consumed : Option Consumption
  cancelledAt : Option Int
deriving DecidableEq

/-- `consumed_at IS NULL AND cancelled_at IS NULL`. -/
def WaitRow.live (row : WaitRow) : Bool := row.consumed.isNone && row.cancelledAt.isNone

def WaitRow.signalled (row : WaitRow) : Bool :=
  decide (row.observedSignalSequence < row.signalSequence)

def WaitRow.due (row : WaitRow) (at_ : Int) : Bool :=
  decide (row.dueAt ≤ at_) && decide (row.cooldownExpiresAt ≤ at_)

structure Completion where
  id : String
  workspace : String
  scopeFleet : Option String
  installationId : Int
  repositoryId : Int
  headOid : String
  workflowId : Nat
  runId : Nat
  runNumber : Nat
  runAttempt : Nat
  receivedAt : Int
deriving DecidableEq

structure Fanout where
  completion : String
  afterWait : Option String
  nextAttemptAt : Int
  finishedAt : Option Int
deriving DecidableEq

structure Store where
  tasks : List TaskRow
  waits : List WaitRow
  completions : List Completion
  fanouts : List Fanout
deriving DecidableEq

/-! ## The current wait -/

/-- A wait joined with its task, as `owner.sql` reads it. -/
structure Wait where
  row : WaitRow
  task : TaskRow
  claimValid : Option Bool
  withinLimits : Bool
  due : Bool
deriving DecidableEq

def TaskRow.withinLimits (task : TaskRow) (at_ : Int) : Bool :=
  decide (at_ < task.expiresAt) &&
    decide (task.usedModelNanos < task.maxModelNanos - task.reservedModelNanos) &&
    decide (task.usedRunningNanos < task.maxRunningNanos) &&
    decide (task.usedLeases < task.maxLeases)

/-- `owner.sql`; `free` is whether no other transaction holds the wait. -/
def Store.owner (store : Store) (id : String) (free : Bool) (at_ : Int) : Option Wait :=
  if free = false then none
  else
    match store.waits.find? fun row => decide (row.id = id) && row.live with
    | none => none
    | some row =>
        match store.tasks.find? fun task =>
          decide (task.id = row.task ∧ task.fleet = row.fleet ∧ task.workspace = row.workspace) with
        | none => none
        | some task =>
            some
              { row := row
                task := task
                claimValid := row.claim.map fun claim => decide (at_ < claim.expiresAt)
                withinLimits := task.withinLimits at_
                due := row.due at_ }

def Wait.current (wait : Wait) : Bool :=
  decide (wait.task.status = .waiting) &&
    decide (wait.row.taskGeneration = wait.task.generation) &&
    decide (wait.row.stopGeneration = wait.task.stopGeneration) &&
    decide (wait.task.target.installationId = wait.row.installationId.natAbs) &&
    decide (wait.task.target.repositoryId = wait.row.repositoryId.natAbs) &&
    decide (wait.task.target.number = wait.row.pullRequestNumber.natAbs) &&
    decide (wait.task.target.head = wait.row.expectedHead)

def Wait.fallback (wait : Wait) : Bool := wait.row.initialReadAt.isSome && !wait.row.signalled

theorem Store.owner_spec {store : Store} {id : String} {free : Bool} {at_ : Int} {wait : Wait}
    (read : store.owner id free at_ = some wait) :
    wait.row ∈ store.waits ∧ wait.row.id = id ∧ wait.row.live = true ∧
      wait.task ∈ store.tasks ∧ wait.task.id = wait.row.task ∧
      wait.claimValid = wait.row.claim.map fun claim => decide (at_ < claim.expiresAt) := by
  unfold Store.owner at read
  split at read
  · cases read
  · split at read
    · cases read
    · rename_i row found
      split at read
      · cases read
      · rename_i task owned
        cases read
        have picked := List.find?_some found
        have owns := List.find?_some owned
        rw [Bool.and_eq_true, decide_eq_true_eq] at picked
        exact ⟨List.mem_of_find?_eq_some found, picked.1, picked.2,
          List.mem_of_find?_eq_some owned, (of_decide_eq_true owns).1, rfl⟩

end Agentsfleet.Waits
