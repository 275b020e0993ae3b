import Agentsfleet.Waits.Row
import Mathlib.Data.String.Basic

/-!
# Claims, observations and deliveries

Three transactions over a wait: a claim, which reads it and reserves one read of
the dependency, a finish, which records what that read saw, and a delivery of a
completion, which signals one wait and moves the completion's cursor past it.
What the locks, the clocks, the live authority and the admissions answer is a
transaction's `Visit`.
-/

set_option autoImplicit false

namespace Agentsfleet.Waits

open Agentsfleet.Core
open Agentsfleet.Library
open Agentsfleet.Task

/-! ## What a transaction meets -/

/-- Whether the target is still within the accepted and the live setup. -/
inductive Authority where
  | held
  | refused
  | unavailable
deriving DecidableEq

inductive Staging where
  | admitted (id : String)
  | refused
  | failed
deriving DecidableEq

/-- `readAt` is the owner read's instant, `clock` the database's after it, and
`now` the daemon's. -/
structure Visit where
  free : Bool
  readAt : Int
  clock : Int
  now : Int
  authority : Authority
  staging : Staging
deriving DecidableEq

inductive Fault where
  | datastoreUnavailable
  | staleState
  | admission
deriving DecidableEq

/-! ## Statements -/

def second : Int := 1000000

def claimTtl : Int := 30 * second

/-- `sql/cancel.sql`. -/
def Store.cancel (store : Store) (task : String) (clock : Int) : Store :=
  { store with
    waits := Table.update (fun row => decide (row.task = task) && row.live)
      (fun row => { row with cancelledAt := some (stored clock) }) store.waits }

/-- `sql/transition.sql`. -/
def TaskRow.transition (task : TaskRow) (state : TaskState) (reason : Option String) (clock : Int) :
    TaskRow :=
  { task with
    status := state
    statusReason := reason
    generation := task.generation + 1
    stopGeneration := task.stopGeneration + 1
    resourceVersion := task.resourceVersion + 1
    terminalAt := if state.isTerminal then some (stored clock) else task.terminalAt
    checkpointCleanupAt := some (stored clock)
    lastTransitionAt := some (stored clock) }

def Store.updateTask (store : Store) (task : String) (change : TaskRow → TaskRow) : Store :=
  { store with tasks := Table.update (fun row => decide (row.id = task)) change store.tasks }

def Store.stop (store : Store) (owner : Wait) (state : TaskState) (reason : String)
    (clock : Int) : Store :=
  (store.cancel owner.row.task clock).updateTask owner.row.task fun task =>
    task.transition state (some reason) clock

/-- `sql/charge.sql`. -/
def TaskRow.charge (task : TaskRow) (reason : String) : TaskRow :=
  { task with
    usedFallbackReads := task.usedFallbackReads + 1
    statusReason :=
      if task.maxFallbackReads ≤ task.usedFallbackReads + 1 then some reason
      else task.statusReason
    resourceVersion := task.resourceVersion + 1 }

/-- `sql/claim.sql`. -/
def WaitRow.reserve (row : WaitRow) (claim : String) (fallback : Bool) (clock : Int) : WaitRow :=
  { row with
    claim := some ⟨claim, stored (clock + claimTtl)⟩
    initialReadAt := some (row.initialReadAt.getD (stored clock))
    dueAt := stored (clock + claimTtl)
    fallbackCount := row.fallbackCount + fallback.toNat }

/-! ## A claim -/

structure ReadPermit where
  eventId : String
  installation : Nat
  deadline : Int
deriving DecidableEq

structure Claimed where
  owner : Wait
  claim : String
  permit : ReadPermit
deriving DecidableEq

/-- `id` is the claim's own identifier. -/
def Store.claim (store : Store) (candidate id : String) (visit : Visit) :
    Except Fault (Store × Option Claimed) :=
  match store.owner candidate visit.free visit.readAt with
  | none => .ok (store, none)
  | some owner =>
      if owner.current = false then .ok (store.cancel owner.row.task visit.clock, none)
      else if owner.withinLimits = false then
        .ok (store.stop owner .exhausted "cumulative_limit_reached" visit.clock, none)
      else if owner.due = false ∨ owner.claimValid = some true ∨
          (owner.fallback = true ∧ owner.task.maxFallbackReads ≤ owner.task.usedFallbackReads) then
        .ok (store, none)
      else
        match visit.authority with
        | .unavailable => .error .datastoreUnavailable
        | .refused =>
            .ok (store.stop owner .blocked "dependency_access_unavailable" visit.clock, none)
        | .held =>
            let charged :=
              if owner.fallback then
                store.updateTask owner.row.task fun task => task.charge "dependency_read_limit"
              else store
            .ok
              ({ charged with
                  waits := Table.update (fun row => decide (row.id = owner.row.id))
                    (fun row => row.reserve id owner.fallback visit.clock) charged.waits },
                some
                  { owner := owner
                    claim := id
                    permit :=
                      { eventId := owner.row.id
                        installation := owner.task.target.installationId
                        deadline := min (stored (visit.clock + claimTtl)) owner.row.expiresAt } })

/-! ## A finish -/

/-- A claim with what its read brought: a snapshot, or a fault and the remote's cooldown. -/
structure Probe where
  owner : Wait
  claim : String
  result : Except (Option Int) Snapshot

def actionable (snapshot : Snapshot) (owner : Wait) : Bool :=
  snapshot.isOpen && decide (snapshot.head = owner.row.expectedHead) &&
    snapshot.checks.any fun check =>
      decide (check.status = "completed") &&
        !owner.row.checks.any fun prior => decide (prior = check)

inductive Disposition where
  | refused
  | stopped
  | recorded
  | consumed
deriving DecidableEq

section Finish

variable (digest : Snapshot → String)

def delay (fallbackCount : Nat) : Int :=
  match fallbackCount with
  | 0 => 60 * second
  | 1 => 120 * second
  | 2 => 240 * second
  | _ => 300 * second

/-- `sql/update.sql` of one row.  Every column is set from the row as it was. -/
def WaitRow.observe (row : WaitRow) (checks : List Check) (baseline : String)
    (signalledAt : Option Int) (cooldown backoff : Int) (sequence : Nat) (clock : Int) : WaitRow :=
  { row with
    checks := checks
    baselineDigest := baseline
    observedSignalAt := signalledAt
    observedSignalSequence := sequence
    cooldownExpiresAt := stored (max row.cooldownExpiresAt cooldown)
    dueAt := stored (max (max row.cooldownExpiresAt cooldown)
      (if sequence < row.signalSequence then clock else clock + backoff))
    claim := none }

/-- The row a finish writes: the wait's, while `claim` still holds it. -/
def WaitRow.heldBy (row : WaitRow) (id claim : String) : Bool :=
  decide (row.id = id) && decide (row.claim.map Claim.id = some claim) && row.live

def Store.update (store : Store) (owner : Wait) (probe : Probe) (snapshot : Option Snapshot)
    (cooldown : Option Int) (visit : Visit) : Store :=
  let checks := match snapshot with
    | some snapshot => snapshot.checks
    | none => owner.row.checks
  let baseline := match snapshot with
    | some snapshot => digest snapshot
    | none => owner.row.baselineDigest
  { store with
    waits := Table.update (fun row => row.heldBy owner.row.id probe.claim)
      -- Consume only the signal visible when this claim started.  A racing signal remains due.
      (fun row => row.observe checks baseline probe.owner.row.signalledAt
        (cooldown.getD visit.now) (delay owner.row.fallbackCount)
        probe.owner.row.signalSequence visit.clock) store.waits }

/-- `sql/consume.sql` of one row. -/
def WaitRow.consume (row : WaitRow) (admission : String) (checks : List Check) (baseline : String)
    (clock : Int) : WaitRow :=
  { row with
    consumed := some ⟨stored clock, admission⟩
    claim := none
    checks := checks
    baselineDigest := baseline }

def Store.consume (store : Store) (owner : Wait) (probe : Probe) (prepared : Bool)
    (snapshot : Snapshot) (visit : Visit) : Except Fault (Store × Disposition) :=
  if prepared = false then .error .staleState
  else
    match visit.staging with
    | .failed => .error .admission
    | .refused =>
        .ok (store.stop owner .blocked "continuation_unavailable" visit.clock, .stopped)
    | .admitted id =>
        let ready := store.updateTask owner.row.task fun task =>
          task.transition .ready none visit.clock
        .ok
          ({ ready with
              waits := Table.update (fun row => row.heldBy owner.row.id probe.claim)
                (fun row => row.consume id snapshot.checks (digest snapshot) visit.clock)
                ready.waits },
            .consumed)

def Store.apply (store : Store) (owner : Wait) (probe : Probe) (prepared : Bool) (visit : Visit) :
    Except Fault (Store × Disposition) :=
  if owner.withinLimits = false then
    .ok (store.stop owner .exhausted "cumulative_limit_reached" visit.clock, .stopped)
  else
    match visit.authority with
    | .unavailable => .error .datastoreUnavailable
    | .refused =>
        .ok (store.stop owner .blocked "dependency_access_unavailable" visit.clock, .stopped)
    | .held =>
        match probe.result with
        | .error cooldown =>
            .ok (store.update digest owner probe none cooldown visit, .recorded)
        | .ok snapshot =>
            if snapshot.isOpen = false ∨ snapshot.head ≠ owner.row.expectedHead then
              .ok (store.stop owner .blocked
                (if snapshot.isOpen then "pull_request_head_changed" else "pull_request_closed")
                visit.clock, .stopped)
            else if actionable snapshot owner then
              store.consume digest owner probe prepared snapshot visit
            else .ok (store.update digest owner probe (some snapshot) none visit, .recorded)

/-- A continuation is prepared on what the claim read, before the transaction. -/
def Probe.prepared (probe : Probe) : Bool :=
  match probe.result with
  | .ok snapshot => actionable snapshot probe.owner
  | .error _ => false

def Store.finish (store : Store) (probe : Probe) (visit : Visit) :
    Except Fault (Store × Disposition) :=
  match store.owner probe.owner.row.id visit.free visit.readAt with
  | none => .ok (store, .refused)
  | some owner =>
      if owner.current = false ∨ owner.claimValid ≠ some true ∨
          owner.row.claim.map Claim.id ≠ some probe.claim then
        .ok (store, .refused)
      else store.apply digest owner probe probe.prepared visit

end Finish

/-! ## Deliveries -/

def Check.awaits (check : Check) (completion : Completion) : Bool :=
  decide (check.workflowId = completion.workflowId) &&
    (check.runId.isNone ||
      (decide (check.runId = some completion.runId) &&
        check.runAttempt.any fun attempt => decide (attempt ≤ completion.runAttempt)) ||
      check.runNumber.any fun number => decide (number < completion.runNumber))

def Completion.reaches (completion : Completion) (after : Option String) (row : WaitRow) : Bool :=
  decide (row.workspace = completion.workspace) &&
    decide (row.installationId = completion.installationId) &&
    decide (row.repositoryId = completion.repositoryId) &&
    decide (row.expectedHead = completion.headOid) && row.live &&
    decide (after.getD "00000000-0000-0000-0000-000000000000" < row.id)

def Completion.covers (completion : Completion) (fleet : String) : Bool :=
  completion.scopeFleet.all fun scope => decide (fleet = scope)

def Completion.signals (completion : Completion) (row : WaitRow) : Bool :=
  completion.covers row.fleet && row.checks.any fun check => check.awaits completion

def WaitRow.signal (row : WaitRow) (completion : Completion) (clock : Int) : WaitRow :=
  { row with
    signalledAt := some (match row.signalledAt with
      | some earlier => max earlier completion.receivedAt
      | none => completion.receivedAt)
    signalSequence := row.signalSequence + 1
    dueAt := stored (max row.cooldownExpiresAt (min row.dueAt clock)) }

structure Progress where
  finished : Bool
  signalled : Nat
deriving DecidableEq

/-- The wait `source` selects, with the completion. -/
def Store.target (store : Store) (held : Fanout) : Option (Completion × WaitRow) :=
  match store.completions.find? fun completion => decide (completion.id = held.completion) with
  | none => none
  | some completion =>
      match (Table.select (completion.reaches held.afterWait) (fun row : WaitRow => row.id) 1
        store.waits).head? with
      | none => none
      | some row => some (completion, row)

/-- `sql/fanout_one.sql`. -/
def Store.one (store : Store) (completion : String) (free : Bool) (readAt clock : Int) :
    Store × Option Progress :=
  match store.fanouts.find? fun progress =>
    decide (progress.completion = completion) && progress.finishedAt.isNone &&
      decide (progress.nextAttemptAt ≤ readAt) && free with
  | none => (store, none)
  | some held =>
      let here := fun progress : Fanout => decide (progress.completion = held.completion)
      match store.target held with
      | none =>
          ({ store with
              fanouts := Table.update here
                (fun progress => { progress with
                  finishedAt := some (stored clock), nextAttemptAt := stored clock })
                store.fanouts },
            some ⟨true, 0⟩)
      | some (source, row) =>
          let signalled := source.signals row
          ({ store with
              waits :=
                if signalled then
                  Table.update (fun other => decide (other.id = row.id))
                    (fun other => other.signal source clock) store.waits
                else store.waits
              fanouts := Table.update here
                (fun progress => { progress with
                  afterWait := some row.id, nextAttemptAt := stored clock })
                store.fanouts },
            some ⟨false, signalled.toNat⟩)

end Agentsfleet.Waits
