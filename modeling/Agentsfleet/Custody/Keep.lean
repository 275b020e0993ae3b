import Agentsfleet.Custody.Capture

/-!
# Retention and purging

What the daemon's maintenance does to checkpoints and their objects.  Owners go first: plans
nobody can finish, generations a task no longer needs, bases nothing is over.  An object no
owner holds, and nothing signed can still reach, becomes a purge; a purge is deleted in the
bucket and, once the bucket answers, its bytes leave the quota.
-/

set_option autoImplicit false

namespace Agentsfleet.Custody

open Agentsfleet.Library

/-! ## Owners -/

/-- `retention_abandon.sql`.  `held` are the leases that stand, under their fences. -/
def Tables.retentionAbandon (t : Tables) (task : Task) (held : List (String × Int)) (now : Int) :
    Tables :=
  { t with
    plans := Table.update
      (fun row => row.task == task.id && !row.ready && !row.abandoned &&
        (decide (row.transferDeadline ≤ now) || row.taskGeneration != task.generation ||
          row.stopGeneration != task.stopGeneration || task.terminalAt.isSome ||
            !held.contains (row.ownerLease, row.ownerFence)))
      (fun row => { row with abandoned := true }) t.plans }

def Tables.pinned (t : Tables) (plan : Plan) (now : Int) : Bool :=
  t.pins.any fun pin =>
    pin.checkpoint == plan.id && !pin.released && decide (now < pin.expiresAt)

def Tables.superseded (t : Tables) (task : String) : List String :=
  (((t.plans.filter fun row => row.task == task && row.ready).insertionSort fun left right =>
    right.generation ≤ left.generation).drop liveGenerations).map Plan.id

/-- The plans `retention_delete.sql` deletes. -/
def Tables.obsolete (t : Tables) (task : Task) (now : Int) (plan : Plan) : Bool :=
  plan.task == task.id && !t.pinned plan now &&
    (plan.abandoned || (task.terminalAt.any fun at_ => decide (at_ ≤ now - terminalMs)) ||
      (plan.ready && task.checkpoint != some plan.id && (t.superseded task.id).contains plan.id))

/-- `owners::retain_one`. -/
def Tables.retainOne (t : Tables) (task : String) (held : List (String × Int)) (now : Int) :
    Tables :=
  match t.tasks.find? fun row => row.id == task with
  | none => t
  | some task =>
      let abandoned := t.retentionAbandon task held now
      abandoned.dropPlans (abandoned.obsolete task now)

/-- Whether `base_orphans.sql` and `base_delete.sql` let a base go. -/
def Tables.baseOrphan (t : Tables) (now : Int) (base : Base) : Bool :=
  decide (base.updatedAt ≤ now - orphanMs) && !(t.plans.any fun plan => plan.base == some base.id)

/-- `base_orphans.sql`. -/
def Tables.baseOrphans (t : Tables) (now : Int) : List (String × String) :=
  (Table.select (t.baseOrphan now) (fun row => toLex (row.updatedAt, row.id)) gcBatch t.bases).map
    fun row => (row.workspace, row.id)

/-- One base of `owners::bases`, under the lock on its workspace. -/
def Tables.releaseBase (t : Tables) (workspace base : String) (now : Int) : Tables :=
  if t.workspaces.contains workspace then
    (t.quota workspace).dropBases fun row =>
      row.id == base && row.workspace == workspace && t.baseOrphan now row
  else t

/-! ## Objects -/

def Tables.unheld (t : Tables) (row : Object) : Bool :=
  !(t.refs.any fun ref => ref.object == row.id)

/-- `orphans.sql`, by workspace. -/
def Tables.orphans (t : Tables) (now : Int) : List (String × String) :=
  (Table.select
    (fun row => !row.tombstoned && decide (row.updatedAt ≤ now - orphanMs) &&
      decide (row.reclaimAfter ≤ now) && t.unheld row)
    (fun row => toLex (row.updatedAt, row.id)) gcBatch t.objects).map
    fun row => (row.workspace, row.id)

/-- `orphan_tombstone.sql`, of what was found before: each is checked again. -/
def Tables.orphanTombstone (t : Tables) (workspace : String) (ids : List String) (now : Int) :
    Tables × List String :=
  let fresh := fun row : Object =>
    row.workspace == workspace && ids.contains row.id && !row.tombstoned &&
      decide (row.reclaimAfter ≤ now) && t.unheld row
  ({ t with
      objects := Table.update fresh
        (fun row => { row with tombstoned := true, updatedAt := now }) t.objects },
    (t.objects.filter fresh).map Object.id)

/-- `orphan_delete.sql`. -/
def Tables.orphanDelete (t : Tables) (workspace : String) (ids : List String) : Tables :=
  t.dropObjects fun row => row.workspace == workspace && ids.contains row.id && row.tombstoned

/-- The objects of one workspace that `maintain` found, tombstoned and deleted. -/
def Tables.collect (t : Tables) (workspace : String) (ids : List String) (now : Int) : Tables :=
  if t.workspaces.contains workspace then
    let marked := (t.quota workspace).orphanTombstone workspace ids now
    marked.1.orphanDelete workspace marked.2
  else t

/-- `purge::acknowledge`. -/
def Tables.acknowledge (t : Tables) (object workspace : String) : Tables :=
  (if t.workspaces.contains workspace then t.quota workspace else t).purgeComplete object workspace

/-! ## What else writes -/

def Tables.openTask (t : Tables) (task : Task) : Tables :=
  if t.tasks.any fun row => row.id == task.id then t
  else { t with tasks := t.tasks ++ [{ task with checkpoint := none, sequence := 0 }] }

def Tables.moveTask (t : Tables) (task : String) (generation stopGeneration : Nat) (running : Bool)
    (terminalAt : Option Int) : Tables :=
  { t with
    tasks := Table.update (fun row => row.id == task)
      (fun row =>
        { row with
          generation := generation, stopGeneration := stopGeneration, running := running,
          terminalAt := terminalAt })
      t.tasks }

def Tables.dropTask (t : Tables) (task : String) : Tables :=
  let dropped := t.dropPlans fun plan => plan.task == task
  { dropped with tasks := dropped.tasks.filter fun row => row.id != task }

def Tables.dropWorkspace (t : Tables) (workspace : String) : Tables :=
  let owned := ((t.dropPlans fun plan => plan.workspace == workspace).dropBases fun base =>
    base.workspace == workspace).dropObjects fun row => row.workspace == workspace
  { owned with
    workspaces := owned.workspaces.filter fun row => row != workspace
    tasks := owned.tasks.filter fun row => row.workspace != workspace
    identities := owned.identities.filter fun row => row.workspace != workspace
    quotas := owned.quotas.filter fun row => row.workspace != workspace }

/-- `verify::record`. -/
def Tables.record (t : Tables) (workspace : String) (receipts : List (String × Descriptor))
    (now : Int) : Tables :=
  if receipts ≠ [] ∧ t.workspaces.contains workspace = true then
    (t.quota workspace).verify receipts workspace now
  else t

end Agentsfleet.Custody
