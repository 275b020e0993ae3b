import Agentsfleet.Library.Table
import Agentsfleet.Recovery.Restore
import Mathlib.Data.Prod.Lex
import Mathlib.Data.String.Basic

/-!
# Checkpoint storage

The rows behind a task's checkpoints and the statements that write them.  A checkpoint is a
plan, the pages of its manifest and the objects those pages name; an object's bytes are in a
private bucket, and its row is what holds them there.  Where a row goes, its object's bytes
become a purge, which outlives every owner.
-/

set_option autoImplicit false

namespace Agentsfleet.Custody

open Agentsfleet.Library
open Agentsfleet.Recovery (CheckpointEntry CheckpointPage Tree manifest)

/-! ## Bounds -/

def seconds (count : Int) : Int := count * 1000

def baseBytes : Int := 16 * 1024 * 1024 * 1024
def incrementalBytes : Int := 1024 * 1024 * 1024
def workspaceBytes : Int := 50 * 1024 * 1024 * 1024
def transferMs : Int := seconds (15 * 60)
def pinMs : Int := seconds (30 * 60)
def urlMs : Int := seconds (5 * 60)
def orphanMs : Int := seconds (60 * 60)
/-- How far past its pin an object is kept for what was signed under the pin. -/
def protectMs : Int := orphanMs + seconds 60
def recheckMs : Int := seconds (5 * 60)
def gcBatch : Nat := 256
def liveGenerations : Nat := 3
def terminalMs : Int := seconds (7 * 24 * 60 * 60)

def tagLen : Nat := 16
def checkpointFormat : Nat := 1

/-! ## Rows -/

inductive Mode where
  | retainBase
  | incremental
deriving DecidableEq

/-- What a task works on: nothing in a repository, or the head of a pull request. -/
inductive Target where
  | apiOnly
  | pr (repositoryId head : String)
deriving DecidableEq

/-- A row of `fleet.tasks`, as checkpoints read it. -/
structure Task where
  id : String
  fleet : String
  workspace : String
  target : Target
  generation : Nat
  stopGeneration : Nat
  running : Bool
  terminalAt : Option Int
  expiresAt : Int
  checkpoint : Option String
  sequence : Nat
deriving DecidableEq

/-- A row of `fleet.task_checkpoints`, with its operation's request. -/
structure Plan where
  id : String
  task : String
  fleet : String
  workspace : String
  generation : Nat
  taskGeneration : Nat
  stopGeneration : Nat
  requestDigest : String
  mode : Mode
  repository : String
  base : Option String
  formatVersion : Nat
  toolboxDigest : String
  pageIds : List String
  uploadBudget : Int
  uploaded : Int
  logicalBytes : UInt64
  entryCount : UInt32
  manifestRoot : Option String
  historyDigest : Option String
  coveredInput : Nat
  effectWatermark : Nat
  ownerLease : String
  ownerFence : Int
  transferDeadline : Int
  ready : Bool
  abandoned : Bool

/-- A row of `fleet.task_checkpoint_operations`: it outlives its plan. -/
structure Operation where
  checkpoint : String
  task : String
  operation : String
deriving DecidableEq

/-- A row of `fleet.task_bases`: a repository's files at a commit, shared by its tasks. -/
structure Base where
  id : String
  workspace : String
  repository : String
  commit : String
  formatVersion : Nat
  toolboxDigest : String
  pageIds : List String
  manifestRoot : Option String
  logicalBytes : UInt64
  entryCount : UInt32
  ready : Bool
  retired : Bool
  updatedAt : Int

inductive Owner where
  | checkpoint (id : String)
  | base (id : String)
deriving DecidableEq

def Owner.among (checkpoints bases : String → Bool) : Owner → Bool
  | .checkpoint id => checkpoints id
  | .base id => bases id

/-- A row of `fleet.task_checkpoint_pages` or `fleet.task_base_pages`.  Its digest and its
body are written together, once. -/
structure Page where
  id : String
  owner : Owner
  number : Nat
  body : Option (String × CheckpointPage)

/-- The ciphertext an object's row admits: its digest and its length. -/
structure Descriptor where
  digest : String
  length : Int
deriving DecidableEq

structure Plaintext where
  sha256 : String
  size : Nat
  kind : String
deriving DecidableEq

/-- A row of `fleet.task_objects`. -/
structure Object where
  id : String
  workspace : String
  identityKey : String
  contentIdentity : String
  plaintext : Plaintext
  formatVersion : Nat
  accounted : Int
  ownerCheckpoint : String
  ownerLease : String
  ownerFence : Int
  ciphertext : Option Descriptor
  reclaimAfter : Int
  verified : Bool
  tombstoned : Bool
  updatedAt : Int

/-- A row of `fleet.task_object_refs`. -/
structure Ref where
  object : String
  workspace : String
  owner : Owner
deriving DecidableEq

/-- A row of `fleet.task_identity_keys`. -/
structure IdentityKey where
  id : String
  workspace : String
  repository : String
deriving DecidableEq

inductive PinKind where
  | writer
  | reader
deriving DecidableEq

/-- A row of `fleet.task_object_pins`. -/
structure Pin where
  id : String
  checkpoint : String
  task : String
  kind : PinKind
  ownerLease : String
  ownerFence : Int
  taskGeneration : Nat
  stopGeneration : Nat
  resourceVersion : Nat
  expiresAt : Int
  operationDeadline : Int
  released : Bool
deriving DecidableEq

/-- A row of `fleet.task_storage_purges`: the bytes of an object whose row is gone. -/
structure Purge where
  object : String
  workspace : String
  accounted : Int
  stored : Bool
  deleteAfter : Int
  nextAttempt : Int
  completed : Bool
deriving DecidableEq

/-- A row of `fleet.task_storage_quota`. -/
structure Quota where
  workspace : String
  reserved : Int
  stored : Int
deriving DecidableEq

structure Tables where
  workspaces : List String
  tasks : List Task
  plans : List Plan
  operations : List Operation
  bases : List Base
  pages : List Page
  objects : List Object
  refs : List Ref
  identities : List IdentityKey
  pins : List Pin
  purges : List Purge
  quotas : List Quota

def Tables.empty : Tables := ⟨[], [], [], [], [], [], [], [], [], [], [], []⟩

/-! ## Quota -/

/-- `quota.sql`, under the lock on its workspace. -/
def Tables.quota (t : Tables) (workspace : String) : Tables :=
  if t.quotas.any fun row => row.workspace == workspace then t
  else { t with quotas := t.quotas ++ [⟨workspace, 0, 0⟩] }

/-- `quota_reserve.sql`: the table, where the ceiling leaves room. -/
def Tables.quotaReserve (t : Tables) (workspace : String) (bytes : Int) : Option Tables :=
  let admits := fun row : Quota =>
    row.workspace == workspace && decide (row.reserved + row.stored ≤ workspaceBytes - bytes)
  if t.quotas.any admits then
    some { t with
      quotas := Table.update admits (fun row => { row with reserved := row.reserved + bytes })
        t.quotas }
  else none

/-! ## Objects -/

/-- `objects_insert.sql`. -/
def Tables.objectsInsert (t : Tables) (new : List Object) : Tables :=
  { t with objects := t.objects ++ new }

/-- The references `objects_attach.sql` adds: to objects that stand, and are not held yet. -/
def Tables.attaches (t : Tables) (ids : List String) (workspace : String) (owner : Owner) :
    List Ref :=
  (t.objects.filter fun row =>
    ids.contains row.id && row.workspace == workspace && !row.tombstoned &&
      !(t.refs.any fun held => held.object == row.id && held.owner == owner)).map
    fun row => ⟨row.id, row.workspace, owner⟩

def Tables.objectsAttach (t : Tables) (ids : List String) (workspace : String) (owner : Owner) :
    Tables :=
  { t with refs := t.refs ++ t.attaches ids workspace owner }

/-- `objects_protect.sql`. -/
def Tables.objectsProtect (t : Tables) (ids : List String) (expiresAt now : Int) : Tables :=
  { t with
    objects := Table.update (fun row => ids.contains row.id)
      (fun row =>
        { row with reclaimAfter := max row.reclaimAfter (expiresAt + protectMs), updatedAt := now })
      t.objects }

def described (rows : List (String × Descriptor)) (id : String) : Option Descriptor :=
  (rows.find? fun row => row.1 == id).map Prod.snd

/-- `descriptors.sql`: a row is described once. -/
def Tables.describe (t : Tables) (rows : List (String × Descriptor)) (workspace : String)
    (now : Int) : Tables :=
  { t with
    objects := Table.update
      (fun row => row.workspace == workspace && row.ciphertext.isNone &&
        (described rows row.id).isSome)
      (fun row => { row with ciphertext := described rows row.id, updatedAt := now }) t.objects }

/-- The rows `verify.sql` marks. -/
def verifies (receipts : List (String × Descriptor)) (workspace : String) (row : Object) : Bool :=
  row.workspace == workspace && !row.verified && !row.tombstoned && row.ciphertext.isSome &&
    described receipts row.id == row.ciphertext

def accountedBytes (rows : List Object) : Int := (rows.map Object.accounted).sum

/-- `verify.sql`: reserved bytes become stored ones. -/
def Tables.verify (t : Tables) (receipts : List (String × Descriptor)) (workspace : String)
    (now : Int) : Tables :=
  let bytes := accountedBytes (t.objects.filter (verifies receipts workspace))
  { t with
    objects := Table.update (verifies receipts workspace)
      (fun row => { row with verified := true, updatedAt := now }) t.objects
    quotas := Table.update (fun row => row.workspace == workspace)
      (fun row => { row with reserved := row.reserved - bytes, stored := row.stored + bytes })
      t.quotas }

/-- `objects_complete.sql`: everything `owner` holds is verified and stands. -/
def Tables.objectsComplete (t : Tables) (owner : Owner) (workspace : String) : Bool :=
  !(t.refs.any fun ref => ref.owner == owner && ref.workspace == workspace &&
    t.objects.any fun row => row.id == ref.object && row.workspace == ref.workspace &&
      (!row.verified || row.tombstoned))

/-- The trigger on a deleted object: its bytes stay accounted until the bucket answers. -/
def Object.purge (row : Object) : Purge :=
  ⟨row.id, row.workspace, row.accounted, row.verified, row.reclaimAfter, row.reclaimAfter, false⟩

def Tables.dropObjects (t : Tables) (picks : Object → Bool) : Tables :=
  { t with
    objects := t.objects.filter fun row => !picks row
    refs := t.refs.filter fun ref => !(t.objects.any fun row => picks row && row.id == ref.object)
    purges := t.purges ++ ((t.objects.filter picks).map Object.purge).filter fun purge =>
      !(t.purges.any fun row => row.object == purge.object) }

/-! ## Plans, bases and pages -/

def Tables.planOf (t : Tables) (checkpoint task : String) : Option Plan :=
  t.plans.find? fun row => row.id == checkpoint && row.task == task

def Tables.baseOf (t : Tables) (id : String) : Option Base := t.bases.find? fun row => row.id == id

/-- The identities of `pages` for `owner`, each with no body. -/
def allocated (owner : Owner) (pages : List String) : List Page :=
  pages.zipIdx.map fun page => ⟨page.1, owner, page.2, none⟩

/-- `page_write.sql` or `base_page_write.sql`, by what holds the page: a page is written once. -/
def Tables.pageWrite (t : Tables) (page : String) (owner : Owner) (digest : String)
    (contents : CheckpointPage) : Tables :=
  { t with
    pages := Table.update (fun row => row.id == page && row.owner == owner && row.body.isNone)
      (fun row => { row with body := some (digest, contents) }) t.pages }

/-- `plan_bytes.sql`. -/
def Tables.planBytes (t : Tables) (checkpoint : String) (bytes : Int) : Tables :=
  { t with
    plans := Table.update (fun row => row.id == checkpoint)
      (fun row => { row with uploaded := row.uploaded + bytes }) t.plans }

structure Commit where
  manifestRoot : String
  historyDigest : String
  coveredInput : Nat
  effectWatermark : Nat
deriving DecidableEq

/-- `plan_ready.sql`. -/
def Tables.planReady (t : Tables) (checkpoint : String) (commit : Commit) : Tables :=
  { t with
    plans := Table.update (fun row => row.id == checkpoint && !row.ready && !row.abandoned)
      (fun row =>
        { row with
          manifestRoot := some commit.manifestRoot, historyDigest := some commit.historyDigest,
          coveredInput := commit.coveredInput, effectWatermark := commit.effectWatermark,
          ready := true })
      t.plans }

/-- `base_ready.sql`. -/
def Tables.baseReady (t : Tables) (base : String) (root : String) (now : Int) : Tables :=
  { t with
    bases := Table.update (fun row => row.id == base && !row.ready && !row.retired)
      (fun row => { row with manifestRoot := some root, ready := true, updatedAt := now }) t.bases }

/-- `task_checkpoint.sql`. -/
def Tables.taskCheckpoint (t : Tables) (task checkpoint : String) : Tables :=
  { t with
    tasks := Table.update (fun row => row.id == task)
      (fun row => { row with checkpoint := some checkpoint }) t.tasks }

/-- `abandon_capture.sql`. -/
def Tables.abandonCapture (t : Tables) (task lease : String) (fence now : Int) : Tables :=
  { t with
    plans := Table.update
      (fun row => row.task == task && !row.ready && !row.abandoned &&
        (row.ownerLease != lease || row.ownerFence != fence || decide (row.transferDeadline ≤ now)))
      (fun row => { row with abandoned := true }) t.plans }

/-- `retire_unfinished_base.sql`. -/
def Tables.retireUnfinishedBase (t : Tables) (workspace repository : String) (now : Int) : Tables :=
  { t with
    bases := Table.update
      (fun row => row.workspace == workspace && row.repository == repository && !row.ready &&
        !row.retired && !(t.plans.any fun plan => plan.base == some row.id && !plan.abandoned))
      (fun row => { row with retired := true, updatedAt := now }) t.bases }

/-- Plans deleted, with their references, pages and pins; a task's pointer to one is cleared. -/
def Tables.dropPlans (t : Tables) (picks : Plan → Bool) : Tables :=
  let gone := fun id => t.plans.any fun plan => picks plan && plan.id == id
  let owned := Owner.among gone fun _ => false
  { t with
    plans := t.plans.filter fun row => !picks row
    refs := t.refs.filter fun row => !owned row.owner
    pages := t.pages.filter fun row => !owned row.owner
    pins := t.pins.filter fun row => !gone row.checkpoint
    tasks := Table.update (fun row => row.checkpoint.any gone)
      (fun row => { row with checkpoint := none }) t.tasks }

def Tables.dropBases (t : Tables) (picks : Base → Bool) : Tables :=
  let owned := Owner.among (fun _ => false) fun id =>
    t.bases.any fun base => picks base && base.id == id
  { t with
    bases := t.bases.filter fun row => !picks row
    refs := t.refs.filter fun row => !owned row.owner
    pages := t.pages.filter fun row => !owned row.owner }

/-! ## Pins -/

/-- `pin_replace.sql`. -/
def Tables.pinReplace (t : Tables) (checkpoint : String) (kind : PinKind) (lease : String)
    (fence : Int) : Tables :=
  { t with
    pins := Table.update
      (fun row => row.checkpoint == checkpoint && row.kind == kind && !row.released &&
        (row.ownerLease != lease || row.ownerFence != fence))
      (fun row => { row with released := true }) t.pins }

/-- `live_pin.sql`. -/
def Tables.livePin (t : Tables) (checkpoint : String) (kind : PinKind) : Option Pin :=
  t.pins.find? fun row => row.checkpoint == checkpoint && row.kind == kind && !row.released

/-- `pin.sql`. -/
def Tables.pinOf (t : Tables) (pin checkpoint : String) : Option Pin :=
  t.pins.find? fun row => row.id == pin && row.checkpoint == checkpoint

/-- `pin_release.sql`. -/
def Tables.pinRelease (t : Tables) (pin : String) : Tables :=
  { t with
    pins := Table.update (fun row => row.id == pin) (fun row => { row with released := true })
      t.pins }

/-- `pin_renew.sql`. -/
def Tables.pinRenew (t : Tables) (pin : String) (now : Int) : Tables :=
  { t with
    pins := Table.update (fun row => row.id == pin)
      (fun row =>
        { row with
          resourceVersion := row.resourceVersion + 1,
          expiresAt := min row.operationDeadline (now + pinMs) })
      t.pins }

/-! ## Purges -/

/-- `purge_complete.sql`: the bytes of a purge leave the quota once. -/
def Tables.purgeComplete (t : Tables) (object workspace : String) : Tables :=
  let done := t.purges.filter fun row =>
    row.object == object && row.workspace == workspace && !row.completed
  let bytes := fun stored : Bool =>
    ((done.filter fun row => row.stored == stored).map Purge.accounted).sum
  { t with
    purges := Table.update
      (fun row => row.object == object && row.workspace == workspace && !row.completed)
      (fun row => { row with completed := true }) t.purges
    quotas := Table.update (fun row => row.workspace == workspace)
      (fun row =>
        { row with reserved := row.reserved - bytes false, stored := row.stored - bytes true })
      t.quotas }

/-- The rows `purge_claim.sql` takes: due, in order, and not held by another worker. -/
def Tables.duePurges (t : Tables) (busy : List String) (limit : Nat) (now : Int) : List Purge :=
  Table.select
    (fun row => !row.completed && decide (row.nextAttempt ≤ now) && !busy.contains row.object)
    (fun row => toLex (row.nextAttempt, row.object)) limit t.purges

def Tables.purgeClaim (t : Tables) (busy : List String) (limit : Nat) (now : Int) : Tables :=
  let due := (t.duePurges busy limit now).map Purge.object
  { t with
    purges := Table.update (fun row => due.contains row.object)
      (fun row => { row with nextAttempt := now + recheckMs }) t.purges }

end Agentsfleet.Custody
