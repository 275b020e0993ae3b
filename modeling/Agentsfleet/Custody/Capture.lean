import Agentsfleet.Core.Bounds
import Agentsfleet.Custody.Rows

/-!
# Capture and restore

The transactions of a runner that saves a checkpoint or restores one.  Each proves its lease's
execution and its pin first, and one that is refused leaves the tables as they were.  A plan
names its pages and its allowance; objects are registered under it, described, uploaded and
read back; pages freeze what they name; and a commit makes the plan the task's recovery point.
-/

set_option autoImplicit false

namespace Agentsfleet.Custody

open Agentsfleet.Core
open Agentsfleet.Library
open Agentsfleet.Recovery (CheckpointEntry CheckpointPage Tree manifest)

inductive TaskRefusal where
  | notFound
  | staleState
  | replayConflict
  | invalidTarget
  | limitExhausted
  | checkpointIncompatible
  | storageUnavailable
  /-- A statement the schema refuses. -/
  | refused
deriving DecidableEq

/-- Go on only where `holds`. -/
def require (holds : Prop) [Decidable holds] (refusal : TaskRefusal) : Except TaskRefusal Unit :=
  if holds then .ok () else .error refusal

def found {A : Type} (value : Option A) (refusal : TaskRefusal) : Except TaskRefusal A :=
  match value with
  | some held => .ok held
  | none => .error refusal

/-! ## Guards -/

inductive Purpose where
  | upload
  | restore
deriving DecidableEq

def Purpose.pinKind : Purpose → PinKind
  | .upload => .writer
  | .restore => .reader

/-- What a request's lease proves of its execution: the rows of the lease are not held here. -/
structure Execution where
  lease : String
  fence : Int
  fleet : String
  workspace : String
  task : String
  generation : Nat
  stopGeneration : Nat
  coveredInput : Nat
  confirmedEffects : Nat
deriving DecidableEq

/-- `execution::attached`, of the task's row. -/
def Tables.attached (t : Tables) (e : Execution) (now : Int) : Except TaskRefusal Task := do
  let task ← found (t.tasks.find? fun row =>
    row.id == e.task && row.fleet == e.fleet && row.workspace == e.workspace) .notFound
  require (e.generation = task.generation ∧ e.stopGeneration = task.stopGeneration ∧
    task.running = true ∧ now < task.expiresAt) .staleState
  return task

/-- `Plan::compatible`. -/
def Plan.compatible (plan : Plan) (e : Execution) (purpose : Purpose) : Prop :=
  plan.abandoned = false ∧ plan.formatVersion = checkpointFormat ∧
    plan.taskGeneration ≤ e.generation ∧
      match purpose with
      | .upload =>
          plan.ready = false ∧ plan.taskGeneration = e.generation ∧
            plan.stopGeneration = e.stopGeneration
      | .restore => plan.ready = true

instance (plan : Plan) (e : Execution) (purpose : Purpose) :
    Decidable (plan.compatible e purpose) := by
  unfold Plan.compatible
  cases purpose <;> exact inferInstance

structure Pin.Held (pin : Pin) (e : Execution) (now : Int) : Prop where
  lease : pin.ownerLease = e.lease
  fence : pin.ownerFence = e.fence
  generation : pin.taskGeneration = e.generation
  stopGeneration : pin.stopGeneration = e.stopGeneration
  live : now < pin.expiresAt
  operation : now < pin.operationDeadline
  released : pin.released = false

instance (pin : Pin) (e : Execution) (now : Int) : Decidable (pin.Held e now) :=
  decidable_of_iff
    (pin.ownerLease = e.lease ∧ pin.ownerFence = e.fence ∧ pin.taskGeneration = e.generation ∧
      pin.stopGeneration = e.stopGeneration ∧ now < pin.expiresAt ∧
        now < pin.operationDeadline ∧ pin.released = false)
    ⟨fun ⟨a, b, c, d, e, f, g⟩ => ⟨a, b, c, d, e, f, g⟩,
      fun ⟨a, b, c, d, e, f, g⟩ => ⟨a, b, c, d, e, f, g⟩⟩

/-- `guard::owned`. -/
def Tables.owned (t : Tables) (e : Execution) (checkpoint pin : String) (purpose : Purpose)
    (now : Int) : Except TaskRefusal (Plan × Pin) := do
  let _ ← t.attached e now
  let plan ← found (t.planOf checkpoint e.task) .notFound
  let held ← found (t.pinOf pin checkpoint) .checkpointIncompatible
  require (held.Held e now ∧ held.kind = purpose.pinKind) .staleState
  require (plan.compatible e purpose) .checkpointIncompatible
  require (purpose = .upload → plan.ownerLease = e.lease ∧ plan.ownerFence = e.fence ∧
    now < plan.transferDeadline) .staleState
  return (plan, held)

/-! ## Plans -/

structure PlanInput where
  operation : String
  mode : Mode
  base : Option String
  commit : Option String
  toolboxDigest : String
  pageCount : Nat
  uploadBudget : Int
  logicalBytes : UInt64
  entryCount : UInt32
deriving DecidableEq

/-- `plan::target`: the repository a plan is of, and its commit. -/
def Task.repository (task : Task) (commit : Option String) :
    Except TaskRefusal (String × Option String) := do
  match task.target with
  | .apiOnly =>
      require (commit = none) .invalidTarget
      return ("api:" ++ task.fleet, none)
  | .pr repositoryId head =>
      require (commit = some head) .invalidTarget
      return ("github:" ++ repositoryId, commit)

def uploadLimit : Mode → Int
  | .retainBase => baseBytes
  | .incremental => incrementalBytes

/-- `plan::base`: the base a plan is over, made here when its commit has none, and the pages
the plan is made of. -/
def Tables.planBase (t : Tables) (ids : Nat → String) (input : PlanInput)
    (workspace repository : String) (commit : Option String) (pages : List String) (now : Int) :
    Except TaskRefusal (Tables × Option Base × List String) :=
  match input.base, commit with
  | some id, _ => do
      let base ← found (t.bases.find? fun row =>
        row.id == id && row.workspace == workspace && row.repository == repository &&
          row.formatVersion == checkpointFormat && row.toolboxDigest == input.toolboxDigest &&
            !row.retired) .checkpointIncompatible
      require (input.mode = .incremental ∧ base.ready = true) .checkpointIncompatible
      return (t, some base, pages)
  | none, none => do
      require (input.mode = .incremental) .checkpointIncompatible
      return (t, none, pages)
  | none, some commit => do
      require (input.mode = .retainBase) .checkpointIncompatible
      match t.bases.find? fun row =>
          row.workspace == workspace && row.repository == repository && row.commit == commit &&
            row.formatVersion == checkpointFormat && row.toolboxDigest == input.toolboxDigest &&
              !row.retired with
      | some base =>
          require (base.ready = true) .storageUnavailable
          return (t, some base, base.pageIds)
      | none =>
          let base : Base :=
            ⟨ids input.pageCount, workspace, repository, commit, checkpointFormat,
              input.toolboxDigest, pages, none, input.logicalBytes, input.entryCount, false, false,
              now⟩
          return ({ t with
              bases := t.bases ++ [base]
              pages := t.pages ++ allocated (.base base.id) pages },
            some base, pages)

/-- `pins::insert`. -/
def Tables.pinInsert (t : Tables) (plan : Plan) (task : Task) (e : Execution) (kind : PinKind)
    (id : String) (now : Int) : Except TaskRefusal (Tables × Pin) :=
  let replaced := t.pinReplace plan.id kind e.lease e.fence
  match replaced.livePin plan.id kind with
  | some pin => do
      require (now < pin.expiresAt ∧ now < pin.operationDeadline) .staleState
      return (replaced, pin)
  | none =>
      let deadline := min task.expiresAt
        (if kind = .writer then plan.transferDeadline else now + transferMs)
      let pin : Pin :=
        ⟨id, plan.id, plan.task, kind, e.lease, e.fence, e.generation, e.stopGeneration, 1,
          min deadline (now + pinMs), deadline, false⟩
      .ok ({ replaced with pins := replaced.pins ++ [pin] }, pin)

section Transactions

/-- Text hashes, the digests of a manifest's pages and of its history, the identity of a
plaintext under a repository's key, and the digest of a plan's request. -/
structure Digests where
  sha256 : String → String
  manifestRoot : List (String × String) → String
  historyRoot : List (String × String × Nat) → String
  content : String → Nat → Plaintext → String
  request : Execution → PlanInput → String

variable (digests : Digests)

def planRow (ids : Nat → String) (e : Execution) (input : PlanInput) (task : Task)
    (repository : String) (base : Option Base) (pages : List String) (now : Int) : Plan :=
  let readyBase := if input.mode = .retainBase then base.filter Base.ready else none
  { id := ids (input.pageCount + 1)
    task := e.task
    fleet := e.fleet
    workspace := e.workspace
    generation := task.sequence + 1
    taskGeneration := e.generation
    stopGeneration := e.stopGeneration
    requestDigest := digests.request e input
    mode := input.mode
    repository := repository
    base := base.map Base.id
    formatVersion := checkpointFormat
    toolboxDigest := input.toolboxDigest
    pageIds := pages
    uploadBudget := input.uploadBudget
    uploaded := 0
    logicalBytes := (readyBase.map Base.logicalBytes).getD input.logicalBytes
    entryCount := (readyBase.map Base.entryCount).getD input.entryCount
    manifestRoot := readyBase.bind Base.manifestRoot
    historyDigest := none
    coveredInput := 0
    effectWatermark := 0
    ownerLease := e.lease
    ownerFence := e.fence
    transferDeadline := min task.expiresAt (now + transferMs)
    ready := (readyBase.bind Base.manifestRoot).isSome
    abandoned := false }

def Tables.planInsert (t : Tables) (plan : Plan) (operation : String) : Tables :=
  { t with
    plans := t.plans ++ [plan]
    operations := t.operations ++ [⟨plan.id, plan.task, operation⟩]
    tasks := Table.update (fun row => row.id == plan.task)
      (fun row => { row with sequence := row.sequence + 1 }) t.tasks
    pages := t.pages ++ allocated (.checkpoint plan.id)
      (if plan.mode = .incremental then plan.pageIds else []) }

/-- `plan::create`.  The identities it draws are `ids`, in order: one for each page, then the
base's, the plan's and the pin's. -/
def Tables.create (t : Tables) (ids : Nat → String) (e : Execution) (input : PlanInput)
    (now : Int) : Except TaskRefusal Tables :=
  match t.operations.find? fun row => row.task == e.task && row.operation == input.operation with
  | some operation => do
      let plan ← found (t.planOf operation.checkpoint e.task) .notFound
      require (plan.requestDigest = digests.request e input) .replayConflict
      let _ ← found (t.pins.find? fun row =>
        row.checkpoint == operation.checkpoint && row.kind == .writer) .refused
      return t
  | none => do
      let task ← t.attached e now
      let (repository, commit) ← task.repository input.commit
      require ((input.mode = .retainBase → input.base = none) ∧
        input.uploadBudget ≤ uploadLimit input.mode) .checkpointIncompatible
      let cleared := ((t.quota e.workspace).abandonCapture e.task e.lease e.fence now
        ).retireUnfinishedBase e.workspace repository now
      let pages := (List.range input.pageCount).map ids
      let (based, base, pages) ← cleared.planBase ids input e.workspace repository commit pages now
      let plan := planRow digests ids e input task repository base pages now
      -- `uq_task_checkpoint_capture`: one capture of a task at a time.
      require (plan.ready = true ∨ (based.plans.any fun row =>
        row.task == e.task && !row.ready && !row.abandoned) = false) .refused
      let planned := based.planInsert plan input.operation
      let (pinned, _) ← planned.pinInsert plan task e .writer (ids (input.pageCount + 2)) now
      return pinned

/-! ## Objects -/

/-- `Object::own`. -/
def Object.own (row : Object) (plan : Plan) : Bool :=
  row.ownerCheckpoint == plan.id && row.ownerLease == plan.ownerLease &&
    row.ownerFence == plan.ownerFence

/-- `transfer::protect`. -/
def Tables.protect (t : Tables) (ids : List String) (pin : Pin) (now : Int) :
    Except TaskRefusal Tables := do
  require (now < pin.expiresAt ∧ now < pin.operationDeadline) .staleState
  return t.objectsProtect ids pin.expiresAt now

def Plan.holder (plan : Plan) : Except TaskRefusal Owner :=
  match plan.mode, plan.base with
  | .incremental, _ => .ok (.checkpoint plan.id)
  | .retainBase, some base => .ok (.base base)
  -- A reference to no owner is one the schema refuses.
  | .retainBase, none => .error .refused

def Tables.inScope (t : Tables) (plan : Plan) (row : Object) : Bool :=
  t.refs.any fun ref => ref.object == row.id && ref.workspace == row.workspace &&
    (ref.owner == .checkpoint plan.id || plan.base.any fun base => ref.owner == .base base)

/-- `transfer::scoped`. -/
def Tables.scoped (t : Tables) (plan : Plan) (ids : List String) :
    Except TaskRefusal (List Object) := do
  let rows := t.objects.filter fun row =>
    ids.contains row.id && row.workspace == plan.workspace && !row.tombstoned &&
      (t.identities.any fun key => key.id == row.identityKey && key.workspace == row.workspace &&
        key.repository == plan.repository) && t.inScope plan row
  require (rows.length = ids.length) .notFound
  return rows

/-- `identity::load`: the key of a repository, made here when it has none. -/
def Tables.identity (t : Tables) (id workspace repository : String) : Tables × String :=
  match t.identities.find? fun key => key.workspace == workspace && key.repository == repository with
  | some key => (t, key.id)
  | none => ({ t with identities := t.identities ++ [⟨id, workspace, repository⟩] }, id)

/-- `objects_content.sql`. -/
def Tables.objectsContent (t : Tables) (workspace identity : String) (content : List String) :
    List Object :=
  t.objects.filter fun row => row.workspace == workspace && row.identityKey == identity &&
    content.contains row.contentIdentity && !row.tombstoned

/-- `objects::prepare`. -/
def prepare (plan : Plan) (identity id content : String) (plaintext : Plaintext) (now : Int) :
    Object where
  id
  workspace := plan.workspace
  identityKey := identity
  contentIdentity := content
  plaintext
  formatVersion := plan.formatVersion
  accounted := plaintext.size + tagLen
  ownerCheckpoint := plan.id
  ownerLease := plan.ownerLease
  ownerFence := plan.ownerFence
  ciphertext := none
  reclaimAfter := now + orphanMs
  verified := false
  tombstoned := false
  updatedAt := now

/-- `objects::reserve`. -/
def Tables.reserve (t : Tables) (plan : Plan) (new : List Object) : Except TaskRefusal Tables := do
  let bytes := accountedBytes new
  require (plan.uploaded + bytes ≤ plan.uploadBudget) .limitExhausted
  let reserved ← found (t.quotaReserve plan.workspace bytes) .limitExhausted
  return if new = [] then reserved else (reserved.objectsInsert new).planBytes plan.id bytes

/-- `objects::register`.  The identities it draws are `ids`: the repository key's, then one for
each object it finds no row for. -/
def Tables.register (t : Tables) (ids : Nat → String) (e : Execution) (checkpoint pin : String)
    (input : List Plaintext) (now : Int) : Except TaskRefusal Tables := do
  let (plan, held) ← t.owned e checkpoint pin .upload now
  let (keyed, identity) := (t.quota plan.workspace).identity (ids 0) plan.workspace plan.repository
  let content := input.map (digests.content identity plan.formatVersion)
  require content.Nodup .replayConflict
  let existing := (keyed.objectsContent plan.workspace identity content).map Object.contentIdentity
  let missing := (input.zip content).filter fun item => !existing.contains item.2
  let new := missing.zipIdx.map fun item =>
    prepare plan identity (ids (item.2 + 1)) item.1.2 item.1.1 now
  let reserved ← keyed.reserve plan new
  let objects := reserved.objectsContent plan.workspace identity content
  let eligible := (objects.filter fun row => row.verified || row.own plan).map Object.id
  let holder ← plan.holder
  (reserved.objectsAttach eligible plan.workspace holder).protect eligible held now

/-! ## Pages -/

def namedObjects (page : CheckpointPage) : List String :=
  page.historyObjects ++ page.entries.flatMap fun entry =>
    match entry with
    | .file content => content.objects
    | _ => []

/-- `page::link`: whether a target, from where its link is, stays inside. -/
def linkStays (target : List String) (depth : Nat) : Bool :=
  match target with
  | [] => true
  | part :: rest =>
      if part = "" ∨ part = "." then linkStays rest depth
      else if part = ".." then
        match depth with
        | 0 => false
        | depth + 1 => linkStays rest depth
      else linkStays rest (depth + 1)

def entryPlaced (mode : Mode) : CheckpointEntry → Bool
  | .symlink path target => linkStays (Recovery.split target) ((Recovery.split path).length - 1)
  | .remove _ => decide (mode ≠ .retainBase)
  | .file _ | .directory _ => true

def entrySized (sizes : String → Option Nat) : CheckpointEntry → Bool
  | .file content =>
      match content.objects.mapM sizes with
      | some lengths => decide (lengths.sum = content.size.toNat)
      | none => false
  | .symlink _ _ | .remove _ | .directory _ => true

/-- `page::validate`. -/
def Tables.validate (t : Tables) (plan : Plan) (page : CheckpointPage) :
    Except TaskRefusal (Tables × List String) := do
  require ((plan.mode = .retainBase → page.historyObjects = []) ∧
    (page.entries.map CheckpointEntry.path).Pairwise (· < ·) ∧
      page.entries.all (entryPlaced plan.mode) = true) .checkpointIncompatible
  let ids := (namedObjects page).dedup
  let objects ← t.scoped plan ids
  let holder ← plan.holder
  let sizes := fun id => (objects.find? fun row => row.id == id).map fun row => row.plaintext.size
  require (page.entries.all (entrySized sizes) = true) .checkpointIncompatible
  return (t.objectsAttach ids plan.workspace holder, ids)

def Tables.selected (t : Tables) (plan : Plan) (page : String) : Option Page :=
  t.pages.find? fun row => row.id == page &&
    (row.owner == .checkpoint plan.id || plan.base.any fun base => row.owner == .base base)

/-- `page::write`. -/
def Tables.write (t : Tables) (e : Execution) (checkpoint pin page digest : String)
    (contents : CheckpointPage) (now : Int) : Except TaskRefusal Tables := do
  require (digests.sha256 contents.json = digest) .checkpointIncompatible
  let (plan, held) ← t.owned e checkpoint pin .upload now
  require (plan.pageIds[contents.pageNumber]? = some page) .replayConflict
  let (attached, objects) ← t.validate plan contents
  let kept ← attached.protect objects held now
  let existing ← found (kept.selected plan page) .notFound
  match existing.body with
  | some (saved, body) =>
      require (body.json = contents.json ∧ saved = digest) .replayConflict
      return kept
  | none =>
      let holder ← plan.holder
      return kept.pageWrite page holder digest contents

/-! ## Transfers -/

/-- What a transaction hands to the signing of its URLs. -/
structure Batch where
  plan : Plan
  pin : Pin
  objects : List Object
  purpose : Purpose
  verify : Bool
  receipts : List (String × Descriptor)

structure Object.Admits (row : Object) (plan : Plan) (descriptor : Descriptor) : Prop where
  stands : row.tombstoned = false
  owned : row.own plan = true ∨ row.verified = true
  length : descriptor.length = row.accounted
  same : row.ciphertext = none ∨ row.ciphertext = some descriptor

instance (row : Object) (plan : Plan) (descriptor : Descriptor) :
    Decidable (row.Admits plan descriptor) :=
  decidable_of_iff
    (row.tombstoned = false ∧ (row.own plan = true ∨ row.verified = true) ∧
      descriptor.length = row.accounted ∧
        (row.ciphertext = none ∨ row.ciphertext = some descriptor))
    ⟨fun ⟨a, b, c, d⟩ => ⟨a, b, c, d⟩, fun ⟨a, b, c, d⟩ => ⟨a, b, c, d⟩⟩

/-- `transfer::uploads`: descriptors are frozen before a URL is exposed. -/
def Tables.uploads (t : Tables) (e : Execution) (checkpoint pin : String)
    (input : List (String × Descriptor)) (now : Int) : Except TaskRefusal (Tables × Batch) := do
  let ids := input.map Prod.fst
  require ids.Nodup .replayConflict
  let (plan, held) ← t.owned e checkpoint pin .upload now
  let objects ← t.scoped plan ids
  require (∀ item ∈ input, ∀ row ∈ objects, row.id = item.1 → row.Admits plan item.2)
    .replayConflict
  let frozen := t.describe input plan.workspace now
  let objects ← frozen.scoped plan ids
  let kept ← frozen.protect ids held now
  return (kept, ⟨plan, held, objects, .upload, false, []⟩)

/-- `transfer::authorize`, under a pin or to begin a restore. -/
def Tables.authorize (t : Tables) (ids : Nat → String) (e : Execution) (checkpoint : String)
    (pin : Option String) (purpose : Purpose) (objectIds : List String) (now : Int) :
    Except TaskRefusal (Tables × Batch) := do
  require objectIds.Nodup .replayConflict
  match pin with
  | some pin =>
      let (plan, held) ← t.owned e checkpoint pin purpose now
      let objects ← t.scoped plan objectIds
      require (purpose = .restore → ∀ row ∈ objects, row.verified = true) .checkpointIncompatible
      let kept ← t.protect objectIds held now
      return (kept, ⟨plan, held, objects, purpose, true, []⟩)
  | none =>
      require (purpose = .restore ∧ objectIds = []) .checkpointIncompatible
      let task ← t.attached e now
      let plan ← found (t.planOf checkpoint e.task) .notFound
      require (plan.compatible e .restore) .checkpointIncompatible
      let (pinned, held) ← t.pinInsert plan task e .reader (ids 0) now
      let kept ← pinned.protect objectIds held now
      return (kept, ⟨plan, held, [], purpose, true, []⟩)

/-- `object_ids.sql`: the objects a restore pages through. -/
def Tables.objectIds (t : Tables) (plan : Plan) (after : Option String) : List String :=
  (((t.objects.filter fun row => row.workspace == plan.workspace && t.inScope plan row &&
    after.all fun last => decide (last < row.id)).map Object.id).insertionSort (· ≤ ·)).take 100

/-- `transfer::list`. -/
def Tables.list (t : Tables) (e : Execution) (checkpoint pin : String) (after : Option String)
    (now : Int) : Except TaskRefusal (Tables × Batch) := do
  let (plan, held) ← t.owned e checkpoint pin .restore now
  let ids := t.objectIds plan after
  let objects ← t.scoped plan ids
  require (∀ row ∈ objects, row.verified = true) .checkpointIncompatible
  let kept ← t.protect ids held now
  return (kept, ⟨plan, held, objects, .restore, false, []⟩)

/-- `pins::renew`. -/
def Tables.renew (t : Tables) (e : Execution) (checkpoint pin : String) (version : Nat)
    (now : Int) : Except TaskRefusal Tables := do
  let _ ← t.attached e now
  let plan ← found (t.planOf checkpoint e.task) .notFound
  let held ← found (t.pinOf pin checkpoint) .notFound
  require (plan.compatible e (if held.kind = .writer then .upload else .restore))
    .checkpointIncompatible
  require (held.Held e now ∧ held.resourceVersion = version) .staleState
  return t.pinRenew pin now

/-! ## Commits -/

/-- The pages of an owner, in order: `pages_complete.sql`. -/
def Tables.pagesComplete (t : Tables) (owner : Owner) : List Page :=
  (t.pages.filter fun row => row.owner == owner).insertionSort fun left right =>
    left.number ≤ right.number

/-- `commit::scan_pages`, of the rows read: the page after the ones passed, with its body and
its digest, and what the manifest is made of. -/
def scanPages : List String → List Page → Nat → Nat →
    Except TaskRefusal (List (String × String × CheckpointPage) × Nat)
  | [], [], _, bytes => .ok ([], bytes)
  | _, [], _, _ => .error .checkpointIncompatible
  | ids, page :: rest, position, bytes => do
      require (ids.head? = some page.id ∧ page.number = position) .checkpointIncompatible
      let (digest, contents) ← found page.body .checkpointIncompatible
      let bytes := bytes + contents.bytes
      require (bytes ≤ Recovery.checkpointPageBytes * Recovery.checkpointPages) .limitExhausted
      require (digests.sha256 contents.json = digest) .checkpointIncompatible
      let (others, bytes) ← scanPages ids.tail rest (position + 1) bytes
      return ((page.id, digest, contents) :: others, bytes)

def contentsOf (pages : List (String × String × CheckpointPage)) : List CheckpointPage :=
  pages.map fun page => page.2.2

def rootOf (pages : List (String × String × CheckpointPage)) : String :=
  digests.manifestRoot (pages.map fun page => (page.1, page.2.1))

/-- The daemon's verdict on a tree, as a commit reports it. -/
def folded {A : Type} (verdict : Except Recovery.TaskRefusal A) : Except TaskRefusal A :=
  match verdict with
  | .ok value => .ok value
  | .error .limitExhausted => .error .limitExhausted
  | .error .checkpointIncompatible => .error .checkpointIncompatible

/-- `commit::scan`: the pages of the base, then of the plan, over one tree. -/
def Tables.scan (t : Tables) (plan : Plan) (holder : Owner) :
    Except TaskRefusal (List (String × String × CheckpointPage)) := do
  let (tree, bytes) ←
    match plan.mode, plan.base with
    | .incremental, some id => do
        let base ← found (t.baseOf id) .checkpointIncompatible
        let (pages, bytes) ← scanPages digests base.pageIds (t.pagesComplete (.base base.id)) 0 0
        let tree ← folded (Tree.applyEntries (manifest (contentsOf pages)) none ⟨SortedMap.empty⟩)
        require (some (rootOf digests pages) = base.manifestRoot) .checkpointIncompatible
        pure (tree, bytes)
    | _, _ => pure (⟨SortedMap.empty⟩, 0)
  let (pages, _) ← scanPages digests plan.pageIds (t.pagesComplete holder) 0 bytes
  let tree ← folded (tree.applyEntries (manifest (contentsOf pages)) none)
  folded (tree.verify plan.entryCount plan.logicalBytes)
  return pages

/-- The chunks of the history: `history.sql`, in the order of the manifest. -/
def Tables.history (t : Tables) (workspace : String) (ids : List String) : List Object :=
  ids.filterMap fun id => t.objects.find? fun row =>
    row.id == id && row.workspace == workspace && row.verified && !row.tombstoned

def historyBytes : Nat := 64 * 1024 * 1024

/-- `commit::verify_manifest`. -/
def Tables.verifyManifest (t : Tables) (plan : Plan) (holder : Owner) (commit : Commit) :
    Except TaskRefusal Unit := do
  let pages ← t.scan digests plan holder
  require (rootOf digests pages = commit.manifestRoot) .checkpointIncompatible
  let ids := (contentsOf pages).flatMap CheckpointPage.historyObjects
  let chunks := t.history plan.workspace ids
  require (chunks.length = ids.length) .checkpointIncompatible
  require ((chunks.map fun row => row.plaintext.size).sum ≤ historyBytes) .limitExhausted
  require (digests.historyRoot (chunks.map fun row =>
    (row.id, row.plaintext.sha256, row.plaintext.size)) = commit.historyDigest)
    .checkpointIncompatible
  require (t.objectsComplete holder plan.workspace = true) .checkpointIncompatible

/-- `commit::publish`. -/
def Tables.publish (t : Tables) (e : Execution) (checkpoint pin : String) (commit : Commit)
    (now : Int) : Except TaskRefusal Tables := do
  let previous ← found (t.planOf checkpoint e.task) .notFound
  if previous.ready then
    require (previous.manifestRoot = some commit.manifestRoot ∧
      previous.historyDigest = some commit.historyDigest ∧
        previous.coveredInput = commit.coveredInput ∧
          previous.effectWatermark = commit.effectWatermark) .replayConflict
    let _ ← found (t.pinOf pin checkpoint) .refused
    return t
  else
    let (plan, held) ← t.owned e checkpoint pin .upload now
    require (commit.coveredInput = e.coveredInput ∧ commit.effectWatermark ≤ e.confirmedEffects)
      .staleState
    let holder ← plan.holder
    t.verifyManifest digests plan holder commit
    let saved := t.planReady plan.id commit
    let pointed := match holder with
      | .base base => saved.baseReady base commit.manifestRoot now
      | .checkpoint _ => saved.taskCheckpoint plan.task plan.id
    return pointed.pinRelease held.id

end Transactions

end Agentsfleet.Custody
