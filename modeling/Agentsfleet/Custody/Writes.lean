import Agentsfleet.Custody.System
import Mathlib.Logic.Relation

/-!
# What a transaction writes

Every transaction is a few statements, each of which is named here with what its transaction
has proved before it.  What the tables keep is then proved statement by statement.
-/

set_option autoImplicit false

namespace Agentsfleet.Custody

open Agentsfleet.Core
open Agentsfleet.Library
open Agentsfleet.Recovery (CheckpointEntry CheckpointPage)

def Tables.Open (t : Tables) (workspace : String) : Owner → Prop
  | .checkpoint id => ∃ plan ∈ t.plans, plan.id = id ∧ plan.mode = .incremental ∧
      plan.workspace = workspace ∧ plan.ready = false
  | .base id => ∃ base ∈ t.bases, base.id = id ∧ base.workspace = workspace ∧ base.ready = false

def Tables.Paged (t : Tables) (owner : Owner) (ids : List String) : Prop :=
  ∀ id ∈ ids, ∃ page ∈ t.pages, page.id = id ∧ page.owner = owner ∧ page.body.isSome = true

structure Object.Born (row : Object) (workspace : String) : Prop where
  workspace : row.workspace = workspace
  verified : row.verified = false
  tombstoned : row.tombstoned = false
  ciphertext : row.ciphertext = none
  accounted : 0 ≤ row.accounted

structure Plan.Allocated (plan : Plan) (t : Tables) : Prop where
  fresh : plan.id ∉ t.plans.map Plan.id
  known : plan.workspace ∈ t.workspaces
  abandoned : plan.abandoned = false
  retains : plan.mode = .retainBase → plan.base ≠ none
  incremental : plan.mode = .incremental → plan.ready = false
  rests : ∀ id, plan.base = some id → ∃ base ∈ t.bases, base.id = id ∧
    base.workspace = plan.workspace ∧ (plan.mode = .incremental → base.ready = true) ∧
      (plan.mode = .retainBase → base.retired = false ∧ plan.ready = base.ready ∧
        plan.pageIds = base.pageIds)
  sole : plan.mode = .retainBase → plan.ready = false →
    ∀ other ∈ t.plans, other.base = plan.base → other.mode ≠ .retainBase

def Tables.published (t : Tables) (plan : Plan) (holder : Owner) (commit : Commit) (now : Int) :
    Tables :=
  match holder with
  | .base base => (t.planReady plan.id commit).baseReady base commit.manifestRoot now
  | .checkpoint _ => (t.planReady plan.id commit).taskCheckpoint plan.task plan.id

/-- One statement.  `drawn` are the identities drawn so far, `stored` what the bucket holds
readable, `gone` what it was asked to delete and did, and `drops` the plans that may go. -/
inductive Writes (drawn : String → Prop) (stored : String → Descriptor → Prop)
    (gone drops : String → Prop) (t : Tables) : Tables → Prop where
  | quota (workspace : String) (known : workspace ∈ t.workspaces) :
      Writes drawn stored gone drops t (t.quota workspace)
  | reserve (workspace : String) (new : List Object) (reserved : Tables)
      (admitted : t.quotaReserve workspace (accountedBytes new) = some reserved)
      (distinct : (new.map Object.id).Nodup)
      (fresh : ∀ row ∈ new, drawn row.id ∧ row.id ∉ t.objects.map Object.id ∧
        row.id ∉ t.purges.map Purge.object)
      (born : ∀ row ∈ new, row.Born workspace) :
      Writes drawn stored gone drops t (reserved.objectsInsert new)
  | planBytes (checkpoint : String) (bytes : Int) :
      Writes drawn stored gone drops t (t.planBytes checkpoint bytes)
  | attach (ids : List String) (workspace : String) (owner : Owner)
      (open_ : t.Open workspace owner) :
      Writes drawn stored gone drops t (t.objectsAttach ids workspace owner)
  | protect (ids : List String) (expiresAt now : Int) :
      Writes drawn stored gone drops t (t.objectsProtect ids expiresAt now)
  | describe (rows : List (String × Descriptor)) (workspace : String) (now : Int)
      (lengths : ∀ row ∈ t.objects, row.workspace = workspace → row.ciphertext = none →
        ∀ descriptor, described rows row.id = some descriptor →
          descriptor.length = row.accounted) :
      Writes drawn stored gone drops t (t.describe rows workspace now)
  | verify (receipts : List (String × Descriptor)) (workspace : String) (now : Int)
      (read : ∀ row ∈ t.objects, ∀ descriptor, described receipts row.id = some descriptor →
        stored row.id descriptor) :
      Writes drawn stored gone drops t (t.verify receipts workspace now)
  | dropObjects (picks : Object → Bool)
      (unheld : ∀ row ∈ t.objects, picks row = true → t.unheld row = true) :
      Writes drawn stored gone drops t (t.dropObjects picks)
  | dropPlans (picks : Plan → Bool)
      (allowed : ∀ plan ∈ t.plans, picks plan = true → drops plan.id) :
      Writes drawn stored gone drops t (t.dropPlans picks)
  | dropBases (picks : Base → Bool)
      (free : ∀ base ∈ t.bases, picks base = true → ∀ plan ∈ t.plans, plan.base ≠ some base.id) :
      Writes drawn stored gone drops t (t.dropBases picks)
  | newBase (base : Base) (id : drawn base.id) (fresh : base.id ∉ t.bases.map Base.id)
      (unready : base.ready = false) (stands : base.retired = false) :
      Writes drawn stored gone drops t
        { t with bases := t.bases ++ [base]
                 pages := t.pages ++ allocated (.base base.id) base.pageIds }
  | newPlan (plan : Plan) (operation : Operation) (sequence : Task → Task)
      (id : drawn plan.id) (allocates : plan.Allocated t)
      (counts : ∀ task, (sequence task).id = task.id ∧
        (sequence task).workspace = task.workspace ∧
          (sequence task).checkpoint = task.checkpoint) (pages : List String) :
      Writes drawn stored gone drops t
        { t with plans := t.plans ++ [plan]
                 operations := t.operations ++ [operation]
                 tasks := t.tasks.map sequence
                 pages := t.pages ++ allocated (.checkpoint plan.id) pages }
  | pageWrite (page : String) (owner : Owner) (digest : String) (contents : CheckpointPage)
      (named : ∀ id ∈ namedObjects contents, ∃ ref ∈ t.refs, ref.object = id ∧ ref.owner = owner) :
      Writes drawn stored gone drops t (t.pageWrite page owner digest contents)
  | publish (plan : Plan) (holder : Owner) (commit : Commit) (now : Int) (held : plan ∈ t.plans)
      (unready : plan.ready = false) (stands : plan.abandoned = false)
      (holds : plan.holder = .ok holder)
      (complete : t.objectsComplete holder plan.workspace = true)
      (paged : t.Paged holder plan.pageIds) :
      Writes drawn stored gone drops t (t.published plan holder commit now)
  | abandon (picks : Plan → Bool) (unready : ∀ plan, picks plan = true → plan.ready = false) :
      Writes drawn stored gone drops t
        { t with plans := Table.update picks (fun row => { row with abandoned := true }) t.plans }
  | retire (workspace repository : String) (now : Int) :
      Writes drawn stored gone drops t (t.retireUnfinishedBase workspace repository now)
  | pins (rows : List Pin) : Writes drawn stored gone drops t { t with pins := rows }
  | identities (rows : List IdentityKey) :
      Writes drawn stored gone drops t { t with identities := rows }
  | claim (picks : Purge → Bool) (at_ : Int)
      (later : ∀ purge ∈ t.purges, picks purge = true → purge.nextAttempt ≤ at_) :
      Writes drawn stored gone drops t
        { t with purges := Table.update picks (fun row => { row with nextAttempt := at_ })
                   t.purges }
  | complete (object workspace : String) (deleted : gone object) :
      Writes drawn stored gone drops t (t.purgeComplete object workspace)
  | openTask (task : Task) (known : task.workspace ∈ t.workspaces) :
      Writes drawn stored gone drops t (t.openTask task)
  | moveTask (task : String) (generation stopGeneration : Nat) (running : Bool)
      (terminalAt : Option Int) :
      Writes drawn stored gone drops t (t.moveTask task generation stopGeneration running terminalAt)
  | dropTasks (picks : Task → Bool) :
      Writes drawn stored gone drops t { t with tasks := t.tasks.filter fun row => !picks row }
  | found (workspace : String) (id : drawn workspace) (fresh : workspace ∉ t.workspaces)
      (unowed : ∀ purge ∈ t.purges, purge.workspace ≠ workspace) :
      Writes drawn stored gone drops t { t with workspaces := t.workspaces ++ [workspace] }
  | leave (workspace : String) (tasks : ∀ task ∈ t.tasks, task.workspace ≠ workspace)
      (plans : ∀ plan ∈ t.plans, plan.workspace ≠ workspace)
      (objects : ∀ row ∈ t.objects, row.workspace ≠ workspace) :
      Writes drawn stored gone drops t
        { t with workspaces := t.workspaces.filter fun row => row != workspace
                 quotas := t.quotas.filter fun row => row.workspace != workspace }

def Written (drawn : String → Prop) (stored : String → Descriptor → Prop)
    (gone drops : String → Prop) : Tables → Tables → Prop :=
  Relation.ReflTransGen (Writes drawn stored gone drops)

section Written

variable {drawn : String → Prop} {stored : String → Descriptor → Prop}
  {gone drops : String → Prop} {t next after : Tables}

theorem Written.refl : Written drawn stored gone drops t t := Relation.ReflTransGen.refl

theorem Written.one (writes : Writes drawn stored gone drops t after) : Written drawn stored gone drops t after :=
  Relation.ReflTransGen.single writes

theorem Written.then (written : Written drawn stored gone drops t next)
    (writes : Writes drawn stored gone drops next after) : Written drawn stored gone drops t after :=
  Relation.ReflTransGen.tail written writes

theorem Written.trans (written : Written drawn stored gone drops t next)
    (rest : Written drawn stored gone drops next after) : Written drawn stored gone drops t after :=
  Relation.ReflTransGen.trans written rest

theorem Written.keeps (holds : Tables → Prop)
    (statement : ∀ {t after : Tables}, holds t → Writes drawn stored gone drops t after → holds after)
    (start : holds t) (written : Written drawn stored gone drops t after) : holds after := by
  induction written with
  | refl => exact start
  | tail _ writes ih => exact statement ih writes

end Written

end Agentsfleet.Custody
