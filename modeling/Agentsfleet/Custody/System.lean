import Agentsfleet.Custody.Keep
import Agentsfleet.Library.Trace

/-!
# The checkpoint store

Runners save and restore checkpoints while the daemon retires and purges them, over one set of
tables and one private bucket.  A transaction hands what it read to the signing that follows
it, a signed upload lands whenever its runner gets to it, and a purge is claimed, sent to the
bucket and acknowledged in steps of their own; anything may happen between two steps.
-/

set_option autoImplicit false

namespace Agentsfleet.Custody

open Agentsfleet.Library
open Agentsfleet.Recovery (CheckpointPage)

/-- An object of the bucket.  `opens` is whether its bytes decrypt, under the key and the
identity of its row, to the plaintext that row names. -/
structure Stored where
  object : String
  descriptor : Descriptor
  opens : Bool
deriving DecidableEq

/-- A signed upload: one object, created only, of this digest and length. -/
structure Upload where
  object : String
  descriptor : Descriptor
  expiresAt : Int
deriving DecidableEq

structure Store where
  clock : Int
  tables : Tables
  bucket : List Stored
  uploads : List Upload
  batches : List Batch
  orphans : List (String × String)
  bases : List (String × String)
  claimed : List (String × String)
  deleted : List (String × String)
  drawn : Nat

def Store.start : Store := ⟨0, Tables.empty, [], [], [], [], [], [], [], 0⟩

/-- One step of a runner's request, of the maintenance, of the bucket, or of what surrounds
them. -/
inductive Event where
  | create (e : Execution) (input : PlanInput)
  | register (e : Execution) (checkpoint pin : String) (input : List Plaintext)
  | write (e : Execution) (checkpoint pin page digest : String) (contents : CheckpointPage)
  | uploads (e : Execution) (checkpoint pin : String) (input : List (String × Descriptor))
  | authorize (e : Execution) (checkpoint : String) (pin : Option String) (purpose : Purpose)
      (ids : List String)
  | list (e : Execution) (checkpoint pin : String) (after : Option String)
  | renew (e : Execution) (checkpoint pin : String) (version : Nat)
  | publish (e : Execution) (checkpoint pin : String) (commit : Commit)
  /-- What follows a transfer's transaction: one object is signed or read back, and what was
  read back is recorded. -/
  | issue (slot index : Nat)
  | record (slot : Nat)
  /-- A signed upload lands. -/
  | put (slot : Nat) (opens : Bool)
  /-- Maintenance. -/
  | retain (task : String) (held : List (String × Int))
  | findBases
  | releaseBase (slot : Nat)
  | findOrphans
  | collect (workspace : String)
  | claim (busy : List String) (limit : Nat)
  | delete (slot : Nat)
  | acknowledge (slot : Nat)
  /-- What other parts of the daemon do to workspaces and tasks. -/
  | found
  | dropWorkspace (workspace : String)
  | open_ (task : Task)
  | move (task : String) (generation stopGeneration : Nat) (running : Bool)
      (terminalAt : Option Int)
  | dropTask (task : String)

section Steps

variable (digests : Digests) (uuid7 : Nat → String) (inFlight : Nat)

/-- `transfer::issue`, of one object: what was read back of it, and what was signed. -/
def issueOne (bucket : List Stored) (batch : Batch) (row : Object) (now : Int) :
    Option (Option (String × Descriptor) × Option Upload) := do
  guard (row.tombstoned = false ∧
    (batch.purpose = .upload → row.verified = true ∨ row.own batch.plan = true))
  let deadline := min batch.pin.expiresAt batch.pin.operationDeadline
  let lifetime := min (deadline - now) urlMs
  match batch.purpose with
  | .restore =>
      guard (0 < lifetime)
      return (none, none)
  | .upload =>
      if row.verified then
        guard (0 < lifetime)
        return (none, none)
      else
        let descriptor ← row.ciphertext
        match if batch.verify then bucket.find? fun held => held.object == row.id else none with
        | some held =>
            guard (held.descriptor = descriptor ∧ held.opens = true ∧ 0 < lifetime)
            return (some (row.id, descriptor), none)
        | none =>
            guard (0 < lifetime)
            return (none, some ⟨row.id, descriptor, min (now + lifetime) deadline⟩)

def Store.commit (s : Store) (drawn : Nat) (result : Except TaskRefusal Tables) : Store :=
  match result with
  | .ok tables => { s with tables := tables, drawn := s.drawn + drawn }
  | .error _ => s

def Store.transfer (s : Store) (drawn : Nat) (result : Except TaskRefusal (Tables × Batch)) :
    Store :=
  match result with
  | .ok (tables, batch) =>
      { s with tables := tables, batches := s.batches ++ [batch], drawn := s.drawn + drawn }
  | .error _ => s

def Store.issue (s : Store) (slot index : Nat) : Store :=
  match s.batches[slot]? with
  | none => s
  | some batch =>
      match batch.objects[index]?.bind fun row => issueOne s.bucket batch row s.clock with
      | none => s
      | some (receipt, upload) =>
          { s with
            batches := s.batches.set slot
              { batch with receipts := batch.receipts ++ receipt.toList }
            uploads := s.uploads ++ upload.toList }

/-- An upload lands while its URL stands, or as far behind it as requests may be. -/
def Store.put (s : Store) (slot : Nat) (opens : Bool) : Store :=
  match s.uploads[slot]? with
  | none => s
  | some upload =>
      if s.clock < upload.expiresAt + inFlight ∧
          (s.bucket.any fun held => held.object == upload.object) = false then
        { s with bucket := s.bucket ++ [⟨upload.object, upload.descriptor, opens⟩] }
      else s

def Store.act (s : Store) : Event → Store
  | .create e input =>
      s.commit (input.pageCount + 3)
        (s.tables.create digests (fun k => uuid7 (s.drawn + k)) e input s.clock)
  | .register e checkpoint pin input =>
      s.commit (input.length + 1)
        (s.tables.register digests (fun k => uuid7 (s.drawn + k)) e checkpoint pin input s.clock)
  | .write e checkpoint pin page digest contents =>
      s.commit 0 (s.tables.write digests e checkpoint pin page digest contents s.clock)
  | .uploads e checkpoint pin input =>
      s.transfer 0 (s.tables.uploads e checkpoint pin input s.clock)
  | .authorize e checkpoint pin purpose ids =>
      s.transfer 1
        (s.tables.authorize (fun k => uuid7 (s.drawn + k)) e checkpoint pin purpose ids s.clock)
  | .list e checkpoint pin after => s.transfer 0 (s.tables.list e checkpoint pin after s.clock)
  | .renew e checkpoint pin version =>
      s.commit 0 (s.tables.renew e checkpoint pin version s.clock)
  | .publish e checkpoint pin commit =>
      s.commit 0 (s.tables.publish digests e checkpoint pin commit s.clock)
  | .issue slot index => s.issue slot index
  | .record slot =>
      match s.batches[slot]? with
      | none => s
      | some batch =>
          { s with tables := s.tables.record batch.plan.workspace batch.receipts s.clock }
  | .put slot opens => s.put inFlight slot opens
  | .retain task held => { s with tables := s.tables.retainOne task held s.clock }
  | .findBases => { s with bases := s.tables.baseOrphans s.clock }
  | .releaseBase slot =>
      match s.bases[slot]? with
      | none => s
      | some (workspace, base) =>
          { s with tables := s.tables.releaseBase workspace base s.clock }
  | .findOrphans => { s with orphans := s.tables.orphans s.clock }
  | .collect workspace =>
      { s with
        tables := s.tables.collect workspace
          ((s.orphans.filter fun row => row.1 == workspace).map Prod.snd) s.clock }
  | .claim busy limit =>
      { s with
        tables := s.tables.purgeClaim busy (min limit 4) s.clock
        claimed := s.claimed ++ (s.tables.duePurges busy (min limit 4) s.clock).map fun row =>
          (row.object, row.workspace) }
  | .delete slot =>
      match s.claimed[slot]? with
      | none => s
      | some purge =>
          { s with
            bucket := s.bucket.filter fun held => held.object != purge.1
            deleted := s.deleted ++ [purge] }
  | .acknowledge slot =>
      match s.deleted[slot]? with
      | none => s
      | some (object, workspace) => { s with tables := s.tables.acknowledge object workspace }
  | .found =>
      { s with
        drawn := s.drawn + 1
        tables := { s.tables with workspaces := s.tables.workspaces ++ [uuid7 s.drawn] } }
  | .dropWorkspace workspace => { s with tables := s.tables.dropWorkspace workspace }
  | .open_ task =>
      if s.tables.workspaces.contains task.workspace then
        { s with tables := s.tables.openTask task }
      else s
  | .move task generation stopGeneration running terminalAt =>
      { s with tables := s.tables.moveTask task generation stopGeneration running terminalAt }
  | .dropTask task => { s with tables := s.tables.dropTask task }

def Store.step (s : Store) (event : Nat × Event) : Store :=
  { s with clock := s.clock + event.1 }.act digests uuid7 inFlight event.2

end Steps

end Agentsfleet.Custody
